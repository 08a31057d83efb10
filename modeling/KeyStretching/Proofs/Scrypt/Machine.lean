import KeyStretching.Proofs.Cost.Sizes
import KeyStretching.Proofs.Pbkdf2.InPlace
import KeyStretching.Proofs.Scrypt.Memory
import KeyStretching.Proofs.Scrypt.Outcome
import KeyStretching.Proofs.Scrypt.Prefix

/-!
# Derivations that check every step

A machine computes offsets and lengths in words, allocates buffers, and works on parts of them. Each
of these steps may have no result: a number may be no word, a buffer too large, a part of it out of
bounds, or of another length than what is to be written there. Here a derivation is carried out with
all of these checks, and stops at the first step without a result (`Machine.derive`).

For admissible cost parameters there is no such step. This is found step by step, by comparing with
the steps that have offsets in unbounded arithmetic, and loop by loop:

* `mixStep?_eq`, `blockMix?_eq`: the slots of a lane;
* `fillStep?_eq`, `revisitStep?_eq`, `roMix?_eq`: the places of the memory, whichever the lane
  selects;
* `mixLane?_eq`, `mixLanes?_eq`: the lanes of the buffer, in any order;
* `derive_eq`, `derive_ne_stuck`: both passes and the checks before them, for all parameters;
* `exists_completes`: the derivation comes to its end, with the key that is derived without checks.
-/

namespace KeyStretching

open Buffer (read? write?)
open Standard (piece)

/-! ## Keying that may fail -/

/-- The key of a given length, unless the password is refused. -/
def Scrypt.deriveWith (keying : Keying) (a : Algorithm) (password salt : Bytes) (n r p : UInt32)
    (keyLen : Nat) : Except Error Bytes :=
  match Cost.ofTriple n r p with
  | .error e => .error (.cost e)
  | .ok c => do
    let spread ← Pbkdf2.deriveWith keying a password salt 1 (128 * c.r.toNat * c.p.toNat)
    let mixed := (mixLanes c.r_pos c.n_pos (List.range c.p.toNat) spread).value
    Pbkdf2.deriveWith keying a password mixed 1 keyLen

/-- No password is refused, and the key is the one that is derived as if none could be. -/
theorem Scrypt.deriveWith_eq {keying : Keying} (h : keying.Lawful) (a : Algorithm)
    (password salt : Bytes) (n r p : UInt32) (keyLen : Nat) :
    deriveWith keying a password salt n r p keyLen =
      (derive a password salt n r p keyLen).value := by
  cases hcost : Cost.ofTriple n r p with
  | error e =>
    rw [deriveWith, derive, hcost]
    rfl
  | ok c =>
    have hone : (1 : UInt32) ≠ 0 := by decide
    have hspread := Pbkdf2.derive_of_le a password salt hone (c.lanes_le_maxKeyLen a)
    rw [value_derive_eq_derive a password salt hcost, deriveWith, hcost]
    simp only [Pbkdf2.deriveWith_eq h, hspread]
    rfl

namespace Machine

/-! ## Mixing words -/

section

variable (w r : Nat)

/-- A step of the mixing, which finds the slot of its value by the offsets where it starts and
    ends. -/
def mixStep? (input : List UInt32) (s : Block × List UInt32) (i : Nat) :
    Option (Block × List UInt32) := do
  let block ← (read? (16 * i) 16 input).bind Block.ofWords?
  let x := Salsa.core (s.1.xor block)
  let start ← (Size.slotStart r i).checked w
  let stop ← (Size.slotEnd r i).checked w
  let output ← Buffer.replace? start stop x.toList s.2
  pure (x, output)

/-- Mixes a run of words over another, if both have the length of a lane. -/
def blockMix? (input output : List UInt32) : Option (List UInt32) := do
  let len ← (Size.blockWords r).checked w
  guard (input.length = len ∧ output.length = input.length)
  let start ← (Size.lastStart r).checked w
  let last ← (Buffer.slice? start input.length input).bind Block.ofWords?
  let count ← Buffer.wholeCount? 16 input
  let (_, output) ← (List.range count).foldlM (mixStep? w r input) (last, output)
  pure output

/-! ## Mixing through memory -/

/-- A step of filling: the lane of so many words is kept at the place numbered `i`, and mixed. -/
def fillStep? (words : Nat) (b : Buffers) (i : Nat) : Option Buffers := do
  let memory ← write? (words * i) words b.current b.memory
  let mixed ← blockMix? w r b.current b.spare
  pure ⟨memory, mixed, b.current⟩

/-- Keeps the lane at each place of the memory, of which nothing may be left, before it is mixed
    once more. -/
def fill? (words : Nat) (b : Buffers) : Option Buffers := do
  let count ← Buffer.wholeCount? words b.memory
  (List.range count).foldlM (fillStep? w r words) b

/-- A step of revisiting: the lane takes in the place that it selects, and is mixed. -/
def revisitStep? (n : Nat) (b : Buffers) (_ : Nat) : Option Buffers := do
  let last ← (Size.lastStart r).checked w
  let number ← b.current[last]?
  let mask ← (Size.placeMask n).checked w
  let start ← (Size.placeStart r (number.toNat &&& mask)).checked w
  let stop ← (Size.placeEnd r (number.toNat &&& mask)).checked w
  let selected ← Buffer.slice? start stop b.memory
  let current := List.zipWith (· ^^^ ·) b.current selected
  let mixed ← blockMix? w r current b.spare
  pure ⟨b.memory, mixed, current⟩

/-- Mixes the lane `k` times together with the places that it selects among `n`. -/
def revisit? (n k : Nat) (b : Buffers) : Option Buffers :=
  (List.range k).foldlM (revisitStep? w r n) b

end

/-- Reads the word of a given number. -/
def loadWord? (bytes : Bytes) (i : Nat) : Option UInt32 := do
  let word ← read? (4 * i) 4 bytes
  pure (UInt32.ofNat (Bytes.ofLittleEndian word))

/-- Reads the words of a lane, of which nothing may be left. -/
def load? (bytes : Bytes) : Option (List UInt32) := do
  let count ← Buffer.wholeCount? 4 bytes
  (List.range count).mapM (loadWord? bytes)

/-- Writes words over the bytes of a lane, of which nothing may be left. -/
def store? (words : List UInt32) (bytes : Bytes) : Option Bytes := do
  let count ← Buffer.wholeCount? 4 bytes
  (words.take count).zipIdx.foldlM
    (fun bytes word => write? (4 * word.2) 4 (Bytes.littleEndian 4 word.1.toNat) bytes) bytes

/-- Mixes a lane through `n` places of memory, in buffers that are new. -/
def roMix? (w r n : Nat) (bytes : Bytes) : Option Bytes := do
  let words ← (Size.laneWords r).checked w
  let len ← (Size.laneWordsLen r).checked w
  guard (bytes.length = len ∧ n ≠ 0 ∧ n &&& (n - 1) = 0)
  let current ← load? bytes
  let spare ← Buffer.new? w 4 words 0
  let memory ← scratch? w n r
  let filled ← fill? w r words ⟨memory, current, spare⟩
  let mixed ← revisit? w r n n filled
  store? mixed.current bytes

/-- Mixes the lane of a given number in place, which is shorter than the others if the buffer ends
    before. -/
def mixLane? (w r n laneLen : Nat) (buffer : Bytes) (lane : Nat) : Option Bytes := do
  let len := min laneLen (buffer.length - laneLen * lane)
  let bytes ← read? (laneLen * lane) len buffer
  let mixed ← roMix? w r n bytes
  write? (laneLen * lane) len mixed buffer

/-- Mixes all lanes of a buffer in place, each when it has its turn. -/
def mixLanes? (w r n laneLen : Nat) (schedule : Scrypt.Schedule) (buffer : Bytes) :
    Option Bytes := do
  let count ← Buffer.pieceCount? laneLen buffer
  (schedule.order count).foldlM (mixLane? w r n laneLen) buffer

/-! ## Deriving a key -/

/-- The buffer after a run on it, unless that ends early. -/
def runOn (fill : EStateM Stop Bytes Unit) (buffer : Bytes) : Except Stop Bytes :=
  match fill.run buffer with
  | .ok () key => .ok key
  | .error e _ => .error e

/-- The key of a given length, made in a new buffer. -/
def deriveIterated (w : Nat) (keying : Keying) (a : Algorithm) (password salt : Bytes)
    (iterations : UInt32) (keyLen : Nat) : Except Stop Bytes :=
  match Pbkdf2.checkBounds a iterations keyLen with
  | .error e => throw (.failed e)
  | .ok () => do
    let zeros ← orStuck (Buffer.new? w 1 keyLen 0)
    runOn (Pbkdf2.fillInPlace w keying a password salt iterations) zeros

/-- The key of a given length, for cost parameters that are checked first. -/
def derive (w : Nat) (schedule : Scrypt.Schedule) (keying : Keying) (a : Algorithm)
    (password salt : Bytes) (n r p : UInt32) (keyLen : Nat) : Except Stop Bytes := do
  match ← orStuck (Cost.check? n r p) with
  | .error e => throw (.failed (.cost e))
  | .ok () =>
    let laneLen ← orStuck ((Size.laneLen r.toNat).checked w)
    let bufferLen ← orStuck ((Size.bufferLen r.toNat p.toNat).checked w)
    let zeros ← orStuck (Buffer.new? w 1 bufferLen 0)
    let spread ← runOn (Pbkdf2.fillInPlace w keying a password salt 1) zeros
    let mixed ← orStuck (mixLanes? w r.toNat n.toNat laneLen schedule spread)
    deriveIterated w keying a password mixed 1 keyLen

/-! ## No step is without a result -/

section

variable {bytes : Bytes} {count : Nat} (h : bytes.length = 4 * count)

include h

theorem loadWord?_eq {i : Nat} (hi : i < count) :
    loadWord? bytes i = some (UInt32.ofNat (Bytes.ofLittleEndian (piece 4 i bytes))) := by
  rw [loadWord?, Buffer.read?_piece h hi]
  rfl

/-- Of whole words, all are read. -/
theorem load?_eq : load? bytes = some (wordsOf bytes) := by
  have hwords := Buffer.mapM_eq_some_map fun i hi => loadWord?_eq h (List.mem_range.1 hi)
  rw [load?, Buffer.wholeCount?_of_length (by decide) h, Option.bind_eq_bind, Option.bind_some,
    hwords, wordsOf, chunks_eq_map_piece (by decide) h, List.map_map]
  rfl

/-- So they are written. -/
theorem store?_eq (words : List UInt32) :
    store? words bytes = KeyStretching.store? words bytes := by
  rw [store?, KeyStretching.store?, Buffer.wholeCount?_of_length (by decide) h,
    Buffer.count?_of_length (by decide) h]

end

section

variable (c : Cost) {w : Nat} (hw : 32 ≤ w)

include hw

/-- The slot of a place starts and ends where its number says. -/
theorem mixStep?_eq (input : List UInt32) (s : Block × List UInt32) {i : Nat}
    (hi : i < 2 * c.r.toNat) :
    mixStep? w c.r.toNat input s i = KeyStretching.mixStep? c.r.toNat input s i := by
  have hstart := (Cost.Computes.slotStart (c := c) i hi).checked_eq hw
  have hend := (Cost.Computes.slotEnd (c := c) i hi).checked_eq hw
  simp only [mixStep?, KeyStretching.mixStep?, hstart, hend, Option.bind_eq_bind, Option.bind_some,
    Buffer.replace?_add, slotNumber, Nat.mul_comm 16]

/-- Runs of words that have the length of a lane are mixed. -/
theorem blockMix?_eq (input output : List UInt32) :
    blockMix? w c.r.toNat input output = KeyStretching.blockMix? c.r.toNat input output := by
  have hlen := (Cost.Computes.blockWords (c := c)).checked_eq hw
  have hlast := (Cost.Computes.lastStart (c := c)).checked_eq hw
  have hwords : 2 * c.r.toNat * 16 = 32 * c.r.toNat := by omega
  simp only [blockMix?, KeyStretching.blockMix?, hlen, hlast, hwords, Option.bind_eq_bind,
    Option.bind_some]
  by_cases hguard : input.length = 32 * c.r.toNat ∧ output.length = input.length
  · have hblocks : input.length = 16 * (2 * c.r.toNat) := by omega
    have hslice : Buffer.slice? ((2 * c.r.toNat - 1) * 16) input.length input = some _ :=
      Buffer.slice?_length (by omega)
    have hloop (s : Block × List UInt32) :
        (List.range (2 * c.r.toNat)).foldlM (mixStep? w c.r.toNat input) s =
          (List.range (2 * c.r.toNat)).foldlM (KeyStretching.mixStep? c.r.toNat input) s :=
      Buffer.foldlM_congr (fun i hi s => mixStep?_eq c hw input s (List.mem_range.1 hi)) s
    simp only [guard, if_pos hguard, hslice, Buffer.wholeCount?_of_length (by decide) hblocks,
      Buffer.count?_of_length (by decide) hblocks, hloop, Option.bind_some, Nat.mul_comm 16]
  · simp only [guard, if_neg hguard]
    rfl

theorem fillStep?_eq (b : Buffers) (i : Nat) :
    fillStep? w c.r.toNat (32 * c.r.toNat) b i = b.fillStep? c.r.toNat i := by
  simp only [fillStep?, Buffers.fillStep?, blockMix?_eq c hw]

/-- Nothing is left of the memory when each place is filled. -/
theorem fill?_eq {b : Buffers} (h : b.memory.length = 32 * c.r.toNat * c.n.toNat) :
    fill? w c.r.toNat (32 * c.r.toNat) b = b.fill? c.r.toNat := by
  have hpos : 0 < 32 * c.r.toNat := Nat.mul_pos (by decide) c.r_pos
  have hstep : fillStep? w c.r.toNat (32 * c.r.toNat) = Buffers.fillStep? c.r.toNat :=
    funext₂ (fillStep?_eq c hw)
  rw [fill?, Buffers.fill?, hstep, Buffer.wholeCount?_of_length hpos h,
    Buffer.count?_of_length hpos h]

/-- The place that a lane selects starts and ends within the memory. -/
theorem revisitStep?_eq (b : Buffers) (i : Nat) :
    revisitStep? w c.r.toNat c.n.toNat b i = b.revisitStep? c.r.toNat c.n.toNat i := by
  have hlast := (Cost.Computes.lastStart (c := c)).checked_eq hw
  have hmask := (Cost.Computes.placeMask (c := c)).checked_eq hw
  -- The bits that are left select a place of the memory, whatever the word.
  have hplace (number : UInt32) : number.toNat &&& (c.n.toNat - 1) < c.n.toNat :=
    Nat.lt_of_le_of_lt Nat.and_le_right (Nat.sub_lt c.n_pos Nat.one_pos)
  have hstart (number : UInt32) :=
    (Cost.Computes.placeStart (c := c) _ (hplace number)).checked_eq hw
  have hend (number : UInt32) :=
    (Cost.Computes.placeEnd (c := c) _ (hplace number)).checked_eq hw
  simp only [revisitStep?, Buffers.revisitStep?, hlast, hmask, hstart, hend, blockMix?_eq c hw,
    Buffer.slice?_add, Option.bind_eq_bind, Option.bind_some, Nat.mul_comm 16,
    Nat.mul_comm (32 * c.r.toNat)]

theorem revisit?_eq (k : Nat) (b : Buffers) :
    revisit? w c.r.toNat c.n.toNat k b = b.revisit? c.r.toNat c.n.toNat k := by
  have hstep : revisitStep? w c.r.toNat c.n.toNat = Buffers.revisitStep? c.r.toNat c.n.toNat :=
    funext₂ (revisitStep?_eq c hw)
  rw [revisit?, Buffers.revisit?, hstep]

/-- There is room for the buffers of a lane. -/
theorem roMix?_eq (bytes : Bytes) :
    roMix? w c.r.toNat c.n.toNat bytes = KeyStretching.roMix? c.r.toNat c.n.toNat bytes := by
  have hwords := (Cost.Computes.laneWords (c := c)).checked_eq hw
  have hlen := (Cost.Computes.laneWordsLen (c := c)).checked_eq hw
  simp only [roMix?, KeyStretching.roMix?, hwords, hlen, Option.bind_eq_bind, Option.bind_some]
  by_cases hguard : bytes.length = 4 * (32 * c.r.toNat) ∧ c.n.toNat ≠ 0 ∧
      c.n.toNat &&& (c.n.toNat - 1) = 0
  · have hspare : Buffer.new? w 4 (32 * c.r.toNat) (0 : UInt32) =
        some (List.replicate (32 * c.r.toNat) 0) := Buffer.new?_of_lt 0 (by
      have hhalf := Size.half_le hw
      have hlane := c.lane_le
      omega)
    have hfill := fill?_eq c hw (b := ⟨List.replicate (32 * c.r.toNat * c.n.toNat) 0,
      wordsOf bytes, List.replicate (32 * c.r.toNat) 0⟩) List.length_replicate
    simp only [guard, if_pos hguard, load?_eq hguard.1, hspare, c.scratch?_eq hw, hfill,
      revisit?_eq c hw, store?_eq hguard.1, Option.bind_some]
  · simp only [guard, if_neg hguard]
    rfl

/-- Mixing the bytes of a lane comes to the end. -/
theorem roMix?_of_length {bytes : Bytes} (h : bytes.length = 128 * c.r.toNat) :
    roMix? w c.r.toNat c.n.toNat bytes = some (RoMix.mixBytes c.r_pos c.n_pos bytes) := by
  obtain ⟨k, hk, hpow⟩ := c.exists_two_pow
  have hlane := Lane.toBytes_ofBytes h
  rw [roMix?_eq c hw, RoMix.mixBytes, RoMix.mixLane_eq_iterate,
    toBytes_iterate_anew c.r_pos c.n_pos hk hpow, ← KeyStretching.roMix?_eq c.r_pos c.n_pos hk hpow,
    hlane]

/-! ## Lanes -/

section

variable {buffer : Bytes} (h : buffer.length = 128 * c.r.toNat * c.p.toNat)

include h

/-- The turn of a lane comes to the end. -/
theorem mixLane?_eq {lane : Nat} (hlane : lane < c.p.toNat) :
    mixLane? w c.r.toNat c.n.toNat (128 * c.r.toNat) buffer lane =
      some (Scrypt.mixInPlace c.r_pos c.n_pos buffer lane) := by
  have hle : 128 * c.r.toNat * lane + 128 * c.r.toNat ≤ buffer.length := by
    rw [h, ← Nat.mul_succ]
    exact Nat.mul_le_mul_left _ hlane
  have hlen : min (128 * c.r.toNat) (buffer.length - 128 * c.r.toNat * lane) = 128 * c.r.toNat := by
    omega
  have hwrite : write? (128 * c.r.toNat * lane) (128 * c.r.toNat)
      (RoMix.mixBytes c.r_pos c.n_pos (piece (128 * c.r.toNat) lane buffer)) buffer =
        some (Scrypt.mixInPlace c.r_pos c.n_pos buffer lane) :=
    if_pos ⟨hle, RoMix.length_mixBytes ..⟩
  simp only [mixLane?, hlen, Buffer.read?_piece h hlane,
    roMix?_of_length c hw (length_piece h hlane), hwrite, Option.bind_eq_bind, Option.bind_some]

/-- So do the turns of any lanes. -/
theorem foldlM_mixLane?_eq {order : List Nat} (horder : ∀ lane ∈ order, lane < c.p.toNat) :
    order.foldlM (mixLane? w c.r.toNat c.n.toNat (128 * c.r.toNat)) buffer =
      some (order.foldl (Scrypt.mixInPlace c.r_pos c.n_pos) buffer) := by
  induction order generalizing buffer with
  | nil => rfl
  | cons lane order ih =>
    obtain ⟨hlane, horder⟩ := List.forall_mem_cons.1 horder
    rw [List.foldlM_cons, mixLane?_eq c hw h hlane, Option.bind_eq_bind, Option.bind_some,
      ih (Scrypt.length_mixInPlace c.r_pos c.n_pos h hlane) horder, List.foldl_cons]

/-- Whoever is next, all lanes are mixed. -/
theorem mixLanes?_eq (schedule : Scrypt.Schedule) :
    mixLanes? w c.r.toNat c.n.toNat (128 * c.r.toNat) schedule buffer =
      some (Scrypt.mixLanes c.r_pos c.n_pos (List.range c.p.toNat) buffer).value := by
  have hperm := schedule.perm_range c.p.toNat
  have hcount := Buffer.pieceCount?_of_length (Nat.mul_pos (by decide) c.r_pos) h
  have horder : ∀ lane ∈ schedule.order c.p.toNat, lane < c.p.toNat :=
    fun lane hlane => List.mem_range.1 (hperm.mem_iff.1 hlane)
  rw [mixLanes?, hcount, Option.bind_eq_bind, Option.bind_some, foldlM_mixLane?_eq c hw h horder,
    ← Scrypt.value_mixLanes_eq_foldl c.r_pos c.n_pos h horder,
    Scrypt.value_mixLanes_of_perm c.r_pos c.n_pos h hperm,
    Scrypt.value_mixLanes_of_perm c.r_pos c.n_pos h (.refl _)]

end

end

/-! ## Keys -/

section

variable {w : Nat} (hw : 32 ≤ w) (keying : Keying) (a : Algorithm) (password salt : Bytes)

include hw

/-- A run on a buffer of zeros yields what is derived for its length. -/
theorem runOn_fillInPlace (iterations : UInt32) (keyLen : Nat) :
    runOn (Pbkdf2.fillInPlace w keying a password salt iterations) (List.replicate keyLen 0) =
      (Pbkdf2.deriveWith keying a password salt iterations keyLen).mapError .failed := by
  have hfill := Pbkdf2.allOrNothing_fillInPlace keying a password salt iterations hw
    (List.replicate keyLen 0)
  rw [List.length_replicate] at hfill
  obtain ⟨e, hderive, hrun⟩ | ⟨key, hderive, -, hrun⟩ := hfill
  · rw [runOn, hrun]
    exact hderive.symm
  · rw [runOn, hrun _ List.length_replicate]
    exact hderive.symm

/-- With room for a key of its length, a derivation ends as the one that checks nothing else. -/
theorem deriveIterated_eq (iterations : UInt32) {keyLen : Nat}
    (hroom : keyLen ≤ Pbkdf2.maxKeyLen a → keyLen < 2 ^ (w - 1)) :
    deriveIterated w keying a password salt iterations keyLen =
      (Pbkdf2.deriveWith keying a password salt iterations keyLen).mapError .failed := by
  cases hbounds : Pbkdf2.checkBounds a iterations keyLen with
  | error e =>
    rw [deriveIterated, Pbkdf2.deriveWith, hbounds]
    rfl
  | ok =>
    have hlen := hroom (Pbkdf2.checkBounds_eq_ok_iff.1 hbounds).2
    have hzeros : Buffer.new? w 1 keyLen (0 : UInt8) = some (List.replicate keyLen 0) :=
      Buffer.new?_of_lt 0 (by rwa [Nat.one_mul])
    rw [← runOn_fillInPlace hw, deriveIterated, hbounds, hzeros]
    rfl

/-- However the hash function is keyed, a derivation that checks every step ends as the one that
    checks none of them. -/
theorem derive_eq (schedule : Scrypt.Schedule) (n r p : UInt32) {keyLen : Nat}
    (hroom : keyLen ≤ Pbkdf2.maxKeyLen a → keyLen < 2 ^ (w - 1)) :
    derive w schedule keying a password salt n r p keyLen =
      (Scrypt.deriveWith keying a password salt n r p keyLen).mapError .failed := by
  cases hcost : Cost.ofTriple n r p with
  | error e =>
    rw [derive, Cost.check?_eq, Scrypt.deriveWith, hcost]
    rfl
  | ok c =>
    obtain ⟨rfl, rfl, rfl⟩ := Cost.eq_of_ofTriple hcost
    have hlane := (Cost.Computes.laneLen (c := c)).checked_eq hw
    have hlanes := (Cost.Computes.bufferLen (c := c)).checked_eq hw
    have hzeros : Buffer.new? w 1 (128 * c.r.toNat * c.p.toNat) (0 : UInt8) =
        some (List.replicate (128 * c.r.toNat * c.p.toNat) 0) := Buffer.new?_of_lt 0 (by
      have hhalf := Size.half_le hw
      have hle := c.lanes_le
      omega)
    rw [derive, Cost.check?_eq, Scrypt.deriveWith, hcost]
    simp only [orStuck, Except.map, hlane, hlanes, pure_bind, hzeros, runOn_fillInPlace hw]
    cases hspread : Pbkdf2.deriveWith keying a password salt 1
        (128 * c.r.toNat * c.p.toNat) with
    | error e => rfl
    | ok spread =>
      have hmixed := mixLanes?_eq c hw (Pbkdf2.length_of_deriveWith _ _ _ _ _ hspread) schedule
      simp only [Except.mapError, bind, Except.bind, hmixed]
      exact deriveIterated_eq hw keying a password _ 1 hroom

/-- Whatever the parameters, no step is without a result. -/
theorem derive_ne_stuck (schedule : Scrypt.Schedule) (n r p : UInt32) {keyLen : Nat}
    (hroom : keyLen ≤ Pbkdf2.maxKeyLen a → keyLen < 2 ^ (w - 1)) :
    derive w schedule keying a password salt n r p keyLen ≠ .error .stuck := by
  rw [derive_eq hw keying a password salt schedule n r p hroom]
  cases Scrypt.deriveWith keying a password salt n r p keyLen with
  | error e => exact nofun
  | ok key => exact nofun

end

/-- Words of 64 bits have room for every key. -/
theorem lt_two_pow_of_le {a : Algorithm} {keyLen : Nat} (h : keyLen ≤ Pbkdf2.maxKeyLen a) :
    keyLen < 2 ^ (64 - 1) := by
  have hmax : Pbkdf2.maxKeyLen a ≤ (UInt32.size - 1) * 64 :=
    Nat.mul_le_mul_left _ (by cases a <;> decide)
  have hsize : UInt32.size = 2 ^ 32 := rfl
  omega

/-! ## Completion -/

/-- A derivation that checks every step comes to its end with a key. -/
structure Completes (keying : Keying) (a : Algorithm) (password salt : Bytes) (n r p : UInt32)
    (keyLen : Nat) (key : Bytes) : Prop where
  length_key : key.length = keyLen
  /-- It is the key that is derived without checks. -/
  value_derive : (Scrypt.derive a password salt n r p keyLen).value = .ok key
  /-- It takes words with room for its bytes, and lanes have their turns in any order. -/
  derive_eq (w : Nat) (schedule : Scrypt.Schedule) : 32 ≤ w → keyLen < 2 ^ (w - 1) →
    derive w schedule keying a password salt n r p keyLen = .ok key
  /-- Words of 64 bits have room for it. -/
  lt_two_pow : keyLen < 2 ^ (64 - 1)
  /-- Nor is a step without a result if the hash function is keyed otherwise, even by a keying that
      refuses the password. -/
  derive_ne_stuck (w : Nat) (schedule : Scrypt.Schedule) (keying' : Keying) : 32 ≤ w →
    keyLen < 2 ^ (w - 1) → derive w schedule keying' a password salt n r p keyLen ≠ .error .stuck
  /-- After any count of iterations, too, every step has a result. -/
  deriveIterated_eq (w : Nat) (iterations : UInt32) : 32 ≤ w → keyLen < 2 ^ (w - 1) →
    deriveIterated w keying a password salt iterations keyLen =
      (Pbkdf2.derive a password salt iterations keyLen).mapError .failed

/-- For admissible cost parameters, no step of a derivation is without a result: no buffer is too
    large, no part of one is sought outside it or has another length than what is written to it,
    and none is left over. -/
theorem exists_completes {keying : Keying} (hkeying : keying.Lawful) (a : Algorithm)
    (password salt : Bytes) {n r p : UInt32} (hcost : ∃ c, Cost.ofTriple n r p = .ok c)
    {keyLen : Nat} (hlen : keyLen ≤ Pbkdf2.maxKeyLen a) :
    ∃ key, Completes keying a password salt n r p keyLen key := by
  obtain ⟨c, hc⟩ := hcost
  have hvalue := Scrypt.value_derive a password salt hc keyLen
  rw [if_neg (Nat.not_lt.2 hlen)] at hvalue
  refine ⟨_, Standard.length_scrypt .., hvalue, fun w schedule hw hroom => ?_,
    lt_two_pow_of_le hlen, fun w schedule keying' hw hroom => ?_,
    fun w iterations hw hroom => ?_⟩
  · rw [derive_eq hw keying a password salt schedule n r p fun _ => hroom,
      Scrypt.deriveWith_eq hkeying, hvalue]
    rfl
  · exact derive_ne_stuck hw keying' a password salt schedule n r p fun _ => hroom
  · rw [deriveIterated_eq hw keying a password salt iterations fun _ => hroom,
      Pbkdf2.deriveWith_eq hkeying]

/-- A hundred bytes from two lanes, the second of which has its turn first. -/
theorem exists_completes_two_lanes :
    Keying.absorbing.Lawful ∧ (∃ c, Cost.ofTriple 16 1 2 = .ok c) ∧
      100 ≤ Pbkdf2.maxKeyLen .hmacSha512 ∧ ∃ key : Bytes, key.length = 100 ∧
        derive 64 ⟨fun count => (List.range count).reverse, fun _ => List.reverse_perm _⟩ .absorbing
          .hmacSha512 [0x70, 0x77] [0x4e, 0x61, 0x43, 0x6c] 16 1 2 100 = .ok key := by
  have hcost : ∃ c, Cost.ofTriple 16 1 2 = .ok c := ⟨_, rfl⟩
  have hlen : 100 ≤ Pbkdf2.maxKeyLen .hmacSha512 := by decide
  obtain ⟨key, hkey⟩ := exists_completes Keying.lawful_absorbing .hmacSha512 [0x70, 0x77]
    [0x4e, 0x61, 0x43, 0x6c] hcost hlen
  exact ⟨Keying.lawful_absorbing, hcost, hlen, key, hkey.length_key,
    hkey.derive_eq 64 _ (by decide) hkey.lt_two_pow⟩

end Machine

end KeyStretching
