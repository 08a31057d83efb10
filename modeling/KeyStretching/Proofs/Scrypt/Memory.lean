import KeyStretching.Proofs.RoMix
import KeyStretching.Proofs.Scrypt.Words

/-!
# Memory as one run of words

The memory that a lane is mixed through is one run of words too, and the lane and the spare lane are
two others, which take turns (`Buffers`). Filling writes the lane to the offset of its number
(`Buffers.fill?`), and revisiting reads the memory at the offset of the place that the lane selects
(`Buffers.revisit?`); both fail at the first access that does not keep within the runs.

Nothing of this shows in the result, which is that of a function without memory
(`Standard.recomputed`):

* `Buffers.fill?_ofLanes`, `Buffers.revisit?_ofLanes`: the runs are those of the memory and the
  lanes of `RoMix`, so that revisiting leaves the memory as it is;
* `exists_filled`: when the memory is filled, each place holds the lane mixed as often as it is
  numbered (`Buffers.Filled`), and nothing that the buffers held before gets into the lane;
* `roMix?_eq`: from bytes to bytes, no access fails;
* `mixesAnew`: the lane becomes what the function without memory makes of it.
-/

namespace KeyStretching

open Buffer (read? write?)

/-- A lane after both loops of `roMix`, without a list of blocks: each block that is selected is
    computed anew. Its value is the one before step `k` of the second loop. -/
def Standard.recomputed (r n : Nat) (bytes : Bytes) : (k : Nat) → Bytes
  | 0 => (blockMix r)^[n] bytes
  | k + 1 =>
    let x := recomputed r n bytes k
    blockMix r (x.xor ((blockMix r)^[integerify r x % n] bytes))

/-! ## The buffers of a lane -/

/-- The runs of words that a lane is mixed in. -/
structure Buffers where
  /-- The memory, one place after the other. -/
  memory : List UInt32
  /-- The lane to be mixed next. -/
  current : List UInt32
  /-- The lane to be written over. -/
  spare : List UInt32

namespace Buffers

section

variable (r n : Nat)

/-- A step of filling: the lane is kept at the place numbered `i`, and mixed. -/
def fillStep? (b : Buffers) (i : Nat) : Option Buffers := do
  let memory ← write? (32 * r * i) (32 * r) b.current b.memory
  let mixed ← blockMix? r b.current b.spare
  pure ⟨memory, mixed, b.current⟩

/-- Keeps the lane at each place of the memory before it is mixed once more. -/
def fill? (b : Buffers) : Option Buffers := do
  let count ← Buffer.count? (32 * r) b.memory
  (List.range count).foldlM (fillStep? r) b

/-- A step of revisiting: the lane takes in the place that it selects, and is mixed. -/
def revisitStep? (b : Buffers) (_ : Nat) : Option Buffers := do
  let number ← b.current[16 * (2 * r - 1)]?
  let selected ← read? (32 * r * (number.toNat &&& (n - 1))) (32 * r) b.memory
  let current := List.zipWith (· ^^^ ·) b.current selected
  let mixed ← blockMix? r current b.spare
  pure ⟨b.memory, mixed, current⟩

/-- Mixes the lane `k` times together with the places that it selects among `n`. -/
def revisit? (k : Nat) (b : Buffers) : Option Buffers :=
  (List.range k).foldlM (revisitStep? r n) b

end

variable {r n : Nat}

/-- The runs of words of the memory and of both lanes. -/
def ofLanes (memory : Vector (Lane r) n) (x : RoMix.Lanes r) : Buffers :=
  ⟨(memory.toList.map Lane.words).flatten, x.current.words, x.spare.words⟩

@[simp] theorem current_ofLanes (memory : Vector (Lane r) n) (x : RoMix.Lanes r) :
    (ofLanes memory x).current = x.current.words := rfl

@[simp] theorem spare_ofLanes (memory : Vector (Lane r) n) (x : RoMix.Lanes r) :
    (ofLanes memory x).spare = x.spare.words := rfl

/-- The places of the memory are parts of the length of a lane. -/
theorem length_of_mem_places (memory : Vector (Lane r) n) :
    ∀ part ∈ memory.toList.map Lane.words, part.length = 32 * r :=
  List.forall_mem_map.2 fun x _ => x.length_words

theorem length_places (memory : Vector (Lane r) n) :
    (memory.toList.map Lane.words).length = n :=
  (List.length_map _).trans memory.length_toList

/-- Runs of words of the right lengths are those of a memory and two lanes. -/
theorem exists_ofLanes {b : Buffers} {lane : Lane r} (hmemory : b.memory.length = 32 * r * n)
    (hcurrent : b.current = lane.words) (hspare : b.spare.length = 32 * r) :
    ∃ (memory : Vector (Lane r) n) (spare : Lane r), ofLanes memory ⟨lane, spare⟩ = b := by
  obtain ⟨part, hpart⟩ := Buffer.exists_parts hmemory
  obtain ⟨spare, hspare⟩ := Lane.exists_words hspare
  choose place hplace using fun i => Lane.exists_words (List.length_ofFn (f := part i))
  refine ⟨Vector.ofFn place, spare, ?_⟩
  simp only [ofLanes, Vector.toList_ofFn, List.map_ofFn, Function.comp_def, hplace, ← hpart, hspare,
    ← hcurrent]

/-- Reading the memory at the offset of a place finds the lane that is kept there. -/
theorem read?_memory (memory : Vector (Lane r) n) (x : RoMix.Lanes r) {i : Nat} (hi : i < n) :
    read? (32 * r * i) (32 * r) (ofLanes memory x).memory = some memory[i].words := by
  rw [ofLanes, Buffer.read?_flatten (length_of_mem_places memory) (by rwa [length_places])]
  simp

variable (hr : 0 < r)

include hr

/-- A step of filling keeps the lane at its place. -/
theorem fillStep?_ofLanes (memory : Vector (Lane r) n) (x : RoMix.Lanes r) (i : Fin n) :
    fillStep? r (ofLanes memory x) i =
      some (ofLanes (memory.set i x.current i.isLt) (x.mix hr)) := by
  have hwrite : write? (32 * r * i) (32 * r) x.current.words (ofLanes memory x).memory =
      some ((memory.set i x.current i.isLt).toList.map Lane.words).flatten := by
    rw [ofLanes, Buffer.write?_flatten (length_of_mem_places memory)
      (by rw [length_places]; exact i.isLt) x.current.length_words, Vector.toList_set, List.map_set]
  simp only [fillStep?, current_ofLanes, spare_ofLanes, hwrite, blockMix?_words hr,
    Option.bind_eq_bind, Option.bind_some, Option.pure_def]
  rfl

/-- Filling the run of words is filling the memory. -/
theorem fill?_ofLanes (memory : Vector (Lane r) n) (x : RoMix.Lanes r) :
    fill? r (ofLanes memory x) =
      some (ofLanes (RoMix.fill hr memory x).1 (RoMix.fill hr memory x).2) := by
  have hcount : Buffer.count? (32 * r) (ofLanes memory x).memory = some n := by
    rw [ofLanes, Buffer.count?_flatten (length_of_mem_places memory) (by omega), length_places]
  let step (s : Vector (Lane r) n × RoMix.Lanes r) (i : Fin n) :
      Vector (Lane r) n × RoMix.Lanes r := (s.1.set i s.2.current, s.2.mix hr)
  have hstep (s : Vector (Lane r) n × RoMix.Lanes r) (i : Fin n) :
      fillStep? r (ofLanes s.1 s.2) i = some (ofLanes (step s i).1 (step s i).2) :=
    fillStep?_ofLanes hr s.1 s.2 i
  have hloop := Buffer.foldlM_range_eq_some (fun s => ofLanes s.1 s.2) hstep (memory, x)
  rw [fill?, hcount, Option.bind_eq_bind, Option.bind_some, hloop]
  rfl

variable (hn : 0 < n)

/-- A step of revisiting mixes the lane together with the place that it selects, and leaves the
    memory as it is. -/
theorem revisitStep?_ofLanes (memory : Vector (Lane r) n) (x : RoMix.Lanes r) (i : Nat) :
    ∃ y : RoMix.Lanes r, y.current = RoMix.revisitStep hr hn memory x.current ∧
      revisitStep? r n (ofLanes memory x) i = some (ofLanes memory y) := by
  have hread : read? (32 * r * ((x.current.integerify hr).toNat &&& (n - 1))) (32 * r)
      (ofLanes memory x).memory = some memory[RoMix.select hr hn x.current].words :=
    read?_memory memory x (RoMix.select hr hn x.current).isLt
  refine ⟨RoMix.Lanes.mix hr ⟨x.current.xor memory[RoMix.select hr hn x.current], x.spare⟩,
    RoMix.Lanes.current_mix hr _, ?_⟩
  simp only [revisitStep?, current_ofLanes, spare_ofLanes, Lane.getElem?_words hr, hread,
    ← Lane.words_xor, blockMix?_words hr, Option.bind_eq_bind, Option.bind_some, Option.pure_def]
  rfl

/-- Revisiting leaves the memory as it is, however often. -/
theorem revisit?_ofLanes (memory : Vector (Lane r) n) (x : RoMix.Lanes r) (k : Nat) :
    ∃ y : RoMix.Lanes r, y.current = (RoMix.revisitStep hr hn memory)^[k] x.current ∧
      revisit? r n k (ofLanes memory x) = some (ofLanes memory y) := by
  induction k with
  | zero => exact ⟨x, rfl, rfl⟩
  | succ k ih =>
    obtain ⟨y, hy, hrun⟩ := ih
    obtain ⟨z, hz, hstep⟩ := revisitStep?_ofLanes hr hn memory y k
    refine ⟨z, by rw [hz, hy, Function.iterate_succ_apply'], ?_⟩
    rw [revisit?] at hrun
    rw [revisit?, List.range_succ, List.foldlM_append, hrun, Option.bind_eq_bind, Option.bind_some,
      List.foldlM_cons, hstep]
    rfl

end Buffers

/-! ## From bytes to bytes -/

/-- Writes words over the bytes of a lane, each over the four bytes at its place. -/
def store? (words : List UInt32) (bytes : Bytes) : Option Bytes := do
  let count ← Buffer.count? 4 bytes
  (words.take count).zipIdx.foldlM
    (fun bytes word => write? (4 * word.2) 4 (Bytes.littleEndian 4 word.1.toNat) bytes) bytes

/-- Mixes a lane through `n` places of memory, in buffers that are zero at first. -/
def roMix? (r n : Nat) (bytes : Bytes) : Option Bytes := do
  guard (bytes.length = 4 * (32 * r) ∧ n ≠ 0 ∧ n &&& (n - 1) = 0)
  let filled ← Buffers.fill? r
    ⟨List.replicate (32 * r * n) 0, wordsOf bytes, List.replicate (32 * r) 0⟩
  let mixed ← Buffers.revisit? r n n filled
  store? mixed.current bytes

/-- As many words as have room in the lane are written over all of it. -/
theorem store?_eq {words : List UInt32} {bytes : Bytes} (h : bytes.length = 4 * words.length) :
    store? words bytes = some (bytesOf words) := by
  have hcount : Buffer.count? 4 bytes = some words.length :=
    Buffer.count?_of_length (by decide) h
  have hlength (w : UInt32) : (Bytes.littleEndian 4 w.toNat).length = 4 :=
    Bytes.length_littleEndian 4 w.toNat
  have hwrite : words.zipIdx.foldlM _ ([] ++ bytes) = some ([] ++ bytesOf words) :=
    Buffer.foldlM_write?_zipIdx hlength words rfl h
  rw [store?, hcount, Option.bind_eq_bind, Option.bind_some, List.take_length]
  exact hwrite

/-- Buffers from which the second loop goes on as if there were no memory. -/
structure Buffers.Filled (r n : Nat) (bytes : Bytes) (filled : Buffers) : Prop where
  /-- Each place of the memory holds the lane mixed as often as it is numbered. -/
  read?_place (i : Nat) : i < n → read? (32 * r * i) (32 * r) filled.memory =
    some (wordsOf ((Standard.blockMix r)^[i] bytes))
  current_eq : filled.current = wordsOf (Standard.recomputed r n bytes 0)
  /-- Revisiting leaves the memory as it is, and after each step the lane is what it would be
      without memory. -/
  revisit?_eq (k : Nat) : ∃ mixed : Buffers, Buffers.revisit? r n k filled = some mixed ∧
    mixed.memory = filled.memory ∧ mixed.current = wordsOf (Standard.recomputed r n bytes k)

section

variable {r n : Nat} (hr : 0 < r) (hn : 0 < n)

/-- What becomes of the bytes of a lane does not show that there is a memory. -/
structure MixesAnew (bytes : Bytes) : Prop where
  /-- The lane becomes what the function without memory makes of it. -/
  mixBytes_eq : RoMix.mixBytes hr hn bytes = Standard.recomputed r n bytes n
  length_mixBytes : (RoMix.mixBytes hr hn bytes).length = bytes.length
  /-- So it does in runs of words, and no access fails. -/
  roMix?_eq : roMix? r n bytes = some (Standard.recomputed r n bytes n)
  /-- What the memory and the spare lane hold at first is of no importance. -/
  exists_filled (memory spare : List UInt32) : memory.length = 32 * r * n → spare.length = 32 * r →
    ∃ filled : Buffers, Buffers.fill? r ⟨memory, wordsOf bytes, spare⟩ = some filled ∧
      filled.Filled r n bytes
  /-- The number that a lane selects by is that of its whole last block or that of its first word,
      where only the remainder counts. -/
  integerify_mod (lane : Lane r) : Standard.integerify r lane.toBytes % n =
    (lane.integerify hr).toNat % n

variable {k : Nat} (hk : k ≤ 32) (hpow : n = 2 ^ k)

include hk hpow

/-- The function without memory, on the bytes of lanes. -/
theorem toBytes_iterate_anew (lane : Lane r) (i : Nat) :
    ((fun x => (x.xor ((Lane.mix hr)^[RoMix.select hr hn x] lane)).mix hr)^[i]
      ((Lane.mix hr)^[n] lane)).toBytes = Standard.recomputed r n lane.toBytes i := by
  induction i with
  | zero => exact RoMix.toBytes_iterate_mix hr lane n
  | succ i ih =>
    rw [Function.iterate_succ_apply', RoMix.toBytes_mix_selected hr hn hk hpow, ih,
      Standard.recomputed]

/-- After any number of steps, the lane is what it would be without memory. -/
theorem toBytes_iterate_revisitStep (memory : Vector (Lane r) n) (x : RoMix.Lanes r) (i : Nat) :
    ((RoMix.revisitStep hr hn (RoMix.fill hr memory x).1)^[i]
      (RoMix.fill hr memory x).2.current).toBytes =
        Standard.recomputed r n x.current.toBytes i := by
  rw [RoMix.revisitStep_fill, (RoMix.fill_spec hr memory x).1,
    toBytes_iterate_anew hr hn hk hpow]

include hr hn

/-- Both loops, in buffers that hold anything at first but the lane. -/
theorem exists_filled (lane : Lane r) {memory spare : List UInt32}
    (hmemory : memory.length = 32 * r * n) (hspare : spare.length = 32 * r) :
    ∃ filled : Buffers, Buffers.fill? r ⟨memory, lane.words, spare⟩ = some filled ∧
      filled.Filled r n lane.toBytes := by
  obtain ⟨places, base, hbuffers⟩ : ∃ (places : Vector (Lane r) n) (base : Lane r),
      Buffers.ofLanes places ⟨lane, base⟩ = ⟨memory, lane.words, spare⟩ :=
    Buffers.exists_ofLanes hmemory rfl hspare
  have hanew := toBytes_iterate_revisitStep hr hn hk hpow places ⟨lane, base⟩
  refine ⟨_, hbuffers ▸ Buffers.fill?_ofLanes hr places ⟨lane, base⟩, fun i hi => ?_, ?_,
    fun i => ?_⟩
  · rw [Buffers.read?_memory _ _ hi, (RoMix.fill_spec hr places ⟨lane, base⟩).2 i hi,
      ← Lane.wordsOf_toBytes, RoMix.toBytes_iterate_mix]
  · rw [Buffers.current_ofLanes, ← Lane.wordsOf_toBytes]
    exact congrArg wordsOf (hanew 0)
  · obtain ⟨y, hy, hrun⟩ := Buffers.revisit?_ofLanes hr hn (RoMix.fill hr places ⟨lane, base⟩).1
      (RoMix.fill hr places ⟨lane, base⟩).2 i
    refine ⟨_, hrun, rfl, ?_⟩
    rw [Buffers.current_ofLanes, ← Lane.wordsOf_toBytes, hy, hanew i]

/-- From bytes to bytes, in buffers that are zero at first. -/
theorem roMix?_eq (lane : Lane r) :
    roMix? r n lane.toBytes = some (Standard.recomputed r n lane.toBytes n) := by
  obtain ⟨filled, hfill, hfilled⟩ := exists_filled hr hn hk hpow lane
    (List.length_replicate (a := 0)) (List.length_replicate (a := 0))
  obtain ⟨mixed, hmixed, -, hcurrent⟩ := hfilled.revisit?_eq n
  have hguard : lane.toBytes.length = 4 * (32 * r) ∧ n ≠ 0 ∧ n &&& (n - 1) = 0 := by
    refine ⟨by rw [Lane.length_toBytes]; omega, hn.ne', ?_⟩
    rw [hpow, Nat.and_two_pow_sub_one_eq_mod, Nat.mod_self]
  -- The words that are stored are those of a lane.
  rw [← toBytes_iterate_anew hr hn hk hpow lane n, Lane.wordsOf_toBytes] at hcurrent
  have hstore : store? mixed.current lane.toBytes = some (bytesOf mixed.current) :=
    store?_eq (by rw [hcurrent, Lane.length_words, Lane.length_toBytes]; omega)
  rw [hcurrent, Lane.bytesOf_words, toBytes_iterate_anew hr hn hk hpow] at hstore
  simp only [roMix?, guard, if_pos hguard, Lane.wordsOf_toBytes, hfill, hmixed, hcurrent, hstore,
    Option.bind_eq_bind, Option.bind_some, Option.pure_def]

/-- For a power of two that fits into a word, mixing a lane through memory is what the function
    without memory makes of it, whatever the buffers hold at first. -/
theorem mixesAnew {bytes : Bytes} (h : bytes.length = 128 * r) : MixesAnew hr hn bytes := by
  obtain ⟨lane, hread, rfl⟩ : ∃ lane : Lane r, Lane.ofBytes r bytes = lane ∧ lane.toBytes = bytes :=
    ⟨_, rfl, Lane.toBytes_ofBytes h⟩
  refine ⟨?_, ?_, roMix?_eq hr hn hk hpow lane, fun memory spare hmemory hspare => ?_, fun x => ?_⟩
  · rw [RoMix.mixBytes, hread, RoMix.mixLane_eq_iterate, toBytes_iterate_anew hr hn hk hpow]
  · rw [RoMix.length_mixBytes, Lane.length_toBytes]
  · rw [Lane.wordsOf_toBytes]
    exact exists_filled hr hn hk hpow lane hmemory hspare
  · rw [← RoMix.select_eq_mod hr hn hk hpow x, RoMix.select_eq_toNat_mod hr hn hpow]

omit hr hn hk hpow

/-- The smallest block size, with a memory of a single place and with one of sixteen. -/
theorem mixesAnew_one_and_sixteen :
    let bytes : Bytes := List.replicate 128 7
    bytes.length = 128 * 1 ∧ 0 ≤ 32 ∧ 1 = 2 ^ 0 ∧ MixesAnew Nat.one_pos Nat.one_pos bytes ∧
      4 ≤ 32 ∧ 16 = 2 ^ 4 ∧ MixesAnew Nat.one_pos (show 0 < 16 by decide) bytes := by
  intro bytes
  have hlength : bytes.length = 128 * 1 := List.length_replicate
  exact ⟨hlength, by decide, by decide,
    mixesAnew Nat.one_pos Nat.one_pos (k := 0) (by decide) (by decide) hlength, by decide,
    by decide, mixesAnew Nat.one_pos (by decide) (k := 4) (by decide) (by decide) hlength⟩

end

end KeyStretching
