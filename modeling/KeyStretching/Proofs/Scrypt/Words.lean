import KeyStretching.Proofs.BlockMix
import KeyStretching.Proofs.Buffer

/-!
# Lanes as runs of words

In memory, a lane of block size `r` is a run of `32 * r` words, in which its blocks are parts of
sixteen words each. `blockMix?` mixes such a run over another: it finds the blocks by their offsets,
puts each value of the chain to the offset of its slot, and fails at the first access that does not
keep within the runs. It never fails, and leaves what the mixing of lanes leaves
(`blockMix?_words`).

* `Lane.words`, `Lane.exists_words`: the words of a lane, which are all runs of their length;
* `existsUnique_slot`: each word of the result is written in one step of the mixing;
* `exists_deinterleaves`: what is left is the values of the chain, those at even places before
  those at odd places, whatever the result is written over.
-/

namespace KeyStretching

open Buffer (read? write?)

/-! ## Words and bytes -/

/-- The words that a byte string spells, each least significant byte first. -/
def wordsOf (bytes : Bytes) : List UInt32 :=
  (chunks 4 bytes).map fun w => UInt32.ofNat (Bytes.ofLittleEndian w)

/-- The bytes that words are written in. -/
def bytesOf (words : List UInt32) : Bytes := words.flatMap fun w => Bytes.littleEndian 4 w.toNat

/-- The bytes of words spell the words. -/
theorem wordsOf_bytesOf (words : List UInt32) : wordsOf (bytesOf words) = words := by
  induction words with
  | nil => rw [bytesOf, List.flatMap_nil, wordsOf, chunks_nil, List.map_nil]
  | cons w words ih =>
    have hword : UInt32.ofNat (Bytes.ofLittleEndian (Bytes.littleEndian 4 w.toNat)) = w := by
      have hlt : w.toNat < 256 ^ 4 := w.toNat_lt
      rw [Bytes.ofLittleEndian_littleEndian, Nat.mod_eq_of_lt hlt, UInt32.ofNat_toNat]
    rw [wordsOf, bytesOf, List.flatMap_cons,
      chunks_append (by decide) (Bytes.length_littleEndian 4 w.toNat), List.map_cons, hword,
      ← bytesOf, ← wordsOf, ih]

/-! ## The words of a lane -/

/-- The block that sixteen words make up. -/
def Block.ofWords? (words : List UInt32) : Option Block :=
  if h : words.length = 16 then some ⟨words.toArray, h⟩ else none

@[simp] theorem Block.ofWords?_toList (x : Block) : ofWords? x.toList = some x := by
  rw [ofWords?, dif_pos x.length_toList]
  rfl

namespace Lane

variable {r : Nat}

/-- The words of a lane, block after block. -/
def words (lane : Lane r) : List UInt32 := (lane.toList.map Vector.toList).flatten

/-- The blocks of a lane are parts of sixteen words. -/
theorem length_of_mem_blocks (lane : Lane r) :
    ∀ part ∈ lane.toList.map Vector.toList, part.length = 16 :=
  List.forall_mem_map.2 fun x _ => x.length_toList

theorem length_blocks (lane : Lane r) : (lane.toList.map Vector.toList).length = 2 * r :=
  (List.length_map _).trans lane.length_toList

@[simp] theorem length_words (lane : Lane r) : lane.words.length = 32 * r := by
  rw [words, length_flatten lane.length_of_mem_blocks, length_blocks, ← Nat.mul_assoc]

/-- Every run of as many words as a lane has is that of a lane. -/
theorem exists_words {run : List UInt32} (h : run.length = 32 * r) :
    ∃ lane : Lane r, lane.words = run := by
  have h' : run.length = 16 * (2 * r) := by omega
  obtain ⟨part, rfl⟩ := Buffer.exists_parts h'
  refine ⟨Vector.ofFn fun i => Vector.ofFn (part i), ?_⟩
  simp only [words, Vector.toList_ofFn, List.map_ofFn, Function.comp_def]

/-- At the offset of a block, its words are read. -/
theorem read?_words (lane : Lane r) {i : Nat} (h : i < 2 * r) :
    read? (16 * i) 16 lane.words = some lane[i].toList := by
  rw [words, Buffer.read?_flatten lane.length_of_mem_blocks (by rwa [length_blocks])]
  simp

/-- Writing a block to the offset of another replaces that. -/
theorem write?_words (lane : Lane r) (x : Block) (k : Fin (2 * r)) :
    write? (16 * k) 16 x.toList lane.words = some (words (lane.set k x k.isLt)) := by
  rw [words, Buffer.write?_flatten lane.length_of_mem_blocks (by rw [length_blocks]; exact k.isLt)
    x.length_toList, words, Vector.toList_set, List.map_set]

/-- The words from the offset of the last block on are those of that block. -/
theorem drop_words (hr : 0 < r) (lane : Lane r) :
    lane.words.drop (16 * (2 * r - 1)) = (lane.last hr).toList := by
  have hread := lane.read?_words (show 2 * r - 1 < 2 * r by omega)
  have hlength : (lane.words.drop (16 * (2 * r - 1))).length ≤ 16 := by
    rw [List.length_drop, length_words]
    omega
  rw [Buffer.read?, if_pos (by rw [length_words]; omega), List.take_of_length_le hlength] at hread
  exact Option.some.inj hread

theorem bytesOf_words (lane : Lane r) : bytesOf lane.words = lane.toBytes := by
  rw [bytesOf, words, toBytes, ← List.flatMap_def, List.flatMap_assoc]
  rfl

theorem wordsOf_toBytes (lane : Lane r) : wordsOf lane.toBytes = lane.words := by
  rw [← bytesOf_words, wordsOf_bytesOf]

/-- The words of the exclusive or of two lanes. -/
theorem words_xor (x y : Lane r) :
    (x.xor y).words = List.zipWith (· ^^^ ·) x.words y.words := by
  have hblock (a b : Block) : (a.xor b).toList = List.zipWith (· ^^^ ·) a.toList b.toList :=
    Vector.toList_zipWith
  rw [words, words, words, ← List.flatMap_def, ← List.flatMap_def, ← List.flatMap_def, xor,
    Vector.toList_zipWith]
  exact (zipWith_flatMap (fun x : Block => x.length_toList) hblock _ _).symm

/-- The word that a lane selects by stands at the offset of its last block. -/
theorem getElem?_words (hr : 0 < r) (lane : Lane r) :
    lane.words[16 * (2 * r - 1)]? = some (lane.integerify hr) := by
  have hfirst : (lane.words.drop (16 * (2 * r - 1)))[0]? = some (lane.integerify hr) := by
    rw [drop_words hr, Vector.getElem?_toList]
    rfl
  rwa [List.getElem?_drop, Nat.add_zero] at hfirst

end Lane

/-! ## Mixing words -/

section

variable (r : Nat)

/-- The number of the block of the result that is written in step `i`. -/
def slotNumber (i : Nat) : Nat := if i % 2 = 0 then i / 2 else r + i / 2

/-- A step of the mixing: the chain takes in the next block, and its value is written. -/
def mixStep? (input : List UInt32) (s : Block × List UInt32) (i : Nat) :
    Option (Block × List UInt32) := do
  let block ← (read? (16 * i) 16 input).bind Block.ofWords?
  let x := Salsa.core (s.1.xor block)
  let output ← write? (16 * slotNumber r i) 16 x.toList s.2
  pure (x, output)

/-- Mixes a run of words over another, unless an access does not keep within the two. -/
def blockMix? (input output : List UInt32) : Option (List UInt32) := do
  guard (input.length = 32 * r ∧ output.length = input.length)
  let last ← Block.ofWords? (input.drop (16 * (2 * r - 1)))
  let count ← Buffer.count? 16 input
  let (_, output) ← (List.range count).foldlM (mixStep? r input) (last, output)
  pure output

end

variable {r : Nat}

/-- The number of a slot is the one that its step writes to. -/
theorem slot_val (i : Fin (2 * r)) : (slot i : Nat) = slotNumber r i := by
  rw [slot, slotNumber]
  split <;> rfl

/-- Mixing the words of a lane leaves the words of the mixed lane. -/
theorem blockMix?_words (hr : 0 < r) (input output : Lane r) :
    blockMix? r input.words output.words = some (blockMix hr input output).words := by
  have hcount : Buffer.count? 16 input.words = some (2 * r) := by
    rw [Lane.words, Buffer.count?_flatten input.length_of_mem_blocks (by decide),
      Lane.length_blocks]
  let step (s : Block × Lane r) (i : Fin (2 * r)) : Block × Lane r :=
    let x := Salsa.core (s.1.xor input[i])
    (x, s.2.set (slot i) x)
  -- A step on the words of two lanes is a step on the lanes.
  have hstep (s : Block × Lane r) (i : Fin (2 * r)) :
      mixStep? r input.words (s.1, s.2.words) i = some ((step s i).1, (step s i).2.words) := by
    have hread : (read? (16 * i) 16 input.words).bind Block.ofWords? = some input[i] := by
      rw [input.read?_words i.isLt, Option.bind_some, Block.ofWords?_toList]
      rfl
    simp only [mixStep?, step, hread, ← slot_val, Lane.write?_words, Option.bind_eq_bind,
      Option.bind_some, Option.pure_def]
  have hloop := Buffer.foldlM_range_eq_some (fun s => (s.1, s.2.words)) hstep
    (input.last hr, output)
  simp only [blockMix?, Lane.length_words, Lane.drop_words hr, Block.ofWords?_toList, hcount, hloop,
    guard, and_self, if_true, Option.bind_eq_bind, Option.bind_some, Option.pure_def]
  rfl

/-- Every word of the result is written in one step of the mixing. -/
theorem existsUnique_slot {k : Nat} (hk : k < 32 * r) :
    ∃! i : Fin (2 * r), 16 * slotNumber r i ≤ k ∧ k < 16 * slotNumber r i + 16 := by
  obtain ⟨i, hi⟩ := slot_bijective.2 (⟨k / 16, by omega⟩ : Fin (2 * r))
  have hval : slotNumber r i = k / 16 := by rw [← slot_val, hi]
  refine ⟨i, by simp only [hval]; omega, fun j hj => slot_injective (Fin.ext ?_)⟩
  rw [slot_val, slot_val, hval]
  omega

/-- The blocks of a mixed lane, as a run of words. -/
theorem words_blockMix (hr : 0 < r) (input output : Lane r) :
    (blockMix hr input output).words =
      ((List.range r).flatMap fun i => (input.chain hr (2 * i + 1)).toList) ++
        (List.range r).flatMap fun i => (input.chain hr (2 * i + 2)).toList := by
  rw [Lane.words, toList_blockMix, List.map_append, List.flatten_append, List.map_map, List.map_map,
    ← List.flatMap_def, ← List.flatMap_def]
  rfl

/-! ## Values of a chain -/

/-- Mixing a lane leaves the values of a chain `Y`, of which `Y (i + 1)` is the one at place `i`,
    and nothing of what is written over. -/
structure Deinterleaves (hr : 0 < r) (lane : Lane r) (Y : Nat → Block) : Prop where
  /-- The chain starts from the last block. -/
  chain_zero : Y 0 = lane.last hr
  chain_succ (i : Nat) (hi : i < 2 * r) : Y (i + 1) = Salsa.core ((Y i).xor lane[i])
  /-- The values at even places are written before those at odd places. -/
  toList_blockMix (output : Lane r) :
    (blockMix hr lane output).toList =
      ((List.range r).map fun i => Y (2 * i + 1)) ++ (List.range r).map fun i => Y (2 * i + 2)
  /-- So they are in a run of words, and no access fails. -/
  blockMix?_eq (output : List UInt32) : output.length = 32 * r →
    blockMix? r lane.words output =
      some (((List.range r).flatMap fun i => (Y (2 * i + 1)).toList) ++
        (List.range r).flatMap fun i => (Y (2 * i + 2)).toList)
  /-- On bytes, this is the published function. -/
  toBytes_blockMix (output : Lane r) :
    (blockMix hr lane output).toBytes = Standard.blockMix r lane.toBytes

theorem Lane.deinterleaves (hr : 0 < r) (lane : Lane r) :
    Deinterleaves hr lane (lane.chain hr) where
  chain_zero := rfl
  chain_succ i hi := by rw [chain, dif_pos hi]
  toList_blockMix := KeyStretching.toList_blockMix hr lane
  blockMix?_eq output h := by
    obtain ⟨base, rfl⟩ := exists_words h
    rw [blockMix?_words hr, words_blockMix]
  toBytes_blockMix := KeyStretching.toBytes_blockMix hr lane

/-- Every run of words is mixed into the values of its chain, de-interleaved, whatever it is mixed
    over: the slots of the places are all slots, and each word has its one step. -/
theorem exists_deinterleaves (hr : 0 < r) :
    (∀ input : List UInt32, input.length = 32 * r →
      ∃ (lane : Lane r) (Y : Nat → Block), lane.words = input ∧ Deinterleaves hr lane Y) ∧
    (∀ i : Fin (2 * r), (slot i : Nat) =
      if (i : Nat) % 2 = 0 then (i : Nat) / 2 else r + (i : Nat) / 2) ∧
    Function.Bijective (slot : Fin (2 * r) → Fin (2 * r)) ∧
    ∀ k < 32 * r, ∃! i : Fin (2 * r), 16 * (slot i : Nat) ≤ k ∧ k < 16 * (slot i : Nat) + 16 := by
  refine ⟨fun input h => ?_, slot_val, slot_bijective, fun k hk => ?_⟩
  · obtain ⟨lane, hlane⟩ := Lane.exists_words h
    exact ⟨lane, lane.chain hr, hlane, lane.deinterleaves hr⟩
  · simpa only [slot_val] using existsUnique_slot hk

/-- Two blocks to each half of the result, over a run of ones and over a run of zeros. -/
theorem exists_deinterleaves_two :
    0 < 2 ∧ (List.range 64).length = 32 * 2 ∧
      blockMix? 2 ((List.range 64).map UInt32.ofNat) (List.replicate 64 0xffffffff) =
        blockMix? 2 ((List.range 64).map UInt32.ofNat) (List.replicate 64 0) ∧
      ∃! i : Fin (2 * 2), 16 * (slot i : Nat) ≤ 40 ∧ 40 < 16 * (slot i : Nat) + 16 := by
  obtain ⟨hruns, -, -, hwords⟩ := exists_deinterleaves (r := 2) (by decide)
  obtain ⟨lane, Y, hlane, hY⟩ := hruns ((List.range 64).map UInt32.ofNat) (by decide)
  refine ⟨by decide, by decide, ?_, hwords 40 (by decide)⟩
  rw [← hlane, hY.blockMix?_eq _ (by decide), hY.blockMix?_eq _ (by decide)]

end KeyStretching
