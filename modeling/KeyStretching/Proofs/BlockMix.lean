import KeyStretching.Proofs.Salsa
import KeyStretching.Scrypt.BlockMix
import Mathlib.Data.Fintype.EquivFin

/-!
# Mixing the blocks of a lane

The mixing of a lane runs a chain through its blocks (`Lane.chain`) and writes each value to the
slot of its place. Every slot is that of one place (`slot_bijective`), so every block of the result
is a value of the chain (`blockMix_getElem_slot`), nothing is left of what the result is written
over (`blockMix_congr`), and on bytes the mixing is the published one (`toBytes_blockMix`).
-/

namespace KeyStretching

open Standard (piece)

/-- What holds of the start of a fold after no step, and is passed on by every step, holds of its
    end after all of them. -/
theorem foldl_keeps {α : Type} {n : Nat} {step : α → Fin n → α} {start : α}
    (Holds : Nat → α → Prop) (hstart : Holds 0 start)
    (hstep : ∀ (i : Fin n) (s : α), Holds i s → Holds (i + 1) (step s i)) :
    Holds n (Fin.foldl n step start) := by
  induction n with
  | zero => exact hstart
  | succ n ih =>
    have hinit := ih fun i s => hstep i.castSucc s
    rw [Fin.foldl_succ_last]
    exact hstep (Fin.last n) _ hinit

/-! ## Lanes and bytes -/

/-- The bytes of the exclusive or of two blocks. -/
theorem Block.toBytes_xor (x y : Block) : (x.xor y).toBytes = x.toBytes.xor y.toBytes := by
  have hword (v w : UInt32) : Bytes.littleEndian 4 (v ^^^ w).toNat =
      (Bytes.littleEndian 4 v.toNat).xor (Bytes.littleEndian 4 w.toNat) := by
    rw [UInt32.toNat_xor, Bytes.littleEndian_xor]
  rw [Block.toBytes, Block.xor, Vector.toList_zipWith]
  exact (Bytes.xor_flatMap (fun _ => Bytes.length_littleEndian 4 _) hword _ _).symm

namespace Lane

variable {r : Nat}

/-- The bytes of the exclusive or of two lanes. -/
theorem toBytes_xor (x y : Lane r) : (x.xor y).toBytes = x.toBytes.xor y.toBytes := by
  rw [Lane.toBytes, Lane.xor, Vector.toList_zipWith]
  exact (Bytes.xor_flatMap Block.length_toBytes Block.toBytes_xor _ _).symm

/-- The sub-blocks of the bytes of a lane are the bytes of its blocks. -/
theorem piece_toBytes (lane : Lane r) {i : Nat} (h : i < 2 * r) :
    piece 64 i lane.toBytes = lane[i].toBytes := by
  rw [Lane.toBytes, piece_flatMap Block.length_toBytes _ (by simpa using h), Vector.getElem_toList]

/-- Lanes of the same bytes are the same lane. -/
theorem toBytes_injective : Function.Injective (toBytes : Lane r → Bytes) := by
  intro x y h
  refine Vector.ext fun i hi => Block.toBytes_injective ?_
  rw [← piece_toBytes x hi, ← piece_toBytes y hi, h]

/-! ## The chain -/

/-- The values of the chain that mixing runs through a lane: it starts from the last block, and
    `chain hr lane (i + 1)` is the value at place `i`. -/
def chain (hr : 0 < r) (lane : Lane r) : Nat → Block
  | 0 => lane.last hr
  | i + 1 =>
    if h : i < 2 * r then Salsa.core ((lane.chain hr i).xor lane[i]) else lane.chain hr i

/-- On bytes, the chain is that of the published function. -/
theorem toBytes_chain (hr : 0 < r) (lane : Lane r) {i : Nat} (hi : i ≤ 2 * r) :
    (lane.chain hr i).toBytes = Standard.mixChain r lane.toBytes i := by
  induction i with
  | zero => rw [chain, Standard.mixChain, piece_toBytes lane (by omega), last]
  | succ i ih =>
    rw [chain, dif_pos (Nat.lt_of_succ_le hi), Salsa.toBytes_core, Block.toBytes_xor, ih (by omega),
      Standard.mixChain, piece_toBytes lane hi]

end Lane

/-! ## Slots -/

variable {r : Nat}

/-- Different places have different slots. -/
theorem slot_injective : Function.Injective (slot : Fin (2 * r) → Fin (2 * r)) := by
  intro i j h
  unfold slot at h
  split at h <;> split at h <;> simp only [Fin.mk.injEq] at h <;> omega

/-- Every slot is that of exactly one place. -/
theorem slot_bijective : Function.Bijective (slot : Fin (2 * r) → Fin (2 * r)) :=
  Finite.injective_iff_bijective.1 slot_injective

/-- Every slot of a mixed lane holds the value of the chain at its place. -/
theorem blockMix_getElem_slot (hr : 0 < r) (input output : Lane r) {i : Fin (2 * r)} {k : Nat}
    (hk : k < 2 * r) (hslot : (slot i : Nat) = k) :
    (blockMix hr input output)[k] = input.chain hr (i + 1) := by
  subst hslot
  -- After the first `k` steps the chain has reached place `k`, and the slots before it are filled.
  let P (k : Nat) (s : Block × Lane r) : Prop :=
    s.1 = input.chain hr k ∧ ∀ j : Fin (2 * r), j < k → s.2[slot j] = input.chain hr (j + 1)
  refine (foldl_keeps P ⟨rfl, fun j hj => absurd hj (Nat.not_lt_zero _)⟩ ?_).2 i i.isLt
  rintro k ⟨x, lane⟩ ⟨hx, hlane⟩
  have hvalue : Salsa.core (x.xor input[k]) = input.chain hr (k + 1) := by
    rw [Lane.chain, dif_pos k.isLt, ← hx]
    rfl
  refine ⟨hvalue, fun j hj => ?_⟩
  by_cases hjk : k = j
  · subst hjk
    simpa using hvalue
  · have hslot : slot k ≠ slot j := fun h => hjk (slot_injective h)
    have hlt : (j : Nat) < k := by omega
    simpa [Fin.val_inj, Vector.getElem_set, hslot] using hlane j hlt

/-- Every block of a mixed lane is a value of the chain, whatever the lane is written over. -/
theorem blockMix_congr (hr : 0 < r) (input output output' : Lane r) :
    blockMix hr input output = blockMix hr input output' := by
  ext1 k hk
  obtain ⟨i, hi⟩ := slot_bijective.2 ⟨k, hk⟩
  have hslot : (slot i : Nat) = k := congrArg Fin.val hi
  rw [blockMix_getElem_slot hr input output hk hslot,
    blockMix_getElem_slot hr input output' hk hslot]

/-- The mixing of a lane, as a function of the lane alone. -/
def Lane.mix (hr : 0 < r) (lane : Lane r) : Lane r := blockMix hr lane lane

/-- The first half of a mixed lane holds the values at even places. -/
theorem blockMix_getElem_left (hr : 0 < r) (input output : Lane r) {i : Nat} (hi : i < r) :
    (blockMix hr input output)[i] = input.chain hr (2 * i + 1) := by
  have hplace : 2 * i < 2 * r := by omega
  have hslot : (slot ⟨2 * i, hplace⟩ : Nat) = i := by
    simp [slot]
  exact blockMix_getElem_slot hr input output (by omega) hslot

/-- The second half of a mixed lane holds the values at odd places. -/
theorem blockMix_getElem_right (hr : 0 < r) (input output : Lane r) {i : Nat} (hi : i < r) :
    (blockMix hr input output)[r + i] = input.chain hr (2 * i + 2) := by
  have hplace : 2 * i + 1 < 2 * r := by omega
  have hslot : (slot ⟨2 * i + 1, hplace⟩ : Nat) = r + i := by
    simp [slot, Nat.add_mod]
    omega
  exact blockMix_getElem_slot hr input output (by omega) hslot

/-- The blocks of a mixed lane: the values at even places, then those at odd places. -/
theorem toList_blockMix (hr : 0 < r) (input output : Lane r) :
    (blockMix hr input output).toList =
      ((List.range r).map fun i => input.chain hr (2 * i + 1)) ++
        (List.range r).map fun i => input.chain hr (2 * i + 2) := by
  apply List.ext_getElem
  · simp
    omega
  intro i hi _
  rw [Vector.length_toList] at hi
  rw [Vector.getElem_toList]
  by_cases hleft : i < r
  · rw [blockMix_getElem_left hr input output hleft, List.getElem_append_left (by simpa)]
    simp
  · obtain ⟨j, rfl⟩ : ∃ j, i = r + j := ⟨i - r, by omega⟩
    rw [blockMix_getElem_right hr input output (by omega), List.getElem_append_right (by simp)]
    simp

/-- On bytes, the mixing of a lane is the published one. -/
theorem toBytes_blockMix (hr : 0 < r) (input output : Lane r) :
    (blockMix hr input output).toBytes = Standard.blockMix r input.toBytes := by
  have hhalf (d : Nat) (hd : d ≤ 2) :
      (List.range r).flatMap (fun i => (input.chain hr (2 * i + d)).toBytes) =
        (List.range r).flatMap fun i => Standard.mixChain r input.toBytes (2 * i + d) := by
    refine List.flatMap_congr fun i hi => ?_
    have := List.mem_range.1 hi
    exact input.toBytes_chain hr (by omega)
  rw [Lane.toBytes, toList_blockMix, List.flatMap_append, List.flatMap_map, List.flatMap_map,
    hhalf 1 (by decide), hhalf 2 (by decide), Standard.blockMix]

/-! ## Two lanes -/

section

variable (hr : 0 < r) {R S : Block → Block → Prop} {lane lane' : Lane r}
  (hlane : ∀ i (hi : i < 2 * r), R lane[i] lane'[i])
  (hcore : ∀ {x y u v}, R x y → R u v → S (Salsa.core (x.xor u)) (Salsa.core (y.xor v)))
  (hweaken : ∀ {x y}, S x y → R x y)

include hlane hcore hweaken

/-- What relates the blocks of two lanes, and is passed on by the core, relates the values of their
    chains. -/
theorem Lane.chain_related (i : Nat) : R (lane.chain hr i) (lane'.chain hr i) := by
  induction i with
  | zero => exact hlane (2 * r - 1) _
  | succ i ih =>
    rw [chain, chain]
    split
    · exact hweaken (hcore ih (hlane i _))
    · exact ih

/-- So it relates the blocks of two mixed lanes, and even what the core makes of it does. -/
theorem blockMix_related (output output' : Lane r) {k : Nat} (hk : k < 2 * r) :
    S (blockMix hr lane output)[k] (blockMix hr lane' output')[k] := by
  obtain ⟨i, hi⟩ := slot_bijective.2 ⟨k, hk⟩
  have hslot : (slot i : Nat) = k := congrArg Fin.val hi
  rw [blockMix_getElem_slot hr lane output hk hslot,
    blockMix_getElem_slot hr lane' output' hk hslot, Lane.chain, Lane.chain, dif_pos i.isLt,
    dif_pos i.isLt]
  exact hcore (Lane.chain_related hr hlane hcore hweaken i) (hlane i i.isLt)

end

theorem Lane.toBytes_mix (hr : 0 < r) (lane : Lane r) :
    (lane.mix hr).toBytes = Standard.blockMix r lane.toBytes := toBytes_blockMix hr lane lane

end KeyStretching
