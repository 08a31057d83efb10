import KeyStretching.Proofs.BlockMix
import KeyStretching.Scrypt.RoMix

/-!
# Mixing a lane through memory

The two loops of the memory-hard part, each with what it leaves behind: filling keeps the lane
after `i` mixings at place `i` of the memory (`fill_spec`), and revisiting mixes the lane with the
blocks it selects (`current_revisit`). So the memory can be skipped: `mixLane` is `n` mixings and
then `n` steps that compute the block they select anew (`mixLane_eq_iterate`).

The place that a lane selects is, for a power of two that fits into a word, the remainder of its
whole last block (`select_eq_mod`). With that, mixing is the published one on bytes
(`mixBytes_eq`).
-/

namespace KeyStretching

open Standard (piece)

/-! ## Reading lanes -/

/-- The bytes of a block start with those of its first word. -/
theorem Block.toBytes_eq_append (x : Block) :
    x.toBytes = Bytes.littleEndian 4 x[0].toNat ++ x.toBytes.drop 4 := by
  rw [← x.piece_toBytes (by decide)]
  exact (List.take_append_drop 4 x.toBytes).symm

/-- `128 * r` bytes are the bytes of the lane that they spell. -/
theorem Lane.toBytes_ofBytes {r : Nat} {bytes : Bytes} (h : bytes.length = 128 * r) :
    (Lane.ofBytes r bytes).toBytes = bytes := by
  have h' : bytes.length = 64 * (2 * r) := by omega
  have hblocks : (Lane.ofBytes r bytes).toList =
      (List.range (2 * r)).map fun i => Block.ofBytes (piece 64 i bytes) := by
    rw [Lane.ofBytes, chunks_eq_map_piece (by decide) h']
    refine List.ext_getElem (by simp) fun i hi _ => ?_
    rw [Vector.length_toList] at hi
    simp
  rw [Lane.toBytes, hblocks]
  exact flatMap_map_piece (by decide) h' fun _ => Block.toBytes_ofBytes

namespace RoMix

variable {r n : Nat}

/-! ## The two loops -/

theorem Lanes.current_mix (hr : 0 < r) (x : Lanes r) :
    (Lanes.mix hr x).current = x.current.mix hr := blockMix_congr hr _ _ _

/-- Filling keeps the lane before each of the mixings, and ends with the lane after all. -/
theorem fill_spec (hr : 0 < r) (memory : Vector (Lane r) n) (x : Lanes r) :
    (fill hr memory x).2.current = (Lane.mix hr)^[n] x.current ∧
      ∀ i (hi : i < n), (fill hr memory x).1[i] = (Lane.mix hr)^[i] x.current := by
  -- After `k` steps the lane has been mixed `k` times, and the places before `k` are filled.
  let Holds (k : Nat) (s : Vector (Lane r) n × Lanes r) : Prop :=
    s.2.current = (Lane.mix hr)^[k] x.current ∧
      ∀ i : Fin n, i < k → s.1[i] = (Lane.mix hr)^[i] x.current
  have hfill : Holds n (fill hr memory x) := by
    refine foldl_keeps Holds ⟨rfl, fun i hi => absurd hi (Nat.not_lt_zero _)⟩ ?_
    rintro k ⟨memory, x⟩ ⟨hx, hmemory⟩
    refine ⟨?_, fun i hi => ?_⟩
    · rw [Lanes.current_mix, hx, Function.iterate_succ_apply']
    · by_cases hik : k = i
      · subst hik
        simpa using hx
      · have hlt : (i : Nat) < k := by omega
        simpa [Fin.val_inj, Vector.getElem_set, hik] using hmemory i hlt
  exact ⟨hfill.1, fun i hi => hfill.2 ⟨i, hi⟩ hi⟩

/-- A step of revisiting: the lane is mixed together with the block of memory that it selects. -/
def revisitStep (hr : 0 < r) (hn : 0 < n) (memory : Vector (Lane r) n) (lane : Lane r) : Lane r :=
  (lane.xor memory[select hr hn lane]).mix hr

theorem current_revisit (hr : 0 < r) (hn : 0 < n) (memory : Vector (Lane r) n) (x : Lanes r) :
    (revisit hr hn memory x).current = (revisitStep hr hn memory)^[n] x.current := by
  let Holds (k : Nat) (y : Lanes r) : Prop :=
    y.current = (revisitStep hr hn memory)^[k] x.current
  have hstep (i : Fin n) (y : Lanes r) (hy : Holds i y) :
      Holds (i + 1) (Lanes.mix hr ⟨y.current.xor memory[select hr hn y.current], y.spare⟩) := by
    change (Lanes.mix hr _).current = _
    rw [Lanes.current_mix, Function.iterate_succ_apply', ← hy, revisitStep]
  exact foldl_keeps Holds rfl hstep

/-- When the memory is filled, the block that is selected is the one that would be computed anew. -/
theorem revisitStep_fill (hr : 0 < r) (hn : 0 < n) (memory : Vector (Lane r) n) (x : Lanes r) :
    revisitStep hr hn (fill hr memory x).1 =
      fun y => (y.xor ((Lane.mix hr)^[select hr hn y] x.current)).mix hr := by
  funext y
  rw [revisitStep, Fin.getElem_fin, (fill_spec hr memory x).2]

/-- The memory can be skipped, at the price of mixing the lane anew up to the selected block. -/
theorem mixLane_eq_iterate (hr : 0 < r) (hn : 0 < n) (lane : Lane r) :
    mixLane hr hn lane =
      (fun x => (x.xor ((Lane.mix hr)^[select hr hn x] lane)).mix hr)^[n]
        ((Lane.mix hr)^[n] lane) := by
  -- What the memory and the spare lane hold at first is of no importance.
  obtain ⟨memory, x, rfl, hmix⟩ : ∃ (memory : Vector (Lane r) n) (x : Lanes r), x.current = lane ∧
      mixLane hr hn lane =
        (revisit hr hn (fill hr memory x).1 (fill hr memory x).2).current := ⟨_, _, rfl, rfl⟩
  rw [hmix, current_revisit, revisitStep_fill, (fill_spec hr memory x).1]

/-! ## Selecting -/

/-- With as many places as a power of two, the low bits of the number are its remainder. -/
theorem select_eq_toNat_mod (hr : 0 < r) (hn : 0 < n) {k : Nat} (hpow : n = 2 ^ k)
    (lane : Lane r) : (select hr hn lane : Nat) = (lane.integerify hr).toNat % n := by
  subst hpow
  exact Nat.and_two_pow_sub_one_eq_mod _ k

/-- The number that a lane selects by, when there are as many places as a power of two that fits
    into a word, is the remainder of the whole last block. -/
theorem select_eq_mod (hr : 0 < r) (hn : 0 < n) {k : Nat} (hk : k ≤ 32) (hpow : n = 2 ^ k)
    (lane : Lane r) :
    (select hr hn lane : Nat) = Standard.integerify r lane.toBytes % n := by
  -- All of the last block but its first word is a multiple of a greater power of two.
  obtain ⟨rest, hrest⟩ : ∃ rest, (lane.last hr).toBytes =
      Bytes.littleEndian 4 (lane.integerify hr).toNat ++ rest :=
    ⟨_, Block.toBytes_eq_append (lane.last hr)⟩
  have hword : (lane.integerify hr).toNat < 256 ^ 4 := (lane.integerify hr).toNat_lt
  have hdvd : 2 ^ k ∣ 256 ^ 4 := Nat.pow_dvd_pow 2 hk
  have hlast : piece 64 (2 * r - 1) lane.toBytes = (lane.last hr).toBytes :=
    Lane.piece_toBytes lane (by omega)
  rw [select_eq_toNat_mod hr hn hpow, Standard.integerify, hlast, hrest,
    Bytes.ofLittleEndian_append, Bytes.length_littleEndian, Bytes.ofLittleEndian_littleEndian,
    Nat.mod_eq_of_lt hword, hpow, Nat.add_mod,
    Nat.mod_eq_zero_of_dvd (Nat.dvd_mul_right_of_dvd hdvd _), Nat.add_zero, Nat.mod_mod]

/-! ## Mixing on bytes -/

theorem toBytes_iterate_mix (hr : 0 < r) (lane : Lane r) (i : Nat) :
    ((Lane.mix hr)^[i] lane).toBytes = (Standard.blockMix r)^[i] lane.toBytes :=
  (Function.Semiconj.iterate_right (Lane.toBytes_mix hr) i).eq lane

/-- On bytes, a step that computes the selected block anew. -/
theorem toBytes_mix_selected (hr : 0 < r) (hn : 0 < n) {k : Nat} (hk : k ≤ 32) (hpow : n = 2 ^ k)
    (lane x : Lane r) :
    ((x.xor ((Lane.mix hr)^[select hr hn x] lane)).mix hr).toBytes =
      Standard.blockMix r (x.toBytes.xor
        ((Standard.blockMix r)^[Standard.integerify r x.toBytes % n] lane.toBytes)) := by
  rw [Lane.toBytes_mix, Lane.toBytes_xor, toBytes_iterate_mix, select_eq_mod hr hn hk hpow]

/-- On bytes, mixing a lane through memory is the published function, for a power of two that fits
    into a word. -/
theorem toBytes_mixLane (hr : 0 < r) (hn : 0 < n) {k : Nat} (hk : k ≤ 32) (hpow : n = 2 ^ k)
    (lane : Lane r) :
    (mixLane hr hn lane).toBytes = Standard.roMix r n lane.toBytes := by
  have hstep : Function.Semiconj Lane.toBytes
      (fun x => (x.xor ((Lane.mix hr)^[select hr hn x] lane)).mix hr)
      (fun x => Standard.blockMix r (x.xor
        (((List.range n).map fun i => (Standard.blockMix r)^[i] lane.toBytes).getD
          (Standard.integerify r x % n) []))) := by
    intro x
    have hlt : Standard.integerify r x.toBytes % n < n := Nat.mod_lt _ hn
    rw [toBytes_mix_selected hr hn hk hpow]
    simp [hlt]
  rw [mixLane_eq_iterate, Standard.roMix, ← toBytes_iterate_mix hr]
  exact (hstep.iterate_right n).eq _

/-- Mixing `128 * r` bytes in place is the published function. -/
theorem mixBytes_eq (hr : 0 < r) (hn : 0 < n) {k : Nat} (hk : k ≤ 32) (hpow : n = 2 ^ k)
    {bytes : Bytes} (h : bytes.length = 128 * r) :
    mixBytes hr hn bytes = Standard.roMix r n bytes := by
  rw [mixBytes, toBytes_mixLane hr hn hk hpow, Lane.toBytes_ofBytes h]

@[simp] theorem length_mixBytes (hr : 0 < r) (hn : 0 < n) (bytes : Bytes) :
    (mixBytes hr hn bytes).length = 128 * r := Lane.length_toBytes _

end RoMix

end KeyStretching
