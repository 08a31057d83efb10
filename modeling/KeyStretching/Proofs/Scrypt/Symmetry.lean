import KeyStretching.Proofs.BlockMix
import Mathlib.Logic.Equiv.Fin.Basic
import Mathlib.Logic.Equiv.Fin.Rotate

/-!
# The symmetry along the diagonal

A round treats all columns alike, and all rows: in each of them the quarter round starts on the
diagonal and goes round the edge. So nothing tells one place of the diagonal from the next, and a
block with all its words moved one place along the diagonal is mixed into the same result, moved in
the same way.

* `Block.shift`: the block with its words moved;
* `Standard.columnRound_shift`, `Standard.rowRound_shift`: the rounds commute with the move;
* `core_shift`: so does the core;
* `blockMix_map_shift`: so does the mixing of a lane, with every block of it moved.
-/

namespace KeyStretching

open Salsa (place matrix)

/-! ## Moving words -/

/-- Where words are moved to: from row `i` and column `j` to row `i + 1` and column `j + 1`, and
    round the edges. -/
def diagonal : Equiv.Perm (Fin 16) :=
  let grid : Fin 4 × Fin 4 ≃ Fin 16 := finProdFinEquiv
  grid.symm.trans (((finRotate 4).prodCongr (finRotate 4)).trans grid)

/-- The block with every word moved one place along the diagonal. -/
def Block.shift (x : Block) : Block := Vector.ofFn fun k => x[diagonal.symm k]

/-- The words of a matrix moved one place along the diagonal. -/
def Standard.shift (x : Words) : Words := x.submatrix (finRotate 4).symm (finRotate 4).symm

theorem diagonal_place (i j : Fin 4) : diagonal (place i j) = place (i + 1) (j + 1) := by
  revert i j
  decide

/-- Every word is in the next row and the next column. -/
theorem Block.getElem_shift (x : Block) {i j : Nat} (hi : i < 4) (hj : j < 4) :
    x.shift[4 * ((i + 1) % 4) + (j + 1) % 4] = x[4 * i + j] := by
  have hplace : diagonal.symm (place (⟨i, hi⟩ + 1) (⟨j, hj⟩ + 1)) = place ⟨i, hi⟩ ⟨j, hj⟩ :=
    diagonal.symm_apply_eq.2 (diagonal_place _ _).symm
  have hword : x.shift[place (⟨i, hi⟩ + 1) (⟨j, hj⟩ + 1)] = x[place ⟨i, hi⟩ ⟨j, hj⟩] := by
    simp [shift, hplace]
  exact hword

theorem Block.matrix_shift (x : Block) : matrix x.shift = Standard.shift (matrix x) := by
  funext i j
  have hplace :
      diagonal.symm (place i j) = place ((finRotate 4).symm i) ((finRotate 4).symm j) := by
    rw [diagonal.symm_apply_eq, diagonal_place, finRotate_symm_apply, finRotate_symm_apply,
      sub_add_cancel, sub_add_cancel]
  simp [matrix, Standard.shift, shift, hplace]

/-- Moving words commutes with combining two blocks. -/
theorem Block.shift_xor (x y : Block) : (x.xor y).shift = x.shift.xor y.shift := by
  refine Vector.ext fun k hk => ?_
  simp [shift, xor]

/-! ## Rounds -/

namespace Standard

/-- A round on the columns does not see on which of them it is. -/
theorem columnRound_shift (x : Words) : columnRound (shift x) = shift (columnRound x) := by
  funext i j
  have hplace (k : Fin 4) : j + k - 1 = j - 1 + k := by omega
  have hstart : i - j = i - 1 - (j - 1) := by omega
  simp only [columnRound, shift, Matrix.submatrix_apply, Matrix.of_apply, finRotate_symm_apply,
    hplace, ← hstart]

/-- A round on the rows does not see on which of them it is. -/
theorem rowRound_shift (x : Words) : rowRound (shift x) = shift (rowRound x) := by
  rw [rowRound, rowRound, shift, Matrix.transpose_submatrix, ← shift, columnRound_shift]
  rfl

theorem shift_add (x y : Words) : shift (x + y) = shift x + shift y := rfl

/-- All rounds together do not see it either. -/
theorem doubleRounds_shift (n : Nat) (x : Words) :
    (rowRound ∘ columnRound)^[n] (shift x) = shift ((rowRound ∘ columnRound)^[n] x) := by
  have hround : Function.Commute (rowRound ∘ columnRound) shift :=
    Function.Commute.comp_left rowRound_shift columnRound_shift
  exact hround.iterate_left n x

end Standard

/-! ## The core and the mixing of a lane -/

/-- The core commutes with moving the words. -/
theorem core_shift (x : Block) : Salsa.core x.shift = (Salsa.core x).shift := by
  apply Salsa.matrix_injective
  rw [Salsa.matrix_core, Block.matrix_shift, Standard.doubleRounds_shift, Block.matrix_shift,
    Salsa.matrix_core, Standard.shift_add]

/-- The mixing of a lane commutes with moving the words of every block, whatever it is written
    over. -/
theorem blockMix_map_shift {r : Nat} (hr : 0 < r) (lane output output' : Lane r) :
    blockMix hr (lane.map Block.shift) output' = (blockMix hr lane output).map Block.shift := by
  refine Vector.ext fun k hk => ?_
  rw [Vector.getElem_map]
  -- The two runs are related, block by block, by the second being the first one moved.
  refine blockMix_related hr (R := fun x y => y = x.shift) (S := fun x y => y = x.shift)
    (fun i hi => Vector.getElem_map _ _) ?_ id output output' hk
  rintro x _ u _ rfl rfl
  rw [← Block.shift_xor, core_shift]

/-- Moving every word to the next row and the next column makes no difference to the core, nor to
    the mixing of lanes of any size, but that the result is moved. -/
theorem symmetric_along_diagonal :
    (∀ (x : Block) (i j : Nat) (hi : i < 4) (hj : j < 4),
        x.shift[4 * ((i + 1) % 4) + (j + 1) % 4] = x[4 * i + j]) ∧
      (∀ x : Block, Salsa.core x.shift = (Salsa.core x).shift) ∧
      ∀ (r : Nat) (hr : 0 < r) (lane output output' : Lane r),
        blockMix hr (lane.map Block.shift) output' =
          (blockMix hr lane output).map Block.shift :=
  ⟨fun x _ _ => x.getElem_shift, core_shift, fun _ hr => blockMix_map_shift hr⟩

/-- Two blocks of numbered words, which are not the same ones when they are moved. -/
theorem symmetric_along_diagonal_numbered :
    let lane : Lane 1 := Vector.ofFn fun i => Vector.ofFn fun k => UInt32.ofNat (16 * i + k)
    0 < 1 ∧ lane.map Block.shift ≠ lane ∧
      blockMix Nat.one_pos (lane.map Block.shift) lane =
        (blockMix Nat.one_pos lane lane).map Block.shift := by
  intro lane
  have hmoved : (lane.map Block.shift)[1][0] ≠ lane[1][0] := by decide +kernel
  exact ⟨Nat.one_pos, fun h => hmoved (by rw [h]),
    symmetric_along_diagonal.2.2 1 Nat.one_pos lane lane lane⟩

end KeyStretching
