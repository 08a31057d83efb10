import KeyStretching.Proofs.Bytes
import KeyStretching.Scrypt.Salsa

/-!
# Rounds one after the other, and rounds at once

The Salsa20/8 core makes the four quarter rounds of a round one after the other, on one block that
each of them overwrites. As the four work on different words, that is the same as making them at
once (`foldl_quarterRound_getElem`), and the two rounds are those of the published function on the
columns and on the rows of a matrix (`matrix_columnRound`, `matrix_rowRound`). With the words read
and written as bytes, so are the core (`toBytes_core`) and the mixing function (`toList_hash`).
-/

namespace KeyStretching

open Standard (piece)

/-- The bytes of a block are those of its words. -/
theorem Block.piece_toBytes (x : Block) {k : Nat} (h : k < 16) :
    piece 4 k x.toBytes = Bytes.littleEndian 4 x[k].toNat := by
  rw [toBytes, piece_flatMap (fun _ => Bytes.length_littleEndian 4 _) _ (by simpa using h),
    Vector.getElem_toList]

namespace Salsa

open Matrix
open Standard (Words)

/-! ## One quarter round -/

/-- Turning a word is rotating its bits. -/
theorem rotl_eq (x : UInt32) {k : UInt32} (hpos : 0 < k.toNat) (hlt : k.toNat < 32) :
    rotl x k = ⟨x.toBitVec.rotateLeft k.toNat⟩ := by
  have hsub : (32 - k).toNat = 32 - k.toNat :=
    UInt32.toNat_sub_of_le _ _ (UInt32.le_iff_toNat_le.2 (Nat.le_of_lt hlt))
  -- Both shifts are by less than the width, so neither is reduced.
  have hshift {m : UInt32} (hm : m.toNat < 32) : (m.toBitVec % 32).toNat = m.toNat := by
    rw [BitVec.toNat_umod, UInt32.toNat_toBitVec]
    exact Nat.mod_eq_of_lt hm
  apply UInt32.toBitVec_inj.1
  rw [rotl, UInt32.toBitVec_or, UInt32.toBitVec_shiftLeft, UInt32.toBitVec_shiftRight,
    BitVec.shiftLeft_eq', BitVec.ushiftRight_eq', hshift hlt, hshift (by omega), hsub,
    BitVec.rotateLeft_def, Nat.mod_eq_of_lt hlt]

section

variable (x : Block) {q : Fin 4 → Fin 16}

/-- A quarter round changes no words but its four. -/
theorem quarterRound_frame {k : Nat} (hlt : k < 16) (hk : ∀ i, (q i : Nat) ≠ k) :
    (quarterRound x (q 0) (q 1) (q 2) (q 3))[k] = x[k] := by
  simp only [quarterRound, Vector.getElem_set, hk, ↓reduceIte]

/-- On four different words, a quarter round is that of the published function. -/
theorem quarterRound_getElem (hq : Function.Injective q) (k : Fin 4) :
    (quarterRound x (q 0) (q 1) (q 2) (q 3))[q k] =
      Standard.quarterRound (fun i => x[q i]) k := by
  have h {i j : Fin 4} : q i = q j ↔ i = j := hq.eq_iff
  match k with
  | 0 | 1 | 2 | 3 => simp [quarterRound, Standard.quarterRound, Fin.val_inj, h, rotl_eq]

end

/-! ## Four quarter rounds -/

/-- The place of the word in row `i` and column `j`. -/
def place (i j : Fin 4) : Fin 16 := ⟨4 * i + j, by omega⟩

/-- The places of column `j`, from the diagonal downwards. -/
def column (j k : Fin 4) : Fin 16 := place (j + k) j

/-- The places of row `i`, from the diagonal to the right. -/
def row (i k : Fin 4) : Fin 16 := place i (i + k)

theorem column_injective {j k j' k' : Fin 4} (h : column j k = column j' k') :
    j = j' ∧ k = k' := by
  simp only [column, place, Fin.mk.injEq] at h
  omega

theorem row_injective {i k i' k' : Fin 4} (h : row i k = row i' k') : i = i' ∧ k = k' := by
  simp only [row, place, Fin.mk.injEq] at h
  omega

section

variable {q : Fin 4 → Fin 4 → Fin 16} (hq : ∀ {j k j' k'}, q j k = q j' k' → j = j' ∧ k = k')

include hq

/-- On quadruples that share no word, quarter rounds in turn change no words but theirs. -/
theorem foldl_quarterRound_frame {js : List (Fin 4)} (x : Block) {j : Fin 4} (hj : j ∉ js)
    (k : Fin 4) :
    (js.foldl (fun x i => quarterRound x (q i 0) (q i 1) (q i 2) (q i 3)) x)[q j k] =
      x[q j k] := by
  induction js generalizing x with
  | nil => rfl
  | cons i js ih =>
    obtain ⟨hij, hjs⟩ := List.ne_and_not_mem_of_not_mem_cons hj
    rw [List.foldl_cons, ih _ hjs]
    exact quarterRound_frame x (q j k).isLt fun m h => hij (hq (Fin.ext h)).1.symm

/-- On quadruples that share no word, each of the quarter rounds in turn finds its words as they
    were in the beginning, and leaves them as they are in the end. -/
theorem foldl_quarterRound_getElem {js : List (Fin 4)} (hjs : js.Nodup) (x : Block) {j : Fin 4}
    (hj : j ∈ js) (k : Fin 4) :
    (js.foldl (fun x i => quarterRound x (q i 0) (q i 1) (q i 2) (q i 3)) x)[q j k] =
      Standard.quarterRound (fun i => x[q j i]) k := by
  induction js generalizing x with
  | nil => exact absurd hj List.not_mem_nil
  | cons i js ih =>
    obtain ⟨hi, hjs⟩ := List.nodup_cons.1 hjs
    rw [List.foldl_cons]
    rcases List.mem_cons.1 hj with rfl | hj'
    · -- Its own quarter round comes first, and no other one touches its words later.
      rw [foldl_quarterRound_frame hq _ hi, quarterRound_getElem x fun _ _ h => (hq h).2]
    · have hij : i ≠ j := fun h => hi (h ▸ hj')
      have hframe (m : Fin 4) :
          (quarterRound x (q i 0) (q i 1) (q i 2) (q i 3))[q j m] = x[q j m] :=
        quarterRound_frame x (q j m).isLt fun _ h => hij (hq (Fin.ext h)).1
      simp only [ih hjs _ hj', hframe]

end

/-- A round on the columns makes the quarter rounds of all columns in turn. -/
theorem columnRound_eq_foldl (x : Block) :
    columnRound x =
      (List.finRange 4).foldl
        (fun x j => quarterRound x (column j 0) (column j 1) (column j 2) (column j 3)) x := by
  have hcolumns : List.finRange 4 = [0, 1, 2, 3] := rfl
  simp only [hcolumns, List.foldl_cons, List.foldl_nil]
  rfl

/-- A round on the rows makes the quarter rounds of all rows in turn. -/
theorem rowRound_eq_foldl (x : Block) :
    rowRound x =
      (List.finRange 4).foldl
        (fun x i => quarterRound x (row i 0) (row i 1) (row i 2) (row i 3)) x := by
  have hrows : List.finRange 4 = [0, 1, 2, 3] := rfl
  simp only [hrows, List.foldl_cons, List.foldl_nil]
  rfl

/-- A round on the columns turns each column into its quarter round. -/
theorem columnRound_getElem (x : Block) (j k : Fin 4) :
    (columnRound x)[column j k] = Standard.quarterRound (fun i => x[column j i]) k := by
  simp only [columnRound_eq_foldl]
  exact foldl_quarterRound_getElem column_injective (List.nodup_finRange 4) x (List.mem_finRange j)
    k

/-- A round on the rows turns each row into its quarter round. -/
theorem rowRound_getElem (x : Block) (i k : Fin 4) :
    (rowRound x)[row i k] = Standard.quarterRound (fun j => x[row i j]) k := by
  simp only [rowRound_eq_foldl]
  exact foldl_quarterRound_getElem row_injective (List.nodup_finRange 4) x (List.mem_finRange i) k

/-! ## Rounds on a matrix -/

/-- The words of a block as a matrix. -/
def matrix (x : Block) : Words := of fun i j => x[place i j]

/-- Every word of a block stands in the matrix. -/
theorem matrix_injective : Function.Injective matrix := by
  intro x y h
  refine Vector.ext fun k hk => ?_
  obtain ⟨i, j, rfl⟩ : ∃ i j : Fin 4, k = place i j :=
    ⟨⟨k / 4, by omega⟩, ⟨k % 4, by omega⟩, (Nat.div_add_mod k 4).symm⟩
  exact congrFun (congrFun h i) j

/-- A round on the columns is that of the published function. -/
theorem matrix_columnRound (x : Block) :
    matrix (columnRound x) = Standard.columnRound (matrix x) := by
  refine Matrix.ext fun i j => ?_
  have hplace : column j (i - j) = place i j := by
    rw [column]
    congr 1
    omega
  have hround := columnRound_getElem x j (i - j)
  simp only [hplace] at hround
  simp only [matrix, Standard.columnRound, of_apply, hround, column]

/-- A round on the rows is that of the published function. -/
theorem matrix_rowRound (x : Block) : matrix (rowRound x) = Standard.rowRound (matrix x) := by
  refine Matrix.ext fun i j => ?_
  have hplace : row i (j - i) = place i j := by
    rw [row]
    congr 1
    omega
  have hround := rowRound_getElem x i (j - i)
  simp only [hplace] at hround
  simp only [matrix, Standard.rowRound, Standard.columnRound, of_apply, transpose_apply, hround,
    row]

theorem matrix_doubleRound (x : Block) :
    matrix (doubleRound x) = (Standard.rowRound ∘ Standard.columnRound) (matrix x) := by
  rw [doubleRound, matrix_rowRound, matrix_columnRound, Function.comp_apply]

/-- The core on a matrix of words. -/
theorem matrix_core (x : Block) :
    matrix (core x) =
      matrix x + (Standard.rowRound ∘ Standard.columnRound)^[4] (matrix x) := by
  have hadd : matrix (core x) = matrix x + matrix (rounds x) := by
    refine Matrix.ext fun i j => ?_
    simp [matrix, core, Block.add]
  rw [hadd, rounds, matrix_doubleRound, matrix_doubleRound, matrix_doubleRound, matrix_doubleRound]
  rfl

/-! ## The core on bytes -/

/-- The bytes of a block spell its words. -/
theorem words_toBytes (x : Block) : Standard.words x.toBytes = matrix x := by
  refine Matrix.ext fun i j => ?_
  rw [Standard.words, of_apply, ← show (place i j : ℕ) = 4 * i + j from rfl,
    Block.piece_toBytes x (place i j).isLt, Bytes.ofLittleEndian_littleEndian]
  simp [matrix]

/-- The bytes of a matrix are those of the block. -/
theorem wordBytes_matrix (x : Block) : Standard.wordBytes (matrix x) = x.toBytes := by
  -- The words of a block stand in it row by row.
  have hrows : x.toList =
      (List.finRange 4).flatMap fun i => (List.finRange 4).map fun j => x[place i j] := by
    have hwords : x = Vector.ofFn fun k => x[k] := by
      ext k hk
      simp
    conv_lhs => rw [hwords, Vector.toList_ofFn]
    rfl
  rw [Block.toBytes, hrows, List.flatMap_assoc]
  simp only [List.flatMap_map]
  rfl

/-- The core on bytes is that of the published function. -/
theorem toBytes_core (x : Block) : (core x).toBytes = Standard.salsa x.toBytes := by
  rw [Standard.salsa, words_toBytes, ← matrix_core, wordBytes_matrix]

end Salsa

/-! ## The core from bytes to bytes -/

/-- Four bytes are the bytes of the word that they spell. -/
theorem littleEndian_toNat_ofNat {bytes : Bytes} (h : bytes.length = 4) :
    Bytes.littleEndian 4 (UInt32.ofNat (Bytes.ofLittleEndian bytes)).toNat = bytes := by
  have hlt := Bytes.ofLittleEndian_lt bytes
  rw [h] at hlt
  rw [UInt32.toNat_ofNat_of_lt' hlt, Bytes.littleEndian_ofLittleEndian' h]

/-- Sixty-four bytes are the bytes of the block that they spell. -/
theorem Block.toBytes_ofBytes {bytes : Bytes} (h : bytes.length = 64) :
    (Block.ofBytes bytes).toBytes = bytes := by
  have h' : bytes.length = 4 * 16 := h
  have hwords : (Block.ofBytes bytes).toList =
      (List.range 16).map fun i => UInt32.ofNat (Bytes.ofLittleEndian (piece 4 i bytes)) := by
    rw [Block.ofBytes, chunks_eq_map_piece (by decide) h']
    refine List.ext_getElem (by simp) fun i hi _ => ?_
    rw [Vector.length_toList] at hi
    simp
  rw [Block.toBytes, hwords]
  exact flatMap_map_piece (by decide) h' fun _ => littleEndian_toNat_ofNat

/-- Blocks of the same bytes are the same block. -/
theorem Block.toBytes_injective : Function.Injective Block.toBytes := by
  intro x y h
  apply Salsa.matrix_injective
  rw [← Salsa.words_toBytes, ← Salsa.words_toBytes, h]

/-- The mixing function is the core on the block that the bytes spell. -/
theorem Salsa.hash_eq_core (bytes : Vector UInt8 64) :
    (hash bytes).toList = (core (Block.ofBytes bytes.toList)).toBytes := rfl

/-- On 64 bytes, the mixing function is the published one. -/
theorem Salsa.toList_hash (bytes : Vector UInt8 64) :
    (hash bytes).toList = Standard.salsa bytes.toList := by
  rw [hash_eq_core, toBytes_core, Block.toBytes_ofBytes bytes.length_toList]

-- The block that RFC 7914 gives, and what it is mixed into.
example :
    Salsa.hash
      #v[0x7e, 0x87, 0x9a, 0x21, 0x4f, 0x3e, 0xc9, 0x86, 0x7c, 0xa9, 0x40, 0xe6, 0x41, 0x71,
        0x8f, 0x26, 0xba, 0xee, 0x55, 0x5b, 0x8c, 0x61, 0xc1, 0xb5, 0x0d, 0xf8, 0x46, 0x11,
        0x6d, 0xcd, 0x3b, 0x1d, 0xee, 0x24, 0xf3, 0x19, 0xdf, 0x9b, 0x3d, 0x85, 0x14, 0x12,
        0x1e, 0x4b, 0x5a, 0xc5, 0xaa, 0x32, 0x76, 0x02, 0x1d, 0x29, 0x09, 0xc7, 0x48, 0x29,
        0xed, 0xeb, 0xc6, 0x8d, 0xb8, 0xb8, 0xc2, 0x5e] =
      #v[0xa4, 0x1f, 0x85, 0x9c, 0x66, 0x08, 0xcc, 0x99, 0x3b, 0x81, 0xca, 0xcb, 0x02, 0x0c,
        0xef, 0x05, 0x04, 0x4b, 0x21, 0x81, 0xa2, 0xfd, 0x33, 0x7d, 0xfd, 0x7b, 0x1c, 0x63,
        0x96, 0x68, 0x2f, 0x29, 0xb4, 0x39, 0x31, 0x68, 0xe3, 0xc9, 0xe6, 0xbc, 0xfe, 0x6b,
        0xc5, 0xb7, 0xa0, 0x6d, 0x96, 0xba, 0xe4, 0x24, 0xcc, 0x10, 0x2c, 0x91, 0x74, 0x5c,
        0x24, 0xad, 0x67, 0x3d, 0xc7, 0x61, 0x8f, 0x81] := by
  cbv

end KeyStretching
