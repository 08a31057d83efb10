import KeyStretching.Proofs.Standard
import Mathlib.Algebra.Group.Nat.Defs
import Mathlib.Data.List.Basic

/-!
# Pieces of byte strings

The pieces that `chunks` cuts off one by one and the pieces that `Standard.piece` finds by number
are the same, and a byte string that is written piece by piece is read back piece by piece:

* `chunks_eq_map_piece`: a whole number of pieces is cut into the pieces by number;
* `piece_flatMap`: piece number `i` of a concatenation is its part number `i`;
* `xor_flatMap`: the exclusive or of two concatenations is that of their parts.

Writing a number in `k` bytes and reading them keeps it modulo `256 ^ k`
(`ofLittleEndian_littleEndian`).
-/

namespace KeyStretching

open Standard (piece)

/-! ## Reading by pieces -/

section

variable {α : Type} {len : Nat} {f : α → Bytes}

/-- Piece number `i` of a concatenation of strings of one length is string number `i`. -/
theorem piece_flatten {parts : List Bytes} (hparts : ∀ part ∈ parts, part.length = len) {i : Nat}
    (h : i < parts.length) : piece len i parts.flatten = parts[i] := by
  induction parts generalizing i with
  | nil => exact absurd h (Nat.not_lt_zero i)
  | cons part parts ih =>
    obtain ⟨hfirst, hrest⟩ := List.forall_mem_cons.1 hparts
    cases i with
    | zero => simp [piece, List.take_left', hfirst]
    | succ i =>
      -- Skipping one more piece is skipping the string in front.
      have hdrop : (part :: parts).flatten.drop (len * (i + 1)) = parts.flatten.drop (len * i) := by
        rw [List.flatten_cons, Nat.mul_succ, Nat.add_comm, ← List.drop_drop,
          List.drop_left' hfirst]
      rw [piece, hdrop]
      exact ih hrest (Nat.lt_of_succ_lt_succ h)

/-- Piece number `i` of a concatenation of parts of one length is part number `i`. -/
theorem piece_flatMap (hf : ∀ a, (f a).length = len) (xs : List α) {i : Nat} (h : i < xs.length) :
    piece len i (xs.flatMap f) = f xs[i] := by
  have hparts : ∀ part ∈ xs.map f, part.length = len := List.forall_mem_map.2 fun a _ => hf a
  rw [List.flatMap_def, piece_flatten hparts (by rwa [List.length_map]), List.getElem_map]

theorem length_flatten {β : Type} {parts : List (List β)}
    (hparts : ∀ part ∈ parts, part.length = len) : parts.flatten.length = len * parts.length := by
  simp [List.length_flatten, List.map_congr_left hparts, List.map_const', Nat.mul_comm]

theorem length_flatMap (hf : ∀ a, (f a).length = len) (xs : List α) :
    (xs.flatMap f).length = len * xs.length := by
  rw [List.flatMap_def, length_flatten (List.forall_mem_map.2 fun a _ => hf a), List.length_map]

end

section

variable {len count : Nat} {bytes : Bytes}

theorem length_piece (h : bytes.length = len * count) {i : Nat} (hi : i < count) :
    (piece len i bytes).length = len := by
  have : len * i + len ≤ len * count := by
    rw [← Nat.mul_succ]
    exact Nat.mul_le_mul_left len hi
  rw [piece, List.length_take, List.length_drop, h]
  omega

/-- A byte string of a whole number of pieces is cut into its pieces by number. -/
theorem chunks_eq_map_piece (hlen : 0 < len) (h : bytes.length = len * count) :
    chunks len bytes = (List.range count).map fun i => piece len i bytes := by
  induction count generalizing bytes with
  | zero =>
    rw [List.eq_nil_of_length_eq_zero h, chunks_nil]
    rfl
  | succ count ih =>
    have hne : bytes ≠ [] := by
      rintro rfl
      simp [Nat.mul_succ] at h
      omega
    have hrest : (bytes.drop len).length = len * count := by
      rw [List.length_drop, h, Nat.mul_succ]
      omega
    -- Behind the first piece, the others count from zero again.
    have hshift (i : Nat) : piece len i (bytes.drop len) = piece len (i + 1) bytes := by
      rw [piece, piece, List.drop_drop, Nat.mul_succ, Nat.add_comm]
    rw [chunks_of_ne_nil hlen hne, ih hrest, List.range_succ_eq_map, List.map_cons, List.map_map]
    simp only [Function.comp_def, Nat.succ_eq_add_one, hshift]
    rfl

/-- A byte string of a whole number of pieces is the concatenation of its pieces. -/
theorem flatMap_piece (hlen : 0 < len) (h : bytes.length = len * count) :
    (List.range count).flatMap (fun i => piece len i bytes) = bytes := by
  rw [List.flatMap_def, ← chunks_eq_map_piece hlen h, flatten_chunks]

/-- Byte strings of a whole number of pieces are equal if their pieces are. -/
theorem eq_of_piece_eq (hlen : 0 < len) (h : bytes.length = len * count) {bytes' : Bytes}
    (h' : bytes'.length = len * count)
    (hpiece : ∀ i < count, piece len i bytes = piece len i bytes') : bytes = bytes' := by
  rw [← flatMap_piece hlen h, ← flatMap_piece hlen h']
  exact List.flatMap_congr fun i hi => hpiece i (List.mem_range.1 hi)

/-- Changing each byte according to its place is changing each piece so. -/
theorem piece_mapIdx (f : Nat → UInt8 → UInt8) (len i : Nat) (bytes : Bytes) :
    piece len i (bytes.mapIdx f) = (piece len i bytes).mapIdx fun k => f (len * i + k) := by
  refine List.ext_getElem? fun k => ?_
  by_cases hk : k < len
  · simp [piece, List.getElem?_take_of_lt hk, List.getElem?_drop]
  · simp [piece, List.getElem?_take_eq_none (Nat.le_of_not_lt hk)]

/-- A byte string of a whole number of pieces is unchanged if each of them is read, and what is read
    is written again. -/
theorem flatMap_map_piece {α : Type} {read : Bytes → α} {write : α → Bytes} (hlen : 0 < len)
    (h : bytes.length = len * count)
    (hback : ∀ p : Bytes, p.length = len → write (read p) = p) :
    ((List.range count).map fun i => read (piece len i bytes)).flatMap write = bytes := by
  rw [List.flatMap_map]
  calc (List.range count).flatMap _ = (List.range count).flatMap fun i => piece len i bytes :=
        List.flatMap_congr fun i hi => hback _ (length_piece h (List.mem_range.1 hi))
    _ = bytes := flatMap_piece hlen h

end

/-- Combining two concatenations of parts of one length, element by element, is combining the
    parts. -/
theorem zipWith_flatMap {α β : Type} {len : Nat} {f : α → List β} {g : α → α → α}
    {combine : β → β → β} (hf : ∀ a, (f a).length = len)
    (hg : ∀ a b, f (g a b) = List.zipWith combine (f a) (f b)) (xs ys : List α) :
    List.zipWith combine (xs.flatMap f) (ys.flatMap f) = (List.zipWith g xs ys).flatMap f := by
  induction xs generalizing ys with
  | nil => rfl
  | cons x xs ih =>
    cases ys with
    | nil => simp
    | cons y ys =>
      rw [List.flatMap_cons, List.flatMap_cons, List.zipWith_append ((hf x).trans (hf y).symm), ih,
        List.zipWith_cons_cons, List.flatMap_cons, hg]

namespace Bytes

/-! ## Exclusive or -/

/-- The exclusive or of two concatenations of parts of one length is that of the parts. -/
theorem xor_flatMap {α : Type} {len : Nat} {f : α → Bytes} {g : α → α → α}
    (hf : ∀ a, (f a).length = len) (hg : ∀ a b, f (g a b) = (f a).xor (f b)) (xs ys : List α) :
    xor (xs.flatMap f) (ys.flatMap f) = (List.zipWith g xs ys).flatMap f :=
  zipWith_flatMap hf hg xs ys

/-- The exclusive or with zeros changes nothing. -/
theorem zero_xor {n : Nat} {bytes : Bytes} (h : bytes.length = n) :
    xor (List.replicate n 0) bytes = bytes := by
  subst h
  induction bytes with
  | nil => rfl
  | cons b bytes ih =>
    rw [List.length_cons, List.replicate_succ, xor, List.zipWith_cons_cons, ← xor, ih,
      UInt8.zero_xor]

/-- Written numbers are combined as the numbers are. -/
theorem littleEndian_xor (k m n : Nat) :
    (littleEndian k m).xor (littleEndian k n) = littleEndian k (m ^^^ n) := by
  induction k generalizing m n with
  | zero => rfl
  | succ k ih =>
    have hdiv : (m ^^^ n) / 256 = m / 256 ^^^ n / 256 := Nat.xor_div_two_pow (n := 8)
    rw [littleEndian, littleEndian, littleEndian, hdiv, ← ih, xor, List.zipWith_cons_cons,
      ← UInt8.ofNat_xor]
    rfl

/-! ## Filling up -/

/-- Zeros at the end of a string fill it up as they would anyway. -/
theorem padTo_append_zeros {n k : Nat} {bytes : Bytes} (h : bytes.length + k ≤ n) :
    padTo n (bytes ++ List.replicate k 0) = padTo n bytes := by
  have hzeros : k + (n - (bytes.length + k)) = n - bytes.length := by omega
  rw [padTo, padTo, List.length_append, List.length_replicate, List.append_assoc,
    List.replicate_append_replicate, hzeros]

theorem padTo_of_length {n : Nat} {bytes : Bytes} (h : bytes.length = n) :
    padTo n bytes = bytes := by
  rw [padTo, h, Nat.sub_self, List.replicate_zero, List.append_nil]

/-! ## Numbers -/

/-- A number read from a byte string is bounded by its length. -/
theorem ofLittleEndian_lt (bytes : Bytes) : ofLittleEndian bytes < 256 ^ bytes.length := by
  induction bytes with
  | nil => decide
  | cons b bytes ih =>
    have := b.toNat_lt
    simp only [ofLittleEndian_cons, List.length_cons, Nat.pow_succ]
    omega

/-- Writing a number in `k` bytes keeps it modulo `256 ^ k`. -/
theorem ofLittleEndian_littleEndian (k n : Nat) :
    ofLittleEndian (littleEndian k n) = n % 256 ^ k := by
  induction k generalizing n with
  | zero => simp [littleEndian, Nat.mod_one]
  | succ k ih =>
    rw [littleEndian, ofLittleEndian_cons, ih, Nat.pow_succ', Nat.mod_mul]
    rfl

theorem ofBigEndian_bigEndian (k n : Nat) : ofBigEndian (bigEndian k n) = n % 256 ^ k := by
  rw [bigEndian, ofBigEndian_reverse, ofLittleEndian_littleEndian]

theorem ofLittleEndian_append (a b : Bytes) :
    ofLittleEndian (a ++ b) = ofLittleEndian a + 256 ^ a.length * ofLittleEndian b := by
  induction a with
  | nil => simp
  | cons x a ih =>
    rw [List.cons_append, ofLittleEndian_cons, ofLittleEndian_cons, ih, List.length_cons,
      Nat.pow_succ', Nat.mul_add, Nat.add_assoc, Nat.mul_assoc]

/-- The first byte stands above all the others. -/
theorem ofBigEndian_cons (b : UInt8) (bytes : Bytes) :
    ofBigEndian (b :: bytes) = ofBigEndian bytes + 256 ^ bytes.length * b.toNat := by
  rw [← List.reverse_reverse (b :: bytes), ofBigEndian_reverse, List.reverse_cons,
    ofLittleEndian_append, ← ofBigEndian_reverse, List.reverse_reverse, List.length_reverse]
  rfl

/-- Reading a byte string from its other end and writing it again changes nothing. -/
theorem bigEndian_ofBigEndian (bytes : Bytes) :
    bigEndian bytes.length (ofBigEndian bytes) = bytes := by
  rw [← List.reverse_reverse bytes, ofBigEndian_reverse, bigEndian, List.length_reverse,
    littleEndian_ofLittleEndian]

/-- Reading a byte string of known length and writing it again changes nothing. -/
theorem littleEndian_ofLittleEndian' {k : Nat} {bytes : Bytes} (h : bytes.length = k) :
    littleEndian k (ofLittleEndian bytes) = bytes := by
  subst h
  exact littleEndian_ofLittleEndian bytes

end Bytes

end KeyStretching
