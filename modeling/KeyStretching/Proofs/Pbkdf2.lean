import KeyStretching.Pbkdf2
import KeyStretching.Proofs.Bytes
import Mathlib.Data.List.Basic

/-!
# Iterated key derivation

A key is derived by overwriting a buffer piece by piece, each with a block that a chain over one
keyed function accumulates. That is the published function, keyed from scratch for each code
(`derive_eq`): the block of a piece is the exclusive or of its codes (`block_eq`), and overwriting
all pieces is cutting the concatenation of the blocks to the length of the buffer
(`flatten_mapIdx_chunks`).

The length of a key only decides where it is cut, so a shorter key is the beginning of a longer one
(`take_pbkdf2`).
-/

namespace KeyStretching

/-! ## The length of a key -/

namespace Standard

variable (H : HashFunction) (password salt : Bytes) (c : Nat)

@[simp] theorem length_code (i j : Nat) : (code H password salt i (j + 1)).length = H.outLen :=
  H.length_hmac _ _

theorem keyPart_zero (i : Nat) : keyPart H password salt 0 i = List.replicate H.outLen 0 := rfl

/-- Each further iteration combines one more code with the block. -/
theorem keyPart_succ (i : Nat) :
    keyPart H password salt (c + 1) i =
      (keyPart H password salt c i).xor (code H password salt i (c + 1)) := by
  simp [keyPart, List.range_succ]

@[simp] theorem length_keyPart (i : Nat) : (keyPart H password salt c i).length = H.outLen := by
  induction c with
  | zero => simp [keyPart_zero]
  | succ c ih => simp [keyPart_succ, ih]

/-- As many blocks as a key takes are at least as long as the key. -/
theorem le_parts (keyLen : Nat) : keyLen ≤ H.outLen * ((keyLen + H.outLen - 1) / H.outLen) := by
  have hpos := H.outLen_pos
  have := Nat.div_add_mod (keyLen + H.outLen - 1) H.outLen
  have := Nat.mod_lt (keyLen + H.outLen - 1) hpos
  omega

/-- Whatever the blocks, a shorter key is the beginning of a longer one. -/
theorem take_parts {f : Nat → Bytes} (hf : ∀ i, (f i).length = H.outLen) {k m : Nat} (h : k ≤ m) :
    (((List.range ((m + H.outLen - 1) / H.outLen)).flatMap f).take m).take k =
      ((List.range ((k + H.outLen - 1) / H.outLen)).flatMap f).take k := by
  have hparts : (k + H.outLen - 1) / H.outLen ≤ (m + H.outLen - 1) / H.outLen :=
    Nat.div_le_div_right (by omega)
  -- The blocks of the longer key start with those of the shorter one, which are long enough for it.
  obtain ⟨d, hd⟩ := Nat.exists_eq_add_of_le hparts
  have hlen := length_flatMap hf (List.range ((k + H.outLen - 1) / H.outLen))
  rw [List.length_range] at hlen
  rw [List.take_take, Nat.min_eq_left h, hd, List.range_add, List.flatMap_append,
    List.take_append_of_le_length (by rw [hlen]; exact le_parts H k)]

@[simp] theorem length_pbkdf2 (keyLen : Nat) :
    (pbkdf2 H password salt c keyLen).length = keyLen := by
  rw [pbkdf2, List.length_take, length_flatMap (fun i => length_keyPart H password salt c (i + 1)),
    List.length_range]
  exact Nat.min_eq_left (le_parts H keyLen)

/-- A shorter key is the beginning of a longer one. -/
theorem take_pbkdf2 {k m : Nat} (h : k ≤ m) :
    (pbkdf2 H password salt c m).take k = pbkdf2 H password salt c k :=
  take_parts H (fun i => length_keyPart H password salt c (i + 1)) h

end Standard

/-! ## Overwriting by pieces -/

/-- One piece is cut off, and the rest falls into one less. -/
theorem parts_succ {n : Nat} (hn : 0 < n) (len : Nat) :
    (len + 1 + n - 1) / n = (len - (n - 1) + n - 1) / n + 1 := by
  rw [show len + 1 + n - 1 = len + n by omega, Nat.add_div_right _ hn]
  rcases Nat.le_total (n - 1) len with h | h
  · rw [show len - (n - 1) + n - 1 = len by omega]
  · rw [Nat.sub_eq_zero_of_le h, Nat.div_eq_of_lt (by omega), Nat.div_eq_of_lt (by omega)]

/-- The number of pieces that a list falls into. -/
theorem length_chunks {α : Type} {n : Nat} (hn : 0 < n) (xs : List α) :
    (chunks n xs).length = (xs.length + n - 1) / n := by
  fun_induction chunks n xs with
  | case1 => exact (Nat.div_eq_of_lt (by rw [List.length_nil]; omega)).symm
  | case2 x xs ih =>
    rw [List.length_cons, ih, List.length_drop, List.length_cons, parts_succ hn]

/-- Overwriting the pieces of a buffer is cutting the concatenation of what they are overwritten
    with to the length of the buffer. -/
theorem flatten_mapIdx_chunks {n : Nat} (hn : 0 < n) {f : Nat → Bytes} (hf : ∀ i, (f i).length = n)
    (buffer : Bytes) :
    ((chunks n buffer).mapIdx fun i piece => (f i).take piece.length).flatten =
      ((List.range ((buffer.length + n - 1) / n)).flatMap f).take buffer.length := by
  fun_induction chunks n buffer generalizing f with
  | case1 => rfl
  | case2 x buffer ih =>
    have hrest : (buffer.drop (n - 1)).length = buffer.length - (n - 1) := List.length_drop
    have hparts := parts_succ hn buffer.length
    have hfirst : (f 0).take (min (n - 1) buffer.length + 1) = (f 0).take (buffer.length + 1) := by
      rw [List.take_eq_take_iff, hf]
      omega
    rw [List.mapIdx_cons, List.flatten_cons, ih fun i => hf (i + 1), hrest, List.length_cons,
      List.length_cons, hparts, List.range_succ_eq_map, List.flatMap_cons, List.take_append, hf,
      List.length_take, hfirst, List.flatMap_map]
    congr 2
    omega

namespace Pbkdf2

section

variable {H : HashFunction} (password salt : Bytes)

/-- What the chain accumulates from the codes of a block that come next. -/
theorem chain_eq (i links c : Nat) :
    chain (.ofKey H password) links (Standard.code H password salt i (c + 1))
      (Standard.keyPart H password salt (c + 1) i) =
      Standard.keyPart H password salt (c + 1 + links) i := by
  induction links generalizing c with
  | zero => rfl
  | succ links ih =>
    have hcode : HashFunction.Keyed.mac (.ofKey H password)
        (Standard.code H password salt i (c + 1)) = Standard.code H password salt i (c + 2) :=
      HashFunction.Keyed.mac_ofKey _ _
    rw [chain, hcode, ← Standard.keyPart_succ, ih]
    congr 1
    omega

/-- A block is the exclusive or of its codes. -/
theorem block_eq {iterations : UInt32} (h : iterations ≠ 0) (number : UInt32) :
    block (.ofKey H password) salt iterations number =
      Standard.keyPart H password salt iterations.toNat number.toNat := by
  have hfirst : HashFunction.Keyed.mac (.ofKey H password)
      (salt ++ Bytes.bigEndian 4 number.toNat) = Standard.code H password salt number.toNat 1 :=
    HashFunction.Keyed.mac_ofKey _ _
  -- The chain starts when the block has got its first code.
  have hsum : Standard.keyPart H password salt 1 number.toNat =
      Standard.code H password salt number.toNat 1 := by
    rw [Standard.keyPart_succ, Standard.keyPart_zero, Bytes.zero_xor (Standard.length_code ..)]
  have hpos : 0 < iterations.toNat :=
    Nat.pos_of_ne_zero fun h0 => h (UInt32.toNat_inj.1 h0)
  have hchain := chain_eq (H := H) password salt number.toNat (iterations.toNat - 1) 0
  rw [hsum] at hchain
  rw [block, hfirst, hchain]
  congr 1
  omega

/-- The pieces of a key that is not too long can be numbered in a word. -/
theorem parts_lt {keyLen : Nat} (h : keyLen ≤ (UInt32.size - 1) * H.outLen) :
    (keyLen + H.outLen - 1) / H.outLen < UInt32.size := by
  have hpos := H.outLen_pos
  have hsize : UInt32.size * H.outLen = (UInt32.size - 1) * H.outLen + H.outLen :=
    Nat.succ_mul (UInt32.size - 1) H.outLen
  rw [Nat.div_lt_iff_lt_mul hpos, hsize]
  omega

/-- Overwriting a buffer that is not too long makes the key of its length. -/
theorem overwrite_eq {iterations : UInt32} (h : iterations ≠ 0) {buffer : Bytes}
    (hlen : buffer.length ≤ (UInt32.size - 1) * H.outLen) :
    overwrite (.ofKey H password) salt iterations buffer =
      Standard.pbkdf2 H password salt iterations.toNat buffer.length := by
  have hparts := parts_lt hlen
  have hnumber {i : Nat} (hi : i + 1 < UInt32.size) : (UInt32.ofNat (i + 1)).toNat = i + 1 :=
    UInt32.toNat_ofNat_of_lt' hi
  rw [overwrite]
  simp only [block_eq password salt h]
  rw [flatten_mapIdx_chunks H.outLen_pos (fun i => Standard.length_keyPart ..), Standard.pbkdf2]
  congr 1
  refine List.flatMap_congr fun i hi => ?_
  -- The numbers of the blocks do not wrap around.
  have := List.mem_range.1 hi
  rw [hnumber (by omega)]

end

variable (a : Algorithm) (password salt : Bytes)

/-- The checks are passed by a positive count of iterations and a length up to the maximum. -/
theorem checkBounds_eq_ok_iff {a : Algorithm} {iterations : UInt32} {keyLen : Nat} :
    checkBounds a iterations keyLen = .ok () ↔ iterations ≠ 0 ∧ keyLen ≤ maxKeyLen a := by
  by_cases h0 : iterations = 0
  · simp [checkBounds, h0]
  by_cases hlen : keyLen ≤ maxKeyLen a
  · simp [checkBounds, h0, hlen, Nat.not_lt.2 hlen]
  · simp [checkBounds, h0, hlen, Nat.lt_of_not_le hlen]

/-- A buffer that is not too long is overwritten with the published key of its length. -/
theorem run_fill {iterations : UInt32} (h : iterations ≠ 0) {buffer : Bytes}
    (hlen : buffer.length ≤ maxKeyLen a) :
    (fill a password salt iterations).run buffer = .ok ()
      (Standard.pbkdf2 a.hashFunction password salt iterations.toNat buffer.length) := by
  have hbounds : checkBounds a iterations buffer.length = .ok () :=
    checkBounds_eq_ok_iff.2 ⟨h, hlen⟩
  rw [EStateM.run, fill, hbounds, overwrite_eq password salt h hlen]

/-- A derived key is the published one; otherwise the count of iterations is zero, or the key too
    long. -/
theorem derive_eq (iterations : UInt32) (keyLen : Nat) :
    derive a password salt iterations keyLen =
      if iterations = 0 then .error (.iterationCount iterations)
      else if maxKeyLen a < keyLen then .error (.keyTooLong keyLen (maxKeyLen a))
      else .ok (Standard.pbkdf2 a.hashFunction password salt iterations.toNat keyLen) := by
  by_cases h0 : iterations = 0
  · simp [derive, checkBounds, h0]
  by_cases hlen : maxKeyLen a < keyLen
  · simp [derive, checkBounds, h0, hlen]
  · have hbuffer : (List.replicate keyLen (0 : UInt8)).length ≤ maxKeyLen a := by
      rw [List.length_replicate]
      exact Nat.le_of_not_lt hlen
    simp [derive, run_fill a password salt h0 hbuffer, checkBounds, h0, hlen]

/-- A positive count of iterations and a length up to the maximum make a key. -/
theorem derive_of_le {iterations : UInt32} (h : iterations ≠ 0) {keyLen : Nat}
    (hlen : keyLen ≤ maxKeyLen a) :
    derive a password salt iterations keyLen =
      .ok (Standard.pbkdf2 a.hashFunction password salt iterations.toNat keyLen) := by
  rw [derive_eq, if_neg h, if_neg (Nat.not_lt.2 hlen)]

end Pbkdf2

end KeyStretching
