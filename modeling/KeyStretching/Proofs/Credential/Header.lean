import KeyStretching.Credential.Basic
import KeyStretching.Pbkdf2
import Mathlib.Algebra.Group.Nat.Defs

/-!
# Headers of credentials

What the proofs about credentials need of a kind of them is gathered in `LawfulHeader`: a header
that new credentials may have unpacks from the word it is packed into, and derives the beginning of
one sequence of bytes, up to the maximal length of a key. The fields of a packed word do not
overlap, so that the word is the sum of their multiples (`Header.toNat_or`), from which each is
taken by a remainder (`Header.toUInt8_and_eq`).
-/

namespace KeyStretching

/-! ## Fields of a word -/

namespace Header

/-- A field at an offset that leaves room for it is multiplied. -/
theorem toNat_shiftLeft {b : UInt8} {shift : UInt32} (k : Nat) (hshift : shift.toNat % 32 = k)
    (h : b.toNat * 2 ^ k < 2 ^ 32) : (b.toUInt32 <<< shift).toNat = b.toNat * 2 ^ k := by
  rw [UInt32.toNat_shiftLeft, UInt8.toNat_toUInt32, hshift, Nat.shiftLeft_eq, Nat.mod_eq_of_lt h]

/-- Fields that do not overlap add up. -/
theorem toNat_or {high low : UInt32} {m n : Nat} (k : Nat) (hhigh : high.toNat = m)
    (hlow : low.toNat = n) (hm : 2 ^ k ∣ m) (hn : n < 2 ^ k) : (high ||| low).toNat = m + n := by
  obtain ⟨q, rfl⟩ := hm
  rw [UInt32.toNat_or, hhigh, hlow, Nat.two_pow_add_eq_or_of_lt hn]

theorem toNat_shiftRight {word shift : UInt32} (k : Nat) (hshift : shift.toNat % 32 = k) :
    (word >>> shift).toNat = word.toNat / 2 ^ k := by
  rw [UInt32.toNat_shiftRight, hshift, Nat.shiftRight_eq_div_pow]

/-- Nothing stands behind an offset if the word ends there. -/
theorem shiftRight_eq_zero_iff {word shift : UInt32} (k : Nat) (hshift : shift.toNat % 32 = k) :
    word >>> shift = 0 ↔ word.toNat < 2 ^ k := by
  rw [← UInt32.toNat_inj, toNat_shiftRight k hshift, UInt32.toNat_zero,
    Nat.div_eq_zero_iff_lt (Nat.two_pow_pos k)]

/-- A field at an offset, as a byte. -/
theorem toUInt8_field {word shift mask : UInt32} (k m : Nat) (hshift : shift.toNat % 32 = k)
    (hmask : mask.toNat = m) :
    (word >>> shift &&& mask).toUInt8 = UInt8.ofNat (word.toNat >>> k &&& m) := by
  refine UInt8.toNat_inj.1 ?_
  rw [UInt32.toNat_toUInt8, UInt32.toNat_and, UInt32.toNat_shiftRight, hshift, hmask,
    UInt8.toNat_ofNat']

/-- The lowest field of a word is a remainder of it. -/
theorem toUInt8_and_eq {word mask : UInt32} {b : UInt8} (k : Nat) (hmask : mask.toNat = 2 ^ k - 1)
    (hb : word.toNat % 2 ^ k = b.toNat) : (word &&& mask).toUInt8 = b := by
  refine UInt8.toNat_inj.1 ?_
  rw [UInt32.toNat_toUInt8, UInt32.toNat_and, hmask, Nat.and_two_pow_sub_one_eq_mod, hb,
    Nat.mod_eq_of_lt b.toNat_lt]

end Header

namespace Algorithm

theorem code_lt (a : Algorithm) : a.code.toNat < 4 := by
  cases a <;> decide

/-- Every code that is small enough stands for an algorithm. -/
theorem exists_code {code : UInt8} (h : code.toNat < 4) : ∃ a : Algorithm, a.code = code := by
  have hcases : code.toNat = 0 ∨ code.toNat = 1 ∨ code.toNat = 2 ∨ code.toNat = 3 := by omega
  rcases hcases with h | h | h | h
  · exact ⟨hmacSha256, UInt8.toNat_inj.1 h.symm⟩
  · exact ⟨hmacSha224, UInt8.toNat_inj.1 h.symm⟩
  · exact ⟨hmacSha384, UInt8.toNat_inj.1 h.symm⟩
  · exact ⟨hmacSha512, UInt8.toNat_inj.1 h.symm⟩

/-- No other code does. -/
theorem ofCode_of_le {code : UInt8} (h : 4 ≤ code.toNat) :
    ofCode code = .error (.unsupportedAlgorithm code) := by
  have hnone : all[code.toNat]? = none := List.getElem?_eq_none h
  rw [ofCode, hnone]

end Algorithm

/-! ## Laws -/

/-- The laws of a kind of credential. -/
class LawfulHeader (H : Type) [Header H] where
  /-- The algorithm of a header. -/
  algorithm : H → Algorithm
  /-- The key of a given length by the published function. -/
  key : H → (password salt : Bytes) → (keyLen : Nat) → Bytes
  delimiter_notMem_tag : Envelope.delimiter ∉ (Header.tag H).toList
  length_key (h : H) (password salt : Bytes) (keyLen : Nat) :
    (key h password salt keyLen).length = keyLen
  /-- A shorter key is the beginning of a longer one. -/
  take_key (h : H) (password salt : Bytes) {k m : Nat} :
    k ≤ m → (key h password salt m).take k = key h password salt k
  unpack_pack {h : H} : Header.checkNew h = .ok () → Header.unpack (Header.pack h) = .ok h
  value_derive {h : H} (password salt : Bytes) (keyLen : Nat) : Header.checkNew h = .ok () →
    (Header.derive h password salt keyLen).value =
      if Pbkdf2.maxKeyLen (algorithm h) < keyLen then
        .error (.keyTooLong keyLen (Pbkdf2.maxKeyLen (algorithm h)))
      else .ok (key h password salt keyLen)
  /-- Deriving a key gives no cause for a warning. -/
  level_derive (h : H) (password salt : Bytes) (keyLen : Nat) :
    ∀ event ∈ (Header.derive h password salt keyLen).events, event.level ≠ .warn

attribute [simp] LawfulHeader.length_key

end KeyStretching
