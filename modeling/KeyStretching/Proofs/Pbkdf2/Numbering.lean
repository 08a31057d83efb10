import KeyStretching.Proofs.Pbkdf2.InPlace
import Mathlib.Algebra.Order.Floor.Div
import Mathlib.Data.List.Range

/-!
# Numbers of blocks

The blocks of a key are told apart by a number alone. It is a word of 32 bits, so that counting on
from the greatest leads to zero, and from there to the numbers that were given before. The bound on
the length of a key keeps it from that.

* `le_maxKeyLen_iff`: the lengths up to the maximum are those of no more pieces than there are
  numbers other than zero;
* `exists_numberOf_eq_zero_iff`: on a buffer that is longer, a piece would get the number zero;
* `startsFrom_block`: the first code of a block is that of the message that ends with its number;
* `numberedOnce`: a call that passes the checks counts without a loss, and gives no number twice.
-/

namespace KeyStretching

/-- The greatest length of a key, as it is computed. -/
def Size.maxKeyLen (a : Algorithm) : Size := count (UInt32.size - 1) * count a.outLen

namespace Pbkdf2

/-- A place is counted from one without a loss: by a machine with words of `w` bits, whether it
    stops at a carry or goes on, and when the count is cut to the word that goes into a block. -/
structure CountedExactly (w index : Nat) : Prop where
  checked : (Size.blockNumber index).checked w = some (index + 1)
  wrapping : ((Size.blockNumber index).wrapping w).toNat = index + 1
  toNat_numberOf : (numberOf index).toNat = index + 1

/-- The bound on the length of a key is as great as the numbers of the blocks allow. -/
structure TightBound (a : Algorithm) : Prop where
  le_iff : ∀ keyLen, keyLen ≤ maxKeyLen a ↔ keyLen ⌈/⌉ a.outLen ≤ 2 ^ 32 - 1
  exists_zero_iff : ∀ buffer : Bytes,
    (∃ index < (chunks a.outLen buffer).length, numberOf index = 0) ↔ maxKeyLen a < buffer.length
  computed : (Size.maxKeyLen a).checked 64 = some (maxKeyLen a)

/-- The message that the first code of a block is made for: the salt, and the number of the block in
    four bytes. -/
def firstMessage (salt : Bytes) (number : UInt32) : Bytes := salt ++ Bytes.bigEndian 4 number.toNat

/-- A block starts from a message: it is the exclusive or of codes, of which the first is that of
    the message, and each further one that of the code before it. -/
def StartsFrom (H : HashFunction) (password : Bytes) (iterations : UInt32)
    (message part : Bytes) : Prop :=
  ∃ codes : Nat → Bytes, codes 0 = H.hmac password message ∧
    (∀ j, codes (j + 1) = H.hmac password (codes j)) ∧
    part = ((List.range iterations.toNat).map codes).foldl Bytes.xor (List.replicate H.outLen 0)

/-- The numbers count up from one: none is zero or given twice, and no two blocks start from the
    same message. -/
structure NumberedOnce (salt : Bytes) (count : Nat) (numbers : List UInt32) : Prop where
  counted : numbers.map UInt32.toNat = List.range' 1 count
  ne_zero : ∀ number ∈ numbers, number ≠ 0
  nodup : numbers.Nodup
  nodup_messages : (numbers.map (firstMessage salt)).Nodup

/-! ## The length of a key and the numbers of its blocks -/

section

variable (a : Algorithm)

/-- The lengths up to the maximum are those of no more pieces than there are numbers. -/
theorem le_maxKeyLen_iff (keyLen : Nat) :
    keyLen ≤ maxKeyLen a ↔ keyLen ⌈/⌉ a.outLen ≤ 2 ^ 32 - 1 := by
  rw [ceilDiv_le_iff_le_mul a.outLen_pos, Nat.mul_comm]
  rfl

/-- Places are counted exactly below the greatest word. -/
theorem toNat_numberOf {index : Nat} (h : index + 1 < 2 ^ 32) :
    (numberOf index).toNat = index + 1 := UInt32.toNat_ofNat_of_lt' h

/-- The places that are counted include one that gets zero if there are more than numbers. -/
theorem exists_numberOf_eq_zero_iff {count : Nat} :
    (∃ index < count, numberOf index = 0) ↔ 2 ^ 32 - 1 < count := by
  constructor
  · rintro ⟨index, hindex, hzero⟩
    by_contra hcount
    have hnumber : (numberOf index).toNat = index + 1 := toNat_numberOf (by omega)
    rw [hzero] at hnumber
    exact Nat.succ_ne_zero index hnumber.symm
  · exact fun h => ⟨2 ^ 32 - 1, h, rfl⟩

/-- The product that bounds a key is a word of 64 bits. -/
theorem fits_maxKeyLen : (Size.maxKeyLen a).Fits 64 := by
  rw [Size.maxKeyLen, Size.fits_mul, Size.fits_count, Size.fits_count, Size.exact_count,
    Size.exact_count]
  cases a <;> decide

theorem tightBound : TightBound a where
  le_iff := le_maxKeyLen_iff a
  exists_zero_iff buffer := by
    rw [exists_numberOf_eq_zero_iff, length_chunks a.outLen_pos, ← not_le, ← not_le,
      le_maxKeyLen_iff, Nat.ceilDiv_eq_add_pred_div]
  computed := Size.checked_eq_some_iff.2 ⟨fits_maxKeyLen a, rfl⟩

end

theorem countedExactly {w index : Nat} (hw : 32 ≤ w) (h : index + 1 < 2 ^ 32) :
    CountedExactly w index where
  checked := Size.checked_blockNumber (h.trans_le (Nat.pow_le_pow_right Nat.two_pos hw))
  wrapping :=
    Size.toNat_wrapping (Size.fits_blockNumber (h.trans_le (Nat.pow_le_pow_right Nat.two_pos hw)))
  toNat_numberOf := toNat_numberOf h

/-- As long as no count is cut, the numbers count up from one. -/
theorem map_toNat_numberOf {count : Nat} (h : count < 2 ^ 32) :
    ((List.range count).map numberOf).map UInt32.toNat = List.range' 1 count := by
  rw [List.map_map, List.range'_eq_map_range]
  refine List.map_congr_left fun index hindex => ?_
  have hlt := List.mem_range.1 hindex
  rw [Function.comp_apply, toNat_numberOf (by omega), Nat.add_comm]

/-- The number that a message ends with can be read off it. -/
theorem firstMessage_injective (salt : Bytes) : Function.Injective (firstMessage salt) := by
  intro x y h
  have hlt (number : UInt32) : number.toNat < 256 ^ 4 := number.toNat_lt
  have hread := congrArg Bytes.ofBigEndian (List.append_cancel_left h)
  rw [Bytes.ofBigEndian_bigEndian, Bytes.ofBigEndian_bigEndian, Nat.mod_eq_of_lt (hlt x),
    Nat.mod_eq_of_lt (hlt y)] at hread
  exact UInt32.toNat_inj.1 hread

theorem numberedOnce_of_counted (salt : Bytes) {count : Nat} {numbers : List UInt32}
    (h : numbers.map UInt32.toNat = List.range' 1 count) : NumberedOnce salt count numbers where
  counted := h
  ne_zero number hnumber hzero := by
    have hmem := List.mem_map_of_mem (f := UInt32.toNat) hnumber
    rw [h, hzero, List.mem_range'_1] at hmem
    exact Nat.not_succ_le_zero 0 hmem.1
  nodup := .of_map UInt32.toNat (h ▸ List.nodup_range')
  nodup_messages :=
    (List.Nodup.of_map UInt32.toNat (h ▸ List.nodup_range')).map (firstMessage_injective salt)

/-! ## Blocks and their numbers -/

/-- The first code of a block is that of the message that ends with its number. -/
theorem startsFrom_block (H : HashFunction) (password salt : Bytes) {iterations : UInt32}
    (h : iterations ≠ 0) (number : UInt32) :
    StartsFrom H password iterations (firstMessage salt number)
      (block (.ofKey H password) salt iterations number) :=
  ⟨fun j => Standard.code H password salt number.toNat (j + 1), rfl, fun _ => rfl,
    block_eq password salt h number⟩

/-- Overwriting a buffer is cutting the blocks of these numbers to length. -/
theorem overwrite_eq_take_flatMap {H : HashFunction} (prf : H.Keyed) (salt : Bytes)
    (iterations : UInt32) (buffer : Bytes) :
    overwrite prf salt iterations buffer =
      (((List.range (buffer.length ⌈/⌉ H.outLen)).map numberOf).flatMap
        (block prf salt iterations)).take buffer.length := by
  rw [overwrite_eq_take, blocks, List.flatMap_map]
  rfl

/-- The numbers suffice for the lengths that a key is admitted to have and for no others. In a call
    for such a key, every piece is counted exactly, and the key is made of blocks whose numbers are
    all different, as are the messages that they start from. -/
theorem numberedOnce (a : Algorithm) :
    TightBound a ∧
      ∀ (w : Nat) (keying : Keying) (password salt : Bytes) (iterations : UInt32) (buffer : Bytes),
        32 ≤ w → keying.Lawful → checkBounds a iterations buffer.length = .ok () →
          (∀ index < (chunks a.outLen buffer).length, CountedExactly w index) ∧
            ∃ numbers key,
              (fillNumbered w keying a password salt iterations).run buffer = .ok numbers key ∧
              (fillInPlace w keying a password salt iterations).run buffer = .ok () key ∧
              (fill a password salt iterations).run buffer = .ok () key ∧
              derive a password salt iterations buffer.length = .ok key ∧
              key = (numbers.flatMap (block (.ofKey a.hashFunction password) salt
                iterations)).take buffer.length ∧
              (∀ number, StartsFrom a.hashFunction password iterations (firstMessage salt number)
                (block (.ofKey a.hashFunction password) salt iterations number)) ∧
              NumberedOnce salt (buffer.length ⌈/⌉ a.outLen) numbers := by
  refine ⟨tightBound a, fun w keying password salt iterations buffer hw hkeying h => ?_⟩
  obtain ⟨hiterations, hlen⟩ := checkBounds_eq_ok_iff.1 h
  have hcount : buffer.length ⌈/⌉ a.outLen < 2 ^ 32 :=
    Nat.lt_of_le_pred (Nat.two_pow_pos 32) ((le_maxKeyLen_iff a _).1 hlen)
  refine ⟨fun index hindex => ?_, ?_⟩
  · rw [length_chunks a.outLen_pos, ← Nat.ceilDiv_eq_add_pred_div] at hindex
    exact countedExactly hw (Nat.lt_of_le_of_lt hindex hcount)
  · have hfill : (fill a password salt iterations).run buffer =
        .ok () (overwrite (.ofKey a.hashFunction password) salt iterations buffer) := by
      rw [EStateM.run, fill, h]
    have hnumbers := run_fillNumbered keying a password salt iterations hw buffer
    have hplace := run_fillInPlace keying a password salt iterations hw buffer
    rw [fillWith_eq hkeying, hfill] at hnumbers hplace
    have hderive : derive a password salt iterations buffer.length =
        .ok (overwrite (.ofKey a.hashFunction password) salt iterations buffer) := by
      rw [derive_of_le a password salt hiterations hlen, overwrite_eq password salt hiterations hlen]
    rw [← Nat.ceilDiv_eq_add_pred_div] at hnumbers
    exact ⟨_, _, hnumbers, hplace, hfill, hderive, overwrite_eq_take_flatMap ..,
      startsFrom_block a.hashFunction password salt hiterations,
      numberedOnce_of_counted salt (map_toNat_numberOf hcount)⟩

/-- Forty bytes fall into two pieces of up to 28, which get the blocks number one and two. -/
theorem numberedOnce_two_pieces :
    32 ≤ 64 ∧ Keying.absorbing.Lawful ∧
      checkBounds .hmacSha224 2 (List.replicate 40 (0 : UInt8)).length = .ok () ∧
      ∃ numbers key,
        (fillNumbered 64 .absorbing .hmacSha224 [0x70, 0x77] [] 2).run (List.replicate 40 0) =
          .ok numbers key ∧ numbers.map UInt32.toNat = [1, 2] := by
  have hbounds : checkBounds .hmacSha224 2 (List.replicate 40 (0 : UInt8)).length = .ok () := by
    decide
  obtain ⟨-, hcall⟩ := numberedOnce .hmacSha224
  obtain ⟨-, numbers, key, hrun, -, -, -, -, -, honce⟩ :=
    hcall 64 .absorbing [0x70, 0x77] [] 2 (List.replicate 40 0) (by decide)
      Keying.lawful_absorbing hbounds
  exact ⟨by decide, Keying.lawful_absorbing, hbounds, numbers, key, hrun, honce.counted⟩

end Pbkdf2

end KeyStretching
