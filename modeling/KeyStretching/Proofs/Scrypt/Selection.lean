import KeyStretching.Proofs.Cost.Sizes
import KeyStretching.Proofs.Scrypt.Memory
import Mathlib.Data.Nat.Prime.Basic

/-!
# Selecting a place

The published function selects a place by the last block of a lane: it is one number of 512 bits,
and what counts is its remainder by the count of places. Here, one word of the block is looked at,
and a mask applied to it. Both shortcuts are right for a power of two that divides `2 ^ 32`, and for
no other count:

* `ofLittleEndian_bytesOf_cons`: of a number that is spelled in words, all but the first of them
  stand for a multiple of `2 ^ 32`;
* `revisitStep?_eq_published`, `revisit?_eq_published`: a step of revisiting reads the place that
  the published function selects, and so does every step of a run;
* `selectsRemainder`: for the counts that are admitted, the word and the mask give the remainder of
  the whole number, whatever the words of the lane;
* `forall_select_eq_mod_iff`: so they do for all lanes only if the count is such a power.
-/

namespace KeyStretching

open Buffer (read?)

namespace Buffers

/-- A step of revisiting, with the place that the published function selects. -/
def revisitStepPublished? (r n : Nat) (b : Buffers) (_ : Nat) : Option Buffers := do
  let place := Standard.integerify r (bytesOf b.current) % n
  let selected ← read? (32 * r * place) (32 * r) b.memory
  let current := List.zipWith (· ^^^ ·) b.current selected
  let mixed ← blockMix? r current b.spare
  pure ⟨b.memory, mixed, current⟩

/-- Mixes the lane `k` times together with the places that the published function selects. -/
def revisitPublished? (r n k : Nat) (b : Buffers) : Option Buffers :=
  (List.range k).foldlM (revisitStepPublished? r n) b

end Buffers

/-- The place that is selected among `n` by a lane with the given words. -/
structure SelectsRemainder (r n : Nat) (words : List UInt32) : Prop where
  /-- The last block is a number of 512 bits. -/
  integerify_lt : Standard.integerify r (bytesOf words) < 2 ^ 512
  /-- Its word at the lowest address, masked, is the remainder of all of it. -/
  and_eq_mod : ∃ number, words[(2 * r - 1) * 16]? = some number ∧
    number.toNat &&& (n - 1) = Standard.integerify r (bytesOf words) % n ∧
    number.toNat &&& (n - 1) < n
  /-- So it is when the word is widened and masked in words of `w` bits. -/
  wrapping_and_eq_mod (w : Nat) : 32 ≤ w → ∃ number, words[(2 * r - 1) * 16]? = some number ∧
    (BitVec.ofNat w number.toNat &&& (Size.placeMask n).wrapping w).toNat =
      Standard.integerify r (bytesOf words) % n
  /-- A run through memory that starts from this lane reads the places of the published one. -/
  revisit?_eq (memory spare : List UInt32) (k : Nat) : memory.length = 32 * r * n →
    spare.length = 32 * r →
    Buffers.revisit? r n k ⟨memory, words, spare⟩ =
      Buffers.revisitPublished? r n k ⟨memory, words, spare⟩

/-! ## The number of a block -/

/-- All words but the first stand for a multiple of what one word can hold. -/
theorem ofLittleEndian_bytesOf_cons (first : UInt32) (rest : List UInt32) :
    Bytes.ofLittleEndian (bytesOf (first :: rest)) =
      first.toNat + 2 ^ 32 * Bytes.ofLittleEndian (bytesOf rest) := by
  have hword : first.toNat < 256 ^ 4 := first.toNat_lt
  rw [bytesOf, List.flatMap_cons, Bytes.ofLittleEndian_append, Bytes.length_littleEndian,
    Bytes.ofLittleEndian_littleEndian, Nat.mod_eq_of_lt hword, ← bytesOf]
  rfl

section

variable {r : Nat} (hr : 0 < r)

include hr

/-- The number that the published function takes from a lane is that of its last block. -/
theorem Lane.integerify_toBytes (lane : Lane r) :
    Standard.integerify r lane.toBytes = Bytes.ofLittleEndian (lane.last hr).toBytes := by
  rw [Standard.integerify, Lane.piece_toBytes lane (by omega)]
  rfl

theorem Lane.integerify_toBytes_lt (lane : Lane r) :
    Standard.integerify r lane.toBytes < 2 ^ 512 := by
  have hlt := Bytes.ofLittleEndian_lt (lane.last hr).toBytes
  have hpow : 256 ^ 64 = 2 ^ 512 := by rw [show 512 = 8 * 64 from rfl, Nat.pow_mul]
  rw [Block.length_toBytes, hpow] at hlt
  exact (integerify_toBytes hr lane).trans_lt hlt

/-- There are lanes for any first two words of the last block, with no other bit of it set. -/
theorem Lane.exists_integerify_eq (first second : UInt32) :
    ∃ lane : Lane r, lane.integerify hr = first ∧
      Standard.integerify r lane.toBytes = first.toNat + 2 ^ 32 * second.toNat := by
  let block : List UInt32 := first :: second :: List.replicate 14 0
  have hfront : (List.replicate (16 * (2 * r - 1)) (0 : UInt32)).length = 16 * (2 * r - 1) :=
    List.length_replicate
  obtain ⟨lane, hlane⟩ : ∃ lane : Lane r,
      lane.words = List.replicate (16 * (2 * r - 1)) 0 ++ block :=
    Lane.exists_words (by rw [List.length_append, hfront, show block.length = 16 from rfl]; omega)
  have hlast : (lane.last hr).toList = block := by
    rw [← drop_words hr, hlane, List.drop_left' hfront]
  have hnumber : lane.words[16 * (2 * r - 1)]? = some first := by
    rw [hlane, List.getElem?_append_right hfront.le, hfront, Nat.sub_self]
    rfl
  refine ⟨lane, ?_, ?_⟩
  · rw [getElem?_words hr] at hnumber
    exact Option.some.inj hnumber
  · have hzeros : Bytes.ofLittleEndian (bytesOf (List.replicate 14 0)) = 0 := by decide
    rw [integerify_toBytes hr]
    change Bytes.ofLittleEndian (bytesOf (lane.last hr).toList) = _
    rw [hlast, ofLittleEndian_bytesOf_cons, ofLittleEndian_bytesOf_cons, hzeros, Nat.mul_zero,
      Nat.add_zero]

end

/-! ## Revisiting with the published places -/

namespace Buffers

section

variable {r n : Nat} (hr : 0 < r) (hn : 0 < n) {k : Nat} (hk : k ≤ 32) (hpow : n = 2 ^ k)

include hr hn hk hpow

/-- Both steps read the same place. -/
theorem revisitStep?_eq_published {b : Buffers} (h : b.current.length = 32 * r) (i : Nat) :
    revisitStep? r n b i = revisitStepPublished? r n b i := by
  obtain ⟨lane, hlane⟩ := Lane.exists_words h
  have hplace := RoMix.select_eq_mod hr hn hk hpow lane
  rw [revisitStep?, revisitStepPublished?, ← hlane, Lane.getElem?_words hr, Lane.bytesOf_words,
    ← hplace]
  rfl

/-- Each step of a run finds a lane, so all of them read the same places. -/
theorem revisit?_eq_published (memory : Vector (Lane r) n) (x : RoMix.Lanes r) (j : Nat) :
    revisit? r n j (ofLanes memory x) = revisitPublished? r n j (ofLanes memory x) := by
  induction j with
  | zero => rfl
  | succ j ih =>
    obtain ⟨y, -, hrun⟩ := revisit?_ofLanes hr hn memory x j
    have hstep := revisitStep?_eq_published hr hn hk hpow (b := ofLanes memory y)
      y.current.length_words j
    rw [hrun] at ih
    rw [revisit?] at hrun
    rw [revisitPublished?] at ih
    rw [revisit?, revisitPublished?, List.range_succ, List.foldlM_append, List.foldlM_append, hrun,
      ← ih, Option.bind_eq_bind, Option.bind_some, Option.bind_some, List.foldlM_cons,
      List.foldlM_cons, hstep]
    rfl

end

end Buffers

/-! ## The remainder -/

/-- Nothing is lost when a word is widened, nor when the mask is computed. -/
theorem toNat_and_placeMask {w n : Nat} (hw : 32 ≤ w) (hn : 0 < n) (hlt : n < 2 ^ 32)
    (number : UInt32) :
    (BitVec.ofNat w number.toNat &&& (Size.placeMask n).wrapping w).toNat =
      number.toNat &&& (n - 1) := by
  have hpow : 2 ^ 32 ≤ 2 ^ w := Nat.pow_le_pow_right Nat.two_pos hw
  have hmask : (Size.placeMask n).Fits w := by
    rw [Size.placeMask, Size.fits_sub, Size.fits_count, Size.fits_count]
    exact ⟨hlt.trans_le hpow, (Nat.lt_of_le_of_lt hn hlt).trans_le hpow, hn⟩
  rw [BitVec.toNat_and, BitVec.toNat_ofNat, Nat.mod_eq_of_lt (number.toNat_lt.trans_le hpow),
    Size.toNat_wrapping hmask]
  rfl

/-- Whatever the words of a lane, the place that it selects is the remainder of the number of its
    whole last block, if the count of places is a power of two up to `2 ^ 31`. -/
theorem selectsRemainder {r n : Nat} (hr : 0 < r) (hn : n.isPowerOfTwo) (hle : n ≤ 2 ^ 31)
    {words : List UInt32} (h : words.length = 32 * r) : SelectsRemainder r n words := by
  obtain ⟨k, hpow⟩ := hn
  have hpos : 0 < n := hpow ▸ Nat.two_pow_pos k
  have hk : k ≤ 32 := Nat.le_succ_of_le ((Nat.pow_le_pow_iff_right Nat.one_lt_two).1 (hpow ▸ hle))
  obtain ⟨lane, rfl⟩ := Lane.exists_words h
  have hnumber : lane.words[(2 * r - 1) * 16]? = some (lane.integerify hr) := by
    rw [Nat.mul_comm, Lane.getElem?_words hr]
  have hselect : (lane.integerify hr).toNat &&& (n - 1) =
      Standard.integerify r (bytesOf lane.words) % n := by
    rw [Lane.bytesOf_words]
    exact RoMix.select_eq_mod hr hpos hk hpow lane
  refine ⟨?_, ⟨_, hnumber, hselect, (RoMix.select hr hpos lane).isLt⟩, fun w hw => ?_,
    fun memory spare j hmemory hspare => ?_⟩
  · rw [Lane.bytesOf_words]
    exact lane.integerify_toBytes_lt hr
  · have hlt : n < 2 ^ 32 :=
      hle.trans_lt (Nat.pow_lt_pow_right Nat.one_lt_two (Nat.lt_succ_self 31))
    exact ⟨_, hnumber, (toNat_and_placeMask hw hpos hlt _).trans hselect⟩
  · obtain ⟨places, lane', hb⟩ :
        ∃ places lane', Buffers.ofLanes places ⟨lane, lane'⟩ = ⟨memory, lane.words, spare⟩ :=
      Buffers.exists_ofLanes hmemory rfl hspare
    rw [← hb, Buffers.revisit?_eq_published hr hpos hk hpow]

/-- A word that is too large for the places, in front of words that are all ones. -/
theorem selectsRemainder_top_bit :
    0 < 2 ∧ (2 ^ 31).isPowerOfTwo ∧ 2 ^ 31 ≤ 2 ^ 31 ∧
      (List.replicate 48 0 ++ 0xC0000005 :: List.replicate 15 (0xFFFFFFFF : UInt32)).length =
        32 * 2 ∧
      Standard.integerify 2 (bytesOf
        (List.replicate 48 0 ++ 0xC0000005 :: List.replicate 15 0xFFFFFFFF)) % 2 ^ 31 =
          0x40000005 := by
  have hn : (2 ^ 31).isPowerOfTwo := ⟨31, rfl⟩
  have hlength : (List.replicate 48 0 ++
      0xC0000005 :: List.replicate 15 (0xFFFFFFFF : UInt32)).length = 32 * 2 := by decide
  obtain ⟨number, hnumber, hselect, -⟩ :=
    (selectsRemainder Nat.two_pos hn le_rfl hlength).and_eq_mod
  obtain rfl : 0xC0000005 = number := Option.some.inj hnumber
  exact ⟨Nat.two_pos, hn, le_rfl, hlength, hselect.symm⟩

/-- No other count of places would do: the word and the mask would miss the remainder for some
    lane. -/
theorem forall_select_eq_mod_iff {r n : Nat} (hr : 0 < r) (hn : 0 < n) :
    (∀ lane : Lane r, (RoMix.select hr hn lane : Nat) = Standard.integerify r lane.toBytes % n) ↔
      ∃ k ≤ 32, n = 2 ^ k := by
  constructor
  · intro h
    -- A lane whose word is zero, while the number of its last block is `2 ^ 32`.
    obtain ⟨lane, hfirst, hwhole⟩ := Lane.exists_integerify_eq hr 0 1
    have hselect :
        (lane.integerify hr).toNat &&& (n - 1) = Standard.integerify r lane.toBytes % n := h lane
    rw [hwhole, hfirst, UInt32.toNat_zero, Nat.zero_and] at hselect
    exact (Nat.dvd_prime_pow Nat.prime_two).1 (Nat.dvd_of_mod_eq_zero hselect.symm)
  · rintro ⟨k, hk, hpow⟩ lane
    exact RoMix.select_eq_mod hr hn hk hpow lane

end KeyStretching
