import KeyStretching.Cost.Compact
import Mathlib.Algebra.Group.Nat.Defs

/-!
# Cost parameters

* `Cost.exists_two_pow`: the count of blocks of an admissible triple is a power of two that fits
  into a word;
* `Cost.le_limit_div_iff`: a quotient of the limit bounds a product of bytes, and so
  `Cost.lanes_le`, `Cost.memory_le`: the lanes of an admissible triple together take less than
  `2 ^ 31` bytes, and so does the memory of one of them;
* `CompactCost.exists_cost`: parameters that fit into the header of a credential are admissible, as
  the buffers they ask for are far below the limit;
* `CompactCost.ofFields_self`: their fields are admitted, and make them again;
* `CompactCost.ofFields_eq`: fields are admitted if the logarithm is in range and neither of the
  others is zero, so that no other rule is ever broken.
-/

namespace KeyStretching

namespace Cost

/-- A word with no two bits set is a power of two. -/
theorem and_sub_one_eq_zero_iff {n : UInt32} (hn : 2 ≤ n) :
    n &&& (n - 1) = 0 ↔ n.toNat.isPowerOfTwo := by
  have htwo : 2 ≤ n.toNat := UInt32.le_iff_toNat_le.1 hn
  -- As the word is positive, the test on words is the same on numbers.
  have hone : (1 : UInt32) ≤ n := UInt32.le_iff_toNat_le.2 (Nat.le_of_succ_le htwo)
  rw [← UInt32.toNat_inj, UInt32.toNat_and, UInt32.toNat_sub_of_le _ _ hone]
  exact Nat.and_sub_one_eq_zero_iff_isPowerOfTwo (by omega)

/-- A quotient of the limit bounds a product of bytes. -/
theorem le_limit_div_iff {x y : UInt32} (hy : y ≠ 0) :
    x ≤ limit / y ↔ 128 * x.toNat * y.toNat ≤ 2 ^ 31 - 1 := by
  have hlimit : limit.toNat = 16777215 := by decide
  have hpos : 0 < y.toNat := Nat.pos_of_ne_zero fun h => hy (UInt32.toNat_inj.1 h)
  rw [UInt32.le_iff_toNat_le, UInt32.toNat_div, Nat.le_div_iff_mul_le hpos, hlimit, Nat.mul_assoc]
  omega

variable (c : Cost)

/-- The count of blocks is a power of two that fits into a word. -/
theorem exists_two_pow : ∃ k ≤ 32, c.n.toNat = 2 ^ k := by
  obtain ⟨k, hk⟩ := (and_sub_one_eq_zero_iff c.two_le_n).1 c.powerOfTwo
  have hlt : 2 ^ k < 2 ^ 32 := hk ▸ c.n.toNat_lt
  exact ⟨k, Nat.le_of_lt ((Nat.pow_lt_pow_iff_right (by decide)).1 hlt), hk⟩

/-- All lanes together take less than `2 ^ 31` bytes. -/
theorem lanes_le : 128 * c.r.toNat * c.p.toNat ≤ 2 ^ 31 - 1 :=
  (le_limit_div_iff c.p_ne_zero).1 c.r_le

/-- As there is at least one lane, it is no longer than all of them. -/
theorem lane_le : 128 * c.r.toNat ≤ 2 ^ 31 - 1 :=
  Nat.le_trans (Nat.le_mul_of_pos_right _ c.p_pos) c.lanes_le

/-- The memory of a lane takes less than `2 ^ 31` bytes. -/
theorem memory_le : 128 * c.r.toNat * c.n.toNat ≤ 2 ^ 31 - 1 := by
  rw [Nat.mul_right_comm]
  exact (le_limit_div_iff c.r_ne_zero).1 c.n_le

/-- A triple that breaks no rule is admitted. -/
theorem exists_ofTriple {n r p : UInt32} (hn : 2 ≤ n ∧ n &&& (n - 1) = 0) (hr : r ≠ 0)
    (hp : p ≠ 0) (hrp : r ≤ limit / p) (hnr : n ≤ limit / r) :
    ∃ c, ofTriple n r p = .ok c := by
  refine ⟨⟨n, r, p, hn.1, hn.2, hr, hp, hrp, hnr⟩, ?_⟩
  rw [ofTriple, dif_pos hn, dif_neg hr, dif_neg hp, dif_pos hrp, dif_pos hnr]

end Cost

namespace CompactCost

/-- Every logarithm from one to fifteen stands for a power of two that is far below the limit. -/
theorem expand_spec {logN : UInt8} (hpos : 1 ≤ logN) (hle : logN ≤ 15) :
    (2 ≤ expand logN ∧ expand logN &&& (expand logN - 1) = 0) ∧ expand logN ≤ 0x8000 := by
  -- There are few enough logarithms to look at each of them.
  have hall : ∀ k : Fin 16, 1 ≤ k →
      (2 ≤ expand (UInt8.ofNat k) ∧ expand (UInt8.ofNat k) &&& (expand (UInt8.ofNat k) - 1) = 0) ∧
        expand (UInt8.ofNat k) ≤ 0x8000 := by
    decide +kernel
  have hlt : logN.toNat < 16 := Nat.lt_succ_of_le (UInt8.le_iff_toNat_le.1 hle)
  have h := hall ⟨logN.toNat, hlt⟩ (UInt8.le_iff_toNat_le.1 hpos)
  rwa [UInt8.ofNat_toNat] at h

theorem toUInt32_ne_zero {b : UInt8} (h : b ≠ 0) : b.toUInt32 ≠ 0 := by
  intro h0
  exact h (UInt8.toUInt32_inj.1 h0)

/-- A byte is so small that the limit leaves room for `0x8000` units of it. -/
theorem le_limit_div {b : UInt8} (h : b ≠ 0) : 0x8000 ≤ Cost.limit / b.toUInt32 := by
  have hunits : (0x8000 : UInt32).toNat = 32768 := by decide
  have hlt := b.toNat_lt
  rw [Cost.le_limit_div_iff (toUInt32_ne_zero h), UInt8.toNat_toUInt32, hunits]
  omega

variable (c : CompactCost)

/-- Parameters that fit into the header of a credential are admissible. -/
theorem exists_cost : ∃ cost, Cost.ofTriple c.n c.r.toUInt32 c.p.toUInt32 = .ok cost := by
  obtain ⟨hn, hle⟩ := expand_spec c.logN_pos c.logN_le
  have hr : c.r.toUInt32 ≤ 0x8000 := by
    have := c.r.toNat_lt
    exact UInt32.le_iff_toNat_le.2 (by rw [UInt8.toNat_toUInt32]; change _ ≤ 32768; omega)
  exact Cost.exists_ofTriple hn (toUInt32_ne_zero c.r_ne_zero) (toUInt32_ne_zero c.p_ne_zero)
    (UInt32.le_trans hr (le_limit_div c.p_ne_zero))
    (UInt32.le_trans hle (le_limit_div c.r_ne_zero))

/-- The fields of compact parameters are admitted, and make them again. -/
theorem ofFields_self : ofFields c.logN c.r c.p = .ok c := by
  obtain ⟨cost, hcost⟩ := c.exists_cost
  rw [ofFields, dif_pos ⟨c.logN_pos, c.logN_le⟩]
  split
  · next e he =>
    rw [n] at hcost
    rw [hcost] at he
    contradiction
  · rfl

theorem ofFields_of_error {logN r p : UInt8} {e : CostError} (hlog : 1 ≤ logN ∧ logN ≤ maxLogN)
    (h : Cost.ofTriple (expand logN) r.toUInt32 p.toUInt32 = .error e) :
    ofFields logN r p = .error e := by
  rw [ofFields, dif_pos hlog]
  split
  · next e' he =>
    rw [h] at he
    cases he
    rfl
  · next cost hcost =>
    rw [h] at hcost
    contradiction

/-- The first rule that fields can break is on the logarithm, and the others are that block size and
    count of lanes are not zero. -/
theorem ofFields_eq (logN r p : UInt8) :
    ofFields logN r p =
      if hlog : 1 ≤ logN ∧ logN ≤ 15 then
        if hr : r = 0 then .error .zeroBlockSize
        else if hp : p = 0 then .error .zeroParallelism
        else .ok ⟨logN, r, p, hlog.1, hlog.2, hr, hp⟩
      else .error (.logOutOfRange logN) := by
  by_cases hlog : 1 ≤ logN ∧ logN ≤ 15
  · have hn := (expand_spec hlog.1 hlog.2).1
    rw [dif_pos hlog]
    by_cases hr : r = 0
    · rw [dif_pos hr, ofFields_of_error hlog]
      rw [Cost.ofTriple, dif_pos hn, hr]
      rfl
    · rw [dif_neg hr]
      by_cases hp : p = 0
      · rw [dif_pos hp, ofFields_of_error hlog]
        rw [Cost.ofTriple, dif_pos hn, dif_neg (toUInt32_ne_zero hr), hp]
        rfl
      · rw [dif_neg hp]
        exact ofFields_self ⟨logN, r, p, hlog.1, hlog.2, hr, hp⟩
  · rw [dif_neg hlog]
    exact dif_neg hlog

/-- Fields that are admitted are kept as they are. -/
theorem eq_of_ofFields {logN r p : UInt8} {c : CompactCost} (h : ofFields logN r p = .ok c) :
    c.logN = logN ∧ c.r = r ∧ c.p = p := by
  rw [ofFields_eq] at h
  split at h <;> try contradiction
  split at h <;> try contradiction
  split at h <;> try contradiction
  cases h
  exact ⟨rfl, rfl, rfl⟩

end CompactCost

end KeyStretching
