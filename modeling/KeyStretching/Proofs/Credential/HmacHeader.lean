import KeyStretching.Credential.HmacHeader
import KeyStretching.Proofs.Credential.Header
import KeyStretching.Proofs.Pbkdf2

/-!
# Headers of iterated credentials

A count of iterations that new credentials may have fits into its bits
(`checkIterations_eq_ok_iff`), so that a packed header is the sum of its two fields (`toNat_pack`)
and reads back as it was (`unpack_pack`); the key of a header is that of the published function
(`value_derive`).
-/

namespace KeyStretching.HmacHeader

open Header (toNat_shiftLeft toNat_or toNat_shiftRight)

/-- The counts that new credentials may have are those that fit into their bits, except zero. -/
theorem checkIterations_eq_ok_iff {iterations : UInt32} :
    checkIterations iterations = .ok () ↔ 1 ≤ iterations ∧ iterations ≤ maxIterations := by
  have hpos : 1 ≤ iterations ↔ iterations ≠ 0 := by
    rw [UInt32.le_iff_toNat_le, Ne, ← UInt32.toNat_inj]
    change 1 ≤ iterations.toNat ↔ ¬ iterations.toNat = 0
    omega
  rw [checkIterations, hpos, ← UInt32.not_lt]
  by_cases h : iterations = 0 ∨ maxIterations < iterations
  · rw [if_pos h]
    refine ⟨nofun, fun hnot => ?_⟩
    exact absurd h (not_or.2 hnot)
  · rw [if_neg h]
    exact ⟨fun _ => not_or.1 h, fun _ => rfl⟩

variable {h : HmacHeader} (hnew : checkIterations h.iterations = .ok ())

include hnew

theorem iterations_lt : h.iterations.toNat < 2 ^ 24 :=
  Nat.lt_succ_of_le (UInt32.le_iff_toNat_le.1 (checkIterations_eq_ok_iff.1 hnew).2)

theorem iterations_ne_zero : h.iterations ≠ 0 := by
  intro h0
  have hpos := UInt32.le_iff_toNat_le.1 (checkIterations_eq_ok_iff.1 hnew).1
  rw [h0] at hpos
  exact absurd hpos (by decide)

/-- The fields stand at their offsets. -/
theorem toNat_pack :
    h.pack.toNat = h.algorithm.code.toNat * 2 ^ 24 + h.iterations.toNat := by
  have hcode := h.algorithm.code_lt
  have hcodeAt : (h.algorithm.code.toUInt32 <<< 24).toNat = _ :=
    toNat_shiftLeft 24 rfl (by omega)
  exact toNat_or 24 hcodeAt rfl (by omega) (iterations_lt hnew)

/-- A header that new credentials may have reads back as it was. -/
theorem unpack_pack : unpack h.pack = .ok h := by
  have hpack := toNat_pack hnew
  have hcode := h.algorithm.code_lt
  have hiterations := iterations_lt hnew
  have hreserved : h.pack >>> 28 = 0 := by
    refine UInt32.toNat_inj.1 ?_
    rw [toNat_shiftRight 28 rfl, UInt32.toNat_zero]
    omega
  have hcodeAt : (h.pack >>> 24).toUInt8 = h.algorithm.code := by
    refine UInt8.toNat_inj.1 ?_
    rw [UInt32.toNat_toUInt8, toNat_shiftRight 24 rfl]
    omega
  have hiterationsAt : h.pack &&& maxIterations = h.iterations := by
    refine UInt32.toNat_inj.1 ?_
    have hmask : maxIterations.toNat = 2 ^ 24 - 1 := rfl
    rw [UInt32.toNat_and, hmask, Nat.and_two_pow_sub_one_eq_mod]
    omega
  rw [unpack, hreserved, hcodeAt, hiterationsAt, Algorithm.ofCode_code]
  change (do checkIterations h.iterations; pure h) = Except.ok h
  rw [hnew]
  rfl

/-! ## Laws -/

/-- The key of a header is that of the published function, unless it is too long. -/
theorem value_derive (password salt : Bytes) (keyLen : Nat) :
    (h.derive password salt keyLen).value =
      if Pbkdf2.maxKeyLen h.algorithm < keyLen then
        .error (.keyTooLong keyLen (Pbkdf2.maxKeyLen h.algorithm))
      else .ok (Standard.pbkdf2 h.algorithm.hashFunction password salt h.iterations.toNat
        keyLen) := by
  rw [derive, Logged.value_pure, Pbkdf2.derive_eq, if_neg (iterations_ne_zero hnew)]

omit hnew

instance : LawfulHeader HmacHeader where
  algorithm := algorithm
  key h password salt := Standard.pbkdf2 h.algorithm.hashFunction password salt h.iterations.toNat
  delimiter_notMem_tag := by decide
  length_key _ _ _ _ := Standard.length_pbkdf2 ..
  take_key _ _ _ _ _ := Standard.take_pbkdf2 _ _ _ _
  unpack_pack := unpack_pack
  value_derive password salt keyLen hnew := value_derive hnew password salt keyLen
  level_derive _ _ _ _ _ hevent := absurd hevent List.not_mem_nil

end KeyStretching.HmacHeader
