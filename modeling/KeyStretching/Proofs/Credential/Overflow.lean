import KeyStretching.Proofs.Credential.Checking
import KeyStretching.Proofs.Credential.Unpacking

/-!
# Counts that exceed their bits

Nothing keeps an iterated credential from holding a count that is too large for the 24 bits it is
packed into. Its high bits are put over the code of the algorithm (`packedCode`), and only its low
bits remain as a count, so that the text of such a credential is refused or reads as another one
(`read_write_hmacHeader`).
-/

namespace KeyStretching

namespace HmacHeader

variable (h : HmacHeader)

/-- The code that a header is packed with: the high bits of the count are put over those of the
    algorithm. -/
def packedCode : Nat := h.algorithm.code.toNat ||| h.iterations.toNat >>> 24

theorem toNat_pack_eq_or :
    h.pack.toNat = h.algorithm.code.toNat * 2 ^ 24 ||| h.iterations.toNat := by
  have hcode := h.algorithm.code_lt
  rw [pack, UInt32.toNat_or, Header.toNat_shiftLeft 24 rfl (by omega)]

theorem toNat_pack_shiftRight : h.pack.toNat >>> 24 = h.packedCode := by
  rw [toNat_pack_eq_or, packedCode, Nat.shiftRight_or_distrib, Nat.shiftRight_eq_div_pow (_ * _),
    Nat.mul_div_cancel _ (Nat.two_pow_pos 24)]

theorem toNat_pack_and : h.pack.toNat &&& 0xffffff = h.iterations.toNat % 2 ^ 24 := by
  rw [toNat_pack_eq_or, Nat.and_two_pow_sub_one_eq_mod _ 24, Nat.or_mod_two_pow,
    Nat.mul_mod_left, Nat.zero_or]

/-- The reserved bits are set by the count alone. -/
theorem toNat_pack_lt_iff : h.pack.toNat < 2 ^ 28 ↔ h.iterations.toNat < 2 ^ 28 := by
  have hcode := h.algorithm.code_lt
  rw [toNat_pack_eq_or]
  exact ⟨Nat.lt_of_le_of_lt Nat.right_le_or, Nat.or_lt_two_pow (by omega)⟩

theorem packedCode_lt (hlt : h.iterations.toNat < 2 ^ 28) : h.packedCode < 16 := by
  rw [← toNat_pack_shiftRight, Nat.shiftRight_eq_div_pow]
  have := h.toNat_pack_lt_iff.2 hlt
  omega

/-- The fields of a packed header are looked at one after the other. -/
theorem unpack_pack_of_reserved (hge : 2 ^ 28 ≤ h.iterations.toNat) :
    unpack h.pack = .error (.format (.reservedBits h.pack)) :=
  unpack_of_reserved (mt h.toNat_pack_lt_iff.1 (Nat.not_lt.2 hge))

variable {h}

theorem exists_unpack_pack_of_code (hlt : h.iterations.toNat < 2 ^ 28) (hcode : 3 < h.packedCode) :
    ∃ code : UInt8, code.toNat = h.packedCode ∧
      unpack h.pack = .error (.unsupportedAlgorithm code) := by
  have hpacked := h.packedCode_lt hlt
  refine ⟨UInt8.ofNat h.packedCode,
    UInt8.toNat_ofNat_of_lt' (Nat.lt_trans hpacked (by decide)), ?_⟩
  refine (reports_unpack h.pack _).2 ?_
  rw [faults, faultUnless, if_pos (h.toNat_pack_lt_iff.2 hlt), faultUnless, toNat_pack_shiftRight,
    if_neg (Nat.not_le.2 hcode)]
  rfl

theorem unpack_pack_of_dvd (hlt : h.iterations.toNat < 2 ^ 28) (hcode : h.packedCode ≤ 3)
    (hdvd : 2 ^ 24 ∣ h.iterations.toNat) : unpack h.pack = .error (.iterationCount 0) := by
  refine (reports_unpack h.pack _).2 ?_
  rw [faults, faultUnless, if_pos (h.toNat_pack_lt_iff.2 hlt), faultUnless, toNat_pack_shiftRight,
    if_pos hcode, faultUnless, toNat_pack_and, if_neg (not_not.2 (Nat.mod_eq_zero_of_dvd hdvd))]
  rfl

theorem exists_unpack_pack (hlt : h.iterations.toNat < 2 ^ 28) (hcode : h.packedCode ≤ 3)
    (hdvd : ¬2 ^ 24 ∣ h.iterations.toNat) :
    ∃ algorithm : Algorithm, algorithm.code.toNat = h.packedCode ∧
      unpack h.pack = .ok ⟨algorithm, UInt32.ofNat (h.iterations.toNat % 2 ^ 24)⟩ := by
  have hrange : InRange h.pack.toNat := by
    refine ⟨h.toNat_pack_lt_iff.2 hlt, ?_, ?_⟩
    · rwa [toNat_pack_shiftRight]
    · rw [toNat_pack_and]
      exact Nat.one_le_iff_ne_zero.2 (mt Nat.dvd_of_mod_eq_zero hdvd)
  obtain ⟨header, hunpack⟩ := exists_unpack_iff.2 hrange
  obtain ⟨-, hcodeAt, hcount⟩ := unpack_eq_ok_iff.1 hunpack
  rw [toNat_pack_shiftRight] at hcodeAt
  rw [toNat_pack_and] at hcount
  refine ⟨header.algorithm, hcodeAt, ?_⟩
  rw [hunpack, ← hcount, UInt32.ofNat_toNat]

end HmacHeader

namespace Credential

open HmacHeader

/-- The result `r` is what the text of the credential `c` is to read as. -/
def ReadsBackAs (c : Credential HmacHeader) (r : Except Error (Credential HmacHeader)) : Prop :=
  if c.derived = [] then r = .error (.format .emptyDerivedKey)
  else if 2 ^ 28 ≤ c.header.iterations.toNat then r = .error (.format (.reservedBits c.packed))
  else if 3 < c.header.packedCode then
    ∃ code : UInt8, code.toNat = c.header.packedCode ∧ r = .error (.unsupportedAlgorithm code)
  else if 2 ^ 24 ∣ c.header.iterations.toNat then r = .error (.iterationCount 0)
  else ∃ algorithm : Algorithm, algorithm.code.toNat = c.header.packedCode ∧
    r = .ok ⟨⟨algorithm, UInt32.ofNat (c.header.iterations.toNat % 2 ^ 24)⟩, c.salt, c.derived⟩

theorem readsBackAs_read_write (c : Credential HmacHeader) : ReadsBackAs c (read c.write) := by
  by_cases hnil : c.derived = []
  · rw [ReadsBackAs, if_pos hnil, read_write_eq, if_pos hnil]
  have hread : read c.write =
      (unpack c.header.pack).map fun header => ⟨header, c.salt, c.derived⟩ := by
    rw [read_write_eq, if_neg hnil]
    rfl
  rw [ReadsBackAs, if_neg hnil, hread]
  by_cases hlarge : 2 ^ 28 ≤ c.header.iterations.toNat
  · rw [if_pos hlarge, unpack_pack_of_reserved _ hlarge]
    rfl
  rw [if_neg hlarge]
  have hlt := Nat.lt_of_not_le hlarge
  by_cases hcode : 3 < c.header.packedCode
  · obtain ⟨code, hcodeAt, hunpack⟩ := exists_unpack_pack_of_code hlt hcode
    rw [if_pos hcode, hunpack]
    exact ⟨code, hcodeAt, rfl⟩
  rw [if_neg hcode]
  by_cases hdvd : 2 ^ 24 ∣ c.header.iterations.toNat
  · rw [if_pos hdvd, unpack_pack_of_dvd hlt (Nat.le_of_not_lt hcode) hdvd]
    rfl
  · rw [if_neg hdvd]
    obtain ⟨algorithm, hcodeAt, hunpack⟩ := exists_unpack_pack hlt (Nat.le_of_not_lt hcode) hdvd
    refine ⟨algorithm, hcodeAt, ?_⟩
    rw [hunpack]
    rfl

/-- With one bit too many, a credential reads as one of another algorithm with a single
    iteration. -/
example : read (write (⟨⟨.hmacSha224, 0x02000001⟩, [], [0x07]⟩ : Credential HmacHeader)) =
    .ok (⟨⟨.hmacSha512, 1⟩, [], [0x07]⟩ : Credential HmacHeader) := by
  decide +kernel

/-- The text of an iterated credential reads as its count makes it read, whatever that is. It reads
    as the credential itself if its key is not empty and its count fits into its bits and is not
    zero, and then a check of the text is a verification of the credential. -/
theorem read_write_hmacHeader (c : Credential HmacHeader) :
    ReadsBackAs c (read c.write) ∧
    (read c.write = .ok c ↔
      c.derived ≠ [] ∧ 1 ≤ c.header.iterations ∧ c.header.iterations ≤ maxIterations) ∧
    (c.derived ≠ [] → 1 ≤ c.header.iterations → c.header.iterations ≤ maxIterations →
      ∀ password, check HmacHeader password c.write = c.verify password) := by
  refine ⟨readsBackAs_read_write c, ⟨fun hread => ?_, ?_⟩, ?_⟩
  · exact ⟨derived_ne_nil_of_read hread, checkIterations_eq_ok_iff.1 (checkNew_of_read hread)⟩
  · rintro ⟨hne, hcount⟩
    have hread := read_write (c := c) (checkIterations_eq_ok_iff.2 hcount)
    rwa [if_neg hne] at hread
  · intro hne hone hmax password
    have hcheck := check_write password (c := c) (checkIterations_eq_ok_iff.2 ⟨hone, hmax⟩)
    rwa [if_neg hne] at hcheck

/-- With as many iterations as there is room for. -/
theorem read_write_hmacHeader_maxIterations :
    ([0x00] : Bytes) ≠ [] ∧ 1 ≤ maxIterations ∧ maxIterations ≤ maxIterations ∧
      check HmacHeader (.ofText "pw")
          (write (⟨⟨.hmacSha384, maxIterations⟩, [], [0x00]⟩ : Credential HmacHeader)) =
        verify (⟨⟨.hmacSha384, maxIterations⟩, [], [0x00]⟩ : Credential HmacHeader)
          (.ofText "pw") := by
  have hne : ([0x00] : Bytes) ≠ [] := by decide
  have hone : 1 ≤ maxIterations := by decide
  have hmax : maxIterations ≤ maxIterations := by decide
  obtain ⟨-, -, hcheck⟩ := read_write_hmacHeader ⟨⟨.hmacSha384, maxIterations⟩, [], [0x00]⟩
  exact ⟨hne, hone, hmax, hcheck hne hone hmax (.ofText "pw")⟩

end Credential

end KeyStretching
