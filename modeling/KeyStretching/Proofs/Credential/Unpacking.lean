import KeyStretching.Proofs.Credential.Checking
import KeyStretching.Proofs.Credential.HmacHeader
import KeyStretching.Proofs.Credential.Rules
import KeyStretching.Proofs.Credential.ScryptHeader

/-!
# Unpacking headers

What a word holds is said by its value: each field is what remains of it behind a shift and under a
mask (`ScryptHeader.Holds`, `HmacHeader.Holds`). The rules for words are listed by `faults`, for
each kind of header in the order in which they are looked at. Those on the fields are the rules that
any cost or count is held to, of which fewer can be broken by what fits into the bits of a word.

* `CompactCost.reports_faults`, `HmacHeader.reports_checkIterations`: the rules on any fields;
* `reports_unpack`: a word that breaks a rule is refused for the first one that it breaks;
* `exists_unpack_iff`: a word unpacks if its fields are in range;
* `unpack_eq_ok_iff`: what it unpacks to is the header whose fields it holds;
* `ExactHeader`: what is unpacked is packed into the same word again.
-/

namespace KeyStretching

/-- The code of an algorithm is looked up in the table of them all. -/
theorem Algorithm.reports_ofCode {n : Nat} (hn : n < 256) :
    Reports (ofCode (UInt8.ofNat n))
      [faultUnless (n ≤ 3) (.unsupportedAlgorithm (UInt8.ofNat n))] := by
  have hnat : (UInt8.ofNat n).toNat = n := UInt8.toNat_ofNat_of_lt' hn
  refine .check (fun h => ofCode_of_le (by omega)) fun h => ?_
  have hlt : (UInt8.ofNat n).toNat < 4 := by omega
  obtain ⟨a, ha⟩ := exists_code hlt
  rw [← ha, ofCode_code]
  exact .nil a

theorem Algorithm.toNat_code_of_ofCode {n : Nat} (hn : n < 256) {a : Algorithm}
    (h : ofCode (UInt8.ofNat n) = .ok a) : a.code.toNat = n := by
  have hnat : (UInt8.ofNat n).toNat = n := UInt8.toNat_ofNat_of_lt' hn
  have hlt : (UInt8.ofNat n).toNat < 4 := by
    by_contra hge
    rw [ofCode_of_le (Nat.le_of_not_lt hge)] at h
    exact nomatch h
  obtain ⟨b, hb⟩ := exists_code hlt
  rw [← hb, ofCode_code] at h
  cases h
  rw [hb, hnat]

/-- What is wrong with compact cost parameters by each of the rules. -/
def CompactCost.faults (logN r p : UInt8) : List (Option CostError) :=
  [ faultUnless (1 ≤ logN.toNat ∧ logN.toNat ≤ 15) (.logOutOfRange logN),
    faultUnless (r ≠ 0) .zeroBlockSize,
    faultUnless (p ≠ 0) .zeroParallelism ]

/-- The rules on compact cost parameters, in the order in which they are looked at. -/
theorem CompactCost.reports_faults (logN r p : UInt8) :
    Reports (ofFields logN r p) (faults logN r p) := by
  have hrule : (1 ≤ logN.toNat ∧ logN.toNat ≤ 15) ↔ 1 ≤ logN ∧ logN ≤ 15 := by
    rw [UInt8.le_iff_toNat_le, UInt8.le_iff_toNat_le]
    rfl
  rw [ofFields_eq]
  refine .check (fun h => by rw [dif_neg (mt hrule.2 h)]) fun hlog => ?_
  rw [dif_pos (hrule.1 hlog)]
  refine .check (fun h => by rw [dif_pos (not_not.1 h)]) fun hr => ?_
  rw [dif_neg hr]
  refine .check (fun h => by rw [dif_pos (not_not.1 h)]) fun hp => ?_
  rw [dif_neg hp]
  exact .nil _

/-- The fields of a cost that fit into their bits are refused only if they are zero. -/
theorem CompactCost.reports_ofFields {k m n : Nat} (hk : k ≤ 15) (hm : m ≤ 255) (hn : n ≤ 255) :
    Reports (ofFields (UInt8.ofNat k) (UInt8.ofNat m) (UInt8.ofNat n))
      [ faultUnless (k ≠ 0) (.logOutOfRange 0),
        faultUnless (m ≠ 0) .zeroBlockSize,
        faultUnless (n ≠ 0) .zeroParallelism ] := by
  have hnat {i : Nat} (hi : i ≤ 255) : (UInt8.ofNat i).toNat = i :=
    UInt8.toNat_ofNat_of_lt' (Nat.lt_succ_of_le hi)
  have hzero {i : Nat} (hi : i ≤ 255) : UInt8.ofNat i ≠ 0 ↔ i ≠ 0 := by
    rw [ne_eq, ← UInt8.toNat_inj, hnat hi, UInt8.toNat_zero]
  have hlog : 1 ≤ (UInt8.ofNat k).toNat ∧ (UInt8.ofNat k).toNat ≤ 15 ↔ k ≠ 0 := by
    rw [hnat (hk.trans (by decide))]
    omega
  have hbroken : ¬(1 ≤ (UInt8.ofNat k).toNat ∧ (UInt8.ofNat k).toNat ≤ 15) →
      CostError.logOutOfRange (UInt8.ofNat k) = .logOutOfRange 0 := by
    intro h
    rw [not_not.1 (mt hlog.2 h)]
    rfl
  rw [← faultUnless_congr hlog hbroken, ← faultUnless_congr (hzero hm) fun _ => rfl,
    ← faultUnless_congr (hzero hn) fun _ => rfl]
  exact reports_faults _ _ _

/-- A masked value fits into a byte if the mask does. -/
theorem toNat_ofNat_and (n : Nat) {mask : Nat} (h : mask ≤ 255) :
    (UInt8.ofNat (n &&& mask)).toNat = n &&& mask :=
  UInt8.toNat_ofNat_of_lt' (Nat.lt_succ_of_le (Nat.le_trans Nat.and_le_right h))

namespace ScryptHeader

open Header (toUInt8_field shiftRight_eq_zero_iff)

/-- The fields of the header stand in the value `v`. -/
structure Holds (v : Nat) (h : ScryptHeader) : Prop where
  code : h.algorithm.code.toNat = v >>> 20
  logN : h.cost.logN.toNat = v >>> 16 &&& 15
  r : h.cost.r.toNat = v >>> 8 &&& 255
  p : h.cost.p.toNat = v &&& 255

/-- The fields that stand in the value `v` are those of a header. -/
structure InRange (v : Nat) : Prop where
  lt : v < 2 ^ 24
  code_le : v >>> 20 ≤ 3
  one_le_logN : 1 ≤ v >>> 16 &&& 15
  one_le_r : 1 ≤ v >>> 8 &&& 255
  one_le_p : 1 ≤ v &&& 255

/-- What is wrong with a word, rule by rule. -/
def faults (word : UInt32) : List (Option Error) :=
  [ faultUnless (word.toNat < 2 ^ 24) (.format (.reservedBits word)),
    faultUnless (word.toNat >>> 20 ≤ 3) (.unsupportedAlgorithm (UInt8.ofNat (word.toNat >>> 20))),
    faultUnless (word.toNat >>> 16 &&& 15 ≠ 0) (.cost (.logOutOfRange 0)),
    faultUnless (word.toNat >>> 8 &&& 255 ≠ 0) (.cost .zeroBlockSize),
    faultUnless (word.toNat &&& 255 ≠ 0) (.cost .zeroParallelism) ]

variable {word : UInt32}

theorem shiftRight_lt (h : word.toNat < 2 ^ 24) : word.toNat >>> 20 < 256 := by
  rw [Nat.shiftRight_eq_div_pow]
  omega

theorem unpack_of_reserved (h : ¬word.toNat < 2 ^ 24) :
    unpack word = .error (.format (.reservedBits word)) := by
  rw [unpack, if_pos (mt (shiftRight_eq_zero_iff 24 rfl).1 h)]
  rfl

/-- Without reserved bits, the fields of a word are looked at one after the other. -/
theorem unpack_of_lt (h : word.toNat < 2 ^ 24) :
    unpack word = (do
      let algorithm ← Algorithm.ofCode (UInt8.ofNat (word.toNat >>> 20))
      let cost ← (CompactCost.ofFields (UInt8.ofNat (word.toNat >>> 16 &&& 15))
        (UInt8.ofNat (word.toNat >>> 8 &&& 255)) (UInt8.ofNat (word.toNat &&& 255))).mapError .cost
      pure ⟨algorithm, cost⟩) := by
  have hcode : word.toNat >>> 20 &&& 15 = word.toNat >>> 20 := by
    rw [Nat.and_two_pow_sub_one_eq_mod _ 4, Nat.shiftRight_eq_div_pow]
    omega
  have hp : (word &&& 0xff).toUInt8 = UInt8.ofNat (word.toNat &&& 255) := by
    refine UInt8.toNat_inj.1 ?_
    rw [UInt32.toNat_toUInt8, UInt32.toNat_and, UInt8.toNat_ofNat']
    rfl
  rw [unpack, if_neg (not_not.2 ((shiftRight_eq_zero_iff 24 rfl).2 h)),
    toUInt8_field 20 15 rfl rfl, hcode, toUInt8_field 16 15 rfl rfl, toUInt8_field 8 255 rfl rfl,
    hp]

/-- A word that breaks a rule is refused for the first one that it breaks. -/
theorem reports_unpack (word : UInt32) : Reports (unpack word) (faults word) := by
  refine .check unpack_of_reserved fun hlt => ?_
  rw [unpack_of_lt hlt]
  have hcost := (CompactCost.reports_ofFields (k := word.toNat >>> 16 &&& 15)
    (m := word.toNat >>> 8 &&& 255) (n := word.toNat &&& 255) Nat.and_le_right Nat.and_le_right
    Nat.and_le_right).mapError Error.cost
  simp only [List.map_cons, List.map_nil, map_faultUnless] at hcost
  exact (Algorithm.reports_ofCode (shiftRight_lt hlt)).bind fun algorithm _ =>
    hcost.bind_pure (ScryptHeader.mk algorithm)

/-- A word unpacks if its fields are in range. -/
theorem exists_unpack_iff : (∃ h, unpack word = .ok h) ↔ InRange word.toNat := by
  rw [(reports_unpack word).exists_eq_ok_iff, firstFault_eq_none_iff, faults]
  simp only [List.forall_mem_cons, List.not_mem_nil, false_implies, implies_true, and_true,
    faultUnless_eq_none_iff, ← Nat.one_le_iff_ne_zero]
  exact ⟨fun ⟨hlt, hcode, hlogN, hr, hp⟩ => ⟨hlt, hcode, hlogN, hr, hp⟩,
    fun ⟨hlt, hcode, hlogN, hr, hp⟩ => ⟨hlt, hcode, hlogN, hr, hp⟩⟩

/-- A header whose fields stand in a word is packed into it. -/
theorem Holds.pack_eq {h : ScryptHeader} (hholds : h.Holds word.toNat) : h.pack = word := by
  refine UInt32.toNat_inj.1 ?_
  rw [toNat_pack, hholds.code, hholds.logN, hholds.r, hholds.p,
    Nat.and_two_pow_sub_one_eq_mod _ 4, Nat.and_two_pow_sub_one_eq_mod _ 8,
    Nat.and_two_pow_sub_one_eq_mod _ 8]
  simp only [Nat.shiftRight_eq_div_pow]
  omega

/-- A word unpacks to the header whose fields stand in it. -/
theorem unpack_eq_ok_iff {h : ScryptHeader} : unpack word = .ok h ↔ h.Holds word.toNat := by
  constructor
  · intro hunpack
    have hlt := (exists_unpack_iff.1 ⟨h, hunpack⟩).lt
    rw [unpack_of_lt hlt] at hunpack
    obtain ⟨algorithm, halgorithm, hunpack⟩ := bind_eq_ok hunpack
    obtain ⟨cost, hcost, hunpack⟩ := bind_eq_ok hunpack
    obtain ⟨hlogN, hr, hp⟩ := CompactCost.eq_of_ofFields (mapError_eq_ok hcost)
    cases hunpack
    refine ⟨Algorithm.toNat_code_of_ofCode (shiftRight_lt hlt) halgorithm, ?_, ?_, ?_⟩
    · rw [hlogN, toNat_ofNat_and _ (by decide)]
    · rw [hr, toNat_ofNat_and _ (by decide)]
    · rw [hp, toNat_ofNat_and _ (by decide)]
  · intro hholds
    rw [← hholds.pack_eq, unpack_pack]

end ScryptHeader

namespace HmacHeader

open Header (shiftRight_eq_zero_iff)

/-- The fields of the header stand in the value `v`. -/
structure Holds (v : Nat) (h : HmacHeader) : Prop where
  code : h.algorithm.code.toNat = v >>> 24
  iterations : h.iterations.toNat = v &&& 0xffffff

/-- The fields that stand in the value `v` are those of a header. -/
structure InRange (v : Nat) : Prop where
  lt : v < 2 ^ 28
  code_le : v >>> 24 ≤ 3
  one_le_iterations : 1 ≤ v &&& 0xffffff

/-- What is wrong with a word, rule by rule. -/
def faults (word : UInt32) : List (Option Error) :=
  [ faultUnless (word.toNat < 2 ^ 28) (.format (.reservedBits word)),
    faultUnless (word.toNat >>> 24 ≤ 3) (.unsupportedAlgorithm (UInt8.ofNat (word.toNat >>> 24))),
    faultUnless (word.toNat &&& 0xffffff ≠ 0) (.iterationCount 0) ]

variable {word : UInt32}

theorem shiftRight_lt (word : UInt32) : word.toNat >>> 24 < 256 := by
  have hlt := word.toNat_lt
  rw [Nat.shiftRight_eq_div_pow]
  omega

theorem unpack_of_reserved (h : ¬word.toNat < 2 ^ 28) :
    unpack word = .error (.format (.reservedBits word)) := by
  rw [unpack, if_pos (mt (shiftRight_eq_zero_iff 28 rfl).1 h)]
  rfl

/-- Without reserved bits, the fields of a word are looked at one after the other. -/
theorem unpack_of_lt (h : word.toNat < 2 ^ 28) :
    unpack word = (do
      let algorithm ← Algorithm.ofCode (UInt8.ofNat (word.toNat >>> 24))
      checkIterations (word &&& maxIterations)
      pure ⟨algorithm, word &&& maxIterations⟩) := by
  have hcode : (word >>> 24).toUInt8 = UInt8.ofNat (word.toNat >>> 24) := by
    refine UInt8.toNat_inj.1 ?_
    rw [UInt32.toNat_toUInt8, UInt32.toNat_shiftRight, UInt8.toNat_ofNat']
    rfl
  rw [unpack, if_neg (not_not.2 ((shiftRight_eq_zero_iff 28 rfl).2 h)), hcode]

theorem toNat_and_maxIterations (word : UInt32) :
    (word &&& maxIterations).toNat = word.toNat &&& 0xffffff := UInt32.toNat_and ..

/-- What is wrong with the count of iterations of a new credential. -/
def newFaults (iterations : UInt32) : List (Option Error) :=
  [ faultUnless (1 ≤ iterations.toNat ∧ iterations.toNat ≤ 2 ^ 24 - 1)
      (.iterationCount iterations) ]

theorem reports_checkIterations (iterations : UInt32) :
    Reports (checkIterations iterations) (newFaults iterations) := by
  have hrule : (1 ≤ iterations.toNat ∧ iterations.toNat ≤ 2 ^ 24 - 1) ↔
      checkIterations iterations = .ok () := by
    rw [checkIterations_eq_ok_iff, UInt32.le_iff_toNat_le, UInt32.le_iff_toNat_le]
    rfl
  refine .check (fun h => ?_) fun h => ?_
  · rw [hrule] at h
    rw [checkIterations] at h ⊢
    split
    · rfl
    · next hkept => exact absurd (if_neg hkept) h
  · rw [hrule.1 h]
    exact .nil ()

/-- What the bits for the count hold is never too large, and is refused only if it is zero. -/
theorem reports_checkIterations_and (word : UInt32) :
    Reports (checkIterations (word &&& maxIterations))
      [faultUnless (word.toNat &&& 0xffffff ≠ 0) (.iterationCount 0)] := by
  have hle : word.toNat &&& 0xffffff ≤ 2 ^ 24 - 1 := Nat.and_le_right
  have hrule : 1 ≤ (word &&& maxIterations).toNat ∧ (word &&& maxIterations).toNat ≤ 2 ^ 24 - 1 ↔
      word.toNat &&& 0xffffff ≠ 0 := by
    rw [toNat_and_maxIterations]
    omega
  have hbroken : ¬(1 ≤ (word &&& maxIterations).toNat ∧
      (word &&& maxIterations).toNat ≤ 2 ^ 24 - 1) →
      Error.iterationCount (word &&& maxIterations) = .iterationCount 0 := by
    intro h
    have hzero : (word &&& maxIterations).toNat = 0 :=
      (toNat_and_maxIterations word).trans (not_not.1 (mt hrule.2 h))
    rw [UInt32.toNat_inj.1 (hzero.trans UInt32.toNat_zero.symm)]
  rw [← faultUnless_congr hrule hbroken]
  exact reports_checkIterations _

/-- A word that breaks a rule is refused for the first one that it breaks. -/
theorem reports_unpack (word : UInt32) : Reports (unpack word) (faults word) := by
  refine .check unpack_of_reserved fun hlt => ?_
  rw [unpack_of_lt hlt]
  exact (Algorithm.reports_ofCode (shiftRight_lt word)).bind fun algorithm _ =>
    (reports_checkIterations_and word).bind_pure fun _ =>
      HmacHeader.mk algorithm (word &&& maxIterations)

/-- A word unpacks if its fields are in range. -/
theorem exists_unpack_iff : (∃ h, unpack word = .ok h) ↔ InRange word.toNat := by
  rw [(reports_unpack word).exists_eq_ok_iff, firstFault_eq_none_iff, faults]
  simp only [List.forall_mem_cons, List.not_mem_nil, false_implies, implies_true, and_true,
    faultUnless_eq_none_iff, ← Nat.one_le_iff_ne_zero]
  exact ⟨fun ⟨hlt, hcode, hcount⟩ => ⟨hlt, hcode, hcount⟩,
    fun ⟨hlt, hcode, hcount⟩ => ⟨hlt, hcode, hcount⟩⟩

/-- A header whose fields stand in a word is packed into it. -/
theorem Holds.pack_eq {h : HmacHeader} (hholds : h.Holds word.toNat)
    (hnew : checkIterations h.iterations = .ok ()) : h.pack = word := by
  refine UInt32.toNat_inj.1 ?_
  rw [toNat_pack hnew, hholds.code, hholds.iterations, Nat.and_two_pow_sub_one_eq_mod _ 24,
    Nat.shiftRight_eq_div_pow]
  omega

/-- A word unpacks to the header whose fields stand in it, if new credentials may have it. -/
theorem unpack_eq_ok_iff {h : HmacHeader} :
    unpack word = .ok h ↔ checkIterations h.iterations = .ok () ∧ h.Holds word.toNat := by
  constructor
  · intro hunpack
    rw [unpack_of_lt (exists_unpack_iff.1 ⟨h, hunpack⟩).lt] at hunpack
    obtain ⟨algorithm, halgorithm, hunpack⟩ := bind_eq_ok hunpack
    obtain ⟨⟨⟩, hnew, hunpack⟩ := bind_eq_ok hunpack
    cases hunpack
    exact ⟨hnew, Algorithm.toNat_code_of_ofCode (shiftRight_lt word) halgorithm,
      toNat_and_maxIterations word⟩
  · rintro ⟨hnew, hholds⟩
    rw [← hholds.pack_eq hnew, unpack_pack hnew]

end HmacHeader

/-! ## Laws -/

/-- A kind of credential in which a header is packed into the word that it unpacks from, and into no
    other. -/
class ExactHeader (H : Type) [Header H] : Prop where
  /-- Only headers that new credentials may have are unpacked. -/
  checkNew_of_unpack {word : UInt32} {h : H} :
    Header.unpack word = .ok h → Header.checkNew h = .ok ()
  pack_of_unpack {word : UInt32} {h : H} : Header.unpack word = .ok h → Header.pack h = word
  /-- No header unpacks from zero. -/
  ne_zero_of_unpack {word : UInt32} {h : H} : Header.unpack word = .ok h → word ≠ 0

/-- A credential that was read has a header that new credentials may have. -/
theorem Credential.checkNew_of_read {H : Type} [Header H] [ExactHeader H] {text : String}
    {c : Credential H} (h : read text = .ok c) : Header.checkNew c.header = .ok () := by
  obtain ⟨envelope, -, hunpack, -⟩ := exists_envelope_of_read h
  exact ExactHeader.checkNew_of_unpack hunpack

instance : ExactHeader ScryptHeader where
  checkNew_of_unpack _ := rfl
  pack_of_unpack h := (ScryptHeader.unpack_eq_ok_iff.1 h).pack_eq
  ne_zero_of_unpack := by
    rintro _ _ h rfl
    exact absurd (ScryptHeader.exists_unpack_iff.1 ⟨_, h⟩).one_le_p (by decide)

instance : ExactHeader HmacHeader where
  checkNew_of_unpack h := (HmacHeader.unpack_eq_ok_iff.1 h).1
  pack_of_unpack h :=
    (HmacHeader.unpack_eq_ok_iff.1 h).2.pack_eq (HmacHeader.unpack_eq_ok_iff.1 h).1
  ne_zero_of_unpack := by
    rintro _ _ h rfl
    exact absurd (HmacHeader.exists_unpack_iff.1 ⟨_, h⟩).one_le_iterations (by decide)

end KeyStretching
