import KeyStretching.Credential.Hasher
import KeyStretching.Proofs.Cost
import KeyStretching.Proofs.Credential.Envelope

/-!
# Costs without their proofs

A `CompactCost` comes with the proofs that it is in range. A machine keeps three bytes of it
(`UncheckedCost`), and their type promises nothing: if they are in range, it is for what the
operations check and for what they leave alone.

The operations on the bytes make up a kind of credential (`UncheckedHeader`). It does not matter
whether the proofs are forgotten before an operation or after it:

* `UncheckedCost.admitted_iff`: the bytes that break no rule are those of a `CompactCost`;
* `Credential.read_unchecked`: a text stands for the same credential;
* `Credential.check_unchecked`: a check is the same, with its reports;
* `Hasher.value_hashWithSalt_forget`: a hasher makes the same credential.
-/

namespace KeyStretching

/-! ## Costs -/

/-- The three bytes of cost parameters in a credential, of which nothing is known. -/
structure UncheckedCost where
  logN : UInt8
  r : UInt8
  p : UInt8
  deriving DecidableEq, Repr

/-- The bytes of cost parameters. -/
def CompactCost.forget (c : CompactCost) : UncheckedCost := ⟨c.logN, c.r, c.p⟩

namespace UncheckedCost

/-- Keeps the three fields as they are, or says which rule they break first. -/
def ofFields (logN r p : UInt8) : Except CostError UncheckedCost :=
  if 1 ≤ logN ∧ logN ≤ CompactCost.maxLogN then
    match Cost.ofTriple (CompactCost.expand logN) r.toUInt32 p.toUInt32 with
    | .error e => .error e
    | .ok _ => .ok ⟨logN, r, p⟩
  else .error (.logOutOfRange logN)

/-- The usual parameters, which are not looked at. -/
def standard : UncheckedCost := ⟨14, 8, 1⟩

/-- The bytes break no rule, neither those for the fields nor those for the triple they stand
    for. -/
structure Admitted (c : UncheckedCost) : Prop where
  one_le_logN : 1 ≤ c.logN.toNat
  logN_le : c.logN.toNat ≤ 15
  one_le_r : 1 ≤ c.r.toNat
  one_le_p : 1 ≤ c.p.toNat
  exists_cost :
    ∃ cost, Cost.ofTriple (CompactCost.expand c.logN) c.r.toUInt32 c.p.toUInt32 = .ok cost

/-- The bytes that break no rule are those of cost parameters. -/
theorem admitted_iff {c : UncheckedCost} :
    c.Admitted ↔ ∃ compact : CompactCost, compact.forget = c := by
  have hzero {b : UInt8} : b ≠ 0 ↔ 1 ≤ b.toNat := by
    rw [Ne, ← UInt8.toNat_inj, UInt8.toNat_zero, Nat.one_le_iff_ne_zero]
  constructor
  · intro h
    have hlogN : 1 ≤ c.logN := UInt8.le_iff_toNat_le.2 h.one_le_logN
    have hlogN' : c.logN ≤ 15 := UInt8.le_iff_toNat_le.2 h.logN_le
    exact ⟨⟨c.logN, c.r, c.p, hlogN, hlogN', hzero.2 h.one_le_r, hzero.2 h.one_le_p⟩, rfl⟩
  · rintro ⟨compact, rfl⟩
    exact {
      one_le_logN := UInt8.le_iff_toNat_le.1 compact.logN_pos
      logN_le := UInt8.le_iff_toNat_le.1 compact.logN_le
      one_le_r := hzero.1 compact.r_ne_zero
      one_le_p := hzero.1 compact.p_ne_zero
      exists_cost := compact.exists_cost }

/-- Fields are kept if they make cost parameters, and refused for the same rule if not. -/
theorem ofFields_eq (logN r p : UInt8) :
    ofFields logN r p = (CompactCost.ofFields logN r p).map CompactCost.forget := by
  by_cases hlog : 1 ≤ logN ∧ logN ≤ CompactCost.maxLogN
  · rw [ofFields, if_pos hlog]
    cases hcost : Cost.ofTriple (CompactCost.expand logN) r.toUInt32 p.toUInt32 with
    | error e =>
      rw [CompactCost.ofFields_of_error hlog hcost]
      rfl
    | ok cost =>
      -- The proofs are those that the triple comes with.
      obtain ⟨-, hr, hp⟩ := Cost.eq_of_ofTriple hcost
      have hcompact : CompactCost.ofFields logN r p = .ok _ :=
        CompactCost.ofFields_self ⟨logN, r, p, hlog.1, hlog.2,
          fun h => cost.r_ne_zero (by rw [hr, h]; rfl),
          fun h => cost.p_ne_zero (by rw [hp, h]; rfl)⟩
      rw [hcompact]
      rfl
  · rw [ofFields, if_neg hlog, CompactCost.ofFields, dif_neg hlog]
    rfl

/-- Fields that are kept break no rule. -/
theorem admitted_of_ofFields {logN r p : UInt8} {c : UncheckedCost}
    (h : ofFields logN r p = .ok c) : c.Admitted := by
  rw [ofFields_eq] at h
  obtain ⟨compact, -, hcompact⟩ := map_eq_ok h
  exact admitted_iff.2 ⟨compact, hcompact⟩

/-- The usual parameters break no rule, though they are not looked at. -/
theorem admitted_standard : standard.Admitted := admitted_iff.2 ⟨.standard, rfl⟩

end UncheckedCost

/-! ## Headers -/

/-- Algorithm and cost of a credential, of which nothing is known. -/
structure UncheckedHeader where
  algorithm : Algorithm
  cost : UncheckedCost
  deriving DecidableEq, Repr

namespace UncheckedHeader

/-- The header that a word holds. -/
def unpack (word : UInt32) : Except Error UncheckedHeader := do
  if word >>> 24 ≠ 0 then
    throw (.format (.reservedBits word))
  let algorithm ← Algorithm.ofCode (word >>> 20 &&& 0xf).toUInt8
  let cost ← (UncheckedCost.ofFields (word >>> 16 &&& 0xf).toUInt8 (word >>> 8 &&& 0xff).toUInt8
    (word &&& 0xff).toUInt8).mapError .cost
  pure ⟨algorithm, cost⟩

/-- The bytes are packed, unpacked and used as they would be with the proofs. -/
instance : Header UncheckedHeader where
  tag := "s0"
  kind := "scrypt"
  pack h := h.algorithm.code.toUInt32 <<< 20 ||| h.cost.logN.toUInt32 <<< 16 |||
    h.cost.r.toUInt32 <<< 8 ||| h.cost.p.toUInt32
  unpack := unpack
  checkNew _ := .ok ()
  derive h password salt := Scrypt.derive h.algorithm password salt
    (CompactCost.expand h.cost.logN) h.cost.r.toUInt32 h.cost.p.toUInt32

/-- The header with the usual algorithm and a given cost. -/
def ofCost (cost : UncheckedCost) : UncheckedHeader := ⟨.standard, cost⟩

end UncheckedHeader

/-- The bytes of a header. -/
def ScryptHeader.forget (h : ScryptHeader) : UncheckedHeader := ⟨h.algorithm, h.cost.forget⟩

/-- A word holds the same header, with or without the proofs. -/
theorem UncheckedHeader.unpack_eq (word : UInt32) :
    unpack word = (ScryptHeader.unpack word).map ScryptHeader.forget := by
  rw [unpack, ScryptHeader.unpack, UncheckedCost.ofFields_eq]
  by_cases hreserved : word >>> 24 ≠ 0
  · rw [if_pos hreserved, if_pos hreserved]
    rfl
  rw [if_neg hreserved, if_neg hreserved]
  cases Algorithm.ofCode (word >>> 20 &&& 0xf).toUInt8 with
  | error e => rfl
  | ok algorithm =>
    cases CompactCost.ofFields (word >>> 16 &&& 0xf).toUInt8 (word >>> 8 &&& 0xff).toUInt8
        (word &&& 0xff).toUInt8 with
    | error e => rfl
    | ok cost => rfl

/-! ## Credentials -/

namespace Credential

/-- The credential as a machine keeps it. -/
def forget (c : Credential ScryptHeader) : Credential UncheckedHeader :=
  ⟨c.header.forget, c.salt, c.derived⟩

theorem verify_forget (c : Credential ScryptHeader) (password : Password) :
    c.forget.verify password = c.verify password := rfl

/-- A text stands for the same credential, with or without the proofs. -/
theorem read_unchecked (text : String) :
    (read text : Except Error (Credential UncheckedHeader)) =
      (read text : Except Error (Credential ScryptHeader)).map forget := by
  have htag : Header.tag UncheckedHeader = Header.tag ScryptHeader := rfl
  rw [read, read, htag]
  cases Envelope.read (Header.tag ScryptHeader) text with
  | error e => rfl
  | ok envelope =>
    have hunpack := UncheckedHeader.unpack_eq envelope.header
    change (UncheckedHeader.unpack envelope.header).map _ =
      ((ScryptHeader.unpack envelope.header).map _).map _
    rw [hunpack]
    cases ScryptHeader.unpack envelope.header with
    | error e => rfl
    | ok header => rfl

/-- What is read breaks no rule. -/
theorem admitted_of_read {text : String} {c : Credential UncheckedHeader}
    (h : read text = .ok c) : c.header.cost.Admitted := by
  rw [read_unchecked] at h
  obtain ⟨checked, -, rfl⟩ := map_eq_ok h
  exact UncheckedCost.admitted_iff.2 ⟨checked.header.cost, rfl⟩

/-- A check is the same, with or without the proofs. -/
theorem check_unchecked (password : Password) (text : String) :
    check UncheckedHeader password text = check ScryptHeader password text := by
  rw [check, check, read_unchecked]
  cases (read text : Except Error (Credential ScryptHeader)) with
  | error e => rfl
  | ok c => rfl

end Credential

/-- The hasher as a machine keeps it. -/
def Hasher.forget (h : Hasher ScryptHeader) : Hasher UncheckedHeader := ⟨h.header.forget, h.keyLen⟩

/-- Hashing makes the same credential, with or without the proofs. -/
theorem Hasher.value_hashWithSalt_forget (h : Hasher ScryptHeader) (password : Password)
    (salt : Bytes) :
    (h.forget.hashWithSalt password salt).value =
      (h.hashWithSalt password salt).value.map Credential.forget := by
  change (if h.keyLen = 0 then _ else _ : Logged _).value =
    Except.map Credential.forget (if h.keyLen = 0 then _ else _ : Logged _).value
  by_cases hkeyLen : h.keyLen = 0
  · rw [if_pos hkeyLen, if_pos hkeyLen]
    rfl
  · rw [if_neg hkeyLen, if_neg hkeyLen, Logged.value_bind, Logged.value_bind, Logged.value_pure,
      Logged.value_pure]
    change (Header.derive h.header password.bytes salt h.keyLen).value.map _ = _
    cases (Header.derive h.header password.bytes salt h.keyLen).value with
    | error e => rfl
    | ok derived => rfl

end KeyStretching
