import KeyStretching.Proofs.Credential.RoundTrip
import KeyStretching.Proofs.Credential.Unpacking

/-!
# Hashing a password

Nothing about a hasher is checked until it is used, and then the checks are made in a fixed order:
on the header, on the length of the key, and on that length again when the key is derived. Here they
are gathered in one list of rules for each kind (`keyFaults`, `HmacHeader.newFaults`,
`CompactCost.faults`), so that a hasher with several faults reports the first of them.

* `value_hashWithSalt_eq`: hashing reports the first fault, and makes a credential with the
  published key where there is none;
* `read_write_of_hashWithSalt`: the text of whatever is made reads back as it was;
* `outcome_hashing`: both for either kind, and for credentials that are made from their parameters.
-/

namespace KeyStretching

/-- A value, unless there is a fault before it. -/
def unlessFault {ε α : Type} (faults : List (Option ε)) (a : α) : Except ε α :=
  match firstFault faults with
  | some e => .error e
  | none => .ok a

/-- What is wrong with the length of a new key by each of the rules. -/
def keyFaults (a : Algorithm) (keyLen : Nat) : List (Option Error) :=
  [ faultUnless (1 ≤ keyLen) .emptyKey,
    faultUnless (keyLen ≤ Pbkdf2.maxKeyLen a) (.keyTooLong keyLen (Pbkdf2.maxKeyLen a)) ]

/-- What comes of hashing: the first of the faults, or a credential with the given key. -/
structure Hasher.Outcome {H : Type} [Header H] (h : Hasher H) (password : Password) (salt : Bytes)
    (faults : List (Option Error)) (derived : Except Error Bytes) (key : Bytes) : Prop where
  value_hashWithSalt :
    (h.hashWithSalt password salt).value = unlessFault faults ⟨h.header, salt, key⟩
  value_hash (drawn : Vector UInt8 saltLen) : drawn.toList = salt →
    (h.hash password drawn).value = unlessFault faults (Credential.write ⟨h.header, salt, key⟩)
  /-- Where there is no fault, the key is derived as asked for. -/
  derived_eq : firstFault faults = none → derived = .ok key
  length_key : key.length = h.keyLen
  /-- What is made is read back from its text as it was. -/
  read_write (c : Credential H) : (h.hashWithSalt password salt).value = .ok c →
    Credential.read c.write = .ok c

/-- What comes of hashing with scrypt. -/
def Hasher.ScryptOutcome (h : Hasher ScryptHeader) (password : Password) (salt : Bytes) : Prop :=
  Outcome h password salt (keyFaults h.header.algorithm h.keyLen)
    (Scrypt.derive h.header.algorithm password.bytes salt
      (UInt32.ofNat (2 ^ h.header.cost.logN.toNat)) h.header.cost.r.toUInt32
      h.header.cost.p.toUInt32 h.keyLen).value
    (Standard.scrypt h.header.algorithm.hashFunction password.bytes salt
      (2 ^ h.header.cost.logN.toNat) h.header.cost.r.toNat h.header.cost.p.toNat h.keyLen)

/-- What comes of hashing with PBKDF2. -/
def Hasher.HmacOutcome (h : Hasher HmacHeader) (password : Password) (salt : Bytes) : Prop :=
  Outcome h password salt
    (HmacHeader.newFaults h.header.iterations ++ keyFaults h.header.algorithm h.keyLen)
    (Pbkdf2.derive h.header.algorithm password.bytes salt h.header.iterations h.keyLen)
    (Standard.pbkdf2 h.header.algorithm.hashFunction password.bytes salt
      h.header.iterations.toNat h.keyLen)

/-- What comes of creating a memory-hard credential from its parameters. -/
structure CreatesScrypt (password : Password) (logN r p : UInt8) (keyLen : Nat)
    (drawn : Vector UInt8 saltLen) : Prop where
  reports_ofFields : Reports (CompactCost.ofFields logN r p) (CompactCost.faults logN r p)
  /-- Parameters that are refused are reported before anything else, and nothing is derived. -/
  refused (e : CostError) : CompactCost.ofFields logN r p = .error e →
    createScrypt password logN r p keyLen drawn = pure (.error (.cost e))
  value_eq (cost : CompactCost) : CompactCost.ofFields logN r p = .ok cost →
    (createScrypt password logN r p keyLen drawn).value =
      unlessFault (keyFaults .hmacSha256 keyLen)
        (Credential.write (⟨⟨.hmacSha256, cost⟩, drawn.toList, Standard.scrypt Sha2.sha256
          password.bytes drawn.toList (2 ^ logN.toNat) r.toNat p.toNat keyLen⟩ :
            Credential ScryptHeader))
  read_text (text : String) : (createScrypt password logN r p keyLen drawn).value = .ok text →
    ∃ c : Credential ScryptHeader, Credential.read text = .ok c ∧ c.write = text

/-- What comes of creating an iterated credential from its parameters. -/
structure CreatesHmac (password : Password) (iterations : UInt32) (keyLen : Nat)
    (drawn : Vector UInt8 saltLen) : Prop where
  value_eq : (createHmac password iterations keyLen drawn).value =
    unlessFault (HmacHeader.newFaults iterations ++ keyFaults .hmacSha256 keyLen)
      (Credential.write (⟨⟨.hmacSha256, iterations⟩, drawn.toList, Standard.pbkdf2 Sha2.sha256
        password.bytes drawn.toList iterations.toNat keyLen⟩ : Credential HmacHeader))
  read_text (text : String) : (createHmac password iterations keyLen drawn).value = .ok text →
    ∃ c : Credential HmacHeader, Credential.read text = .ok c ∧ c.write = text

/-! ## Faults -/

section

variable {ε α β : Type} {faults : List (Option ε)} (a : α)

/-- A computation that reports some faults, and otherwise has this value. -/
theorem Reports.eq_unlessFault {x : Except ε α} (h : Reports x faults)
    (hok : firstFault faults = none → x = .ok a) : x = unlessFault faults a := by
  cases hfault : firstFault faults with
  | none => rw [unlessFault, hfault, hok hfault]
  | some e => rw [unlessFault, hfault, (h e).2 hfault]

theorem map_unlessFault (f : α → β) :
    (unlessFault faults a).map f = unlessFault faults (f a) := by
  cases h : firstFault faults with
  | none =>
    rw [unlessFault, unlessFault, h]
    rfl
  | some e =>
    rw [unlessFault, unlessFault, h]
    rfl

theorem unlessFault_eq_ok_iff {a b : α} :
    unlessFault faults a = .ok b ↔ firstFault faults = none ∧ a = b := by
  cases h : firstFault faults with
  | none =>
    rw [unlessFault, h]
    simp
  | some e =>
    rw [unlessFault, h]
    simp

end

/-- The cost is the power of two that its logarithm stands for. -/
theorem CompactCost.toNat_n (c : CompactCost) : c.n.toNat = 2 ^ c.logN.toNat := by
  have hle : c.logN.toNat ≤ 15 := UInt8.le_iff_toNat_le.1 c.logN_le
  have hpow : 2 ^ c.logN.toNat ≤ 2 ^ 15 := Nat.pow_le_pow_right Nat.two_pos hle
  have hshift : c.logN.toUInt32.toNat % 32 = c.logN.toNat := by
    rw [UInt8.toNat_toUInt32]
    omega
  have hone : (1 : UInt8).toNat * 2 ^ c.logN.toNat < 2 ^ 32 := by
    rw [UInt8.toNat_one]
    omega
  exact (Header.toNat_shiftLeft _ hshift hone).trans (Nat.one_mul _)

/-- A key of admitted length is neither empty nor too long. -/
theorem firstFault_keyFaults_eq_none_iff {a : Algorithm} {keyLen : Nat} :
    firstFault (keyFaults a keyLen) = none ↔ 1 ≤ keyLen ∧ keyLen ≤ Pbkdf2.maxKeyLen a := by
  rw [firstFault_eq_none_iff, keyFaults]
  simp only [List.forall_mem_cons, List.not_mem_nil, false_implies, implies_true, and_true,
    faultUnless_eq_none_iff]

/-! ## Hashing with either kind of header -/

namespace Hasher

section

variable {H : Type} [Header H] [LawfulHeader H] {h : Hasher H} {faults : List (Option Error)}
  (hnew : Reports (Header.checkNew h.header) faults) (password : Password) (salt : Bytes)

include hnew

/-- There is no fault if new credentials may have the header, and a key of that length. -/
theorem firstFault_eq_none_iff_admitted :
    firstFault (faults ++ keyFaults (LawfulHeader.algorithm h.header) h.keyLen) = none ↔
      Header.checkNew h.header = .ok () ∧ 1 ≤ h.keyLen ∧
        h.keyLen ≤ Pbkdf2.maxKeyLen (LawfulHeader.algorithm h.header) := by
  rw [firstFault_append, Option.or_eq_none_iff, firstFault_keyFaults_eq_none_iff,
    ← hnew.exists_eq_ok_iff]
  exact and_congr_left' ⟨fun ⟨_, hok⟩ => hok, fun hok => ⟨(), hok⟩⟩

/-- The rules on the header are looked at first, then those on the length of the key. -/
theorem reports_hashWithSalt :
    Reports (h.hashWithSalt password salt).value
      (faults ++ keyFaults (LawfulHeader.algorithm h.header) h.keyLen) := by
  have hbind : (h.hashWithSalt password salt).value = Header.checkNew h.header >>= fun _ =>
      if h.keyLen = 0 then .error .emptyKey
      else (Header.derive h.header password.bytes salt h.keyLen).value.map fun derived =>
        ⟨h.header, salt, derived⟩ := by
    rw [hashWithSalt]
    cases Header.checkNew h.header with
    | error e => rfl
    | ok =>
      by_cases hzero : h.keyLen = 0
      · simp only [if_pos hzero]
        rfl
      · simp only [if_neg hzero]
        rfl
  rw [hbind]
  refine hnew.bind fun _ hok => .check (fun hzero => ?_) fun hpos => .check (fun hlong => ?_)
    fun hlen => ?_
  · rw [if_pos (Nat.lt_one_iff.1 (Nat.lt_of_not_le hzero))]
  · rw [if_neg (Nat.ne_of_gt hpos), LawfulHeader.value_derive _ _ _ hok,
      if_pos (Nat.lt_of_not_le hlong)]
    rfl
  · rw [if_neg (Nat.ne_of_gt hpos), LawfulHeader.value_derive _ _ _ hok,
      if_neg (Nat.not_lt.2 hlen)]
    exact .nil _

/-- Hashing reports the first fault, and makes a credential with the published key where there is
    none. -/
theorem value_hashWithSalt_eq :
    (h.hashWithSalt password salt).value =
      unlessFault (faults ++ keyFaults (LawfulHeader.algorithm h.header) h.keyLen)
        ⟨h.header, salt, LawfulHeader.key h.header password.bytes salt h.keyLen⟩ := by
  refine (reports_hashWithSalt hnew password salt).eq_unlessFault _ fun hnone => ?_
  obtain ⟨hok, hpos, hlen⟩ := (firstFault_eq_none_iff_admitted hnew).1 hnone
  exact value_hashWithSalt password salt hok hpos hlen

/-- What is made is read back from its text as it was: its key is not empty, and its header is one
    that new credentials may have. -/
theorem read_write_of_hashWithSalt {c : Credential H}
    (hmade : (h.hashWithSalt password salt).value = .ok c) : Credential.read c.write = .ok c := by
  rw [value_hashWithSalt_eq hnew, unlessFault_eq_ok_iff,
    firstFault_eq_none_iff_admitted hnew] at hmade
  obtain ⟨⟨hok, hpos, -⟩, rfl⟩ := hmade
  have hne : LawfulHeader.key h.header password.bytes salt h.keyLen ≠ [] :=
    List.ne_nil_of_length_pos (by rwa [LawfulHeader.length_key])
  rw [Credential.read_write hok, if_neg hne]

/-- The outcome for a lawful kind of header. -/
theorem outcome_of_reports :
    Outcome h password salt (faults ++ keyFaults (LawfulHeader.algorithm h.header) h.keyLen)
      (Header.derive h.header password.bytes salt h.keyLen).value
      (LawfulHeader.key h.header password.bytes salt h.keyLen) where
  value_hashWithSalt := value_hashWithSalt_eq hnew password salt
  value_hash drawn hdrawn := by
    rw [hash, Logged.value_bind, hdrawn, value_hashWithSalt_eq hnew, Logged.value_pure,
      map_unlessFault]
  derived_eq hnone := by
    obtain ⟨hok, -, hlen⟩ := (firstFault_eq_none_iff_admitted hnew).1 hnone
    rw [LawfulHeader.value_derive _ _ _ hok, if_neg (Nat.not_lt.2 hlen)]
  length_key := LawfulHeader.length_key ..
  read_write _ hmade := read_write_of_hashWithSalt hnew password salt hmade

/-- A text that is made stands for a credential that is written so. -/
theorem exists_read_of_hash {drawn : Vector UInt8 saltLen} {text : String}
    (hmade : (h.hash password drawn).value = .ok text) :
    ∃ c : Credential H, Credential.read text = .ok c ∧ c.write = text := by
  rw [hash, Logged.value_bind, Logged.value_pure] at hmade
  cases hcredential : (h.hashWithSalt password drawn.toList).value with
  | error e =>
    rw [hcredential] at hmade
    exact nomatch hmade
  | ok c =>
    rw [hcredential] at hmade
    obtain rfl : c.write = text := Except.ok.inj hmade
    exact ⟨c, read_write_of_hashWithSalt hnew password drawn.toList hcredential, rfl⟩

end

section

variable (password : Password)

/-- Every header of the memory-hard kind is admitted. -/
theorem scryptOutcome (h : Hasher ScryptHeader) (salt : Bytes) :
    ScryptOutcome h password salt := by
  have hnew : Reports (Header.checkNew h.header) [] := .nil ()
  rw [ScryptOutcome, ← CompactCost.toNat_n, UInt32.ofNat_toNat]
  exact outcome_of_reports hnew password salt

theorem hmacOutcome (h : Hasher HmacHeader) (salt : Bytes) : HmacOutcome h password salt :=
  outcome_of_reports (HmacHeader.reports_checkIterations h.header.iterations) password salt

/-- Creating a credential is admitting its parameters and hashing with them. -/
theorem createsScrypt (logN r p : UInt8) (keyLen : Nat) (drawn : Vector UInt8 saltLen) :
    CreatesScrypt password logN r p keyLen drawn where
  reports_ofFields := CompactCost.reports_faults logN r p
  refused e he := by rw [createScrypt, he]
  value_eq cost hcost := by
    obtain ⟨rfl, rfl, rfl⟩ := CompactCost.eq_of_ofFields hcost
    rw [createScrypt, hcost]
    exact (scryptOutcome password ⟨.ofCost cost, keyLen⟩ drawn.toList).value_hash drawn rfl
  read_text text hmade := by
    cases hcost : CompactCost.ofFields logN r p with
    | error e =>
      rw [createScrypt, hcost] at hmade
      exact nomatch hmade
    | ok cost =>
      let h : Hasher ScryptHeader := ⟨.ofCost cost, keyLen⟩
      have hnew : Reports (Header.checkNew h.header) [] := .nil ()
      rw [createScrypt, hcost] at hmade
      exact exists_read_of_hash hnew password hmade

theorem createsHmac (iterations : UInt32) (keyLen : Nat) (drawn : Vector UInt8 saltLen) :
    CreatesHmac password iterations keyLen drawn where
  value_eq :=
    (hmacOutcome password ⟨.ofIterations iterations, keyLen⟩ drawn.toList).value_hash drawn rfl
  read_text _ hmade := by
    let h : Hasher HmacHeader := ⟨.ofIterations iterations, keyLen⟩
    have hnew : Reports (Header.checkNew h.header) _ :=
      HmacHeader.reports_checkIterations iterations
    exact exists_read_of_hash hnew password hmade

/-- Whatever is wrong with a hasher is reported in a fixed order, and where nothing is, the
    credential has the published key and is what its text is read as. -/
theorem outcome_hashing :
    (∀ (h : Hasher ScryptHeader) (salt : Bytes), ScryptOutcome h password salt) ∧
      (∀ (h : Hasher HmacHeader) (salt : Bytes), HmacOutcome h password salt) ∧
      (∀ logN r p keyLen drawn, CreatesScrypt password logN r p keyLen drawn) ∧
      ∀ iterations keyLen drawn, CreatesHmac password iterations keyLen drawn :=
  ⟨scryptOutcome password, hmacOutcome password, createsScrypt password, createsHmac password⟩

end

end Hasher

/-- A cost out of range is reported before the missing lane and the empty key. -/
example (drawn : Vector UInt8 saltLen) :
    createScrypt (.ofText "pw") 16 8 0 0 drawn = pure (.error (.cost (.logOutOfRange 16))) := rfl

end KeyStretching
