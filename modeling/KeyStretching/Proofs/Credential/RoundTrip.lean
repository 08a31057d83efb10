import KeyStretching.Credential.Hasher
import KeyStretching.Proofs.Credential.Checking
import KeyStretching.Proofs.Credential.HmacHeader
import KeyStretching.Proofs.Credential.ScryptHeader

/-!
# Making, storing and checking credentials

* A written memory-hard credential reads back as it was, and checking it is verifying the credential
  itself. An empty key is the exception: it verifies with every password, and its text is refused.
* For every admitted header and every admitted length, hashing a password succeeds, the password
  opens what is written, and a hasher rebuilt from what is read makes the same credential again
  (`Hasher.Makes`, `Hasher.exists_makes`).
-/

namespace KeyStretching

namespace Credential

/-- Reading undoes writing for every memory-hard credential whose key is not empty, so that a check
    of the text is a verification of the credential. An empty key is the key of every password, but
    the text of such a credential is refused. -/
theorem read_write_scryptHeader (c : Credential ScryptHeader) :
    read c.write = (if c.derived = [] then .error (.format .emptyDerivedKey) else .ok c) ∧
      ∀ password,
        (c.derived ≠ [] → check ScryptHeader password c.write = c.verify password) ∧
        (c.derived = [] → (c.verify password).value = .ok true ∧
          check ScryptHeader password c.write = pure (.error (.format .emptyDerivedKey))) := by
  have hnew : Header.checkNew c.header = .ok () := rfl
  refine ⟨read_write hnew, fun password => ⟨fun hne => ?_, fun hnil => ⟨?_, ?_⟩⟩⟩
  · rw [check_write password hnew, if_neg hne]
  · rw [value_verify password hnew, hnil, List.length_nil, if_neg (Nat.not_lt_zero _)]
    have hkey : LawfulHeader.key c.header password.bytes c.salt 0 = [] :=
      List.eq_nil_of_length_eq_zero (LawfulHeader.length_key ..)
    rw [hkey]
    rfl
  · rw [check_write password hnew, if_pos hnil]

/-- A key of two bytes, and none. -/
theorem read_write_scryptHeader_two_and_none :
    (([0x00, 0xff] : Bytes) ≠ [] ∧
      check ScryptHeader (.ofText "pw")
          (write (⟨.standard, [], [0x00, 0xff]⟩ : Credential ScryptHeader)) =
        verify (⟨.standard, [], [0x00, 0xff]⟩ : Credential ScryptHeader) (.ofText "pw")) ∧
    (([] : Bytes) = [] ∧
      (verify (⟨.standard, [0x5a], []⟩ : Credential ScryptHeader) (.ofText "pw")).value =
        .ok true) := by
  have hne : ([0x00, 0xff] : Bytes) ≠ [] := by decide
  obtain ⟨hcheck, -⟩ := (read_write_scryptHeader ⟨.standard, [], [0x00, 0xff]⟩).2 (.ofText "pw")
  obtain ⟨-, hverify⟩ := (read_write_scryptHeader ⟨.standard, [0x5a], []⟩).2 (.ofText "pw")
  exact ⟨⟨hne, hcheck hne⟩, rfl, (hverify rfl).1⟩

end Credential

namespace Hasher

variable {H : Type} [Header H]

/-- The credential `c` is what the hasher makes of the password under the salt, and the password
    opens it. -/
structure Makes (h : Hasher H) (password : Password) (salt : Bytes) (c : Credential H) : Prop where
  value_hashWithSalt : (h.hashWithSalt password salt).value = .ok c
  header_eq : c.header = h.header
  salt_eq : c.salt = salt
  length_derived : c.derived.length = h.keyLen
  value_check : (Credential.check H password c.write).value = .ok true
  value_accepts : (Credential.accepts H password c.write).value = true
  /-- Nothing about it is worth a warning. -/
  eventsAt_accepts : (Credential.accepts H password c.write).eventsAt .warn = []
  /-- A hasher rebuilt from the text makes the same credential again. -/
  rebuilt : ∃ parsed : Credential H, Credential.read c.write = .ok parsed ∧
    (hashWithSalt ⟨parsed.header, parsed.derived.length⟩ password parsed.salt).value = .ok c

variable [LawfulHeader H] {h : Hasher H} (password : Password) (salt : Bytes)

/-- Hashing derives the key of the length asked for. -/
theorem value_hashWithSalt (hnew : Header.checkNew h.header = .ok ()) (hpos : 1 ≤ h.keyLen)
    (hlen : h.keyLen ≤ Pbkdf2.maxKeyLen (LawfulHeader.algorithm h.header)) :
    (h.hashWithSalt password salt).value =
      .ok ⟨h.header, salt, LawfulHeader.key h.header password.bytes salt h.keyLen⟩ := by
  have hkeyLen : h.keyLen ≠ 0 := Nat.ne_of_gt hpos
  rw [hashWithSalt, hnew]
  change (if h.keyLen = 0 then _ else _ : Logged _).value = _
  rw [if_neg hkeyLen, Logged.value_bind, LawfulHeader.value_derive _ _ _ hnew,
    if_neg (Nat.not_lt.2 hlen)]
  rfl

/-- What is made is opened by its password, and made again by a hasher rebuilt from its text. -/
theorem exists_makes (hnew : Header.checkNew h.header = .ok ()) (hpos : 1 ≤ h.keyLen)
    (hlen : h.keyLen ≤ Pbkdf2.maxKeyLen (LawfulHeader.algorithm h.header)) :
    ∃ c, Makes h password salt c := by
  have hmade := value_hashWithSalt password salt hnew hpos hlen
  -- From here on, nothing counts but what the fields of the credential are.
  generalize hc : (⟨h.header, salt, LawfulHeader.key h.header password.bytes salt h.keyLen⟩ :
    Credential H) = c at hmade
  have hheader : c.header = h.header := hc ▸ rfl
  have hsalt : c.salt = salt := hc ▸ rfl
  have hderived : c.derived = LawfulHeader.key h.header password.bytes salt h.keyLen := hc ▸ rfl
  have hlength : c.derived.length = h.keyLen := by rw [hderived, LawfulHeader.length_key]
  have hne : c.derived ≠ [] := List.ne_nil_of_length_pos (hlength ▸ hpos)
  have hnew' : Header.checkNew c.header = .ok () := hheader ▸ hnew
  have hread := Credential.read_write hnew'
  rw [if_neg hne] at hread
  have hlen' : c.derived.length ≤ Pbkdf2.maxKeyLen (LawfulHeader.algorithm c.header) := by
    rwa [hlength, hheader]
  have hcheck : (Credential.check H password c.write).value = .ok true := by
    rw [Credential.value_check_write password hnew' hne hlen', hlength, hheader, hsalt, hderived,
      beq_self_eq_true]
  refine ⟨c, hmade, hheader, hsalt, hlength, hcheck, ?_, ?_, c, hread, ?_⟩
  · rw [Credential.value_accepts, hcheck]
    rfl
  · exact Credential.eventsAt_accepts password _ hcheck
  · rw [hheader, hlength, hsalt]
    exact hmade

/-- For every header that new credentials may have, of either kind, and every length from one byte
    to the maximum, a hasher makes a credential of every password under every salt, and the password
    opens it. -/
theorem exists_makes_admitted (password : Password) (salt : Bytes) :
    (∀ h : Hasher ScryptHeader, 1 ≤ h.keyLen → h.keyLen ≤ Pbkdf2.maxKeyLen h.header.algorithm →
      ∃ c, Makes h password salt c) ∧
    (∀ h : Hasher HmacHeader, 1 ≤ h.header.iterations →
      h.header.iterations ≤ HmacHeader.maxIterations → 1 ≤ h.keyLen →
      h.keyLen ≤ Pbkdf2.maxKeyLen h.header.algorithm → ∃ c, Makes h password salt c) := by
  constructor
  · intro h hpos hlen
    exact exists_makes password salt rfl hpos hlen
  · intro h hone hmax hpos hlen
    have hnew := HmacHeader.checkIterations_eq_ok_iff.2 ⟨hone, hmax⟩
    exact exists_makes password salt hnew hpos hlen

/-- A key of 33 bytes with scrypt under an empty salt, and one of a single byte with as many
    iterations as there is room for. -/
theorem exists_makes_admitted_scrypt_and_hmac :
    (1 ≤ 33 ∧ 33 ≤ Pbkdf2.maxKeyLen .hmacSha256 ∧
      ∃ c, Makes ⟨ScryptHeader.standard, 33⟩ (.ofText "pässword") [] c) ∧
    (1 ≤ HmacHeader.maxIterations ∧ 1 ≤ Pbkdf2.maxKeyLen .hmacSha512 ∧
      ∃ c, Makes (⟨⟨.hmacSha512, HmacHeader.maxIterations⟩, 1⟩ : Hasher HmacHeader)
        (.ofText "pässword") [] c) := by
  obtain ⟨hscrypt, hhmac⟩ := exists_makes_admitted (.ofText "pässword") []
  have hone : 1 ≤ HmacHeader.maxIterations := by decide
  have hmax : HmacHeader.maxIterations ≤ HmacHeader.maxIterations := by decide
  have hlen : 33 ≤ Pbkdf2.maxKeyLen .hmacSha256 := by decide
  have hlen' : 1 ≤ Pbkdf2.maxKeyLen .hmacSha512 := by decide
  exact ⟨⟨by decide, hlen, hscrypt ⟨ScryptHeader.standard, 33⟩ (by decide) hlen⟩, hone, hlen',
    hhmac ⟨⟨.hmacSha512, HmacHeader.maxIterations⟩, 1⟩ hone hmax (by decide) hlen'⟩

end Hasher

end KeyStretching
