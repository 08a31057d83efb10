import KeyStretching.Proofs.Credential.Envelope
import KeyStretching.Proofs.Credential.Header

/-!
# Reading and checking credentials

For every kind of credential whose headers obey the laws:

* `read_write`: a written credential reads back as it was, unless its key is empty;
* `check_write`: checking it is then verifying the credential itself;
* `value_verify`: a password verifies a credential whose key is the one it derives at that length;
* `eventsAt_accepts`: a check that does not fail gives no cause for a warning.
-/

namespace KeyStretching.Credential

variable {H : Type} [Header H]

/-- A credential that was read stands in an envelope, from which its header was unpacked. -/
theorem exists_envelope_of_read {text : String} {c : Credential H} (h : read text = .ok c) :
    ∃ envelope, Envelope.read (Header.tag H) text = .ok envelope ∧
      Header.unpack envelope.header = .ok c.header ∧ c.salt = envelope.salt ∧
      c.derived = envelope.derived := by
  unfold read at h
  split at h
  · exact nomatch h
  · next envelope henvelope =>
    obtain ⟨header, hheader, rfl⟩ := map_eq_ok h
    exact ⟨envelope, henvelope, hheader, rfl, rfl⟩

/-- The key of a credential that was read is not empty. -/
theorem derived_ne_nil_of_read {text : String} {c : Credential H} (h : read text = .ok c) :
    c.derived ≠ [] := by
  obtain ⟨envelope, henvelope, -, -, hderived⟩ := exists_envelope_of_read h
  obtain ⟨-, -, -, -, -, -, -, hne⟩ := Envelope.fields_of_read henvelope
  rwa [hderived]

/-- A text whose last field is empty is not a credential. -/
theorem read_ne_ok_of_empty_field {text : String} {lead found header salt : List Char}
    (h : text.toList.splitOn Envelope.delimiter = [lead, found, header, salt, []])
    (c : Credential H) : read text ≠ .ok c := by
  intro hread
  obtain ⟨envelope, henvelope, -⟩ := exists_envelope_of_read hread
  -- The last field of the text is the one that the key was read from.
  obtain ⟨_, _, derived, hfields, -, -, hderived, hne⟩ := Envelope.fields_of_read henvelope
  rw [h] at hfields
  obtain rfl : [] = derived := by simp_all
  have hempty : Envelope.readField [] = .ok [] := rfl
  rw [hempty] at hderived
  exact hne (Except.ok.inj hderived).symm

variable (password : Password) {text : String}

/-- A text for which the check does not fail reads as a credential with a key that is not empty. -/
theorem exists_read_of_check {valid : Bool} (h : (check H password text).value = .ok valid) :
    ∃ c : Credential H, read text = .ok c ∧ c.derived ≠ [] := by
  cases hread : (read text : Except Error (Credential H)) with
  | error e =>
    rw [check, hread] at h
    exact nomatch h
  | ok c => exact ⟨c, rfl, derived_ne_nil_of_read hread⟩

/-! ## Reports -/

variable (text)

/-- Whether a password opens a text is what the check yields; a check that fails yields that it
    does not. -/
theorem value_accepts :
    (accepts H password text).value = (check H password text).value.toOption.getD false := by
  rw [accepts, Logged.value_bind]
  cases (check H password text).value <;> rfl

/-- No password opens a text whose last field is empty. -/
theorem value_accepts_of_empty_field {lead found header salt : List Char}
    (h : text.toList.splitOn Envelope.delimiter = [lead, found, header, salt, []]) :
    (accepts H password text).value = false := by
  rw [value_accepts]
  cases hcheck : (check H password text).value with
  | error e => rfl
  | ok valid =>
    obtain ⟨c, hread, -⟩ := exists_read_of_check password hcheck
    exact absurd hread (read_ne_ok_of_empty_field h c)

/-- A check that does not fail adds no event to those of the derivation. -/
theorem events_accepts {valid : Bool} (h : (check H password text).value = .ok valid) :
    (accepts H password text).events = (check H password text).events := by
  rw [accepts, Logged.events_bind, h]
  exact List.append_nil _

variable [LawfulHeader H]

theorem level_verify (c : Credential H) :
    ∀ event ∈ (c.verify password).events, event.level ≠ .warn := by
  rw [verify, Logged.events_bind, Logged.events_pure, List.append_nil]
  exact LawfulHeader.level_derive _ _ _ _

theorem level_check : ∀ event ∈ (check H password text).events, event.level ≠ .warn := by
  unfold check
  split
  · exact fun _ h => absurd h List.not_mem_nil
  · exact level_verify password _

/-- A check gives no warning itself. -/
theorem eventsAt_check : (check H password text).eventsAt .warn = [] := by
  rw [Logged.eventsAt, List.filter_eq_nil_iff]
  intro event hevent
  simpa using level_check password text event hevent

/-- A check that does not fail gives no cause for a warning. -/
theorem eventsAt_accepts {valid : Bool} (h : (check H password text).value = .ok valid) :
    (accepts H password text).eventsAt .warn = [] := by
  rw [Logged.eventsAt, events_accepts password text h]
  exact eventsAt_check password text

/-! ## Writing and reading -/

/-- What a written credential reads back as depends on its key, and on what its header unpacks
    to. -/
theorem read_write_eq (c : Credential H) :
    (read c.write : Except Error (Credential H)) =
      if c.derived = [] then .error (.format .emptyDerivedKey)
      else (Header.unpack c.packed).map fun header => ⟨header, c.salt, c.derived⟩ := by
  rw [read, write, Envelope.read_write LawfulHeader.delimiter_notMem_tag]
  by_cases h : c.derived = []
  · rw [if_pos h, if_pos h]
  · rw [if_neg h, if_neg h]

variable {c : Credential H} (hnew : Header.checkNew c.header = .ok ())

include hnew

/-- A written credential reads back as it was, unless its key is empty. -/
theorem read_write :
    read c.write = if c.derived = [] then .error (.format .emptyDerivedKey) else .ok c := by
  rw [read_write_eq, packed, LawfulHeader.unpack_pack hnew]
  rfl

/-- Checking a written credential is verifying it, unless its key is empty. -/
theorem check_write :
    check H password c.write =
      if c.derived = [] then pure (.error (.format .emptyDerivedKey)) else c.verify password := by
  rw [check, read_write hnew]
  by_cases h : c.derived = []
  · rw [if_pos h, if_pos h]
  · rw [if_neg h, if_neg h]

/-- A password verifies a credential if it derives its key at the length of the key, which must not
    be too long. -/
theorem value_verify :
    (c.verify password).value =
      if Pbkdf2.maxKeyLen (LawfulHeader.algorithm c.header) < c.derived.length then
        .error (.keyTooLong c.derived.length (Pbkdf2.maxKeyLen (LawfulHeader.algorithm c.header)))
      else .ok (LawfulHeader.key c.header password.bytes c.salt c.derived.length == c.derived) := by
  rw [verify, Logged.value_bind, LawfulHeader.value_derive _ _ _ hnew, Logged.value_pure]
  by_cases h : Pbkdf2.maxKeyLen (LawfulHeader.algorithm c.header) < c.derived.length
  · rw [if_pos h, if_pos h]
    rfl
  · rw [if_neg h, if_neg h]
    rfl

/-- A password opens a written credential if it derives its key, which must be neither empty nor
    too long. -/
theorem value_check_write (hne : c.derived ≠ [])
    (hlen : c.derived.length ≤ Pbkdf2.maxKeyLen (LawfulHeader.algorithm c.header)) :
    (check H password c.write).value =
      .ok (LawfulHeader.key c.header password.bytes c.salt c.derived.length == c.derived) := by
  rw [check_write password hnew, if_neg hne, value_verify password hnew,
    if_neg (Nat.not_lt.2 hlen)]

end KeyStretching.Credential
