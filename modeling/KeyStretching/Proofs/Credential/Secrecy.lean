import KeyStretching.Proofs.Credential.Failing

/-!
# What a check gives away

Of the password, a check gives away whether it opens the credential, and nothing else. The error it
fails with depends on the text alone, even if it is found only after the password was put to use;
keys are derived with the same reports for all passwords (`DiscreetHeader`); and the only warning is
that of a failure.

* `events_accepts_congr`: the log is the same for all passwords;
* `eventsAt_accepts_of_error`: a check that fails is the cause of one warning, which carries the
  error;
* `value_accepts_eq_true_iff`: what cannot be checked is opened by no password;
* `discreet`: all of this for every text and both kinds of credential (`Discreet`).
-/

namespace KeyStretching

/-- A kind of credential whose keys are derived with the same reports for all passwords. -/
class DiscreetHeader (H : Type) [Header H] : Prop where
  events_derive (h : H) (password password' salt : Bytes) (keyLen : Nat) :
    (Header.derive h password salt keyLen).events = (Header.derive h password' salt keyLen).events

instance : DiscreetHeader ScryptHeader where
  events_derive h password password' salt keyLen := by
    obtain ⟨cost, hcost⟩ := h.cost.exists_cost
    have hevents (password : Bytes) :=
      Scrypt.events_derive h.algorithm password salt hcost keyLen
    exact (hevents password).trans (hevents password').symm

instance : DiscreetHeader HmacHeader where
  events_derive h password password' salt keyLen := by
    have hevents (password : Bytes) : (Header.derive h password salt keyLen).events = [] :=
      Logged.events_pure (Pbkdf2.derive h.algorithm password salt h.iterations keyLen)
    rw [hevents, hevents]

namespace Credential

variable {H : Type} [Header H]

/-! ## The log -/

section

variable (password password' : Password) (text : String)

/-- The log of a check is the same for all passwords. -/
theorem events_check [DiscreetHeader H] :
    (check H password text).events = (check H password' text).events := by
  rw [check, check]
  cases (read text : Except Error (Credential H)) with
  | error e => rfl
  | ok c =>
    change (c.verify password).events = (c.verify password').events
    rw [verify, verify, Logged.events_bind, Logged.events_bind, Logged.events_pure,
      Logged.events_pure, DiscreetHeader.events_derive c.header password.bytes password'.bytes]

/-- A check that fails adds a warning to the events of the derivation. -/
theorem events_accepts_of_error {e : Error} (h : (check H password text).value = .error e) :
    (accepts H password text).events =
      (check H password text).events ++ [.rejecting (Header.kind H) e] := by
  rw [accepts, Logged.events_bind, h]
  rfl

/-- A check that fails is the cause of one warning. -/
theorem eventsAt_accepts_of_error [LawfulHeader H] {e : Error}
    (h : (check H password text).value = .error e) :
    (accepts H password text).eventsAt .warn = [.rejecting (Header.kind H) e] := by
  have hcheck := eventsAt_check (H := H) password text
  rw [Logged.eventsAt] at hcheck
  rw [Logged.eventsAt, events_accepts_of_error password text h, List.filter_append, hcheck]
  rfl

/-- What cannot be checked is opened by no password. -/
theorem value_accepts_eq_true_iff :
    (accepts H password text).value = true ↔ (check H password text).value = .ok true := by
  rw [value_accepts]
  cases (check H password text).value with
  | error e => exact ⟨nofun, nofun⟩
  | ok valid => exact (Except.ok.injEq valid true).to_iff.symm

end

/-! ## Two passwords -/

variable (H) in
/-- A check of the text tells passwords apart by whether they open it, and by nothing else. -/
structure Discreet (text : String) : Prop where
  /-- The error is the same for all passwords. -/
  error_iff (password password' : Password) (e : Error) :
    (check H password text).value = .error e ↔ (check H password' text).value = .error e
  /-- The log is the same for all passwords. -/
  events_eq (password password' : Password) :
    (accepts H password text).events = (accepts H password' text).events
  warnings_eq (password password' : Password) :
    (accepts H password text).eventsAt .warn = (accepts H password' text).eventsAt .warn
  /-- No password is worth a warning, whether it opens the text or not. -/
  warnings_of_ok (password : Password) (valid : Bool) :
    (check H password text).value = .ok valid → (accepts H password text).eventsAt .warn = []
  /-- An error is worth one warning, which carries its wording. -/
  warnings_of_error (password : Password) (e : Error) :
    (check H password text).value = .error e →
      ∃ warning : Event, (accepts H password text).eventsAt .warn = [warning] ∧
        warning.level = .warn ∧ warning.fields = [("error", e.message)]
  /-- The text is opened if the check says so, and not otherwise. -/
  accepts_iff (password : Password) :
    (accepts H password text).value = true ↔ (check H password text).value = .ok true

section

variable [LawfulHeader H] [ExactHeader H] (password password' : Password) (text : String)

/-- A check fails with the same error for all passwords. -/
theorem value_check_eq_error_congr {e : Error} :
    (check H password text).value = .error e ↔ (check H password' text).value = .error e := by
  rw [value_check_eq_error_iff, value_check_eq_error_iff]

/-- The log is the same for all passwords, down to the warning. -/
theorem events_accepts_congr [DiscreetHeader H] :
    (accepts H password text).events = (accepts H password' text).events := by
  cases hcheck : (check H password text).value with
  | error e =>
    have hcheck' := (value_check_eq_error_congr password password' text).1 hcheck
    rw [events_accepts_of_error password text hcheck, events_check password password',
      events_accepts_of_error password' text hcheck']
  | ok valid =>
    -- The other check does not fail either, or else this one would.
    cases hcheck' : (check H password' text).value with
    | error e =>
      have hfail := (value_check_eq_error_congr password password' text).2 hcheck'
      exact nomatch hcheck.symm.trans hfail
    | ok valid' =>
      rw [events_accepts password text hcheck, events_check password password',
        events_accepts password' text hcheck']

end

/-- A check gives no password away if its key is derived with the same reports for all. -/
theorem discreet_of_header [LawfulHeader H] [ExactHeader H] [DiscreetHeader H] (text : String) :
    Discreet H text where
  error_iff password password' _ := value_check_eq_error_congr password password' text
  events_eq password password' := events_accepts_congr password password' text
  warnings_eq password password' := by
    rw [Logged.eventsAt, Logged.eventsAt, events_accepts_congr password password']
  warnings_of_ok password _ := eventsAt_accepts password text
  warnings_of_error password _ h := ⟨_, eventsAt_accepts_of_error password text h, rfl, rfl⟩
  accepts_iff password := value_accepts_eq_true_iff password text

/-- Whatever the text, checking it gives nothing away but whether the password opens it, for both
    kinds of credential. -/
theorem discreet (text : String) : Discreet ScryptHeader text ∧ Discreet HmacHeader text :=
  ⟨discreet_of_header text, discreet_of_header text⟩

end Credential

end KeyStretching
