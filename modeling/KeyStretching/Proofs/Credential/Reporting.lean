import KeyStretching.Credential.Hasher
import KeyStretching.Proofs.Credential.Rejection
import KeyStretching.Proofs.Credential.Secrecy
import KeyStretching.Proofs.Error

/-!
# Errors in the log

When a credential is refused, the log is told the wording of the error and nothing else. All that an
operation can fail with (`Error.Produced`) is `Reportable`, because tags are only compared with
those of the two kinds of credential, and so the wording tells which error it was.

* `Produced.reportable`: operation by operation;
* `error_eq_of_fields_eq`: credentials that are refused with the same warning have the same fault;
* `injOn_message_produced`: errors of operations in the same words are the same.
-/

namespace KeyStretching

namespace Error

/-- The errors that operations on one kind of credential fail with. -/
inductive ProducedWith (H : Type) [Header H] : Error → Prop
  | read {text : String} {e : Error} :
    (Credential.read text : Except Error (Credential H)) = .error e → ProducedWith H e
  | verify {c : Credential H} {password : Password} {e : Error} :
    (c.verify password).value = .error e → ProducedWith H e
  | check {password : Password} {text : String} {e : Error} :
    (Credential.check H password text).value = .error e → ProducedWith H e
  | hashWithSalt {h : Hasher H} {password : Password} {salt : Bytes} {e : Error} :
    (h.hashWithSalt password salt).value = .error e → ProducedWith H e
  | hash {h : Hasher H} {password : Password} {drawn : Vector UInt8 saltLen} {e : Error} :
    (h.hash password drawn).value = .error e → ProducedWith H e

/-- The errors that operations fail with. -/
inductive Produced : Error → Prop
  | algorithm {code : UInt8} {e : Error} : Algorithm.ofCode code = .error e → Produced e
  | pbkdf2 {a : Algorithm} {password salt : Bytes} {iterations : UInt32} {keyLen : Nat}
      {e : Error} :
    Pbkdf2.derive a password salt iterations keyLen = .error e → Produced e
  | pbkdf2InPlace {a : Algorithm} {password salt : Bytes} {iterations : UInt32}
      {buffer rest : Bytes} {e : Error} :
    (Pbkdf2.fill a password salt iterations).run buffer = .error e rest → Produced e
  | scrypt {a : Algorithm} {password salt : Bytes} {n r p : UInt32} {keyLen : Nat} {e : Error} :
    (Scrypt.derive a password salt n r p keyLen).value = .error e → Produced e
  | scryptCredential {e : Error} : ProducedWith ScryptHeader e → Produced e
  | hmacCredential {e : Error} : ProducedWith HmacHeader e → Produced e
  | createScrypt {password : Password} {logN r p : UInt8} {keyLen : Nat}
      {drawn : Vector UInt8 saltLen} {e : Error} :
    (KeyStretching.createScrypt password logN r p keyLen drawn).value = .error e → Produced e
  | createHmac {password : Password} {iterations : UInt32} {keyLen : Nat}
      {drawn : Vector UInt8 saltLen} {e : Error} :
    (KeyStretching.createHmac password iterations keyLen drawn).value = .error e → Produced e

end Error

/-- All that a computation fails with can be told from its wording. -/
def OnlyReportable {α : Type} (x : Except Error α) : Prop := ∀ e, x = .error e → e.Reportable

namespace OnlyReportable

variable {α β : Type} {x : Except Error α}

theorem ok (a : α) : OnlyReportable (.ok a : Except Error α) := fun _ h => nomatch h

theorem error {e : Error} (he : e.Reportable) : OnlyReportable (.error e : Except Error α) :=
  fun _ h => Except.error.inj h ▸ he

theorem map (h : OnlyReportable x) (f : α → β) : OnlyReportable (x.map f) := by
  cases x with
  | error e => exact .error (h e rfl)
  | ok a => exact .ok (f a)

/-- Rules of which each has a fault that can be told. -/
theorem of_reports {faults : List (Option Error)} (h : Reports x faults)
    (hall : ∀ fault ∈ faults, ∀ e ∈ fault, e.Reportable) : OnlyReportable x :=
  fun e he => of_firstFault hall ((h e).1 he)

end OnlyReportable

/-- A kind of credential that has one of the two tags, and whose operations name no other. -/
class ReportingHeader (H : Type) [Header H] : Prop where
  tag_eq : Header.tag H = "s0" ∨ Header.tag H = "h0"
  unpack (word : UInt32) : OnlyReportable (Header.unpack word : Except Error H)
  checkNew (h : H) : OnlyReportable (Header.checkNew h)
  derive (h : H) (password salt : Bytes) (keyLen : Nat) :
    OnlyReportable (Header.derive h password salt keyLen).value

/-! ## Deriving keys -/

theorem Algorithm.onlyReportable_ofCode (code : UInt8) : OnlyReportable (ofCode code) := by
  rw [ofCode]
  split
  · exact .ok _
  · exact .error trivial

namespace Pbkdf2

theorem onlyReportable_checkBounds (a : Algorithm) (iterations : UInt32) (keyLen : Nat) :
    OnlyReportable (checkBounds a iterations keyLen) := by
  rw [checkBounds]
  split_ifs
  · exact .error trivial
  · exact .error trivial
  · exact .ok ()

theorem onlyReportable_derive (a : Algorithm) (password salt : Bytes) (iterations : UInt32)
    (keyLen : Nat) : OnlyReportable (derive a password salt iterations keyLen) := by
  rw [derive_eq]
  split_ifs
  · exact .error trivial
  · exact .error trivial
  · exact .ok _

/-- A buffer is left as it is for the reasons that a key is not derived for. -/
theorem reportable_of_fill {a : Algorithm} {password salt : Bytes} {iterations : UInt32}
    {buffer rest : Bytes} {e : Error}
    (h : (fill a password salt iterations).run buffer = .error e rest) : e.Reportable := by
  rw [EStateM.run, fill] at h
  cases hbounds : checkBounds a iterations buffer.length with
  | error e' =>
    rw [hbounds] at h
    obtain rfl : e' = e := (EStateM.Result.error.inj h).1
    exact onlyReportable_checkBounds _ _ _ _ hbounds
  | ok =>
    rw [hbounds] at h
    cases h

end Pbkdf2

theorem Scrypt.onlyReportable_derive (a : Algorithm) (password salt : Bytes) (n r p : UInt32)
    (keyLen : Nat) : OnlyReportable (derive a password salt n r p keyLen).value := by
  cases hcost : Cost.ofTriple n r p with
  | error cause =>
    rw [derive, hcost]
    exact .error trivial
  | ok cost =>
    rw [value_derive a password salt hcost]
    split_ifs
    · exact .error trivial
    · exact .ok _

/-! ## Both kinds of credential -/

instance : ReportingHeader ScryptHeader where
  tag_eq := .inl rfl
  unpack word := by
    refine .of_reports (ScryptHeader.reports_unpack word) ?_
    simp only [ScryptHeader.faults, List.forall_mem_cons]
    exact ⟨of_mem_faultUnless trivial, of_mem_faultUnless trivial, of_mem_faultUnless trivial,
      of_mem_faultUnless trivial, of_mem_faultUnless trivial, fun _ h => absurd h List.not_mem_nil⟩
  checkNew _ := .ok ()
  derive h password salt keyLen :=
    Scrypt.onlyReportable_derive h.algorithm password salt h.cost.n h.cost.r.toUInt32
      h.cost.p.toUInt32 keyLen

instance : ReportingHeader HmacHeader where
  tag_eq := .inr rfl
  unpack word := by
    refine .of_reports (HmacHeader.reports_unpack word) ?_
    simp only [HmacHeader.faults, List.forall_mem_cons]
    exact ⟨of_mem_faultUnless trivial, of_mem_faultUnless trivial, of_mem_faultUnless trivial,
      fun _ h => absurd h List.not_mem_nil⟩
  checkNew h := by
    change OnlyReportable (HmacHeader.checkIterations h.iterations)
    rw [HmacHeader.checkIterations]
    split
    · exact .error trivial
    · exact .ok ()
  derive h password salt keyLen :=
    Pbkdf2.onlyReportable_derive h.algorithm password salt h.iterations keyLen

/-- Reading under one of the two tags names no other. -/
theorem Envelope.reportable_of_read {tag text : String} {cause : FormatError}
    (htag : tag = "s0" ∨ tag = "h0") (h : read tag text = .error cause) : cause.Reportable := by
  refine of_firstFault ?_ ((reports_read tag text cause).1 h)
  have hmap {α : Type} {fault : Option α} {f : α → FormatError} (hf : ∀ a, (f a).Reportable) :
      ∀ e ∈ fault.map f, e.Reportable := by
    intro e he
    obtain ⟨a, -, rfl⟩ := Option.map_eq_some_iff.1 he
    exact hf a
  simp only [faults, List.forall_mem_cons]
  exact ⟨of_mem_faultUnless trivial, of_mem_faultUnless trivial, of_mem_faultUnless htag,
    of_mem_faultUnless trivial, hmap fun _ => trivial, hmap fun _ => trivial,
    of_mem_faultUnless trivial, fun _ h => absurd h List.not_mem_nil⟩

section

variable {H : Type} [Header H] [ReportingHeader H]

namespace Credential

theorem onlyReportable_read (text : String) :
    OnlyReportable (read text : Except Error (Credential H)) := by
  rw [read]
  cases hread : Envelope.read (Header.tag H) text with
  | error cause => exact .error (Envelope.reportable_of_read ReportingHeader.tag_eq hread)
  | ok envelope => exact (ReportingHeader.unpack envelope.header).map _

theorem onlyReportable_verify (c : Credential H) (password : Password) :
    OnlyReportable (c.verify password).value :=
  (ReportingHeader.derive c.header password.bytes c.salt c.derived.length).map _

theorem onlyReportable_check (password : Password) (text : String) :
    OnlyReportable (check H password text).value := by
  rw [check]
  cases hread : (read text : Except Error (Credential H)) with
  | error e => exact .error (onlyReportable_read text e hread)
  | ok c => exact onlyReportable_verify c password

end Credential

namespace Hasher

theorem onlyReportable_hashWithSalt (h : Hasher H) (password : Password) (salt : Bytes) :
    OnlyReportable (h.hashWithSalt password salt).value := by
  rw [hashWithSalt]
  cases hnew : Header.checkNew h.header with
  | error e => exact .error (ReportingHeader.checkNew h.header e hnew)
  | ok =>
    by_cases hzero : h.keyLen = 0
    · simp only [if_pos hzero]
      exact .error trivial
    · simp only [if_neg hzero]
      exact (ReportingHeader.derive h.header password.bytes salt h.keyLen).map _

theorem onlyReportable_hash (h : Hasher H) (password : Password) (drawn : Vector UInt8 saltLen) :
    OnlyReportable (h.hash password drawn).value :=
  (h.onlyReportable_hashWithSalt password drawn.toList).map _

end Hasher

theorem Error.ProducedWith.reportable {e : Error} (h : ProducedWith H e) : e.Reportable := by
  cases h with
  | read h => exact Credential.onlyReportable_read _ e h
  | verify h => exact Credential.onlyReportable_verify _ _ e h
  | check h => exact Credential.onlyReportable_check _ _ e h
  | hashWithSalt h => exact Hasher.onlyReportable_hashWithSalt _ _ _ e h
  | hash h => exact Hasher.onlyReportable_hash _ _ _ e h

end

theorem onlyReportable_createScrypt (password : Password) (logN r p : UInt8) (keyLen : Nat)
    (drawn : Vector UInt8 saltLen) :
    OnlyReportable (createScrypt password logN r p keyLen drawn).value := by
  rw [createScrypt]
  cases CompactCost.ofFields logN r p with
  | error e => exact .error trivial
  | ok cost => exact Hasher.onlyReportable_hash _ password drawn

/-! ## Wordings of what is reported -/

namespace Error

/-- Whatever an operation fails with can be told from its wording. -/
theorem Produced.reportable {e : Error} (h : e.Produced) : e.Reportable := by
  cases h with
  | algorithm h => exact Algorithm.onlyReportable_ofCode _ e h
  | pbkdf2 h => exact Pbkdf2.onlyReportable_derive _ _ _ _ _ e h
  | pbkdf2InPlace h => exact Pbkdf2.reportable_of_fill h
  | scrypt h => exact Scrypt.onlyReportable_derive _ _ _ _ _ _ _ e h
  | scryptCredential h | hmacCredential h => exact h.reportable
  | createScrypt h => exact onlyReportable_createScrypt _ _ _ _ _ _ e h
  | createHmac h => exact Hasher.onlyReportable_hash _ _ _ e h

end Error

/-- Texts that are refused with the same warning have the same fault, of whichever kind they should
    be. -/
theorem Credential.error_eq_of_fields_eq {H H' : Type} [Header H] [LawfulHeader H]
    [ReportingHeader H] [Header H'] [LawfulHeader H'] [ReportingHeader H']
    {password password' : Password} {text text' : String} {e e' : Error}
    (h : (check H password text).value = .error e)
    (h' : (check H' password' text').value = .error e')
    (hfields : ((accepts H password text).eventsAt .warn).map Event.fields =
      ((accepts H' password' text').eventsAt .warn).map Event.fields) : e = e' := by
  rw [eventsAt_accepts_of_error password text h, eventsAt_accepts_of_error password' text' h']
    at hfields
  have hmessage : e.message = e'.message := by simpa [Event.fields] using hfields
  exact Error.injOn_message (onlyReportable_check _ _ e h) (onlyReportable_check _ _ e' h') hmessage

namespace Error

/-- No two errors that operations fail with have the same wording: not even if what was found is
    put into it and holds quotation marks or words of its own. -/
theorem injOn_message_produced :
    (∀ e : Error, e.Produced → e.Reportable) ∧ Set.InjOn message {e | e.Reportable} ∧
      Set.InjOn message {e | e.Produced} :=
  ⟨fun _ => Produced.reportable, injOn_message, injOn_message.mono fun _ => Produced.reportable⟩

/-- A tag that is found with the rest of the wording in it, and another tag. -/
theorem injOn_message_produced_quoted :
    (format (.tag "x', expected 'h0" "s0")).Produced ∧ (format (.tag "x" "h0")).Produced ∧
      (format (.tag "x', expected 'h0" "s0")).message ≠ (format (.tag "x" "h0")).message := by
  have hfirst : (Credential.read "$x', expected 'h0$0$A$A" :
      Except Error (Credential ScryptHeader)) =
      .error (format (.tag "x', expected 'h0" "s0")) := rfl
  have hsecond : (Credential.read "$x$0$A$A" :
      Except Error (Credential HmacHeader)) = .error (format (.tag "x" "h0")) := rfl
  have hscrypt : (format (.tag "x', expected 'h0" "s0")).Produced :=
    .scryptCredential (.read hfirst)
  have hhmac : (format (.tag "x" "h0")).Produced := .hmacCredential (.read hsecond)
  obtain ⟨-, -, hinj⟩ := injOn_message_produced
  exact ⟨hscrypt, hhmac, fun h => absurd (hinj hscrypt hhmac h) (by decide)⟩

end Error

end KeyStretching
