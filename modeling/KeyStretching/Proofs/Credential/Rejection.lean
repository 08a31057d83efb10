import KeyStretching.Proofs.Credential.Unpacking
import KeyStretching.Proofs.Text.Base64Url.Canonical
import KeyStretching.Proofs.Text.Hex.Digits

/-!
# Why a text is refused

The rules for the written form are listed by `Envelope.faults`; those for the word that the third
field spells come behind them (`Credential.faults`). Each rule is about the text as it stands,
whether or not the rules in front of it are kept. A text that breaks some is refused for the first
that it breaks (`Envelope.reports_read`, `Credential.reports_read`), and so the rules on the size
of buffers are never the reason (`Error.OfReading`).
-/

namespace KeyStretching

namespace Envelope

/-- The count of fields: there is one more than there are delimiters. -/
def fieldCount (text : String) : Nat := text.toList.count delimiter + 1

/-- A field of a text, or nothing where there is none. -/
def field (text : String) (i : Nat) : List Char := (text.toList.splitOn delimiter).getD i []

/-- The word that the third field spells. -/
def word (text : String) : UInt32 := UInt32.ofNat (Hex.number (field text 2))

/-- What is wrong with a field of base64url. -/
def undecodable (field : List Char) : Option Base64Url.DecodeError :=
  match readField field with
  | .error cause => some cause
  | .ok _ => none

/-- What is wrong with a text under a tag, rule by rule. -/
def faults (tag text : String) : List (Option FormatError) :=
  [ faultUnless (fieldCount text = 5) (.fieldCount (fieldCount text)),
    faultUnless (field text 0 = []) .noLeadingDelimiter,
    faultUnless (field text 1 = tag.toList) (.tag (String.ofList (field text 1)) tag),
    faultUnless (Hex.IsWord (field text 2)) (.header (String.ofList (field text 2))),
    (undecodable (field text 3)).map .salt,
    (undecodable (field text 4)).map .derivedKey,
    faultUnless (Base64Url.content (field text 4) ≠ []) .emptyDerivedKey ]

theorem length_splitOn (text : List Char) :
    (text.splitOn delimiter).length = text.count delimiter + 1 := by
  induction text with
  | nil => rfl
  | cons c text ih =>
    rw [List.splitOn_cons_eq_if_modifyHead, List.count_cons]
    split
    · rw [List.length_cons, ih]
    · rw [List.length_modifyHead, ih]

theorem exists_splitOn {text : String} (h : fieldCount text = 5) :
    ∃ lead found header salt derived,
      text.toList.splitOn delimiter = [lead, found, header, salt, derived] := by
  rw [fieldCount, ← length_splitOn] at h
  match text.toList.splitOn delimiter, h with
  | [lead, found, header, salt, derived], _ => exact ⟨lead, found, header, salt, derived, rfl⟩

theorem read_of_fieldCount {tag text : String} (h : fieldCount text ≠ 5) :
    read tag text = .error (.fieldCount (fieldCount text)) := by
  rw [fieldCount, ← length_splitOn] at h ⊢
  unfold read
  split
  · next hfields => exact absurd (congrArg List.length hfields) h
  · rfl

theorem readField_of_undecodable {field : List Char} {cause : Base64Url.DecodeError}
    (h : undecodable field = some cause) : readField field = .error cause := by
  unfold undecodable at h
  split at h
  · next cause' hcause =>
    cases h
    exact hcause
  · exact nomatch h

/-- Nothing is wrong with canonical base64url, and with nothing else. -/
theorem undecodable_eq_none_iff {field : List Char} :
    undecodable field = none ↔ Base64Url.Canonical field := by
  unfold undecodable
  split
  · next cause hcause =>
    refine ⟨nofun, fun h => ?_⟩
    have hbytes : readField field = .ok (Base64Url.content field) :=
      Base64Url.decode_eq_ok_iff_canonical.2 ⟨h, rfl⟩
    exact nomatch hcause.symm.trans hbytes
  · next bytes hbytes =>
    exact ⟨fun _ => (Base64Url.decode_eq_ok_iff_canonical.1 hbytes).1, fun _ => rfl⟩

theorem readField_of_decodable {field : List Char} (h : undecodable field = none) :
    readField field = .ok (Base64Url.content field) :=
  Base64Url.decode_eq_ok_iff_canonical.2 ⟨undecodable_eq_none_iff.1 h, rfl⟩

/-- Reading an envelope reports the first fault of the text. -/
theorem reports_read (tag text : String) : Reports (read tag text) (faults tag text) := by
  refine .check read_of_fieldCount fun hcount => ?_
  obtain ⟨lead, found, header, salt, derived, hsplit⟩ := exists_splitOn hcount
  rw [read, hsplit]
  simp only [field, hsplit, List.getD_cons_zero, List.getD_cons_succ, Hex.read?_eq]
  refine .check (fun hlead => if_pos hlead) fun hlead => ?_
  rw [if_neg (not_not.2 hlead)]
  refine .check (fun hfound => if_pos hfound) fun hfound => ?_
  rw [if_neg (not_not.2 hfound)]
  refine .check (fun hheader => ?_) fun hheader => ?_
  · rw [if_neg hheader]
    rfl
  rw [if_pos hheader]
  refine .cons (fun e he => ?_) fun hsalt => ?_
  · obtain ⟨cause, hcause, rfl⟩ := Option.map_eq_some_iff.1 he
    rw [readField_of_undecodable hcause]
    rfl
  rw [readField_of_decodable (Option.map_eq_none_iff.1 hsalt)]
  refine .cons (fun e he => ?_) fun hderived => ?_
  · obtain ⟨cause, hcause, rfl⟩ := Option.map_eq_some_iff.1 he
    rw [readField_of_undecodable hcause]
    rfl
  rw [readField_of_decodable (Option.map_eq_none_iff.1 hderived)]
  refine .check (fun hnil => if_pos (not_not.1 hnil)) fun hnil => ?_
  change Reports (if _ then _ else _) _
  rw [if_neg hnil]
  exact .nil _

/-- What is read as the header is the word of the text. -/
theorem header_of_read {tag text : String} {e : Envelope} (h : read tag text = .ok e) :
    e.header = word text := by
  obtain ⟨header, salt, derived, hfields, hheader, -⟩ := fields_of_read h
  rw [word, field, hfields]
  exact (Hex.read?_eq_some_iff.1 hheader).2

end Envelope

/-! ## Errors of reading -/

/-- The errors that reading may end in: faults of the format, and the fields of the header that are
    out of range. All of these but the code of an algorithm are zero. -/
inductive Error.OfReading : Error → Prop
  | format (cause : FormatError) : OfReading (.format cause)
  | unsupportedAlgorithm (code : UInt8) : OfReading (.unsupportedAlgorithm code)
  | logZero : OfReading (.cost (.logOutOfRange 0))
  | zeroBlockSize : OfReading (.cost .zeroBlockSize)
  | zeroParallelism : OfReading (.cost .zeroParallelism)
  | iterationCountZero : OfReading (.iterationCount 0)

theorem ScryptHeader.ofReading_of_mem (word : UInt32) :
    ∀ fault ∈ faults word, ∀ e ∈ fault, Error.OfReading e := by
  simp only [faults, List.forall_mem_cons]
  exact ⟨of_mem_faultUnless (.format _), of_mem_faultUnless (.unsupportedAlgorithm _),
    of_mem_faultUnless .logZero, of_mem_faultUnless .zeroBlockSize,
    of_mem_faultUnless .zeroParallelism, fun _ h => absurd h List.not_mem_nil⟩

theorem HmacHeader.ofReading_of_mem (word : UInt32) :
    ∀ fault ∈ faults word, ∀ e ∈ fault, Error.OfReading e := by
  simp only [faults, List.forall_mem_cons]
  exact ⟨of_mem_faultUnless (.format _), of_mem_faultUnless (.unsupportedAlgorithm _),
    of_mem_faultUnless .iterationCountZero, fun _ h => absurd h List.not_mem_nil⟩

namespace Credential

/-- What is wrong with a text under a tag, rule by rule, where `wordFaults` are the rules for its
    word. -/
def faults (tag : String) (wordFaults : UInt32 → List (Option Error)) (text : String) :
    List (Option Error) :=
  (Envelope.faults tag text).map (Option.map .format) ++ wordFaults (Envelope.word text)

variable {wordFaults : UInt32 → List (Option Error)}

/-- The first fault is an error of reading if all faults of words are. -/
theorem ofReading_of_firstFault {tag text : String} {e : Error}
    (hword : ∀ word, ∀ fault ∈ wordFaults word, ∀ e ∈ fault, Error.OfReading e)
    (h : firstFault (faults tag wordFaults text) = some e) : e.OfReading := by
  refine of_firstFault (List.forall_mem_append.2 ⟨?_, hword _⟩) h
  rw [List.forall_mem_map]
  intro fault _ e he
  obtain ⟨cause, -, rfl⟩ := Option.map_eq_some_iff.1 he
  exact .format cause

section

variable {H : Type} [Header H]

/-- Reading a credential is reading an envelope, and then unpacking its header. -/
theorem read_eq_bind (text : String) : (read text : Except Error (Credential H)) =
    (do
      let envelope ← (Envelope.read (Header.tag H) text).mapError .format
      let header ← Header.unpack envelope.header
      pure ⟨header, envelope.salt, envelope.derived⟩) := by
  rw [read]
  cases Envelope.read (Header.tag H) text with
  | error e => rfl
  | ok envelope =>
    change (Header.unpack envelope.header).map _ = Header.unpack envelope.header >>= _
    cases (Header.unpack envelope.header : Except Error H) with
    | error e => rfl
    | ok header => rfl

/-- Reading reports the first fault of a text if unpacking reports that of a word. -/
theorem reports_read (hunpack : ∀ word, Reports (Header.unpack (H := H) word) (wordFaults word))
    (text : String) :
    Reports (read text : Except Error (Credential H))
      (faults (Header.tag H) wordFaults text) := by
  rw [read_eq_bind]
  refine ((Envelope.reports_read _ text).mapError Error.format).bind fun envelope henvelope => ?_
  rw [← Envelope.header_of_read (mapError_eq_ok henvelope)]
  exact (hunpack envelope.header).bind_pure fun header =>
    Credential.mk header envelope.salt envelope.derived

end

/-- A text that is refused is refused for the first rule that it breaks, whichever kind of
    credential it is read as, and no other error comes of reading. -/
theorem reports_firstFault (text : String) :
    Reports (read text : Except Error (Credential ScryptHeader))
        (faults "s0" ScryptHeader.faults text) ∧
      Reports (read text : Except Error (Credential HmacHeader))
        (faults "h0" HmacHeader.faults text) ∧
      ∀ e, (read text : Except Error (Credential ScryptHeader)) = .error e ∨
        (read text : Except Error (Credential HmacHeader)) = .error e → e.OfReading := by
  have hscrypt := reports_read (H := ScryptHeader) ScryptHeader.reports_unpack text
  have hhmac := reports_read (H := HmacHeader) HmacHeader.reports_unpack text
  refine ⟨hscrypt, hhmac, ?_⟩
  rintro e (h | h)
  · exact ofReading_of_firstFault ScryptHeader.ofReading_of_mem ((hscrypt e).1 h)
  · exact ofReading_of_firstFault HmacHeader.ofReading_of_mem ((hhmac e).1 h)

/-- Neither the salt nor the empty key is looked at behind a header that is no word. -/
theorem reports_firstFault_header :
    (read "$h0$zz$!$" : Except Error (Credential HmacHeader)) =
        .error (.format (.header "zz")) ∧
      (Error.format (.header "zz")).OfReading := by
  obtain ⟨-, hhmac, hreading⟩ := reports_firstFault "$h0$zz$!$"
  have hread := (hhmac (.format (.header "zz"))).2 (by decide +kernel)
  exact ⟨hread, hreading _ (.inr hread)⟩

end Credential

end KeyStretching
