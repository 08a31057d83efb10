import KeyStretching.Proofs.Credential.Rejection
import KeyStretching.Proofs.Text.Hex.Conversion

/-!
# The field of the header

The word of a header stands in the third field of a credential. It is read from the bytes of that
field: they are tested, and those that pass are converted (`readHeader`). If either fails, the text
of the field is reported as it stands.

* `readHeader_eq`: what passes the test is converted to the number that it spells, without fail;
* `read_eq_bind_readHeader`: so the third field is read when an envelope is;
* `readHeader_field_write`: from the field that is written for a word, the word comes back;
* `readsDigits`: which texts are accepted, what is reported of the others, and which of them hold
  the same word.
-/

namespace KeyStretching.Envelope

/-- Reads the word that a text holds from the bytes that encode the text. -/
def readHeader (text : String) : Except FormatError UInt32 :=
  if Hex.Wellformed (Bytes.ofChars text.toList) then
    (Hex.convert (Bytes.ofChars text.toList)).mapError fun _ => .header text
  else .error (.header text)

/-- Reads the fields behind a header. -/
def readBehind (salt derived : List Char) (header : UInt32) : Except FormatError Envelope := do
  let salt ← (readField salt).mapError .salt
  let derived ← (readField derived).mapError .derivedKey
  if derived = [] then
    throw .emptyDerivedKey
  pure ⟨header, salt, derived⟩

/-- What there is to say about reading a word from a text. -/
structure ReadsDigits (text : String) : Prop where
  /-- One to eight digits are accepted, for the number that they spell. -/
  eq_ok_iff (word : UInt32) : readHeader text = .ok word ↔
    Hex.IsWord text.toList ∧ word.toNat = Hex.number text.toList
  /-- Any other text is reported as it stands. -/
  eq_error_iff (e : FormatError) : readHeader text = .error e ↔
    ¬Hex.IsWord text.toList ∧ e = .header text
  /-- Where the bytes pass the test, their number has a word, and so their conversion does not
      fail. -/
  convert_eq_ok : Hex.Wellformed (Bytes.ofChars text.toList) →
    Hex.number text.toList < 2 ^ 32 ∧
      Hex.convert (Bytes.ofChars text.toList) = .ok (UInt32.ofNat (Hex.number text.toList))
  /-- The test is no stricter than it must be: what the conversion alone would accept besides has a
      sign or more than eight digits. -/
  isWord_iff_exists_convert : Hex.IsWord text.toList ↔
    text.toList.length ≤ 8 ∧ text.toList.head? ≠ some '+' ∧
      ∃ word, Hex.convert (Bytes.ofChars text.toList) = .ok word
  /-- Two texts hold the same word if they differ in case and leading zeros alone. -/
  word_eq_iff (text' : String) (word word' : UInt32) : readHeader text = .ok word →
    readHeader text' = .ok word' → (word = word' ↔ Hex.strip text.toList = Hex.strip text'.toList)
  /-- The digits of the text are read alike, character by character. -/
  toOption_eq : (readHeader text).toOption = Hex.read? text.toList
  /-- So is the text where it is the third field of a credential. -/
  read_eq (tag credential : String) (salt derived : List Char) :
    credential.toList.splitOn delimiter = [[], tag.toList, text.toList, salt, derived] →
      read tag credential = readHeader text >>= readBehind salt derived

/-! ## Reading -/

/-- What passes the test is converted to the number that it spells; all else is reported. -/
theorem readHeader_eq (text : String) :
    readHeader text = if Hex.IsWord text.toList then .ok (UInt32.ofNat (Hex.number text.toList))
      else .error (.header text) := by
  by_cases h : Hex.IsWord text.toList
  · rw [readHeader, if_pos (Hex.wellformed_ofChars_iff.2 h), if_pos h, Hex.convert_of_isWord h]
    rfl
  · rw [readHeader, if_neg (mt Hex.wellformed_ofChars_iff.1 h), if_neg h]

variable {text : String}

theorem readHeader_eq_ok_iff {word : UInt32} :
    readHeader text = .ok word ↔ Hex.IsWord text.toList ∧ word.toNat = Hex.number text.toList := by
  rw [readHeader_eq]
  by_cases h : Hex.IsWord text.toList
  · rw [if_pos h, Except.ok.injEq, ← UInt32.toNat_inj,
      UInt32.toNat_ofNat_of_lt' (Hex.number_lt h), and_iff_right h]
    exact eq_comm
  · rw [if_neg h]
    exact ⟨nofun, fun hword => absurd hword.1 h⟩

theorem readHeader_eq_error_iff {e : FormatError} :
    readHeader text = .error e ↔ ¬Hex.IsWord text.toList ∧ e = .header text := by
  rw [readHeader_eq]
  by_cases h : Hex.IsWord text.toList
  · rw [if_pos h]
    exact ⟨nofun, fun he => absurd h he.1⟩
  · rw [if_neg h, Except.error.injEq, and_iff_right h]
    exact eq_comm

/-- The bytes of a text hold the word that its characters hold. -/
theorem toOption_readHeader : (readHeader text).toOption = Hex.read? text.toList := by
  rw [readHeader_eq, Hex.read?_eq]
  split
  · rfl
  · rfl

/-- In a credential with its fields in their places, the word is read from the third of them. -/
theorem read_eq_bind_readHeader {tag credential : String} {salt derived : List Char}
    (h : credential.toList.splitOn delimiter = [[], tag.toList, text.toList, salt, derived]) :
    read tag credential = readHeader text >>= readBehind salt derived := by
  rw [read, h, readHeader_eq]
  simp only [ne_eq, not_true_eq_false, if_false, Hex.read?_eq]
  by_cases hword : Hex.IsWord text.toList
  · rw [if_pos hword, if_pos hword]
    rfl
  · rw [if_neg hword, if_neg hword, String.ofList_toList]
    rfl

/-! ## Writing -/

theorem readHeader_write (word : UInt32) :
    readHeader (String.ofList (Hex.write word)) = .ok word := by
  obtain ⟨hword, hnumber⟩ := Hex.read?_eq_some_iff.1 (Hex.read?_write word)
  rw [readHeader_eq, String.toList_ofList, if_pos hword, ← hnumber]

/-- The word of an envelope comes back from the field that is written for it. -/
theorem readHeader_field_write {tag : String} (htag : delimiter ∉ tag.toList) (e : Envelope) :
    readHeader (String.ofList (field (write tag e) 2)) = .ok e.header := by
  rw [field, splitOn_write htag]
  exact readHeader_write e.header

/-! ## Spellings -/

theorem word_eq_iff {text' : String} {word word' : UInt32} (h : readHeader text = .ok word)
    (h' : readHeader text' = .ok word') :
    word = word' ↔ Hex.strip text.toList = Hex.strip text'.toList := by
  obtain ⟨htext, hnumber⟩ := readHeader_eq_ok_iff.1 h
  obtain ⟨htext', hnumber'⟩ := readHeader_eq_ok_iff.1 h'
  rw [← UInt32.toNat_inj, hnumber, hnumber', Hex.number_eq_iff htext.digits htext'.digits]

/-- Words are read from one to eight digits and from nothing else, and come back from the digits
    that are written for them. -/
theorem readsDigits (text : String) (word : UInt32) :
    ReadsDigits text ∧ readHeader (String.ofList (Hex.write word)) = .ok word ∧
      ∀ tag salt derived, delimiter ∉ tag.toList →
        readHeader (String.ofList (field (write tag ⟨word, salt, derived⟩) 2)) = .ok word := by
  have hreads : ReadsDigits text :=
    { eq_ok_iff := fun _ => readHeader_eq_ok_iff
      eq_error_iff := fun _ => readHeader_eq_error_iff
      convert_eq_ok := fun hpassed => by
        have hword := Hex.wellformed_ofChars_iff.1 hpassed
        exact ⟨Hex.number_lt hword, Hex.convert_of_isWord hword⟩
      isWord_iff_exists_convert := Hex.isWord_iff_exists_convert
      word_eq_iff := fun _ _ _ => word_eq_iff
      toOption_eq := toOption_readHeader
      read_eq := fun _ _ _ _ => read_eq_bind_readHeader }
  exact ⟨hreads, readHeader_write word, fun _ _ _ htag => readHeader_field_write htag _⟩

/-- Eight digits with zeros in front and one of them in upper case hold the same word as the five
    that are written for it. Behind a sign, these are refused. -/
theorem readsDigits_mixed_case :
    Hex.IsWord "000E0801".toList ∧ Hex.number "000E0801".toList = 0xe0801 ∧
      readHeader "000E0801" = .ok 0xe0801 ∧
      Hex.convert (Bytes.ofChars "000E0801".toList) = .ok 0xe0801 ∧
      readHeader (String.ofList (Hex.write 0xe0801)) = .ok 0xe0801 ∧
      Hex.strip "000E0801".toList = Hex.strip (Hex.write 0xe0801) ∧
      read "s0" "$s0$000E0801$$_w" = .ok ⟨0xe0801, [], [0xff]⟩ ∧
      readHeader (String.ofList (field (write "s0" ⟨0xe0801, [], [0xff]⟩) 2)) = .ok 0xe0801 ∧
      readHeader "+e0801" = .error (.header "+e0801") := by
  have hword : Hex.IsWord "000E0801".toList := by decide +kernel
  have hnumber : Hex.number "000E0801".toList = 0xe0801 := by decide +kernel
  obtain ⟨hreads, hwrite, hfield⟩ := readsDigits "000E0801" 0xe0801
  have hread : readHeader "000E0801" = .ok 0xe0801 := (hreads.eq_ok_iff _).2 ⟨hword, hnumber.symm⟩
  obtain ⟨-, hconvert⟩ := hreads.convert_eq_ok (by decide +kernel)
  rw [hnumber] at hconvert
  have hstrip := (hreads.word_eq_iff _ _ _ hread hwrite).1 rfl
  rw [String.toList_ofList] at hstrip
  have hcredential := hreads.read_eq "s0" "$s0$000E0801$$_w" [] "_w".toList (by decide +kernel)
  rw [hread] at hcredential
  have hsigned := ((readsDigits "+e0801" 0).1.eq_error_iff _).2 ⟨by decide +kernel, rfl⟩
  exact ⟨hword, hnumber, hread, hconvert, hwrite, hstrip,
    hcredential.trans (by decide +kernel), hfield "s0" _ _ (by decide), hsigned⟩

end KeyStretching.Envelope
