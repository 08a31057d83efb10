import KeyStretching.Proofs.Text.Hex.Digits
import Mathlib.Tactic.Ring

/-!
# Converting hexadecimal digits

A number is usually converted from the bytes of its text: each digit is put behind those in front of
it, for as long as the word has room (`shiftIn`). Such a conversion takes more than the one to eight
digits of a word, as a plus sign and any count of zeros may stand in front of them (`convert`). What
is to be a word is therefore tested before it is converted (`Wellformed`).

* `foldlM_shiftIn_eq_ok_iff`: a run over digits ends in the number that they spell, and comes to its
  end if that fits into the word;
* `convert_ofChars_eq_ok_iff`: which texts the conversion accepts;
* `wellformed_ofChars_iff`: the test of the bytes is passed by the words, whatever characters a text
  is made of;
* `isWord_iff_exists_convert`: against the conversion alone, the test keeps out signs and texts of
  more than eight digits, and nothing else; so no text that passes it fails to convert.
-/

namespace KeyStretching.Hex

/-- Why a conversion fails. -/
inductive ConversionError where
  /-- There is nothing to convert. -/
  | empty
  /-- A byte is that of no digit. -/
  | invalidDigit
  /-- The number has no word. -/
  | overflow
  deriving DecidableEq, Repr

/-- The byte of a plus sign. -/
def plus : UInt8 := '+'.toUInt8

/-- Puts a digit behind those of a word. -/
def shiftIn (word : UInt32) (b : UInt8) : Except ConversionError UInt32 :=
  match digit? (Char.ofUInt8 b) with
  | none => .error .invalidDigit
  | some d =>
    if 16 * word.toNat + d < 2 ^ 32 then .ok (UInt32.ofNat (16 * word.toNat + d))
    else .error .overflow

/-- What stands behind a plus sign, or all where there is none. -/
def unsigned (bytes : Bytes) : Bytes := if bytes.head? = some plus then bytes.tail else bytes

/-- Converts the bytes of a text into a word. -/
def convert (bytes : Bytes) : Except ConversionError UInt32 :=
  if bytes = [] then .error .empty
  else if unsigned bytes = [] then .error .invalidDigit
  else (unsigned bytes).foldlM shiftIn 0

/-- The test of the bytes of a text that is to be a word. -/
def Wellformed (bytes : Bytes) : Prop :=
  bytes ≠ [] ∧ bytes.length ≤ 8 ∧ bytes.all fun b => IsDigit (Char.ofUInt8 b)

instance : DecidablePred Wellformed := fun _ => inferInstanceAs (Decidable (_ ∧ _ ∧ _))

/-! ## Digit by digit -/

section

variable {word word' : UInt32}

/-- A digit is put behind a word if the number that both spell has a word. -/
theorem shiftIn_eq_ok_iff {b : UInt8} :
    shiftIn word b = .ok word' ↔ IsDigit (Char.ofUInt8 b) ∧
      word'.toNat = 16 * word.toNat + value (Char.ofUInt8 b) := by
  by_cases hb : IsDigit (Char.ofUInt8 b)
  · rw [shiftIn, digit?_of_isDigit hb]
    by_cases hlt : 16 * word.toNat + value (Char.ofUInt8 b) < 2 ^ 32
    · simp only [if_pos hlt, Except.ok.injEq, ← UInt32.toNat_inj, UInt32.toNat_ofNat_of_lt' hlt]
      exact ⟨fun h => ⟨hb, h.symm⟩, fun h => h.2.symm⟩
    · simp only [if_neg hlt]
      exact ⟨nofun, fun h => absurd (h.2 ▸ word'.toNat_lt) hlt⟩
  · rw [shiftIn, digit?_of_not_isDigit hb]
    exact ⟨nofun, fun h => absurd h.1 hb⟩

/-- A run puts all digits behind a word, if the number of them all has a word. -/
theorem foldlM_shiftIn_eq_ok_iff {bytes : Bytes} :
    bytes.foldlM shiftIn word = .ok word' ↔ (∀ b ∈ bytes, IsDigit (Char.ofUInt8 b)) ∧
      word'.toNat = 16 ^ bytes.length * word.toNat + number (bytes.map Char.ofUInt8) := by
  induction bytes generalizing word with
  | nil =>
    have hnone : 16 ^ ([] : Bytes).length * word.toNat + number (([] : Bytes).map Char.ofUInt8) =
        word.toNat := Nat.one_mul _
    rw [hnone, List.foldlM_nil, UInt32.toNat_inj]
    exact ⟨fun h => ⟨nofun, (Except.ok.inj h).symm⟩, fun h => congrArg Except.ok h.2.symm⟩
  | cons b bytes ih =>
    -- The first digit stands as far above the others as the digits of the word do.
    have hsplit : 16 ^ (b :: bytes).length * word.toNat + number ((b :: bytes).map Char.ofUInt8) =
        16 ^ bytes.length * (16 * word.toNat + value (Char.ofUInt8 b)) +
          number (bytes.map Char.ofUInt8) := by
      rw [List.length_cons, List.map_cons, number_cons, List.length_map]
      ring
    rw [hsplit, List.forall_mem_cons, List.foldlM_cons]
    cases hstep : shiftIn word b with
    | ok next =>
      obtain ⟨hb, hnext⟩ := shiftIn_eq_ok_iff.1 hstep
      rw [← hnext]
      change bytes.foldlM shiftIn next = .ok word' ↔ _
      rw [ih, and_iff_right hb]
    | error e =>
      refine ⟨nofun, fun ⟨⟨hb, _⟩, hvalue⟩ => ?_⟩
      -- The number so far is not larger than that of all digits, which has a word.
      have hle : 16 * word.toNat + value (Char.ofUInt8 b) ≤ word'.toNat := by
        rw [hvalue]
        exact Nat.le_add_right_of_le (Nat.le_mul_of_pos_left _ (Nat.pow_pos (by decide)))
      have hlt := hle.trans_lt word'.toNat_lt
      rw [shiftIn_eq_ok_iff.2 ⟨hb, UInt32.toNat_ofNat_of_lt' hlt⟩] at hstep
      exact nomatch hstep

end

/-! ## Signs -/

theorem eq_unsigned_or (bytes : Bytes) :
    bytes = unsigned bytes ∨ bytes = plus :: unsigned bytes := by
  unfold unsigned
  split
  · next hhead => exact .inr (List.eq_cons_of_mem_head? hhead)
  · exact .inl rfl

/-- No digit is a sign. -/
theorem unsigned_ofChars {digits : List Char} (h : ∀ c ∈ digits, IsDigit c) :
    unsigned (Bytes.ofChars digits) = Bytes.ofChars digits := by
  refine if_neg fun hhead => ?_
  have hplus := (Ascii.forall_ofChars_iff fun _ => lt_of_isDigit).2 h plus (List.mem_of_head? hhead)
  exact absurd hplus (by decide)

/-- A conversion comes to its end if there are digits behind the sign, and a word for them. -/
theorem convert_eq_ok_iff {bytes : Bytes} {word : UInt32} :
    convert bytes = .ok word ↔ unsigned bytes ≠ [] ∧
      (∀ b ∈ unsigned bytes, IsDigit (Char.ofUInt8 b)) ∧
      word.toNat = number ((unsigned bytes).map Char.ofUInt8) := by
  unfold convert
  split
  · next hbytes =>
    subst hbytes
    exact ⟨nofun, fun h => absurd rfl h.1⟩
  · split
    · next hnil => exact ⟨nofun, fun h => absurd hnil h.1⟩
    · next hnil =>
      rw [foldlM_shiftIn_eq_ok_iff, and_iff_right hnil, UInt32.toNat_zero, Nat.mul_zero,
        Nat.zero_add]

/-! ## Texts -/

/-- A text is in ASCII if there are only digits behind its sign. -/
theorem map_ofUInt8_of_unsigned {text : List Char}
    (h : ∀ b ∈ unsigned (Bytes.ofChars text), IsDigit (Char.ofUInt8 b)) :
    (Bytes.ofChars text).map Char.ofUInt8 = text := by
  refine Ascii.map_ofUInt8_ofChars ((Ascii.forall_ofChars_iff fun _ h => h).1 ?_)
  have hrest : ∀ b ∈ unsigned (Bytes.ofChars text), (Char.ofUInt8 b).toNat < 128 :=
    fun b hb => lt_of_isDigit (h b hb)
  rcases eq_unsigned_or (Bytes.ofChars text) with hsign | hsign
  · rwa [hsign]
  · rw [hsign, List.forall_mem_cons]
    exact ⟨by decide, hrest⟩

/-- The conversion accepts any count of digits behind one plus sign or none, if their number has a
    word. -/
theorem convert_ofChars_eq_ok_iff {text : List Char} {word : UInt32} :
    convert (Bytes.ofChars text) = .ok word ↔
      ∃ digits, (text = digits ∨ text = '+' :: digits) ∧ digits ≠ [] ∧
        (∀ c ∈ digits, IsDigit c) ∧ word.toNat = number digits := by
  rw [convert_eq_ok_iff]
  constructor
  · rintro ⟨hne, hdigits, hword⟩
    refine ⟨(unsigned (Bytes.ofChars text)).map Char.ofUInt8, ?_, by simpa using hne,
      List.forall_mem_map.2 hdigits, hword⟩
    have htext := map_ofUInt8_of_unsigned hdigits
    rcases eq_unsigned_or (Bytes.ofChars text) with hsign | hsign
    · left
      rw [← hsign, htext]
    · right
      rw [hsign] at htext
      exact htext.symm
  · rintro ⟨digits, hsign, hne, hdigits, hword⟩
    have hrest : unsigned (Bytes.ofChars text) = Bytes.ofChars digits := by
      rcases hsign with rfl | rfl
      · exact unsigned_ofChars hdigits
      · rfl
    have hbytes := Ascii.map_ofUInt8_ofChars fun c hc => lt_of_isDigit (hdigits c hc)
    rw [hrest, hbytes]
    refine ⟨?_, (Ascii.forall_ofChars_iff fun _ => lt_of_isDigit).2 hdigits, hword⟩
    intro hnil
    rw [hnil] at hbytes
    exact hne hbytes.symm

example : convert (Bytes.ofChars "+00000e0801".toList) = .ok 0xe0801 := by decide

/-- The test is passed by the words, and by no other text. -/
theorem wellformed_ofChars_iff {text : List Char} :
    Wellformed (Bytes.ofChars text) ↔ IsWord text := by
  simp only [Wellformed, List.all_eq_true, decide_eq_true_eq]
  rw [Ascii.forall_ofChars_iff fun _ => lt_of_isDigit, ← List.length_pos_iff]
  constructor
  · rintro ⟨hpos, hlength, hdigits⟩
    rw [Ascii.length_ofChars fun c hc => lt_of_isDigit (hdigits c hc)] at hpos hlength
    exact ⟨hpos, hlength, hdigits⟩
  · rintro ⟨hpos, hlength, hdigits⟩
    rw [Ascii.length_ofChars fun c hc => lt_of_isDigit (hdigits c hc)]
    exact ⟨hpos, hlength, hdigits⟩

/-- The number that a word spells is not too large, so words are converted. -/
theorem convert_of_isWord {text : List Char} (h : IsWord text) :
    convert (Bytes.ofChars text) = .ok (UInt32.ofNat (number text)) :=
  convert_ofChars_eq_ok_iff.2 ⟨text, .inl rfl, List.length_pos_iff.1 h.one_le_length, h.digits,
    UInt32.toNat_ofNat_of_lt' (number_lt h)⟩

/-- Of what the conversion accepts, the words are the texts of up to eight characters that start
    with no sign. -/
theorem isWord_iff_exists_convert {text : List Char} :
    IsWord text ↔ text.length ≤ 8 ∧ text.head? ≠ some '+' ∧
      ∃ word, convert (Bytes.ofChars text) = .ok word := by
  constructor
  · intro h
    refine ⟨h.length_le, fun hhead => ?_, _, convert_of_isWord h⟩
    exact absurd (h.digits _ (List.mem_of_head? hhead)) (by decide)
  · rintro ⟨hlength, hhead, word, hword⟩
    obtain ⟨digits, rfl | rfl, hne, hdigits, -⟩ := convert_ofChars_eq_ok_iff.1 hword
    · exact ⟨List.length_pos_iff.2 hne, hlength, hdigits⟩
    · exact absurd rfl hhead

end KeyStretching.Hex
