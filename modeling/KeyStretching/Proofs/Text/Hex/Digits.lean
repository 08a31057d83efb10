import KeyStretching.Proofs.Text.Ascii
import KeyStretching.Proofs.Text.Hex
import Mathlib.Data.Nat.Digits.Lemmas

/-!
# The digits of hexadecimal words

A word is spelled by one to eight digits of either case (`IsWord`), which stand for a number to the
base sixteen (`number`). Reading accepts exactly these texts and yields their number (`read?_eq`),
which always fits into the word (`number_lt`). What is read is written again in lower case and
without leading zeros (`write_number`), and this is all in which two texts of one number may differ
(`number_eq_iff`).
-/

namespace KeyStretching.Hex

/-- A digit, of either case. -/
def IsDigit (c : Char) : Prop :=
  ('0' ≤ c ∧ c ≤ '9') ∨ ('a' ≤ c ∧ c ≤ 'f') ∨ ('A' ≤ c ∧ c ≤ 'F')

instance : DecidablePred IsDigit := fun _ => inferInstanceAs (Decidable (_ ∨ _))

/-- The lowercase digits, in the order of their values. -/
def digits : List Char :=
  ['0', '1', '2', '3', '4', '5', '6', '7', '8', '9', 'a', 'b', 'c', 'd', 'e', 'f']

/-- The value of a digit. -/
def value (c : Char) : Nat := digits.idxOf c.toLower

/-- The number that a text of digits spells to the base sixteen. -/
def number (text : List Char) : Nat := Nat.ofDigits 16 (text.map value).reverse

/-- A text that spells a word. -/
structure IsWord (text : List Char) : Prop where
  one_le_length : 1 ≤ text.length
  length_le : text.length ≤ 8
  digits : ∀ c ∈ text, IsDigit c

theorem isWord_iff {text : List Char} :
    IsWord text ↔ 1 ≤ text.length ∧ text.length ≤ 8 ∧ text.all (IsDigit ·) := by
  simp only [List.all_eq_true, decide_eq_true_eq]
  exact ⟨fun h => ⟨h.1, h.2, h.3⟩, fun h => ⟨h.1, h.2.1, h.2.2⟩⟩

-- The digits are tested one by one, as there are too many characters to go through.
instance : DecidablePred IsWord := fun _ => decidable_of_iff _ isWord_iff.symm

/-- The digits of a text in lower case and without leading zeros. -/
def strip (text : List Char) : List Char := (text.map Char.toLower).dropWhile (· = '0')

/-! ## Single digits -/

theorem lt_of_isDigit {c : Char} (h : IsDigit c) : c.toNat < 128 := by
  rcases h with ⟨-, h⟩ | ⟨-, h⟩ | ⟨-, h⟩
  · exact Ascii.toNat_lt_of_le h (by decide)
  · exact Ascii.toNat_lt_of_le h (by decide)
  · exact Ascii.toNat_lt_of_le h (by decide)

theorem digit?_of_isDigit {c : Char} (h : IsDigit c) : digit? c = some (value c) :=
  Ascii.forall_ascii (P := fun c => IsDigit c → digit? c = some (value c)) (by decide +kernel)
    (lt_of_isDigit h) h

theorem digit?_of_not_isDigit {c : Char} (h : ¬IsDigit c) : digit? c = none := by
  rw [IsDigit, not_or, not_or] at h
  rw [digit?, if_neg h.1, if_neg h.2.1, if_neg h.2.2]

theorem value_lt {c : Char} (h : IsDigit c) : value c < 16 :=
  Ascii.forall_ascii (P := fun c => IsDigit c → value c < 16) (by decide +kernel)
    (lt_of_isDigit h) h

/-- A value is written as its digit in lower case. -/
theorem digitChar_value {c : Char} (h : IsDigit c) : Nat.digitChar (value c) = c.toLower :=
  Ascii.forall_ascii (P := fun c => IsDigit c → Nat.digitChar (value c) = c.toLower)
    (by decide +kernel) (lt_of_isDigit h) h

/-- Only the digit zero has the value zero. -/
theorem value_eq_zero_iff {c : Char} (h : IsDigit c) : value c = 0 ↔ c.toLower = '0' :=
  Ascii.forall_ascii (P := fun c => IsDigit c → (value c = 0 ↔ c.toLower = '0'))
    (by decide +kernel) (lt_of_isDigit h) h

theorem value_toLower {c : Char} (h : IsDigit c) : value c.toLower = value c :=
  Ascii.forall_ascii (P := fun c => IsDigit c → value c.toLower = value c) (by decide +kernel)
    (lt_of_isDigit h) h

theorem strip_cons_of_zero {c : Char} (hc : c.toLower = '0') (text : List Char) :
    strip (c :: text) = strip text := by
  rw [strip, List.map_cons, List.dropWhile_cons_of_pos, strip]
  exact decide_eq_true hc

/-! ## Reading -/

theorem ofDigits_eq (ds : List Nat) : ofDigits ds = Nat.ofDigits 16 ds.reverse := by
  rw [Nat.ofDigits_eq_foldr, List.foldr_reverse, ofDigits]
  congr 1
  funext n d
  exact Nat.add_comm ..

theorem mapM_digit?_of_isDigit {text : List Char} (h : ∀ c ∈ text, IsDigit c) :
    text.mapM digit? = some (text.map value) := by
  induction text with
  | nil => rfl
  | cons c text ih =>
    obtain ⟨hc, htext⟩ := List.forall_mem_cons.1 h
    simp [digit?_of_isDigit hc, ih htext]

theorem mapM_digit?_of_not_isDigit {text : List Char} {c : Char} (hmem : c ∈ text)
    (hc : ¬IsDigit c) : text.mapM digit? = none := by
  induction text with
  | nil => exact absurd hmem List.not_mem_nil
  | cons d text ih =>
    rw [List.mapM_cons]
    rcases List.mem_cons.1 hmem with rfl | hmem
    · rw [digit?_of_not_isDigit hc]
      rfl
    · rw [ih hmem]
      cases digit? d <;> rfl

/-- The number that a word spells fits into it. -/
theorem number_lt {text : List Char} (h : IsWord text) : number text < 2 ^ 32 := by
  have hlt : number text < 16 ^ (text.map value).reverse.length := by
    refine Nat.ofDigits_lt_base_pow_length (by decide) fun d hd => ?_
    obtain ⟨c, hc, rfl⟩ := List.mem_map.1 (List.mem_reverse.1 hd)
    exact value_lt (h.digits c hc)
  rw [List.length_reverse, List.length_map] at hlt
  exact Nat.lt_of_lt_of_le hlt (Nat.pow_le_pow_right (by decide) h.length_le)

/-- Reading accepts one to eight digits of either case, and yields the number that they spell. -/
theorem read?_eq (text : List Char) :
    read? text = if IsWord text then some (UInt32.ofNat (number text)) else none := by
  by_cases hlength : 1 ≤ text.length ∧ text.length ≤ 8
  · rw [read?, if_pos hlength]
    by_cases hdigits : ∀ c ∈ text, IsDigit c
    · rw [if_pos ⟨hlength.1, hlength.2, hdigits⟩, mapM_digit?_of_isDigit hdigits, Option.map_some,
        ofDigits_eq, number]
    · rw [if_neg fun h => hdigits h.digits]
      push Not at hdigits
      obtain ⟨c, hmem, hc⟩ := hdigits
      rw [mapM_digit?_of_not_isDigit hmem hc]
      rfl
  · rw [read?, if_neg hlength, if_neg fun h => hlength ⟨h.one_le_length, h.length_le⟩]

theorem read?_eq_some_iff {text : List Char} {word : UInt32} :
    read? text = some word ↔ IsWord text ∧ word = UInt32.ofNat (number text) := by
  rw [read?_eq]
  by_cases h : IsWord text
  · rw [if_pos h, Option.some_inj]
    exact ⟨fun hword => ⟨h, hword.symm⟩, fun hword => hword.2.symm⟩
  · rw [if_neg h]
    exact ⟨nofun, fun hword => absurd hword.1 h⟩

/-! ## Writing -/

theorem ofDigits_zero_cons (ds : List Nat) : ofDigits (0 :: ds) = ofDigits ds := rfl

/-- Without a leading zero, a number is written in the digits that spell it. -/
theorem toDigits_ofDigits {d : Nat} {ds : List Nat} (hd : d ≠ 0) (h : ∀ e ∈ d :: ds, e < 16) :
    1 ≤ ofDigits (d :: ds) ∧
      Nat.toDigits 16 (ofDigits (d :: ds)) = (d :: ds).map Nat.digitChar := by
  induction ds using List.reverseRecOn with
  | nil =>
    have hlt : ofDigits [d] < 16 := by simpa [ofDigits] using h
    refine ⟨?_, ?_⟩
    · simpa [ofDigits] using Nat.one_le_iff_ne_zero.2 hd
    · rw [Nat.toDigits_of_lt_base hlt]
      simp [ofDigits]
  | append_singleton ds e ih =>
    -- The last digit stands behind those of a number that is not zero.
    rw [← List.cons_append, List.forall_mem_append] at h
    obtain ⟨hpos, hwritten⟩ := ih h.1
    have he : e < 16 := h.2 e List.mem_cons_self
    have hdiv : (16 * ofDigits (d :: ds) + e) / 16 = ofDigits (d :: ds) := by omega
    have hmod : (16 * ofDigits (d :: ds) + e) % 16 = e := by omega
    rw [← List.cons_append, ofDigits_append]
    refine ⟨by omega, ?_⟩
    rw [Nat.toDigits_of_base_le (by decide) (by omega), hdiv, hmod, hwritten, List.map_append]
    rfl

/-- What spells a number other than zero is written again in lower case, without leading zeros. -/
theorem toDigits_number {text : List Char} (h : ∀ c ∈ text, IsDigit c) (hne : number text ≠ 0) :
    Nat.toDigits 16 (number text) = strip text := by
  rw [number, ← ofDigits_eq] at hne ⊢
  induction text with
  | nil => exact absurd rfl hne
  | cons c text ih =>
    obtain ⟨hc, htext⟩ := List.forall_mem_cons.1 h
    rw [List.map_cons] at hne ⊢
    by_cases hzero : value c = 0
    · -- A leading zero is dropped.
      rw [hzero, ofDigits_zero_cons] at hne ⊢
      rw [ih htext hne, strip_cons_of_zero ((value_eq_zero_iff hc).1 hzero)]
    · have hlt : ∀ d ∈ value c :: text.map value, d < 16 := by
        rw [← List.map_cons, List.forall_mem_map]
        exact fun d hd => value_lt (h d hd)
      have hlower : (c :: text).map (Nat.digitChar ∘ value) = (c :: text).map Char.toLower :=
        List.map_congr_left fun d hd => digitChar_value (h d hd)
      rw [(toDigits_ofDigits hzero hlt).2, ← List.map_cons, List.map_map, hlower, strip,
        List.map_cons, List.dropWhile_cons_of_neg]
      simpa using fun hc' => hzero ((value_eq_zero_iff hc).2 hc')

/-- A word other than zero is written in the digits it was read from, in lower case and without
    leading zeros. -/
theorem write_number {text : List Char} (h : IsWord text) (hne : number text ≠ 0) :
    write (UInt32.ofNat (number text)) = strip text := by
  rw [write, UInt32.toNat_ofNat_of_lt' (number_lt h), toDigits_number h.digits hne]

/-! ## Spellings of one number -/

/-- The first digit stands above the others. -/
theorem number_cons (c : Char) (text : List Char) :
    number (c :: text) = 16 ^ text.length * value c + number text := by
  rw [number, List.map_cons, Nat.ofDigits_reverse_cons, List.length_map, Nat.add_comm, ← number]

/-- Zeros in front of a number do not count. -/
theorem number_dropWhile (text : List Char) : number (text.dropWhile (· = '0')) = number text := by
  induction text with
  | nil => rfl
  | cons c text ih =>
    by_cases hc : c = '0'
    · subst hc
      rw [List.dropWhile_cons_of_pos (by simp), ih, number_cons]
      exact (Nat.zero_add _).symm
    · rw [List.dropWhile_cons_of_neg (by simpa using hc)]

/-- Stripped digits spell the same number. -/
theorem number_strip {text : List Char} (h : ∀ c ∈ text, IsDigit c) :
    number (strip text) = number text := by
  have hlower : (text.map Char.toLower).map value = text.map value := by
    rw [List.map_map]
    exact List.map_congr_left fun c hc => value_toLower (h c hc)
  rw [strip, number_dropWhile, number, hlower, number]

/-- Of digits that spell zero, all are stripped. -/
theorem strip_of_number_eq_zero {text : List Char} (h : ∀ c ∈ text, IsDigit c)
    (hzero : number text = 0) : strip text = [] := by
  induction text with
  | nil => rfl
  | cons c text ih =>
    obtain ⟨hc, htext⟩ := List.forall_mem_cons.1 h
    rw [number_cons, Nat.add_eq_zero_iff, Nat.mul_eq_zero] at hzero
    have hvalue : value c = 0 := hzero.1.resolve_left (Nat.pow_pos (by decide)).ne'
    rw [strip_cons_of_zero ((value_eq_zero_iff hc).1 hvalue), ih htext hzero.2]

/-- Digits spell the same number if they differ in case and leading zeros alone. -/
theorem number_eq_iff {text text' : List Char} (h : ∀ c ∈ text, IsDigit c)
    (h' : ∀ c ∈ text', IsDigit c) : number text = number text' ↔ strip text = strip text' := by
  constructor
  · intro hnumber
    by_cases hzero : number text = 0
    · rw [strip_of_number_eq_zero h hzero, strip_of_number_eq_zero h' (hnumber ▸ hzero)]
    · rw [← toDigits_number h hzero, ← toDigits_number h' (hnumber ▸ hzero), hnumber]
  · intro hstrip
    rw [← number_strip h, ← number_strip h', hstrip]

end KeyStretching.Hex
