import Mathlib.Data.List.Basic
import Mathlib.Data.List.TakeWhile
import Mathlib.Logic.Function.Basic

/-!
# Telling wordings apart

What is reported is put into words by a fixed text for each kind of report, in which numbers and
other texts are filled in. From the words, the kind can be told if none of the openings of the fixed
texts is the start of another (`ToldApart`), and a number can be told if what is behind it does not
go on with a digit (`OffDigits`).

* `ToldApart.kind_eq`: reports in the same words are of the same kind;
* `Decimal.append_inj`: a number and the text behind it are told from the two together;
* `Decimal.between_inj`, `Decimal.pair_inj`: so are one or two numbers inside fixed text.
-/

namespace KeyStretching

/-! ## Openings -/

/-- The text starts with the given opening. -/
def StartsWith (opening text : String) : Prop := ∃ rest, text = opening ++ rest

namespace StartsWith

theorem refl (opening : String) : StartsWith opening opening := ⟨"", String.append_empty.symm⟩

theorem append {opening text : String} (h : StartsWith opening text) (more : String) :
    StartsWith opening (text ++ more) := by
  obtain ⟨rest, rfl⟩ := h
  exact ⟨rest ++ more, String.append_assoc⟩

theorem isPrefix {opening text : String} (h : StartsWith opening text) :
    opening.toList <+: text.toList := by
  obtain ⟨rest, rfl⟩ := h
  rw [String.toList_append]
  exact List.prefix_append ..

end StartsWith

/-- Of no two openings, one is the start of the other. -/
def PrefixFree (openings : List String) : Prop :=
  openings.Pairwise fun s t => ¬(s.toList <+: t.toList ∨ t.toList <+: s.toList)

instance (openings : List String) : Decidable (PrefixFree openings) :=
  inferInstanceAs (Decidable (openings.Pairwise _))

/-- The kind of a report can be told from the opening of its words. -/
structure ToldApart {α : Type} (message : α → String) (kind : α → Nat) (openings : List String) :
    Prop where
  prefixFree : PrefixFree openings
  startsWith (a : α) : ∃ opening ∈ openings[kind a]?, StartsWith opening (message a)

/-- Reports in the same words are of the same kind. -/
theorem ToldApart.kind_eq {α : Type} {message : α → String} {kind : α → Nat}
    {openings : List String} (h : ToldApart message kind openings) {a b : α}
    (hab : message a = message b) : kind a = kind b := by
  obtain ⟨s, hs, ha⟩ := h.startsWith a
  obtain ⟨t, ht, hb⟩ := h.startsWith b
  -- Of two openings of one text, the shorter is the start of the longer.
  have hprefix : s.toList <+: t.toList ∨ t.toList <+: s.toList :=
    List.prefix_or_prefix_of_prefix (hab ▸ ha.isPrefix) hb.isPrefix
  obtain ⟨hi, rfl⟩ := List.getElem?_eq_some_iff.1 hs
  obtain ⟨hj, rfl⟩ := List.getElem?_eq_some_iff.1 ht
  have hpairs := List.pairwise_iff_getElem.1 h.prefixFree
  rcases Nat.lt_trichotomy (kind a) (kind b) with hlt | heq | hgt
  · exact absurd hprefix (hpairs _ _ hi hj hlt)
  · exact heq
  · exact absurd hprefix.symm (hpairs _ _ hj hi hgt)

/-- Texts that end in parts of one length are cut where these begin. -/
theorem append_inj_of_length {s s' t t' : String} (h : s ++ t = s' ++ t')
    (hlength : t.toList.length = t'.toList.length) : s = s' ∧ t = t' := by
  have hlists : s.toList ++ t.toList = s'.toList ++ t'.toList := by
    rw [← String.toList_append, h, String.toList_append]
  obtain ⟨hs, ht⟩ := List.append_inj' hlists hlength
  exact ⟨String.toList_inj.1 hs, String.toList_inj.1 ht⟩

/-! ## Numbers -/

namespace Decimal

/-- The text starts with something that is not a digit. -/
def OffDigits (text : String) : Prop := ∃ c ∈ text.toList.head?, c.isDigit = false

-- The instance is named because a search could also find one that goes through all characters.
instance (text : String) : Decidable (OffDigits text) :=
  Option.decidableExistsMem text.toList.head?

theorem OffDigits.append {s : String} (h : OffDigits s) (t : String) : OffDigits (s ++ t) := by
  obtain ⟨c, hc, hdigit⟩ := h
  refine ⟨c, ?_, hdigit⟩
  rw [String.toList_append]
  exact List.mem_head?_append_of_mem_head? hc

theorem toString_injective : Function.Injective (toString : Nat → String) := by
  intro m n h
  have hdigits : Nat.toDigits 10 m = Nat.toDigits 10 n := by
    rw [← Nat.toList_repr, ← Nat.toList_repr]
    exact congrArg String.toList h
  rw [← Nat.ofDigitChars_ten_toDigits (n := m), hdigits, Nat.ofDigitChars_ten_toDigits]

variable {m n k l : Nat}

/-- A number is written in digits only. -/
theorem isDigit_of_mem_toString {c : Char} (h : c ∈ (toString n).toList) : c.isDigit = true :=
  Nat.isDigit_of_mem_toDigits (by decide) (by decide) (Nat.toList_repr ▸ h)

/-- What starts with a number starts with a digit. -/
theorem not_offDigits (n : Nat) (text : String) : ¬OffDigits (toString n ++ text) := by
  rintro ⟨c, hc, hdigit⟩
  obtain ⟨first, rest, hdigits⟩ := List.exists_cons_of_ne_nil
    (show (toString n).toList ≠ [] from Nat.toList_repr ▸ Nat.toDigits_ne_nil)
  rw [String.toList_append, hdigits, List.cons_append, List.head?_cons] at hc
  obtain rfl : first = c := Option.some.inj hc
  have hfirst := isDigit_of_mem_toString (hdigits ▸ List.mem_cons_self)
  exact Bool.false_ne_true (hdigit.symm.trans hfirst)

/-- The digits at the start of a text are those of the number, if no other follows them. -/
theorem takeWhile_isDigit (n : Nat) {text : String} (h : OffDigits text) :
    (toString n ++ text).toList.takeWhile Char.isDigit = (toString n).toList := by
  have hrest : text.toList.takeWhile Char.isDigit = [] := by
    obtain ⟨c, hc, hdigit⟩ := h
    obtain ⟨rest, hrest⟩ := List.head?_eq_some_iff.1 hc
    rw [hrest, List.takeWhile_cons_of_neg (by rw [hdigit]; exact Bool.false_ne_true)]
  rw [String.toList_append, List.takeWhile_append_of_pos fun _ => isDigit_of_mem_toString, hrest,
    List.append_nil]

/-- A number and the text behind it are told from the two together. -/
theorem append_inj {s t : String} (hs : OffDigits s) (ht : OffDigits t)
    (h : toString m ++ s = toString n ++ t) : m = n ∧ s = t := by
  have hdigits : (toString m).toList = (toString n).toList := by
    rw [← takeWhile_isDigit m hs, h, takeWhile_isDigit n ht]
  obtain rfl : m = n := toString_injective (String.toList_inj.1 hdigits)
  exact ⟨rfl, (String.append_right_inj _).1 h⟩

/-- A number behind fixed text. -/
theorem behind_inj {opening : String} (h : opening ++ toString m = opening ++ toString n) :
    m = n := toString_injective ((String.append_right_inj _).1 h)

/-- A number inside fixed text. -/
theorem between_inj {opening closing : String}
    (h : opening ++ toString m ++ closing = opening ++ toString n ++ closing) : m = n :=
  behind_inj ((String.append_left_inj _).1 h)

/-- Two numbers with fixed text before and between them. -/
theorem pair_inj {opening middle : String} (hmiddle : OffDigits middle)
    (h : opening ++ toString m ++ middle ++ toString k =
      opening ++ toString n ++ middle ++ toString l) : m = n ∧ k = l := by
  simp only [String.append_assoc, String.append_right_inj] at h
  obtain ⟨hfirst, hrest⟩ := append_inj (hmiddle.append _) (hmiddle.append _) h
  exact ⟨hfirst, behind_inj hrest⟩

end Decimal

end KeyStretching
