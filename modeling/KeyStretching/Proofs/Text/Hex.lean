import KeyStretching.Text.Hex

/-!
# Reading back hexadecimal words

A word is written in the digits that spell it (`exists_digits`), at most eight of them, as it is
below `16 ^ 8`. The digits read back as the word (`read?_write`).
-/

namespace KeyStretching.Hex

/-- The digit written for a number below sixteen is read as that number. -/
theorem digit?_digitChar {d : Nat} (h : d < 16) : digit? (Nat.digitChar d) = some d := by
  revert d
  decide

theorem mapM_digit?_digitChar {ds : List Nat} (h : ∀ d ∈ ds, d < 16) :
    (ds.map Nat.digitChar).mapM digit? = some ds := by
  induction ds with
  | nil => rfl
  | cons d ds ih =>
    obtain ⟨hd, hds⟩ := List.forall_mem_cons.1 h
    simp [digit?_digitChar hd, ih hds]

theorem ofDigits_append (ds : List Nat) (d : Nat) :
    ofDigits (ds ++ [d]) = 16 * ofDigits ds + d := by
  rw [ofDigits, List.foldl_append, ← ofDigits]
  rfl

/-- A number is written in the digits that spell it. -/
theorem exists_digits (n : Nat) :
    ∃ ds : List Nat, Nat.toDigits 16 n = ds.map Nat.digitChar ∧ (∀ d ∈ ds, d < 16) ∧
      ofDigits ds = n := by
  induction n using Nat.strongRecOn with
  | ind n ih =>
    rcases Nat.lt_or_ge n 16 with h | h
    · refine ⟨[n], Nat.toDigits_of_lt_base h, by simpa using h, by simp [ofDigits]⟩
    · -- The last digit is that of the remainder, behind the digits of the quotient.
      obtain ⟨ds, hwritten, hlt, hvalue⟩ := ih (n / 16) (Nat.div_lt_self (by omega) (by decide))
      refine ⟨ds ++ [n % 16], ?_, ?_, ?_⟩
      · rw [Nat.toDigits_of_base_le (by decide) h, hwritten, List.map_append]
        rfl
      · rw [List.forall_mem_append]
        exact ⟨hlt, by simpa using Nat.mod_lt n (by decide)⟩
      · rw [ofDigits_append, hvalue, Nat.div_add_mod]

/-- What is written reads back as it was. -/
theorem read?_write (word : UInt32) : read? (write word) = some word := by
  obtain ⟨ds, hwritten, hlt, hvalue⟩ := exists_digits word.toNat
  have hlen : 1 ≤ (write word).length ∧ (write word).length ≤ 8 :=
    ⟨Nat.length_toDigits_pos, (Nat.length_toDigits_le_iff (by decide) (by decide)).2 word.toNat_lt⟩
  rw [read?, if_pos hlen, write, hwritten, mapM_digit?_digitChar hlt, Option.map_some, hvalue,
    UInt32.ofNat_toNat]

/-- What is written consists of digits. -/
theorem exists_digit_of_mem_write {word : UInt32} {c : Char} (h : c ∈ write word) :
    ∃ d < 16, Nat.digitChar d = c := by
  obtain ⟨ds, hwritten, hlt, _⟩ := exists_digits word.toNat
  rw [write, hwritten] at h
  obtain ⟨d, hd, hc⟩ := List.mem_map.1 h
  exact ⟨d, hlt d hd, hc⟩

end KeyStretching.Hex
