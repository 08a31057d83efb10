import KeyStretching.Credential.Envelope
import KeyStretching.Proofs.Text.Base64Url
import KeyStretching.Proofs.Text.Hex

/-!
# Reading back envelopes

No field of a written envelope contains the delimiter, so splitting at it finds the fields again
(`splitOn_write`). Each of them reads back as it was, and so does the envelope, unless its key is
empty (`read_write`). Conversely, a text that reads as an envelope has five fields, which read as
those of the envelope, and the last of them is not an empty key (`fields_of_read`).
-/

namespace KeyStretching

section

variable {ε ε' α β : Type} {x : Except ε α}

theorem bind_eq_ok {f : α → Except ε β} {b : β} (h : x >>= f = .ok b) :
    ∃ a, x = .ok a ∧ f a = .ok b := by
  cases x with
  | error e => exact nomatch h
  | ok a => exact ⟨a, rfl, h⟩

theorem map_eq_ok {f : α → β} {b : β} (h : x.map f = .ok b) : ∃ a, x = .ok a ∧ f a = b := by
  cases x with
  | error e => exact nomatch h
  | ok a => exact ⟨a, rfl, Except.ok.inj h⟩

theorem mapError_eq_ok {f : ε → ε'} {a : α} (h : x.mapError f = .ok a) : x = .ok a := by
  cases x with
  | error e => exact nomatch h
  | ok a =>
    cases h
    rfl

end

namespace Envelope

theorem delimiter_notMem_write_header (word : UInt32) : delimiter ∉ Hex.write word := by
  intro h
  obtain ⟨d, hd, hc⟩ := Hex.exists_digit_of_mem_write h
  revert d
  decide

theorem delimiter_notMem_encode (bytes : Bytes) : delimiter ∉ Base64Url.encode bytes := by
  intro h
  obtain ⟨s, hs⟩ := Base64Url.exists_symbol_of_mem_encode h
  revert s
  decide

theorem readField_encode (bytes : Bytes) : readField (Base64Url.encode bytes) = .ok bytes :=
  Base64Url.decode_encode bytes

section

variable {tag : String} (htag : delimiter ∉ tag.toList)

include htag

/-- The fields of a written envelope are those that were put together. -/
theorem splitOn_write (e : Envelope) :
    (write tag e).toList.splitOn delimiter =
      [[], tag.toList, Hex.write e.header, Base64Url.encode e.salt,
        Base64Url.encode e.derived] := by
  have hfields : ∀ field ∈ [[], tag.toList, Hex.write e.header, Base64Url.encode e.salt,
      Base64Url.encode e.derived], delimiter ∉ field := by
    simp [htag, delimiter_notMem_write_header, delimiter_notMem_encode]
  -- Splitting undoes putting together, and that is how the text was written.
  rw [← List.splitOn_intercalate delimiter hfields (by simp), write, String.toList_ofList]
  simp

/-- A written envelope reads back as it was, unless its key is empty. -/
theorem read_write (e : Envelope) :
    read tag (write tag e) = if e.derived = [] then .error .emptyDerivedKey else .ok e := by
  rw [read, splitOn_write htag]
  simp only [ne_eq, not_true_eq_false, if_false, Hex.read?_write, readField_encode]
  by_cases h : e.derived = []
  · rw [if_pos h]
    exact if_pos h
  · rw [if_neg h]
    exact if_neg h

end

example : read "t0" "$t0$e0801$c2FsdA$a2V5" =
    .ok ⟨0xe0801, [0x73, 0x61, 0x6c, 0x74], [0x6b, 0x65, 0x79]⟩ := by
  decide +kernel

/-- A text that reads as an envelope has the fields of the envelope. -/
theorem fields_of_read {tag text : String} {e : Envelope} (h : read tag text = .ok e) :
    ∃ header salt derived,
      text.toList.splitOn delimiter = [[], tag.toList, header, salt, derived] ∧
        Hex.read? header = some e.header ∧ readField salt = .ok e.salt ∧
        readField derived = .ok e.derived ∧ e.derived ≠ [] := by
  unfold read at h
  split at h
  · next lead found header salt derived hfields =>
    -- Each check that fails makes an error of the whole, against `h`.
    by_cases hlead : lead = []
    · by_cases hfound : found = tag.toList
      · rw [if_neg (not_not.2 hlead), if_neg (not_not.2 hfound)] at h
        split at h
        · next word hheader =>
          obtain ⟨salt', hsalt, h⟩ := bind_eq_ok h
          obtain ⟨derived', hderived, h⟩ := bind_eq_ok h
          by_cases hnil : derived' = []
          · rw [if_pos hnil] at h
            exact nomatch h
          · rw [if_neg hnil] at h
            cases h
            subst hlead hfound
            exact ⟨header, salt, derived, hfields, hheader, mapError_eq_ok hsalt,
              mapError_eq_ok hderived, hnil⟩
        · exact nomatch h
      · rw [if_neg (not_not.2 hlead), if_pos hfound] at h
        exact nomatch h
    · rw [if_pos hlead] at h
      exact nomatch h
  · exact nomatch h

end Envelope

end KeyStretching
