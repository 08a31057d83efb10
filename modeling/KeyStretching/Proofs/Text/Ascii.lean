import KeyStretching.Bytes

/-!
# ASCII characters

The alphabets of numbers and keys are made of ASCII characters. There are so few of them that what
holds of them all can be checked one by one (`forall_ascii`). Each is encoded in a single byte
(`utf8EncodeChar_ascii`), and of any other character some byte is that of no ASCII character
(`exists_mem_utf8EncodeChar`). So a text may be tested byte by byte for a part of them
(`forall_ofChars_iff`).
-/

namespace KeyStretching.Ascii

/-- What holds of every ASCII character by its number holds of them all. -/
theorem forall_ascii {P : Char → Prop} (h : ∀ n : Fin 128, P (Char.ofNat n)) {c : Char}
    (hc : c.toNat < 128) : P c := by
  have hn := h ⟨c.toNat, hc⟩
  rwa [Char.ofNat_toNat] at hn

theorem toNat_lt_of_le {c d : Char} (h : c ≤ d) (hd : d.toNat < 128) : c.toNat < 128 :=
  Nat.lt_of_le_of_lt (UInt32.le_iff_toNat_le.1 h) hd

/-- An ASCII character is that of its byte. -/
theorem ofUInt8_toUInt8 {c : Char} (hc : c.toNat < 128) : Char.ofUInt8 c.toUInt8 = c := by
  refine Char.toNat_inj.1 ?_
  exact UInt8.toNat_ofNat_of_lt' (Nat.lt_trans hc (by decide))

/-- An ASCII character is encoded in a single byte. -/
theorem utf8EncodeChar_ascii {c : Char} (hc : c.toNat < 128) :
    String.utf8EncodeChar c = [c.toUInt8] := by
  have hone : c.utf8Size = 1 :=
    Char.utf8Size_eq_one_iff.2 (UInt32.le_iff_toNat_le.2 (Nat.le_of_lt_succ hc))
  exact String.utf8EncodeChar_eq_singleton hone

/-- Some byte of any other character is that of no ASCII character. -/
theorem exists_mem_utf8EncodeChar {c : Char} (hc : ¬c.toNat < 128) :
    ∃ b ∈ String.utf8EncodeChar c, ¬b.toNat < 128 := by
  have hv : ¬c.val.toNat ≤ 127 := fun h => hc (Nat.lt_succ_of_le h)
  -- The last byte carries the low six bits of the character under a high bit that is set.
  refine ⟨UInt8.ofNat (c.val.toNat % 64 + 128), ?_, ?_⟩
  · simp only [String.utf8EncodeChar, if_neg hv]
    split
    · simp
    · split
      · simp
      · simp
  · rw [UInt8.toNat_ofNat']
    omega

/-- ASCII characters are encoded in a byte each. -/
theorem ofChars_eq_map {text : List Char} (h : ∀ c ∈ text, c.toNat < 128) :
    Bytes.ofChars text = text.map Char.toUInt8 := by
  induction text with
  | nil => rfl
  | cons c text ih =>
    obtain ⟨hc, htext⟩ := List.forall_mem_cons.1 h
    rw [Bytes.ofChars, List.flatMap_cons, utf8EncodeChar_ascii hc, ← Bytes.ofChars, ih htext,
      List.map_cons, List.singleton_append]

theorem length_ofChars {text : List Char} (h : ∀ c ∈ text, c.toNat < 128) :
    (Bytes.ofChars text).length = text.length := by
  rw [ofChars_eq_map h, List.length_map]

/-- The bytes of ASCII characters are those of the characters that were encoded. -/
theorem map_ofUInt8_ofChars {text : List Char} (h : ∀ c ∈ text, c.toNat < 128) :
    (Bytes.ofChars text).map Char.ofUInt8 = text := by
  rw [ofChars_eq_map h, List.map_map]
  exact (List.map_congr_left fun c hc => ofUInt8_toUInt8 (h c hc)).trans (List.map_id text)

/-- A test that only ASCII characters pass may as well be made byte by byte. -/
theorem forall_ofChars_iff {P : Char → Prop} (hP : ∀ c, P c → c.toNat < 128) {text : List Char} :
    (∀ b ∈ Bytes.ofChars text, P (Char.ofUInt8 b)) ↔ ∀ c ∈ text, P c := by
  constructor
  · intro h c hc
    have hascii : c.toNat < 128 := by
      by_cases hsmall : c.toNat < 128
      · exact hsmall
      · obtain ⟨b, hb, hlarge⟩ := exists_mem_utf8EncodeChar hsmall
        exact absurd (hP _ (h b (List.mem_flatMap.2 ⟨c, hc, hb⟩))) hlarge
    have hbyte : c.toUInt8 ∈ String.utf8EncodeChar c := by
      rw [utf8EncodeChar_ascii hascii]
      exact List.mem_singleton_self _
    rw [← ofUInt8_toUInt8 hascii]
    exact h _ (List.mem_flatMap.2 ⟨c, hc, hbyte⟩)
  · intro h b hb
    have hmem : Char.ofUInt8 b ∈ (Bytes.ofChars text).map Char.ofUInt8 := List.mem_map_of_mem hb
    rw [map_ofUInt8_ofChars fun c hc => hP c (h c hc)] at hmem
    exact h _ hmem

end KeyStretching.Ascii
