import KeyStretching.Proofs.Bytes
import KeyStretching.Proofs.Text.Ascii
import KeyStretching.Proofs.Text.Base64Url
import Mathlib.Data.Nat.Digits.Lemmas
import Mathlib.Data.Set.List
import Mathlib.Tactic.Ring

/-!
# Canonical base64url

A text of symbols spells a number to the base 64 (`number`), of which the lowest bits are unused
where the bits of the symbols make up no whole number of bytes. The text is `Canonical` if no symbol
is left over and the unused bits are zero; its `content` is then what remains of the number, byte by
byte.

Reading accepts exactly the canonical texts, and yields their content
(`decode_eq_ok_iff_canonical`). They are the texts that are written (`decode_eq_ok_iff`), so that
there is one text for each byte string.
-/

namespace KeyStretching.Base64Url

/-- A character of the alphabet. -/
def IsSymbol (c : Char) : Prop :=
  ('A' ≤ c ∧ c ≤ 'Z') ∨ ('a' ≤ c ∧ c ≤ 'z') ∨ ('0' ≤ c ∧ c ≤ '9') ∨ c = '-' ∨ c = '_'

instance : DecidablePred IsSymbol := fun _ => inferInstanceAs (Decidable (_ ∨ _))

/-- The value of a symbol: first come the capital letters, then the small ones, the digits and the
    two signs. -/
def value (c : Char) : Nat :=
  if 'A' ≤ c ∧ c ≤ 'Z' then c.toNat - 'A'.toNat
  else if 'a' ≤ c ∧ c ≤ 'z' then c.toNat - 'a'.toNat + 26
  else if '0' ≤ c ∧ c ≤ '9' then c.toNat - '0'.toNat + 52
  else if c = '-' then 62
  else 63

/-- The number that a text of symbols spells to the base 64. -/
def number (text : List Char) : Nat := Nat.ofDigits 64 (text.map value).reverse

/-- The count of bits that make up no whole byte. -/
def unused (text : List Char) : Nat := 6 * text.length % 8

/-- A text of symbols of which none is left over and no unused bit is set. -/
structure Canonical (text : List Char) : Prop where
  symbols : ∀ c ∈ text, IsSymbol c
  length_mod : text.length % 4 ≠ 1
  unused_bits : number text % 2 ^ unused text = 0

theorem canonical_iff {text : List Char} :
    Canonical text ↔ text.all (IsSymbol ·) ∧ text.length % 4 ≠ 1 ∧
      number text % 2 ^ unused text = 0 := by
  simp only [List.all_eq_true, decide_eq_true_eq]
  exact ⟨fun h => ⟨h.1, h.2, h.3⟩, fun h => ⟨h.1, h.2.1, h.2.2⟩⟩

instance : DecidablePred Canonical := fun _ => decidable_of_iff _ canonical_iff.symm

/-- The bytes that the bits of a text make up, the unused ones being cut off. -/
def content (text : List Char) : Bytes :=
  Bytes.bigEndian (6 * text.length / 8) (number text / 2 ^ unused text)

/-! ## Symbols -/

theorem isSymbol_symbol (s : Fin 64) : IsSymbol (symbol s) := by
  revert s
  decide +kernel

theorem value_symbol (s : Fin 64) : value (symbol s) = s := by
  revert s
  decide +kernel

theorem lt_of_isSymbol {c : Char} (h : IsSymbol c) : c.toNat < 128 := by
  rcases h with ⟨-, h⟩ | ⟨-, h⟩ | ⟨-, h⟩ | rfl | rfl
  · exact Ascii.toNat_lt_of_le h (by decide)
  · exact Ascii.toNat_lt_of_le h (by decide)
  · exact Ascii.toNat_lt_of_le h (by decide)
  · decide
  · decide

/-- The characters of the alphabet are the symbols of their values. -/
theorem symbol_value {c : Char} (h : IsSymbol c) : symbol (Fin.ofNat 64 (value c)) = c :=
  Ascii.forall_ascii (P := fun c => IsSymbol c → symbol (Fin.ofNat 64 (value c)) = c)
    (by decide +kernel) (lt_of_isSymbol h) h

/-- A text of symbols is made of groups of six bits. -/
theorem exists_map_symbol {text : List Char} (h : ∀ c ∈ text, IsSymbol c) :
    ∃ ss : List (Fin 64), ss.map symbol = text := by
  rw [← Set.mem_range, Set.range_list_map]
  exact fun c hc => ⟨_, symbol_value (h c hc)⟩

theorem symbol_of_sextet? {b : UInt8} {s : Fin 64} (h : sextet? b = some s) :
    symbol s = Char.ofUInt8 b := by
  rw [sextet?, Vector.finIdxOf?, Option.map_eq_some_iff] at h
  obtain ⟨i, hi, rfl⟩ := h
  exact (Array.finIdxOf?_eq_some_iff.1 hi).1

/-- A byte that stands for six bits is that of a character of the alphabet. -/
theorem isSymbol_ofUInt8 {b : UInt8} (h : isSymbol b) : IsSymbol (Char.ofUInt8 b) := by
  obtain ⟨s, hs⟩ := Option.isSome_iff_exists.1 h
  rw [← symbol_of_sextet? hs]
  exact isSymbol_symbol s

/-! ## Groups of six bits -/

theorem length_sextets (bytes : Bytes) : (sextets bytes).length = (4 * bytes.length + 2) / 3 := by
  fun_induction sextets bytes with
  | case1 => rfl
  | case2 => simp
  | case3 => simp
  | case4 a b c rest ih =>
    simp only [List.length_cons, ih]
    omega

/-- The first group of six bits is that of the high bits of the first byte. -/
theorem firstSextet (w x : Fin 64) :
    Fin.ofNat 64 ((UInt8.ofNat (w.val * 4 + x.val / 16)).toNat / 4) = w := by
  refine Fin.ext ?_
  rw [Fin.val_ofNat, UInt8.toNat_ofNat']
  omega

theorem secondSextet (w x : Fin 64) {t : Nat} (ht : t < 16) :
    Fin.ofNat 64 ((UInt8.ofNat (w.val * 4 + x.val / 16)).toNat % 4 * 16 +
      (UInt8.ofNat (x.val % 16 * 16 + t)).toNat / 16) = x := by
  refine Fin.ext ?_
  rw [Fin.val_ofNat, UInt8.toNat_ofNat', UInt8.toNat_ofNat']
  omega

theorem thirdSextet (s : Nat) (y z : Fin 64) :
    Fin.ofNat 64 ((UInt8.ofNat (s * 16 + y.val / 4)).toNat % 16 * 4 +
      (UInt8.ofNat (y.val % 4 * 64 + z.val)).toNat / 64) = y := by
  refine Fin.ext ?_
  rw [Fin.val_ofNat, UInt8.toNat_ofNat', UInt8.toNat_ofNat']
  omega

theorem fourthSextet (s : Nat) (z : Fin 64) :
    Fin.ofNat 64 ((UInt8.ofNat (s * 64 + z.val)).toNat % 64) = z := by
  refine Fin.ext ?_
  rw [Fin.val_ofNat, UInt8.toNat_ofNat']
  omega

/-- Groups of six bits that make up bytes are those that the bytes are taken apart into. -/
theorem sextets_of_octets {offset : Nat} {ss : List (Fin 64)} {bytes : Bytes}
    (h : octets offset ss = .ok bytes) : sextets bytes = ss := by
  fun_induction octets offset ss generalizing bytes with
  | case1 =>
    cases h
    rfl
  | case2 => exact nomatch h
  | case3 offset w x hunused =>
    cases h
    -- Of the second group, only the bits that were taken into the byte are set.
    have hx : Fin.ofNat 64 ((UInt8.ofNat (w.val * 4 + x.val / 16)).toNat % 4 * 16) = x := by
      refine Fin.ext ?_
      rw [Fin.val_ofNat, UInt8.toNat_ofNat']
      omega
    rw [sextets, firstSextet, hx]
  | case4 => exact nomatch h
  | case5 offset w x y hunused =>
    cases h
    have hy : Fin.ofNat 64 ((UInt8.ofNat (x.val % 16 * 16 + y.val / 4)).toNat % 16 * 4) = y := by
      refine Fin.ext ?_
      rw [Fin.val_ofNat, UInt8.toNat_ofNat']
      omega
    rw [sextets, firstSextet, secondSextet _ _ (by omega), hy]
  | case6 => exact nomatch h
  | case7 offset w x y z rest ih =>
    cases hrest : octets (offset + 4) rest with
    | error e =>
      rw [hrest] at h
      exact nomatch h
    | ok bytes' =>
      rw [hrest] at h
      cases h
      rw [sextets, firstSextet, secondSextet _ _ (by omega), thirdSextet, fourthSextet, ih hrest]

/-- Groups of six bits and bytes have the same bits, up to the unused ones. -/
theorem sixtyFour_pow {groups bytes rest : Nat} (h : 6 * groups = 8 * bytes + rest) :
    64 ^ groups = 256 ^ bytes * 2 ^ rest := by
  calc 64 ^ groups = 2 ^ (6 * groups) := by rw [Nat.pow_mul]
    _ = 2 ^ (8 * bytes) * 2 ^ rest := by rw [h, Nat.pow_add]
    _ = 256 ^ bytes * 2 ^ rest := by rw [Nat.pow_mul]

/-- The bits of the groups are those of the bytes, and behind them the unused ones, which are
    zero. -/
theorem ofDigits_sextets (bytes : Bytes) :
    Nat.ofDigits 64 ((sextets bytes).map Fin.val).reverse =
      Bytes.ofBigEndian bytes * 2 ^ (6 * (sextets bytes).length % 8) := by
  fun_induction sextets bytes with
  | case1 => rfl
  | case2 a =>
    have ha := a.toNat_lt
    simp [Bytes.ofBigEndian, Nat.ofDigits_cons]
    omega
  | case3 a b =>
    have ha := a.toNat_lt
    have hb := b.toNat_lt
    simp [Bytes.ofBigEndian, Nat.ofDigits_cons]
    omega
  | case4 a b c rest ih =>
    have ha := a.toNat_lt
    have hb := b.toNat_lt
    have hc := c.toNat_lt
    -- Four groups are three bytes, and stand above the same bits as these.
    have hbits : (Fin.ofNat 64 (a.toNat / 4)).val * 64 ^ 3 +
        (Fin.ofNat 64 (a.toNat % 4 * 16 + b.toNat / 16)).val * 64 ^ 2 +
        (Fin.ofNat 64 (b.toNat % 16 * 4 + c.toNat / 64)).val * 64 +
        (Fin.ofNat 64 (c.toNat % 64)).val = a.toNat * 256 ^ 2 + b.toNat * 256 + c.toNat := by
      simp only [Fin.val_ofNat]
      omega
    have hpow : 64 ^ (sextets rest).length =
        256 ^ rest.length * 2 ^ (6 * (sextets rest).length % 8) := by
      refine sixtyFour_pow ?_
      rw [length_sextets]
      omega
    have hunused : 6 * ((sextets rest).length + 4) % 8 = 6 * (sextets rest).length % 8 := by omega
    simp only [List.map_cons, Nat.ofDigits_reverse_cons, List.length_cons, List.length_map,
      Bytes.ofBigEndian_cons, ih, hunused]
    generalize 2 ^ (6 * (sextets rest).length % 8) = scale at hpow ⊢
    calc _ = Bytes.ofBigEndian rest * scale + 64 ^ (sextets rest).length *
          ((Fin.ofNat 64 (a.toNat / 4)).val * 64 ^ 3 +
            (Fin.ofNat 64 (a.toNat % 4 * 16 + b.toNat / 16)).val * 64 ^ 2 +
            (Fin.ofNat 64 (b.toNat % 16 * 4 + c.toNat / 64)).val * 64 +
            (Fin.ofNat 64 (c.toNat % 64)).val) := by ring
      _ = Bytes.ofBigEndian rest * scale + 256 ^ rest.length * scale *
          (a.toNat * 256 ^ 2 + b.toNat * 256 + c.toNat) := by rw [hbits, hpow]
      _ = _ := by ring

/-! ## Texts -/

/-- What is read is made of symbols, as each of its bytes was found to be one. -/
theorem isSymbol_of_decode {text : List Char} {bytes : Bytes}
    (h : decode (Bytes.ofChars text) = .ok bytes) : ∀ c ∈ text, IsSymbol c := by
  refine (Ascii.forall_ofChars_iff fun _ => lt_of_isSymbol).1 fun b hb => isSymbol_ofUInt8 ?_
  unfold decode at h
  split at h
  · exact nomatch h
  · next hnone => exact List.dropWhile_eq_nil_iff.1 hnone b hb

/-- The texts that are read are those that are written. -/
theorem decode_eq_ok_iff {text : List Char} {bytes : Bytes} :
    decode (Bytes.ofChars text) = .ok bytes ↔ encode bytes = text := by
  constructor
  · intro h
    obtain ⟨ss, rfl⟩ := exists_map_symbol (isSymbol_of_decode h)
    rw [decode_map_symbol] at h
    rw [encode, sextets_of_octets h]
  · rintro rfl
    exact decode_encode bytes

theorem number_map_symbol (ss : List (Fin 64)) :
    number (ss.map symbol) = Nat.ofDigits 64 (ss.map Fin.val).reverse := by
  rw [number, List.map_map]
  simp only [Function.comp_def, value_symbol]

theorem number_map_symbol_lt (ss : List (Fin 64)) : number (ss.map symbol) < 64 ^ ss.length := by
  rw [number_map_symbol, ← ss.length_map Fin.val, ← List.length_reverse]
  refine Nat.ofDigits_lt_base_pow_length (by decide) fun d hd => ?_
  obtain ⟨s, -, rfl⟩ := List.mem_map.1 (List.mem_reverse.1 hd)
  exact s.isLt

theorem number_encode (bytes : Bytes) :
    number (encode bytes) = Bytes.ofBigEndian bytes * 2 ^ unused (encode bytes) := by
  rw [encode, number_map_symbol, ofDigits_sextets, unused, List.length_map]

/-- What is written is canonical. -/
theorem canonical_encode (bytes : Bytes) : Canonical (encode bytes) where
  symbols c hc := by
    obtain ⟨s, rfl⟩ := exists_symbol_of_mem_encode hc
    exact isSymbol_symbol s
  length_mod := by
    rw [encode, List.length_map, length_sextets]
    omega
  unused_bits := by
    rw [number_encode, Nat.mul_mod_left]

theorem content_encode (bytes : Bytes) : content (encode bytes) = bytes := by
  have hlength : 6 * (encode bytes).length / 8 = bytes.length := by
    rw [encode, List.length_map, length_sextets]
    omega
  rw [content, number_encode, Nat.mul_div_cancel _ (Nat.two_pow_pos _), hlength,
    Bytes.bigEndian_ofBigEndian]

/-- Of all but the unused bits, nothing is cut off. -/
theorem ofBigEndian_content (ss : List (Fin 64)) :
    Bytes.ofBigEndian (content (ss.map symbol)) =
      number (ss.map symbol) / 2 ^ unused (ss.map symbol) := by
  have hlt := number_map_symbol_lt ss
  rw [sixtyFour_pow (Nat.div_add_mod (6 * ss.length) 8).symm, Nat.mul_comm] at hlt
  rw [content, Bytes.ofBigEndian_bigEndian, unused, List.length_map,
    Nat.mod_eq_of_lt (Nat.div_lt_of_lt_mul hlt)]

/-- If no symbol is left over, as many symbols are written for the content. -/
theorem length_encode_content {text : List Char} (h : text.length % 4 ≠ 1) :
    (encode (content text)).length = text.length := by
  rw [encode, List.length_map, length_sextets, content, Bytes.length_bigEndian]
  have hmod : text.length % 4 = 0 ∨ text.length % 4 = 2 ∨ text.length % 4 = 3 := by omega
  rcases hmod with hmod | hmod | hmod
  · omega
  · omega
  · omega

/-- A number is spelled only once by as many symbols. -/
theorem eq_of_number_eq {ss ss' : List (Fin 64)} (hlength : ss.length = ss'.length)
    (h : number (ss.map symbol) = number (ss'.map symbol)) : ss = ss' := by
  rw [number_map_symbol, number_map_symbol] at h
  have hdigits : (ss.map Fin.val).reverse = (ss'.map Fin.val).reverse := by
    refine Nat.ofDigits_inj_of_len_eq (b := 64) (by decide) ?_ ?_ ?_ h
    · simp [hlength]
    · simp
    · simp
  exact List.map_injective_iff.2 Fin.val_injective (List.reverse_injective hdigits)

/-- A canonical text is what is written for its content. -/
theorem encode_content {text : List Char} (h : Canonical text) : encode (content text) = text := by
  obtain ⟨ss, rfl⟩ := exists_map_symbol h.symbols
  have hlength := length_encode_content h.length_mod
  have hunused : unused (encode (content (ss.map symbol))) = unused (ss.map symbol) := by
    rw [unused, unused, hlength]
  -- What is cut off is zero, so the symbols that are written spell the same number.
  have hnumber : number (encode (content (ss.map symbol))) = number (ss.map symbol) := by
    rw [number_encode, ofBigEndian_content, hunused]
    exact Nat.div_mul_cancel (Nat.dvd_of_mod_eq_zero h.unused_bits)
  rw [encode, List.length_map, List.length_map] at hlength
  rw [encode] at hnumber ⊢
  rw [eq_of_number_eq hlength hnumber]

/-- Only the empty text has no content. -/
theorem content_eq_nil_iff {text : List Char} (h : Canonical text) :
    content text = [] ↔ text = [] := by
  constructor
  · intro hnil
    rw [← encode_content h, hnil]
    rfl
  · rintro rfl
    rfl

/-- Reading accepts the canonical texts, and yields their content. -/
theorem decode_eq_ok_iff_canonical {text : List Char} {bytes : Bytes} :
    decode (Bytes.ofChars text) = .ok bytes ↔ Canonical text ∧ bytes = content text := by
  rw [decode_eq_ok_iff]
  constructor
  · rintro rfl
    exact ⟨canonical_encode bytes, (content_encode bytes).symm⟩
  · rintro ⟨hcanonical, rfl⟩
    exact encode_content hcanonical

end KeyStretching.Base64Url
