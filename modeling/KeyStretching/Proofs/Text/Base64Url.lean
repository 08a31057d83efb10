import KeyStretching.Proofs.Text.Ascii
import KeyStretching.Text.Base64Url
import Mathlib.Data.List.TakeWhile

/-!
# Reading back base64url

Every symbol is a single byte of text that stands for its six bits (`sextet?_symbol`), and groups of
six bits make up the bytes they were taken from (`octets_sextets`). So what is written reads back as
it was (`decode_encode`), for every length: the bits that one or two bytes left over do not use are
written as zero, as reading demands.
-/

namespace KeyStretching.Base64Url

/-! ## Symbols -/

theorem toNat_symbol_lt (s : Fin 64) : (symbol s).toNat < 128 := by
  revert s
  decide

/-- A symbol stands for its six bits. -/
theorem sextet?_symbol (s : Fin 64) : sextet? (symbol s).toUInt8 = some s := by
  revert s
  decide +kernel

/-- A symbol is a single byte of text. -/
theorem ofChars_map_symbol (ss : List (Fin 64)) :
    Bytes.ofChars (ss.map symbol) = ss.map fun s => (symbol s).toUInt8 := by
  rw [Ascii.ofChars_eq_map (List.forall_mem_map.2 fun s _ => toNat_symbol_lt s), List.map_map]
  rfl

/-! ## Groups of six bits -/

/-- The six high bits of a byte and its two low ones make up the byte. -/
theorem firstOctet (a : UInt8) {t : Nat} (ht : t < 16) :
    UInt8.ofNat ((Fin.ofNat 64 (a.toNat / 4)).val * 4 +
      (Fin.ofNat 64 (a.toNat % 4 * 16 + t)).val / 16) = a := by
  have ha := a.toNat_lt
  rw [← UInt8.toNat_inj, UInt8.toNat_ofNat', Fin.val_ofNat, Fin.val_ofNat]
  omega

/-- The four high bits of a byte and its four low ones make up the byte. -/
theorem secondOctet (b : UInt8) {s t : Nat} (ht : t < 4) :
    UInt8.ofNat ((Fin.ofNat 64 (s * 16 + b.toNat / 16)).val % 16 * 16 +
      (Fin.ofNat 64 (b.toNat % 16 * 4 + t)).val / 4) = b := by
  have hb := b.toNat_lt
  rw [← UInt8.toNat_inj, UInt8.toNat_ofNat', Fin.val_ofNat, Fin.val_ofNat]
  omega

/-- The two high bits of a byte and its six low ones make up the byte. -/
theorem thirdOctet (c : UInt8) {s : Nat} :
    UInt8.ofNat ((Fin.ofNat 64 (s * 4 + c.toNat / 64)).val % 4 * 64 +
      (Fin.ofNat 64 (c.toNat % 64)).val) = c := by
  have hc := c.toNat_lt
  rw [← UInt8.toNat_inj, UInt8.toNat_ofNat', Fin.val_ofNat, Fin.val_ofNat]
  omega

/-- Groups of six bits make up the bytes that they were taken from. -/
theorem octets_sextets (offset : Nat) (bytes : Bytes) :
    octets offset (sextets bytes) = .ok bytes := by
  fun_induction sextets bytes generalizing offset with
  | case1 => rfl
  | case2 a =>
    -- One byte is left over: of its second symbol, the low four bits are not used.
    have hunused : (Fin.ofNat 64 (a.toNat % 4 * 16)).val % 16 = 0 := by
      rw [Fin.val_ofNat]
      omega
    have hfirst := firstOctet a (t := 0) (by decide)
    rw [Nat.add_zero] at hfirst
    rw [octets, if_pos hunused, hfirst]
  | case3 a b =>
    -- Two bytes are left over: of their third symbol, the low two bits are not used.
    have hb := b.toNat_lt
    have hunused : (Fin.ofNat 64 (b.toNat % 16 * 4)).val % 4 = 0 := by
      rw [Fin.val_ofNat]
      omega
    have hsecond := secondOctet b (s := a.toNat % 4) (t := 0) (by decide)
    rw [Nat.add_zero] at hsecond
    rw [octets, if_pos hunused, firstOctet a (by omega), hsecond]
  | case4 a b c rest ih =>
    have hb := b.toNat_lt
    have hc := c.toNat_lt
    rw [octets, ih, firstOctet a (by omega), secondOctet b (by omega), thirdOctet c]
    rfl

/-- A text of symbols is read by their groups of six bits. -/
theorem decode_map_symbol (ss : List (Fin 64)) :
    decode (Bytes.ofChars (ss.map symbol)) = octets 0 ss := by
  -- Reading stops at what is no symbol, so it does not stop.
  have hsymbols : ∀ b ∈ ss.map fun s => (symbol s).toUInt8, isSymbol b = true := by
    intro b hb
    obtain ⟨s, _, rfl⟩ := List.mem_map.1 hb
    rw [isSymbol, sextet?_symbol, Option.isSome_some]
  rw [ofChars_map_symbol, decode, List.dropWhile_eq_nil_iff.2 hsymbols]
  simp only [List.filterMap_map, Function.comp_def, sextet?_symbol, List.filterMap_some]

/-- What is written reads back as it was. -/
theorem decode_encode (bytes : Bytes) : decode (Bytes.ofChars (encode bytes)) = .ok bytes := by
  rw [encode, decode_map_symbol, octets_sextets]

/-- What is written consists of symbols. -/
theorem exists_symbol_of_mem_encode {bytes : Bytes} {c : Char} (h : c ∈ encode bytes) :
    ∃ s, symbol s = c := by
  obtain ⟨s, _, hs⟩ := List.mem_map.1 h
  exact ⟨s, hs⟩

end KeyStretching.Base64Url
