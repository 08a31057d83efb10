import KeyStretching.Proofs.Credential.Checking
import KeyStretching.Proofs.Credential.Unpacking
import KeyStretching.Proofs.Text.Base64Url.Canonical
import KeyStretching.Proofs.Text.Hex.Digits

/-!
# The grammar of credentials

The shape of a written credential is that of its fields (`Envelope.Shape`): behind the tag stand the
digits of a word, and a salt and a key in canonical base64url. A text of that shape reads as a
credential if the fields that stand in the word are in range.

* `Envelope.read_eq_ok_iff`: reading accepts exactly the texts of the shape;
* `Grammatical`: how a kind of credentials reads by its grammar;
* `grammatical`: both kinds read by their grammar.
-/

namespace KeyStretching

namespace Envelope

/-- The text has the shape of a credential under the tag, with these fields. -/
structure Shape (tag text : String) (header salt key : List Char) : Prop where
  toList_eq : text.toList = '$' :: tag.toList ++ '$' :: header ++ '$' :: salt ++ '$' :: key
  header_word : Hex.IsWord header
  salt_canonical : Base64Url.Canonical salt
  key_canonical : Base64Url.Canonical key
  key_ne_nil : key ≠ []

theorem delimiter_notMem_of_isWord {field : List Char} (h : Hex.IsWord field) :
    delimiter ∉ field := by
  intro hmem
  exact absurd (h.digits _ hmem) (by decide)

theorem delimiter_notMem_of_canonical {field : List Char} (h : Base64Url.Canonical field) :
    delimiter ∉ field := by
  intro hmem
  exact absurd (h.symbols _ hmem) (by decide)

/-- A text is its fields with delimiters between them. -/
theorem toList_eq_of_splitOn {tag text : String} {header salt key : List Char}
    (h : text.toList.splitOn delimiter = [[], tag.toList, header, salt, key]) :
    text.toList = '$' :: tag.toList ++ '$' :: header ++ '$' :: salt ++ '$' :: key := by
  have hjoin : [delimiter].intercalate (text.toList.splitOn delimiter) = text.toList :=
    List.intercalate_splitOn delimiter
  rw [← hjoin, h]
  simp [delimiter]

variable {tag text : String} (htag : delimiter ∉ tag.toList) {header salt key : List Char}

include htag

/-- Splitting a text finds the fields of its shape. -/
theorem Shape.splitOn (h : Shape tag text header salt key) :
    text.toList.splitOn delimiter = [[], tag.toList, header, salt, key] := by
  have hfields : ∀ field ∈ [[], tag.toList, header, salt, key], delimiter ∉ field := by
    simp [htag, delimiter_notMem_of_isWord h.header_word,
      delimiter_notMem_of_canonical h.salt_canonical,
      delimiter_notMem_of_canonical h.key_canonical]
  rw [← List.splitOn_intercalate delimiter hfields (by simp), h.toList_eq]
  simp [delimiter]

/-- The texts that read as envelopes are those of the shape, and each field holds a part of what is
    read. -/
theorem read_eq_ok_iff {e : Envelope} :
    read tag text = .ok e ↔
      ∃ header salt key, Shape tag text header salt key ∧
        e = ⟨UInt32.ofNat (Hex.number header), Base64Url.content salt, Base64Url.content key⟩ := by
  constructor
  · intro h
    obtain ⟨header, salt, key, hfields, hheader, hsalt, hkey, hne⟩ := fields_of_read h
    obtain ⟨hword, hheader⟩ := Hex.read?_eq_some_iff.1 hheader
    obtain ⟨hsalt, hsalt'⟩ := Base64Url.decode_eq_ok_iff_canonical.1 hsalt
    obtain ⟨hkey, hkey'⟩ := Base64Url.decode_eq_ok_iff_canonical.1 hkey
    rw [hkey', Ne, Base64Url.content_eq_nil_iff hkey] at hne
    refine ⟨header, salt, key, ⟨toList_eq_of_splitOn hfields, hword, hsalt, hkey, hne⟩, ?_⟩
    rw [← hheader, ← hsalt', ← hkey']
  · rintro ⟨header, salt, key, h, rfl⟩
    have hsalt : readField salt = .ok (Base64Url.content salt) :=
      Base64Url.decode_eq_ok_iff_canonical.2 ⟨h.salt_canonical, rfl⟩
    have hkey : readField key = .ok (Base64Url.content key) :=
      Base64Url.decode_eq_ok_iff_canonical.2 ⟨h.key_canonical, rfl⟩
    have hne : Base64Url.content key ≠ [] :=
      mt (Base64Url.content_eq_nil_iff h.key_canonical).1 h.key_ne_nil
    rw [read, h.splitOn htag]
    simp only [ne_eq, not_true_eq_false, if_false, hsalt, hkey,
      Hex.read?_eq_some_iff.2 ⟨h.header_word, rfl⟩]
    exact if_neg hne

end Envelope

namespace Credential

variable {H : Type} [Header H] {text : String}

/-- A text reads as a credential if it has the shape of one and its word unpacks. -/
theorem read_eq_ok_iff (htag : Envelope.delimiter ∉ (Header.tag H).toList) {c : Credential H} :
    read text = .ok c ↔
      ∃ header salt key, Envelope.Shape (Header.tag H) text header salt key ∧
        Header.unpack (UInt32.ofNat (Hex.number header)) = .ok c.header ∧
        c.salt = Base64Url.content salt ∧ c.derived = Base64Url.content key := by
  constructor
  · intro h
    obtain ⟨envelope, henvelope, hunpack, hsalt, hkey⟩ := exists_envelope_of_read h
    obtain ⟨header, salt, key, hshape, rfl⟩ := (Envelope.read_eq_ok_iff htag).1 henvelope
    exact ⟨header, salt, key, hshape, hunpack, hsalt, hkey⟩
  · rintro ⟨header, salt, key, hshape, hunpack, hsalt, hkey⟩
    rw [read, (Envelope.read_eq_ok_iff htag).2 ⟨header, salt, key, hshape, rfl⟩]
    change (Header.unpack (UInt32.ofNat (Hex.number header))).map _ = _
    rw [hunpack, ← hsalt, ← hkey]
    rfl

variable (H) in
/-- The kind of credentials reads a text by its grammar: `tag` is its tag, `InRange` says which
    values its words may have, and `Holds` which header stands in a value. -/
structure Grammatical (tag : String) (InRange : Nat → Prop) (Holds : Nat → H → Prop)
    (text : String) : Prop where
  /-- A text is accepted if it has the shape of a credential, and its word a value in range. -/
  exists_read_iff : (∃ c : Credential H, read text = .ok c) ↔
    ∃ header salt key, Envelope.Shape tag text header salt key ∧ InRange (Hex.number header)
  /-- What is read is what the fields of the text hold. -/
  contents (c : Credential H) (header salt key : List Char) : read text = .ok c →
    Envelope.Shape tag text header salt key → Holds (Hex.number header) c.header ∧
      c.salt = Base64Url.content salt ∧ c.derived = Base64Url.content key

/-- A kind of credentials reads by its grammar if its words unpack by theirs. -/
theorem Grammatical.of_unpack {InRange : Nat → Prop} {Holds : Nat → H → Prop}
    (htag : Envelope.delimiter ∉ (Header.tag H).toList)
    (hexists : ∀ word, (∃ h, Header.unpack (H := H) word = .ok h) ↔ InRange word.toNat)
    (hholds : ∀ word (h : H), Header.unpack word = .ok h → Holds word.toNat h) (text : String) :
    Grammatical H (Header.tag H) InRange Holds text where
  exists_read_iff := by
    constructor
    · rintro ⟨c, hread⟩
      obtain ⟨header, salt, key, hshape, hunpack, -, -⟩ := (read_eq_ok_iff htag).1 hread
      refine ⟨header, salt, key, hshape, ?_⟩
      rw [← UInt32.toNat_ofNat_of_lt' (Hex.number_lt hshape.header_word)]
      exact (hexists _).1 ⟨c.header, hunpack⟩
    · rintro ⟨header, salt, key, hshape, hrange⟩
      rw [← UInt32.toNat_ofNat_of_lt' (Hex.number_lt hshape.header_word)] at hrange
      obtain ⟨h, hunpack⟩ := (hexists _).2 hrange
      exact ⟨⟨h, Base64Url.content salt, Base64Url.content key⟩,
        (read_eq_ok_iff htag).2 ⟨header, salt, key, hshape, hunpack, rfl, rfl⟩⟩
  contents c header salt key hread hshape := by
    obtain ⟨header', salt', key', hshape', hunpack, hsalt, hkey⟩ := (read_eq_ok_iff htag).1 hread
    -- The fields of a text are found by splitting it, so there is only one choice of them.
    have hfields := hshape'.splitOn htag
    rw [hshape.splitOn htag] at hfields
    simp only [List.cons.injEq, and_true, true_and] at hfields
    obtain ⟨rfl, rfl, rfl⟩ := hfields
    have hheld := hholds _ _ hunpack
    rw [UInt32.toNat_ofNat_of_lt' (Hex.number_lt hshape.header_word)] at hheld
    exact ⟨hheld, hsalt, hkey⟩

/-- Both kinds of credentials read every text by their grammar. -/
theorem grammatical (text : String) :
    Grammatical ScryptHeader "s0" ScryptHeader.InRange ScryptHeader.Holds text ∧
      Grammatical HmacHeader "h0" HmacHeader.InRange HmacHeader.Holds text := by
  constructor
  · exact Grammatical.of_unpack (by decide) (fun _ => ScryptHeader.exists_unpack_iff)
      (fun _ _ => ScryptHeader.unpack_eq_ok_iff.1) text
  · exact Grammatical.of_unpack (by decide) (fun _ => HmacHeader.exists_unpack_iff)
      (fun _ _ h => (HmacHeader.unpack_eq_ok_iff.1 h).2) text

/-- Digits of either case behind zeros, an empty salt, and a key of a single byte. -/
theorem grammatical_mixed_case :
    Envelope.Shape "s0" "$s0$003FfF01$$_w" "003FfF01".toList [] "_w".toList ∧
      ∃ c : Credential ScryptHeader, read "$s0$003FfF01$$_w" = .ok c ∧
        c.header.Holds 0x3fff01 ∧ c.salt = [] ∧ c.derived = [0xff] := by
  have hshape : Envelope.Shape "s0" "$s0$003FfF01$$_w" "003FfF01".toList [] "_w".toList :=
    ⟨by decide +kernel, by decide +kernel, by decide +kernel, by decide +kernel,
      by decide +kernel⟩
  obtain ⟨hscrypt, -⟩ := grammatical "$s0$003FfF01$$_w"
  obtain ⟨c, hread⟩ := hscrypt.exists_read_iff.2
    ⟨_, _, _, hshape, by decide +kernel, by decide +kernel, by decide +kernel, by decide +kernel,
      by decide +kernel⟩
  obtain ⟨hheld, hsalt, hkey⟩ := hscrypt.contents c _ _ _ hread hshape
  exact ⟨hshape, c, hread, hheld, hsalt, hkey⟩

end Credential

end KeyStretching
