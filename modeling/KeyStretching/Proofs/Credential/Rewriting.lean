import KeyStretching.Proofs.Credential.Grammar

/-!
# Writing again what was read

A text that reads as a credential is written again as it was, except that the digits of its header
are put into lower case and leading zeros are dropped (`write_of_read`). So the texts of one
credential differ in the spelling of its header alone (`eq_iff_alike`), and writing again changes
nothing further. `Rewritten` gathers what this means for a text, and `rewritten` says it for both
kinds of credentials.
-/

namespace KeyStretching

namespace Envelope

/-- The text with its third field in lower case and without leading zeros. -/
def normalize (text : String) : String :=
  String.ofList ([delimiter].intercalate ((text.toList.splitOn delimiter).modify 2 Hex.strip))

example : normalize "$s0$000E0801$c2FsdA$a2V5" = "$s0$e0801$c2FsdA$a2V5" := by decide +kernel

/-- The texts have the same five fields, except that the third may differ in the case of its digits
    and in leading zeros. -/
def Alike (text text' : String) : Prop :=
  ∃ lead tag header header' salt key,
    text.toList.splitOn delimiter = [lead, tag, header, salt, key] ∧
      text'.toList.splitOn delimiter = [lead, tag, header', salt, key] ∧
      Hex.strip header = Hex.strip header'

variable {tag text : String} (htag : delimiter ∉ tag.toList) {header salt key : List Char}

include htag

/-- What the fields of a text hold is written again with the digits of the header stripped. -/
theorem write_of_shape (h : Shape tag text header salt key) (hne : Hex.number header ≠ 0) :
    write tag ⟨UInt32.ofNat (Hex.number header), Base64Url.content salt, Base64Url.content key⟩ =
      normalize text := by
  rw [write, normalize, h.splitOn htag, Hex.write_number h.header_word hne,
    Base64Url.encode_content h.salt_canonical, Base64Url.encode_content h.key_canonical]
  simp [List.modify]

omit htag

theorem Alike.normalize_eq {text' : String} (h : Alike text text') :
    normalize text = normalize text' := by
  obtain ⟨lead, tag, header, header', salt, key, hsplit, hsplit', hstrip⟩ := h
  rw [normalize, normalize, hsplit, hsplit']
  simp [List.modify, hstrip]

end Envelope

namespace Credential

variable {H : Type} [Header H]

variable (H) in
/-- Reads a text and writes what was read. -/
def rewrite (text : String) : Except Error String :=
  (read text : Except Error (Credential H)).map write

/-- What there is to say about writing the text again that was read as the credential. -/
structure Rewritten (text : String) (c : Credential H) : Prop where
  /-- The third field is put into lower case and loses its leading zeros; nothing else changes. -/
  write_eq : c.write = Envelope.normalize text
  /-- The texts of the same credential differ in the spelling of the third field alone. -/
  eq_iff_alike (text' : String) (c' : Credential H) : read text' = .ok c' →
    (c = c' ↔ Envelope.Alike text text')
  /-- Writing again is idempotent. -/
  rewrite_bind_rewrite : rewrite H text >>= rewrite H = rewrite H text

variable [LawfulHeader H] [ExactHeader H] {text text' : String} {c c' : Credential H}

/-- The fields of a text are what is written for the parts of the credential. -/
theorem exists_shape (h : read text = .ok c) :
    ∃ header salt key, Envelope.Shape (Header.tag H) text header salt key ∧
      Hex.number header ≠ 0 ∧ c.packed = UInt32.ofNat (Hex.number header) ∧
      c.salt = Base64Url.content salt ∧ c.derived = Base64Url.content key := by
  obtain ⟨header, salt, key, hshape, hunpack, hsalt, hkey⟩ :=
    (read_eq_ok_iff LawfulHeader.delimiter_notMem_tag).1 h
  have hne : Hex.number header ≠ 0 := by
    intro hzero
    rw [hzero] at hunpack
    exact ExactHeader.ne_zero_of_unpack hunpack rfl
  exact ⟨header, salt, key, hshape, hne, ExactHeader.pack_of_unpack hunpack, hsalt, hkey⟩

/-- What was read is written again with the digits of its header stripped. -/
theorem write_of_read (h : read text = .ok c) : c.write = Envelope.normalize text := by
  obtain ⟨header, salt, key, hshape, hne, hpacked, hsalt, hkey⟩ := exists_shape h
  rw [write, hpacked, hsalt, hkey,
    Envelope.write_of_shape LawfulHeader.delimiter_notMem_tag hshape hne]

/-- What was read reads back from what is written for it. -/
theorem read_write_of_read (h : read text = .ok c) : read c.write = .ok c := by
  rw [read_write (checkNew_of_read h), if_neg (derived_ne_nil_of_read h)]

/-- Two texts read as the same credential if they differ in the spelling of the header alone. -/
theorem eq_iff_alike (h : read text = .ok c) (h' : read text' = .ok c') :
    c = c' ↔ Envelope.Alike text text' := by
  constructor
  · rintro rfl
    obtain ⟨header, salt, key, hshape, hne, hpacked, hsalt, hkey⟩ := exists_shape h
    obtain ⟨header', salt', key', hshape', hne', hpacked', hsalt', hkey'⟩ := exists_shape h'
    -- Each field of either text is what is written for the same part.
    have hheader : Hex.strip header = Hex.strip header' := by
      rw [← Hex.write_number hshape.header_word hne, ← Hex.write_number hshape'.header_word hne',
        ← hpacked, ← hpacked']
    have hsalts : salt = salt' := by
      rw [← Base64Url.encode_content hshape.salt_canonical,
        ← Base64Url.encode_content hshape'.salt_canonical, ← hsalt, ← hsalt']
    have hkeys : key = key' := by
      rw [← Base64Url.encode_content hshape.key_canonical,
        ← Base64Url.encode_content hshape'.key_canonical, ← hkey, ← hkey']
    subst hsalts hkeys
    exact ⟨_, _, header, header', salt, key, hshape.splitOn LawfulHeader.delimiter_notMem_tag,
      hshape'.splitOn LawfulHeader.delimiter_notMem_tag, hheader⟩
  · intro halike
    have hwritten : c.write = c'.write := by
      rw [write_of_read h, write_of_read h', halike.normalize_eq]
    have hread := read_write_of_read h
    rw [hwritten, read_write_of_read h'] at hread
    exact (Except.ok.inj hread).symm

omit [LawfulHeader H] [ExactHeader H] in
theorem rewrite_of_read (h : read text = .ok c) : rewrite H text = pure c.write := by
  rw [rewrite, h]
  rfl

theorem rewritten_of_read (h : read text = .ok c) : Rewritten text c where
  write_eq := write_of_read h
  eq_iff_alike _ _ h' := eq_iff_alike h h'
  rewrite_bind_rewrite := by
    rw [rewrite_of_read h, pure_bind, rewrite_of_read (read_write_of_read h)]

omit [Header H] [LawfulHeader H] [ExactHeader H]

/-- Texts of both kinds are written again as they were read, up to the spelling of the header. -/
theorem rewritten (text : String) :
    (∀ c : Credential ScryptHeader, read text = .ok c → Rewritten text c) ∧
      (∀ c : Credential HmacHeader, read text = .ok c → Rewritten text c) :=
  ⟨fun _ h => rewritten_of_read h, fun _ h => rewritten_of_read h⟩

/-- With zeros in front of the header, and digits of either case. -/
theorem rewritten_mixed_case :
    (∃ c : Credential ScryptHeader, read "$s0$000E080f$c2FsdA$a2V5" = .ok c ∧
        c.write = "$s0$e080f$c2FsdA$a2V5") ∧
      ∃ c : Credential HmacHeader, read "$h0$0100aBcD$$_w" = .ok c ∧
        c.write = "$h0$100abcd$$_w" := by
  have hscrypt : read "$s0$000E080f$c2FsdA$a2V5" = .ok (⟨⟨.hmacSha256, 14, 8, 15, by decide,
      by decide, by decide, by decide⟩, [0x73, 0x61, 0x6c, 0x74], [0x6b, 0x65, 0x79]⟩ :
        Credential ScryptHeader) := by
    decide +kernel
  have hhmac : read "$h0$0100aBcD$$_w" =
      .ok (⟨⟨.hmacSha224, 0xabcd⟩, [], [0xff]⟩ : Credential HmacHeader) := by
    decide +kernel
  refine ⟨⟨_, hscrypt, ?_⟩, _, hhmac, ?_⟩
  · rw [((rewritten _).1 _ hscrypt).write_eq]
    decide +kernel
  · rw [((rewritten _).2 _ hhmac).write_eq]
    decide +kernel

end Credential

end KeyStretching
