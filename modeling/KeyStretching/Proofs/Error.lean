import KeyStretching.Error
import KeyStretching.Proofs.Text.Hex
import KeyStretching.Proofs.Text.Wording
import Mathlib.Data.Set.Function

/-!
# Wordings of errors

The wording of an error is all that is left of it in the log. Texts that were read are put into it
as they are, between quotation marks that they may hold themselves, and yet it identifies the error:
the openings of the wordings tell the kinds apart, a text is filled in only once before the end of a
wording is known, and numbers end where their digits do.

* `CostError.message_injective`, `Base64Url.DecodeError.message_injective`: no two faults of cost
  parameters or of base64url have the same wording;
* `FormatError.injOn_message`, `Error.injOn_message`: nor do two errors, if the tags that they name
  as expected are those of credentials (`Reportable`).
-/

namespace KeyStretching

theorem Hex.write_injective : Function.Injective write := by
  intro v w h
  have hread := congrArg read? h
  rw [read?_write, read?_write] at hread
  exact Option.some.inj hread

/-! ## Cost parameters -/

namespace CostError

/-- What the wordings of each kind start with. -/
def openings : List String :=
  ["N must be a power of two greater than 1, got ", "block size r must be at least 1",
    "parallelization p must be at least 1", "block size r = ", "cost N = ", "log2(N) = "]

/-- The kind of a fault. -/
def kind : CostError → Nat
  | notPowerOfTwo _ => 0
  | zeroBlockSize => 1
  | zeroParallelism => 2
  | blockSizeTooLarge .. => 3
  | costTooLarge .. => 4
  | logOutOfRange _ => 5

theorem toldApart : ToldApart message kind openings where
  prefixFree := by decide
  startsWith e := by
    cases e with
    | notPowerOfTwo n => exact ⟨_, rfl, (StartsWith.refl _).append _⟩
    | zeroBlockSize => exact ⟨_, rfl, .refl _⟩
    | zeroParallelism => exact ⟨_, rfl, .refl _⟩
    | blockSizeTooLarge r p => exact ⟨_, rfl, (((StartsWith.refl _).append _).append _).append _⟩
    | costTooLarge n r => exact ⟨_, rfl, (((StartsWith.refl _).append _).append _).append _⟩
    | logOutOfRange logN => exact ⟨_, rfl, ((StartsWith.refl _).append _).append _⟩

/-- A wording tells the fault. -/
theorem message_injective : Function.Injective message := by
  intro e e' h
  -- Faults of different kinds are ruled out by the openings of their wordings.
  match e, e', toldApart.kind_eq h, h with
  | notPowerOfTwo n, notPowerOfTwo n', _, h =>
    rw [UInt32.toNat_inj.1 (Decimal.behind_inj h)]
  | zeroBlockSize, zeroBlockSize, _, _ => rfl
  | zeroParallelism, zeroParallelism, _, _ => rfl
  | blockSizeTooLarge r p, blockSizeTooLarge r' p', _, h =>
    obtain ⟨hr, hp⟩ := Decimal.pair_inj (by decide) h
    rw [UInt32.toNat_inj.1 hr, UInt32.toNat_inj.1 hp]
  | costTooLarge n r, costTooLarge n' r', _, h =>
    obtain ⟨hn, hr⟩ := Decimal.pair_inj (by decide) h
    rw [UInt32.toNat_inj.1 hn, UInt32.toNat_inj.1 hr]
  | logOutOfRange logN, logOutOfRange logN', _, h =>
    rw [UInt8.toNat_inj.1 (Decimal.between_inj h)]

end CostError

/-! ## Base64url -/

namespace Base64Url.DecodeError

/-- What the wordings of each kind start with. -/
def openings : List String :=
  ["Invalid symbol ", "Invalid input length: ", "Invalid last symbol ", "Invalid padding"]

/-- The kind of a fault. -/
def kind : DecodeError → Nat
  | invalidByte .. => 0
  | invalidLength _ => 1
  | invalidLastSymbol .. => 2
  | invalidPadding => 3

theorem toldApart : ToldApart message kind openings where
  prefixFree := by decide
  startsWith e := by
    cases e with
    | invalidByte byte offset =>
      exact ⟨_, rfl, ((((StartsWith.refl _).append _).append _).append _).append _⟩
    | invalidLength length => exact ⟨_, rfl, (StartsWith.refl _).append _⟩
    | invalidLastSymbol byte offset =>
      exact ⟨_, rfl, ((((StartsWith.refl _).append _).append _).append _).append _⟩
    | invalidPadding => exact ⟨_, rfl, .refl _⟩

/-- A wording tells the fault. -/
theorem message_injective : Function.Injective message := by
  intro e e' h
  match e, e', toldApart.kind_eq h, h with
  | invalidByte byte offset, invalidByte byte' offset', _, h
  | invalidLastSymbol byte offset, invalidLastSymbol byte' offset', _, h =>
    obtain ⟨hbyte, hoffset⟩ := Decimal.pair_inj (by decide) ((String.append_left_inj _).1 h)
    rw [UInt8.toNat_inj.1 hbyte, hoffset]
  | invalidLength length, invalidLength length', _, h => rw [Decimal.behind_inj h]
  | invalidPadding, invalidPadding, _, _ => rfl

end Base64Url.DecodeError

/-! ## Format -/

namespace FormatError

/-- What the wordings of each kind start with. -/
def openings : List String :=
  ["expected 5 '$'-delimited fields, found ", "credential must start with '$'",
    "unknown version tag '", "parameter field '", "parameter field 0x",
    "salt is not valid base64url: ", "derived key is not valid base64url: ", "derived key is empty"]

/-- The kind of a fault. -/
def kind : FormatError → Nat
  | fieldCount _ => 0
  | noLeadingDelimiter => 1
  | tag .. => 2
  | header _ => 3
  | reservedBits _ => 4
  | salt _ => 5
  | derivedKey _ => 6
  | emptyDerivedKey => 7

theorem toldApart : ToldApart message kind openings where
  prefixFree := by decide
  startsWith e := by
    cases e with
    | fieldCount found => exact ⟨_, rfl, (StartsWith.refl _).append _⟩
    | noLeadingDelimiter => exact ⟨_, rfl, .refl _⟩
    | tag found expected =>
      exact ⟨_, rfl, ((((StartsWith.refl _).append _).append _).append _).append _⟩
    | header field => exact ⟨_, rfl, ((StartsWith.refl _).append _).append _⟩
    | reservedBits word => exact ⟨_, rfl, ((StartsWith.refl _).append _).append _⟩
    | salt cause => exact ⟨_, rfl, (StartsWith.refl _).append _⟩
    | derivedKey cause => exact ⟨_, rfl, (StartsWith.refl _).append _⟩
    | emptyDerivedKey => exact ⟨_, rfl, .refl _⟩

/-- A tag that is named as expected is that of a kind of credential. The texts that were found and
    all numbers are arbitrary. -/
def Reportable : FormatError → Prop
  | tag _ expected => expected = "s0" ∨ expected = "h0"
  | _ => True

/-- The tags of credentials have one length. -/
theorem length_eq_of_tag {s t : String} (hs : s = "s0" ∨ s = "h0") (ht : t = "s0" ∨ t = "h0") :
    s.toList.length = t.toList.length := by
  rcases hs with rfl | rfl <;> rcases ht with rfl | rfl <;> decide

/-- A wording tells the fault. -/
theorem injOn_message : Set.InjOn message {e | e.Reportable} := by
  intro e he e' he' h
  match e, e', toldApart.kind_eq h, h, he, he' with
  | fieldCount found, fieldCount found', _, h, _, _ => rw [Decimal.behind_inj h]
  | noLeadingDelimiter, noLeadingDelimiter, _, _, _, _ => rfl
  | tag found expected, tag found' expected', _, h, he, he' =>
    -- The tag that was found may hold what stands behind it, so the wording is read from its end.
    have htexts : "unknown version tag '" ++ found ++ "', expected '" ++ expected =
        "unknown version tag '" ++ found' ++ "', expected '" ++ expected' :=
      (String.append_left_inj _).1 h
    obtain ⟨hfound, hexpected⟩ := append_inj_of_length htexts (length_eq_of_tag he he')
    rw [String.append_left_inj, String.append_right_inj] at hfound
    rw [hfound, hexpected]
  | header field, header field', _, h, _, _ =>
    have hfield : field = field' := (String.append_right_inj _).1 ((String.append_left_inj _).1 h)
    rw [hfield]
  | reservedBits word, reservedBits word', _, h, _, _ =>
    have hdigits := (String.append_right_inj _).1 ((String.append_left_inj _).1 h)
    rw [Hex.write_injective (String.ofList_injective hdigits)]
  | salt cause, salt cause', _, h, _, _
  | derivedKey cause, derivedKey cause', _, h, _, _ =>
    rw [Base64Url.DecodeError.message_injective ((String.append_right_inj _).1 h)]
  | emptyDerivedKey, emptyDerivedKey, _, _, _, _ => rfl

end FormatError

/-! ## Errors -/

namespace Error

/-- What the wordings of each kind start with. -/
def openings : List String :=
  ["invalid scrypt parameters: ", "iteration count ", "derived key length ",
    "malformed credential: ", "unsupported HMAC algorithm code "]

/-- The kind of an error; both that are about the length of a key are of one kind. -/
def kind : Error → Nat
  | cost _ => 0
  | iterationCount _ => 1
  | emptyKey | keyTooLong .. => 2
  | format _ => 3
  | unsupportedAlgorithm _ => 4

theorem message_emptyKey :
    emptyKey.message = "derived key length " ++ "must be at least 1 byte" := by decide

theorem toldApart : ToldApart message kind openings where
  prefixFree := by decide
  startsWith e := by
    cases e with
    | cost cause => exact ⟨_, rfl, (StartsWith.refl _).append _⟩
    | iterationCount count => exact ⟨_, rfl, ((StartsWith.refl _).append _).append _⟩
    | emptyKey => exact ⟨_, rfl, _, message_emptyKey⟩
    | keyTooLong requested maximum =>
      exact ⟨_, rfl, ((((StartsWith.refl _).append _).append _).append _).append _⟩
    | format cause => exact ⟨_, rfl, (StartsWith.refl _).append _⟩
    | unsupportedAlgorithm code => exact ⟨_, rfl, (StartsWith.refl _).append _⟩

/-- The number behind the common opening tells the two kinds apart that have it. -/
theorem message_emptyKey_ne_keyTooLong (requested maximum : Nat) :
    emptyKey.message ≠ (keyTooLong requested maximum).message := by
  intro h
  have hwords : emptyKey.message = "derived key length " ++ toString requested ++
      " exceeds the PBKDF2 maximum of " ++ toString maximum ++ " bytes" := h
  simp only [message_emptyKey, String.append_assoc, String.append_right_inj] at hwords
  have hoff : Decimal.OffDigits "must be at least 1 byte" := by decide
  rw [hwords] at hoff
  exact Decimal.not_offDigits _ _ hoff

/-- Faults of the format have tags of credentials; all other errors are arbitrary. -/
def Reportable : Error → Prop
  | format cause => cause.Reportable
  | _ => True

/-- A wording tells the error. -/
theorem injOn_message : Set.InjOn message {e | e.Reportable} := by
  intro e he e' he' h
  match e, e', toldApart.kind_eq h, h, he, he' with
  | cost cause, cost cause', _, h, _, _ =>
    rw [CostError.message_injective ((String.append_right_inj _).1 h)]
  | iterationCount count, iterationCount count', _, h, _, _ =>
    rw [UInt32.toNat_inj.1 (Decimal.between_inj h)]
  | emptyKey, emptyKey, _, _, _, _ => rfl
  | emptyKey, keyTooLong requested maximum, _, h, _, _ =>
    exact absurd h (message_emptyKey_ne_keyTooLong requested maximum)
  | keyTooLong requested maximum, emptyKey, _, h, _, _ =>
    exact absurd h.symm (message_emptyKey_ne_keyTooLong requested maximum)
  | keyTooLong requested maximum, keyTooLong requested' maximum', _, h, _, _ =>
    obtain ⟨hrequested, hmaximum⟩ := Decimal.pair_inj (by decide) ((String.append_left_inj _).1 h)
    rw [hrequested, hmaximum]
  | format cause, format cause', _, h, he, he' =>
    rw [FormatError.injOn_message he he' ((String.append_right_inj _).1 h)]
  | unsupportedAlgorithm code, unsupportedAlgorithm code', _, h, _, _ =>
    rw [UInt8.toNat_inj.1 (Decimal.behind_inj h)]

end Error

/-- Tags of other lengths could be confused with what is found. -/
example : (FormatError.tag "a" "b', expected 's0").message =
    (FormatError.tag "a', expected 'b" "s0").message := by decide

end KeyStretching
