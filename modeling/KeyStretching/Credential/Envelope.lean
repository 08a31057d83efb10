import KeyStretching.Error

/-!
# The written form of credentials

All kinds of credential are written alike: a tag that names the kind, a header word that packs
algorithm and cost, the salt and the derived key, each behind a delimiter.

    $tag$header$salt$key

The header is hexadecimal, salt and key are unpadded base64url. `read` undoes `write`, except that
it refuses an empty key, and reports the first rule that a text breaks, field by field.
-/

namespace KeyStretching

/-- What stands in a written credential behind the tag. -/
structure Envelope where
  /-- The packed algorithm and cost. -/
  header : UInt32
  salt : Bytes
  derived : Bytes
  deriving DecidableEq, Repr

namespace Envelope

/-- What stands in front of every field. -/
def delimiter : Char := '$'

/-- Writes an envelope under a tag. -/
def write (tag : String) (e : Envelope) : String :=
  String.ofList <|
    delimiter :: tag.toList ++ delimiter :: Hex.write e.header ++
      delimiter :: Base64Url.encode e.salt ++ delimiter :: Base64Url.encode e.derived

/-- The bytes of a base64url field. -/
def readField (text : List Char) : Except Base64Url.DecodeError Bytes :=
  Base64Url.decode (Bytes.ofChars text)

/-- Reads an envelope under a tag. -/
def read (tag : String) (text : String) : Except FormatError Envelope :=
  match text.toList.splitOn delimiter with
  | [lead, found, header, salt, derived] => do
    if lead ≠ [] then
      throw .noLeadingDelimiter
    if found ≠ tag.toList then
      throw (.tag (String.ofList found) tag)
    let some header := Hex.read? header | throw (.header (String.ofList header))
    let salt ← (readField salt).mapError .salt
    let derived ← (readField derived).mapError .derivedKey
    if derived = [] then
      throw .emptyDerivedKey
    pure ⟨header, salt, derived⟩
  | fields => throw (.fieldCount fields.length)

end Envelope

end KeyStretching
