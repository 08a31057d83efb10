import KeyStretching.Cost.Basic
import KeyStretching.Text.Base64Url
import KeyStretching.Text.Hex

/-!
# Errors

All failures follow from the input: cost parameters that are not admissible, counts and lengths out
of range, an unknown algorithm, or a stored credential that cannot be read. Every cause is a value
of its own that carries what the caller needs to tell one from another; `Error.message` puts it
into words.
-/

namespace KeyStretching

/-- Why a text is not a credential. -/
inductive FormatError where
  /-- The delimiters do not make five fields. -/
  | fieldCount (found : Nat)
  /-- Something stands in front of the first delimiter. -/
  | noLeadingDelimiter
  /-- The tag is that of another format. -/
  | tag (found expected : String)
  /-- The header is not a hexadecimal word. -/
  | header (field : String)
  /-- The header sets bits outside its layout. -/
  | reservedBits (word : UInt32)
  /-- The salt is not base64url. -/
  | salt (cause : Base64Url.DecodeError)
  /-- The derived key is not base64url. -/
  | derivedKey (cause : Base64Url.DecodeError)
  /-- The derived key is empty, and so would match every password. -/
  | emptyDerivedKey
  deriving DecidableEq, Repr

/-- The wording of the fault. -/
def FormatError.message : FormatError → String
  | fieldCount found => s!"expected 5 '$'-delimited fields, found {found}"
  | noLeadingDelimiter => "credential must start with '$'"
  | tag found expected => s!"unknown version tag '{found}', expected '{expected}'"
  | header field => s!"parameter field '{field}' is not valid hexadecimal"
  | reservedBits word =>
    "parameter field 0x" ++ String.ofList (Hex.write word) ++ " sets reserved bits"
  | salt cause => "salt is not valid base64url: " ++ cause.message
  | derivedKey cause => "derived key is not valid base64url: " ++ cause.message
  | emptyDerivedKey => "derived key is empty"

/-- Why an operation fails. -/
inductive Error where
  /-- The cost parameters are not admissible. -/
  | cost (cause : CostError)
  /-- The iteration count is zero, or too large for a credential. -/
  | iterationCount (count : UInt32)
  /-- A credential is asked for with an empty key. -/
  | emptyKey
  /-- The key is longer than can be derived. -/
  | keyTooLong (requested maximum : Nat)
  /-- The text is not a credential. -/
  | format (cause : FormatError)
  /-- The code is not that of an algorithm. -/
  | unsupportedAlgorithm (code : UInt8)
  deriving DecidableEq, Repr

/-- The wording of the failure. -/
def Error.message : Error → String
  | cost cause => "invalid scrypt parameters: " ++ cause.message
  | iterationCount count => s!"iteration count {count} is out of range"
  | emptyKey => "derived key length must be at least 1 byte"
  | keyTooLong requested maximum =>
    s!"derived key length {requested} exceeds the PBKDF2 maximum of {maximum} bytes"
  | format cause => "malformed credential: " ++ cause.message
  | unsupportedAlgorithm code => s!"unsupported HMAC algorithm code {code}"

instance : ToString Error := ⟨Error.message⟩

end KeyStretching
