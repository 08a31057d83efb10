import KeyStretching.Bytes

/-!
# Passwords

A password is a byte string; text becomes one by its UTF-8 encoding. It is a type of its own so that
nothing shows it by accident: it has a representation that says what it is and not which.
-/

namespace KeyStretching

/-- A password. -/
structure Password where
  /-- The bytes of the password. -/
  bytes : Bytes
  deriving DecidableEq

namespace Password

/-- The password that a text stands for. -/
def ofText (text : String) : Password := ⟨Bytes.ofChars text.toList⟩

/-- The length of the password in bytes. -/
def length (password : Password) : Nat := password.bytes.length

/-- Whether the password has no bytes. -/
def isEmpty (password : Password) : Bool := password.bytes.isEmpty

/-- What is left of a password that is wiped. -/
def wiped (_ : Password) : Password := ⟨[]⟩

/-- What is shown of a password, whichever it is. -/
def shown (_ : Password) : String := "Password(<redacted>)"

instance : Repr Password := ⟨fun password _ => password.shown⟩

instance : ToString Password := ⟨shown⟩

end Password

end KeyStretching
