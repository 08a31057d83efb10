import KeyStretching.Credential.Envelope
import KeyStretching.Log
import KeyStretching.Password

/-!
# Stored credentials

A credential holds what it takes to check a password later: a header with algorithm and cost, a
salt, and the key derived from the password with them. The kinds of credential differ in their
headers (`Header`); writing, reading and checking is the same for all.

* `write` and `read` turn a credential into text and back;
* `verify` derives the key of a password again and compares it;
* `check` does so for a written credential, and fails where that cannot be read;
* `accepts` refuses such a credential instead, and reports why.
-/

namespace KeyStretching

/-- The headers of one kind of credential. -/
class Header (H : Type) where
  /-- The tag that written credentials of the kind start with. -/
  tag : String
  /-- The name of the kind in reports. -/
  kind : String
  /-- The word that a header is packed into. -/
  pack : H → UInt32
  /-- The header that a word holds. -/
  unpack : UInt32 → Except Error H
  /-- Fails for a header that no new credential may have. -/
  checkNew : H → Except Error Unit
  /-- The key of a given length for a password and a salt. -/
  derive : H → (password salt : Bytes) → (keyLen : Nat) → Logged (Except Error Bytes)

/-- A credential with a header of type `H`. -/
structure Credential (H : Type) where
  header : H
  salt : Bytes
  /-- The key derived from the password. -/
  derived : Bytes
  deriving DecidableEq

namespace Credential

variable {H : Type} [Header H]

/-- The word that the header of a credential is packed into. -/
def packed (c : Credential H) : UInt32 := Header.pack c.header

/-- The text of a credential. -/
def write (c : Credential H) : String :=
  Envelope.write (Header.tag H) ⟨c.packed, c.salt, c.derived⟩

/-- The credential that a text stands for. -/
def read (text : String) : Except Error (Credential H) :=
  match Envelope.read (Header.tag H) text with
  | .error e => .error (.format e)
  | .ok envelope =>
    (Header.unpack envelope.header).map fun header => ⟨header, envelope.salt, envelope.derived⟩

instance : ToString (Credential H) := ⟨write⟩

/-- Whether the password derives the key of the credential. -/
def verify (c : Credential H) (password : Password) : Logged (Except Error Bool) := do
  let key ← Header.derive c.header password.bytes c.salt c.derived.length
  pure (key.map (· == c.derived))

variable (H) in
/-- Whether the password derives the key of a written credential. -/
def check (password : Password) (text : String) : Logged (Except Error Bool) :=
  match (read text : Except Error (Credential H)) with
  | .error e => pure (.error e)
  | .ok c => c.verify password

variable (H) in
/-- Whether the password opens a written credential; one that cannot be checked is opened by no
    password, and a warning tells why. -/
def accepts (password : Password) (text : String) : Logged Bool := do
  match ← check H password text with
  | .ok valid => pure valid
  | .error e =>
    Logged.emit (.rejecting (Header.kind H) e)
    pure false

end Credential

end KeyStretching
