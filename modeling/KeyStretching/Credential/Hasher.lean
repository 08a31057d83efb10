import KeyStretching.Credential.HmacHeader
import KeyStretching.Credential.ScryptHeader

/-!
# Making credentials

A hasher is a header for new credentials together with the length of their keys. Nothing about it is
checked before it is used: hashing reports, in this order, a header that is not admitted, an empty
key, and what the derivation of the key reports.

The salt of a new credential is to be drawn at random; here it is an argument of the right length.
-/

namespace KeyStretching

/-- The length in bytes of the salt of a new credential. -/
def saltLen : Nat := 16

/-- A header for new credentials, and the length of their keys in bytes. -/
structure Hasher (H : Type) where
  header : H
  keyLen : Nat := 32
  deriving DecidableEq, Repr

namespace Hasher

variable {H : Type} [Header H]

/-- The credential of a password under a given salt. -/
def hashWithSalt (h : Hasher H) (password : Password) (salt : Bytes) :
    Logged (Except Error (Credential H)) :=
  match Header.checkNew h.header with
  | .error e => pure (.error e)
  | .ok () =>
    if h.keyLen = 0 then pure (.error .emptyKey)
    else do
      let key ← Header.derive h.header password.bytes salt h.keyLen
      pure (key.map fun derived => ⟨h.header, salt, derived⟩)

/-- The text of the credential of a password under a drawn salt. -/
def hash (h : Hasher H) (password : Password) (drawn : Vector UInt8 saltLen) :
    Logged (Except Error String) := do
  let credential ← h.hashWithSalt password drawn.toList
  pure (credential.map Credential.write)

end Hasher

/-- A written credential with the usual algorithm, made with scrypt from three cost parameters. -/
def createScrypt (password : Password) (logN r p : UInt8) (keyLen : Nat)
    (drawn : Vector UInt8 saltLen) : Logged (Except Error String) :=
  match CompactCost.ofFields logN r p with
  | .error e => pure (.error (.cost e))
  | .ok cost => Hasher.hash ⟨ScryptHeader.ofCost cost, keyLen⟩ password drawn

/-- A written credential with the usual algorithm, made with PBKDF2. -/
def createHmac (password : Password) (iterations : UInt32) (keyLen : Nat)
    (drawn : Vector UInt8 saltLen) : Logged (Except Error String) :=
  Hasher.hash ⟨HmacHeader.ofIterations iterations, keyLen⟩ password drawn

end KeyStretching
