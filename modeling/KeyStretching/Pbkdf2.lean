import KeyStretching.Algorithm

/-!
# Iterated key derivation

PBKDF2 (RFC 2898) makes a key of any length out of a password and a salt. The key is a sequence of
blocks, each the exclusive or of a chain of authentication codes under the password: the first code
is that of the salt followed by the block's number, every other that of the code before it.

* `fill` overwrites a buffer with the key of the buffer's length, or fails and leaves the buffer as
  it was;
* `derive` makes the key in a buffer of its own.

Blocks are numbered from one in 32 bits, which bounds the length of a key (`maxKeyLen`).
-/

namespace KeyStretching.Pbkdf2

/-- The greatest length of a key in bytes: as many blocks as there are block numbers. -/
def maxKeyLen (a : Algorithm) : Nat := (UInt32.size - 1) * a.outLen

/-- The checks that precede every derivation. -/
def checkBounds (a : Algorithm) (iterations : UInt32) (keyLen : Nat) : Except Error Unit :=
  if iterations = 0 then .error (.iterationCount iterations)
  else if maxKeyLen a < keyLen then .error (.keyTooLong keyLen (maxKeyLen a))
  else .ok ()

section

variable {H : HashFunction}

/-- The exclusive or of the codes of a chain, when `code` is the last of them so far, `sum` is that
    of those so far, and `links` more follow. -/
def chain (prf : H.Keyed) : (links : Nat) → (code sum : Bytes) → Bytes
  | 0, _, sum => sum
  | links + 1, code, sum =>
    let next := prf.mac code
    chain prf links next (sum.xor next)

/-- The block of a key with a given number. -/
def block (prf : H.Keyed) (salt : Bytes) (iterations : UInt32) (number : UInt32) : Bytes :=
  let first := prf.mac (salt ++ Bytes.bigEndian 4 number.toNat)
  chain prf (iterations.toNat - 1) first first

/-- The buffer after each of its pieces is overwritten with the block of that number, the last one
    being cut to fit. -/
def overwrite (prf : H.Keyed) (salt : Bytes) (iterations : UInt32) (buffer : Bytes) : Bytes :=
  ((chunks H.outLen buffer).mapIdx fun index piece =>
    (block prf salt iterations (UInt32.ofNat (index + 1))).take piece.length).flatten

end

/-- Overwrites the buffer with a key of its length, or fails and leaves it as it is. -/
def fill (a : Algorithm) (password salt : Bytes) (iterations : UInt32) :
    EStateM Error Bytes Unit := fun buffer =>
  match checkBounds a iterations buffer.length with
  | .error e => .error e buffer
  | .ok () => .ok () (overwrite (.ofKey a.hashFunction password) salt iterations buffer)

/-- The key of a given length. -/
def derive (a : Algorithm) (password salt : Bytes) (iterations : UInt32) (keyLen : Nat) :
    Except Error Bytes :=
  match checkBounds a iterations keyLen with
  | .error e => .error e
  | .ok () =>
    match (fill a password salt iterations).run (List.replicate keyLen 0) with
    | .ok () key => .ok key
    | .error e _ => .error e

end KeyStretching.Pbkdf2
