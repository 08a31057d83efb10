import KeyStretching.Cost.Basic
import KeyStretching.Log
import KeyStretching.Pbkdf2
import KeyStretching.Scrypt.RoMix

/-!
# Memory-hard key derivation

scrypt (RFC 7914) derives a key between two passes of PBKDF2 with a single iteration: the first
spreads password and salt over `p` lanes of `128 * r` bytes, each lane is mixed through a memory of
`n` blocks, and the second takes the mixed lanes as the salt of the key.

Lanes do not depend on each other, so the order in which they are mixed is a parameter (`mixLanes`);
`derive` takes them one after the other.
-/

namespace KeyStretching.Scrypt

/-- Mixes the lane of a given number in place, and reports it. -/
def mixAt {r n : Nat} (hr : 0 < r) (hn : 0 < n) (lanes : Array Bytes) (lane : Nat) :
    Logged (Array Bytes) := do
  Logged.emit (.mixingLane lane)
  pure (lanes.modify lane (RoMix.mixBytes hr hn))

/-- The buffer after its lanes of `128 * r` bytes are mixed in the given order. -/
def mixLanes {r n : Nat} (hr : 0 < r) (hn : 0 < n) (order : List Nat) (buffer : Bytes) :
    Logged Bytes := do
  let lanes ← order.foldlM (mixAt hr hn) (chunks (128 * r) buffer).toArray
  pure lanes.toList.flatten

/-- The key of a given length for admissible cost parameters. -/
def deriveAt (a : Algorithm) (password salt : Bytes) (cost : Cost) (keyLen : Nat) :
    Logged (Except Error Bytes) := do
  Logged.emit (.derivingKey a cost.n cost.r cost.p keyLen)
  match Pbkdf2.derive a password salt 1 (128 * cost.r.toNat * cost.p.toNat) with
  | .error e => pure (.error e)
  | .ok buffer =>
    let mixed ← mixLanes cost.r_pos cost.n_pos (List.range cost.p.toNat) buffer
    pure (Pbkdf2.derive a password mixed 1 keyLen)

/-- The key of a given length, for cost parameters that are checked first. -/
def derive (a : Algorithm) (password salt : Bytes) (n r p : UInt32) (keyLen : Nat) :
    Logged (Except Error Bytes) :=
  match Cost.ofTriple n r p with
  | .error e => pure (.error (.cost e))
  | .ok cost => deriveAt a password salt cost keyLen

end KeyStretching.Scrypt
