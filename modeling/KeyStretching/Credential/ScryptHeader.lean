import KeyStretching.Cost.Compact
import KeyStretching.Credential.Basic
import KeyStretching.Scrypt.Derivation

/-!
# Memory-hard credentials

Credentials whose keys are derived with scrypt. The header packs, from the high end, four bits of
algorithm code, four bits for the logarithm of the cost, and a byte each for the block size and the
count of lanes; the eight bits above them are reserved.
-/

namespace KeyStretching

/-- Algorithm and cost of a credential whose key is derived with scrypt. -/
structure ScryptHeader where
  algorithm : Algorithm
  cost : CompactCost
  deriving DecidableEq, Repr

namespace ScryptHeader

/-- The word that a header is packed into. -/
def pack (h : ScryptHeader) : UInt32 :=
  h.algorithm.code.toUInt32 <<< 20 ||| h.cost.logN.toUInt32 <<< 16 ||| h.cost.r.toUInt32 <<< 8 |||
    h.cost.p.toUInt32

/-- The header that a word holds. -/
def unpack (word : UInt32) : Except Error ScryptHeader := do
  if word >>> 24 ≠ 0 then
    throw (.format (.reservedBits word))
  let algorithm ← Algorithm.ofCode (word >>> 20 &&& 0xf).toUInt8
  let cost ← (CompactCost.ofFields (word >>> 16 &&& 0xf).toUInt8 (word >>> 8 &&& 0xff).toUInt8
    (word &&& 0xff).toUInt8).mapError .cost
  pure ⟨algorithm, cost⟩

/-- The key of a given length for a password and a salt. -/
def derive (h : ScryptHeader) (password salt : Bytes) (keyLen : Nat) :
    Logged (Except Error Bytes) :=
  Scrypt.derive h.algorithm password salt h.cost.n h.cost.r.toUInt32 h.cost.p.toUInt32 keyLen

/-- All headers are admitted: their type keeps the cost in range. -/
instance : Header ScryptHeader where
  tag := "s0"
  kind := "scrypt"
  pack := pack
  unpack := unpack
  checkNew _ := .ok ()
  derive := derive

/-- The header with the usual algorithm and a given cost. -/
def ofCost (cost : CompactCost) : ScryptHeader := ⟨.standard, cost⟩

/-- The header with the usual algorithm and the usual cost. -/
def standard : ScryptHeader := ofCost .standard

end ScryptHeader

end KeyStretching
