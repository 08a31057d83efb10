import KeyStretching.Credential.Basic
import KeyStretching.Pbkdf2

/-!
# Iterated credentials

Credentials whose keys are derived with PBKDF2, for those who cannot afford memory. The header packs
four bits of algorithm code above 24 bits for the count of iterations; the four bits above them are
reserved. A count that exceeds its bits is admitted for no new credential.
-/

namespace KeyStretching

/-- Algorithm and count of iterations of a credential whose key is derived with PBKDF2. -/
structure HmacHeader where
  algorithm : Algorithm
  iterations : UInt32
  deriving DecidableEq, Repr

namespace HmacHeader

/-- The largest count of iterations that a header has room for. -/
def maxIterations : UInt32 := 0xffffff

/-- Fails for a count of iterations that a header has no room for, or that is zero. -/
def checkIterations (iterations : UInt32) : Except Error Unit :=
  if iterations = 0 ∨ maxIterations < iterations then .error (.iterationCount iterations)
  else .ok ()

/-- The word that a header is packed into. A count too large for its bits spills into those of the
    algorithm. -/
def pack (h : HmacHeader) : UInt32 := h.algorithm.code.toUInt32 <<< 24 ||| h.iterations

/-- The header that a word holds. -/
def unpack (word : UInt32) : Except Error HmacHeader := do
  if word >>> 28 ≠ 0 then
    throw (.format (.reservedBits word))
  let algorithm ← Algorithm.ofCode (word >>> 24).toUInt8
  let iterations := word &&& maxIterations
  checkIterations iterations
  pure ⟨algorithm, iterations⟩

/-- The key of a given length for a password and a salt. -/
def derive (h : HmacHeader) (password salt : Bytes) (keyLen : Nat) :
    Logged (Except Error Bytes) :=
  pure (Pbkdf2.derive h.algorithm password salt h.iterations keyLen)

instance : Header HmacHeader where
  tag := "h0"
  kind := "hmac"
  pack := pack
  unpack := unpack
  checkNew h := checkIterations h.iterations
  derive := derive

/-- The header with the usual algorithm and a given count of iterations. -/
def ofIterations (iterations : UInt32) : HmacHeader := ⟨.standard, iterations⟩

/-- The header with the usual algorithm and the usual count of iterations. -/
def standard : HmacHeader := ofIterations 600000

end HmacHeader

end KeyStretching
