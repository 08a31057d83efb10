import KeyStretching.Error
import KeyStretching.Hmac
import KeyStretching.Sha2.Family

/-!
# Algorithms

The keyed hash functions that keys can be derived with: HMAC over the four members of the SHA-2
family. Each has a code, which stored credentials carry and which therefore never changes, and a
conventional name.
-/

namespace KeyStretching

/-- A keyed hash function for deriving keys. -/
inductive Algorithm where
  | hmacSha256
  | hmacSha224
  | hmacSha384
  | hmacSha512
  deriving DecidableEq, Repr

namespace Algorithm

/-- All algorithms, in the order of their codes. -/
def all : List Algorithm := [hmacSha256, hmacSha224, hmacSha384, hmacSha512]

/-- The algorithm where none is asked for. -/
def standard : Algorithm := hmacSha256

/-- The code that stands for an algorithm in a credential. -/
def code : Algorithm → UInt8
  | hmacSha256 => 0
  | hmacSha224 => 1
  | hmacSha384 => 2
  | hmacSha512 => 3

/-- The algorithm that a code stands for. -/
def ofCode (code : UInt8) : Except Error Algorithm :=
  match all[code.toNat]? with
  | some algorithm => .ok algorithm
  | none => .error (.unsupportedAlgorithm code)

/-- The hash function underneath. -/
def hashFunction : Algorithm → HashFunction
  | hmacSha256 => Sha2.sha256
  | hmacSha224 => Sha2.sha224
  | hmacSha384 => Sha2.sha384
  | hmacSha512 => Sha2.sha512

/-- The length in bytes of what one application yields. -/
def outLen (a : Algorithm) : Nat := a.hashFunction.outLen

/-- The conventional name. -/
def name : Algorithm → String
  | hmacSha256 => "HmacSHA256"
  | hmacSha224 => "HmacSHA224"
  | hmacSha384 => "HmacSHA384"
  | hmacSha512 => "HmacSHA512"

instance : ToString Algorithm := ⟨name⟩

/-- The code of an algorithm reads back as the algorithm. -/
@[simp] theorem ofCode_code (a : Algorithm) : ofCode a.code = .ok a := by
  cases a <;> rfl

theorem outLen_pos (a : Algorithm) : 0 < a.outLen := a.hashFunction.outLen_pos

end Algorithm

end KeyStretching
