import KeyStretching.HashFunction
import KeyStretching.Sha2.Compression

/-!
# The SHA-2 family

Four hash functions from two compression functions: SHA-256 and SHA-224 on 32-bit words, SHA-512
and SHA-384 on 64-bit words. The two members of a width differ in the words they start from and in
how much of the last chaining value is the digest.
-/

namespace KeyStretching.Sha2

section

variable {W : Type} [Word W]

/-- The first `n` bytes of a chaining value. -/
def leadingBytes (n : Nat) (s : Registers W) : Bytes := (wordBytes s.toList).take n

theorem length_leadingBytes {n : Nat} (h : n ≤ 8 * Word.size W) (s : Registers W) :
    (leadingBytes n s).length = n := by
  rw [leadingBytes, List.length_take, length_wordBytes, Registers.length_toList, Nat.mul_comm]
  exact Nat.min_eq_left h

end

/-- The compression function on 32-bit words. -/
def compress32 (s : Registers UInt32) (block : Bytes) : Registers UInt32 := compress s block

/-- The compression function on 64-bit words. -/
def compress64 (s : Registers UInt64) (block : Bytes) : Registers UInt64 := compress s block

/-- SHA-256, with digests of 32 bytes. -/
def sha256 : HashFunction where
  Chain := Registers UInt32
  blockLen := 64
  outLen := 32
  start := .ofVector start256
  compress := compress32
  digest := leadingBytes 32
  length_digest := length_leadingBytes (by decide)

-- The digest that is published for the three letters abc.
example : sha256.hash [0x61, 0x62, 0x63] =
    [0xba, 0x78, 0x16, 0xbf, 0x8f, 0x01, 0xcf, 0xea, 0x41, 0x41, 0x40, 0xde, 0x5d, 0xae, 0x22,
     0x23, 0xb0, 0x03, 0x61, 0xa3, 0x96, 0x17, 0x7a, 0x9c, 0xb4, 0x10, 0xff, 0x61, 0xf2, 0x00,
     0x15, 0xad] := by
  decide +kernel

/-- SHA-224, with digests of 28 bytes. -/
def sha224 : HashFunction where
  Chain := Registers UInt32
  blockLen := 64
  outLen := 28
  start := .ofVector start224
  compress := compress32
  digest := leadingBytes 28
  length_digest := length_leadingBytes (by decide)

/-- SHA-384, with digests of 48 bytes. -/
def sha384 : HashFunction where
  Chain := Registers UInt64
  blockLen := 128
  outLen := 48
  start := .ofVector start384
  compress := compress64
  digest := leadingBytes 48
  length_digest := length_leadingBytes (by decide)

/-- SHA-512, with digests of 64 bytes. -/
def sha512 : HashFunction where
  Chain := Registers UInt64
  blockLen := 128
  outLen := 64
  start := .ofVector start512
  compress := compress64
  digest := leadingBytes 64
  length_digest := length_leadingBytes (by decide)

-- For the same letters, with words twice as wide.
example : sha512.hash [0x61, 0x62, 0x63] =
    [0xdd, 0xaf, 0x35, 0xa1, 0x93, 0x61, 0x7a, 0xba, 0xcc, 0x41, 0x73, 0x49, 0xae, 0x20, 0x41,
     0x31, 0x12, 0xe6, 0xfa, 0x4e, 0x89, 0xa9, 0x7e, 0xa2, 0x0a, 0x9e, 0xee, 0xe6, 0x4b, 0x55,
     0xd3, 0x9a, 0x21, 0x92, 0x99, 0x2a, 0x27, 0x4f, 0xc1, 0xa8, 0x36, 0xba, 0x3c, 0x23, 0xa3,
     0xfe, 0xeb, 0xbd, 0x45, 0x4d, 0x44, 0x23, 0x64, 0x3c, 0xe8, 0x0e, 0x2a, 0x9a, 0xc9, 0x4f,
     0xa5, 0x4c, 0xa4, 0x9f] := by
  decide +kernel

end KeyStretching.Sha2
