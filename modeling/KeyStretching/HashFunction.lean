import KeyStretching.Bytes

/-!
# Iterated hash functions

A hash function of this kind keeps a *chaining value* that it updates with one block of the message
after the other; the message is padded to whole blocks first, and the digest is read off the last
chaining value. Hashing can be interrupted after any number of blocks: `finish` goes on from a
chaining value reached before, and `finish_compress` says that the block absorbed in advance counts
as the beginning of the message. Keyed hashing rests on that.
-/

namespace KeyStretching

/-- An iterated hash function: a chaining value, its update by one block of the message, and the
    digest read off it. -/
structure HashFunction where
  /-- The chaining values. -/
  Chain : Type
  /-- The length of a block in bytes. -/
  blockLen : Nat
  /-- The length of a digest in bytes. -/
  outLen : Nat
  /-- The chaining value before the first block. -/
  start : Chain
  /-- The chaining value after one more block. -/
  compress : Chain → Bytes → Chain
  /-- The digest that a chaining value stands for. -/
  digest : Chain → Bytes
  outLen_pos : 0 < outLen := by decide
  outLen_le_blockLen : outLen ≤ blockLen := by decide
  length_digest : ∀ c, (digest c).length = outLen

namespace HashFunction

variable (H : HashFunction)

theorem blockLen_pos : 0 < H.blockLen := Nat.lt_of_lt_of_le H.outLen_pos H.outLen_le_blockLen

/-- What follows a message of `n` bytes: a single one bit, zeros up to the end of a block, and in
    the last eighth of that block the length of the message in bits. -/
def padding (n : Nat) : Bytes :=
  let lengthBytes := H.blockLen / 8
  let filled := (n + 1 + lengthBytes) % H.blockLen
  0x80 :: List.replicate ((H.blockLen - filled) % H.blockLen) 0 ++
    Bytes.bigEndian lengthBytes (8 * n)

/-- The digest of a message of which `done` bytes, in whole blocks, have led to the chaining value
    `c`, and `rest` is to come. -/
def finish (c : H.Chain) (done : Nat) (rest : Bytes) : Bytes :=
  H.digest ((chunks H.blockLen (rest ++ H.padding (done + rest.length))).foldl H.compress c)

/-- The digest of a message. -/
def hash (message : Bytes) : Bytes := H.finish H.start 0 message

@[simp] theorem length_finish (c : H.Chain) (done : Nat) (rest : Bytes) :
    (H.finish c done rest).length = H.outLen := H.length_digest _

@[simp] theorem length_hash (message : Bytes) : (H.hash message).length = H.outLen :=
  H.length_finish ..

/-- A block absorbed in advance is the beginning of the message. -/
theorem finish_compress {block : Bytes} (h : block.length = H.blockLen) (c : H.Chain) (done : Nat)
    (rest : Bytes) :
    H.finish (H.compress c block) (done + H.blockLen) rest = H.finish c done (block ++ rest) := by
  rw [finish, finish, List.append_assoc, chunks_append H.blockLen_pos h, List.foldl_cons,
    List.length_append, h, Nat.add_assoc]

end HashFunction

end KeyStretching
