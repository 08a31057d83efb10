import KeyStretching.HashFunction

/-!
# Keyed hashing

HMAC turns a hash function into a keyed one: a key of any length is brought to the length of a
block, and the message is hashed behind that block, masked with one constant, and the digest hashed
again behind the block masked with another (`hmac`).

Both masked blocks depend on the key alone. A `Keyed` function has absorbed them once and for all,
so that each message costs only its own blocks; it computes the same codes (`mac_ofKey`).
-/

namespace KeyStretching

namespace HashFunction

variable (H : HashFunction)

/-- The block that stands for a key: the key, or its digest if it is longer than a block, followed
    by zeros. -/
def keyBlock (key : Bytes) : Bytes :=
  Bytes.padTo H.blockLen (if key.length ≤ H.blockLen then key else H.hash key)

theorem length_keyBlock (key : Bytes) : (H.keyBlock key).length = H.blockLen := by
  apply Bytes.length_padTo
  split
  · assumption
  · rw [length_hash]
    exact H.outLen_le_blockLen

/-- The key block masked for the hashing of the message. -/
def innerBlock (key : Bytes) : Bytes := (H.keyBlock key).map (· ^^^ 0x36)

/-- The key block masked for the hashing of the inner digest. -/
def outerBlock (key : Bytes) : Bytes := (H.keyBlock key).map (· ^^^ 0x5c)

@[simp] theorem length_innerBlock (key : Bytes) : (H.innerBlock key).length = H.blockLen := by
  rw [innerBlock, List.length_map, length_keyBlock]

@[simp] theorem length_outerBlock (key : Bytes) : (H.outerBlock key).length = H.blockLen := by
  rw [outerBlock, List.length_map, length_keyBlock]

/-- The authentication code of a message under a key. -/
def hmac (key message : Bytes) : Bytes :=
  H.hash (H.outerBlock key ++ H.hash (H.innerBlock key ++ message))

@[simp] theorem length_hmac (key message : Bytes) : (H.hmac key message).length = H.outLen :=
  H.length_hash _

/-- A keyed hash function: the chaining values after the two masked blocks of its key. -/
structure Keyed where
  inner : H.Chain
  outer : H.Chain

namespace Keyed

variable {H}

/-- The hash function keyed with `key`. -/
def ofKey (H : HashFunction) (key : Bytes) : H.Keyed where
  inner := H.compress H.start (H.innerBlock key)
  outer := H.compress H.start (H.outerBlock key)

/-- The authentication code of a message. -/
def mac (k : H.Keyed) (message : Bytes) : Bytes :=
  H.finish k.outer H.blockLen (H.finish k.inner H.blockLen message)

@[simp] theorem length_mac (k : H.Keyed) (message : Bytes) : (k.mac message).length = H.outLen :=
  H.length_finish ..

/-- Absorbing the masked blocks in advance changes no code. -/
theorem mac_ofKey (key message : Bytes) : (ofKey H key).mac message = H.hmac key message := by
  have habsorbed {block : Bytes} (h : block.length = H.blockLen) (rest : Bytes) :
      H.finish (H.compress H.start block) H.blockLen rest = H.hash (block ++ rest) := by
    have := H.finish_compress h H.start 0 rest
    rwa [Nat.zero_add] at this
  rw [mac, ofKey, habsorbed (H.length_innerBlock key), habsorbed (H.length_outerBlock key), hmac]

end Keyed

end HashFunction

end KeyStretching
