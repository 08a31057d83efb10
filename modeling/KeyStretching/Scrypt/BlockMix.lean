import KeyStretching.Scrypt.Salsa

/-!
# Mixing the blocks of a lane

A lane of block size `r` consists of `2 * r` blocks. Mixing goes through them in order: a chain
value, at first the last block of the lane, takes in each block by exclusive or and is mixed by the
Salsa20/8 core. The values of the chain become the blocks of the result, those at even places in its
first half and those at odd places in its second (`slot`).
-/

namespace KeyStretching

/-- A lane of block size `r`. -/
abbrev Lane (r : Nat) := Vector Block (2 * r)

namespace Lane

variable {r : Nat}

/-- The lane that `128 * r` bytes spell. -/
def ofBytes (r : Nat) (bytes : Bytes) : Lane r :=
  let pieces := (chunks 64 bytes).toArray
  Vector.ofFn fun i => Block.ofBytes (pieces.getD i [])

/-- The bytes of a lane. -/
def toBytes (lane : Lane r) : Bytes := lane.toList.flatMap Block.toBytes

@[simp] theorem length_toBytes (lane : Lane r) : lane.toBytes.length = 128 * r := by
  simp [toBytes, List.map_const']
  omega

/-- The exclusive or of two lanes, block by block. -/
def xor (x y : Lane r) : Lane r := x.zipWith Block.xor y

/-- The last block. -/
def last (hr : 0 < r) (lane : Lane r) : Block := lane[2 * r - 1]

/-- The number that a lane selects a block of memory by: the first word of its last block. -/
def integerify (hr : 0 < r) (lane : Lane r) : UInt32 := (lane.last hr)[0]

end Lane

/-- Where the mixing of a lane puts the value of its chain at place `i`. -/
def slot {r : Nat} (i : Fin (2 * r)) : Fin (2 * r) :=
  if i.val % 2 = 0 then ⟨i / 2, by omega⟩ else ⟨r + i / 2, by omega⟩

/-- Mixes the blocks of a lane. The result is written over `output`, of which nothing remains. -/
def blockMix {r : Nat} (hr : 0 < r) (input output : Lane r) : Lane r :=
  let step (s : Block × Lane r) (i : Fin (2 * r)) :=
    let x := Salsa.core (s.1.xor input[i])
    (x, s.2.set (slot i) x)
  (Fin.foldl (2 * r) step (input.last hr, output)).2

end KeyStretching
