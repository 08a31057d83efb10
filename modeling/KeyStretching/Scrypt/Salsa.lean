import KeyStretching.Bytes

/-!
# Salsa20/8

The mixing function of scrypt: the Salsa20 core with eight rounds, on blocks of 64 bytes. A block is
sixteen words, read least significant byte first and laid out as a four by four matrix; word
`4 * i + j` is the entry in row `i` and column `j`. Rounds alternate between the columns and the
rows, and in each the four quarter rounds start on the diagonal. The result is the sum of the block
and of the block after eight rounds (`core`).
-/

namespace KeyStretching

/-- A block of sixteen words. -/
abbrev Block := Vector UInt32 16

namespace Block

/-! ## Blocks and bytes -/

/-- The block that 64 bytes spell, each word least significant byte first. -/
def ofBytes (bytes : Bytes) : Block :=
  let words := (chunks 4 bytes).map fun w => UInt32.ofNat (Bytes.ofLittleEndian w)
  Vector.ofFn fun i => words.getD i 0

/-- The bytes of a block, each word least significant byte first. -/
def toBytes (x : Block) : Bytes := x.toList.flatMap fun w => Bytes.littleEndian 4 w.toNat

@[simp] theorem length_toBytes (x : Block) : x.toBytes.length = 64 := by
  simp [toBytes, List.map_const']

/-- The exclusive or of two blocks, word by word. -/
def xor (x y : Block) : Block := x.zipWith (· ^^^ ·) y

/-- The sum of two blocks, word by word. -/
def add (x y : Block) : Block := x.zipWith (· + ·) y

end Block

namespace Salsa

/-- The word turned left by `k` places. -/
@[inline] def rotl (x k : UInt32) : UInt32 := x <<< k ||| x >>> (32 - k)

/-- A quarter round: each of four words in turn takes in the turned sum of two others. -/
@[inline] def quarterRound (x : Block) (a b c d : Fin 16) : Block :=
  let x := x.set b (x[b] ^^^ rotl (x[a] + x[d]) 7)
  let x := x.set c (x[c] ^^^ rotl (x[b] + x[a]) 9)
  let x := x.set d (x[d] ^^^ rotl (x[c] + x[b]) 13)
  x.set a (x[a] ^^^ rotl (x[d] + x[c]) 18)

/-- A quarter round on every column, from the diagonal downwards. -/
def columnRound (x : Block) : Block :=
  let x := quarterRound x 0 4 8 12
  let x := quarterRound x 5 9 13 1
  let x := quarterRound x 10 14 2 6
  quarterRound x 15 3 7 11

/-- A quarter round on every row, from the diagonal to the right. -/
def rowRound (x : Block) : Block :=
  let x := quarterRound x 0 1 2 3
  let x := quarterRound x 5 6 7 4
  let x := quarterRound x 10 11 8 9
  quarterRound x 15 12 13 14

/-- A round on the columns, then one on the rows. -/
def doubleRound (x : Block) : Block := rowRound (columnRound x)

/-- Eight rounds. -/
def rounds (x : Block) : Block := doubleRound (doubleRound (doubleRound (doubleRound x)))

/-- The sum of a block and of the block after eight rounds. -/
def core (x : Block) : Block := x.add (rounds x)

/-- The mixing function on blocks of 64 bytes. -/
def hash (bytes : Vector UInt8 64) : Vector UInt8 64 :=
  ⟨(core (Block.ofBytes bytes.toList)).toBytes.toArray, by simp⟩

end Salsa

end KeyStretching
