import KeyStretching.Bytes
import KeyStretching.Sha2.Constants

/-!
# The compression function of SHA-2

The functions of the family differ in the width of their words. A width comes with four mixing
functions, with a count of rounds and with a constant for every round (`Word`); the message
schedule, the round and the compression function are the same for both widths.

* `schedule` extends the sixteen words of a block to one word per round;
* `Registers.round` is one round on the eight working registers;
* `compress` runs all rounds and adds the result to the chaining value.
-/

namespace KeyStretching.Sha2

/-- The words of one width, with what SHA-2 fixes for that width. -/
class Word (W : Type) extends Add W, XorOp W, AndOp W, Complement W where
  /-- The length of a word in bytes. -/
  size : Nat
  /-- The word of a number, modulo the width. -/
  ofNat : Nat → W
  /-- The number that a word stands for. -/
  toNat : W → Nat
  /-- The mixing of the first register. -/
  bigSigma0 : W → W
  /-- The mixing of the fifth register. -/
  bigSigma1 : W → W
  /-- The mixing of the scheduled word fifteen rounds back. -/
  smallSigma0 : W → W
  /-- The mixing of the scheduled word two rounds back. -/
  smallSigma1 : W → W
  /-- How many words the schedule adds to the sixteen of a block. -/
  extension : Nat
  /-- The constants of the rounds. -/
  constants : Vector W (16 + extension)

/-- The word turned right by `k` places. -/
@[inline] def rotr32 (x k : UInt32) : UInt32 := x >>> k ||| x <<< (32 - k)

/-- The word turned right by `k` places. -/
@[inline] def rotr64 (x k : UInt64) : UInt64 := x >>> k ||| x <<< (64 - k)

instance : Word UInt32 where
  size := 4
  ofNat := UInt32.ofNat
  toNat := UInt32.toNat
  bigSigma0 x := rotr32 x 2 ^^^ rotr32 x 13 ^^^ rotr32 x 22
  bigSigma1 x := rotr32 x 6 ^^^ rotr32 x 11 ^^^ rotr32 x 25
  smallSigma0 x := rotr32 x 7 ^^^ rotr32 x 18 ^^^ x >>> 3
  smallSigma1 x := rotr32 x 17 ^^^ rotr32 x 19 ^^^ x >>> 10
  extension := 48
  constants := roundConstants32

instance : Word UInt64 where
  size := 8
  ofNat := UInt64.ofNat
  toNat := UInt64.toNat
  bigSigma0 x := rotr64 x 28 ^^^ rotr64 x 34 ^^^ rotr64 x 39
  bigSigma1 x := rotr64 x 14 ^^^ rotr64 x 18 ^^^ rotr64 x 41
  smallSigma0 x := rotr64 x 1 ^^^ rotr64 x 8 ^^^ x >>> 7
  smallSigma1 x := rotr64 x 19 ^^^ rotr64 x 61 ^^^ x >>> 6
  extension := 64
  constants := roundConstants64

section

variable {W : Type} [Word W]

/-! ## Words and bytes -/

/-- The sixteen words of a block, each written most significant byte first. -/
@[specialize] def blockWords (block : Bytes) : Vector W 16 :=
  let words := ((chunks (Word.size W) block).map fun w => (Word.ofNat (Bytes.ofBigEndian w) : W))
  Vector.ofFn fun i => words.getD i (Word.ofNat 0)

/-- The bytes of words, each most significant byte first. -/
@[specialize] def wordBytes (words : List W) : Bytes :=
  words.flatMap fun w => Bytes.bigEndian (Word.size W) (Word.toNat w)

theorem length_wordBytes (words : List W) :
    (wordBytes words).length = Word.size W * words.length := by
  induction words with
  | nil => rfl
  | cons w words ih =>
    rw [wordBytes, List.flatMap_cons, List.length_append, Bytes.length_bigEndian, ← wordBytes, ih,
      List.length_cons, Nat.mul_succ, Nat.add_comm]

/-! ## Rounds -/

/-- The words of the first `16 + k` rounds: those of the block, then each from four before it. -/
@[specialize] def schedule (block : Vector W 16) : (k : Nat) → Vector W (16 + k)
  | 0 => block
  | k + 1 =>
    let w := schedule block k
    w.push (Word.smallSigma1 w[14 + k] + w[9 + k] + Word.smallSigma0 w[1 + k] + w[k])

/-- The eight working registers. -/
structure Registers (W : Type) where
  a : W
  b : W
  c : W
  d : W
  e : W
  f : W
  g : W
  h : W

namespace Registers

/-- The registers that hold eight given words. -/
def ofVector (words : Vector W 8) : Registers W :=
  ⟨words[0], words[1], words[2], words[3], words[4], words[5], words[6], words[7]⟩

/-- The words in the registers, in order. -/
def toList (s : Registers W) : List W := [s.a, s.b, s.c, s.d, s.e, s.f, s.g, s.h]

omit [Word W] in
@[simp] theorem length_toList (s : Registers W) : s.toList.length = 8 := rfl

/-- One round, with the sum `kw` of the round's constant and its scheduled word: the registers move
    on by one place, and two of them take in what the others determine. -/
@[inline] def round (s : Registers W) (kw : W) : Registers W :=
  let choice := (s.e &&& s.f) ^^^ (~~~s.e &&& s.g)
  let majority := (s.a &&& s.b) ^^^ (s.a &&& s.c) ^^^ (s.b &&& s.c)
  let t₁ := s.h + Word.bigSigma1 s.e + choice + kw
  let t₂ := Word.bigSigma0 s.a + majority
  ⟨t₁ + t₂, s.a, s.b, s.c, s.d + t₁, s.e, s.f, s.g⟩

/-- The sum of two sets of registers, one by one. -/
@[inline] def add (s t : Registers W) : Registers W :=
  ⟨s.a + t.a, s.b + t.b, s.c + t.c, s.d + t.d, s.e + t.e, s.f + t.f, s.g + t.g, s.h + t.h⟩

end Registers

/-- The chaining value `s` after a block: all rounds, and the sum with the value before them. -/
@[specialize] def compress (s : Registers W) (block : Bytes) : Registers W :=
  let words := schedule (blockWords block : Vector W 16) (Word.extension W)
  s.add (Fin.foldl (16 + Word.extension W)
    (fun t i => t.round ((Word.constants : Vector W _)[i] + words[i])) s)

end

end KeyStretching.Sha2
