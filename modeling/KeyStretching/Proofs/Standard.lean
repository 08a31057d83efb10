import KeyStretching.Hmac
import Mathlib.LinearAlgebra.Matrix.Defs

/-!
# The published functions

PBKDF2 (RFC 2898) and scrypt (RFC 7914) as the documents define them: functions from byte strings
to byte strings, written for reading. Every code is keyed from scratch, every intermediate value is
a byte string of its own, and nothing is overwritten. The efficient functions are compared with
these.

* `pbkdf2` concatenates the blocks `T_1`, `T_2`, … and cuts them to length, where `T_i` is the
  exclusive or of the codes `U_1`, …, `U_c`;
* `salsa` is the Salsa20/8 core: eight rounds on a matrix of words, every column or row at once;
* `blockMix` and `roMix` mix a block of `128 * r` bytes, the latter through a list of `n` of them;
* `scrypt` puts `p` of those between two passes of `pbkdf2`.
-/

namespace KeyStretching.Standard

/-- The piece number `i` of the pieces of `len` bytes that a byte string is cut into. -/
def piece (len i : Nat) (bytes : Bytes) : Bytes := (bytes.drop (len * i)).take len

/-! ## Iterated codes -/

section

variable (H : HashFunction) (password salt : Bytes)

/-- The code `U_j` of block number `i`: `U_1` is the code of the salt followed by the number in
    four bytes, and each further one is the code of the code before it. What `U_1` is the code of
    stands in place of `U_0`. -/
def code (i : Nat) : Nat → Bytes
  | 0 => salt ++ Bytes.bigEndian 4 i
  | j + 1 => H.hmac password (code i j)

/-- The block `T_i`: the exclusive or of `U_1`, …, `U_c`. -/
def keyPart (c i : Nat) : Bytes :=
  ((List.range c).map fun j => code H password salt i (j + 1)).foldl Bytes.xor
    (List.replicate H.outLen 0)

/-- The key of a given length: as much as it takes of `T_1 || T_2 || …`. -/
def pbkdf2 (c keyLen : Nat) : Bytes :=
  let parts := (keyLen + H.outLen - 1) / H.outLen
  ((List.range parts).flatMap fun i => keyPart H password salt c (i + 1)).take keyLen

end

/-! ## Salsa20/8 -/

open Matrix

/-- Sixteen words, in four rows and four columns. -/
abbrev Words := Matrix (Fin 4) (Fin 4) UInt32

/-- The quarter round on four words. -/
def quarterRound (y : Fin 4 → UInt32) : Fin 4 → UInt32 :=
  let rotate (x : UInt32) (k : Nat) : UInt32 := ⟨x.toBitVec.rotateLeft k⟩
  let z₁ := y 1 ^^^ rotate (y 0 + y 3) 7
  let z₂ := y 2 ^^^ rotate (z₁ + y 0) 9
  let z₃ := y 3 ^^^ rotate (z₂ + z₁) 13
  let z₀ := y 0 ^^^ rotate (z₃ + z₂) 18
  fun k => match k with
    | 0 => z₀
    | 1 => z₁
    | 2 => z₂
    | 3 => z₃

/-- The quarter round on every column at once, each from its entry on the diagonal downwards, and
    on from the top. -/
def columnRound (x : Words) : Words :=
  of fun i j => quarterRound (fun k => x (j + k) j) (i - j)

/-- The quarter round on every row at once. -/
def rowRound (x : Words) : Words := (columnRound xᵀ)ᵀ

/-- The words that 64 bytes spell, each least significant byte first. -/
def words (bytes : Bytes) : Words :=
  of fun i j => UInt32.ofNat (Bytes.ofLittleEndian (piece 4 (4 * i + j) bytes))

/-- The bytes of sixteen words. -/
def wordBytes (x : Words) : Bytes :=
  (List.finRange 4).flatMap fun i =>
    (List.finRange 4).flatMap fun j => Bytes.littleEndian 4 (x i j).toNat

/-- The Salsa20/8 core on 64 bytes. -/
def salsa (bytes : Bytes) : Bytes :=
  wordBytes (words bytes + (rowRound ∘ columnRound)^[4] (words bytes))

/-! ## Mixing through memory -/

/-- The values of the chain that runs through the `2 * r` sub-blocks of 64 bytes: it starts from the
    last of them, and `mixChain r bytes (i + 1)` is the value after sub-block number `i`. -/
def mixChain (r : Nat) (bytes : Bytes) : Nat → Bytes
  | 0 => piece 64 (2 * r - 1) bytes
  | i + 1 => salsa ((mixChain r bytes i).xor (piece 64 i bytes))

/-- The values of the chain at even places, then those at odd places. -/
def blockMix (r : Nat) (bytes : Bytes) : Bytes :=
  ((List.range r).flatMap fun i => mixChain r bytes (2 * i + 1)) ++
    (List.range r).flatMap fun i => mixChain r bytes (2 * i + 2)

/-- The last sub-block, as one number with its least significant byte first. -/
def integerify (r : Nat) (bytes : Bytes) : Nat :=
  Bytes.ofLittleEndian (piece 64 (2 * r - 1) bytes)

/-- A block mixed `n` times with its values kept in a list, and `n` times more together with those
    that it selects from the list. -/
def roMix (r n : Nat) (bytes : Bytes) : Bytes :=
  let memory := (List.range n).map fun i => (blockMix r)^[i] bytes
  let step (x : Bytes) := blockMix r (x.xor (memory.getD (integerify r x % n) []))
  step^[n] ((blockMix r)^[n] bytes)

/-- The key of a given length, derived with cost `n`, block size `r` and parallelization `p`. -/
def scrypt (H : HashFunction) (password salt : Bytes) (n r p keyLen : Nat) : Bytes :=
  let spread := pbkdf2 H password salt 1 (128 * r * p)
  let mixed := (List.range p).flatMap fun i => roMix r n (piece (128 * r) i spread)
  pbkdf2 H password mixed 1 keyLen

end KeyStretching.Standard
