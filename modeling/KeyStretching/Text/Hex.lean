/-!
# Hexadecimal words

A 32-bit word is written with as few lowercase digits as it takes (`Hex.write`). It is read from
one to eight digits of either case, so that leading zeros are allowed but no sign and no blank, and
no value can exceed the word (`Hex.read?`).
-/

namespace KeyStretching.Hex

/-- The value of a hexadecimal digit of either case. -/
def digit? (c : Char) : Option Nat :=
  if '0' ≤ c ∧ c ≤ '9' then some (c.toNat - '0'.toNat)
  else if 'a' ≤ c ∧ c ≤ 'f' then some (c.toNat - 'a'.toNat + 10)
  else if 'A' ≤ c ∧ c ≤ 'F' then some (c.toNat - 'A'.toNat + 10)
  else none

/-- The number spelled by digits, the most significant first. -/
def ofDigits (digits : List Nat) : Nat := digits.foldl (fun n d => 16 * n + d) 0

/-- Reads a word from one to eight digits. -/
def read? (text : List Char) : Option UInt32 :=
  if 1 ≤ text.length ∧ text.length ≤ 8 then
    (text.mapM digit?).map fun digits => UInt32.ofNat (ofDigits digits)
  else none

/-- Writes a word in lowercase digits, without leading zeros. -/
def write (word : UInt32) : List Char := Nat.toDigits 16 word.toNat

end KeyStretching.Hex
