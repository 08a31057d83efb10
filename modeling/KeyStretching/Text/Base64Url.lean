import KeyStretching.Bytes

/-!
# Unpadded base64url

Three bytes are written as four symbols of six bits each, from an alphabet that is safe in file
names and addresses; one or two bytes left over are written as two or three symbols whose unused
low bits are zero. There is no padding.

Reading accepts nothing else. When a text contains a byte outside the alphabet, the first such byte
is reported, with two exceptions (`fault`): a stray last byte behind whole groups of four is
reported before any other, and padding at the end of the last group is told apart from a foreign
byte. Otherwise a single symbol left over is an invalid length, and unused bits that are not zero
make the last symbol invalid (`octets`).
-/

namespace KeyStretching.Base64Url

/-- Why a text is not base64url. Offsets and lengths count bytes. -/
inductive DecodeError where
  /-- A byte outside the alphabet. -/
  | invalidByte (byte : UInt8) (offset : Nat)
  /-- A single symbol is left over. -/
  | invalidLength (length : Nat)
  /-- The last symbol sets bits that no byte holds. -/
  | invalidLastSymbol (byte : UInt8) (offset : Nat)
  /-- The text is padded. -/
  | invalidPadding
  deriving DecidableEq, Repr

/-- The wording of the fault. -/
def DecodeError.message : DecodeError → String
  | invalidByte byte offset => s!"Invalid symbol {byte}, offset {offset}."
  | invalidLength length => s!"Invalid input length: {length}"
  | invalidLastSymbol byte offset => s!"Invalid last symbol {byte}, offset {offset}."
  | invalidPadding => "Invalid padding"

/-! ## The alphabet -/

/-- The symbols, in the order of their values. -/
def alphabet : Vector Char 64 :=
  #v['A', 'B', 'C', 'D', 'E', 'F', 'G', 'H', 'I', 'J', 'K', 'L', 'M', 'N', 'O', 'P',
     'Q', 'R', 'S', 'T', 'U', 'V', 'W', 'X', 'Y', 'Z', 'a', 'b', 'c', 'd', 'e', 'f',
     'g', 'h', 'i', 'j', 'k', 'l', 'm', 'n', 'o', 'p', 'q', 'r', 's', 't', 'u', 'v',
     'w', 'x', 'y', 'z', '0', '1', '2', '3', '4', '5', '6', '7', '8', '9', '-', '_']

/-- The symbol of six bits. -/
def symbol (sextet : Fin 64) : Char := alphabet[sextet]

/-- The six bits that a byte of text stands for, if it is a symbol. -/
def sextet? (byte : UInt8) : Option (Fin 64) := alphabet.finIdxOf? (Char.ofUInt8 byte)

/-- Whether a byte of text is a symbol. -/
def isSymbol (byte : UInt8) : Bool := (sextet? byte).isSome

/-- The byte of text that padding consists of. -/
def pad : UInt8 := '='.toUInt8

/-! ## Writing -/

/-- The groups of six bits of a byte string, the unused bits of the last being zero. -/
def sextets : Bytes → List (Fin 64)
  | [] => []
  | [a] => [Fin.ofNat 64 (a.toNat / 4), Fin.ofNat 64 (a.toNat % 4 * 16)]
  | [a, b] =>
    [Fin.ofNat 64 (a.toNat / 4), Fin.ofNat 64 (a.toNat % 4 * 16 + b.toNat / 16),
      Fin.ofNat 64 (b.toNat % 16 * 4)]
  | a :: b :: c :: rest =>
    Fin.ofNat 64 (a.toNat / 4) :: Fin.ofNat 64 (a.toNat % 4 * 16 + b.toNat / 16) ::
      Fin.ofNat 64 (b.toNat % 16 * 4 + c.toNat / 64) :: Fin.ofNat 64 (c.toNat % 64) ::
      sextets rest

/-- The text of a byte string. -/
def encode (bytes : Bytes) : List Char := (sextets bytes).map symbol

/-! ## Reading -/

/-- The bytes that groups of six bits make up, the first of the groups being at `offset`. -/
def octets (offset : Nat) : List (Fin 64) → Except DecodeError Bytes
  | [] => .ok []
  | [_] => .error (.invalidLength (offset + 1))
  | [w, x] =>
    if x.val % 16 = 0 then .ok [UInt8.ofNat (w.val * 4 + x.val / 16)]
    else .error (.invalidLastSymbol (symbol x).toUInt8 (offset + 1))
  | [w, x, y] =>
    if y.val % 4 = 0 then
      .ok [UInt8.ofNat (w.val * 4 + x.val / 16), UInt8.ofNat (x.val % 16 * 16 + y.val / 4)]
    else .error (.invalidLastSymbol (symbol y).toUInt8 (offset + 2))
  | w :: x :: y :: z :: rest =>
    (octets (offset + 4) rest).map fun bytes =>
      UInt8.ofNat (w.val * 4 + x.val / 16) :: UInt8.ofNat (x.val % 16 * 16 + y.val / 4) ::
        UInt8.ofNat (y.val % 4 * 64 + z.val) :: bytes

/-- Whether `rest`, which starts at `offset` and ends the text, is padding in the third or fourth
    place of the last group. -/
def isPadding (offset : Nat) (rest : Bytes) : Bool :=
  2 ≤ offset % 4 && offset % 4 + rest.length ≤ 4 && rest.all (· = pad)

/-- What is wrong with a text whose first foreign byte is `byte`, with `rest` behind it. -/
def fault (text : Bytes) (byte : UInt8) (rest : Bytes) : DecodeError :=
  let offset := text.length - (rest.length + 1)
  let last := rest.getLastD byte
  if text.length % 4 = 1 ∧ last ≠ pad ∧ ¬isSymbol last then
    .invalidByte last (text.length - 1)
  else if isPadding offset (byte :: rest) then .invalidPadding
  else .invalidByte byte offset

/-- The bytes that a text stands for. -/
def decode (text : Bytes) : Except DecodeError Bytes :=
  match text.dropWhile isSymbol with
  | byte :: rest => .error (fault text byte rest)
  | [] => octets 0 (text.filterMap sextet?)

end KeyStretching.Base64Url
