/-!
# Byte strings

Passwords, salts, keys and the messages of the hash functions are byte strings, kept as lists of
bytes. This module holds what all the others do with them:

* `littleEndian` and `bigEndian` write a number in a given count of bytes, `ofLittleEndian` and
  `ofBigEndian` read it back; reading `k` bytes and writing them gives the same bytes
  (`littleEndian_ofLittleEndian`);
* `xor` combines two strings byte by byte, `padTo` fills one up with zeros, and `ofChars` encodes
  text in UTF-8;
* `chunks n` cuts a list into pieces of `n`, the last of which may be shorter: nothing is lost
  (`flatten_chunks`), and a first piece of `n` is cut off as it is (`chunks_append`).
-/

namespace KeyStretching

/-- A byte string. -/
abbrev Bytes := List UInt8

namespace Bytes

/-! ## Numbers -/

/-- The low `k` bytes of `n`, the least significant first. -/
def littleEndian : (k : Nat) → (n : Nat) → Bytes
  | 0, _ => []
  | k + 1, n => UInt8.ofNat n :: littleEndian k (n / 256)

/-- The low `k` bytes of `n`, the most significant first. -/
def bigEndian (k n : Nat) : Bytes := (littleEndian k n).reverse

/-- The number that a byte string spells, its first byte being the least significant. -/
def ofLittleEndian (bytes : Bytes) : Nat := bytes.foldr (fun b n => b.toNat + 256 * n) 0

/-- The number that a byte string spells, its first byte being the most significant. -/
def ofBigEndian (bytes : Bytes) : Nat := bytes.foldl (fun n b => 256 * n + b.toNat) 0

@[simp] theorem length_littleEndian (k n : Nat) : (littleEndian k n).length = k := by
  induction k generalizing n with
  | zero => rfl
  | succ k ih => simp [littleEndian, ih]

@[simp] theorem length_bigEndian (k n : Nat) : (bigEndian k n).length = k := by
  simp [bigEndian]

@[simp] theorem ofLittleEndian_nil : ofLittleEndian [] = 0 := rfl

@[simp] theorem ofLittleEndian_cons (b : UInt8) (bytes : Bytes) :
    ofLittleEndian (b :: bytes) = b.toNat + 256 * ofLittleEndian bytes := rfl

/-- The two byte orders read the same numbers from opposite ends. -/
theorem ofBigEndian_reverse (bytes : Bytes) :
    ofBigEndian bytes.reverse = ofLittleEndian bytes := by
  simp only [ofBigEndian, ofLittleEndian, List.foldl_reverse]
  congr 1
  funext b n
  omega

/-- Reading a byte string and writing it again changes nothing. -/
theorem littleEndian_ofLittleEndian (bytes : Bytes) :
    littleEndian bytes.length (ofLittleEndian bytes) = bytes := by
  induction bytes with
  | nil => rfl
  | cons b bytes ih =>
    have hb := b.toNat_lt
    have hhead : UInt8.ofNat (b.toNat + 256 * ofLittleEndian bytes) = b := by
      apply UInt8.toNat_inj.1
      simp only [UInt8.toNat_ofNat']
      omega
    have htail : (b.toNat + 256 * ofLittleEndian bytes) / 256 = ofLittleEndian bytes := by omega
    rw [List.length_cons, ofLittleEndian_cons, littleEndian, hhead, htail, ih]

/-! ## Combining -/

/-- The exclusive or of two byte strings, byte by byte, as long as the shorter of them. -/
def xor (a b : Bytes) : Bytes := List.zipWith (· ^^^ ·) a b

@[simp] theorem length_xor (a b : Bytes) : (xor a b).length = min a.length b.length :=
  List.length_zipWith

/-- The string followed by zero bytes up to the length `n`. -/
def padTo (n : Nat) (bytes : Bytes) : Bytes := bytes ++ List.replicate (n - bytes.length) 0

theorem length_padTo {n : Nat} {bytes : Bytes} (h : bytes.length ≤ n) :
    (padTo n bytes).length = n := by
  simp [padTo]
  omega

/-- The bytes that text is encoded in. -/
def ofChars (text : List Char) : Bytes := text.flatMap String.utf8EncodeChar

end Bytes

/-! ## Cutting into pieces -/

/-- The pieces of `n` elements that a list falls into, from the left; the last one holds what
    remains and may be shorter. -/
def chunks {α : Type} (n : Nat) : List α → List (List α)
  | [] => []
  | x :: xs => (x :: xs.take (n - 1)) :: chunks n (xs.drop (n - 1))
termination_by xs => xs.length
decreasing_by simp only [List.length_drop, List.length_cons]; omega

section Chunks

variable {α : Type}

@[simp] theorem chunks_nil (n : Nat) : chunks n ([] : List α) = [] := by
  rw [chunks]

/-- A list with elements starts with its first `n`. -/
theorem chunks_of_ne_nil {n : Nat} (hn : 0 < n) {xs : List α} (h : xs ≠ []) :
    chunks n xs = xs.take n :: chunks n (xs.drop n) := by
  obtain ⟨m, rfl⟩ : ∃ m, n = m + 1 := ⟨n - 1, by omega⟩
  match xs, h with
  | x :: xs, _ => rw [chunks]; simp

/-- A first piece of `n` elements is cut off as it is. -/
theorem chunks_append {n : Nat} (hn : 0 < n) {xs : List α} (h : xs.length = n) (ys : List α) :
    chunks n (xs ++ ys) = xs :: chunks n ys := by
  subst h
  rw [chunks_of_ne_nil hn (by rintro he; simp [List.append_eq_nil_iff.1 he] at hn)]
  simp

/-- Cutting loses nothing. -/
@[simp] theorem flatten_chunks (n : Nat) (xs : List α) : (chunks n xs).flatten = xs := by
  fun_induction chunks n xs with
  | case1 => rfl
  | case2 x xs ih => simp [ih]

end Chunks

end KeyStretching
