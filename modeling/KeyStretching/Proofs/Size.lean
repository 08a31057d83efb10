import Mathlib.Algebra.Group.Nat.Defs

/-!
# Sizes in machine words

How long a buffer is and where a part of it starts is computed from counts by sums, differences and
products (`Size`). Such a computation has a value in unbounded arithmetic (`Size.exact`). A machine
with words of `w` bits either stops at the first step whose result is not a word (`Size.checked`),
or goes on with the low bits of it (`Size.wrapping`).

* `checked_eq_some_iff`: the machine that stops comes to the end if and only if no step leaves the
  words, and then it has the exact value;
* `toNat_wrapping`: so has the one that goes on.
-/

namespace KeyStretching

/-- The computation of a size from counts. -/
inductive Size where
  | count (n : Nat)
  | add (a b : Size)
  | sub (a b : Size)
  | mul (a b : Size)

namespace Size

instance : Add Size := ⟨add⟩

instance : Sub Size := ⟨sub⟩

instance : Mul Size := ⟨mul⟩

/-- The value in unbounded arithmetic. -/
def exact : Size → Nat
  | count n => n
  | add a b => a.exact + b.exact
  | sub a b => a.exact - b.exact
  | mul a b => a.exact * b.exact

/-- A number as a word of `w` bits, if it is not too large for one. -/
def word? (w n : Nat) : Option Nat := if n < 2 ^ w then some n else none

/-- The value in words of `w` bits, unless a step has none. -/
def checked (w : Nat) : Size → Option Nat
  | count n => word? w n
  | add a b => do
    let x ← a.checked w
    let y ← b.checked w
    word? w (x + y)
  | sub a b => do
    let x ← a.checked w
    let y ← b.checked w
    if y ≤ x then some (x - y) else none
  | mul a b => do
    let x ← a.checked w
    let y ← b.checked w
    word? w (x * y)

/-- The value in words of `w` bits, of each step no more than the low bits. -/
def wrapping (w : Nat) : Size → BitVec w
  | count n => BitVec.ofNat w n
  | add a b => a.wrapping w + b.wrapping w
  | sub a b => a.wrapping w - b.wrapping w
  | mul a b => a.wrapping w * b.wrapping w

/-- No step of the computation leaves the words of `w` bits. -/
def Fits (w : Nat) : Size → Prop
  | count n => n < 2 ^ w
  | add a b => a.Fits w ∧ b.Fits w ∧ a.exact + b.exact < 2 ^ w
  | sub a b => a.Fits w ∧ b.Fits w ∧ b.exact ≤ a.exact
  | mul a b => a.Fits w ∧ b.Fits w ∧ a.exact * b.exact < 2 ^ w

section

variable (a b : Size) (n w : Nat)

@[simp] theorem exact_count : (count n).exact = n := rfl

@[simp] theorem exact_add : (a + b).exact = a.exact + b.exact := rfl

@[simp] theorem exact_sub : (a - b).exact = a.exact - b.exact := rfl

@[simp] theorem exact_mul : (a * b).exact = a.exact * b.exact := rfl

@[simp] theorem fits_count : (count n).Fits w ↔ n < 2 ^ w := Iff.rfl

@[simp] theorem fits_add :
    (a + b).Fits w ↔ a.Fits w ∧ b.Fits w ∧ a.exact + b.exact < 2 ^ w := Iff.rfl

@[simp] theorem fits_sub : (a - b).Fits w ↔ a.Fits w ∧ b.Fits w ∧ b.exact ≤ a.exact := Iff.rfl

@[simp] theorem fits_mul :
    (a * b).Fits w ↔ a.Fits w ∧ b.Fits w ∧ a.exact * b.exact < 2 ^ w := Iff.rfl

end

variable {w : Nat}

theorem word?_eq_some_iff {n x : Nat} : word? w n = some x ↔ n < 2 ^ w ∧ n = x := by
  rw [word?, Option.ite_none_right_eq_some, Option.some_inj]

/-- A step comes to the end if what is before it does and the step itself has a result. -/
theorem bind_eq_some_iff {a? b? : Option Nat} {p q : Prop} {x y z : Nat}
    (ha : ∀ {u}, a? = some u ↔ p ∧ x = u) (hb : ∀ {v}, b? = some v ↔ q ∧ y = v)
    (step : Nat → Nat → Option Nat) :
    (a? >>= fun u => b? >>= step u) = some z ↔ p ∧ q ∧ step x y = some z := by
  simp only [Option.bind_eq_bind, Option.bind_eq_some_iff, ha, hb]
  constructor
  · rintro ⟨_, ⟨hp, rfl⟩, _, ⟨hq, rfl⟩, hstep⟩
    exact ⟨hp, hq, hstep⟩
  · rintro ⟨hp, hq, hstep⟩
    exact ⟨x, ⟨hp, rfl⟩, y, ⟨hq, rfl⟩, hstep⟩

/-- A machine that checks comes to the end if no step leaves the words, and then it has the exact
    value. -/
theorem checked_eq_some_iff {size : Size} {x : Nat} :
    size.checked w = some x ↔ size.Fits w ∧ size.exact = x := by
  induction size generalizing x with
  | count n => exact word?_eq_some_iff
  | add a b iha ihb =>
    rw [checked, bind_eq_some_iff iha ihb, word?_eq_some_iff, Fits, exact, and_assoc, and_assoc]
  | sub a b iha ihb =>
    rw [checked, bind_eq_some_iff iha ihb, Option.ite_none_right_eq_some, Option.some_inj, Fits,
      exact, and_assoc, and_assoc]
  | mul a b iha ihb =>
    rw [checked, bind_eq_some_iff iha ihb, word?_eq_some_iff, Fits, exact, and_assoc, and_assoc]

/-- A machine that goes on has the exact value too, if no step leaves the words. -/
theorem toNat_wrapping {size : Size} (h : size.Fits w) :
    (size.wrapping w).toNat = size.exact := by
  induction size with
  | count n => exact (BitVec.toNat_ofNat n w).trans (Nat.mod_eq_of_lt h)
  | add a b iha ihb =>
    rw [wrapping, BitVec.toNat_add, iha h.1, ihb h.2.1, exact, Nat.mod_eq_of_lt h.2.2]
  | sub a b iha ihb =>
    have hle : b.wrapping w ≤ a.wrapping w := by
      rw [BitVec.le_def, iha h.1, ihb h.2.1]
      exact h.2.2
    rw [wrapping, BitVec.toNat_sub_of_le hle, iha h.1, ihb h.2.1, exact]
  | mul a b iha ihb =>
    rw [wrapping, BitVec.toNat_mul, iha h.1, ihb h.2.1, exact, Nat.mod_eq_of_lt h.2.2]

end Size

end KeyStretching
