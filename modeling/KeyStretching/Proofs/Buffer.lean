import KeyStretching.Proofs.Bytes
import Mathlib.Data.List.OfFn

/-!
# Parts of a buffer

Who reads or overwrites a part of a buffer says where it starts and how long it is, and answers for
its lying within the buffer. Here the two operations fail if it does not (`Buffer.read?`,
`Buffer.write?`), so that a run which comes to its end is one that kept within its buffers.

* `slice?_add`, `replace?_add`: a part may be given by the offsets where it starts and ends, if
  these are in order;
* `wholeCount?_of_length`, `pieceCount?_of_length`: when a buffer has the length of so many parts,
  it is cut into as many, and nothing is left over;
* `read?_flatten`, `write?_flatten`: in a concatenation of parts of one length, the part of a given
  number is read and replaced;
* `foldlM_range_eq_some`: a loop of steps that may fail ends where the loop of steps on what the
  buffers stand for ends, if each single step does.
-/

namespace KeyStretching

namespace Buffer

variable {α : Type}

/-- The part of the given start and length, if the buffer reaches so far. -/
def read? (start len : Nat) (buffer : List α) : Option (List α) :=
  if start + len ≤ buffer.length then some ((buffer.drop start).take len) else none

/-- The buffer with the part of the given start and length overwritten, if the buffer reaches so far
    and as much is given to write. -/
def write? (start len : Nat) (given buffer : List α) : Option (List α) :=
  if start + len ≤ buffer.length ∧ given.length = len then
    some (buffer.take start ++ given ++ buffer.drop (start + len))
  else none

/-- The part of a buffer between two offsets, if they are in order and the buffer reaches so far. -/
def slice? (start stop : Nat) (buffer : List α) : Option (List α) :=
  if start ≤ stop then read? start (stop - start) buffer else none

/-- The buffer with the part between two offsets overwritten, if they are in order, the buffer
    reaches so far, and as much is given to write. -/
def replace? (start stop : Nat) (given buffer : List α) : Option (List α) :=
  if start ≤ stop then write? start (stop - start) given buffer else none

/-- The number of whole parts of a given length that a buffer is cut into; there is none if they
    have no length. -/
def count? (len : Nat) (buffer : List α) : Option Nat :=
  if len = 0 then none else some (buffer.length / len)

/-- The number of parts of a given length that a buffer is cut into, if nothing remains. -/
def wholeCount? (len : Nat) (buffer : List α) : Option Nat :=
  if buffer.length % len = 0 then count? len buffer else none

/-- The number of parts of a given length that a buffer is cut into, the last of which may be
    shorter. -/
def pieceCount? (len : Nat) (buffer : List α) : Option Nat :=
  if len = 0 then none else some ((buffer.length + len - 1) / len)

/-- A new buffer of so many elements of `unit` bytes each, if it takes no more than half of the
    bytes that words of `w` bits can number. -/
def new? (w unit count : Nat) (x : α) : Option (List α) :=
  if unit * count < 2 ^ (w - 1) then some (List.replicate count x) else none

section

variable (start len : Nat) (given buffer : List α)

theorem slice?_add : slice? start (start + len) buffer = read? start len buffer := by
  rw [slice?, if_pos (Nat.le_add_right ..), Nat.add_sub_cancel_left]

theorem replace?_add :
    replace? start (start + len) given buffer = write? start len given buffer := by
  rw [replace?, if_pos (Nat.le_add_right ..), Nat.add_sub_cancel_left]

end

/-- The part from an offset to the end. -/
theorem slice?_length {start : Nat} {buffer : List α} (h : start ≤ buffer.length) :
    slice? start buffer.length buffer = some (buffer.drop start) := by
  rw [slice?, if_pos h, read?, if_pos (Nat.add_sub_cancel' h).le, ← List.length_drop,
    List.take_length]

section

variable {len count : Nat} {buffer : List α} (hlen : 0 < len) (h : buffer.length = len * count)

include hlen h

theorem count?_of_length : count? len buffer = some count := by
  rw [count?, if_neg hlen.ne', h, Nat.mul_div_cancel_left _ hlen]

/-- Nothing is left of a buffer of whole parts. -/
theorem wholeCount?_of_length : wholeCount? len buffer = some count := by
  rw [wholeCount?, if_pos (by rw [h, Nat.mul_mod_right]), count?_of_length hlen h]

/-- No part of a buffer of whole parts is shorter. -/
theorem pieceCount?_of_length : pieceCount? len buffer = some count := by
  rw [pieceCount?, if_neg hlen.ne', h, Nat.add_sub_assoc hlen, Nat.mul_add_div hlen,
    Nat.div_eq_of_lt (by omega), Nat.add_zero]

end

theorem new?_of_lt {w unit count : Nat} (x : α) (h : unit * count < 2 ^ (w - 1)) :
    new? w unit count x = some (List.replicate count x) := if_pos h

/-- A concatenation may be split between any two of its parts. -/
theorem flatten_split (parts : List (List α)) (i : Nat) :
    parts.flatten = (parts.take i).flatten ++ (parts.drop i).flatten := by
  rw [← List.flatten_append, List.take_append_drop]

section

variable {len : Nat} {parts : List (List α)} (hparts : ∀ part ∈ parts, part.length = len)

include hparts

theorem length_flatten_take {i : Nat} (h : i ≤ parts.length) :
    (parts.take i).flatten.length = len * i := by
  rw [length_flatten fun part hpart => hparts part (List.mem_of_mem_take hpart), List.length_take,
    Nat.min_eq_left h]

theorem take_flatten {i : Nat} (h : i ≤ parts.length) :
    parts.flatten.take (len * i) = (parts.take i).flatten := by
  rw [flatten_split parts i, List.take_left' (length_flatten_take hparts h)]

theorem drop_flatten {i : Nat} (h : i ≤ parts.length) :
    parts.flatten.drop (len * i) = (parts.drop i).flatten := by
  rw [flatten_split parts i, List.drop_left' (length_flatten_take hparts h)]

theorem le_length_flatten {i : Nat} (h : i < parts.length) :
    len * i + len ≤ parts.flatten.length := by
  rw [length_flatten hparts, ← Nat.mul_succ]
  exact Nat.mul_le_mul_left len h

/-- Reading finds the part of a given number. -/
theorem read?_flatten {i : Nat} (h : i < parts.length) :
    read? (len * i) len parts.flatten = some parts[i] := by
  have hlength : parts[i].length = len := hparts _ (List.getElem_mem h)
  rw [read?, if_pos (le_length_flatten hparts h), drop_flatten hparts h.le,
    List.drop_eq_getElem_cons h, List.flatten_cons, List.take_left' hlength]

/-- Writing replaces the part of a given number, and leaves the others. -/
theorem write?_flatten {i : Nat} (h : i < parts.length) {given : List α}
    (hgiven : given.length = len) :
    write? (len * i) len given parts.flatten = some (parts.set i given).flatten := by
  rw [write?, if_pos ⟨le_length_flatten hparts h, hgiven⟩, take_flatten hparts h.le, ← Nat.mul_succ,
    drop_flatten hparts h, List.set_eq_take_cons_drop given h, List.flatten_append,
    List.flatten_cons, List.append_assoc]

/-- The parts are as many as are counted. -/
theorem count?_flatten (hlen : 0 < len) : count? len parts.flatten = some parts.length := by
  exact count?_of_length hlen (length_flatten hparts)

end

/-- A buffer of a whole number of parts is the concatenation of parts of one length. -/
theorem exists_parts {len count : Nat} {buffer : List α} (h : buffer.length = len * count) :
    ∃ part : Fin count → Fin len → α,
      buffer = (List.ofFn fun i => List.ofFn (part i)).flatten := by
  have hbuffer : buffer = List.ofFn fun k : Fin (len * count) => buffer.get (k.cast h.symm) :=
    List.ext_getElem (by simp [h]) fun i _ _ => by simp
  rw [List.ofFn_mul'] at hbuffer
  exact ⟨_, hbuffer⟩

/-- Writing behind a part of the buffer replaces as much as is written. -/
theorem write?_append {len : Nat} {front back given : List α} (hgiven : given.length = len)
    (hback : len ≤ back.length) :
    write? front.length len given (front ++ back) = some (front ++ given ++ back.drop len) := by
  rw [write?, if_pos ⟨by rw [List.length_append]; omega, hgiven⟩, List.take_left, List.drop_append,
    List.drop_eq_nil_of_le (Nat.le_add_right ..), Nat.add_sub_cancel_left, List.nil_append]

/-- Writing one part after the other replaces as many as are written. -/
theorem foldlM_write?_zipIdx {β : Type} {len : Nat} {f : β → List α}
    (hf : ∀ x, (f x).length = len) (xs : List β) {k : Nat} {front back : List α}
    (hfront : front.length = len * k) (hback : back.length = len * xs.length) :
    (xs.zipIdx k).foldlM (fun buffer x => write? (len * x.2) len (f x.1) buffer) (front ++ back) =
      some (front ++ xs.flatMap f) := by
  induction xs generalizing k front back with
  | nil =>
    rw [List.eq_nil_of_length_eq_zero hback]
    rfl
  | cons x xs ih =>
    rw [List.length_cons, Nat.mul_succ] at hback
    have hfirst : write? (len * k) len (f x) (front ++ back) =
        some (front ++ f x ++ back.drop len) := by
      rw [← hfront, write?_append (hf x) (by omega)]
    have hfront' : (front ++ f x).length = len * (k + 1) := by
      rw [List.length_append, hfront, hf, Nat.mul_succ]
    have hback' : (back.drop len).length = len * xs.length := by
      rw [List.length_drop]
      omega
    rw [List.zipIdx_cons, List.foldlM_cons, hfirst, Option.bind_eq_bind, Option.bind_some,
      ih hfront' hback', List.flatMap_cons, List.append_assoc]

/-- Reading finds the piece of a given number. -/
theorem read?_piece {len count : Nat} {bytes : Bytes} (h : bytes.length = len * count) {i : Nat}
    (hi : i < count) : read? (len * i) len bytes = some (Standard.piece len i bytes) := by
  have hle : len * (i + 1) ≤ len * count := Nat.mul_le_mul_left len hi
  rw [read?, if_pos (by rwa [h, ← Nat.mul_succ]), Standard.piece]

/-- Computing from each element of a list comes to the end, if it does for each of them. -/
theorem mapM_eq_some_map {β : Type} {f? : α → Option β} {f : α → β} {xs : List α}
    (h : ∀ x ∈ xs, f? x = some (f x)) : xs.mapM f? = some (xs.map f) := by
  induction xs with
  | nil => rfl
  | cons x xs ih =>
    obtain ⟨hfirst, hrest⟩ := List.forall_mem_cons.1 h
    rw [List.mapM_cons, hfirst, ih hrest]
    rfl

/-- Loops of steps that may fail do the same, if their steps do. -/
theorem foldlM_congr {σ β : Type} {step? step?' : σ → β → Option σ} {xs : List β}
    (h : ∀ x ∈ xs, ∀ s, step? s x = step?' s x) (start : σ) :
    xs.foldlM step? start = xs.foldlM step?' start := by
  induction xs generalizing start with
  | nil => rfl
  | cons x xs ih =>
    obtain ⟨hfirst, hrest⟩ := List.forall_mem_cons.1 h
    rw [List.foldlM_cons, List.foldlM_cons, hfirst]
    exact congrArg (step?' start x >>= ·) (funext (ih hrest))

/-- A loop of steps that may fail ends where the loop on what the buffers stand for ends, if none of
    the steps on what stands for something fails. -/
theorem foldlM_range_eq_some {σ τ : Type} {n : Nat} {step? : τ → Nat → Option τ}
    {step : σ → Fin n → σ} (buffers : σ → τ)
    (hstep : ∀ (s : σ) (i : Fin n), step? (buffers s) i = some (buffers (step s i))) (start : σ) :
    (List.range n).foldlM step? (buffers start) = some (buffers (Fin.foldl n step start)) := by
  induction n with
  | zero => rw [Fin.foldl_zero]; rfl
  | succ n ih =>
    have hrest := ih fun s i => hstep s i.castSucc
    have hlast := hstep (Fin.foldl n (fun s i => step s i.castSucc) start) (Fin.last n)
    rw [List.range_succ, List.foldlM_append, hrest, Fin.foldl_succ_last, Option.bind_eq_bind,
      Option.bind_some, List.foldlM_cons]
    exact congrArg (· >>= pure) hlast

end Buffer

end KeyStretching
