import KeyStretching.Proofs.Salsa
import Mathlib.Data.Fin.VecNotation
import Mathlib.Logic.Equiv.Fin.Rotate

/-!
# Undoing the rounds

The rounds change a block by one update after the other: a word takes in, by exclusive or, the
turned sum of two words (`update`). As long as it is none of the two itself, the sum is the same
after the update as before, and making the update once more takes it back (`update_update`). So a
quarter round on four different words is undone by its four updates in reverse order, and the eight
rounds by the 32 quarter rounds in reverse order:

* `leftInverse_foldl`: steps that can be undone are undone in reverse order;
* `quarterRoundAt_eq`: a quarter round is four updates, one after the other;
* `rounds_eq_foldl`: the rounds are the quarter rounds of `wiring`, one after the other;
* `bijective_rounds`: the rounds lose nothing, and neither does what the core adds to a block.
-/

namespace KeyStretching

/-- The difference of two blocks, word by word. -/
def Block.sub (x y : Block) : Block := x.zipWith (· - ·) y

namespace Salsa

/-! ## Steps undone in reverse order -/

/-- Steps each of which is undone are undone together, the last one first. -/
theorem leftInverse_foldl {α β : Type} {step undo : β → α → β} {qs : List α}
    (h : ∀ q ∈ qs, Function.LeftInverse (undo · q) (step · q)) :
    Function.LeftInverse (fun x => qs.reverse.foldl undo x) (fun x => qs.foldl step x) := by
  induction qs with
  | nil => exact fun _ => rfl
  | cons q qs ih =>
    obtain ⟨hq, hqs⟩ := List.forall_mem_cons.1 h
    intro x
    -- The steps after the first are undone before it.
    have hrest : qs.reverse.foldl undo (qs.foldl step (step x q)) = step x q := ih hqs (step x q)
    change (q :: qs).reverse.foldl undo ((q :: qs).foldl step x) = x
    rw [List.foldl_cons, List.reverse_cons, List.foldl_append, hrest, List.foldl_cons,
      List.foldl_nil]
    exact hq x

/-- What undoes the steps is undone by them, when this holds of every step. -/
theorem rightInverse_foldl {α β : Type} {step undo : β → α → β} {qs : List α}
    (h : ∀ q ∈ qs, Function.RightInverse (undo · q) (step · q)) :
    Function.RightInverse (fun x => qs.reverse.foldl undo x) (fun x => qs.foldl step x) := by
  have hback := leftInverse_foldl fun q hq => h q (List.mem_reverse.1 hq)
  rwa [List.reverse_reverse] at hback

/-! ## One update -/

/-- The word at `b` takes in the turned sum of the words at `a` and `d`. -/
def update {n : Nat} (x : Vector UInt32 n) (b a d : Fin n) (k : UInt32) : Vector UInt32 n :=
  x.set b (x[b] ^^^ rotl (x[a] + x[d]) k)

/-- An update of a word that it does not read is its own inverse. -/
theorem update_update {n : Nat} (x : Vector UInt32 n) {b a d : Fin n} (ha : b ≠ a) (hd : b ≠ d)
    (k : UInt32) : update (update x b a d k) b a d k = x := by
  -- The words that the sum is of are as they were before the first update.
  have hsame {i : Fin n} (hi : b ≠ i) : (update x b a d k)[i] = x[i] :=
    Vector.getElem_set_ne _ _ (Fin.val_ne_of_ne hi)
  have hword : (update x b a d k)[b] = x[b] ^^^ rotl (x[a] + x[d]) k :=
    Vector.getElem_set_self _
  rw [update, hword, hsame ha, hsame hd, UInt32.xor_assoc, UInt32.xor_self, UInt32.xor_zero, update,
    Vector.set_set]
  exact Vector.set_getElem_self _

/-! ## One quarter round -/

/-- By how many bits the updates of a quarter round turn. -/
def turn : Fin 4 → UInt32 := ![7, 9, 13, 18]

/-- An update of the quarter round on four given places: the word after word `i`, round the end,
    takes in the turned sum of word `i` and the one before. -/
def updateAt (q : Fin 4 → Fin 16) (x : Block) (i : Fin 4) : Block :=
  update x (q (finRotate 4 i)) (q i) (q ((finRotate 4).symm i)) (turn i)

/-- The quarter round on four given places, as four updates. -/
def quarterRoundAt (x : Block) (q : Fin 4 → Fin 16) : Block :=
  (List.finRange 4).foldl (updateAt q) x

/-- The updates of the quarter round on four given places in reverse order. -/
def undoQuarterRoundAt (x : Block) (q : Fin 4 → Fin 16) : Block :=
  (List.finRange 4).reverse.foldl (updateAt q) x

/-- A quarter round updates each of its words in turn. -/
theorem quarterRoundAt_eq (x : Block) (q : Fin 4 → Fin 16) :
    quarterRoundAt x q = quarterRound x (q 0) (q 1) (q 2) (q 3) := rfl

section

variable {q : Fin 4 → Fin 16} (hq : Function.Injective q)

include hq

/-- On four different words, no update of a quarter round reads the word that it changes. -/
theorem leftInverse_updateAt (i : Fin 4) :
    Function.LeftInverse (updateAt q · i) (updateAt q · i) := by
  have hnext : finRotate 4 i ≠ i ∧ finRotate 4 i ≠ (finRotate 4).symm i := by
    revert i
    decide
  exact fun x => update_update x (hq.ne hnext.1) (hq.ne hnext.2) (turn i)

/-- A quarter round on four different words is undone. -/
theorem leftInverse_undoQuarterRoundAt :
    Function.LeftInverse (undoQuarterRoundAt · q) (quarterRoundAt · q) :=
  leftInverse_foldl fun i _ => leftInverse_updateAt hq i

/-- What undoes a quarter round on four different words is undone by it. -/
theorem rightInverse_undoQuarterRoundAt :
    Function.RightInverse (undoQuarterRoundAt · q) (quarterRoundAt · q) :=
  rightInverse_foldl fun i _ => leftInverse_updateAt hq i

end

/-! ## All quarter rounds -/

/-- The places of the quarter rounds of a round on the columns, and then of one on the rows. -/
def doubleWiring : List (Fin 4 → Fin 16) :=
  (List.finRange 4).map column ++ (List.finRange 4).map row

/-- The places of all quarter rounds, in the order in which they are made. -/
def wiring : List (Fin 4 → Fin 16) := (List.replicate 4 doubleWiring).flatten

theorem length_wiring : wiring.length = 32 := rfl

theorem doubleRound_eq_foldl (x : Block) :
    doubleRound x = doubleWiring.foldl quarterRoundAt x := by
  rw [doubleWiring, List.foldl_append, List.foldl_map, List.foldl_map]
  simp only [quarterRoundAt_eq, ← columnRound_eq_foldl, ← rowRound_eq_foldl, doubleRound]

/-- The eight rounds are the quarter rounds one after the other. -/
theorem rounds_eq_foldl (x : Block) : rounds x = wiring.foldl quarterRoundAt x := by
  have hwiring : wiring =
      doubleWiring ++ (doubleWiring ++ (doubleWiring ++ doubleWiring)) := rfl
  rw [hwiring, List.foldl_append, List.foldl_append, List.foldl_append, ← doubleRound_eq_foldl,
    ← doubleRound_eq_foldl, ← doubleRound_eq_foldl, ← doubleRound_eq_foldl, rounds]

/-- The quarter rounds undone one after the other, the last one first. -/
def unrounds (x : Block) : Block := wiring.reverse.foldl undoQuarterRoundAt x

/-- Every quarter round is on four different words. -/
theorem injective_of_mem_wiring {q : Fin 4 → Fin 16} (h : q ∈ wiring) : Function.Injective q := by
  rw [wiring, List.mem_flatten] at h
  obtain ⟨double, hdouble, hq⟩ := h
  rw [List.eq_of_mem_replicate hdouble, doubleWiring, List.mem_append, List.mem_map,
    List.mem_map] at hq
  rcases hq with ⟨j, -, rfl⟩ | ⟨i, -, rfl⟩
  · exact fun _ _ h => (column_injective h).2
  · exact fun _ _ h => (row_injective h).2

theorem leftInverse_unrounds : Function.LeftInverse unrounds rounds := by
  have hundo : ∀ q ∈ wiring,
      Function.LeftInverse (undoQuarterRoundAt · q) (quarterRoundAt · q) := fun _ hq =>
    leftInverse_undoQuarterRoundAt (injective_of_mem_wiring hq)
  intro x
  rw [unrounds, rounds_eq_foldl]
  exact leftInverse_foldl hundo x

theorem rightInverse_unrounds : Function.RightInverse unrounds rounds := by
  have hredo : ∀ q ∈ wiring,
      Function.RightInverse (undoQuarterRoundAt · q) (quarterRoundAt · q) := fun _ hq =>
    rightInverse_undoQuarterRoundAt (injective_of_mem_wiring hq)
  intro x
  rw [unrounds, rounds_eq_foldl]
  exact rightInverse_foldl hredo x

/-- What the core adds to a block is the block after the rounds. -/
theorem core_sub (x : Block) : (core x).sub x = rounds x := by
  ext k hk
  simp only [Block.sub, core, Block.add, Vector.getElem_zipWith]
  rw [UInt32.add_comm, UInt32.add_sub_cancel]

/-- The rounds lose nothing: they are 32 quarter rounds, each of which is undone, and undoing them
    in reverse order takes the rounds back. The same holds of what the core adds to a block. -/
theorem bijective_rounds :
    wiring.length = 32 ∧
      (∀ x : Block,
        rounds x = wiring.foldl (fun x q => quarterRound x (q 0) (q 1) (q 2) (q 3)) x) ∧
      (∀ q ∈ wiring, ∀ x : Block,
        undoQuarterRoundAt (quarterRound x (q 0) (q 1) (q 2) (q 3)) q = x) ∧
      Function.Bijective rounds ∧
      Function.LeftInverse unrounds rounds ∧ Function.RightInverse unrounds rounds ∧
      (∀ x : Block, (core x).sub x = rounds x) ∧
      Function.Bijective (fun x : Block => (core x).sub x) ∧
      Function.LeftInverse unrounds (fun x : Block => (core x).sub x) ∧
      Function.RightInverse unrounds (fun x : Block => (core x).sub x) := by
  have hcore : (fun x : Block => (core x).sub x) = rounds := funext core_sub
  have hbijective : Function.Bijective rounds :=
    ⟨leftInverse_unrounds.injective, rightInverse_unrounds.surjective⟩
  rw [hcore]
  refine ⟨length_wiring, fun x => ?_, fun q hq x => ?_, hbijective, leftInverse_unrounds,
    rightInverse_unrounds, core_sub, hbijective, leftInverse_unrounds, rightInverse_unrounds⟩
  · simp only [rounds_eq_foldl, ← quarterRoundAt_eq]
  · rw [← quarterRoundAt_eq]
    exact leftInverse_undoQuarterRoundAt (injective_of_mem_wiring hq) x

end Salsa

end KeyStretching
