import Mathlib.Logic.Basic

/-!
# Rules and the first fault

A list of rules is a list of what is wrong with a subject by each of them, in the order in which
they are looked at: the fault of a rule that is broken, or nothing (`faultUnless`). A computation
`Reports` such a list if it fails with the first fault, and succeeds where there is none. Which
fault comes first is settled rule by rule (`Reports.cons`, `Reports.check`), and the lists of
computations that follow one another are joined (`Reports.bind`).
-/

namespace KeyStretching

variable {ε ε' α β : Type}

/-- The fault `e`, unless the rule is kept. -/
def faultUnless (kept : Prop) [Decidable kept] (e : ε) : Option ε := if kept then none else some e

theorem map_faultUnless (f : ε → ε') (kept : Prop) [Decidable kept] (e : ε) :
    (faultUnless kept e).map f = faultUnless kept (f e) := by
  by_cases h : kept
  · rw [faultUnless, faultUnless, if_pos h, if_pos h, Option.map_none]
  · rw [faultUnless, faultUnless, if_neg h, if_neg h, Option.map_some]

theorem faultUnless_eq_none_iff {kept : Prop} [Decidable kept] {e : ε} :
    faultUnless kept e = none ↔ kept := by
  by_cases h : kept
  · rw [faultUnless, if_pos h]
    exact ⟨fun _ => h, fun _ => rfl⟩
  · rw [faultUnless, if_neg h]
    exact ⟨nofun, fun hkept => absurd hkept h⟩

/-- A rule may be said in other words, and its fault only matters where it is broken. -/
theorem faultUnless_congr {kept kept' : Prop} [Decidable kept] [Decidable kept'] {e e' : ε}
    (hkept : kept ↔ kept') (he : ¬kept → e = e') : faultUnless kept e = faultUnless kept' e' := by
  by_cases h : kept
  · rw [faultUnless, faultUnless, if_pos h, if_pos (hkept.1 h)]
  · rw [faultUnless, faultUnless, if_neg h, if_neg (mt hkept.2 h), he h]

theorem of_mem_faultUnless {P : ε → Prop} {kept : Prop} [Decidable kept] {e : ε} (h : P e) :
    ∀ e' ∈ faultUnless kept e, P e' := by
  by_cases hkept : kept
  · rw [faultUnless, if_pos hkept]
    exact nofun
  · rw [faultUnless, if_neg hkept]
    intro e' he
    rwa [← Option.mem_some_iff.1 he]

/-- The first fault of a list. -/
def firstFault (faults : List (Option ε)) : Option ε := faults.findSome? id

theorem firstFault_append (faults faults' : List (Option ε)) :
    firstFault (faults ++ faults') = (firstFault faults).or (firstFault faults') :=
  List.findSome?_append

theorem firstFault_map (f : ε → ε') (faults : List (Option ε)) :
    firstFault (faults.map (Option.map f)) = (firstFault faults).map f := by
  induction faults with
  | nil => rfl
  | cons fault faults ih =>
    cases fault with
    | none => exact ih
    | some e => rfl

theorem firstFault_eq_none_iff {faults : List (Option ε)} :
    firstFault faults = none ↔ ∀ fault ∈ faults, fault = none := List.findSome?_eq_none_iff

/-- What holds of every fault holds of the first one. -/
theorem of_firstFault {P : ε → Prop} {faults : List (Option ε)} {e : ε}
    (hall : ∀ fault ∈ faults, ∀ e ∈ fault, P e) (h : firstFault faults = some e) : P e := by
  obtain ⟨fault, hmem, hfault⟩ := List.exists_of_findSome?_eq_some h
  exact hall fault hmem e hfault

/-- The computation fails with the first fault, and succeeds where there is none. -/
def Reports (x : Except ε α) (faults : List (Option ε)) : Prop :=
  ∀ e, x = .error e ↔ firstFault faults = some e

namespace Reports

variable {x : Except ε α} {faults faults' : List (Option ε)}

theorem error_iff {e : ε} :
    Reports (.error e : Except ε α) faults ↔ firstFault faults = some e := by
  constructor
  · exact fun h => (h e).1 rfl
  · intro h e'
    rw [h]
    exact ⟨fun he => congrArg some (Except.error.inj he),
      fun he => congrArg Except.error (Option.some.inj he)⟩

theorem ok_iff {a : α} : Reports (.ok a : Except ε α) faults ↔ firstFault faults = none := by
  constructor
  · intro h
    cases hfault : firstFault faults with
    | none => rfl
    | some e => exact nomatch (h e).2 hfault
  · intro h e
    rw [h]
    exact ⟨nofun, nofun⟩

/-- A computation succeeds if there is no fault. -/
theorem exists_eq_ok_iff (h : Reports x faults) :
    (∃ a, x = .ok a) ↔ firstFault faults = none := by
  cases x with
  | error e => simp [error_iff.1 h]
  | ok a => simp [ok_iff.1 h]

/-- Without rules, nothing can be wrong. -/
theorem nil (a : α) : Reports (.ok a) ([] : List (Option ε)) := ok_iff.2 rfl

/-- What the first rule finds is reported; if it finds nothing, the others decide. -/
theorem cons {fault : Option ε} (hbroken : ∀ e, fault = some e → x = .error e)
    (hkept : fault = none → Reports x faults) : Reports x (fault :: faults) := by
  cases fault with
  | none => exact hkept rfl
  | some e =>
    rw [hbroken e rfl]
    exact error_iff.2 rfl

theorem check {kept : Prop} [Decidable kept] {e : ε} (hbroken : ¬kept → x = .error e)
    (hkept : kept → Reports x faults) : Reports x (faultUnless kept e :: faults) := by
  by_cases h : kept
  · rw [faultUnless, if_pos h]
    exact hkept h
  · rw [faultUnless, if_neg h, hbroken h]
    exact error_iff.2 rfl

/-- A fault may be reported in other words. -/
theorem mapError (f : ε → ε') (h : Reports x faults) :
    Reports (x.mapError f) (faults.map (Option.map f)) := by
  cases x with
  | error e =>
    refine error_iff.2 ?_
    rw [firstFault_map, error_iff.1 h, Option.map_some]
  | ok a =>
    refine ok_iff.2 ?_
    rw [firstFault_map, ok_iff.1 h, Option.map_none]

/-- The rules for what is done with a result come behind those for the result. -/
theorem bind {f : α → Except ε β} (h : Reports x faults)
    (hf : ∀ a, x = .ok a → Reports (f a) faults') : Reports (x >>= f) (faults ++ faults') := by
  cases x with
  | error e =>
    refine error_iff.2 ?_
    rw [firstFault_append, error_iff.1 h, Option.some_or]
  | ok a =>
    intro e
    rw [firstFault_append, ok_iff.1 h, Option.none_or]
    exact hf a rfl e

/-- A result that is only put into another form needs no rules. -/
theorem bind_pure (f : α → β) (h : Reports x faults) :
    Reports (x >>= fun a => pure (f a)) faults := by
  rw [← List.append_nil faults]
  exact h.bind fun a _ => .nil (f a)

end Reports

end KeyStretching
