import KeyStretching.Proofs.Scrypt.Lanes

/-!
# What a derivation yields and reports

A derivation neither counts its lanes nor orders them. It overwrites a buffer whose size is a
product of machine words, cuts lanes off until nothing is left, and leaves them to workers that
take them as they come (`Schedule`). Written that way (`deriveScheduled`), it is the derivation that
takes as many lanes as the parameters ask for, one after the other, but for the order of its
reports: the limit on the sizes keeps the product from wrapping around (`Cost.toNat_bufferLen`), and
the order of the lanes does not matter to the key.

* `deriveScheduled_sequential`: taking the lanes one after the other is one of the schedules;
* `value_deriveScheduled`: the key is the same for all schedules;
* `outcome_deriveScheduled`: what is known of a derivation without knowing password and salt;
* `Outcome.sameOutcome`: nothing but the bytes of the key tells two passwords or salts apart.
-/

namespace KeyStretching

/-! ## Sizes -/

namespace Cost

variable (c : Cost)

/-- The length in bytes of a lane, as a machine word. -/
def laneLen : USize := 128 * c.r.toUSize

/-- The length in bytes of all lanes together, as a machine word. -/
def bufferLen : USize := c.laneLen * c.p.toUSize

/-- No machine word is too small for the length of all lanes together. -/
theorem lanes_lt_size : 128 * c.r.toNat * c.p.toNat < USize.size := by
  have hlanes := c.lanes_le
  have hsize := USize.le_size
  omega

theorem toNat_laneLen : c.laneLen.toNat = 128 * c.r.toNat := by
  have hle : 128 * c.r.toNat ≤ 128 * c.r.toNat * c.p.toNat := Nat.le_mul_of_pos_right _ c.p_pos
  have hunit : (128 : USize).toNat = 128 := by simp
  rw [laneLen, USize.toNat_mul, ← USize.size_eq_two_pow, hunit, UInt32.toNat_toUSize,
    Nat.mod_eq_of_lt (Nat.lt_of_le_of_lt hle c.lanes_lt_size)]

/-- The length of all lanes together does not wrap around. -/
theorem toNat_bufferLen : c.bufferLen.toNat = 128 * c.r.toNat * c.p.toNat := by
  rw [bufferLen, USize.toNat_mul, ← USize.size_eq_two_pow, toNat_laneLen, UInt32.toNat_toUSize,
    Nat.mod_eq_of_lt c.lanes_lt_size]

end Cost

namespace Scrypt

/-! ## Schedules -/

/-- How workers take turns at lanes. -/
structure Schedule where
  /-- The order in which a given count of lanes have their turns. -/
  order : Nat → List Nat
  /-- Every lane has one turn. -/
  perm_range (count : Nat) : (order count).Perm (List.range count)

/-- What is the same for all lanes is met as often as there are lanes. -/
theorem Schedule.map_order {α : Type} (schedule : Schedule) (count : Nat) {f : Nat → α} {x : α}
    (h : ∀ lane, f lane = x) : (schedule.order count).map f = List.replicate count x := by
  have hcount : (schedule.order count).length = count :=
    (schedule.perm_range count).length_eq.trans List.length_range
  exact List.eq_replicate_iff.2
    ⟨(List.length_map _).trans hcount, List.forall_mem_map.2 fun lane _ => h lane⟩

/-- One lane after the other. -/
def Schedule.sequential : Schedule := ⟨List.range, fun count => .refl (List.range count)⟩

/-- Cuts a buffer into lanes, and mixes each of them when it has its turn. -/
def mixScheduled {r n : Nat} (hr : 0 < r) (hn : 0 < n) (schedule : Schedule) (laneLen : Nat)
    (buffer : Bytes) : Logged Bytes := do
  let lanes := (chunks laneLen buffer).toArray
  let mixed ← (schedule.order lanes.size).foldlM (mixAt hr hn) lanes
  pure mixed.toList.flatten

/-- The key of a given length, when lanes are mixed by a schedule. -/
def deriveScheduled (schedule : Schedule) (a : Algorithm) (password salt : Bytes)
    (n r p : UInt32) (keyLen : Nat) : Logged (Except Error Bytes) :=
  match Cost.ofTriple n r p with
  | .error e => pure (.error (.cost e))
  | .ok cost => do
    Logged.emit (.derivingKey a cost.n cost.r cost.p keyLen)
    match (Pbkdf2.fill a password salt 1).run (List.replicate cost.bufferLen.toNat 0) with
    | .error e _ => pure (.error e)
    | .ok () buffer =>
      let mixed ← mixScheduled cost.r_pos cost.n_pos schedule cost.laneLen.toNat buffer
      pure (Pbkdf2.derive a password mixed 1 keyLen)

/-- A buffer of whole lanes is cut into just these lanes. -/
theorem mixScheduled_eq {r n : Nat} (hr : 0 < r) (hn : 0 < n) (schedule : Schedule) {p : Nat}
    {buffer : Bytes} (h : buffer.length = 128 * r * p) :
    mixScheduled hr hn schedule (128 * r) buffer =
      mixLanes hr hn (schedule.order p) buffer := by
  have hcount : (chunks (128 * r) buffer).toArray.size = p := by
    rw [List.size_toArray, chunks_eq_map_piece (by omega) h, List.length_map, List.length_range]
  rw [mixScheduled, hcount]
  rfl

section

variable {schedule : Schedule} {a : Algorithm} {password salt : Bytes} {n r p : UInt32}
  {keyLen : Nat}

theorem deriveScheduled_of_error {e : CostError} (hcost : Cost.ofTriple n r p = .error e) :
    deriveScheduled schedule a password salt n r p keyLen = pure (.error (.cost e)) := by
  rw [deriveScheduled, hcost]

/-- For admissible cost parameters, as many lanes have their turns as the parameters ask for. -/
theorem deriveScheduled_of_ok {c : Cost} (hcost : Cost.ofTriple n r p = .ok c) :
    deriveScheduled schedule a password salt n r p keyLen = (do
      Logged.emit (.derivingKey a n r p keyLen)
      let mixed ← mixLanes c.r_pos c.n_pos (schedule.order p.toNat)
        (Standard.pbkdf2 a.hashFunction password salt 1 (128 * c.r.toNat * p.toNat))
      pure (Pbkdf2.derive a password mixed 1 keyLen)) := by
  obtain ⟨rfl, rfl, rfl⟩ := Cost.eq_of_ofTriple hcost
  -- The buffer has the length of all lanes, which is not too long to be overwritten.
  have hone : (1 : UInt32) ≠ 0 := by decide
  have hlength : (List.replicate c.bufferLen.toNat (0 : UInt8)).length =
      128 * c.r.toNat * c.p.toNat := List.length_replicate.trans c.toNat_bufferLen
  have hspread := Pbkdf2.run_fill a password salt hone
    (hlength.trans_le (c.lanes_le_maxKeyLen a))
  rw [hlength, UInt32.toNat_one] at hspread
  rw [deriveScheduled, hcost]
  simp only [hspread, c.toNat_laneLen, mixScheduled_eq c.r_pos c.n_pos schedule
    (Standard.length_pbkdf2 a.hashFunction password salt 1 (128 * c.r.toNat * c.p.toNat))]

/-- The derivation is reported, then the lanes in the order of their turns. -/
theorem events_deriveScheduled {c : Cost} (hcost : Cost.ofTriple n r p = .ok c) :
    (deriveScheduled schedule a password salt n r p keyLen).events =
      .derivingKey a n r p keyLen :: (schedule.order p.toNat).map Event.mixingLane := by
  rw [deriveScheduled_of_ok hcost, Logged.events_bind, Logged.events_bind,
    events_mixLanes, Logged.events_pure, List.append_nil]
  rfl

variable (schedule a password salt n r p keyLen)

/-- Taking the lanes one after the other is one of the schedules. -/
theorem deriveScheduled_sequential :
    deriveScheduled .sequential a password salt n r p keyLen =
      derive a password salt n r p keyLen := by
  cases hcost : Cost.ofTriple n r p with
  | error e => rw [deriveScheduled_of_error hcost, derive, hcost]
  | ok c =>
    have hone : (1 : UInt32) ≠ 0 := by decide
    rw [deriveScheduled_of_ok hcost, derive, hcost]
    obtain ⟨rfl, rfl, rfl⟩ := Cost.eq_of_ofTriple hcost
    simp only [deriveAt, Pbkdf2.derive_of_le a password salt hone (c.lanes_le_maxKeyLen a),
      UInt32.toNat_one, Schedule.sequential]

/-- The key does not depend on the schedule. -/
theorem value_deriveScheduled :
    (deriveScheduled schedule a password salt n r p keyLen).value =
      (derive a password salt n r p keyLen).value := by
  rw [← deriveScheduled_sequential]
  cases hcost : Cost.ofTriple n r p with
  | error e => rw [deriveScheduled_of_error hcost, deriveScheduled_of_error hcost]
  | ok c =>
    obtain ⟨rfl, rfl, rfl⟩ := Cost.eq_of_ofTriple hcost
    have hlength := Standard.length_pbkdf2 a.hashFunction password salt 1
      (128 * c.r.toNat * c.p.toNat)
    have hmixed (schedule : Schedule) :=
      value_mixLanes_of_perm c.r_pos c.n_pos hlength (schedule.perm_range c.p.toNat)
    rw [deriveScheduled_of_ok hcost, deriveScheduled_of_ok hcost]
    simp only [Logged.value_bind, Logged.value_pure, hmixed]

end

/-! ## Outcomes -/

/-- What is known of a derivation without knowing password and salt. -/
structure Outcome (a : Algorithm) (n r p : UInt32) (keyLen : Nat)
    (x : Logged (Except Error Bytes)) : Prop where
  /-- Cost parameters that are not admissible are refused for the rule they break, and nothing is
      reported. -/
  inadmissible (e : CostError) : Cost.ofTriple n r p = .error e →
    x.value = .error (.cost e) ∧ x.events = []
  /-- For all others, the derivation is reported, and then each of the lanes once: in the same words
      each time, and with no fields but the parameters, or the number of the lane. -/
  events (c : Cost) : Cost.ofTriple n r p = .ok c →
    ∃ lanes : List Nat, lanes.Perm (List.range p.toNat) ∧
      x.events = .derivingKey a n r p keyLen :: lanes.map Event.mixingLane ∧
      x.events.map Event.message =
        "deriving scrypt key" :: List.replicate p.toNat "mixing lane" ∧
      x.events.map Event.fields =
        [("algorithm", a.name), ("n", toString n), ("r", toString r), ("p", toString p),
          ("dk_len", toString keyLen)] :: lanes.map fun lane => [("lane", toString lane)]
  /-- The first report stands out from those of the lanes by its level. -/
  levels (c : Cost) : Cost.ofTriple n r p = .ok c →
    x.events.map Event.level = .debug :: List.replicate p.toNat .trace
  /-- A key of the given length is made, if it is not too long. -/
  makes (c : Cost) : Cost.ofTriple n r p = .ok c → keyLen ≤ Pbkdf2.maxKeyLen a →
    ∃ key, x.value = .ok key ∧ key.length = keyLen
  /-- A key that is too long is refused, though all lanes were mixed for it. -/
  tooLong (c : Cost) : Cost.ofTriple n r p = .ok c → Pbkdf2.maxKeyLen a < keyLen →
    x.value = .error (.keyTooLong keyLen (Pbkdf2.maxKeyLen a))

/-- Two derivations that nothing tells apart but the bytes of their keys and the order in which
    their lanes had their turns. -/
structure SameOutcome (x y : Logged (Except Error Bytes)) : Prop where
  value : x.value.map List.length = y.value.map List.length
  events : x.events.Perm y.events

section

variable {a : Algorithm} {n r p : UInt32} {keyLen : Nat}

/-- All derivations for the same parameters have the same outcome. -/
theorem Outcome.sameOutcome {x y : Logged (Except Error Bytes)} (hx : Outcome a n r p keyLen x)
    (hy : Outcome a n r p keyLen y) : SameOutcome x y := by
  cases hcost : Cost.ofTriple n r p with
  | error e =>
    obtain ⟨hxvalue, hxevents⟩ := hx.inadmissible e hcost
    obtain ⟨hyvalue, hyevents⟩ := hy.inadmissible e hcost
    exact ⟨by rw [hxvalue, hyvalue], by rw [hxevents, hyevents]⟩
  | ok c =>
    obtain ⟨xlanes, hxlanes, hxevents, -⟩ := hx.events c hcost
    obtain ⟨ylanes, hylanes, hyevents, -⟩ := hy.events c hcost
    refine ⟨?_, ?_⟩
    · rcases Nat.lt_or_ge (Pbkdf2.maxKeyLen a) keyLen with hlen | hlen
      · rw [hx.tooLong c hcost hlen, hy.tooLong c hcost hlen]
      · obtain ⟨xkey, hxkey, hxlength⟩ := hx.makes c hcost hlen
        obtain ⟨ykey, hykey, hylength⟩ := hy.makes c hcost hlen
        rw [hxkey, hykey, Except.map, Except.map, hxlength, hylength]
    · rw [hxevents, hyevents]
      exact ((hxlanes.trans hylanes.symm).map Event.mixingLane).cons _

variable (a) (n r p) (keyLen)

/-- Whatever the schedule, a derivation yields and reports what its parameters say. -/
theorem outcome_deriveScheduled (schedule : Schedule) (password salt : Bytes) :
    Outcome a n r p keyLen (deriveScheduled schedule a password salt n r p keyLen) where
  inadmissible e hcost := by
    rw [deriveScheduled_of_error hcost]
    exact ⟨rfl, rfl⟩
  events c hcost := by
    refine ⟨schedule.order p.toNat, schedule.perm_range _, events_deriveScheduled hcost, ?_, ?_⟩
    · rw [events_deriveScheduled hcost, List.map_cons, List.map_map]
      congr 1
      exact schedule.map_order p.toNat fun _ => rfl
    · rw [events_deriveScheduled hcost, List.map_cons, List.map_map]
      rfl
  levels c hcost := by
    rw [events_deriveScheduled hcost, List.map_cons, List.map_map]
    congr 1
    exact schedule.map_order p.toNat fun _ => rfl
  makes c hcost hlen := by
    rw [value_deriveScheduled, value_derive a password salt hcost, if_neg (Nat.not_lt.2 hlen)]
    exact ⟨_, rfl, Standard.length_scrypt ..⟩
  tooLong c hcost hlen := by
    rw [value_deriveScheduled, value_derive a password salt hcost, if_pos hlen]

/-- What is known of a derivation is known without password and salt, for any schedule. -/
theorem outcome_derive (password password' salt salt' : Bytes) :
    Outcome a n r p keyLen (derive a password salt n r p keyLen) ∧
      SameOutcome (derive a password salt n r p keyLen) (derive a password' salt' n r p keyLen) ∧
      ∀ schedule schedule' : Schedule,
        (deriveScheduled schedule a password salt n r p keyLen).value =
          (derive a password salt n r p keyLen).value ∧
        Outcome a n r p keyLen (deriveScheduled schedule a password salt n r p keyLen) ∧
        SameOutcome (deriveScheduled schedule a password salt n r p keyLen)
          (deriveScheduled schedule' a password' salt' n r p keyLen) := by
  have hscheduled := outcome_deriveScheduled a n r p keyLen
  have hderive (password salt : Bytes) :
      Outcome a n r p keyLen (derive a password salt n r p keyLen) := by
    rw [← deriveScheduled_sequential]
    exact hscheduled .sequential password salt
  refine ⟨hderive password salt, (hderive password salt).sameOutcome (hderive password' salt'),
    fun schedule schedule' => ⟨value_deriveScheduled .., hscheduled schedule password salt, ?_⟩⟩
  exact (hscheduled schedule password salt).sameOutcome (hscheduled schedule' password' salt')

end

end Scrypt

end KeyStretching
