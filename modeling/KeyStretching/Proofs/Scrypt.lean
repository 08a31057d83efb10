import KeyStretching.Proofs.Cost
import KeyStretching.Proofs.Pbkdf2
import KeyStretching.Proofs.RoMix
import KeyStretching.Scrypt.Derivation

/-!
# Memory-hard key derivation

The lanes of an admissible cost are no longer than the first pass can make
(`Cost.lanes_le_maxKeyLen`). Mixing lanes in an order without repetitions mixes each of them once,
whatever the order (`value_mixInOrder`), so that mixing them one after the other mixes every lane by
itself (`value_mixLanes`).

* `value_derive`: for every admissible cost, the key derived is that of the published function,
  unless it is too long;
* `events_derive`: the derivation is reported, then the lanes in their order;
* `Standard.take_scrypt`: a shorter key is the beginning of a longer one.
-/

namespace KeyStretching

open Standard (piece)

/-- The lanes together are no longer than a key may be. -/
theorem Cost.lanes_le_maxKeyLen (c : Cost) (a : Algorithm) :
    128 * c.r.toNat * c.p.toNat ≤ Pbkdf2.maxKeyLen a := by
  rw [Pbkdf2.maxKeyLen]
  calc 128 * c.r.toNat * c.p.toNat ≤ 2 ^ 31 - 1 := c.lanes_le
    _ ≤ (UInt32.size - 1) * 1 := by decide
    _ ≤ (UInt32.size - 1) * a.outLen := Nat.mul_le_mul_left _ a.outLen_pos

/-! ## Lengths -/

namespace Standard

variable (H : HashFunction) (password salt : Bytes) (n r p : Nat)

@[simp] theorem length_scrypt (keyLen : Nat) :
    (scrypt H password salt n r p keyLen).length = keyLen :=
  length_pbkdf2 ..

/-- A shorter key is the beginning of a longer one. -/
theorem take_scrypt {k m : Nat} (h : k ≤ m) :
    (scrypt H password salt n r p m).take k = scrypt H password salt n r p k :=
  take_pbkdf2 _ _ _ _ h

end Standard

/-! ## Mixing lanes -/

namespace Scrypt

variable {r n : Nat} (hr : 0 < r) (hn : 0 < n)

/-- Mixing lanes reports each of them, in the given order. -/
theorem events_mixInOrder (order : List Nat) (lanes : Array Bytes) :
    (order.foldlM (mixAt hr hn) lanes).events = order.map Event.mixingLane := by
  induction order generalizing lanes with
  | nil => rfl
  | cons i order ih =>
    rw [List.foldlM_cons, Logged.events_bind, ih, List.map_cons]
    rfl

/-- Mixing lanes in an order without repetitions mixes each of them once. -/
theorem value_mixInOrder {order : List Nat} (horder : order.Nodup) (lanes : Array Bytes) :
    (order.foldlM (mixAt hr hn) lanes).value =
      lanes.mapIdx fun i lane => if i ∈ order then RoMix.mixBytes hr hn lane else lane := by
  induction order generalizing lanes with
  | nil => exact Array.ext (by simp) fun i _ _ => by simp
  | cons j order ih =>
    obtain ⟨hj, horder⟩ := List.nodup_cons.1 horder
    have hfirst : (mixAt hr hn lanes j).value = lanes.modify j (RoMix.mixBytes hr hn) := rfl
    rw [List.foldlM_cons, Logged.value_bind, ih horder, hfirst]
    refine Array.ext (by simp) fun i _ _ => ?_
    by_cases hij : j = i
    · -- The first lane is mixed at once, and by no later step.
      subst hij
      simp [hj, Array.getElem_modify]
    · simp [hij, Ne.symm hij, Array.getElem_modify]

/-- After any of the lanes had their turns, those are mixed and all the others are as they were. -/
theorem value_mixLanes_of_nodup {order : List Nat} (horder : order.Nodup) {p : Nat} {buffer : Bytes}
    (h : buffer.length = 128 * r * p) :
    (mixLanes hr hn order buffer).value = (List.range p).flatMap fun i =>
      if i ∈ order then RoMix.mixBytes hr hn (piece (128 * r) i buffer)
      else piece (128 * r) i buffer := by
  have hlanes := chunks_eq_map_piece (by omega) h
  rw [mixLanes, Logged.value_bind, value_mixInOrder hr hn horder, hlanes, Logged.value_pure,
    List.flatMap_def]
  congr 1
  exact List.ext_getElem (by simp) fun i _ _ => by simp

/-- Mixing the lanes one after the other makes each of them the published mixing of it. -/
theorem value_mixLanes {k : Nat} (hk : k ≤ 32) (hpow : n = 2 ^ k) {p : Nat} {buffer : Bytes}
    (h : buffer.length = 128 * r * p) :
    (mixLanes hr hn (List.range p) buffer).value =
      (List.range p).flatMap fun i => Standard.roMix r n (piece (128 * r) i buffer) := by
  rw [value_mixLanes_of_nodup hr hn List.nodup_range h]
  refine List.flatMap_congr fun i hi => ?_
  rw [if_pos hi, RoMix.mixBytes_eq hr hn hk hpow (length_piece h (List.mem_range.1 hi))]

theorem events_mixLanes (order : List Nat) (buffer : Bytes) :
    (mixLanes hr hn order buffer).events = order.map Event.mixingLane := by
  rw [mixLanes, Logged.events_bind, events_mixInOrder, Logged.events_pure, List.append_nil]

/-! ## The key -/

section

variable (a : Algorithm) (password salt : Bytes)

/-- For admissible cost parameters, the key is that of the published function, unless it is too
    long. -/
theorem value_deriveAt (c : Cost) (keyLen : Nat) :
    (deriveAt a password salt c keyLen).value =
      if Pbkdf2.maxKeyLen a < keyLen then .error (.keyTooLong keyLen (Pbkdf2.maxKeyLen a))
      else .ok (Standard.scrypt a.hashFunction password salt c.n.toNat c.r.toNat c.p.toNat
        keyLen) := by
  obtain ⟨k, hk, hpow⟩ := c.exists_two_pow
  have hone : (1 : UInt32) ≠ 0 := by decide
  have hspread := Pbkdf2.derive_of_le a password salt hone (c.lanes_le_maxKeyLen a)
  have hmixed := value_mixLanes c.r_pos c.n_pos hk hpow
    (Standard.length_pbkdf2 a.hashFunction password salt 1 (128 * c.r.toNat * c.p.toNat))
  rw [deriveAt, Logged.value_bind, hspread, UInt32.toNat_one]
  rw [Logged.value_bind, Logged.value_pure, hmixed, Pbkdf2.derive_eq, if_neg hone,
    UInt32.toNat_one]
  rfl

/-- The derivation is reported, then the lanes in their order. -/
theorem events_deriveAt (c : Cost) (keyLen : Nat) :
    (deriveAt a password salt c keyLen).events =
      .derivingKey a c.n c.r c.p keyLen :: (List.range c.p.toNat).map Event.mixingLane := by
  have hone : (1 : UInt32) ≠ 0 := by decide
  have hspread := Pbkdf2.derive_of_le a password salt hone (c.lanes_le_maxKeyLen a)
  rw [deriveAt, Logged.events_bind, hspread]
  rw [Logged.events_bind, events_mixLanes, Logged.events_pure, List.append_nil]
  rfl

variable {n r p : UInt32} {c : Cost} (hcost : Cost.ofTriple n r p = .ok c) (keyLen : Nat)

include hcost

/-- For admissible cost parameters that are checked first, the key is the same. -/
theorem value_derive :
    (derive a password salt n r p keyLen).value =
      if Pbkdf2.maxKeyLen a < keyLen then .error (.keyTooLong keyLen (Pbkdf2.maxKeyLen a))
      else .ok (Standard.scrypt a.hashFunction password salt n.toNat r.toNat p.toNat keyLen) := by
  obtain ⟨rfl, rfl, rfl⟩ := Cost.eq_of_ofTriple hcost
  rw [derive, hcost]
  exact value_deriveAt a password salt c keyLen

theorem events_derive :
    (derive a password salt n r p keyLen).events =
      .derivingKey a n r p keyLen :: (List.range p.toNat).map Event.mixingLane := by
  obtain ⟨rfl, rfl, rfl⟩ := Cost.eq_of_ofTriple hcost
  rw [derive, hcost]
  exact events_deriveAt a password salt c keyLen

end

/-- For every admissible cost and every length up to the maximum, a key is derived, and it is that
    of the published function. -/
theorem value_derive_eq_scrypt (a : Algorithm) (password salt : Bytes) {n r p : UInt32}
    (hcost : ∃ c, Cost.ofTriple n r p = .ok c) {keyLen : Nat}
    (hlen : keyLen ≤ Pbkdf2.maxKeyLen a) :
    (derive a password salt n r p keyLen).value =
      .ok (Standard.scrypt a.hashFunction password salt n.toNat r.toNat p.toNat keyLen) := by
  obtain ⟨c, hc⟩ := hcost
  rw [value_derive a password salt hc, if_neg (Nat.not_lt.2 hlen)]

/-- A hundred bytes from two lanes of the smallest block size, with a memory of sixteen blocks. -/
theorem value_derive_eq_scrypt_two_lanes :
    (∃ c, Cost.ofTriple 16 1 2 = .ok c) ∧ 100 ≤ Pbkdf2.maxKeyLen .hmacSha224 ∧
      (derive .hmacSha224 [0x70, 0x77] [0x4e, 0x61, 0x43, 0x6c] 16 1 2 100).value =
        .ok (Standard.scrypt Sha2.sha224 [0x70, 0x77] [0x4e, 0x61, 0x43, 0x6c] 16 1 2 100) := by
  have hcost : ∃ c, Cost.ofTriple 16 1 2 = .ok c := ⟨_, rfl⟩
  have hlen : 100 ≤ Pbkdf2.maxKeyLen .hmacSha224 := by decide
  exact ⟨hcost, hlen, value_derive_eq_scrypt .hmacSha224 _ _ hcost hlen⟩

end Scrypt

end KeyStretching
