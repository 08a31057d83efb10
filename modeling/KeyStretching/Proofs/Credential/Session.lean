import KeyStretching.Proofs.Credential.Failing
import KeyStretching.Proofs.Credential.Unchecked

/-!
# Sessions

Cost parameters, hashers and credentials are made by a few operations, and their fields, except the
bytes of cost parameters, can be assigned at will. A `Session` holds all values that there have been
so far; a `Step` adds the value that an operation yields, if it yields one. Nothing but bytes is
held, so that what is known of them must come from the operations (`UncheckedCost`).

* `Step.sound`: no operation makes cost parameters that break a rule, if there were none before;
* `Reachable.sound`: so there are none in any session;
* `Reachable.exists_forget`: what a session holds are credentials without their proofs, and
  `exists_reachable`: all of them can be made;
* `verifiable_of_reachable`: verifying what a session holds fails for a key that is too long, and
  not otherwise.
-/

namespace KeyStretching

/-- A credential has the header of the hasher that makes it. -/
theorem Hasher.header_of_hashWithSalt {H : Type} [Header H] {h : Hasher H} {password : Password}
    {salt : Bytes} {c : Credential H} (hhash : (h.hashWithSalt password salt).value = .ok c) :
    c.header = h.header := by
  unfold hashWithSalt at hhash
  split at hhash
  · exact nomatch hhash
  split at hhash
  · exact nomatch hhash
  obtain ⟨derived, -, rfl⟩ := map_eq_ok hhash
  rfl

/-- The values that operations have yielded. As values are copied freely, one that is changed is
    held beside the one that it was. -/
structure Session where
  costs : List UncheckedCost := []
  hashers : List (Hasher UncheckedHeader) := []
  credentials : List (Credential UncheckedHeader) := []

namespace Session

variable (s : Session)

def addCost (cost : UncheckedCost) : Session := { s with costs := cost :: s.costs }

def addHasher (h : Hasher UncheckedHeader) : Session := { s with hashers := h :: s.hashers }

def addCredential (c : Credential UncheckedHeader) : Session :=
  { s with credentials := c :: s.credentials }

/-- An operation on values of the session that yields another one. -/
inductive Step : Session → Prop
  -- Cost parameters are new, the usual ones, or those of another value.
  | newCost {logN r p : UInt8} {cost : UncheckedCost} :
    UncheckedCost.ofFields logN r p = .ok cost → Step (s.addCost cost)
  | standardCost : Step (s.addCost .standard)
  | costOfHasher {h : Hasher UncheckedHeader} : h ∈ s.hashers → Step (s.addCost h.header.cost)
  | costOfCredential {c : Credential UncheckedHeader} :
    c ∈ s.credentials → Step (s.addCost c.header.cost)
  -- A hasher starts with the usual algorithm and length of keys.
  | newHasher {cost : UncheckedCost} :
    cost ∈ s.costs → Step (s.addHasher { header := .ofCost cost })
  | standardHasher : Step (s.addHasher { header := .ofCost .standard })
  | withAlgorithm {h : Hasher UncheckedHeader} (a : Algorithm) :
    h ∈ s.hashers → Step (s.addHasher { h with header.algorithm := a })
  | withCost {h : Hasher UncheckedHeader} {cost : UncheckedCost} :
    h ∈ s.hashers → cost ∈ s.costs → Step (s.addHasher { h with header.cost := cost })
  | withKeyLen {h : Hasher UncheckedHeader} (keyLen : Nat) :
    h ∈ s.hashers → Step (s.addHasher { h with keyLen := keyLen })
  -- A credential is made by a hasher, read from a text, or put together.
  | hash {h : Hasher UncheckedHeader} {password : Password} {salt : Bytes}
      {c : Credential UncheckedHeader} :
    h ∈ s.hashers → (h.hashWithSalt password salt).value = .ok c → Step (s.addCredential c)
  | read {text : String} {c : Credential UncheckedHeader} :
    Credential.read text = .ok c → Step (s.addCredential c)
  | newCredential (a : Algorithm) {cost : UncheckedCost} (salt derived : Bytes) :
    cost ∈ s.costs → Step (s.addCredential ⟨⟨a, cost⟩, salt, derived⟩)
  | setAlgorithm {c : Credential UncheckedHeader} (a : Algorithm) :
    c ∈ s.credentials → Step (s.addCredential { c with header.algorithm := a })
  | setCost {c : Credential UncheckedHeader} {cost : UncheckedCost} :
    c ∈ s.credentials → cost ∈ s.costs → Step (s.addCredential { c with header.cost := cost })
  | setSalt {c : Credential UncheckedHeader} (salt : Bytes) :
    c ∈ s.credentials → Step (s.addCredential { c with salt := salt })
  | setDerived {c : Credential UncheckedHeader} (derived : Bytes) :
    c ∈ s.credentials → Step (s.addCredential { c with derived := derived })

/-- The sessions that operations lead to, one after the other. -/
inductive Reachable : Session → Prop
  | start : Reachable {}
  | step {s s' : Session} : Reachable s → s.Step s' → Reachable s'

/-! ## Cost parameters -/

/-- No cost parameters in the session break a rule. -/
structure Sound : Prop where
  costs : ∀ cost ∈ s.costs, cost.Admitted
  hashers : ∀ h ∈ s.hashers, h.header.cost.Admitted
  credentials : ∀ c ∈ s.credentials, c.header.cost.Admitted

variable {s}

theorem Sound.addCost (hs : s.Sound) {cost : UncheckedCost} (h : cost.Admitted) :
    (s.addCost cost).Sound where
  costs := List.forall_mem_cons.2 ⟨h, hs.costs⟩
  hashers := hs.hashers
  credentials := hs.credentials

theorem Sound.addHasher (hs : s.Sound) {h : Hasher UncheckedHeader}
    (hh : h.header.cost.Admitted) : (s.addHasher h).Sound where
  costs := hs.costs
  hashers := List.forall_mem_cons.2 ⟨hh, hs.hashers⟩
  credentials := hs.credentials

theorem Sound.addCredential (hs : s.Sound) {c : Credential UncheckedHeader}
    (h : c.header.cost.Admitted) : (s.addCredential c).Sound where
  costs := hs.costs
  hashers := hs.hashers
  credentials := List.forall_mem_cons.2 ⟨h, hs.credentials⟩

/-- No operation makes cost parameters that break a rule. -/
theorem Step.sound {s' : Session} (h : s.Step s') (hs : s.Sound) : s'.Sound := by
  cases h with
  -- Cost parameters are made from fields that are checked, or copied from where they are held.
  | newCost hfields => exact hs.addCost (UncheckedCost.admitted_of_ofFields hfields)
  | standardCost => exact hs.addCost UncheckedCost.admitted_standard
  | costOfHasher hmem => exact hs.addCost (hs.hashers _ hmem)
  | costOfCredential hmem => exact hs.addCost (hs.credentials _ hmem)
  | newHasher hmem => exact hs.addHasher (hs.costs _ hmem)
  | standardHasher => exact hs.addHasher UncheckedCost.admitted_standard
  | withCost _ hmem => exact hs.addHasher (hs.costs _ hmem)
  | withAlgorithm _ hmem | withKeyLen _ hmem =>
    have hkept := hs.hashers _ hmem
    exact hs.addHasher hkept
  -- A credential has the header of the hasher that makes it, or the one that its text holds.
  | hash hmem hhash =>
    have hmade := hs.hashers _ hmem
    rw [← Hasher.header_of_hashWithSalt hhash] at hmade
    exact hs.addCredential hmade
  | read hread => exact hs.addCredential (Credential.admitted_of_read hread)
  | newCredential _ _ _ hmem | setCost _ hmem => exact hs.addCredential (hs.costs _ hmem)
  | setAlgorithm _ hmem | setSalt _ hmem | setDerived _ hmem =>
    have hkept := hs.credentials _ hmem
    exact hs.addCredential hkept

/-- No session holds cost parameters that break a rule. -/
theorem Reachable.sound (h : Reachable s) : s.Sound := by
  induction h with
  | start => exact ⟨nofun, nofun, nofun⟩
  | step _ hstep ih => exact hstep.sound ih

/-! ## Credentials -/

/-- What a session holds are credentials without their proofs. -/
theorem Reachable.exists_forget (h : Reachable s) {c : Credential UncheckedHeader}
    (hmem : c ∈ s.credentials) : ∃ checked : Credential ScryptHeader, checked.forget = c := by
  obtain ⟨cost, hcost⟩ := UncheckedCost.admitted_iff.1 (h.sound.credentials c hmem)
  refine ⟨⟨⟨c.header.algorithm, cost⟩, c.salt, c.derived⟩, ?_⟩
  rw [Credential.forget, ScryptHeader.forget, hcost]

/-- Every credential is held in some session. -/
theorem exists_reachable (c : Credential ScryptHeader) :
    ∃ s, Reachable s ∧ c.forget ∈ s.credentials := by
  have hfields : UncheckedCost.ofFields c.header.cost.logN c.header.cost.r c.header.cost.p =
      .ok c.header.cost.forget := by
    rw [UncheckedCost.ofFields_eq, CompactCost.ofFields_self]
    rfl
  have hcost := Reachable.start.step (.newCost hfields)
  exact ⟨_, hcost.step (.newCredential c.header.algorithm c.salt c.derived List.mem_cons_self),
    List.mem_cons_self⟩

/-- What the session holds can be verified: nothing in it breaks a rule, so that verifying fails for
    a key that is too long, and not otherwise. -/
structure Verifiable (s : Session) : Prop where
  sound : s.Sound
  /-- With the proofs, the credentials are verified in the same way. -/
  exists_forget (c : Credential UncheckedHeader) : c ∈ s.credentials →
    ∃ checked : Credential ScryptHeader, checked.forget = c ∧
      ∀ password, c.verify password = checked.verify password
  verify_error_iff (c : Credential UncheckedHeader) : c ∈ s.credentials →
    ∀ (password : Password) (e : Error), (c.verify password).value = .error e ↔
      Oversized c.header.algorithm c.derived e

theorem Reachable.verifiable (h : Reachable s) : s.Verifiable where
  sound := h.sound
  exists_forget c hmem := by
    obtain ⟨checked, rfl⟩ := h.exists_forget hmem
    exact ⟨checked, rfl, checked.verify_forget⟩
  verify_error_iff c hmem password e := by
    obtain ⟨checked, rfl⟩ := h.exists_forget hmem
    rw [checked.verify_forget]
    exact Credential.value_verify_eq_error_iff password rfl

open Credential in
/-- Whatever operations came before, verifying fails for a key that is too long, and not otherwise;
    and checking a text, of either kind, fails besides if the text cannot be read. -/
theorem verifiable_of_reachable (h : Reachable s) :
    s.Verifiable ∧ ∀ (text : String) (password : Password) (e : Error),
      ((check ScryptHeader password text).value = .error e ↔
        (read text : Except Error (Credential ScryptHeader)) = .error e ∨
          ∃ c : Credential ScryptHeader, read text = .ok c ∧
            Oversized c.header.algorithm c.derived e) ∧
      ((check HmacHeader password text).value = .error e ↔
        (read text : Except Error (Credential HmacHeader)) = .error e ∨
          ∃ c : Credential HmacHeader, read text = .ok c ∧
            Oversized c.header.algorithm c.derived e) :=
  ⟨h.verifiable, fun _ password _ =>
    ⟨value_check_eq_error_iff password, value_check_eq_error_iff password⟩⟩

/-- A session in which a text is read. No password makes verifying what it holds fail. -/
theorem verifiable_of_reachable_read :
    let c : Credential UncheckedHeader := ⟨⟨.hmacSha256, ⟨1, 1, 1⟩⟩, [], [0x00]⟩
    Reachable (addCredential {} c) ∧ (addCredential {} c).Verifiable ∧
      ∀ (password : Password) (e : Error), (c.verify password).value ≠ .error e := by
  intro c
  have hread : Credential.read "$s0$10101$$AA" = .ok c := by decide +kernel
  have hreachable := Reachable.start.step (.read hread)
  obtain ⟨hverifiable, -⟩ := verifiable_of_reachable hreachable
  refine ⟨hreachable, hverifiable, fun password e herror => ?_⟩
  have hoversized := (hverifiable.verify_error_iff c List.mem_cons_self password e).1 herror
  exact absurd hoversized.maxKeyLen_lt (by decide)

end Session

end KeyStretching
