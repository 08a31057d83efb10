import KeyStretching.Credential.ScryptHeader
import KeyStretching.Proofs.Credential.Header
import KeyStretching.Proofs.Scrypt

/-!
# Headers of memory-hard credentials

A packed header is the sum of its four fields at their offsets (`toNat_pack`). Every one of them
reads back as it was, and together they pass the checks of the reader (`unpack_pack`); the key of a
header is that of the published function (`value_derive`).
-/

namespace KeyStretching.ScryptHeader

open Header (toNat_shiftLeft toNat_or toNat_shiftRight toUInt8_and_eq)

variable (h : ScryptHeader)

/-- The fields stand at their offsets. -/
theorem toNat_pack :
    h.pack.toNat = h.algorithm.code.toNat * 2 ^ 20 + h.cost.logN.toNat * 2 ^ 16 +
      h.cost.r.toNat * 2 ^ 8 + h.cost.p.toNat := by
  have hcode := h.algorithm.code_lt
  have hlogN : h.cost.logN.toNat ≤ 15 := UInt8.le_iff_toNat_le.1 h.cost.logN_le
  have hr := h.cost.r.toNat_lt
  have hp := h.cost.p.toNat_lt
  have hcodeAt : (h.algorithm.code.toUInt32 <<< 20).toNat = _ :=
    toNat_shiftLeft 20 rfl (by omega)
  have hlogNAt : (h.cost.logN.toUInt32 <<< 16).toNat = _ :=
    toNat_shiftLeft 16 rfl (by omega)
  have hrAt : (h.cost.r.toUInt32 <<< 8).toNat = _ :=
    toNat_shiftLeft 8 rfl (by omega)
  -- Each further field lies below those that are put together already.
  have hhigh := toNat_or 20 hcodeAt hlogNAt (by omega) (by omega)
  have hmiddle := toNat_or 16 hhigh hrAt (by omega) (by omega)
  exact toNat_or 8 hmiddle (UInt8.toNat_toUInt32 _) (by omega) (by omega)

/-- Every header reads back as it was. -/
theorem unpack_pack : unpack h.pack = .ok h := by
  have hpack := h.toNat_pack
  have hcode := h.algorithm.code_lt
  have hlogN : h.cost.logN.toNat ≤ 15 := UInt8.le_iff_toNat_le.1 h.cost.logN_le
  have hr := h.cost.r.toNat_lt
  have hp := h.cost.p.toNat_lt
  have hreserved : h.pack >>> 24 = 0 := by
    refine UInt32.toNat_inj.1 ?_
    rw [toNat_shiftRight 24 rfl, UInt32.toNat_zero]
    omega
  have hcodeAt : (h.pack >>> 20 &&& 0xf).toUInt8 = h.algorithm.code := by
    refine toUInt8_and_eq 4 rfl ?_
    rw [toNat_shiftRight 20 rfl]
    omega
  have hlogNAt : (h.pack >>> 16 &&& 0xf).toUInt8 = h.cost.logN := by
    refine toUInt8_and_eq 4 rfl ?_
    rw [toNat_shiftRight 16 rfl]
    omega
  have hrAt : (h.pack >>> 8 &&& 0xff).toUInt8 = h.cost.r := by
    refine toUInt8_and_eq 8 rfl ?_
    rw [toNat_shiftRight 8 rfl]
    omega
  have hpAt : (h.pack &&& 0xff).toUInt8 = h.cost.p := by
    refine toUInt8_and_eq 8 rfl ?_
    omega
  rw [unpack, hreserved, hcodeAt, hlogNAt, hrAt, hpAt, Algorithm.ofCode_code,
    h.cost.ofFields_self]
  rfl

/-! ## Laws -/

/-- The key of a header is that of the published function, unless it is too long. -/
theorem value_derive (password salt : Bytes) (keyLen : Nat) :
    (h.derive password salt keyLen).value =
      if Pbkdf2.maxKeyLen h.algorithm < keyLen then
        .error (.keyTooLong keyLen (Pbkdf2.maxKeyLen h.algorithm))
      else .ok (Standard.scrypt h.algorithm.hashFunction password salt h.cost.n.toNat
        h.cost.r.toNat h.cost.p.toNat keyLen) := by
  obtain ⟨cost, hcost⟩ := h.cost.exists_cost
  rw [derive, Scrypt.value_derive _ _ _ hcost, UInt8.toNat_toUInt32, UInt8.toNat_toUInt32]

/-- Deriving a key gives no cause for a warning. -/
theorem level_derive (password salt : Bytes) (keyLen : Nat) :
    ∀ event ∈ (h.derive password salt keyLen).events, event.level ≠ .warn := by
  obtain ⟨cost, hcost⟩ := h.cost.exists_cost
  intro event hevent
  rw [derive, Scrypt.events_derive _ _ _ hcost] at hevent
  rcases List.mem_cons.1 hevent with rfl | hlane
  · exact nofun
  · obtain ⟨lane, -, rfl⟩ := List.mem_map.1 hlane
    exact nofun

instance : LawfulHeader ScryptHeader where
  algorithm := algorithm
  key h password salt := Standard.scrypt h.algorithm.hashFunction password salt h.cost.n.toNat
    h.cost.r.toNat h.cost.p.toNat
  delimiter_notMem_tag := by decide
  length_key _ _ _ _ := Standard.length_scrypt ..
  take_key _ _ _ _ _ := Standard.take_scrypt _ _ _ _ _ _
  unpack_pack _ := unpack_pack _
  value_derive password salt keyLen _ := value_derive _ password salt keyLen
  level_derive := level_derive

end KeyStretching.ScryptHeader
