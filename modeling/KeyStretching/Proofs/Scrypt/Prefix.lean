import KeyStretching.Proofs.Pbkdf2.InPlace
import KeyStretching.Proofs.Scrypt.Lanes

/-!
# Shorter and longer keys

The length of a key decides how many blocks it takes and where the last one is cut, but not what the
blocks are. So all keys that differ in nothing but their lengths are beginnings of the longest one
(`PrefixClosed`).

* `Pbkdf2.take_overwrite`: a shorter buffer is overwritten with the beginning of what a longer one
  is overwritten with, whatever the codes are;
* `Pbkdf2.prefixClosed_deriveWith`: so it is with keys, whatever keys the hash function;
* `Scrypt.exists_mixed`: the lanes are mixed without knowing the length of the key, which is left
  to the last pass.
-/

namespace KeyStretching

/-- A key can be derived for every length up to a maximum, and those of lesser length are its
    beginnings. -/
structure PrefixClosed (maxLen : Nat) (derive : Nat → Except Error Bytes) : Prop where
  exists_take (k m : Nat) : k ≤ m → m ≤ maxLen →
    ∃ key, derive m = .ok key ∧ key.length = m ∧ derive k = .ok (key.take k)
  zero : derive 0 = .ok []

namespace Pbkdf2

/-- A shorter buffer is overwritten with the beginning of what a longer one is overwritten with. -/
theorem take_overwrite {H : HashFunction} (prf : H.Keyed) (salt : Bytes) (iterations : UInt32)
    {buffer buffer' : Bytes} (h : buffer.length ≤ buffer'.length) :
    (overwrite prf salt iterations buffer').take buffer.length =
      overwrite prf salt iterations buffer := by
  rw [overwrite_eq_take, overwrite_eq_take, blocks, blocks]
  exact Standard.take_parts H (fun _ => length_block ..) h

section

variable {keying : Keying} {a : Algorithm} {password : Bytes} (salt : Bytes) {iterations : UInt32}
  (h : iterations ≠ 0)

include h

/-- A password that is not refused makes a key of every length up to the maximum. -/
theorem deriveWith_of_le {prf : a.hashFunction.Keyed}
    (hkeying : keying a.hashFunction password = some prf) {keyLen : Nat}
    (hlen : keyLen ≤ maxKeyLen a) :
    deriveWith keying a password salt iterations keyLen =
      .ok (overwrite prf salt iterations (List.replicate keyLen 0)) := by
  have hbounds : checkBounds a iterations keyLen = .ok () := checkBounds_eq_ok_iff.2 ⟨h, hlen⟩
  rw [deriveWith, hbounds, EStateM.run, fillWith, List.length_replicate, hbounds, hkeying]

/-- The keys of lesser length are the beginnings of a key. -/
theorem prefixClosed_deriveWith {prf : a.hashFunction.Keyed}
    (hkeying : keying a.hashFunction password = some prf) :
    PrefixClosed (maxKeyLen a) (deriveWith keying a password salt iterations) where
  exists_take k m hk hm := by
    have hlen : (List.replicate k (0 : UInt8)).length ≤ (List.replicate m (0 : UInt8)).length := by
      rwa [List.length_replicate, List.length_replicate]
    have htake := take_overwrite prf salt iterations hlen
    rw [List.length_replicate] at htake
    refine ⟨_, deriveWith_of_le salt h hkeying hm, ?_, ?_⟩
    · rw [length_overwrite, List.length_replicate]
    · rw [htake, deriveWith_of_le salt h hkeying (hk.trans hm)]
  zero := by
    have hnone : (overwrite prf salt iterations []).length = 0 := length_overwrite ..
    rw [deriveWith_of_le salt h hkeying (Nat.zero_le _), List.replicate_zero,
      List.eq_nil_of_length_eq_zero hnone]

variable (a password)

theorem prefixClosed_derive : PrefixClosed (maxKeyLen a) (derive a password salt iterations) := by
  rw [← funext (deriveWith_eq Keying.lawful_absorbing a password salt iterations)]
  exact prefixClosed_deriveWith salt h rfl

end

end Pbkdf2

namespace Scrypt

variable (a : Algorithm) (password salt : Bytes)

/-- For admissible cost parameters, the last pass takes the mixed lanes as its salt, and nothing
    else takes the length of the key. -/
theorem value_derive_eq_derive {n r p : UInt32} {c : Cost} (hcost : Cost.ofTriple n r p = .ok c)
    (keyLen : Nat) :
    (derive a password salt n r p keyLen).value =
      Pbkdf2.derive a password (mixLanes c.r_pos c.n_pos (List.range c.p.toNat)
        (Standard.pbkdf2 a.hashFunction password salt 1 (128 * c.r.toNat * c.p.toNat))).value 1
        keyLen := by
  have hone : (1 : UInt32) ≠ 0 := by decide
  have hspread := Pbkdf2.derive_of_le a password salt hone (c.lanes_le_maxKeyLen a)
  rw [derive, hcost]
  simp only [deriveAt, hspread, UInt32.toNat_one, Logged.value_bind, Logged.value_pure]

/-- The lanes are mixed without knowing the length of the key. -/
theorem exists_mixed {n r p : UInt32} {c : Cost} (hcost : Cost.ofTriple n r p = .ok c) :
    ∃ mixed : Bytes, mixed.length = 128 * r.toNat * p.toNat ∧ ∀ keyLen,
      (derive a password salt n r p keyLen).value = Pbkdf2.derive a password mixed 1 keyLen := by
  obtain ⟨-, hr, hp⟩ := Cost.eq_of_ofTriple hcost
  have hspread := Standard.length_pbkdf2 a.hashFunction password salt 1
    (128 * c.r.toNat * c.p.toNat)
  have hmixed := length_mixLanes c.r_pos c.n_pos hspread (List.nodup_range (n := c.p.toNat))
  exact ⟨_, by rw [hmixed, hspread, hr, hp], value_derive_eq_derive a password salt hcost⟩

end Scrypt

/-- Keys that differ in nothing but their lengths are beginnings of each other, whether iterated or
    memory-hard, for which the length is left to the last pass. -/
theorem prefixClosed_derivations (a : Algorithm) (password salt : Bytes) {iterations : UInt32}
    (h : iterations ≠ 0) {n r p : UInt32} (hcost : ∃ c, Cost.ofTriple n r p = .ok c) :
    PrefixClosed (Pbkdf2.maxKeyLen a) (Pbkdf2.derive a password salt iterations) ∧
      PrefixClosed (Pbkdf2.maxKeyLen a)
        (fun keyLen => (Scrypt.derive a password salt n r p keyLen).value) ∧
      ∃ mixed : Bytes, mixed.length = 128 * r.toNat * p.toNat ∧ ∀ keyLen,
        (Scrypt.derive a password salt n r p keyLen).value =
          Pbkdf2.derive a password mixed 1 keyLen := by
  obtain ⟨c, hc⟩ := hcost
  obtain ⟨mixed, hlength, hmixed⟩ := Scrypt.exists_mixed a password salt hc
  have hlast : PrefixClosed (Pbkdf2.maxKeyLen a) (Pbkdf2.derive a password mixed 1) :=
    Pbkdf2.prefixClosed_derive a password mixed (by decide)
  refine ⟨Pbkdf2.prefixClosed_derive a password salt h, ?_, mixed, hlength, hmixed⟩
  rw [funext hmixed]
  exact hlast

/-- The first bytes of a key of a hundred bytes, after one iteration and from two lanes. -/
theorem prefixClosed_derivations_hundred :
    (1 : UInt32) ≠ 0 ∧ (∃ c, Cost.ofTriple 16 1 2 = .ok c) ∧
      (∃ key, Pbkdf2.derive .hmacSha384 [0x70, 0x77] [] 1 100 = .ok key ∧
        Pbkdf2.derive .hmacSha384 [0x70, 0x77] [] 1 49 = .ok (key.take 49)) ∧
      ∃ key, (Scrypt.derive .hmacSha384 [0x70, 0x77] [] 16 1 2 100).value = .ok key ∧
        (Scrypt.derive .hmacSha384 [0x70, 0x77] [] 16 1 2 49).value = .ok (key.take 49) := by
  have hone : (1 : UInt32) ≠ 0 := by decide
  have hcost : ∃ c, Cost.ofTriple 16 1 2 = .ok c := ⟨_, rfl⟩
  obtain ⟨hiterated, hhard, -⟩ :=
    prefixClosed_derivations .hmacSha384 [0x70, 0x77] [] hone hcost
  obtain ⟨key, hkey, -, hfirst⟩ := hiterated.exists_take 49 100 (by decide) (by decide)
  obtain ⟨key', hkey', -, hfirst'⟩ := hhard.exists_take 49 100 (by decide) (by decide)
  exact ⟨hone, hcost, ⟨key, hkey, hfirst⟩, key', hkey', hfirst'⟩

end KeyStretching
