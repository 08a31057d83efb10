import KeyStretching.Proofs.Pbkdf2

/-!
# Keying that may fail

What keys the hash function with a password might refuse it, and this would be reported after the
checks and before anything is written (`fillWith`, `deriveWith`). An implementation of HMAC as it is
published refuses no key (`Keying.Lawful`), so that the report is never made, and all such
implementations derive the same keys:

* `overwrite_congr`: nothing of a keyed function counts but its codes;
* `deriveWith_eq`: with any lawful keying, keys are derived as with one that cannot fail;
* `derive_eq_pbkdf2`: these are the keys of the published function, and whoever gets no key is told
  that the count of iterations is zero, or that the key is too long.
-/

namespace KeyStretching

/-- What keys hash functions with byte strings, unless it refuses them. -/
abbrev Keying := (H : HashFunction) → (key : Bytes) → Option H.Keyed

namespace Keying

/-- Every key is accepted, and yields the published codes. -/
structure Lawful (keying : Keying) : Prop where
  exists_eq_some (H : HashFunction) (key : Bytes) : ∃ prf, keying H key = some prf
  mac_eq {H : HashFunction} {key : Bytes} {prf : H.Keyed} (message : Bytes) :
    keying H key = some prf → prf.mac message = H.hmac key message

/-- The keying that absorbs the two masked blocks of the key. -/
def absorbing : Keying := fun H key => some (.ofKey H key)

theorem lawful_absorbing : Lawful absorbing where
  exists_eq_some H key := ⟨.ofKey H key, rfl⟩
  mac_eq {H key prf} message h := by
    obtain rfl : HashFunction.Keyed.ofKey H key = prf := Option.some.inj h
    exact HashFunction.Keyed.mac_ofKey key message

end Keying

namespace Pbkdf2

/-! ## Codes are all that counts -/

section

variable {H : HashFunction} {prf prf' : H.Keyed} (h : ∀ message, prf.mac message = prf'.mac message)

include h

theorem chain_congr (links : Nat) (code sum : Bytes) :
    chain prf links code sum = chain prf' links code sum := by
  induction links generalizing code sum with
  | zero => rfl
  | succ links ih => rw [chain, chain, h, ih]

theorem block_congr (salt : Bytes) (iterations number : UInt32) :
    block prf salt iterations number = block prf' salt iterations number := by
  rw [block, block, h, chain_congr h]

/-- Functions with the same codes overwrite a buffer alike. -/
theorem overwrite_congr (salt : Bytes) (iterations : UInt32) (buffer : Bytes) :
    overwrite prf salt iterations buffer = overwrite prf' salt iterations buffer := by
  simp only [overwrite, block_congr h]

end

/-! ## Refused passwords -/

section

variable (keying : Keying) (a : Algorithm) (password salt : Bytes) (iterations : UInt32)

/-- Overwrites the buffer with a key of its length, or fails and leaves it as it is: so it does when
    the password is refused. -/
def fillWith : EStateM Error Bytes Unit := fun buffer =>
  match checkBounds a iterations buffer.length with
  | .error e => .error e buffer
  | .ok () =>
    match keying a.hashFunction password with
    | none => .error .emptyKey buffer
    | some prf => .ok () (overwrite prf salt iterations buffer)

/-- The key of a given length, unless the password is refused. -/
def deriveWith (keyLen : Nat) : Except Error Bytes :=
  match checkBounds a iterations keyLen with
  | .error e => .error e
  | .ok () =>
    match (fillWith keying a password salt iterations).run (List.replicate keyLen 0) with
    | .ok () key => .ok key
    | .error e _ => .error e

end

section

variable {keying : Keying} {a : Algorithm} {password : Bytes} (salt : Bytes) {iterations : UInt32}

/-- A password that is refused is reported, and nothing is written. -/
theorem run_fillWith_of_refused (h : keying a.hashFunction password = none) {buffer : Bytes}
    (hbounds : checkBounds a iterations buffer.length = .ok ()) :
    (fillWith keying a password salt iterations).run buffer = .error .emptyKey buffer := by
  rw [EStateM.run, fillWith, hbounds, h]

end

section

variable {keying : Keying} (h : keying.Lawful) (a : Algorithm) (password salt : Bytes)
  (iterations : UInt32)

include h

/-- No password is refused, and the buffer is overwritten as if none could be. -/
theorem fillWith_eq :
    fillWith keying a password salt iterations = fill a password salt iterations := by
  funext buffer
  obtain ⟨prf, hprf⟩ := h.exists_eq_some a.hashFunction password
  have hmac (message : Bytes) :
      prf.mac message = HashFunction.Keyed.mac (.ofKey a.hashFunction password) message := by
    rw [h.mac_eq message hprf, HashFunction.Keyed.mac_ofKey]
  simp only [fillWith, hprf, overwrite_congr hmac]
  rfl

theorem deriveWith_eq (keyLen : Nat) :
    deriveWith keying a password salt iterations keyLen =
      derive a password salt iterations keyLen := by
  rw [deriveWith, fillWith_eq h]
  rfl

end

/-! ## The published function -/

/-- For every input, what is derived is the published key, or else the count of iterations is zero,
    or the key too long. The key has the length asked for, and no password is refused. -/
theorem derive_eq_pbkdf2 (a : Algorithm) (password salt : Bytes) (iterations : UInt32)
    (keyLen : Nat) :
    derive a password salt iterations keyLen =
      (if iterations = 0 then .error (.iterationCount 0)
        else if (2 ^ 32 - 1) * a.outLen < keyLen then
          .error (.keyTooLong keyLen ((2 ^ 32 - 1) * a.outLen))
        else .ok (Standard.pbkdf2 a.hashFunction password salt iterations.toNat keyLen)) ∧
    (∀ key, derive a password salt iterations keyLen = .ok key → key.length = keyLen) ∧
    ∀ keying : Keying, keying.Lawful →
      deriveWith keying a password salt iterations keyLen =
        derive a password salt iterations keyLen ∧
      deriveWith keying a password salt iterations keyLen ≠ .error .emptyKey := by
  have hmax : maxKeyLen a = (2 ^ 32 - 1) * a.outLen := rfl
  have hderive := derive_eq a password salt iterations keyLen
  rw [hmax] at hderive
  refine ⟨?_, fun key hkey => ?_, fun keying h => ⟨deriveWith_eq h .., ?_⟩⟩
  · rw [hderive]
    by_cases h0 : iterations = 0
    · rw [if_pos h0, if_pos h0, h0]
    · rw [if_neg h0, if_neg h0]
  · rw [hderive] at hkey
    split at hkey
    · exact nomatch hkey
    split at hkey
    · exact nomatch hkey
    · obtain rfl := Except.ok.inj hkey
      exact Standard.length_pbkdf2 ..
  · rw [deriveWith_eq h, hderive]
    split
    · exact nofun
    split
    · exact nofun
    · exact nofun

/-- A hundred bytes after a single iteration, none after no iteration, and one byte more than there
    are. -/
theorem derive_eq_pbkdf2_hundred :
    Keying.absorbing.Lawful ∧
      derive .hmacSha384 [0x70, 0x77] [] 1 100 =
        .ok (Standard.pbkdf2 Sha2.sha384 [0x70, 0x77] [] 1 100) ∧
      derive .hmacSha384 [0x70, 0x77] [] 0 100 = .error (.iterationCount 0) ∧
      derive .hmacSha384 [0x70, 0x77] [] 1 ((2 ^ 32 - 1) * 48 + 1) =
        .error (.keyTooLong ((2 ^ 32 - 1) * 48 + 1) ((2 ^ 32 - 1) * 48)) ∧
      deriveWith Keying.absorbing .hmacSha384 [0x70, 0x77] [] 1 100 ≠ .error .emptyKey := by
  obtain ⟨hkey, -, hkeying⟩ := derive_eq_pbkdf2 .hmacSha384 [0x70, 0x77] [] 1 100
  obtain ⟨hzero, -⟩ := derive_eq_pbkdf2 .hmacSha384 [0x70, 0x77] [] 0 100
  obtain ⟨hlong, -⟩ := derive_eq_pbkdf2 .hmacSha384 [0x70, 0x77] [] 1 ((2 ^ 32 - 1) * 48 + 1)
  refine ⟨Keying.lawful_absorbing, hkey, hzero, ?_,
    (hkeying Keying.absorbing Keying.lawful_absorbing).2⟩
  rw [hlong]
  rfl

end Pbkdf2

end KeyStretching
