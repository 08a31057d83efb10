import KeyStretching.Credential.Hasher
import KeyStretching.Proofs.Credential.HmacHeader
import KeyStretching.Proofs.Credential.ScryptHeader
import KeyStretching.Proofs.Pbkdf2.Keying

/-!
# Interchangeable passwords

A password is put to no use but as the key of authentication codes. Passwords with the same codes
are therefore interchangeable: they derive the same keys, with the same reports and the same errors,
make the same credentials and open the same ones (`Interchangeable`). Of a kind of credential, this
takes no more than that its headers derive keys from codes (`KeyedHeader`).

The codes come from the key block of the password, and the block does not determine the password. A
password that leaves room in the block may be followed by zeros, one too long for it may give way to
its digest, and every password may give way to the block itself. Unless it is just as long as a
block, no password is thus the only one that opens its credentials.

* `Pbkdf2.derive_congr`, `Scrypt.derive_congr`: what is derived depends on the codes alone;
* `interchangeable_of_hmac_eq`: passwords with the same codes are interchangeable;
* `Algorithm.keyedByBlock`: for every algorithm, so are passwords with the same key block.
-/

namespace KeyStretching

/-! ## Key blocks -/

namespace HashFunction

variable (H : HashFunction) {key : Bytes}

/-- The codes under a key depend on its block alone. -/
theorem hmac_congr {key' : Bytes} (h : H.keyBlock key = H.keyBlock key') :
    H.hmac key = H.hmac key' := by
  funext message
  rw [hmac, hmac, innerBlock, innerBlock, outerBlock, outerBlock, h]

/-- A key that is no longer than a block is filled up. -/
theorem keyBlock_of_le (h : key.length ≤ H.blockLen) :
    H.keyBlock key = Bytes.padTo H.blockLen key := by
  rw [keyBlock, if_pos h]

/-- Zeros behind a key fill its block up as they would anyway. -/
theorem keyBlock_append_zeros {k : Nat} (h : key.length + k ≤ H.blockLen) :
    H.keyBlock (key ++ List.replicate k 0) = H.keyBlock key := by
  have hlen : (key ++ List.replicate k 0).length ≤ H.blockLen := by
    rwa [List.length_append, List.length_replicate]
  rw [H.keyBlock_of_le hlen, Bytes.padTo_append_zeros h,
    H.keyBlock_of_le (Nat.le_of_add_right_le h)]

/-- A key too long for a block has the block of its digest. -/
theorem keyBlock_hash (h : H.blockLen < key.length) :
    H.keyBlock (H.hash key) = H.keyBlock key := by
  have hlen : (H.hash key).length ≤ H.blockLen := by
    rw [length_hash]
    exact H.outLen_le_blockLen
  rw [H.keyBlock_of_le hlen, keyBlock, if_neg (Nat.not_le.2 h)]

/-- A key block is its own. -/
theorem keyBlock_keyBlock (key : Bytes) : H.keyBlock (H.keyBlock key) = H.keyBlock key := by
  have hlen := H.length_keyBlock key
  rw [H.keyBlock_of_le (Nat.le_of_eq hlen), Bytes.padTo_of_length hlen]

end HashFunction

/-! ## Keys -/

section

variable {a : Algorithm} {password password' : Bytes}
  (h : a.hashFunction.hmac password = a.hashFunction.hmac password')

include h

theorem Pbkdf2.fill_congr : fill a password = fill a password' := by
  have hmac (message : Bytes) :
      HashFunction.Keyed.mac (.ofKey a.hashFunction password) message =
        HashFunction.Keyed.mac (.ofKey a.hashFunction password') message := by
    rw [HashFunction.Keyed.mac_ofKey, HashFunction.Keyed.mac_ofKey, h]
  funext salt iterations buffer
  rw [fill, fill, overwrite_congr hmac]

/-- Passwords with the same codes derive the same keys. -/
theorem Pbkdf2.derive_congr : derive a password = derive a password' := by
  funext salt iterations keyLen
  rw [derive, derive, fill_congr h]

/-- Neither of the two passes tells passwords with the same codes apart, and what is between them
    takes the lanes and no password. -/
theorem Scrypt.derive_congr : derive a password = derive a password' := by
  funext salt n r p keyLen
  rw [derive, derive]
  cases Cost.ofTriple n r p with
  | error e => rfl
  | ok cost =>
    change deriveAt a password salt cost keyLen = deriveAt a password' salt cost keyLen
    rw [deriveAt, deriveAt, Pbkdf2.derive_congr h]

end

/-! ## Credentials -/

/-- A kind of credential whose keys depend on the codes under the password alone. -/
class KeyedHeader (H : Type) [Header H] [LawfulHeader H] : Prop where
  derive_congr (h : H) {password password' : Bytes} :
    (LawfulHeader.algorithm h).hashFunction.hmac password =
      (LawfulHeader.algorithm h).hashFunction.hmac password' →
    Header.derive h password = Header.derive h password'

instance : KeyedHeader ScryptHeader where
  derive_congr h password password' hmac := by
    funext salt keyLen
    change h.derive password salt keyLen = h.derive password' salt keyLen
    rw [ScryptHeader.derive, ScryptHeader.derive, Scrypt.derive_congr (a := h.algorithm) hmac]

instance : KeyedHeader HmacHeader where
  derive_congr h password password' hmac := by
    funext salt keyLen
    change h.derive password salt keyLen = h.derive password' salt keyLen
    rw [HmacHeader.derive, HmacHeader.derive, Pbkdf2.derive_congr (a := h.algorithm) hmac]

section

variable {H : Type} [Header H] [LawfulHeader H]

variable (H) in
/-- Two passwords make the same credentials of a kind with a given algorithm, and open the same. -/
structure Credential.Interchangeable (a : Algorithm) (password password' : Password) : Prop where
  hashWithSalt_eq (hasher : Hasher H) (salt : Bytes) : LawfulHeader.algorithm hasher.header = a →
    hasher.hashWithSalt password salt = hasher.hashWithSalt password' salt
  hash_eq (hasher : Hasher H) (drawn : Vector UInt8 saltLen) :
    LawfulHeader.algorithm hasher.header = a →
    hasher.hash password drawn = hasher.hash password' drawn
  verify_eq (c : Credential H) : LawfulHeader.algorithm c.header = a →
    c.verify password = c.verify password'
  /-- A text is opened by both passwords or by neither if it reads as such a credential. -/
  check_eq (text : String) (c : Credential H) : read text = .ok c →
    LawfulHeader.algorithm c.header = a → check H password text = check H password' text
  accepts_eq (text : String) (c : Credential H) : read text = .ok c →
    LawfulHeader.algorithm c.header = a → accepts H password text = accepts H password' text

variable [KeyedHeader H] {password password' : Password}

theorem Hasher.hashWithSalt_congr {hasher : Hasher H}
    (h : (LawfulHeader.algorithm hasher.header).hashFunction.hmac password.bytes =
      (LawfulHeader.algorithm hasher.header).hashFunction.hmac password'.bytes) (salt : Bytes) :
    hasher.hashWithSalt password salt = hasher.hashWithSalt password' salt := by
  rw [hashWithSalt, hashWithSalt, KeyedHeader.derive_congr hasher.header h]

namespace Credential

theorem verify_congr {c : Credential H}
    (h : (LawfulHeader.algorithm c.header).hashFunction.hmac password.bytes =
      (LawfulHeader.algorithm c.header).hashFunction.hmac password'.bytes) :
    c.verify password = c.verify password' := by
  rw [verify, verify, KeyedHeader.derive_congr c.header h]

/-- Passwords with the same codes make the same credentials, and open the same. -/
theorem interchangeable_of_hmac {a : Algorithm}
    (h : a.hashFunction.hmac password.bytes = a.hashFunction.hmac password'.bytes) :
    Interchangeable H a password password' := by
  have hcheck (text : String) (c : Credential H) (hread : read text = .ok c)
      (ha : LawfulHeader.algorithm c.header = a) :
      check H password text = check H password' text := by
    rw [check, check, hread]
    exact verify_congr (ha ▸ h)
  exact
    { hashWithSalt_eq hasher salt ha := Hasher.hashWithSalt_congr (ha ▸ h) salt
      hash_eq hasher drawn ha := by
        rw [Hasher.hash, Hasher.hash, Hasher.hashWithSalt_congr (ha ▸ h)]
      verify_eq c ha := verify_congr (ha ▸ h)
      check_eq := hcheck
      accepts_eq text c hread ha := by
        rw [accepts, accepts, hcheck text c hread ha] }

end Credential

end

/-! ## Passwords -/

/-- Two passwords yield the same wherever a password is taken together with an algorithm: the same
    keys and credentials, the same verdicts, the same errors and the same reports. -/
structure Interchangeable (a : Algorithm) (password password' : Password) : Prop where
  fill_eq (salt : Bytes) (iterations : UInt32) (buffer : Bytes) :
    (Pbkdf2.fill a password.bytes salt iterations).run buffer =
      (Pbkdf2.fill a password'.bytes salt iterations).run buffer
  pbkdf2_eq (salt : Bytes) (iterations : UInt32) (keyLen : Nat) :
    Pbkdf2.derive a password.bytes salt iterations keyLen =
      Pbkdf2.derive a password'.bytes salt iterations keyLen
  scrypt_eq (salt : Bytes) (n r p : UInt32) (keyLen : Nat) :
    Scrypt.derive a password.bytes salt n r p keyLen =
      Scrypt.derive a password'.bytes salt n r p keyLen
  scryptCredential : Credential.Interchangeable ScryptHeader a password password'
  hmacCredential : Credential.Interchangeable HmacHeader a password password'

section

variable {a : Algorithm} {password password' : Password}

theorem interchangeable_of_hmac_eq
    (h : a.hashFunction.hmac password.bytes = a.hashFunction.hmac password'.bytes) :
    Interchangeable a password password' where
  fill_eq salt iterations buffer := by rw [Pbkdf2.fill_congr h]
  pbkdf2_eq salt iterations keyLen := by rw [Pbkdf2.derive_congr h]
  scrypt_eq salt n r p keyLen := by rw [Scrypt.derive_congr h]
  scryptCredential := Credential.interchangeable_of_hmac h
  hmacCredential := Credential.interchangeable_of_hmac h

theorem interchangeable_of_keyBlock_eq
    (h : a.hashFunction.keyBlock password.bytes = a.hashFunction.keyBlock password'.bytes) :
    Interchangeable a password password' :=
  interchangeable_of_hmac_eq (a.hashFunction.hmac_congr h)

end

namespace Algorithm

/-- An algorithm takes of a password no more than its key block. -/
structure KeyedByBlock (a : Algorithm) : Prop where
  blockLen_eq : a.hashFunction.blockLen = if a = hmacSha224 ∨ a = hmacSha256 then 64 else 128
  /-- Passwords with the same key block are interchangeable. -/
  of_keyBlock_eq (password password' : Password) :
    a.hashFunction.keyBlock password.bytes = a.hashFunction.keyBlock password'.bytes →
    Interchangeable a password password'
  /-- Zeros may follow a password as long as there is room for them in the block. -/
  append_zeros (password : Password) (k : Nat) : password.length + k ≤ a.hashFunction.blockLen →
    Interchangeable a password ⟨password.bytes ++ List.replicate k 0⟩
  /-- A password too long for the block may give way to its digest. -/
  hash (password : Password) : a.hashFunction.blockLen < password.length →
    Interchangeable a password ⟨a.hashFunction.hash password.bytes⟩
  /-- Unless it is just as long as a block, a password may give way to another one. -/
  exists_ne (password : Password) : password.length ≠ a.hashFunction.blockLen →
    ∃ other ≠ password, Interchangeable a password other

/-- Every algorithm takes of a password no more than its key block. -/
theorem keyedByBlock (a : Algorithm) : a.KeyedByBlock where
  blockLen_eq := by cases a <;> rfl
  of_keyBlock_eq _ _ := interchangeable_of_keyBlock_eq
  append_zeros _ _ h := interchangeable_of_keyBlock_eq (a.hashFunction.keyBlock_append_zeros h).symm
  hash _ h := interchangeable_of_keyBlock_eq (a.hashFunction.keyBlock_hash h).symm
  exists_ne password h := by
    -- The key block itself is a password of another length.
    refine ⟨⟨a.hashFunction.keyBlock password.bytes⟩, fun heq => h ?_,
      interchangeable_of_keyBlock_eq (a.hashFunction.keyBlock_keyBlock _).symm⟩
    rw [← heq]
    exact a.hashFunction.length_keyBlock _

/-- A short password and the same with two zeros behind it, and one of 65 bytes and its digest. -/
theorem keyedByBlock_short_and_long :
    Interchangeable hmacSha384 ⟨[0x70, 0x77]⟩ ⟨[0x70, 0x77, 0, 0]⟩ ∧
      Interchangeable hmacSha256 ⟨List.replicate 65 0x70⟩
        ⟨Sha2.sha256.hash (List.replicate 65 0x70)⟩ :=
  ⟨(keyedByBlock hmacSha384).append_zeros ⟨[0x70, 0x77]⟩ 2 (by decide),
    (keyedByBlock hmacSha256).hash ⟨List.replicate 65 0x70⟩ (by decide)⟩

end Algorithm

end KeyStretching
