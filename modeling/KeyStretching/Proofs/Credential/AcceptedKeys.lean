import KeyStretching.Proofs.Credential.Checking
import KeyStretching.Proofs.Credential.HmacHeader
import KeyStretching.Proofs.Credential.ScryptHeader

/-!
# The keys that a password opens

The length of a key is not written, but taken from the key. So the keys that a password opens under
a header and a salt are those of all lengths, and as a shorter key is the beginning of a longer one,
they are the non-empty beginnings of the longest (`opens_iff`).

* `AcceptedKeys`: what this means for the texts that a password opens;
* `acceptedKeys`: it holds for every header that can be written and read, of either kind.
-/

namespace KeyStretching.Credential

variable {H : Type} [Header H]

/-- The password opens the text of the credential with the key `d`. -/
def Opens (header : H) (password : Password) (salt d : Bytes) : Prop :=
  (check H password (write ⟨header, salt, d⟩)).value = .ok true

/-- The keys that the password opens under a header and a salt are the beginnings of `K`, the one
    it derives at the length `m`. -/
structure AcceptedKeys (header : H) (m : Nat) (password : Password) (salt K : Bytes) : Prop where
  value_derive : (Header.derive header password.bytes salt m).value = .ok K
  length_eq : K.length = m
  /-- A text with the key `d` is opened if `d` is the beginning of `K` of that length. -/
  value_check (text : String) (d : Bytes) : read text = .ok ⟨header, salt, d⟩ → d.length ≤ m →
    (check H password text).value = .ok (decide (d = K.take d.length))
  /-- So is the one that is written. -/
  value_check_write (d : Bytes) : 1 ≤ d.length → d.length ≤ m →
    (check H password (write ⟨header, salt, d⟩)).value = .ok (decide (d = K.take d.length))
  existsUnique_opens (k : Nat) : 1 ≤ k → k ≤ m →
    ∃! d, d.length = k ∧ Opens header password salt d
  prefix_of_opens (d d' : Bytes) : Opens header password salt d → Opens header password salt d' →
    d.length ≤ d'.length → d <+: d'
  /-- A key may be cut short. -/
  opens_take (d : Bytes) (k : Nat) : Opens header password salt d → 1 ≤ k → k ≤ d.length →
    Opens header password salt (d.take k)
  /-- No byte of a key may change. -/
  value_check_set (d : Bytes) (i : Nat) (b : UInt8) : Opens header password salt d →
    (hi : i < d.length) → b ≠ d[i] →
    (check H password (write ⟨header, salt, d.set i b⟩)).value = .ok false
  /-- A text that is opened reads as a credential with a key that is not empty. -/
  derived_ne_nil (text : String) : (check H password text).value = .ok true →
    ∃ c : Credential H, read text = .ok c ∧ c.derived ≠ []
  /-- A text with an empty last field is not opened. -/
  value_accepts (text : String) (lead found word saltField : List Char) :
    text.toList.splitOn Envelope.delimiter = [lead, found, word, saltField, []] →
    (accepts H password text).value = false

variable [LawfulHeader H] {header : H} (hnew : Header.checkNew header = .ok ())
  (password : Password) (salt : Bytes)

variable (header) in
/-- The longest key that the password derives. -/
def longestKey : Bytes :=
  LawfulHeader.key header password.bytes salt (Pbkdf2.maxKeyLen (LawfulHeader.algorithm header))

theorem length_longestKey :
    (longestKey header password salt).length =
      Pbkdf2.maxKeyLen (LawfulHeader.algorithm header) :=
  LawfulHeader.length_key ..

include hnew

/-- A credential is verified if its key is the beginning of the longest one. -/
theorem value_verify_eq_decide {d : Bytes}
    (hlen : d.length ≤ Pbkdf2.maxKeyLen (LawfulHeader.algorithm header)) :
    ((⟨header, salt, d⟩ : Credential H).verify password).value =
      .ok (decide (d = (longestKey header password salt).take d.length)) := by
  rw [value_verify password hnew, if_neg (Nat.not_lt.2 hlen), longestKey,
    LawfulHeader.take_key _ _ _ hlen, beq_eq_decide]
  congr 2
  exact propext eq_comm

theorem value_check_of_read {text : String} {d : Bytes} (hread : read text = .ok ⟨header, salt, d⟩)
    (hlen : d.length ≤ Pbkdf2.maxKeyLen (LawfulHeader.algorithm header)) :
    (check H password text).value =
      .ok (decide (d = (longestKey header password salt).take d.length)) := by
  rw [check, hread]
  exact value_verify_eq_decide hnew password salt hlen

/-- The keys that are opened are the non-empty beginnings of the longest one. -/
theorem opens_iff {d : Bytes} :
    Opens header password salt d ↔ d ≠ [] ∧ d <+: longestKey header password salt := by
  rw [Opens, check_write password (c := ⟨header, salt, d⟩) hnew]
  by_cases hnil : d = []
  · rw [if_pos hnil]
    exact ⟨nofun, fun h => absurd hnil h.1⟩
  rw [if_neg hnil]
  by_cases hlen : d.length ≤ Pbkdf2.maxKeyLen (LawfulHeader.algorithm header)
  · rw [value_verify_eq_decide hnew password salt hlen, List.prefix_iff_eq_take]
    simp [hnil]
  · -- A key that is too long is none that was derived, and is no beginning of one.
    rw [value_verify password hnew, if_pos (Nat.lt_of_not_le hlen)]
    refine ⟨nofun, fun h => ?_⟩
    have hle := h.2.length_le
    rw [length_longestKey] at hle
    exact absurd hle hlen

theorem eq_take_of_opens {d : Bytes} (h : Opens header password salt d) :
    d = (longestKey header password salt).take d.length :=
  List.prefix_iff_eq_take.1 ((opens_iff hnew password salt).1 h).2

theorem length_le_of_opens {d : Bytes} (h : Opens header password salt d) :
    d.length ≤ Pbkdf2.maxKeyLen (LawfulHeader.algorithm header) := by
  have hle := ((opens_iff hnew password salt).1 h).2.length_le
  rwa [length_longestKey] at hle

/-- There is one key of each length. -/
theorem existsUnique_opens {k : Nat} (hpos : 1 ≤ k)
    (hk : k ≤ Pbkdf2.maxKeyLen (LawfulHeader.algorithm header)) :
    ∃! d, d.length = k ∧ Opens header password salt d := by
  have hlength : ((longestKey header password salt).take k).length = k := by
    rw [List.length_take, length_longestKey, Nat.min_eq_left hk]
  refine ⟨(longestKey header password salt).take k, ⟨hlength, ?_⟩, ?_⟩
  · refine (opens_iff hnew password salt).2 ⟨?_, List.take_prefix ..⟩
    exact List.ne_nil_of_length_pos (hlength.symm ▸ hpos)
  · rintro d ⟨rfl, hopens⟩
    exact eq_take_of_opens hnew password salt hopens

/-- No byte of a key may change. -/
theorem value_check_set {d : Bytes} (h : Opens header password salt d) {i : Nat}
    (hi : i < d.length) {b : UInt8} (hb : b ≠ d[i]) :
    (check H password (write ⟨header, salt, d.set i b⟩)).value = .ok false := by
  have hlength : (d.set i b).length = d.length := List.length_set
  have hne : d.set i b ≠ [] := List.ne_nil_of_length_pos (by omega)
  -- The changed key is not the one of its length.
  have hchanged : d.set i b ≠ d := by
    intro heq
    have hget : (d.set i b)[i]? = d[i]? := by rw [heq]
    rw [List.getElem?_set_self hi, List.getElem?_eq_getElem hi] at hget
    exact hb (Option.some.inj hget)
  rw [check_write password (c := ⟨header, salt, d.set i b⟩) hnew, if_neg hne,
    value_verify_eq_decide hnew password salt (hlength ▸ length_le_of_opens hnew password salt h),
    hlength, ← eq_take_of_opens hnew password salt h, decide_eq_false hchanged]

/-- The keys that a password opens are the beginnings of the longest one that it derives. -/
theorem acceptedKeys :
    AcceptedKeys header (Pbkdf2.maxKeyLen (LawfulHeader.algorithm header)) password salt
      (longestKey header password salt) where
  value_derive := by
    rw [LawfulHeader.value_derive _ _ _ hnew, if_neg (Nat.lt_irrefl _)]
    rfl
  length_eq := length_longestKey password salt
  value_check text d hread hlen := value_check_of_read hnew password salt hread hlen
  value_check_write d hpos hlen := by
    have hne : d ≠ [] := List.ne_nil_of_length_pos hpos
    refine value_check_of_read hnew password salt ?_ hlen
    rw [read_write (c := ⟨header, salt, d⟩) hnew, if_neg hne]
  existsUnique_opens k hpos hk := existsUnique_opens hnew password salt hpos hk
  prefix_of_opens d d' h h' hle := by
    obtain ⟨-, hprefix⟩ := (opens_iff hnew password salt).1 h
    obtain ⟨-, hprefix'⟩ := (opens_iff hnew password salt).1 h'
    exact List.prefix_of_prefix_length_le hprefix hprefix' hle
  opens_take d k h hpos hk := by
    obtain ⟨-, hprefix⟩ := (opens_iff hnew password salt).1 h
    refine (opens_iff hnew password salt).2 ⟨?_, (List.take_prefix k d).trans hprefix⟩
    exact List.ne_nil_of_length_pos (by rw [List.length_take]; omega)
  value_check_set d i b h hi hb := value_check_set hnew password salt h hi hb
  derived_ne_nil _ h := exists_read_of_check password h
  value_accepts text _ _ _ _ hfields := value_accepts_of_empty_field password text hfields

omit hnew

/-- For every header that can be written and read, of either kind, every password and every salt,
    the keys that are opened are the beginnings of the longest one that is derived. -/
theorem exists_acceptedKeys_admitted :
    (∀ header : ScryptHeader, ∃ K,
      AcceptedKeys header (Pbkdf2.maxKeyLen header.algorithm) password salt K) ∧
    (∀ header : HmacHeader, 1 ≤ header.iterations → header.iterations ≤ HmacHeader.maxIterations →
      ∃ K, AcceptedKeys header (Pbkdf2.maxKeyLen header.algorithm) password salt K) := by
  constructor
  · intro header
    exact ⟨_, acceptedKeys rfl password salt⟩
  · intro header hone hmax
    exact ⟨_, acceptedKeys (HmacHeader.checkIterations_eq_ok_iff.2 ⟨hone, hmax⟩) password salt⟩

/-- With as many iterations as there is room for. -/
theorem exists_acceptedKeys_admitted_maxIterations :
    1 ≤ HmacHeader.maxIterations ∧ HmacHeader.maxIterations ≤ HmacHeader.maxIterations ∧
      ∃ K, AcceptedKeys (⟨.hmacSha384, HmacHeader.maxIterations⟩ : HmacHeader)
        (Pbkdf2.maxKeyLen .hmacSha384) (.ofText "pässword") [0x73, 0x61, 0x6c, 0x74] K := by
  have hone : 1 ≤ HmacHeader.maxIterations := by decide
  have hmax : HmacHeader.maxIterations ≤ HmacHeader.maxIterations := by decide
  obtain ⟨-, hhmac⟩ := exists_acceptedKeys_admitted (.ofText "pässword") [0x73, 0x61, 0x6c, 0x74]
  exact ⟨hone, hmax, hhmac ⟨.hmacSha384, HmacHeader.maxIterations⟩ hone hmax⟩

end KeyStretching.Credential
