import KeyStretching.Proofs.Credential.Checking
import KeyStretching.Proofs.Credential.Unpacking

/-!
# How verifying fails

Deriving the key of a credential checks the parameters in its header again. Nothing comes of that:
a header that new credentials may have, as all that are read from a text are, breaks none of the
rules. So there is one way left to fail, which is a key longer than any that can be derived.

* `value_verify_eq_error_iff`: verifying fails if the key is too long (`Oversized`), and not
  otherwise;
* `value_check_eq_error_iff`: a check fails if the text cannot be read, or if the key of what is
  read is too long, and not otherwise.
-/

namespace KeyStretching

/-- The key is too long for the algorithm, and the error says so. -/
structure Oversized (a : Algorithm) (derived : Bytes) (e : Error) : Prop where
  maxKeyLen_lt : Pbkdf2.maxKeyLen a < derived.length
  error_eq : e = .keyTooLong derived.length (Pbkdf2.maxKeyLen a)

namespace Credential

variable {H : Type} [Header H] [LawfulHeader H] (password : Password)

/-- Verifying a credential with a header that new credentials may have fails if its key is too long,
    and not otherwise. -/
theorem value_verify_eq_error_iff {c : Credential H} (hnew : Header.checkNew c.header = .ok ())
    {e : Error} :
    (c.verify password).value = .error e ↔
      Oversized (LawfulHeader.algorithm c.header) c.derived e := by
  rw [value_verify password hnew]
  by_cases hlen : Pbkdf2.maxKeyLen (LawfulHeader.algorithm c.header) < c.derived.length
  · rw [if_pos hlen, Except.error.injEq, eq_comm]
    exact ⟨fun he => ⟨hlen, he⟩, Oversized.error_eq⟩
  · rw [if_neg hlen]
    exact ⟨nofun, fun h => absurd h.maxKeyLen_lt hlen⟩

/-- A check fails if the text cannot be read, or if the key of the credential that is read is too
    long, and not otherwise. -/
theorem value_check_eq_error_iff [ExactHeader H] {text : String} {e : Error} :
    (check H password text).value = .error e ↔
      (read text : Except Error (Credential H)) = .error e ∨
        ∃ c : Credential H, read text = .ok c ∧
          Oversized (LawfulHeader.algorithm c.header) c.derived e := by
  cases hread : (read text : Except Error (Credential H)) with
  | error e' => simp [check, hread]
  | ok c =>
    rw [check, hread]
    simp [value_verify_eq_error_iff password (checkNew_of_read hread)]

end Credential

end KeyStretching
