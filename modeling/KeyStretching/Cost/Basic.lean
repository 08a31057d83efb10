/-!
# Cost parameters

What scrypt costs is fixed by three numbers: the count `n` of blocks it keeps in memory and visits
again, the size `r` of a block, and the count `p` of independent lanes. A `Cost` is a triple that
is admissible: `n` is a power of two greater than one, `r` and `p` are positive, and no buffer
spans more than `limit` units of 128 bytes, so that every size in bytes stays below `2 ^ 31`.

`Cost.ofTriple` admits a triple or says which rule it breaks first (`CostError`).
-/

namespace KeyStretching

/-- Why cost parameters are not admissible. -/
inductive CostError where
  /-- The cost is not a power of two greater than one. -/
  | notPowerOfTwo (n : UInt32)
  /-- The block size is zero. -/
  | zeroBlockSize
  /-- The count of lanes is zero. -/
  | zeroParallelism
  /-- The lanes together are too large. -/
  | blockSizeTooLarge (r p : UInt32)
  /-- The memory of one lane is too large. -/
  | costTooLarge (n r : UInt32)
  /-- The logarithm of the cost is not one of 1 to 15. -/
  | logOutOfRange (logN : UInt8)
  deriving DecidableEq, Repr

/-- The wording of the rule that is broken. -/
def CostError.message : CostError → String
  | notPowerOfTwo n => s!"N must be a power of two greater than 1, got {n}"
  | zeroBlockSize => "block size r must be at least 1"
  | zeroParallelism => "parallelization p must be at least 1"
  | blockSizeTooLarge r p => s!"block size r = {r} is too large for p = {p}"
  | costTooLarge n r => s!"cost N = {n} is too large for r = {r}"
  | logOutOfRange logN => s!"log2(N) = {logN} is outside 1..=15"

/-- The count of 128-byte units that a buffer may span at most: as many as fit below `2 ^ 31`
    bytes. -/
def Cost.limit : UInt32 := 0x7fffffff / 128

/-- An admissible triple of cost parameters. -/
structure Cost where
  /-- The count of blocks kept in memory. -/
  n : UInt32
  /-- The block size, in units of 128 bytes. -/
  r : UInt32
  /-- The count of lanes. -/
  p : UInt32
  two_le_n : 2 ≤ n
  powerOfTwo : n &&& (n - 1) = 0
  r_ne_zero : r ≠ 0
  p_ne_zero : p ≠ 0
  r_le : r ≤ Cost.limit / p
  n_le : n ≤ Cost.limit / r

namespace Cost

/-- Admits a triple, or says which rule it breaks first. -/
def ofTriple (n r p : UInt32) : Except CostError Cost :=
  if hn : 2 ≤ n ∧ n &&& (n - 1) = 0 then
    if hr : r = 0 then .error .zeroBlockSize
    else if hp : p = 0 then .error .zeroParallelism
    else if hrp : r ≤ limit / p then
      if hnr : n ≤ limit / r then .ok ⟨n, r, p, hn.1, hn.2, hr, hp, hrp, hnr⟩
      else .error (.costTooLarge n r)
    else .error (.blockSizeTooLarge r p)
  else .error (.notPowerOfTwo n)

/-- An admitted triple is kept as it is. -/
theorem eq_of_ofTriple {n r p : UInt32} {c : Cost} (h : ofTriple n r p = .ok c) :
    c.n = n ∧ c.r = r ∧ c.p = p := by
  unfold ofTriple at h
  split at h <;> try contradiction
  split at h <;> try contradiction
  split at h <;> try contradiction
  split at h <;> try contradiction
  split at h <;> try contradiction
  cases h
  exact ⟨rfl, rfl, rfl⟩

theorem n_pos (c : Cost) : 0 < c.n.toNat :=
  Nat.lt_of_lt_of_le Nat.zero_lt_two (UInt32.le_iff_toNat_le.1 c.two_le_n)

theorem r_pos (c : Cost) : 0 < c.r.toNat :=
  Nat.pos_of_ne_zero fun h => c.r_ne_zero (UInt32.toNat_inj.1 h)

theorem p_pos (c : Cost) : 0 < c.p.toNat :=
  Nat.pos_of_ne_zero fun h => c.p_ne_zero (UInt32.toNat_inj.1 h)

end Cost

end KeyStretching
