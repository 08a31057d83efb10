import KeyStretching.Cost.Basic

/-!
# Compact cost parameters

The header of a stored credential has four bits for the logarithm of the cost and a byte each for
the block size and the count of lanes. Parameters of that size are admissible as soon as none of
them is zero (`CompactCost.ofFields`): the buffers they ask for are far below the limit.
-/

namespace KeyStretching

/-- Cost parameters that fit into the header of a credential. -/
structure CompactCost where
  /-- The logarithm of the cost to the base two. -/
  logN : UInt8
  /-- The block size, in units of 128 bytes. -/
  r : UInt8
  /-- The count of lanes. -/
  p : UInt8
  logN_pos : 1 ≤ logN
  logN_le : logN ≤ 15
  r_ne_zero : r ≠ 0
  p_ne_zero : p ≠ 0
  deriving DecidableEq, Repr

namespace CompactCost

/-- The largest logarithm of a cost. -/
def maxLogN : UInt8 := 15

/-- The cost whose logarithm is `logN`. -/
def expand (logN : UInt8) : UInt32 := 1 <<< logN.toUInt32

/-- Admits the three fields, or says which rule they break first. -/
def ofFields (logN r p : UInt8) : Except CostError CompactCost :=
  if hlog : 1 ≤ logN ∧ logN ≤ maxLogN then
    match h : Cost.ofTriple (expand logN) r.toUInt32 p.toUInt32 with
    | .error e => .error e
    | .ok cost =>
      have hcost := Cost.eq_of_ofTriple h
      .ok ⟨logN, r, p, hlog.1, hlog.2, fun hr => cost.r_ne_zero (by rw [hcost.2.1, hr]; rfl),
        fun hp => cost.p_ne_zero (by rw [hcost.2.2, hp]; rfl)⟩
  else .error (.logOutOfRange logN)

/-- The cost itself: the count of blocks that one lane keeps in memory. -/
def n (c : CompactCost) : UInt32 := expand c.logN

/-- The bytes of memory that one lane needs. -/
def memoryPerLane (c : CompactCost) : Nat := 128 * c.r.toNat * c.n.toNat

/-- The usual parameters: sixteen mebibytes in a single lane. -/
def standard : CompactCost := ⟨14, 8, 1, by decide, by decide, by decide, by decide⟩

end CompactCost

end KeyStretching
