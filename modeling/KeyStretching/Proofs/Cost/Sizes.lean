import KeyStretching.Proofs.Buffer
import KeyStretching.Proofs.Cost
import KeyStretching.Proofs.Credential.Rules
import KeyStretching.Proofs.Size
import Mathlib.Tactic.Ring

/-!
# Sizes of a derivation

The rules on cost parameters are written with quotients of the limit, so that looking at them takes
no product that might be too large. In unbounded arithmetic they say that all lanes together, and
the memory of each of them, take less than `2 ^ 31` bytes (`Cost.faults`).

That is enough for every size that a derivation computes (`Cost.Computes`): for admitted parameters,
it has its value of unbounded arithmetic in machine words too, if they have 32 bits or more.

* `Cost.reports_ofTriple`, `Cost.exists_ofTriple_iff`: which triples are admitted, and what the
  others are refused for;
* `Cost.check?_eq`: looking at the rules never divides by zero;
* `Cost.Computes.fits`: no step in the computation of a size leaves the words;
* `Cost.scratch?_eq`: there is room for the memory of a lane;
* `CompactCost.exists_scratch`: the memory of a lane, for parameters that fit into the header of a
  credential.
-/

namespace KeyStretching

/-! ## Sizes -/

namespace Size

variable (n r p : Nat)

/-- The length of a lane in bytes. -/
def laneLen : Size := count 128 * count r

/-- The length of all lanes in bytes. -/
def bufferLen : Size := laneLen r * count p

/-- The length of a lane in words. -/
def laneWords : Size := count 32 * count r

/-- The length in bytes of the words of a lane. -/
def laneWordsLen : Size := count 4 * laneWords r

/-- The length of the memory of a lane in words. -/
def memoryWords : Size := laneWords r * count n

/-- The length of the memory of a lane in bytes. -/
def memoryLen : Size := laneLen r * count n

/-- The bits of a number that select a place in memory. -/
def placeMask : Size := count n - count 1

/-- The offset in words where a place in memory starts. -/
def placeStart (place : Nat) : Size := count place * laneWords r

/-- The offset in words where a place in memory ends. -/
def placeEnd (place : Nat) : Size := placeStart r place + laneWords r

/-- The length in words of the blocks of a lane. -/
def blockWords : Size := count 2 * count r * count 16

/-- The offset in words of the last block of a lane. -/
def lastStart : Size := (count 2 * count r - count 1) * count 16

/-- The number of the slot that a place of the chain has. -/
def slotNumber (i : Nat) : Size :=
  if i % 2 = 0 then count (i / 2) else count r + count (i / 2)

/-- The offset in words where the slot of a place starts. -/
def slotStart (i : Nat) : Size := slotNumber r i * count 16

/-- The offset in words where the slot of a place ends. -/
def slotEnd (i : Nat) : Size := slotStart r i + count 16

end Size

/-- The memory of a lane: as many zeros as there are words in it. -/
def scratch? (w n r : Nat) : Option (List UInt32) := do
  let size ← (Size.memoryWords n r).checked w
  Buffer.new? w 4 size 0

namespace Cost

/-- The sizes that are computed in a derivation, and their values in unbounded arithmetic. -/
inductive Computes (c : Cost) : Size → Nat → Prop
  | laneLen : c.Computes (.laneLen c.r.toNat) (128 * c.r.toNat)
  | bufferLen : c.Computes (.bufferLen c.r.toNat c.p.toNat) (128 * c.r.toNat * c.p.toNat)
  | laneWords : c.Computes (.laneWords c.r.toNat) (32 * c.r.toNat)
  | laneWordsLen : c.Computes (.laneWordsLen c.r.toNat) (4 * (32 * c.r.toNat))
  | memoryWords : c.Computes (.memoryWords c.n.toNat c.r.toNat) (32 * c.r.toNat * c.n.toNat)
  | memoryLen : c.Computes (.memoryLen c.n.toNat c.r.toNat) (128 * c.r.toNat * c.n.toNat)
  | placeMask : c.Computes (.placeMask c.n.toNat) (c.n.toNat - 1)
  | placeStart (place : Nat) : place < c.n.toNat →
    c.Computes (.placeStart c.r.toNat place) (place * (32 * c.r.toNat))
  | placeEnd (place : Nat) : place < c.n.toNat →
    c.Computes (.placeEnd c.r.toNat place) (place * (32 * c.r.toNat) + 32 * c.r.toNat)
  | blockWords : c.Computes (.blockWords c.r.toNat) (2 * c.r.toNat * 16)
  | lastStart : c.Computes (.lastStart c.r.toNat) ((2 * c.r.toNat - 1) * 16)
  | slotNumber (i : Nat) : i < 2 * c.r.toNat → c.Computes (.slotNumber c.r.toNat i)
    (if i % 2 = 0 then i / 2 else c.r.toNat + i / 2)
  | slotStart (i : Nat) : i < 2 * c.r.toNat → c.Computes (.slotStart c.r.toNat i)
    ((if i % 2 = 0 then i / 2 else c.r.toNat + i / 2) * 16)
  | slotEnd (i : Nat) : i < 2 * c.r.toNat → c.Computes (.slotEnd c.r.toNat i)
    ((if i % 2 = 0 then i / 2 else c.r.toNat + i / 2) * 16 + 16)

variable {c : Cost} {size : Size} {value : Nat}

theorem Computes.exact_eq (h : c.Computes size value) : size.exact = value := by
  cases h with
  | slotNumber i hi => rw [Size.slotNumber]; split <;> rfl
  | slotStart i hi => rw [Size.slotStart, Size.slotNumber]; split <;> rfl
  | slotEnd i hi => rw [Size.slotEnd, Size.slotStart, Size.slotNumber]; split <;> rfl
  | _ => rfl

/-- No step in the computation of a size leaves the words of 32 bits or more. -/
theorem Computes.fits (h : c.Computes size value) {w : Nat} (hw : 32 ≤ w) : size.Fits w := by
  have hword : 2 ^ 32 ≤ 2 ^ w := Nat.pow_le_pow_right Nat.two_pos hw
  have hn := c.n.toNat_lt
  have hp := c.p.toNat_lt
  have hpos := c.r_pos
  have hnpos := c.n_pos
  have hlanes := c.lanes_le
  have hmemory := c.memory_le
  have hlane := c.lane_le
  have hplaces : 4 * (c.n.toNat * (32 * c.r.toNat)) = 128 * c.r.toNat * c.n.toNat := by ring
  have hwords : 32 * c.r.toNat * c.n.toNat = c.n.toNat * (32 * c.r.toNat) := Nat.mul_comm ..
  -- A place ends where the memory does, or before.
  have hplace {place : Nat} (hlt : place < c.n.toNat) :
      place * (32 * c.r.toNat) + 32 * c.r.toNat ≤ c.n.toNat * (32 * c.r.toNat) := by
    rw [← Nat.succ_mul]
    exact Nat.mul_le_mul_right _ hlt
  cases h with
  | placeStart place hlt | placeEnd place hlt =>
    have hends := hplace hlt
    simp only [Size.placeEnd, Size.placeStart, Size.laneWords, Size.fits_add, Size.fits_mul,
      Size.fits_count, Size.exact_mul, Size.exact_count]
    omega
  | slotNumber i hi | slotStart i hi | slotEnd i hi =>
    simp only [Size.slotEnd, Size.slotStart, Size.slotNumber]
    split <;>
      simp only [Size.fits_add, Size.fits_mul, Size.fits_count, Size.exact_add, Size.exact_mul,
        Size.exact_count] <;>
      omega
  | _ =>
    simp only [Size.laneLen, Size.bufferLen, Size.laneWords, Size.laneWordsLen, Size.memoryWords,
      Size.memoryLen, Size.placeMask, Size.blockWords, Size.lastStart, Size.fits_sub, Size.fits_mul,
      Size.fits_count, Size.exact_sub, Size.exact_mul, Size.exact_count]
    omega

theorem Computes.checked_eq (h : c.Computes size value) {w : Nat} (hw : 32 ≤ w) :
    size.checked w = some value :=
  Size.checked_eq_some_iff.2 ⟨h.fits hw, h.exact_eq⟩

/-! ## Admission -/

/-- What is wrong with a triple by each of the rules, in unbounded arithmetic. -/
def faults (n r p : UInt32) : List (Option CostError) :=
  [ faultUnless (2 ≤ n.toNat ∧ n.toNat.isPowerOfTwo) (.notPowerOfTwo n),
    faultUnless (1 ≤ r.toNat) .zeroBlockSize,
    faultUnless (1 ≤ p.toNat) .zeroParallelism,
    faultUnless (128 * r.toNat * p.toNat ≤ 2 ^ 31 - 1) (.blockSizeTooLarge r p),
    faultUnless (128 * r.toNat * n.toNat ≤ 2 ^ 31 - 1) (.costTooLarge n r) ]

variable {n r p : UInt32}

theorem one_le_toNat_iff {x : UInt32} : 1 ≤ x.toNat ↔ x ≠ 0 := by
  rw [Nat.one_le_iff_ne_zero, ne_eq, ne_eq, ← UInt32.toNat_inj, UInt32.toNat_zero]

/-- A triple that is not admitted is refused for the first rule that it breaks. -/
theorem reports_ofTriple (n r p : UInt32) : Reports (ofTriple n r p) (faults n r p) := by
  have hpower : (2 ≤ n.toNat ∧ n.toNat.isPowerOfTwo) ↔ 2 ≤ n ∧ n &&& (n - 1) = 0 := by
    rw [UInt32.le_iff_toNat_le]
    exact and_congr_right fun h => (and_sub_one_eq_zero_iff (UInt32.le_iff_toNat_le.2 h)).symm
  refine .check (fun h => ?_) fun hn => ?_
  · rw [ofTriple, dif_neg (mt hpower.2 h)]
  have hn := hpower.1 hn
  refine .check (fun h => ?_) fun hr => ?_
  · rw [ofTriple, dif_pos hn, dif_pos (not_not.1 (mt one_le_toNat_iff.2 h))]
  have hr := one_le_toNat_iff.1 hr
  refine .check (fun h => ?_) fun hp => ?_
  · rw [ofTriple, dif_pos hn, dif_neg hr, dif_pos (not_not.1 (mt one_le_toNat_iff.2 h))]
  have hp := one_le_toNat_iff.1 hp
  refine .check (fun h => ?_) fun hrp => ?_
  · rw [ofTriple, dif_pos hn, dif_neg hr, dif_neg hp, dif_neg (mt (le_limit_div_iff hp).1 h)]
  have hrp := (le_limit_div_iff hp).2 hrp
  have hnr : 128 * r.toNat * n.toNat ≤ 2 ^ 31 - 1 ↔ n ≤ limit / r := by
    rw [le_limit_div_iff hr, Nat.mul_right_comm]
  refine .check (fun h => ?_) fun hkept => ?_
  · rw [ofTriple, dif_pos hn, dif_neg hr, dif_neg hp, dif_pos hrp, dif_neg (mt hnr.2 h)]
  · obtain ⟨c, hc⟩ := exists_ofTriple hn hr hp hrp (hnr.1 hkept)
    rw [hc]
    exact .nil c

/-- The triples that are admitted are those of which no size is too large. -/
theorem exists_ofTriple_iff (n r p : UInt32) :
    (∃ c, ofTriple n r p = .ok c) ↔
      (2 ≤ n.toNat ∧ n.toNat.isPowerOfTwo) ∧ 1 ≤ r.toNat ∧ 1 ≤ p.toNat ∧
        128 * r.toNat * p.toNat ≤ 2 ^ 31 - 1 ∧ 128 * r.toNat * n.toNat ≤ 2 ^ 31 - 1 := by
  rw [(reports_ofTriple n r p).exists_eq_ok_iff, firstFault_eq_none_iff, faults]
  simp only [List.forall_mem_cons, List.not_mem_nil, false_implies, implies_true, and_true,
    faultUnless_eq_none_iff]

/-- A quotient of words, unless the divisor is zero. -/
def div? (x y : UInt32) : Option UInt32 := if y = 0 then none else some (x / y)

/-- The rules on a triple, looked at one after the other as long as they are kept. -/
def check? (n r p : UInt32) : Option (Except CostError Unit) :=
  if n < 2 ∨ n &&& (n - 1) ≠ 0 then some (.error (.notPowerOfTwo n))
  else if r = 0 then some (.error .zeroBlockSize)
  else if p = 0 then some (.error .zeroParallelism)
  else do
    let most ← div? limit p
    if most < r then some (.error (.blockSizeTooLarge r p))
    else do
      let most ← div? limit r
      if most < n then some (.error (.costTooLarge n r)) else some (.ok ())

/-- Looking at the rules never divides by zero. -/
theorem check?_eq (n r p : UInt32) : check? n r p = some ((ofTriple n r p).map fun _ => ()) := by
  by_cases hn : 2 ≤ n ∧ n &&& (n - 1) = 0
  · have hkept : ¬(n < 2 ∨ n &&& (n - 1) ≠ 0) := by
      rw [not_or, UInt32.not_lt, not_ne_iff]
      exact hn
    rw [check?, if_neg hkept, ofTriple, dif_pos hn]
    by_cases hr : r = 0
    · rw [if_pos hr, dif_pos hr]
      rfl
    by_cases hp : p = 0
    · rw [if_neg hr, if_pos hp, dif_neg hr, dif_pos hp]
      rfl
    rw [if_neg hr, if_neg hp, dif_neg hr, dif_neg hp, div?, if_neg hp, Option.bind_eq_bind,
      Option.bind_some]
    by_cases hrp : r ≤ limit / p
    · rw [if_neg (UInt32.not_lt.2 hrp), dif_pos hrp, div?, if_neg hr, Option.bind_some]
      by_cases hnr : n ≤ limit / r
      · rw [if_neg (UInt32.not_lt.2 hnr), dif_pos hnr]
        rfl
      · rw [if_pos (UInt32.not_le.1 hnr), dif_neg hnr]
        rfl
    · rw [if_pos (UInt32.not_le.1 hrp), dif_neg hrp]
      rfl
  · have hbroken : n < 2 ∨ n &&& (n - 1) ≠ 0 := by
      rw [← UInt32.not_le, ne_eq, ← not_and_or]
      exact hn
    rw [check?, if_pos hbroken, ofTriple, dif_neg hn]
    rfl

end Cost

/-! ## Memory -/

/-- Half of the bytes that words number are more than a derivation takes for any of its buffers. -/
theorem Size.half_le {w : Nat} (hw : 32 ≤ w) : 2 ^ 31 ≤ 2 ^ (w - 1) :=
  Nat.pow_le_pow_right Nat.two_pos (by omega)

/-- No word of 32 bits or more is too small for the memory of a lane. -/
theorem Cost.scratch?_eq (c : Cost) {w : Nat} (hw : 32 ≤ w) :
    scratch? w c.n.toNat c.r.toNat = some (List.replicate (32 * c.r.toNat * c.n.toNat) 0) := by
  have hwords := (Computes.memoryWords (c := c)).checked_eq hw
  have hroom := c.memory_le
  have hhalf := Size.half_le hw
  have hbytes : 4 * (32 * c.r.toNat * c.n.toNat) = 128 * c.r.toNat * c.n.toNat := by ring
  rw [scratch?, hwords, Option.bind_eq_bind, Option.bind_some, Buffer.new?_of_lt 0 (by omega)]

namespace CompactCost

variable (c : CompactCost)

/-- The memory of a lane is what it is said to need, and no word of 32 bits is too small for it. -/
theorem exists_scratch {w : Nat} (hw : 32 ≤ w) :
    (Size.memoryLen c.n.toNat c.r.toNat).checked w = some c.memoryPerLane ∧
      ((Size.memoryLen c.n.toNat c.r.toNat).wrapping w).toNat = c.memoryPerLane ∧
      ∃ memory, scratch? w c.n.toNat c.r.toNat = some memory ∧
        4 * memory.length = c.memoryPerLane := by
  obtain ⟨cost, hcost⟩ := c.exists_cost
  obtain ⟨hn, hr, -⟩ := Cost.eq_of_ofTriple hcost
  have hlen := Cost.Computes.memoryLen (c := cost)
  have hscratch := cost.scratch?_eq hw
  rw [hn, hr, UInt8.toNat_toUInt32] at hlen hscratch
  refine ⟨hlen.checked_eq hw, ?_, _, hscratch, ?_⟩
  · rw [Size.toNat_wrapping (hlen.fits hw), hlen.exact_eq, memoryPerLane]
  · rw [List.length_replicate, memoryPerLane]
    ring

end CompactCost

/-! ## The limit is exact -/

/-- The rules on a triple are those that its sizes ask for. -/
structure Cost.ExactLimit (n r p : UInt32) : Prop where
  /-- A triple is admitted if and only if the lanes and the memory are not too large. -/
  exists_ofTriple_iff : (∃ c, ofTriple n r p = .ok c) ↔
    (2 ≤ n.toNat ∧ n.toNat.isPowerOfTwo) ∧ 1 ≤ r.toNat ∧ 1 ≤ p.toNat ∧
      128 * r.toNat * p.toNat ≤ 2 ^ 31 - 1 ∧ 128 * r.toNat * n.toNat ≤ 2 ^ 31 - 1
  /-- Any other is refused for the first rule that it breaks. -/
  reports_ofTriple : Reports (ofTriple n r p) (faults n r p)
  /-- To find that out, nothing is divided by zero. -/
  check?_eq : check? n r p = some ((ofTriple n r p).map fun _ => ())
  /-- No size that is computed for an admitted triple is too large for words of 32 bits. -/
  sizes (c : Cost) (w : Nat) (size : Size) (value : Nat) : ofTriple n r p = .ok c → 32 ≤ w →
    c.Computes size value → size.checked w = some value ∧ (size.wrapping w).toNat = value

/-- The rules on a triple are those that its sizes ask for, and for parameters that fit into the
    header of a credential, the memory of a lane is what it is said to need. -/
theorem Cost.exactLimit (n r p : UInt32) (compact : CompactCost) :
    ExactLimit n r p ∧ ∀ w, 32 ≤ w →
      (Size.memoryLen compact.n.toNat compact.r.toNat).checked w = some compact.memoryPerLane ∧
      ((Size.memoryLen compact.n.toNat compact.r.toNat).wrapping w).toNat =
        compact.memoryPerLane ∧
      ∃ memory, scratch? w compact.n.toNat compact.r.toNat = some memory ∧
        4 * memory.length = compact.memoryPerLane := by
  refine ⟨⟨exists_ofTriple_iff n r p, reports_ofTriple n r p, check?_eq n r p, ?_⟩,
    fun w hw => compact.exists_scratch hw⟩
  intro c w size value _ hw hsize
  exact ⟨hsize.checked_eq hw, (Size.toNat_wrapping (hsize.fits hw)).trans hsize.exact_eq⟩

/-- The largest block size for the smallest cost, and the memory for the usual parameters. -/
theorem Cost.exactLimit_largest :
    (∃ c, ofTriple 2 8388607 1 = .ok c ∧ 32 ≤ 32 ∧
      c.Computes (.memoryLen 2 8388607) (128 * 8388607 * 2) ∧
      (Size.memoryLen 2 8388607).checked 32 = some (128 * 8388607 * 2)) ∧
    (Size.memoryLen 16384 8).checked 32 = some 16777216 ∧
    ¬∃ c, ofTriple 2 8388608 1 = .ok c := by
  obtain ⟨hlargest, hmemory⟩ := exactLimit 2 8388607 1 .standard
  obtain ⟨hnext, -⟩ := exactLimit 2 8388608 1 .standard
  have hadmitted : ∃ c, ofTriple 2 8388607 1 = .ok c :=
    hlargest.exists_ofTriple_iff.2 ⟨⟨by decide, 1, rfl⟩, by decide, by decide, by decide, by decide⟩
  obtain ⟨c, hc⟩ := hadmitted
  obtain ⟨hn, hr, -⟩ := eq_of_ofTriple hc
  have hsize := Computes.memoryLen (c := c)
  rw [hn, hr] at hsize
  refine ⟨⟨c, hc, le_rfl, hsize, (hlargest.sizes c 32 _ _ hc le_rfl hsize).1⟩,
    (hmemory 32 le_rfl).1, fun h => ?_⟩
  exact absurd (hnext.exists_ofTriple_iff.1 h).2.2.2.2 (by decide)

end KeyStretching
