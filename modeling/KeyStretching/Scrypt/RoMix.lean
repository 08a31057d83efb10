import KeyStretching.Scrypt.BlockMix

/-!
# Mixing a lane through memory

The memory-hard part of scrypt. A lane is mixed `n` times, and its value before each mixing is kept
in memory (`fill`). Then it is mixed `n` times more, each time together with the block of memory
that its own contents select (`revisit`). Skipping the memory means computing those blocks anew.

The result of a mixing is written over the lane of the step before, so two lanes suffice beside the
memory.
-/

namespace KeyStretching.RoMix

variable {r n : Nat}

/-- The lane to be mixed next, and the one to be written over. -/
structure Lanes (r : Nat) where
  current : Lane r
  spare : Lane r

/-- Mixes the current lane over the spare one, and exchanges the two. -/
@[inline] def Lanes.mix (hr : 0 < r) (x : Lanes r) : Lanes r :=
  ⟨blockMix hr x.current x.spare, x.current⟩

/-- Keeps the values of the lane before each of `n` mixings in memory. -/
def fill (hr : 0 < r) (memory : Vector (Lane r) n) (x : Lanes r) : Vector (Lane r) n × Lanes r :=
  Fin.foldl n (fun s i => (s.1.set i s.2.current, s.2.mix hr)) (memory, x)

/-- The place in memory that a lane selects: the low bits of its number, as many as the places
    need when they are a power of two. -/
def select (hr : 0 < r) (hn : 0 < n) (lane : Lane r) : Fin n :=
  ⟨(lane.integerify hr).toNat &&& (n - 1),
    Nat.lt_of_le_of_lt Nat.and_le_right (Nat.sub_lt hn Nat.zero_lt_one)⟩

/-- Mixes the lane `n` times together with the blocks of memory that it selects. -/
def revisit (hr : 0 < r) (hn : 0 < n) (memory : Vector (Lane r) n) (x : Lanes r) : Lanes r :=
  Fin.foldl n
    (fun x _ => Lanes.mix hr ⟨x.current.xor memory[select hr hn x.current], x.spare⟩) x

/-- Mixes a lane through a memory of `n` blocks. -/
def mixLane (hr : 0 < r) (hn : 0 < n) (lane : Lane r) : Lane r :=
  let blank : Lane r := Vector.replicate _ (Vector.replicate _ 0)
  let (memory, x) := fill hr (Vector.replicate n blank) ⟨lane, blank⟩
  (revisit hr hn memory x).current

/-- Mixes the lane that `128 * r` bytes spell. -/
def mixBytes (hr : 0 < r) (hn : 0 < n) (bytes : Bytes) : Bytes :=
  (mixLane hr hn (Lane.ofBytes r bytes)).toBytes

end KeyStretching.RoMix
