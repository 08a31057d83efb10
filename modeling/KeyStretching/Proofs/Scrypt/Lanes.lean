import KeyStretching.Proofs.Scrypt
import Mathlib.Data.List.Range

/-!
# The order of the lanes

Lanes may be mixed by several workers at once, so that nothing is known of the order in which their
turns come. Nor does anything hang on it: the pieces that the buffer is cut into have no byte in
common and leave none out, a lane is as long after its mixing as before, and so each turn changes
its own piece of the buffer and no other.

* `value_mixLanes_eq_foldl`: the lanes are mixed in place, in the one buffer they are pieces of;
* `piece_mixLanes`: after any of the lanes had their turns, in any order, those are mixed and all
  the others are as they were;
* `getElem?_mixLanes`: no byte outside the lanes that had their turns is changed;
* `lanesIndependent`: whatever the order, mixing all lanes makes each what it becomes by itself.
-/

namespace KeyStretching

open Standard (piece)

/-! ## Changing a piece in place -/

section

variable {len count : Nat} {f : Bytes → Bytes} {bytes : Bytes}

/-- The byte string with the piece of number `i` changed in place. -/
def modifyPiece (f : Bytes → Bytes) (len i : Nat) (bytes : Bytes) : Bytes :=
  bytes.take (len * i) ++ f (piece len i bytes) ++ bytes.drop (len * (i + 1))

/-- Every byte stands in the piece of its place divided by the length of a piece. -/
theorem getElem?_eq_piece (hlen : 0 < len) (bytes : Bytes) (j : Nat) :
    bytes[j]? = (piece len (j / len) bytes)[j % len]? := by
  rw [piece, List.getElem?_take_of_lt (Nat.mod_lt j hlen), List.getElem?_drop, Nat.div_add_mod]

/-- Whole pieces in front are cut off as they are. -/
theorem chunks_append_of_length (hlen : 0 < len) {front : Bytes} (h : front.length = len * count)
    (back : Bytes) : chunks len (front ++ back) = chunks len front ++ chunks len back := by
  induction count generalizing front with
  | zero =>
    rw [List.eq_nil_of_length_eq_zero h, chunks_nil]
    rfl
  | succ count ih =>
    have hle : len ≤ front.length := h ▸ Nat.le_mul_of_pos_right len (Nat.succ_pos count)
    have hfirst : (front.take len).length = len := List.length_take_of_le hle
    have hrest : (front.drop len).length = len * count := by
      rw [List.length_drop, h, Nat.mul_succ, Nat.add_sub_cancel]
    -- The first piece comes off both, and the others are fewer.
    conv_lhs => rw [← List.take_append_drop len front, List.append_assoc, chunks_append hlen hfirst,
      ih hrest]
    conv_rhs => rw [← List.take_append_drop len front, chunks_append hlen hfirst]
    rfl

variable (hf : ∀ lane, (f lane).length = len) (h : bytes.length = len * count) {i : Nat}
  (hi : i < count)

include h hi

theorem length_take_pieces : (bytes.take (len * i)).length = len * i := by
  have hle : len * (i + 1) ≤ len * count := Nat.mul_le_mul_left len hi
  rw [Nat.mul_succ] at hle
  exact List.length_take_of_le (by omega)

include hf

theorem length_modifyPiece : (modifyPiece f len i bytes).length = bytes.length := by
  have hle : len * (i + 1) ≤ len * count := Nat.mul_le_mul_left len hi
  rw [modifyPiece, List.length_append, List.length_append, length_take_pieces h hi, hf,
    List.length_drop, ← Nat.mul_succ, h, Nat.add_sub_cancel' hle]

/-- Changing a piece in place is changing it among the pieces. -/
theorem chunks_modifyPiece (hlen : 0 < len) :
    chunks len (modifyPiece f len i bytes) = (chunks len bytes).modify i f := by
  have hfront := length_take_pieces h hi
  have hcount : (chunks len (bytes.take (len * i))).length = i := by
    rw [chunks_eq_map_piece hlen hfront, List.length_map, List.length_range]
  -- Three parts make up the string: the pieces in front, the piece itself, and those behind.
  have hparts : chunks len bytes = chunks len (bytes.take (len * i)) ++
      piece len i bytes :: chunks len (bytes.drop (len * (i + 1))) := by
    rw [← chunks_append hlen (length_piece h hi), ← chunks_append_of_length hlen hfront, piece,
      Nat.mul_succ, ← List.drop_drop, List.take_append_drop, List.take_append_drop]
  have hmodify := List.modifyTailIdx_add (List.modifyHead f) 0
    (chunks len (bytes.take (len * i)))
    (piece len i bytes :: chunks len (bytes.drop (len * (i + 1))))
  rw [← hparts, hcount, Nat.add_zero] at hmodify
  rw [modifyPiece, List.append_assoc, chunks_append_of_length hlen hfront,
    chunks_append hlen (hf _)]
  exact hmodify.symm

end

namespace Scrypt

variable {r n : Nat} (hr : 0 < r) (hn : 0 < n)

/-! ## One buffer -/

/-- The buffer after the turn of one lane, which is mixed in place. -/
def mixInPlace (buffer : Bytes) (lane : Nat) : Bytes :=
  modifyPiece (RoMix.mixBytes hr hn) (128 * r) lane buffer

section

variable {p : Nat} {buffer : Bytes} (h : buffer.length = 128 * r * p)

include h

theorem length_mixInPlace {lane : Nat} (hlane : lane < p) :
    (mixInPlace hr hn buffer lane).length = 128 * r * p :=
  (length_modifyPiece (RoMix.length_mixBytes hr hn) h hlane).trans h

/-- The lanes that the buffer is cut into are mixed in place, whichever of them have turns and
    however often. -/
theorem value_mixLanes_eq_foldl {order : List Nat} (horder : ∀ lane ∈ order, lane < p) :
    (mixLanes hr hn order buffer).value = order.foldl (mixInPlace hr hn) buffer := by
  rw [mixLanes, Logged.value_bind, Logged.value_pure]
  induction order generalizing buffer with
  | nil => exact flatten_chunks (128 * r) buffer
  | cons lane order ih =>
    obtain ⟨hlane, horder⟩ := List.forall_mem_cons.1 horder
    -- The first turn changes the one lane, in the buffer as among the lanes.
    have hfirst : (mixAt hr hn (chunks (128 * r) buffer).toArray lane).value =
        (chunks (128 * r) (mixInPlace hr hn buffer lane)).toArray := by
      rw [mixInPlace, chunks_modifyPiece (RoMix.length_mixBytes hr hn) h hlane (by omega),
        ← List.modify_toArray]
      rfl
    rw [List.foldlM_cons, Logged.value_bind, hfirst, List.foldl_cons,
      ← ih (length_mixInPlace hr hn h hlane) horder]

/-! ## One turn for each lane -/

/-- Mixed or not, a lane has the length of a lane. -/
theorem length_of_mem_lanes (order : List Nat) :
    ∀ lane ∈ (List.range p).map fun i =>
      if i ∈ order then RoMix.mixBytes hr hn (piece (128 * r) i buffer)
      else piece (128 * r) i buffer, lane.length = 128 * r := by
  refine List.forall_mem_map.2 fun i hi => ?_
  split
  · exact RoMix.length_mixBytes hr hn _
  · exact length_piece h (List.mem_range.1 hi)

variable {order : List Nat} (horder : order.Nodup)

include horder

theorem length_mixLanes : (mixLanes hr hn order buffer).value.length = buffer.length := by
  rw [value_mixLanes_of_nodup hr hn horder h, List.flatMap_def,
    length_flatten (length_of_mem_lanes hr hn h order), List.length_map, List.length_range, h]

/-- A lane is mixed if it had its turn; if not, it is as it was. -/
theorem piece_mixLanes {i : Nat} (hi : i < p) :
    piece (128 * r) i (mixLanes hr hn order buffer).value =
      if i ∈ order then RoMix.mixBytes hr hn (piece (128 * r) i buffer)
      else piece (128 * r) i buffer := by
  have hlength : i < ((List.range p).map fun i =>
      if i ∈ order then RoMix.mixBytes hr hn (piece (128 * r) i buffer)
      else piece (128 * r) i buffer).length := by simpa using hi
  rw [value_mixLanes_of_nodup hr hn horder h, List.flatMap_def,
    piece_flatten (length_of_mem_lanes hr hn h order) hlength, List.getElem_map,
    List.getElem_range]

/-- No byte outside the lanes that had their turns is changed. -/
theorem getElem?_mixLanes {j : Nat} (hj : j / (128 * r) ∉ order) :
    (mixLanes hr hn order buffer).value[j]? = buffer[j]? := by
  have hpos : 0 < 128 * r := by omega
  by_cases hlane : j / (128 * r) < p
  · rw [getElem?_eq_piece hpos, piece_mixLanes hr hn h horder hlane, if_neg hj,
      ← getElem?_eq_piece hpos]
  · -- Behind the last lane, there are no bytes.
    have hle : buffer.length ≤ j := by
      rw [Nat.div_lt_iff_lt_mul hpos, Nat.mul_comm, ← h] at hlane
      exact Nat.le_of_not_lt hlane
    rw [List.getElem?_eq_none hle,
      List.getElem?_eq_none ((length_mixLanes hr hn h horder).trans_le hle)]

omit horder

/-- The turn of one lane. -/
theorem value_mixLanes_singleton {lane : Nat} (hlane : lane < p) :
    (mixLanes hr hn [lane] buffer).value = mixInPlace hr hn buffer lane :=
  value_mixLanes_eq_foldl hr hn h fun _ hmem => List.mem_singleton.1 hmem ▸ hlane

/-- No byte outside a lane is changed in its turn. -/
theorem getElem?_mixInPlace {lane : Nat} (hlane : lane < p) {j : Nat}
    (hj : j < 128 * r * lane ∨ 128 * r * (lane + 1) ≤ j) :
    (mixInPlace hr hn buffer lane)[j]? = buffer[j]? := by
  have hne : j / (128 * r) ≠ lane := by
    rintro rfl
    have hdiv := Nat.div_add_mod j (128 * r)
    have hmod := Nat.mod_lt j (show 0 < 128 * r by omega)
    rw [Nat.mul_succ] at hj
    omega
  rw [← value_mixLanes_singleton hr hn h hlane]
  exact getElem?_mixLanes hr hn h (List.nodup_singleton lane) fun hmem =>
    hne (List.mem_singleton.1 hmem)

/-- When all lanes had their turns, in any order, every lane is mixed. -/
theorem value_mixLanes_of_perm (hperm : order.Perm (List.range p)) :
    (mixLanes hr hn order buffer).value =
      (List.range p).flatMap fun i => RoMix.mixBytes hr hn (piece (128 * r) i buffer) := by
  rw [value_mixLanes_of_nodup hr hn (hperm.nodup_iff.2 List.nodup_range) h]
  exact List.flatMap_congr fun i hi => if_pos (hperm.mem_iff.2 hi)

end

/-! ## Any order -/

/-- The lanes of a buffer are mixed independently of each other. -/
structure LanesIndependent (p : Nat) (buffer : Bytes) : Prop where
  /-- Whatever the order, every lane becomes what it becomes by itself. -/
  value_eq_flatMap (order : List Nat) : order.Perm (List.range p) →
    (mixLanes hr hn order buffer).value =
      (List.range p).flatMap fun i => RoMix.mixBytes hr hn (piece (128 * r) i buffer)
  /-- One lane after the other is as good an order as any. -/
  value_eq_sequential (order : List Nat) : order.Perm (List.range p) →
    (mixLanes hr hn order buffer).value = (mixLanes hr hn (List.range p) buffer).value
  /-- The lanes are mixed in place, in the one buffer. -/
  value_eq_foldl (order : List Nat) : order.Perm (List.range p) →
    (mixLanes hr hn order buffer).value = order.foldl (mixInPlace hr hn) buffer
  /-- It does not matter to a lane which of the others had their turns. -/
  piece_eq (order : List Nat) (i : Nat) : order.Nodup → i < p →
    piece (128 * r) i (mixLanes hr hn order buffer).value =
      if i ∈ order then RoMix.mixBytes hr hn (piece (128 * r) i buffer)
      else piece (128 * r) i buffer
  /-- Nor does it matter what the others hold. -/
  piece_congr (buffer' : Bytes) (order order' : List Nat) (i : Nat) :
    buffer'.length = buffer.length → order.Nodup → order'.Nodup → i < p →
    (i ∈ order' ↔ i ∈ order) → piece (128 * r) i buffer' = piece (128 * r) i buffer →
    piece (128 * r) i (mixLanes hr hn order' buffer').value =
      piece (128 * r) i (mixLanes hr hn order buffer).value
  /-- No byte outside a lane is changed in its turn. -/
  getElem?_mixInPlace (lane j : Nat) : lane < p →
    j < 128 * r * lane ∨ 128 * r * (lane + 1) ≤ j →
    (mixInPlace hr hn buffer lane)[j]? = buffer[j]?

/-- The lanes of a buffer of whole lanes are mixed independently of each other. -/
theorem lanesIndependent {p : Nat} {buffer : Bytes} (h : buffer.length = 128 * r * p) :
    LanesIndependent hr hn p buffer where
  value_eq_flatMap order horder := value_mixLanes_of_perm hr hn h horder
  value_eq_sequential order horder := by
    rw [value_mixLanes_of_perm hr hn h horder,
      value_mixLanes_of_perm hr hn h (List.Perm.refl (List.range p))]
  value_eq_foldl order horder :=
    value_mixLanes_eq_foldl hr hn h fun _ hlane => List.mem_range.1 (horder.mem_iff.1 hlane)
  piece_eq order i horder hi := piece_mixLanes hr hn h horder hi
  piece_congr buffer' order order' i h' horder horder' hi hturn hpiece := by
    rw [piece_mixLanes hr hn (h'.trans h) horder' hi, piece_mixLanes hr hn h horder hi, hpiece]
    simp only [hturn]
  getElem?_mixInPlace lane j hlane hj := getElem?_mixInPlace hr hn h hlane hj

/-- Two lanes of the smallest block size, the second of which has its turn first. -/
theorem lanesIndependent_two_lanes :
    let buffer : Bytes := List.replicate 128 1 ++ List.replicate 128 2
    buffer.length = 128 * 1 * 2 ∧ LanesIndependent Nat.one_pos Nat.two_pos 2 buffer ∧
      (mixLanes Nat.one_pos Nat.two_pos [1, 0] buffer).value =
        (mixLanes Nat.one_pos Nat.two_pos [0, 1] buffer).value := by
  intro buffer
  have hlength : buffer.length = 128 * 1 * 2 :=
    List.length_append.trans (congrArg₂ (· + ·) List.length_replicate List.length_replicate)
  have hindependent := lanesIndependent Nat.one_pos Nat.two_pos hlength
  exact ⟨hlength, hindependent, hindependent.value_eq_sequential [1, 0] (by decide)⟩

end Scrypt

end KeyStretching
