import KeyStretching.Proofs.Buffer
import KeyStretching.Proofs.Pbkdf2.Keying
import KeyStretching.Proofs.Size

/-!
# Overwriting a buffer in place

A key that is made in a given buffer is made piece by piece: one after the other, the pieces of the
buffer are overwritten with as much of their blocks as they have room for (`overwritePiece`). The
run tells the numbers of these blocks (`fillNumbered`), unless they are to be forgotten
(`fillInPlace`). It may end early (`Stop`), because a check or the keying fails, or because a step
has no result, and then the buffer is what it is at that moment.

None of the steps is without a result, and all failures come before the first piece. So the buffer
is overwritten as a whole or left as it is (`AllOrNothing`):

* `run_overwritePieces`: after some of the pieces are overwritten, the buffer starts with as much of
  the key, and behind that it is as it was (`overwriteFirst`), and the numbers are the places of
  these pieces, counted from one (`numberOf`);
* `run_fillNumbered`: the run in place ends as the one that makes all pieces at once, for any
  keying;
* `allOrNothing`: what is left in the buffer is all of the key or nothing of it, whatever the buffer
  held before.
-/

namespace KeyStretching

/-- Why a run on a buffer ends early. -/
inductive Stop where
  /-- A failure is reported. -/
  | failed (cause : Error)
  /-- A step has no result. -/
  | stuck
  deriving DecidableEq, Repr

/-- Goes on with the result of a step, if it has one. -/
def orStuck {m : Type → Type} [Monad m] [MonadExceptOf Stop m] {α : Type} : Option α → m α
  | some x => pure x
  | none => throw .stuck

/-- The buffer is overwritten with the key that is derived for its length, whatever it held before,
    or left as it is where the derivation fails. -/
def AllOrNothing {ε : Type} (fill : EStateM ε Bytes Unit) (derive : Nat → Except ε Bytes) : Prop :=
  ∀ buffer : Bytes,
    (∃ e, derive buffer.length = .error e ∧ fill.run buffer = .error e buffer) ∨
    ∃ key, derive buffer.length = .ok key ∧ key.length = buffer.length ∧
      ∀ buffer' : Bytes, buffer'.length = buffer.length → fill.run buffer' = .ok () key

/-- The number of a block: that of its piece, counted from one. -/
def Size.blockNumber (index : Nat) : Size := count index + count 1

section

variable {w index : Nat} (h : index + 1 < 2 ^ w)

include h

theorem Size.fits_blockNumber : (blockNumber index).Fits w :=
  ⟨Nat.lt_of_succ_lt h, Nat.lt_of_le_of_lt (Nat.le_add_left ..) h, h⟩

theorem Size.checked_blockNumber : (blockNumber index).checked w = some (index + 1) :=
  checked_eq_some_iff.2 ⟨fits_blockNumber h, rfl⟩

end

namespace Pbkdf2

/-- The number of the block for a piece: its place counted from one, cut to a word. -/
def numberOf (index : Nat) : UInt32 := UInt32.ofNat (index + 1)

section

variable {H : HashFunction}

/-- Overwrites the piece of a given place with as much of its block as it has room for, and tells
    the number of the block. -/
def overwritePiece (w : Nat) (prf : H.Keyed) (salt : Bytes) (iterations : UInt32) (index : Nat) :
    EStateM Stop Bytes UInt32 := do
  let buffer ← get
  let counted ← orStuck ((Size.blockNumber index).checked w)
  let number := UInt32.ofNat counted
  let len := min H.outLen (buffer.length - H.outLen * index)
  let given ← orStuck (Buffer.read? 0 len (block prf salt iterations number))
  let written ← orStuck (Buffer.write? (H.outLen * index) len given buffer)
  set written
  return number

/-- Overwrites the first pieces of the buffer, as many as are asked for, and tells the numbers of
    their blocks. -/
def overwritePieces (w : Nat) (prf : H.Keyed) (salt : Bytes) (iterations : UInt32) (count : Nat) :
    EStateM Stop Bytes (List UInt32) :=
  (List.range count).mapM (overwritePiece w prf salt iterations)

end

/-- Overwrites the buffer with a key of its length piece by piece, and tells the numbers of the
    blocks, unless it has to end before. -/
def fillNumbered (w : Nat) (keying : Keying) (a : Algorithm) (password salt : Bytes)
    (iterations : UInt32) : EStateM Stop Bytes (List UInt32) := do
  let buffer ← get
  match checkBounds a iterations buffer.length with
  | .error e => throw (.failed e)
  | .ok () =>
    match keying a.hashFunction password with
    | none => throw (.failed .emptyKey)
    | some prf =>
      let count ← orStuck (Buffer.pieceCount? a.outLen buffer)
      overwritePieces w prf salt iterations count

/-- Overwrites the buffer with a key of its length piece by piece, unless it has to end before. -/
def fillInPlace (w : Nat) (keying : Keying) (a : Algorithm) (password salt : Bytes)
    (iterations : UInt32) : EStateM Stop Bytes Unit :=
  (fun _ => ()) <$> fillNumbered w keying a password salt iterations

/-! ## Piece by piece -/

section

variable {H : HashFunction} (prf : H.Keyed) (salt : Bytes) (iterations : UInt32)

theorem length_chain {links : Nat} {code sum : Bytes} (h : sum.length = H.outLen) :
    (chain prf links code sum).length = H.outLen := by
  induction links generalizing code sum with
  | zero => exact h
  | succ links ih =>
    rw [chain]
    exact ih (by rw [Bytes.length_xor, h, HashFunction.Keyed.length_mac, Nat.min_self])

@[simp] theorem length_block (number : UInt32) :
    (block prf salt iterations number).length = H.outLen :=
  length_chain prf (HashFunction.Keyed.length_mac ..)

/-- The first blocks of a key, as many as are asked for. -/
def blocks (count : Nat) : Bytes :=
  (List.range count).flatMap fun i => block prf salt iterations (numberOf i)

theorem length_blocks (count : Nat) :
    (blocks prf salt iterations count).length = H.outLen * count := by
  rw [blocks, length_flatMap fun _ => length_block .., List.length_range]

/-- The block that one of the pieces is overwritten with. -/
theorem piece_blocks {index count : Nat} (h : index < count) :
    ((blocks prf salt iterations count).drop (H.outLen * index)).take H.outLen =
      block prf salt iterations (numberOf index) := by
  have hpiece := piece_flatMap (fun i => length_block prf salt iterations (numberOf i))
    (List.range count) (by rwa [List.length_range])
  rw [List.getElem_range] at hpiece
  exact hpiece

variable (buffer : Bytes)

/-- Overwriting all pieces at once is cutting the blocks to length. -/
theorem overwrite_eq_take :
    overwrite prf salt iterations buffer =
      (blocks prf salt iterations ((buffer.length + H.outLen - 1) / H.outLen)).take
        buffer.length :=
  flatten_mapIdx_chunks H.outLen_pos (fun _ => length_block ..) buffer

@[simp] theorem length_overwrite :
    (overwrite prf salt iterations buffer).length = buffer.length := by
  rw [overwrite_eq_take, List.length_take, length_blocks]
  exact Nat.min_eq_left (Standard.le_parts H buffer.length)

/-- Nothing of a buffer counts but its length. -/
theorem overwrite_congr_length {buffer buffer' : Bytes} (h : buffer'.length = buffer.length) :
    overwrite prf salt iterations buffer' = overwrite prf salt iterations buffer := by
  rw [overwrite_eq_take, overwrite_eq_take, h]

/-- The buffer after its first pieces are overwritten, as many as are counted. -/
def overwriteFirst (count : Nat) : Bytes :=
  (overwrite prf salt iterations buffer).take (H.outLen * count) ++
    buffer.drop (H.outLen * count)

@[simp] theorem length_overwriteFirst (count : Nat) :
    (overwriteFirst prf salt iterations buffer count).length = buffer.length := by
  rw [overwriteFirst, List.length_append, List.length_take, List.length_drop, length_overwrite]
  omega

@[simp] theorem overwriteFirst_zero : overwriteFirst prf salt iterations buffer 0 = buffer := by
  rw [overwriteFirst, Nat.mul_zero, List.take_zero, List.nil_append, List.drop_zero]

/-- When all pieces are overwritten, so is the buffer. -/
theorem overwriteFirst_all :
    overwriteFirst prf salt iterations buffer ((buffer.length + H.outLen - 1) / H.outLen) =
      overwrite prf salt iterations buffer := by
  have hall := Standard.le_parts H buffer.length
  rw [overwriteFirst, List.drop_eq_nil_of_le hall, List.append_nil,
    List.take_of_length_le (by rwa [length_overwrite])]

variable {buffer} {index : Nat} (h : index < (buffer.length + H.outLen - 1) / H.outLen)

include h

/-- A piece starts within the buffer. -/
theorem start_lt : H.outLen * index < buffer.length := by
  have hpos := H.outLen_pos
  have hstart := (Nat.lt_div_iff_mul_lt hpos).1 h
  rw [Nat.mul_comm] at hstart
  omega

/-- One more piece of the key is as much of its block as there is room for. -/
theorem take_overwrite_succ :
    (overwrite prf salt iterations buffer).take (H.outLen * (index + 1)) =
      (overwrite prf salt iterations buffer).take (H.outLen * index) ++
        (block prf salt iterations (numberOf index)).take
          (min H.outLen (buffer.length - H.outLen * index)) := by
  have hrest : (overwrite prf salt iterations buffer).drop (H.outLen * index) =
      ((blocks prf salt iterations ((buffer.length + H.outLen - 1) / H.outLen)).drop
        (H.outLen * index)).take (buffer.length - H.outLen * index) := by
    rw [overwrite_eq_take, List.drop_take]
  rw [Nat.mul_succ, List.take_add, hrest, List.take_take, ← piece_blocks prf salt iterations h,
    List.take_take, Nat.min_right_comm, Nat.min_self]

/-- Overwriting a piece leaves the others. -/
theorem write?_overwriteFirst :
    Buffer.write? (H.outLen * index) (min H.outLen (buffer.length - H.outLen * index))
        ((block prf salt iterations (numberOf index)).take
          (min H.outLen (buffer.length - H.outLen * index)))
        (overwriteFirst prf salt iterations buffer index) =
      some (overwriteFirst prf salt iterations buffer (index + 1)) := by
  have hstart := start_lt h
  have hfront : ((overwrite prf salt iterations buffer).take (H.outLen * index)).length =
      H.outLen * index := by
    rw [List.length_take, length_overwrite, Nat.min_eq_left hstart.le]
  have hgiven : ((block prf salt iterations (numberOf index)).take
      (min H.outLen (buffer.length - H.outLen * index))).length =
        min H.outLen (buffer.length - H.outLen * index) := by
    rw [List.length_take, length_block, Nat.min_eq_left (Nat.min_le_left ..)]
  have hback : min H.outLen (buffer.length - H.outLen * index) ≤
      (buffer.drop (H.outLen * index)).length := by
    rw [List.length_drop]
    exact Nat.min_le_right ..
  have hwrite : Buffer.write? ((overwrite prf salt iterations buffer).take
      (H.outLen * index)).length _ _ (overwriteFirst prf salt iterations buffer index) = some _ :=
    Buffer.write?_append hgiven hback
  -- Behind the last piece, which may be shorter, nothing is left.
  have hdrop : buffer.drop (H.outLen * index + min H.outLen (buffer.length - H.outLen * index)) =
      buffer.drop (H.outLen * (index + 1)) := by
    rw [List.drop_eq_drop_iff, Nat.mul_succ]
    omega
  rw [hfront, List.drop_drop, hdrop, ← take_overwrite_succ prf salt iterations h] at hwrite
  exact hwrite

/-- A piece is overwritten with as much of its block as there is room for. -/
theorem run_overwritePiece {w : Nat} (hw : index + 1 < 2 ^ w) :
    (overwritePiece w prf salt iterations index).run
        (overwriteFirst prf salt iterations buffer index) =
      .ok (numberOf index) (overwriteFirst prf salt iterations buffer (index + 1)) := by
  have hnumber := Size.checked_blockNumber hw
  have hwrite := write?_overwriteFirst prf salt iterations h
  have hread : Buffer.read? 0 (min H.outLen (buffer.length - H.outLen * index))
      (block prf salt iterations (numberOf index)) =
        some ((block prf salt iterations (numberOf index)).take
          (min H.outLen (buffer.length - H.outLen * index))) := by
    rw [Buffer.read?, if_pos (by rw [length_block]; omega), List.drop_zero]
  rw [numberOf] at hread hwrite
  rw [overwritePiece, EStateM.run_bind, EStateM.run_get]
  simp only [length_overwriteFirst, hnumber, hread, hwrite, orStuck, pure_bind]
  rfl

end

section

variable {H : HashFunction} (prf : H.Keyed) (salt : Bytes) (iterations : UInt32) (buffer : Bytes)

/-- After some of the pieces are overwritten, the buffer starts with as much of the key, and behind
    that it is as it was. The numbers of the blocks are the places of these pieces, counted from
    one. -/
theorem run_overwritePieces {w count : Nat}
    (h : count ≤ (buffer.length + H.outLen - 1) / H.outLen) (hw : count < 2 ^ w) :
    (overwritePieces w prf salt iterations count).run buffer =
      .ok ((List.range count).map numberOf) (overwriteFirst prf salt iterations buffer count) := by
  induction count with
  | zero =>
    rw [overwriteFirst_zero]
    rfl
  | succ count ih =>
    have hfirst := ih (Nat.le_of_succ_le h) (Nat.lt_of_succ_lt hw)
    have hlast := run_overwritePiece prf salt iterations h hw
    rw [overwritePieces] at hfirst ⊢
    rw [List.range_succ, List.mapM_append, EStateM.run_bind, hfirst]
    simp only [List.mapM_cons, List.mapM_nil]
    rw [EStateM.run_bind, EStateM.run_bind, hlast, List.map_append]
    rfl

end

/-! ## All or nothing -/

section

variable (keying : Keying) (a : Algorithm) (password salt : Bytes) (iterations : UInt32)

/-- The buffer is overwritten with the key of its length, or left as it is. -/
theorem allOrNothing_fillWith :
    AllOrNothing (fillWith keying a password salt iterations)
      (deriveWith keying a password salt iterations) := by
  intro buffer
  have hlen : (List.replicate buffer.length (0 : UInt8)).length = buffer.length :=
    List.length_replicate
  cases hbounds : checkBounds a iterations buffer.length with
  | error e =>
    exact .inl ⟨e, by rw [deriveWith, hbounds], by rw [EStateM.run, fillWith, hbounds]⟩
  | ok =>
    cases hkeying : keying a.hashFunction password with
    | none =>
      refine .inl ⟨.emptyKey, ?_, run_fillWith_of_refused salt hkeying hbounds⟩
      rw [deriveWith, hbounds, run_fillWith_of_refused salt hkeying (by rw [hlen, hbounds])]
    | some prf =>
      have hfill {buffer' : Bytes} (h : buffer'.length = buffer.length) :
          (fillWith keying a password salt iterations).run buffer' =
            .ok () (overwrite prf salt iterations buffer) := by
        rw [EStateM.run, fillWith, h, hbounds, hkeying]
        exact congrArg (EStateM.Result.ok ()) (overwrite_congr_length prf salt iterations h)
      exact .inr ⟨overwrite prf salt iterations buffer, by rw [deriveWith, hbounds, hfill hlen],
        length_overwrite .., fun _ => hfill⟩

/-- A key has the length that it is derived for. -/
theorem length_of_deriveWith {keyLen : Nat} {key : Bytes}
    (h : deriveWith keying a password salt iterations keyLen = .ok key) : key.length = keyLen := by
  have hfill := allOrNothing_fillWith keying a password salt iterations (List.replicate keyLen 0)
  rw [List.length_replicate, h] at hfill
  obtain ⟨e, he, -⟩ | ⟨key', hkey, hlength, -⟩ := hfill
  · exact nomatch he
  · rwa [Except.ok.inj hkey]

/-- A run piece by piece ends as the one that makes all pieces at once, and tells a number for each
    of them. -/
theorem run_fillNumbered {w : Nat} (hw : 32 ≤ w) (buffer : Bytes) :
    (fillNumbered w keying a password salt iterations).run buffer =
      match (fillWith keying a password salt iterations).run buffer with
      | .ok () key =>
        .ok ((List.range ((buffer.length + a.outLen - 1) / a.outLen)).map numberOf) key
      | .error e rest => .error (.failed e) rest := by
  rw [fillNumbered, EStateM.run_bind, EStateM.run_get]
  simp only [EStateM.run, fillWith]
  cases hbounds : checkBounds a iterations buffer.length with
  | error e => rfl
  | ok =>
    cases hkeying : keying a.hashFunction password with
    | none => rfl
    | some prf =>
      -- The buffer is not too long for the numbers of the blocks, so it is not for the words.
      have hcount : (buffer.length + a.outLen - 1) / a.outLen < 2 ^ w :=
        (parts_lt (checkBounds_eq_ok_iff.1 hbounds).2).trans_le
          (Nat.pow_le_pow_right Nat.two_pos hw)
      have hpieces : Buffer.pieceCount? a.outLen buffer =
          some ((buffer.length + a.outLen - 1) / a.outLen) := by
        rw [Buffer.pieceCount?, if_neg a.outLen_pos.ne']
      have hrun := run_overwritePieces prf salt iterations buffer (w := w) le_rfl hcount
      rw [overwriteFirst_all] at hrun
      simp only [hpieces, orStuck, pure_bind]
      exact hrun

theorem run_fillInPlace {w : Nat} (hw : 32 ≤ w) (buffer : Bytes) :
    (fillInPlace w keying a password salt iterations).run buffer =
      match (fillWith keying a password salt iterations).run buffer with
      | .ok () key => .ok () key
      | .error e rest => .error (.failed e) rest := by
  rw [fillInPlace, map_eq_pure_bind, EStateM.run_bind, run_fillNumbered _ _ _ _ _ hw]
  cases (fillWith keying a password salt iterations).run buffer with
  | ok => rfl
  | error => rfl

/-- So nothing of a key is left in the buffer, or all of it is. -/
theorem allOrNothing_fillInPlace {w : Nat} (hw : 32 ≤ w) :
    AllOrNothing (fillInPlace w keying a password salt iterations)
      fun keyLen => (deriveWith keying a password salt iterations keyLen).mapError .failed := by
  intro buffer
  obtain ⟨e, hderive, hfill⟩ | ⟨key, hderive, hlen, hfill⟩ :=
    allOrNothing_fillWith keying a password salt iterations buffer
  · exact .inl ⟨.failed e, congrArg (Except.mapError Stop.failed) hderive, by
      rw [run_fillInPlace _ _ _ _ _ hw, hfill]⟩
  · exact .inr ⟨key, congrArg (Except.mapError Stop.failed) hderive, hlen, fun buffer' h => by
      rw [run_fillInPlace _ _ _ _ _ hw, hfill buffer' h]⟩

/-- Whoever derives a key in a buffer is told why it fails and finds the buffer as it was, or finds
    the key that is derived for its length, with no byte of the buffer left: whether the pieces are
    overwritten at once or one after the other, and whatever keys the hash function. -/
theorem allOrNothing :
    AllOrNothing (fill a password salt iterations) (derive a password salt iterations) ∧
      ∀ (w : Nat) (keying : Keying), 32 ≤ w →
        AllOrNothing (fillInPlace w keying a password salt iterations)
          fun keyLen => (deriveWith keying a password salt iterations keyLen).mapError .failed := by
  refine ⟨?_, fun w keying hw => allOrNothing_fillInPlace keying a password salt iterations hw⟩
  have hlawful := Keying.lawful_absorbing
  have hderive : deriveWith Keying.absorbing a password salt iterations =
      derive a password salt iterations := funext (deriveWith_eq hlawful a password salt iterations)
  rw [← fillWith_eq hlawful, ← hderive]
  exact allOrNothing_fillWith Keying.absorbing a password salt iterations

/-- Three bytes that are left as they are after no iteration, and overwritten after one. -/
theorem allOrNothing_three_bytes :
    (fill .hmacSha224 [0x70, 0x77] [] 0).run [1, 2, 3] = .error (.iterationCount 0) [1, 2, 3] ∧
      32 ≤ 32 ∧ ∃ key, derive .hmacSha224 [0x70, 0x77] [] 1 3 = .ok key ∧
        (fillInPlace 32 .absorbing .hmacSha224 [0x70, 0x77] [] 1).run [1, 2, 3] = .ok () key := by
  obtain ⟨hnone, -⟩ := allOrNothing .hmacSha224 [0x70, 0x77] [] 0
  obtain ⟨-, hone⟩ := allOrNothing .hmacSha224 [0x70, 0x77] [] 1
  obtain ⟨e, he, hleft⟩ | ⟨key, hkey, -⟩ := hnone [1, 2, 3]
  case inr => exact nomatch hkey
  obtain rfl : Error.iterationCount 0 = e := Except.error.inj he
  have hderive : derive .hmacSha224 [0x70, 0x77] [] 1 3 = .ok _ :=
    derive_of_le .hmacSha224 [0x70, 0x77] [] (by decide) (by decide)
  refine ⟨hleft, le_rfl, _, hderive, ?_⟩
  rw [← deriveWith_eq Keying.lawful_absorbing] at hderive
  obtain ⟨e, he, -⟩ | ⟨key, hkey, -, hfill⟩ := hone 32 .absorbing le_rfl [1, 2, 3]
  · exact nomatch he.symm.trans (congrArg (Except.mapError Stop.failed) hderive)
  · obtain rfl :=
      Except.ok.inj (hkey.symm.trans (congrArg (Except.mapError Stop.failed) hderive))
    exact hfill [1, 2, 3] rfl

end

end Pbkdf2

end KeyStretching
