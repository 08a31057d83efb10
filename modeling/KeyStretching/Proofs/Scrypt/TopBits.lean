import KeyStretching.Proofs.RoMix
import KeyStretching.Proofs.Salsa.Inverse

/-!
# Top bits that make no difference

Flipping the top bits of two words does not change their sum, as what is carried out of the top is
dropped. All that the rounds do with the words of a block is to add two of them, and to take the
sum into a third. So with the top bits of all sixteen words flipped, a block comes out of the
rounds as it would otherwise, with the top bits flipped (`rounds_xor_topBits`); and when the two
are added, there is no difference left (`core_xor_topBits`). The core is not injective, though the
rounds are.

Blocks which are equal or differ in those bits are twins (`Block.Twin`). What the core makes of
twins is equal, and the exclusive or of twins are twins. So nothing in the mixing of a lane depends
on which of two twins any of its blocks is (`blockMix_eq_of_twin`), and neither does what becomes of
it in memory: the lane is kept there before it is first mixed, but whenever that place is revisited,
it is mixed again before anything is seen of it (`mixLane_eq_of_twin`). `topBits_lost` says so for
the functions on bytes.
-/

namespace KeyStretching

open Standard (piece)

/-! ## Words -/

/-- Flipping the top bit of a word is adding it. -/
theorem xor_topBit (x : UInt32) : x ^^^ 0x80000000 = x + 0x80000000 := by
  have hx : x.toNat < 2 ^ 32 := x.toNat_lt
  have hhigh : (x.toNat ^^^ 2 ^ 31) / 2 ^ 31 = x.toNat / 2 ^ 31 ^^^ 1 := by
    rw [Nat.xor_div_two_pow, Nat.div_self (by decide)]
  have hlow : (x.toNat ^^^ 2 ^ 31) % 2 ^ 31 = x.toNat % 2 ^ 31 := by
    rw [Nat.xor_mod_two_pow, Nat.mod_self, Nat.xor_zero]
  have htop : x.toNat / 2 ^ 31 = 0 ∨ x.toNat / 2 ^ 31 = 1 := by omega
  apply UInt32.toNat_inj.1
  rw [UInt32.toNat_xor, UInt32.toNat_add]
  change x.toNat ^^^ 2 ^ 31 = (x.toNat + 2 ^ 31) % 2 ^ 32
  -- Above the bits that stay as they are, there is only the one that is flipped.
  rcases htop with htop | htop
  · have hflip : (x.toNat ^^^ 2 ^ 31) / 2 ^ 31 = 1 := by rw [hhigh, htop]; rfl
    omega
  · have hflip : (x.toNat ^^^ 2 ^ 31) / 2 ^ 31 = 0 := by rw [hhigh, htop]; rfl
    omega

/-- The top bits of two words may be flipped without changing their sum. -/
theorem add_xor_topBit (x y : UInt32) : (x ^^^ 0x80000000) + (y ^^^ 0x80000000) = x + y := by
  have htwice : (0x80000000 : UInt32) + 0x80000000 = 0 := by decide
  calc (x ^^^ 0x80000000) + (y ^^^ 0x80000000) = x + (0x80000000 + (0x80000000 + y)) := by
        rw [xor_topBit, xor_topBit, UInt32.add_assoc, UInt32.add_comm y]
    _ = x + y := by rw [← UInt32.add_assoc 0x80000000, htwice, UInt32.zero_add]

/-! ## Blocks -/

namespace Block

/-- The top bits of all words. -/
def topBits : Block := Vector.replicate 16 0x80000000

theorem xor_topBits (x : Block) : x.xor topBits = x.map (· ^^^ 0x80000000) := by
  refine Vector.ext fun k hk => ?_
  simp [xor, topBits]

theorem xor_comm (x y : Block) : x.xor y = y.xor x := by
  refine Vector.ext fun k hk => ?_
  simp [xor, UInt32.xor_comm]

theorem xor_assoc (x y z : Block) : (x.xor y).xor z = x.xor (y.xor z) := by
  refine Vector.ext fun k hk => ?_
  simp [xor, UInt32.xor_assoc]

theorem xor_topBits_xor_topBits (x : Block) : (x.xor topBits).xor topBits = x := by
  have htwice (word : UInt32) : word ^^^ 0x80000000 ^^^ 0x80000000 = word := by
    rw [UInt32.xor_assoc, UInt32.xor_self, UInt32.xor_zero]
  rw [xor_topBits, xor_topBits]
  refine Vector.ext fun k hk => ?_
  rw [Vector.getElem_map, Vector.getElem_map, htwice]

end Block

namespace Salsa

open Block (topBits xor_topBits)

/-- An update flips the top bits of what it makes of a block when those of the block are flipped. -/
theorem update_xor_topBits (x : Block) (b a d : Fin 16) (k : UInt32) :
    update (x.xor topBits) b a d k = Block.xor (update x b a d k) topBits := by
  have hword (i : Fin 16) : (x.map (· ^^^ 0x80000000))[i] = x[i] ^^^ 0x80000000 :=
    Vector.getElem_map _ _
  rw [xor_topBits, xor_topBits, update, update, Vector.map_set, hword, hword, hword,
    add_xor_topBit, UInt32.xor_assoc, UInt32.xor_assoc, UInt32.xor_comm 0x80000000]

theorem quarterRoundAt_xor_topBits (x : Block) (q : Fin 4 → Fin 16) :
    quarterRoundAt (x.xor topBits) q = (quarterRoundAt x q).xor topBits :=
  List.foldl_hom (Block.xor · topBits) fun x i =>
    update_xor_topBits x (q (finRotate 4 i)) (q i) (q ((finRotate 4).symm i)) (turn i)

/-- The rounds pass on flipped top bits, and do nothing else with them. -/
theorem rounds_xor_topBits (x : Block) : rounds (x.xor topBits) = (rounds x).xor topBits := by
  rw [rounds_eq_foldl, rounds_eq_foldl]
  exact List.foldl_hom (Block.xor · topBits) quarterRoundAt_xor_topBits

/-- To the core, flipped top bits make no difference. -/
theorem core_xor_topBits (x : Block) : core (x.xor topBits) = core x := by
  rw [core, rounds_xor_topBits, core, xor_topBits, xor_topBits]
  refine Vector.ext fun k hk => ?_
  simp only [Block.add, Vector.getElem_zipWith, Vector.getElem_map, add_xor_topBit]

end Salsa

/-! ## Twins -/

/-- Equal blocks, or blocks that differ in the top bits of all words. -/
def Block.Twin (x y : Block) : Prop := y = x ∨ y = x.xor topBits

namespace Block.Twin

variable {x y u v : Block}

/-- The core makes the same of twins. -/
theorem core_eq (h : Twin x y) : Salsa.core x = Salsa.core y := by
  rcases h with rfl | rfl
  · rfl
  · exact (Salsa.core_xor_topBits x).symm

theorem xor (hxy : Twin x y) (huv : Twin u v) : Twin (x.xor u) (y.xor v) := by
  rcases hxy with rfl | rfl <;> rcases huv with rfl | rfl
  · exact .inl rfl
  · exact .inr (xor_assoc ..).symm
  · exact .inr (by rw [xor_assoc, xor_comm topBits, ← xor_assoc])
  · -- What is flipped twice is as it was.
    refine .inl ?_
    rw [← xor_assoc, xor_assoc x, xor_comm topBits, ← xor_assoc, xor_topBits_xor_topBits]

end Block.Twin

/-- Lanes whose blocks are twins, each of the other. -/
def Lane.Twin {r : Nat} (x y : Lane r) : Prop := ∀ i (hi : i < 2 * r), Block.Twin x[i] y[i]

section

variable {r n : Nat} (hr : 0 < r) {x y : Lane r}

theorem Lane.Twin.refl (x : Lane r) : Twin x x := fun _ _ => .inl rfl

theorem Lane.Twin.xor {u v : Lane r} (hxy : Twin x y) (huv : Twin u v) :
    Twin (x.xor u) (y.xor v) := by
  intro i hi
  rw [Lane.xor, Lane.xor, Vector.getElem_zipWith, Vector.getElem_zipWith]
  exact (hxy i hi).xor (huv i hi)

/-- The same becomes of twins when they are mixed. -/
theorem blockMix_eq_of_twin (h : x.Twin y) (output : Lane r) :
    blockMix hr x output = blockMix hr y output :=
  Vector.ext fun _ hk => blockMix_related hr (R := Block.Twin) (S := Eq) h
    (fun hxy huv => (hxy.xor huv).core_eq) (fun heq => .inl heq.symm) output output hk

theorem Lane.Twin.mix_eq (h : x.Twin y) : x.mix hr = y.mix hr :=
  (blockMix_eq_of_twin hr h x).trans (blockMix_congr hr y x y)

/-- Twins are equal once they are mixed, and twins before that. -/
theorem Lane.Twin.iterate_mix (h : x.Twin y) (i : Nat) :
    Twin ((Lane.mix hr)^[i] x) ((Lane.mix hr)^[i] y) := by
  cases i with
  | zero => exact h
  | succ i =>
    rw [Function.iterate_succ_apply, Function.iterate_succ_apply, h.mix_eq hr]
    exact .refl _

/-- The same becomes of twins when they are mixed through memory. -/
theorem RoMix.mixLane_eq_of_twin (hn : 0 < n) (h : x.Twin y) :
    mixLane hr hn x = mixLane hr hn y := by
  obtain ⟨m, rfl⟩ : ∃ m, n = m + 1 := ⟨n - 1, by omega⟩
  have hfilled : (Lane.mix hr)^[m + 1] x = (Lane.mix hr)^[m + 1] y := by
    rw [Function.iterate_succ_apply, Function.iterate_succ_apply, h.mix_eq hr]
  -- The block of memory that is selected may be the lane itself, but then it is mixed at once.
  have hstep : (fun z : Lane r => (z.xor ((Lane.mix hr)^[select hr hn z] x)).mix hr) =
      fun z : Lane r => (z.xor ((Lane.mix hr)^[select hr hn z] y)).mix hr := by
    funext z
    exact ((Lane.Twin.refl z).xor (h.iterate_mix hr _)).mix_eq hr
  rw [mixLane_eq_iterate, mixLane_eq_iterate, hfilled, hstep]

end

/-! ## Bytes -/

/-- A byte with its top bit flipped, if its place is that of the last byte of a word. -/
def flipTop (i : Nat) (b : UInt8) : UInt8 := if i % 4 = 3 then b ^^^ 0x80 else b

/-- Sixty-four bytes with the top bits of all words flipped. -/
def flipTops (bytes : Vector UInt8 64) : Vector UInt8 64 := bytes.mapIdx flipTop

/-- The bytes of a lane with the top bits of all words flipped in the blocks of certain numbers. -/
def flipBlocks (marked : Finset Nat) (bytes : Bytes) : Bytes :=
  bytes.mapIdx fun i b => if i / 64 ∈ marked then flipTop i b else b

/-- Flipping the top bits of a block makes another block of it. -/
theorem flipTops_ne (bytes : Vector UInt8 64) : flipTops bytes ≠ bytes := by
  intro h
  have hflip : (flipTops bytes)[3] = bytes[3] ^^^ (0x80 : UInt8) := by simp [flipTops, flipTop]
  have hsame : bytes[3] ^^^ (0x80 : UInt8) = bytes[3] ^^^ 0 := by
    rw [← hflip, h, UInt8.xor_zero]
  exact absurd ((UInt8.xor_right_inj _).1 hsame) (by decide)

/-- The top bit of a word is that of its last byte. -/
theorem littleEndian_xor_topBit (w : UInt32) :
    Bytes.littleEndian 4 (w ^^^ 0x80000000).toNat =
      (Bytes.littleEndian 4 w.toNat).mapIdx flipTop := by
  have htop : Bytes.littleEndian 4 (0x80000000 : UInt32).toNat = [0, 0, 0, 0x80] := by decide
  rw [UInt32.toNat_xor, ← Bytes.littleEndian_xor, htop]
  simp [Bytes.littleEndian, Bytes.xor, flipTop]

/-- The bytes of a block with flipped top bits. -/
theorem Block.toBytes_xor_topBits (x : Block) :
    (x.xor topBits).toBytes = x.toBytes.mapIdx flipTop := by
  have hlength : x.toBytes.length = 4 * 16 := x.length_toBytes
  have hlength' : (x.xor topBits).toBytes.length = 4 * 16 := Block.length_toBytes _
  refine eq_of_piece_eq (by decide) hlength' (by rwa [List.length_mapIdx]) fun k hk => ?_
  have hword : (x.xor topBits)[k] = x[k] ^^^ 0x80000000 := by simp [xor_topBits]
  -- Words are of four bytes, so that the place in the block tells the place in the word.
  have hplace : (fun j => flipTop (4 * k + j)) = flipTop := by
    funext j b
    rw [flipTop, flipTop, Nat.mul_add_mod]
  rw [piece_mapIdx, hplace, piece_toBytes _ hk, piece_toBytes _ hk, hword, littleEndian_xor_topBit]

/-- The lane with the top bits of all words flipped in the blocks of certain numbers. -/
def Lane.flipBlocks {r : Nat} (marked : Finset Nat) (lane : Lane r) : Lane r :=
  lane.mapIdx fun i x => if i ∈ marked then x.xor Block.topBits else x

namespace Lane

variable {r : Nat}

theorem twin_flipBlocks (marked : Finset Nat) (lane : Lane r) :
    Twin lane (lane.flipBlocks marked) := by
  intro i hi
  rw [flipBlocks, Vector.getElem_mapIdx]
  split
  · exact .inr rfl
  · exact .inl rfl

/-- The bytes of a lane with flipped top bits. -/
theorem toBytes_flipBlocks (marked : Finset Nat) (lane : Lane r) :
    (lane.flipBlocks marked).toBytes = KeyStretching.flipBlocks marked lane.toBytes := by
  have hlength : lane.toBytes.length = 64 * (2 * r) := by
    rw [length_toBytes]
    omega
  have hlength' : (lane.flipBlocks marked).toBytes.length = 64 * (2 * r) := by
    rw [length_toBytes]
    omega
  refine eq_of_piece_eq (by decide) hlength' (by rwa [KeyStretching.flipBlocks, List.length_mapIdx])
    fun i hi => ?_
  -- Blocks are of whole words, so that the place in the lane tells the place in the block.
  have hplace : (lane[i].toBytes.mapIdx fun k b =>
      if (64 * i + k) / 64 ∈ marked then flipTop (64 * i + k) b else b) =
      lane[i].toBytes.mapIdx fun k b => if i ∈ marked then flipTop k b else b := by
    refine List.mapIdx_eq_mapIdx_iff.2 fun k hk => ?_
    rw [Block.length_toBytes] at hk
    have hblock : (64 * i + k) / 64 = i := by omega
    have hbyte : (64 * i + k) % 4 = k % 4 := by omega
    rw [hblock, flipTop, flipTop, hbyte]
  rw [KeyStretching.flipBlocks, piece_mapIdx, piece_toBytes _ hi, piece_toBytes _ hi, hplace,
    flipBlocks, Vector.getElem_mapIdx]
  split
  · exact Block.toBytes_xor_topBits _
  · exact List.ext_getElem (by simp) fun _ _ _ => by simp

end Lane

/-! ## What is lost -/

/-- Of 64 bytes with flipped top bits, the block that they spell is that with flipped top bits. -/
theorem Block.ofBytes_flipTops (bytes : Vector UInt8 64) :
    Block.ofBytes (flipTops bytes).toList = (Block.ofBytes bytes.toList).xor topBits := by
  have hflip : (flipTops bytes).toList = bytes.toList.mapIdx flipTop := Vector.toList_mapIdx
  apply Block.toBytes_injective
  rw [toBytes_xor_topBits, toBytes_ofBytes (flipTops bytes).length_toList,
    toBytes_ofBytes bytes.length_toList, hflip]

/-- Of the bytes of a lane with flipped top bits, the lane that they spell is the one with flipped
    top bits. -/
theorem Lane.ofBytes_flipBlocks {r : Nat} (marked : Finset Nat) {bytes : Bytes}
    (h : bytes.length = 128 * r) :
    Lane.ofBytes r (KeyStretching.flipBlocks marked bytes) =
      (Lane.ofBytes r bytes).flipBlocks marked := by
  have h' : (KeyStretching.flipBlocks marked bytes).length = 128 * r := by
    rwa [KeyStretching.flipBlocks, List.length_mapIdx]
  apply Lane.toBytes_injective
  rw [toBytes_flipBlocks, toBytes_ofBytes h, toBytes_ofBytes h']

/-- The mixing function loses the top bits of a block. -/
theorem hash_flipTops (bytes : Vector UInt8 64) :
    Salsa.hash (flipTops bytes) = Salsa.hash bytes := by
  apply Vector.toList_inj.1
  rw [Salsa.hash_eq_core, Salsa.hash_eq_core, Block.ofBytes_flipTops, Salsa.core_xor_topBits]

/-- The top bits of all words of a block are lost in the mixing function, which is not injective
    therefore; and whichever of the blocks of a lane have them flipped, they are lost in its mixing,
    and in its mixing through memory. -/
theorem topBits_lost :
    (∀ bytes : Vector UInt8 64, flipTops bytes ≠ bytes ∧
      Salsa.hash (flipTops bytes) = Salsa.hash bytes) ∧
      ¬ Function.Injective Salsa.hash ∧
      ∀ (r : Nat) (hr : 0 < r) (bytes : Bytes), bytes.length = 128 * r → ∀ marked : Finset Nat,
        (∀ output : Lane r, blockMix hr (Lane.ofBytes r (flipBlocks marked bytes)) output =
          blockMix hr (Lane.ofBytes r bytes) output) ∧
        ∀ (n : Nat) (hn : 0 < n), RoMix.mixBytes hr hn (flipBlocks marked bytes) =
          RoMix.mixBytes hr hn bytes := by
  refine ⟨fun bytes => ⟨flipTops_ne bytes, hash_flipTops bytes⟩, fun hinjective => ?_,
    fun r hr bytes h marked => ?_⟩
  · exact flipTops_ne (Vector.replicate 64 0) (hinjective (hash_flipTops _))
  · have htwin : (Lane.ofBytes r bytes).Twin (Lane.ofBytes r (flipBlocks marked bytes)) := by
      rw [Lane.ofBytes_flipBlocks marked h]
      exact Lane.twin_flipBlocks marked _
    refine ⟨fun output => (blockMix_eq_of_twin hr htwin output).symm, fun n hn => ?_⟩
    rw [RoMix.mixBytes, RoMix.mixBytes, RoMix.mixLane_eq_of_twin hr hn htwin]

/-- The last of two blocks with flipped top bits, which the chain takes in twice. -/
theorem topBits_lost_last_block :
    let bytes : Bytes := List.replicate 128 7
    let blank : Lane 1 := Vector.replicate _ (Vector.replicate _ 0)
    0 < 1 ∧ bytes.length = 128 * 1 ∧ 0 < 2 ∧ flipBlocks {1} bytes ≠ bytes ∧
      blockMix Nat.one_pos (Lane.ofBytes 1 (flipBlocks {1} bytes)) blank =
        blockMix Nat.one_pos (Lane.ofBytes 1 bytes) blank ∧
      RoMix.mixBytes Nat.one_pos Nat.two_pos (flipBlocks {1} bytes) =
        RoMix.mixBytes Nat.one_pos Nat.two_pos bytes := by
  intro bytes blank
  have hlength : bytes.length = 128 * 1 := List.length_replicate
  obtain ⟨hmix, hmemory⟩ := topBits_lost.2.2 1 Nat.one_pos bytes hlength {1}
  exact ⟨Nat.one_pos, hlength, Nat.two_pos, by decide +kernel, hmix blank, hmemory 2 Nat.two_pos⟩

end KeyStretching
