import UuuFastboot.Ext4.Alloc
import UuuFastboot.Ext4.Lookup

namespace UuuFastboot.Ext4

open Word Overlay Bytes

theorem testBmap_setBmap {bmap : Buf} {byte bit byte' bit' : Nat} (small : bit < 8) :
    testBmap (setBmap bmap byte bit) byte' bit' =
      (testBmap bmap byte' bit' || (decide (byte' = byte) && decide (bit' = bit))) := by
  have mask : (UInt8.ofNat (2 ^ bit)).toNat = 2 ^ bit := by
    have bound : 2 ^ bit < 2 ^ 8 := Nat.pow_lt_pow_right (by decide) small
    rw [UInt8.toNat_ofNat']
    exact Nat.mod_eq_of_lt bound
  unfold testBmap setBmap
  by_cases here : byte' = byte
  · subst here
    rw [overlay_of_mem (Nat.le_refl _) (by omega), UInt8.toNat_or, Nat.testBit_or, mask, Nat.testBit_two_pow]
    simp only [decide_true, Bool.true_and, eq_comm]
  · rw [decide_eq_false here, Bool.false_and, Bool.or_false]
    congr 2
    rcases Nat.lt_or_gt_of_ne here with before | after
    · exact overlay_of_lt before
    · exact overlay_of_ge after

theorem skipFull_some {bmap : Buf} {left byte k : Nat} (found : skipFull bmap left byte = some k) :
    byte ≤ k ∧ k < byte + left := by
  induction left generalizing byte with
  | zero => cases found
  | succ left ih =>
    rw [skipFull] at found
    split at found
    · obtain ⟨lower, upper⟩ := ih found
      omega
    · cases found
      omega

theorem clearBit_some {bmap : Buf} {byte left bit j : Nat} (found : clearBit bmap byte left bit = some j) :
    j < bit + left ∧ testBmap bmap byte j = false := by
  induction left generalizing bit with
  | zero => cases found
  | succ left ih =>
    rw [clearBit] at found
    split at found
    · obtain ⟨upper, clear⟩ := ih found
      exact ⟨by omega, clear⟩
    · next clear =>
      cases found
      exact ⟨by omega, Bool.eq_false_iff.mpr clear⟩

theorem getNewBlkNo_some {blksz no : Nat} {bmap bmap' : Buf} (taken : getNewBlkNo blksz bmap = some (no, bmap')) :
    ∃ n < 8 * blksz, no = n + (if blksz = 1024 then 1 else 0) ∧ testBmap bmap (n / 8) (n % 8) = false ∧
      bmap' = setBmap bmap (n / 8) (n % 8) := by
  obtain ⟨byte, first, taken⟩ := Option.bind_eq_some_iff.mp taken
  obtain ⟨bit, second, taken⟩ := Option.bind_eq_some_iff.mp taken
  cases taken
  have upper := (skipFull_some first).2
  obtain ⟨small, clear⟩ := clearBit_some second
  rw [Nat.zero_add] at small upper
  have byte_eq : (8 * byte + bit) / 8 = byte := by omega
  have bit_eq : (8 * byte + bit) % 8 = bit := by omega
  exact ⟨8 * byte + bit, by omega, by omega, by rw [byte_eq, bit_eq, clear], by rw [byte_eq, bit_eq]⟩

theorem getNewInodeNo_some {ipg no : Nat} {bmap bmap' : Buf} (bytes : 8 ∣ ipg) (some_inode : 0 < ipg)
    (taken : getNewInodeNo ipg bmap = some (no, bmap')) :
    1 ≤ no ∧ no ≤ ipg ∧ testBmap bmap ((no - 1) / 8) ((no - 1) % 8) = false ∧ bmap' = setBmap bmap ((no - 1) / 8) ((no - 1) % 8) := by
  obtain ⟨byte, first, taken⟩ := Option.bind_eq_some_iff.mp taken
  split at taken
  · cases taken
  · next inside =>
    obtain ⟨bit, second, taken⟩ := Option.bind_eq_some_iff.mp taken
    cases taken
    obtain ⟨small, clear⟩ := clearBit_some second
    rw [Nat.zero_add] at small
    have byte_eq : (8 * byte + bit + 1 - 1) / 8 = byte := by omega
    have bit_eq : (8 * byte + bit + 1 - 1) % 8 = bit := by omega
    exact ⟨by omega, by omega, by rw [byte_eq, bit_eq, clear], by rw [byte_eq, bit_eq]⟩

theorem resetBmap_setBmap {bmap : Buf} {byte bit : Nat} (small : bit < 8) (clear : testBmap bmap byte bit = false) :
    resetBmap (setBmap bmap byte bit) byte bit = bmap := by
  have bits : ∀ (n : Fin 256) (j : Fin 8), n.val.testBit j = false →
      (UInt8.ofNat n ||| UInt8.ofNat (2 ^ j.val)) &&& ~~~ UInt8.ofNat (2 ^ j.val) = UInt8.ofNat n := by decide +kernel
  funext a
  unfold resetBmap setBmap overlay
  split_ifs with here
  · rw [Nat.sub_self] at *
    obtain rfl : a = byte := by omega
    have byte := bits ⟨(bmap a).toNat, (bmap a).toNat_lt⟩ ⟨bit, small⟩ clear
    rwa [UInt8.ofNat_toNat] at byte
  all_goals first | rfl | omega

/-- The two layouts: blocks of 1 KiB, with one in front of the first group, or larger ones of up to 64 KiB. A group has as many blocks as
a block has bits. -/
structure BlockLayout where
  bs : Nat
  first : Nat
  sizes : (bs = 1024 ∧ first = 1) ∨ (1024 < bs ∧ bs ≤ 2 ^ 16 ∧ first = 0)

namespace BlockLayout

variable (l : BlockLayout)

def groupOf (b : Nat) : Nat := (b - l.first) / (8 * l.bs)

def bitOf (b : Nat) : Nat := (b - l.first) % (8 * l.bs)

variable {l}

theorem groupOf_bit {i n : Nat} (below : n < 8 * l.bs) :
    l.groupOf (n + l.first + i * l.bs * 8) = i ∧ l.bitOf (n + l.first + i * l.bs * 8) = n := by
  have place : n + l.first + i * l.bs * 8 - l.first = n + i * (8 * l.bs) := by
    rw [show i * (8 * l.bs) = i * l.bs * 8 by ring]
    omega
  unfold groupOf bitOf
  rw [place, Nat.add_mul_div_right _ _ (by omega), Nat.add_mul_mod_self_right, Nat.div_eq_of_lt below,
    Nat.mod_eq_of_lt below, Nat.zero_add]
  exact ⟨rfl, rfl⟩

theorem eq_of_bit {b : Nat} (lower : l.first ≤ b) : b = l.bitOf b + l.first + l.groupOf b * l.bs * 8 := by
  have whole := Nat.div_add_mod' (b - l.first) (8 * l.bs)
  unfold groupOf bitOf
  rw [show (b - l.first) / (8 * l.bs) * l.bs * 8 = (b - l.first) / (8 * l.bs) * (8 * l.bs) by ring]
  omega

theorem blockBit_eq {b : Nat} (lower : l.first ≤ b) :
    blockBit l.bs b (l.groupOf b) = (l.bitOf b / 8, l.bitOf b % 8) := by
  have whole := eq_of_bit lower
  have sizes := l.sizes
  unfold blockBit
  generalize l.groupOf b * l.bs = q at whole ⊢
  generalize l.bitOf b = r at whole ⊢
  simp only
  split_ifs <;> simp only [Prod.mk.injEq] <;> omega

theorem groupOfBlock_eq {fs : Fs} {b : Nat} (size : fs.blksz = l.bs)
    (perGroup : Sblock.blocksPerGroup fs.root.sblock = 8 * l.bs) (lower : l.first ≤ b) (word : b < 2 ^ 32) :
    groupOfBlock fs b = l.groupOf b := by
  have sizes := l.sizes
  have positive : 0 < 8 * l.bs := by omega
  have whole := Nat.div_add_mod b (8 * l.bs)
  have bound : b / (8 * l.bs) ≤ b := Nat.div_le_self _ _
  simp only [groupOfBlock, size, perGroup]
  unfold groupOf
  rcases sizes with ⟨small, first⟩ | ⟨large, -, first⟩
  · rw [small] at whole bound ⊢
    rw [first] at lower ⊢
    split
    · next last =>
      unfold w32 minusOne
      omega
    · omega
  · rw [if_neg (by omega), first, Nat.sub_zero]

end BlockLayout

namespace Geometry

variable (g : Geometry)

def groupOf (b : Nat) : Nat := (b - g.firstDataBlock) / g.blocksPerGroup

def bitOf (b : Nat) : Nat := (b - g.firstDataBlock) % g.blocksPerGroup

def bitmapEnd : Nat := g.firstDataBlock + g.groups * g.blocksPerGroup

def marked (bmaps : Nat → Buf) (b : Nat) : Bool := testBmap (bmaps (g.groupOf b)) (g.bitOf b / 8) (g.bitOf b % 8)

def inodeMarked (bmaps : Nat → Buf) (ino : Nat) : Bool :=
  testBmap (bmaps ((ino - 1) / g.inodesPerGroup)) ((ino - 1) % g.inodesPerGroup / 8)
    ((ino - 1) % g.inodesPerGroup % 8)

variable {g} {env : Env} (valid : g.Valid env)
include valid

theorem Valid.groupOf_lt {b : Nat} (inside : b < g.bitmapEnd) : g.groupOf b < g.groups := by
  have positive := valid.groups_pos
  have perGroup := valid.perGroup_pos
  unfold bitmapEnd at inside
  refine Nat.div_lt_of_lt_mul ?_
  have many : 0 < g.groups * g.blocksPerGroup := Nat.mul_pos positive perGroup
  rw [Nat.mul_comm]
  omega

theorem Valid.lt_bitmapEnd {b : Nat} (below : g.groupOf b < g.groups) : b < g.bitmapEnd := by
  have inside := (Nat.div_lt_iff_lt_mul valid.perGroup_pos).mp below
  unfold bitmapEnd
  omega

theorem Valid.total_le_bitmapEnd : g.totalBlocks ≤ g.bitmapEnd := by
  have nonempty := valid.nonempty
  have positive := valid.perGroup_pos
  have rounded : g.totalBlocks - g.firstDataBlock ≤ g.groups * g.blocksPerGroup := by
    have key := Nat.lt_div_mul_add (a := g.totalBlocks - g.firstDataBlock + g.blocksPerGroup - 1) positive
    rw [← groups] at key
    omega
  unfold bitmapEnd
  omega

theorem Valid.bitmapEnd_lt : g.bitmapEnd < 2 ^ 31 + 2 ^ 16 := by
  have total := valid.total_lt
  have first := valid.first_le
  have nonempty := valid.nonempty
  have perGroup := valid.perGroup
  have size := valid.bs_le
  have rounded : g.groups * g.blocksPerGroup ≤ g.totalBlocks - g.firstDataBlock + g.blocksPerGroup - 1 :=
    Nat.div_mul_le_self _ _
  unfold bitmapEnd
  omega

theorem Valid.groups_lt : g.groups < 2 ^ 31 := by
  have upper := valid.bitmapEnd_lt
  have perGroup := valid.perGroup
  have size := valid.bs_ge
  unfold bitmapEnd at upper
  have many : g.groups * 2 ≤ g.groups * g.blocksPerGroup := Nat.mul_le_mul_left _ (by omega)
  omega

def Valid.layout : BlockLayout where
  bs := g.bs
  first := g.firstDataBlock
  sizes := by
    have first := valid.first_eq
    have size := valid.bs_ge
    have most := valid.bs_le
    split at first <;> omega

theorem Valid.groupOf_bit {i n : Nat} (below : n < 8 * g.bs) :
    g.groupOf (n + g.firstDataBlock + i * g.bs * 8) = i ∧ g.bitOf (n + g.firstDataBlock + i * g.bs * 8) = n := by
  have place := @BlockLayout.groupOf_bit valid.layout i n below
  unfold groupOf bitOf
  rwa [valid.perGroup]

theorem Valid.blockBit_eq {b : Nat} (lower : g.firstDataBlock ≤ b) :
    blockBit g.bs b (g.groupOf b) = (g.bitOf b / 8, g.bitOf b % 8) := by
  unfold groupOf bitOf
  rw [valid.perGroup]
  exact valid.layout.blockBit_eq lower

theorem Valid.groupOfBlock_eq {fs : Fs} {b : Nat} (has : fs.root.Has g) (size : fs.blksz = g.bs) (word : b < 2 ^ 32)
    (below : groupOfBlock fs b < g.groups) : g.firstDataBlock ≤ b ∧ groupOfBlock fs b = g.groupOf b := by
  have perGroup := valid.perGroup
  have first := valid.first_eq
  have groups := valid.groups_lt
  have positive := valid.perGroup_pos
  have whole := Nat.div_add_mod b g.blocksPerGroup
  have rest := Nat.mod_lt b positive
  have bound : b / g.blocksPerGroup ≤ b := Nat.div_le_self _ _
  simp only [groupOfBlock, has.perGroup, size] at below ⊢
  unfold groupOf
  by_cases small : g.bs = 1024
  · rw [if_pos small] at first
    split at below
    · next last =>
      have some_group : b / g.blocksPerGroup ≠ 0 := by
        intro zero
        rw [zero] at below
        unfold w32 minusOne at below
        omega
      obtain ⟨q, quotient⟩ := Nat.exists_eq_succ_of_ne_zero some_group
      rw [quotient, Nat.mul_succ, last.2] at whole
      rw [if_pos last, quotient, first, show w32 (q + 1 + minusOne) = q by unfold w32 minusOne; omega]
      refine ⟨by omega, ?_⟩
      rw [show b - 1 = g.blocksPerGroup - 1 + g.blocksPerGroup * q by omega, Nat.add_mul_div_left _ _ positive,
        Nat.div_eq_of_lt (Nat.sub_one_lt positive.ne'), Nat.zero_add]
    · next other =>
      have some_bit : b % g.blocksPerGroup ≠ 0 := fun zero => other ⟨small, zero⟩
      have one : 1 ≤ b := by
        by_contra zero
        rw [show b = 0 by omega, Nat.zero_mod] at some_bit
        exact some_bit rfl
      have inside : b % g.blocksPerGroup - 1 < g.blocksPerGroup := by omega
      rw [if_neg other, first]
      refine ⟨one, ?_⟩
      rw [show b - 1 = b % g.blocksPerGroup - 1 + g.blocksPerGroup * (b / g.blocksPerGroup) by omega,
        Nat.add_mul_div_left _ _ positive, Nat.div_eq_of_lt inside, Nat.zero_add]
  · rw [if_neg small] at first
    rw [if_neg (fun both => small both.1), first, Nat.sub_zero]
    exact ⟨Nat.zero_le _, rfl⟩

end Geometry

/-- A descriptor that names the blocks of another one, with no flag that the other has not. -/
structure Desc.Follows (gdsize : Nat) (gd gd' : Buf) : Prop where
  places : ∀ i, i < 12 ∨ gdsize = 64 ∧ 32 ≤ i ∧ i < 44 → gd' i = gd i
  flags : ∀ bit, hasBit (Desc.bgFlags gd') bit = true → hasBit (Desc.bgFlags gd) bit = true

namespace Desc.Follows

variable {gdsize : Nat} {gd gd' gd'' : Buf}

theorem refl (gd : Buf) : Follows gdsize gd gd := ⟨fun _ _ => rfl, fun _ set_ => set_⟩

theorem trans (first : Follows gdsize gd gd') (second : Follows gdsize gd' gd'') : Follows gdsize gd gd'' :=
  ⟨fun i inside => (second.places i inside).trans (first.places i inside),
    fun bit set_ => first.flags bit (second.flags bit set_)⟩

theorem of_bytes (size : gdsize = 32 ∨ gdsize = 64) (same : ∀ k < gdsize, gd' k = gd k) : Follows gdsize gd gd' := by
  refine ⟨fun k inside => same k (by omega), fun bit set_ => ?_⟩
  rwa [bgFlags, getLe16_congr (fun k below => same _ (by omega))] at set_

theorem wide32_eq {low high : Nat} (follows : Follows gdsize gd gd') (lower : low + 4 ≤ 12)
    (upper : 32 ≤ high ∧ high + 4 ≤ 44) : Desc.wide32 gdsize gd' low high = Desc.wide32 gdsize gd low high := by
  have first : getLe32 gd' low = getLe32 gd low :=
    getLe32_congr (fun i below => follows.places _ (Or.inl (by omega)))
  unfold Desc.wide32
  rw [first]
  split
  · next long =>
    rw [getLe32_congr (fun i below => follows.places _ (Or.inr ⟨long, by omega⟩))]
  · rfl

theorem blockId (follows : Follows gdsize gd gd') : Desc.blockId gdsize gd' = Desc.blockId gdsize gd :=
  follows.wide32_eq (by decide) (by decide)

theorem inodeId (follows : Follows gdsize gd gd') : Desc.inodeId gdsize gd' = Desc.inodeId gdsize gd :=
  follows.wide32_eq (by decide) (by decide)

theorem inodeTableId (follows : Follows gdsize gd gd') : Desc.inodeTableId gdsize gd' = Desc.inodeTableId gdsize gd :=
  follows.wide32_eq (by decide) (by decide)

theorem putLe16 (gd : Buf) {o : Nat} (v : Nat) (apart : 12 ≤ o ∧ o + 2 ≤ 18 ∨ 20 ≤ o ∧ o + 2 ≤ 32 ∨ 44 ≤ o) :
    Follows gdsize gd (Bytes.putLe16 gd o v) := by
  have other : ∀ i, i < o ∨ o + 2 ≤ i → Bytes.putLe16 gd o v i = gd i := by
    rintro i (before | after)
    · exact overlay_of_lt before
    · exact overlay_of_ge after
  refine ⟨fun i inside => other i (by omega), fun bit set_ => ?_⟩
  rwa [bgFlags, getLe16_congr (fun i below => other (18 + i) (by omega))] at set_

theorem putWide16 (gd : Buf) {low high : Nat} (v : Nat) (lower : 12 ≤ low ∧ low + 2 ≤ 18 ∨ 20 ≤ low ∧ low + 2 ≤ 32)
    (upper : 44 ≤ high) : Follows gdsize gd (Desc.putWide16 gdsize gd low high v) := by
  have first : Follows gdsize gd (Bytes.putLe16 gd low v) := putLe16 gd v (by omega)
  unfold Desc.putWide16
  simp only
  split
  · exact first.trans (putLe16 _ _ (by omega))
  · exact first

theorem clearFlag {bit : Nat} (set_ : hasBit (bgFlags gd) bit = true) :
    Follows gdsize gd (bgClearFlag gd bit) ∧ hasBit (bgFlags (bgClearFlag gd bit)) bit = false := by
  have small : bgFlags gd - 2 ^ bit < 2 ^ 16 := (Nat.sub_le _ _).trans_lt (getLe16_lt _ _)
  have flags : bgFlags (bgClearFlag gd bit) = bgFlags gd - 2 ^ bit := by
    rw [bgFlags, bgClearFlag, getLe16_putLe16, Nat.mod_eq_of_lt small]
  refine ⟨⟨fun i inside => ?_, fun other set' => ?_⟩, ?_⟩
  · rcases inside with before | ⟨-, after⟩
    · exact overlay_of_lt (by omega)
    · exact overlay_of_ge (by omega)
  · rw [flags, hasBit, testBit_sub_two_pow set_] at set'
    exact (Bool.and_eq_true_iff.mp set').2
  · rw [flags, hasBit, testBit_sub_two_pow set_]
    simp

end Desc.Follows

theorem Fs.groupDescriptor_putDescriptor {fs : Fs} {i j o : Nat} (gd : Buf) (inside : o < fs.root.gdsize) :
    (fs.putDescriptor i gd).groupDescriptor j o = if j = i then gd o else fs.groupDescriptor j o := by
  show overlay fs.gdtable (i * fs.root.gdsize) fs.root.gdsize gd (j * fs.root.gdsize + o) = _
  by_cases same : j = i
  · subst same
    rw [if_pos rfl, overlay_of_mem (by omega) (by omega), Nat.add_sub_cancel_left]
  · rw [if_neg same]
    rcases Nat.lt_or_gt_of_ne same with before | after
    · have step : (j + 1) * fs.root.gdsize ≤ i * fs.root.gdsize := Nat.mul_le_mul_right _ before
      rw [Nat.add_mul, Nat.one_mul] at step
      exact overlay_of_lt (by omega)
    · have step : (i + 1) * fs.root.gdsize ≤ j * fs.root.gdsize := Nat.mul_le_mul_right _ after
      rw [Nat.add_mul, Nat.one_mul] at step
      exact overlay_of_ge (by omega)

/-- The groups have the same blocks in both states, and no flag is new. -/
def Fs.Descends (fs fs' : Fs) : Prop :=
  fs'.root = fs.root ∧ ∀ j, Desc.Follows fs.root.gdsize (fs.groupDescriptor j) (fs'.groupDescriptor j)

theorem Fs.Descends.refl (fs : Fs) : fs.Descends fs := ⟨rfl, fun _ => .refl _⟩

theorem Fs.Descends.trans {fs fs' fs'' : Fs} (first : fs.Descends fs') (second : fs'.Descends fs'') :
    fs.Descends fs'' := by
  refine ⟨second.1.trans first.1, fun j => (first.2 j).trans ?_⟩
  have further := second.2 j
  rwa [first.1] at further

theorem Fs.putDescriptor_descends {fs : Fs} {i : Nat} {gd : Buf} (size : fs.root.gdsize = 32 ∨ fs.root.gdsize = 64)
    (follows : Desc.Follows fs.root.gdsize (fs.groupDescriptor i) gd) : fs.Descends (fs.putDescriptor i gd) := by
  refine ⟨rfl, fun j => ⟨fun o inside => ?_, fun bit set_ => ?_⟩⟩
  · rw [Fs.groupDescriptor_putDescriptor gd (by omega)]
    split
    · next same =>
      subst same
      exact follows.places o inside
    · rfl
  · rw [Desc.bgFlags, getLe16_congr (c := if j = i then gd else fs.groupDescriptor j) (p := 18) (fun o below => by
      rw [Fs.groupDescriptor_putDescriptor gd (by omega)]
      split <;> rfl)] at set_
    split at set_
    · next same =>
      subst same
      exact follows.flags bit set_
    · exact set_

theorem Fs.bgFlags_putDescriptor {fs : Fs} (i : Nat) (gd : Buf) (size : fs.root.gdsize = 32 ∨ fs.root.gdsize = 64) :
    Desc.bgFlags ((fs.putDescriptor i gd).groupDescriptor i) = Desc.bgFlags gd :=
  getLe16_congr (fun o below => by rw [Fs.groupDescriptor_putDescriptor gd (by omega), if_pos rfl])

end UuuFastboot.Ext4
