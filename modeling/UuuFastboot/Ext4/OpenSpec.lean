import UuuFastboot.Ext4.Transaction
import UuuFastboot.Ext4.Write

namespace UuuFastboot.Ext4

open Word Overlay Bytes Partial

def Geometry.SameTable (g : Geometry) (V V' : Buf) : Prop :=
  ∀ b, g.gdtBlk ≤ b → b < g.gdtBlk + g.gdtBlocks → g.SameBlock V V' b

section Table

variable {g : Geometry} {env : Env} {V V' : Buf}

theorem Geometry.SameTable.byte (same : g.SameTable V V') {k : Nat} (below : k < g.gdtBlocks * g.bs) :
    V (g.gdtBlk * g.bs + k) = V' (g.gdtBlk * g.bs + k) := by
  have positive := Geometry.bs_pos (g := g)
  have place : g.gdtBlk * g.bs + k = (g.gdtBlk + k / g.bs) * g.bs + k % g.bs := by
    rw [Nat.add_mul, Nat.add_assoc, Nat.div_add_mod']
  rw [place]
  have block : k / g.bs < g.gdtBlocks := (Nat.div_lt_iff_lt_mul positive).mpr below
  exact same _ (Nat.le_add_right _ _) (Nat.add_lt_add_left block _) _ (Nat.mod_lt _ positive)

variable (valid : g.Valid env) (same : g.SameTable V V')
include valid same

omit valid in
theorem Geometry.SameTable.desc {i k : Nat} (below : i < g.groups) (small : k < g.gdsize) :
    g.desc V i k = g.desc V' i k := by
  have inTable := Geometry.Valid.desc_le below
  have byte := same.byte (k := i * g.gdsize + k) (by omega)
  simpa only [Geometry.desc, tail_apply, Nat.add_assoc] using byte

theorem Geometry.SameTable.follows {i : Nat} (below : i < g.groups) :
    Desc.Follows g.gdsize (g.desc V i) (g.desc V' i) :=
  .of_bytes valid.descriptor (fun _ small => (same.desc below small).symm)

theorem Geometry.SameTable.flags {i : Nat} (below : i < g.groups) :
    Desc.bgFlags (g.desc V' i) = Desc.bgFlags (g.desc V i) := by
  have size := valid.descriptor
  exact getLe16_congr (fun k small => (same.desc below (by omega)).symm)

theorem Geometry.SameTable.inodeBlk {ino : Nat} (one : 1 ≤ ino) (bound : ino ≤ g.inodes) :
    g.inodeBlk V' ino = g.inodeBlk V ino := by
  have below : (ino - 1) / g.inodesPerGroup < g.groups := by
    refine Nat.div_lt_of_lt_mul ?_
    rw [Nat.mul_comm]
    exact Nat.lt_of_lt_of_le (by omega) bound
  unfold Geometry.inodeBlk Geometry.itab
  rw [(same.follows valid below).inodeTableId]

theorem Geometry.SameTable.inodeAt {ino : Nat} (one : 1 ≤ ino) (bound : ino ≤ g.inodes)
    (block : g.SameBlock V V' (g.inodeBlk V ino)) : g.inodeAt V' ino = g.inodeAt V ino := by
  have slot := valid.inodeOff_le ino
  unfold Geometry.inodeAt
  rw [same.inodeBlk valid one bound]
  funext i
  unfold clip
  split
  · exact (block _ (by omega)).symm
  · rfl

/-- The areas of a volume are those of every volume with the same group descriptors. -/
def Areas.move (A : Areas g V) : Areas g V' where
  used := A.used
  kept := A.kept
  inodes := A.inodes
  kept_used := A.kept_used
  kept_below := A.kept_below
  zero := A.zero
  padding := A.padding
  blockMap i below := by
    rw [Geometry.bbm, (same.follows valid below).blockId]
    exact A.blockMap i below
  inodeMap i below := by
    rw [Geometry.ibm, (same.follows valid below).inodeId]
    exact A.inodeMap i below
  blankBlocks i below flagged := by
    rw [same.flags valid below] at flagged
    rw [Geometry.bbm, (same.follows valid below).blockId]
    exact A.blankBlocks i below flagged
  blankInodes i below flagged := by
    rw [same.flags valid below] at flagged
    rw [Geometry.ibm, (same.follows valid below).inodeId]
    exact A.blankInodes i below flagged

end Table

section Superblock

variable {env : Env} {g : Geometry} (valid : g.Valid env)
include valid

theorem superblock_inside : g.firstDataBlock * g.bs ≤ superblockSize ∧
    2 * superblockSize ≤ (g.firstDataBlock + 1) * g.bs := by
  have size : superblockSize = 1024 := rfl
  rw [valid.first_eq]
  rcases valid.bs_cases with small | middle | large
  · rw [if_pos small, small, size]
    decide
  · rw [if_neg (by omega), middle, size]
    decide
  · rw [if_neg (by omega), large, size]
    decide

theorem volume_putSb (card buf : Buf) :
    env.volume (putExt4 env card superblockSize buf superblockSize) =
      overlay (env.volume card) superblockSize superblockSize buf := by
  have dvd := devBlksz_dvd_superblockSize valid
  have room := (two_superblocks_le valid).trans valid.inside
  exact volume_putExt4 card buf dvd dvd (by omega)

theorem sameBlock_putSb {V buf : Buf} {b : Nat} (other : b ≠ g.firstDataBlock) :
    g.SameBlock V (overlay V superblockSize superblockSize buf) b := by
  obtain ⟨lower, upper⟩ := superblock_inside valid
  intro i below
  rcases Nat.lt_or_gt_of_ne other with before | after
  · have step : (b + 1) * g.bs ≤ g.firstDataBlock * g.bs := Nat.mul_le_mul_right _ before
    rw [Nat.add_mul, Nat.one_mul] at step
    exact (overlay_of_lt (by omega)).symm
  · have step : (g.firstDataBlock + 1) * g.bs ≤ b * g.bs := Nat.mul_le_mul_right _ after
    exact (overlay_of_ge (by omega)).symm

end Superblock

def sbOf (V : Buf) : Buf := clip superblockSize (tail V superblockSize)

def flaggedVolume (V : Buf) : Buf := overlay V superblockSize superblockSize (putRecover (sbOf V) true)

theorem sbOf_flagged (V : Buf) : sbOf (flaggedVolume V) = putRecover (sbOf V) true := by
  funext o
  rw [sbOf]
  by_cases below : o < superblockSize
  · rw [clip_of_lt below, tail_apply, flaggedVolume, overlay_of_mem (by omega) (by omega), Nat.add_sub_cancel_left]
  · have size : superblockSize = 1024 := rfl
    rw [clip, if_neg below, putRecover, putLe32_of_ge (by omega), sbOf, clip, if_neg below]

theorem featureIncompat_putRecover {sb : Buf} (clear : hasBit (Sblock.featureIncompat sb) incompatRecover = false) :
    Sblock.featureIncompat (putRecover sb true) = 2 ^ incompatRecover + Sblock.featureIncompat sb := by
  have small : Sblock.featureIncompat sb < 2 ^ 32 := getLe32_lt _ _
  have bit := clear
  rw [hasBit, Nat.testBit_eq_decide_div_mod_eq, decide_eq_false_iff_not] at bit
  unfold incompatRecover at bit
  rw [putRecover]
  simp only [clear, Bool.false_eq_true, if_false, if_true]
  show getLe32 (putLe32 sb 96 _) 96 = _
  rw [getLe32_putLe32, Nat.add_comm]
  exact Nat.mod_eq_of_lt (by unfold incompatRecover; omega)

theorem putRecover_putRecover {sb : Buf} (clear : hasBit (Sblock.featureIncompat sb) incompatRecover = false) :
    putRecover (putRecover sb true) false = sb := by
  have flags := featureIncompat_putRecover clear
  have set_ : hasBit (Sblock.featureIncompat (putRecover sb true)) incompatRecover = true := by
    rw [flags, hasBit, Nat.testBit_two_pow_add_eq]
    rw [hasBit] at clear
    rw [clear]
    rfl
  have restored : putRecover (putRecover sb true) false = putLe32 (putRecover sb true) 96 (Sblock.featureIncompat sb) := by
    rw [putRecover]
    simp only [set_, Bool.false_eq_true, if_false, if_true]
    rw [flags, Nat.add_sub_cancel_left]
  rw [restored]
  funext o
  by_cases field : 96 ≤ o ∧ o < 96 + 4
  · obtain ⟨i, rfl⟩ : ∃ i, o = 96 + i := ⟨o - 96, by omega⟩
    rw [putLe32, overlay_of_mem (by omega) (by omega), Nat.add_sub_cancel_left, Sblock.featureIncompat,
      leByte_getLe32 sb 96 (by omega)]
  · have other {b : Buf} {v : Nat} : putLe32 b 96 v o = b o := by
      rcases Nat.lt_or_ge o 96 with before | after
      · exact putLe32_of_lt before
      · exact putLe32_of_ge (by omega)
    rw [other, putRecover, other]

/-- Two volumes differ in the superblock's block and the block `j` only. -/
def Geometry.Beside (g : Geometry) (j : Nat) (V V' : Buf) : Prop :=
  ∀ b, b ≠ g.firstDataBlock → b ≠ j → g.SameBlock V V' b

structure JournalThere (env : Env) (g : Geometry) (V inode : Buf) (S : Nat → Prop) (J : Nat → Nat) (n : Nat) :
    Prop where
  file : JournalFile env g V inode S J n
  inode : g.inodeAt V journalIno = inode
  nonempty : 0 < n

/-- Nothing that leads to the first block `J 0` of the journal lies in that block or in the one of the superblock. -/
structure JournalApart (env : Env) (g : Geometry) (V inode : Buf) (S : Nat → Prop) (J : Nat → Nat) (n : Nat) : Prop
    extends JournalThere env g V inode S J n where
  map : ∀ x, S x → x ≠ g.firstDataBlock ∧ x ≠ J 0
  inodeBlk : g.inodeBlk V journalIno ≠ g.firstDataBlock ∧ g.inodeBlk V journalIno ≠ J 0
  first : J 0 ≠ g.firstDataBlock
  there : J 0 ≠ 0
  table : J 0 < g.gdtBlk ∨ g.gdtBlk + g.gdtBlocks ≤ J 0

theorem Geometry.Beside.table {g : Geometry} {j : Nat} {V V' : Buf} (beside : g.Beside j V V')
    (apart : j < g.gdtBlk ∨ g.gdtBlk + g.gdtBlocks ≤ j) : g.SameTable V V' := by
  intro b lower upper
  refine beside b (fun here => ?_) (fun here => by omega)
  unfold Geometry.gdtBlk at lower
  omega

section There

variable {env : Env} {g : Geometry} {V V' inode : Buf} {S T : Nat → Prop} {J : Nat → Nat} {n : Nat} {fs : Fs}
  (valid : g.Valid env) (journal : JournalThere env g V inode S J n)
include valid journal

theorem JournalThere.congr (table : g.SameTable V V') (block : g.SameBlock V V' (g.inodeBlk V journalIno))
    (map : ∀ x, S x → g.SameBlock V V' x) (sub : ∀ x, S x → T x) : JournalThere env g V' inode T J n := by
  have number := table.inodeBlk valid (by decide : 1 ≤ journalIno) journal.file.number
  refine ⟨⟨journal.file.number, number ▸ journal.file.inodeBlk, fun k below => ?_, journal.file.inside⟩,
    (table.inodeAt valid (by decide) journal.file.number block).trans journal.inode, journal.nonempty⟩
  obtain ⟨via, found, safe⟩ := journal.file.found k below
  exact ⟨via, found.congr (fun x member => map x (safe x member)), fun x member => sub x (safe x member)⟩

theorem JournalThere.journalInode_run (on : fs.On env g S V) : journalInode env fs = some (inode, fs) :=
  Ext4.journalInode_run valid journal.file ⟨rfl, journal.inode, fun x _ => .refl V x, fun k _ => .refl V (J k)⟩ on

theorem JournalThere.first_run (on : fs.On env g S V) :
    ∃ c, allocatedBlock env inode 0 fs = some (J 0, { fs with caches := c }) ∧
      Fs.On env g S V { fs with caches := c } ∧
      blockOrZeros env (J 0) { fs with caches := c } = some (journalBlock g V J 0, { fs with caches := c }) := by
  obtain ⟨via, found, safe⟩ := journal.file.found 0 journal.nonempty
  obtain ⟨c, run, on'⟩ := on.lookup valid found safe
  exact ⟨c, run, on', on'.blockOrZeros valid (journal.file.inside 0 journal.nonempty)⟩

end There

section Journal

variable {env : Env} {g : Geometry} {V V' inode : Buf} {S : Nat → Prop} {J : Nat → Nat} {n : Nat} {fs : Fs}
  (valid : g.Valid env) (journal : JournalApart env g V inode S J n)
include valid journal

theorem JournalApart.move (beside : g.Beside (J 0) V V') : JournalApart env g V' inode S J n := by
  have table := beside.table journal.table
  have there := journal.congr valid table (beside _ journal.inodeBlk.1 journal.inodeBlk.2)
    (fun x inS => beside x (journal.map x inS).1 (journal.map x inS).2) (fun _ inS => inS)
  have number := table.inodeBlk valid (by decide : 1 ≤ journalIno) journal.file.number
  exact ⟨there, journal.map, number ▸ journal.inodeBlk, journal.first, journal.there, journal.table⟩

theorem checkJournalState_clean (on : fs.On env g S V)
    (clear : hasBit (Sblock.featureIncompat fs.sb) incompatRecover = false ∨ Journal.sStart (journalBlock g V J 0) = 0)
    (recover : Bool) :
    ∃ c, ext4fsCheckJournalState env recover fs =
        (do
          if recover then journalRecovered env inode (journalBlock g V J 0)
          pure true : Run Bool) { fs with caches := c } ∧
      Fs.On env g S V { fs with caches := c } := by
  obtain ⟨c, allocated, on', read⟩ := journal.first_run valid on
  refine ⟨c, ?_, on'⟩
  rw [ext4fsCheckJournalState, bind_of_run (journal.journalInode_run valid on), bind_of_run allocated, bind_of_run read, get_bind]
  simp only
  rw [if_neg]
  rcases clear with flag | start
  · simp [flag]
  · simp [start]

end Journal

def openedJsb (jsb : Buf) : Buf :=
  let jsb := putBe32 jsb 28 1
  putBe32 jsb 24 (Journal.sSequence jsb + 1)

/-- The volume while it is open: marked for recovery, with the superblock `jsb` of the journal in block `j`. -/
def Geometry.opened (g : Geometry) (V : Buf) (j : Nat) (jsb : Buf) : Buf :=
  overlay (flaggedVolume V) (j * g.bs) g.bs (openedJsb jsb)

theorem Geometry.opened_beside {env : Env} {g : Geometry} (valid : g.Valid env) (V : Buf) (j : Nat) (jsb : Buf) :
    g.Beside j V (g.opened V j jsb) := fun _ notSb notJ =>
  (sameBlock_putSb valid notSb).trans (Geometry.sameBlock_overlay notJ)

theorem Geometry.word_opened {env : Env} {g : Geometry} (valid : g.Valid env) (V : Buf) {j : Nat} (jsb : Buf) (there : j ≠ 0) :
    g.word (g.opened V j jsb) 0 0 = g.word V 0 0 := by
  have size := valid.bs_ge
  have behind : g.bs ≤ j * g.bs := Nat.le_mul_of_pos_left _ (Nat.pos_of_ne_zero there)
  refine getLe32_congr (fun i below => ?_)
  have start : superblockSize = 1024 := rfl
  simp only [Geometry.blk, tail_apply, Nat.zero_mul, Nat.mul_zero, Nat.zero_add]
  rw [Geometry.opened, overlay_of_lt (by omega), flaggedVolume, overlay_of_lt (by omega)]

def Geometry.openingWrites (g : Geometry) (V : Buf) (j : Nat) (jsb : Buf) : List CardWrite :=
  [⟨superblockSize, putRecover (sbOf V) true, superblockSize⟩, ⟨j * g.bs, openedJsb jsb, g.bs⟩]

section Recovered

variable {env : Env} {g : Geometry} {V inode : Buf} {S : Nat → Prop} {J : Nat → Nat} {n : Nat} {fs : Fs}
  (valid : g.Valid env) (journal : JournalApart env g V inode S J n)
include valid journal

theorem journalRecovered_opens (on : fs.On env g S V) (jsb : Buf) :
    ∃ card c, journalRecovered env inode jsb fs = some ((),
        { fs with
          card := card
          trace := fs.trace ++ g.openingWrites V (J 0) jsb
          caches := c
          sb := sbOf (flaggedVolume V)
          revkBlkList := []
          firstNode := true }) ∧
      env.volume card = g.opened V (J 0) jsb ∧ c.Ok env g fs.root (g.opened V (J 0) jsb) S := by
  have size := valid.devBlksz_dvd_bs
  have limit := valid.inside
  have room : (J 0 + 1) * g.bs ≤ g.totalBlocks * g.bs :=
    Nat.mul_le_mul_right _ (journal.file.inside 0 journal.nonempty)
  rw [Nat.add_mul, Nat.one_mul] at room
  have read : ext4ReadSuperblock env fs.card = some (sbOf V) := by
    rw [ext4ReadSuperblock_eq valid, on.volume]
    rfl
  have flagged : g.Beside (J 0) V (flaggedVolume V) := fun b notSb _ => sameBlock_putSb valid notSb
  have journal₁ := journal.move valid flagged
  -- The superblock is written with the flag, and read again.
  obtain ⟨fs₁, state₁⟩ : ∃ fs₁ : Fs, fs₁ =
      Fs.write env { fs with sb := putRecover (sbOf V) true } ⟨superblockSize, putRecover (sbOf V) true, superblockSize⟩ :=
    ⟨_, rfl⟩
  have volume₁ : env.volume fs₁.card = flaggedVolume V := by
    rw [state₁, Fs.write]
    simp only
    rw [volume_putSb valid, on.volume]
    rfl
  obtain ⟨fs₂, state₂⟩ : ∃ fs₂ : Fs, fs₂ = { fs₁ with sb := sbOf (flaggedVolume V) } := ⟨_, rfl⟩
  have reload : reloadSb env fs₁ = some ((), fs₂) := by
    rw [reloadSb, ext4ReadSuperblock_eq valid, volume₁, state₂]
    rfl
  have on₂ : fs₂.On env g S (flaggedVolume V) := by
    subst state₂
    subst state₁
    exact ⟨on.root, on.blksz, on.sectPerblk, volume₁,
      on.caches.congr (fun x inS => flagged x (journal.map x inS).1 (journal.map x inS).2)⟩
  obtain ⟨c, allocated, on₃, -⟩ := journal₁.first_run valid on₂
  have ok : c.Ok env g fs.root (flaggedVolume V) S := by
    have held := on₃.caches
    rw [state₂, state₁] at held
    exact held
  refine ⟨putExt4 env fs₁.card (J 0 * g.bs) (openedJsb jsb) g.bs, c, ?_, ?_,
    ok.congr (fun x inS => Geometry.sameBlock_overlay (journal.map x inS).2)⟩
  · rw [journalRecovered, run_bind, reloadSb, read, Option.getD_some, Option.bind_some, modify_bind]
    simp only
    rw [run_bind, putSb, get_bind]
    simp only [put, Option.bind_some]
    rw [← state₁, bind_of_run reload, bind_of_run allocated, run_bind, putBlock, Option.bind_some, run_modify, state₂, state₁]
    simp only [Fs.write, List.append_assoc, List.singleton_append, on.blksz, Geometry.openingWrites]
    rfl
  · rw [volume_putExt4 _ _ (size.mul_left _) size (by omega), volume₁]
    rfl

end Recovered

theorem ext4fsDivRoundup_eq {n d : Nat} (positive : 0 < d) : ext4fsDivRoundup n d = (n + d - 1) / d := by
  have whole := Nat.div_add_mod' n d
  have rest := Nat.mod_lt n positive
  unfold ext4fsDivRoundup
  split
  · next some =>
    refine (Nat.div_eq_of_lt_le ?_ ?_).symm
    · rw [Nat.add_mul, Nat.one_mul]
      omega
    · rw [Nat.add_mul, Nat.add_mul, Nat.one_mul]
      omega
  · next none =>
    refine (Nat.div_eq_of_lt_le ?_ ?_).symm
    · omega
    · rw [Nat.add_mul, Nat.one_mul]
      omega

structure Fs.Loaded (g : Geometry) (V : Buf) (fs fs' : Fs) : Prop where
  state : fs' =
    { fs with
      noBlkgrp := g.groups
      noBlkPergdt := g.gdtBlocks
      gdtableBlkno := g.gdtBlk
      gdtable := clip (g.gdtBlocks * g.bs) (tail V (g.gdtBlk * g.bs))
      blkBmaps := fs'.blkBmaps
      inodeBmaps := fs'.inodeBmaps
      sb := fs'.sb
      journalPtr := fs.journalPtr ++ (List.range g.gdtBlocks).map
        (fun i => (g.gdtBlk + i, tail (clip (g.gdtBlocks * g.bs) (tail V (g.gdtBlk * g.bs))) (i * g.bs))) }
  blkBmaps : ∀ i < g.groups, fs'.blkBmaps i = clip g.bs (g.blk V (g.bbm V i))
  inodeBmaps : ∀ i < g.groups, fs'.inodeBmaps i = clip g.bs (g.blk V (g.ibm V i))
  features : ∀ o, 92 ≤ o → o < 104 → fs'.sb o = fs.sb o

section Groups

variable {env : Env} {g : Geometry} {V : Buf} {S : Nat → Prop} {fs fs' : Fs} (valid : g.Valid env)

theorem logGdt_run {left i : Nat} {r : Option Unit} (short : i + left ≤ 2 ^ 15)
    (run : shortLoop logGdtBlock left i fs = some (r, fs')) :
    fs' = { fs with
      journalPtr := fs.journalPtr ++ (List.range' i left).map
        (fun k => (fs.gdtableBlkno + k, tail fs.gdtable (k * fs.blksz))) } := by
  induction left generalizing i fs with
  | zero =>
    cases run
    simp
  | succ left ih =>
    rw [shortLoop, if_neg (by omega)] at run
    obtain ⟨s, fs₁, round, run⟩ := bind_eq_some.mp run
    rw [logGdtBlock, get_bind] at round
    obtain ⟨⟨⟩, fs₂, push, round⟩ := bind_eq_some.mp round
    cases round
    unfold pushJournal at push
    split at push
    · cases push
    · cases push
      rw [ih (by omega) run, List.range'_succ]
      simp

theorem readBitmaps_run (read_ : Fs → Nat → Buf) (write_ : Fs → (Nat → Buf) → Fs) (content : Nat → Buf)
    {blockOf : Fs → Nat → Nat} {store : Fs → Nat → Buf → Fs} (step : ∀ fs i b, store fs i b = write_ fs (Function.update (read_ fs) i b))
    (readBack : ∀ fs m, read_ (write_ fs m) = m) (twice : ∀ fs m m', write_ (write_ fs m) m' = write_ fs m')
    (place : ∀ fs m i, blockOf (write_ fs m) i = blockOf fs i)
    (same : ∀ fs m b, (write_ fs m).readBlock env b = fs.readBlock env b) {left i : Nat}
    (stored : ∀ j, i ≤ j → j < i + left → fs.readBlock env (blockOf fs j) = some (content j))
    (start : write_ fs (read_ fs) = fs) (done : ∀ j < i, read_ fs j = content j) :
    ∃ m, readBitmaps env blockOf store left i fs = some (true, write_ fs m) ∧ ∀ j < i + left, m j = content j := by
  induction left generalizing i fs with
  | zero => exact ⟨read_ fs, by rw [start]; rfl, done⟩
  | succ left ih =>
    rw [readBitmaps, get_bind, run_bind, readBlock, reading, stored i (Nat.le_refl i) (by omega),
      Option.bind_some]
    simp only
    rw [run_bind, run_set, Option.bind_some, step]
    have others : ∀ j, i + 1 ≤ j → j < i + 1 + left →
        (write_ fs (Function.update (read_ fs) i (content i))).readBlock env
          (blockOf (write_ fs (Function.update (read_ fs) i (content i))) j) = some (content j) := by
      intro j lower upper
      rw [place, same]
      exact stored j (by omega) (by omega)
    obtain ⟨m, run, all⟩ := ih others (by rw [readBack, twice])
      (fun j below => by
        rw [readBack]
        by_cases here : j = i
        · rw [here, Function.update_self]
        · rw [Function.update_of_ne here]
          exact done j (by omega))
    rw [twice] at run
    exact ⟨m, run, fun j below => all j (by omega)⟩

theorem Geometry.Valid.gdtBlocks_le (valid : g.Valid env) : g.gdtBlocks ≤ 2 ^ 15 := by
  have upper := valid.bitmapEnd_lt
  have perGroup := valid.perGroup
  have size := valid.bs_ge
  have positive := Geometry.bs_pos (g := g)
  unfold Geometry.bitmapEnd at upper
  rw [perGroup] at upper
  have many : g.groups * (8 * 1024) ≤ g.groups * (8 * g.bs) := Nat.mul_le_mul_left _ (by omega)
  have bytes : g.groups * g.gdsize ≤ g.groups * 64 := Nat.mul_le_mul_left _ (by rcases valid.descriptor with d | d <;> omega)
  refine Nat.le_of_lt_succ (Nat.div_lt_of_lt_mul ?_)
  have enough : 1024 * (2 ^ 15 + 1) ≤ g.bs * (2 ^ 15 + 1) := Nat.mul_le_mul_right _ size
  have whole : g.bs * (2 ^ 15 + 1) = g.bs * 2 ^ 15 + g.bs := Nat.mul_succ _ _
  have half : 1024 * 2 ^ 15 ≤ g.bs * 2 ^ 15 := Nat.mul_le_mul_right _ size
  rw [Nat.succ_eq_add_one, whole]
  omega

theorem Fs.follows_of_table {i : Nat} (valid : g.Valid env) (size : fs.root.gdsize = g.gdsize)
    (table : fs.gdtable = clip (g.gdtBlocks * g.bs) (tail V (g.gdtBlk * g.bs))) (below : i < g.groups) :
    Desc.Follows g.gdsize (g.desc V i) (fs.groupDescriptor i) := by
  have inTable := Geometry.Valid.desc_le below
  refine .of_bytes valid.descriptor (fun k small => ?_)
  rw [Fs.groupDescriptor, size, table]
  simp only [tail_apply, Geometry.desc]
  rw [clip_of_lt (by omega), tail_apply, Nat.add_assoc]

section Table

variable (on : fs.On env g S V)
include valid on

theorem ext4fsGetBgdtable_run {ok : Bool} (groups : fs.noBlkgrp = g.groups) (first : fs.gdtableBlkno = g.gdtBlk)
    (run : ext4fsGetBgdtable env fs = some (ok, fs')) :
    ok = true ∧ fs' =
      { fs with
        noBlkPergdt := g.gdtBlocks
        gdtable := clip (g.gdtBlocks * g.bs) (tail V (g.gdtBlk * g.bs))
        journalPtr := fs.journalPtr ++ (List.range g.gdtBlocks).map
          (fun i => (g.gdtBlk + i, tail (clip (g.gdtBlocks * g.bs) (tail V (g.gdtBlk * g.bs))) (i * g.bs))) } := by
  have count : (fs.noBlkgrp * fs.root.gdsize + fs.blksz - 1) / fs.blksz = g.gdtBlocks := by
    rw [groups, on.root.gdsize, on.blksz]
    rfl
  have bytes := Geometry.Valid.table_bytes (g := g)
  have some_group := Nat.mul_pos valid.groups_pos valid.gdsize_pos
  have room : (g.gdtBlk + g.gdtBlocks) * g.bs ≤ g.totalBlocks * g.bs := Nat.mul_le_mul_right _ valid.table
  rw [Nat.add_mul] at room
  have read : fsDevread env fs.card (fs.sector fs.gdtableBlkno) 0 (fs.blksz * g.gdtBlocks) =
      some (clip (g.gdtBlocks * g.bs) (tail V (g.gdtBlk * g.bs))) := by
    have sector : fs.sector fs.gdtableBlkno = blockSector env fs.root g.gdtBlk := by
      rw [Fs.sector, on.sectPerblk, first, blockSector]
    rw [sector, on.blksz, Nat.mul_comm, fsDevread_block valid.fits on.root.log2 fs.card (by omega) (by omega), on.volume, Nat.add_zero]
  rw [ext4fsGetBgdtable, modify_bind, count, get_bind] at run
  simp only [Fs.sector] at run read
  rw [read] at run
  simp only at run
  rw [run_bind, run_set, Option.bind_some] at run
  obtain ⟨⟨⟩, fs₁, log, run⟩ := bind_eq_some.mp run
  cases run
  refine ⟨rfl, ?_⟩
  rw [ext4fsLogGdt, get_bind] at log
  obtain ⟨r, fs₂, loop, log⟩ := bind_eq_some.mp log
  cases log
  rw [logGdt_run (by rw [Nat.zero_add]; exact valid.gdtBlocks_le) loop, ← List.range_eq_range']
  simp only [first, on.blksz]

variable (blocks : ∀ i < g.groups, g.bbm V i < g.totalBlocks) (inodes : ∀ i < g.groups, g.ibm V i < g.totalBlocks)
include blocks inodes

theorem loadGroups_run {ok : Bool} (run : loadGroups env fs = some (ok, fs')) : ok = true ∧ fs.Loaded g V fs' := by
  have perGroup := valid.perGroup_pos
  have total := valid.total_lt
  have nonempty := valid.nonempty
  have positive := Geometry.bs_pos (g := g)
  have groupCount : ext4fsDivRoundup (w32 (Sblock.totalBlocks fs.root.sblock + 2 ^ 32 - Sblock.firstDataBlock fs.root.sblock))
      (Sblock.blocksPerGroup fs.root.sblock) = g.groups := by
    rw [on.root.total, on.root.first, on.root.perGroup, ext4fsDivRoundup_eq perGroup, Geometry.groups]
    congr 2
    unfold w32
    omega
  have tableBlk : (if fs.blksz = 1024 then 2 else 1) = g.gdtBlk := by
    rw [on.blksz, Geometry.gdtBlk, valid.first_eq]
    split <;> rfl
  rw [loadGroups, modify_bind, groupCount, tableBlk] at run
  obtain ⟨got, fs₁, table, run⟩ := bind_eq_some.mp run
  have on₀ : Fs.On env g S V { fs with noBlkgrp := g.groups, gdtableBlkno := g.gdtBlk } := { on with }
  obtain ⟨rfl, state₁⟩ := ext4fsGetBgdtable_run valid on₀ rfl rfl table
  have on₁ : fs₁.On env g S V := by
    rw [state₁]
    exact { on with }
  have groups₁ : fs₁.noBlkgrp = g.groups := by rw [state₁]
  have descriptor : ∀ i < g.groups, Desc.Follows g.gdsize (g.desc V i) (fs₁.groupDescriptor i) := fun i below =>
    fs₁.follows_of_table valid on₁.root.gdsize (by rw [state₁]) below
  have blockOf : ∀ i < g.groups, fs₁.bbitmapBlk i = g.bbm V i := fun i below => by
    rw [Fs.bbitmapBlk, on₁.root.gdsize, (descriptor i below).blockId]
    rfl
  have inodeOf : ∀ i < g.groups, fs₁.ibitmapBlk i = g.ibm V i := fun i below => by
    rw [Fs.ibitmapBlk, on₁.root.gdsize, (descriptor i below).inodeId]
    rfl
  simp only [if_true] at run
  rw [get_bind, groups₁] at run
  obtain ⟨bm, blockMaps, heldB⟩ : ∃ bm, readBitmaps env Fs.bbitmapBlk
      (fun fs i bmap => { fs with blkBmaps := Function.update fs.blkBmaps i bmap }) g.groups 0 fs₁ =
        some (true, { fs₁ with blkBmaps := bm }) ∧ ∀ j < 0 + g.groups, bm j = clip g.bs (g.blk V (g.bbm V j)) :=
    readBitmaps_run (fun fs => fs.blkBmaps) (fun fs m => { fs with blkBmaps := m })
      (fun i => clip g.bs (g.blk V (g.bbm V i))) (fun _ _ _ => rfl) (fun _ _ => rfl) (fun _ _ _ => rfl)
      (fun _ _ _ => rfl) (fun _ _ _ => rfl)
      (fun j _ below => by
        rw [blockOf j (by omega)]
        exact on₁.readBlock valid (blocks j (by omega)))
      rfl (fun j below => absurd below (Nat.not_lt_zero j))
  rw [bind_of_run blockMaps] at run
  obtain ⟨fs₂, state₂⟩ : ∃ fs₂ : Fs, fs₂ = { fs₁ with blkBmaps := bm } := ⟨_, rfl⟩
  rw [← state₂] at run
  have on₂ : fs₂.On env g S V := by
    rw [state₂]
    exact { on₁ with }
  have inodeOf₂ : ∀ i, fs₂.ibitmapBlk i = fs₁.ibitmapBlk i := by
    rw [state₂]
    exact fun _ => rfl
  obtain ⟨im, inodeMaps, heldI⟩ : ∃ im, readBitmaps env Fs.ibitmapBlk
      (fun fs i bmap => { fs with inodeBmaps := Function.update fs.inodeBmaps i bmap }) g.groups 0 fs₂ =
        some (true, { fs₂ with inodeBmaps := im }) ∧ ∀ j < 0 + g.groups, im j = clip g.bs (g.blk V (g.ibm V j)) :=
    readBitmaps_run (fun fs => fs.inodeBmaps) (fun fs m => { fs with inodeBmaps := m })
      (fun i => clip g.bs (g.blk V (g.ibm V i))) (fun _ _ _ => rfl) (fun _ _ => rfl) (fun _ _ _ => rfl)
      (fun _ _ _ => rfl) (fun _ _ _ => rfl)
      (fun j _ below => by
        rw [inodeOf₂, inodeOf j (by omega)]
        exact on₂.readBlock valid (inodes j (by omega)))
      rfl (fun j below => absurd below (Nat.not_lt_zero j))
  simp only [if_true] at run
  rw [bind_of_run inodeMaps] at run
  simp only [if_true] at run
  rw [modify_bind] at run
  cases run
  refine ⟨rfl, ?_⟩
  split
  · refine ⟨?_, fun i below => ?_, fun i below => heldI i (by omega), fun o lower upper => ?_⟩
    · rw [state₂, state₁]
    · rw [state₂]
      exact heldB i (by omega)
    · show sbSetFreeBlocks fs₂.sb _ o = fs.sb o
      rw [sbSetFreeBlocks, putLe32_of_lt (by omega), putLe32_of_ge (by omega), state₂, state₁]
  · refine ⟨?_, fun i below => ?_, fun i below => heldI i (by omega), fun o lower upper => ?_⟩
    · rw [state₂, state₁]
    · rw [state₂]
      exact heldB i (by omega)
    · rw [state₂, state₁]

end Table

end Groups

/-- What `ext4fs_init_journal` logs of the superblock. -/
def Geometry.sbEntry (g : Geometry) (V : Buf) : Nat × Buf :=
  if g.bs = 4096 then (0, overlay (clip g.bs (g.blk V 0)) superblockSize superblockSize (sbOf V))
  else (1, overlay zeros 0 superblockSize (sbOf V))

/-- The state between the two parts of `ext4fs_init`, on a volume whose journal is clean. -/
structure Fs.JournalOpened (env : Env) (g : Geometry) (V : Buf) (S : Nat → Prop) (J : Nat → Nat) (fs fs' : Fs) :
    Prop where
  state : fs' =
    { fs with
      card := fs'.card
      trace := fs.trace ++ g.openingWrites V (J 0) (journalBlock g V J 0)
      caches := fs'.caches
      blksz := g.bs
      sectPerblk := fs'.sectPerblk
      sb := sbOf (flaggedVolume V)
      journalPtr := [g.sbEntry V]
      dirtyBlockPtr := []
      jrnlBlkIdx := 1
      revkBlkList := []
      firstNode := true }
  on : fs'.On env g S (g.opened V (J 0) (journalBlock g V J 0))

theorem pushJournal_of_lt {n : Nat} {buf : Buf} {fs : Fs} (room : fs.journalPtr.length < maxJournalEntries) :
    pushJournal n buf fs = some ((), { fs with journalPtr := fs.journalPtr ++ [(n, buf)] }) :=
  if_neg (Nat.not_le_of_lt room)

section Open

variable {env : Env} {g : Geometry} {V inode : Buf} {S : Nat → Prop} {J : Nat → Nat} {n : Nat} {fs fs' : Fs}
  (valid : g.Valid env) (journal : JournalApart env g V inode S J n)
include valid journal

theorem ext4fsInitJournal_run (on : fs.On env g S V) (sb : fs.sb = sbOf V)
    (clear : hasBit (Sblock.featureIncompat (sbOf V)) incompatRecover = false) :
    ∃ fs', ext4fsInitJournal env fs = some (true, fs') ∧ fs.JournalOpened env g V S J fs' := by
  obtain ⟨fs₀, state₀⟩ : ∃ fs₀ : Fs, fs₀ =
      { fs with revkBlkList := [], journalPtr := [g.sbEntry V], dirtyBlockPtr := [], jrnlBlkIdx := 1 } := ⟨_, rfl⟩
  have on₀ : fs₀.On env g S V := by
    rw [state₀]
    exact { on with }
  have sb₀ : fs₀.sb = sbOf V := by rw [state₀, sb]
  -- Neither pass finds anything to recover.
  obtain ⟨c₁, pass₁, on₁⟩ := checkJournalState_clean valid journal on₀ (Or.inl (by rw [sb₀]; exact clear)) false
  obtain ⟨fs₁, state₁⟩ : ∃ fs₁ : Fs, fs₁ = { fs₀ with caches := c₁ } := ⟨_, rfl⟩
  rw [← state₁] at pass₁ on₁
  have sb₁ : fs₁.sb = sbOf V := by rw [state₁, sb₀]
  obtain ⟨c₂, pass₂, on₂⟩ := checkJournalState_clean valid journal on₁ (Or.inl (by rw [sb₁]; exact clear)) true
  obtain ⟨fs₂, state₂⟩ : ∃ fs₂ : Fs, fs₂ = { fs₁ with caches := c₂ } := ⟨_, rfl⟩
  rw [← state₂] at pass₂ on₂
  obtain ⟨card, c₃, recovered, volume, ok⟩ := journalRecovered_opens valid journal on₂ (journalBlock g V J 0)
  obtain ⟨fs₃, state₃⟩ : ∃ fs₃ : Fs, fs₃ =
      { fs₂ with
        card := card
        trace := fs₂.trace ++ g.openingWrites V (J 0) (journalBlock g V J 0)
        caches := c₃
        sb := sbOf (flaggedVolume V)
        revkBlkList := []
        firstNode := true } := ⟨_, rfl⟩
  rw [← state₃] at recovered
  have push : ∀ entry, entry = g.sbEntry V → pushJournal entry.1 entry.2
      { fs with revkBlkList := [], journalPtr := [], dirtyBlockPtr := [], jrnlBlkIdx := 1 } = some ((), fs₀) := by
    intro entry same
    rw [pushJournal_of_lt (by show 0 < maxJournalEntries; decide), state₀, ← same]
    rfl
  have passes : (do
      if ← ext4fsCheckJournalState env false then ext4fsCheckJournalState env true else pure false : Run Bool) fs₀ =
        some (true, fs₃) := by
    rw [run_bind, pass₁]
    simp only [Bool.false_eq_true, if_false, run_pure, Option.bind_some, if_true]
    rw [pass₂]
    simp only [if_true]
    rw [bind_of_run recovered, run_pure]
  refine ⟨fs₃, ?_, ?_, ?_⟩
  · rw [ext4fsInitJournal, modify_bind, get_bind]
    simp only [run_ite]
    split
    · next large =>
      have size : g.bs = 4096 := on.blksz.symm.trans large
      have sector : blockSector env fs.root 0 = 0 := by rw [blockSector, Nat.zero_mul]; rfl
      have first := fsDevread_whole valid.fits on.root.log2 fs.card (b := 0) (Nat.lt_of_le_of_lt (Nat.zero_le _) valid.nonempty)
      rw [sector, on.volume, ← on.blksz] at first
      rw [run_bind, first, Option.getD_some, push (0, _) (by rw [Geometry.sbEntry, if_pos size, sb, on.blksz]), Option.bind_some]
      exact passes
    · next small =>
      have size : g.bs ≠ 4096 := fun large => small (on.blksz.trans large)
      rw [bind_of_run (push (1, _) (by rw [Geometry.sbEntry, if_neg size, sb]))]
      exact passes
  · rw [state₃, state₂, state₁, state₀, on.blksz]
  · rw [state₃]
    exact ⟨on₂.root, on₂.blksz, on₂.sectPerblk, volume, ok⟩

theorem ext4fsInit_run {ok : Bool} (has : fs.root.Has g) (volume : env.volume fs.card = V)
    (caches : fs.caches.Ok env g fs.root V S)
    (clear : hasBit (Sblock.featureIncompat (sbOf V)) incompatRecover = false)
    (blocks : ∀ i < g.groups, g.bbm V i < g.totalBlocks) (inodes : ∀ i < g.groups, g.ibm V i < g.totalBlocks)
    (run : ext4fsInit env fs = some (ok, fs')) :
    ok = true ∧ ∃ mid, fs.JournalOpened env g V S J mid ∧
      mid.Loaded g (g.opened V (J 0) (journalBlock g V J 0)) fs' := by
  have read : ext4ReadSuperblock env fs.card = some (sbOf V) := by
    rw [ext4ReadSuperblock_eq valid, volume]
    rfl
  have blockSize : fs.root.blockSize = g.bs := has.blockSize
  have sectors : fs.root.blockSize / env.devBlksz = 2 ^ log2FsBlocksize env fs.root := by
    rw [blockSize, valid.bs_eq, Nat.mul_div_cancel _ env.devBlksz_pos, log2FsBlocksize, has.log2]
  rw [ext4fsInit, modify_bind, get_bind] at run
  simp only [read] at run
  obtain ⟨fs₀, state₀⟩ : ∃ fs₀ : Fs, fs₀ =
      { fs with blksz := fs.root.blockSize, sectPerblk := fs.root.blockSize / env.devBlksz, sb := sbOf V } := ⟨_, rfl⟩
  have on₀ : fs₀.On env g S V := by
    rw [state₀]
    exact ⟨has, blockSize, sectors, volume, caches⟩
  obtain ⟨fs₁, opened, journalOpened⟩ := ext4fsInitJournal_run valid journal on₀ (by rw [state₀]) clear
  rw [run_bind, run_set, Option.bind_some, ← state₀, bind_of_run opened] at run
  simp only [if_true] at run
  obtain ⟨good, fs₂, load, run⟩ := bind_eq_some.mp run
  have beside := Geometry.opened_beside valid V (J 0) (journalBlock g V J 0)
  have table := beside.table journal.table
  obtain ⟨rfl, loaded⟩ := loadGroups_run valid journalOpened.on
    (fun i below => by
      rw [Geometry.bbm, (table.follows valid below).blockId]
      exact blocks i below)
    (fun i below => by
      rw [Geometry.ibm, (table.follows valid below).inodeId]
      exact inodes i below) load
  simp only [if_true] at run
  cases run
  refine ⟨rfl, fs₁, ⟨?_, journalOpened.on⟩, loaded⟩
  have state := journalOpened.state
  rw [state₀] at state
  exact state

end Open

/-- The volume after `ext4fs_deinit`: no longer marked for recovery, with the journal's superblock `jsb` in block `j`
marked as clean. -/
def Geometry.closed (g : Geometry) (V : Buf) (j : Nat) (jsb : Buf) : Buf :=
  overlay (overlay V (j * g.bs) g.bs (putBe32 jsb 28 0)) superblockSize superblockSize (putRecover (sbOf V) false)

def Geometry.closingWrites (g : Geometry) (V : Buf) (j : Nat) (jsb : Buf) : List CardWrite :=
  [⟨j * g.bs, putBe32 jsb 28 0, g.bs⟩, ⟨superblockSize, putRecover (sbOf V) false, superblockSize⟩]

section Close

variable {env : Env} {g : Geometry} {V inode : Buf} {S : Nat → Prop} {J : Nat → Nat} {n : Nat} {fs : Fs}
  (valid : g.Valid env)
include valid

theorem sbOf_congr {V V' : Buf} (same : g.SameBlock V V' g.firstDataBlock) : sbOf V' = sbOf V := by
  obtain ⟨lower, upper⟩ := superblock_inside valid
  rw [Nat.add_mul, Nat.one_mul] at upper
  funext o
  unfold sbOf clip
  split
  · have byte := same (superblockSize + o - g.firstDataBlock * g.bs) (by omega)
    rw [Nat.add_sub_cancel' (by omega)] at byte
    exact byte.symm
  · rfl

theorem ext4fsDeinit_run (journal : JournalThere env g V inode S J n) (first : J 0 ≠ g.firstDataBlock)
    (on : fs.On env g S V) :
    ∃ fs', ext4fsDeinit env fs = some ((), fs') ∧ env.volume fs'.card = g.closed V (J 0) (journalBlock g V J 0) ∧
      fs'.trace = fs.trace ++ g.closingWrites V (J 0) (journalBlock g V J 0) := by
  have size := valid.devBlksz_dvd_bs
  have limit := valid.inside
  have room : (J 0 + 1) * g.bs ≤ g.totalBlocks * g.bs :=
    Nat.mul_le_mul_right _ (journal.file.inside 0 journal.nonempty)
  rw [Nat.add_mul, Nat.one_mul] at room
  obtain ⟨c, allocated, on₁, read⟩ := journal.first_run valid on
  obtain ⟨fs₁, state₁⟩ : ∃ fs₁ : Fs, fs₁ = { fs with caches := c } := ⟨_, rfl⟩
  rw [← state₁] at allocated on₁ read
  obtain ⟨fs₂, state₂⟩ : ∃ fs₂ : Fs, fs₂ = { fs₁.write env ⟨J 0 * fs₁.blksz, putBe32 (journalBlock g V J 0) 28 0, fs₁.blksz⟩ with
      journalPtr := [], dirtyBlockPtr := [], jrnlBlkIdx := 1 } := ⟨_, rfl⟩
  have volume₂ : env.volume fs₂.card = overlay V (J 0 * g.bs) g.bs (putBe32 (journalBlock g V J 0) 28 0) := by
    rw [state₂]
    show env.volume (putExt4 env fs₁.card (J 0 * fs₁.blksz) _ fs₁.blksz) = _
    rw [on₁.blksz, volume_putExt4 _ _ (size.mul_left _) size (by omega), on₁.volume]
  have trace₂ : fs₂.trace = fs.trace ++ [⟨J 0 * g.bs, putBe32 (journalBlock g V J 0) 28 0, g.bs⟩] := by
    rw [state₂, on₁.blksz, state₁]
    rfl
  have reload : reloadSb env fs₂ = some ((), { fs₂ with sb := sbOf V }) := by
    rw [reloadSb, ext4ReadSuperblock_eq valid, volume₂]
    have kept : g.SameBlock V (overlay V (J 0 * g.bs) g.bs (putBe32 (journalBlock g V J 0) 28 0))
        g.firstDataBlock :=
      Geometry.sameBlock_overlay first.symm
    have same := sbOf_congr valid kept
    rw [sbOf] at same
    rw [same]
    rfl
  refine ⟨{ Fs.write env { fs₂ with sb := putRecover (sbOf V) false }
        ⟨superblockSize, putRecover (sbOf V) false, superblockSize⟩ with
      firstPassIbmap := 0, firstPassBbmap := 0, currInodeNo := 0, currBlkno := 0 }, ?_, ?_, ?_⟩
  · rw [ext4fsDeinit, bind_of_run (journal.journalInode_run valid on), bind_of_run allocated,
      bind_of_run read, run_bind, putBlock, Option.bind_some, run_bind, ext4fsFreeJournal, run_modify,
      Option.bind_some]
    simp only
    rw [← state₂, bind_of_run reload, modify_bind, run_bind, putSb, get_bind, put, Option.bind_some, run_modify]
  · show env.volume (putExt4 env fs₂.card superblockSize (putRecover (sbOf V) false) superblockSize) = _
    rw [volume_putSb valid, volume₂]
    rfl
  · show fs₂.trace ++ [(⟨superblockSize, putRecover (sbOf V) false, superblockSize⟩ : CardWrite)] = _
    rw [trace₂, List.append_assoc]
    rfl

end Close

end UuuFastboot.Ext4
