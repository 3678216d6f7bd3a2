import UuuFastboot.Ext4.WriteSpec

namespace UuuFastboot.Ext4

open Word Overlay Bytes Partial

variable {bmap : Buf} {left byte bit gdsize : Nat}

theorem skipFull_before {k : Nat} (found : skipFull bmap left byte = some k) :
    bmap k ≠ 255 ∧ ∀ j, byte ≤ j → j < k → bmap j = 255 := by
  induction left generalizing byte with
  | zero => cases found
  | succ left ih =>
    rw [skipFull] at found
    split at found
    · next full =>
      obtain ⟨here, before⟩ := ih found
      refine ⟨here, fun j lower upper => ?_⟩
      rcases Nat.eq_or_lt_of_le lower with rfl | later
      · exact full
      · exact before j later upper
    · next open_ =>
      cases found
      exact ⟨open_, fun j lower upper => absurd upper (Nat.not_lt.mpr lower)⟩

theorem skipFull_none {j : Nat} (none : skipFull bmap left byte = none) (lower : byte ≤ j)
    (upper : j < byte + left) : bmap j = 255 := by
  induction left generalizing byte with
  | zero => omega
  | succ left ih =>
    rw [skipFull] at none
    split at none
    · next full =>
      rcases Nat.eq_or_lt_of_le lower with rfl | later
      · exact full
      · exact ih none later (by omega)
    · cases none

theorem clearBit_before {j i : Nat} (found : clearBit bmap byte left bit = some j)
    (lower : bit ≤ i) (upper : i < j) : testBmap bmap byte i = true := by
  induction left generalizing bit with
  | zero => cases found
  | succ left ih =>
    rw [clearBit] at found
    split at found
    · next set_ =>
      rcases Nat.eq_or_lt_of_le lower with rfl | later
      · exact set_
      · exact ih found later
    · cases found
      omega

theorem clearBit_none {i : Nat} (none : clearBit bmap byte left bit = none) (lower : bit ≤ i)
    (upper : i < bit + left) : testBmap bmap byte i = true := by
  induction left generalizing bit with
  | zero => omega
  | succ left ih =>
    rw [clearBit] at none
    split at none
    · next set_ =>
      rcases Nat.eq_or_lt_of_le lower with rfl | later
      · exact set_
      · exact ih none later (by omega)
    · cases none

theorem testBmap_full (full : bmap byte = 255) (small : bit < 8) :
    testBmap bmap byte bit = true := by
  have all : ∀ i < 8, (255 : UInt8).toNat.testBit i = true := by decide
  rw [testBmap, full]
  exact all bit small

theorem full_of_testBmap (bits : ∀ i < 8, testBmap bmap byte i = true) : bmap byte = 255 := by
  have all : ∀ n < 256, (∀ i < 8, n.testBit i = true) → n = 255 := by decide +kernel
  exact UInt8.toNat_inj.mp (all _ (bmap byte).toNat_lt bits)

theorem getNewBlkNo_spec (blksz : Nat) (bmap : Buf) :
    (getNewBlkNo blksz bmap = none ∧ ∀ n < 8 * blksz, testBmap bmap (n / 8) (n % 8) = true) ∨
      ∃ n < 8 * blksz, getNewBlkNo blksz bmap =
          some (n + (if blksz = 1024 then 1 else 0), setBmap bmap (n / 8) (n % 8)) ∧
        testBmap bmap (n / 8) (n % 8) = false ∧ ∀ m < n, testBmap bmap (m / 8) (m % 8) = true := by
  cases first : skipFull bmap blksz 0 with
  | none =>
    refine Or.inl ⟨by rw [getNewBlkNo, first]; rfl, fun n below => ?_⟩
    exact testBmap_full (skipFull_none first (Nat.zero_le _) (by omega)) (Nat.mod_lt _ (by decide))
  | some byte =>
    obtain ⟨open_, before⟩ := skipFull_before first
    cases second : clearBit bmap byte 8 0 with
    | none => exact absurd (full_of_testBmap (fun i small => clearBit_none second (Nat.zero_le _) (by omega))) open_
    | some bit =>
      have upper := (skipFull_some first).2
      obtain ⟨small, clear⟩ := clearBit_some second
      have byte_eq : (8 * byte + bit) / 8 = byte := by omega
      have bit_eq : (8 * byte + bit) % 8 = bit := by omega
      refine Or.inr ⟨8 * byte + bit, by omega, ?_, by rw [byte_eq, bit_eq, clear], fun m less => ?_⟩
      · rw [getNewBlkNo, first, byte_eq, bit_eq, Nat.add_right_comm]
        simp only [Option.bind_eq_bind, Option.bind_some, second]
      · rcases Nat.lt_or_ge (m / 8) byte with earlier | same
        · exact testBmap_full (before _ (Nat.zero_le _) earlier) (Nat.mod_lt _ (by decide))
        · obtain rfl : m / 8 = byte := by omega
          exact clearBit_before second (Nat.zero_le _) (by omega)

def clearBits (bs : Nat) (bmap : Buf) : Finset Nat :=
  (Finset.range (8 * bs)).filter (fun n => testBmap bmap (n / 8) (n % 8) = false)

theorem mem_clearBits {bs n : Nat} :
    n ∈ clearBits bs bmap ↔ n < 8 * bs ∧ testBmap bmap (n / 8) (n % 8) = false := by
  rw [clearBits, Finset.mem_filter, Finset.mem_range]

theorem clearBits_setBmap (bs n : Nat) (bmap : Buf) :
    clearBits bs (setBmap bmap (n / 8) (n % 8)) = (clearBits bs bmap).erase n := by
  ext m
  have same : m / 8 = n / 8 ∧ m % 8 = n % 8 ↔ m = n := by omega
  rw [Finset.mem_erase, mem_clearBits, mem_clearBits, testBmap_setBmap (Nat.mod_lt _ (by decide))]
  rw [Bool.or_eq_false_iff, Bool.and_eq_false_iff, decide_eq_false_iff_not, decide_eq_false_iff_not, ← not_and_or, same]
  tauto

theorem Desc.wide16_lt (gdsize : Nat) (gd : Buf) (low high : Nat) :
    Desc.wide16 gdsize gd low high < if gdsize = 64 then 2 ^ 32 else 2 ^ 16 := by
  have first := getLe16_lt gd low
  have second := getLe16_lt gd high
  unfold Desc.wide16
  split <;> omega

theorem Desc.wide16_putWide16 {low high v : Nat} (gd : Buf) (apart : low + 2 ≤ high)
    (small : v < if gdsize = 64 then 2 ^ 32 else 2 ^ 16) :
    Desc.wide16 gdsize (Desc.putWide16 gdsize gd low high v) low high = v := by
  unfold Desc.wide16 Desc.putWide16
  by_cases wide : gdsize = 64
  · simp only [if_pos wide] at small ⊢
    have lower : getLe16 (putLe16 (putLe16 gd low v) high (v / 2 ^ 16)) low = getLe16 (putLe16 gd low v) low :=
      getLe16_congr (fun i below => putLe16_of_lt (by omega))
    rw [getLe16_putLe16, lower, getLe16_putLe16]
    omega
  · simp only [if_neg wide] at small ⊢
    rw [getLe16_putLe16]
    omega

theorem Desc.freeBlocks_dec {gd : Buf} (some : Desc.freeBlocks gdsize gd ≠ 0) :
    Desc.freeBlocks gdsize (bgFreeBlocksDec gdsize gd) + 1 = Desc.freeBlocks gdsize gd := by
  have bound := Desc.wide16_lt gdsize gd 12 44
  have word : Desc.wide16 gdsize gd 12 44 < 2 ^ 32 := by
    split at bound <;> omega
  unfold Desc.freeBlocks at some ⊢
  have less : w32 (Desc.wide16 gdsize gd 12 44 + minusOne) = Desc.wide16 gdsize gd 12 44 - 1 := by
    unfold w32 minusOne
    omega
  rw [bgFreeBlocksDec, bgAdd, less, Desc.wide16_putWide16 gd (by decide) (by omega)]
  omega

theorem Desc.freeBlocks_congr {gd gd' : Buf} (size : gdsize = 32 ∨ gdsize = 64)
    (same : ∀ o < gdsize, gd' o = gd o) : Desc.freeBlocks gdsize gd' = Desc.freeBlocks gdsize gd := by
  have low : getLe16 gd' 12 = getLe16 gd 12 := getLe16_congr (fun i below => same _ (by omega))
  unfold Desc.freeBlocks Desc.wide16
  rw [low]
  split
  · next wide => rw [getLe16_congr (fun i below => same (44 + i) (by omega))]
  · rfl

theorem sbGetFreeBlocks_dec (sb : Buf) :
    (sbGetFreeBlocks (sbFreeBlocksDec sb) + 1) % 2 ^ 48 = sbGetFreeBlocks sb % 2 ^ 48 := by
  obtain ⟨v, value⟩ : ∃ v, v = (sbGetFreeBlocks sb + 2 ^ 64 - 1) % 2 ^ 64 := ⟨_, rfl⟩
  have low : Sblock.freeBlocks (sbFreeBlocksDec sb) = v % 2 ^ 32 := by
    rw [sbFreeBlocksDec, ← value, sbSetFreeBlocks, Sblock.freeBlocks]
    rw [getLe32_congr (fun i below => putLe32_of_lt (by omega)), getLe32_putLe32, Nat.mod_mod]
  have high : Sblock.freeBlocksHigh (sbFreeBlocksDec sb) = v / 2 ^ 32 % 2 ^ 16 := by
    rw [sbFreeBlocksDec, ← value, sbSetFreeBlocks, Sblock.freeBlocksHigh, getLe32_putLe32]
    omega
  have bound : sbGetFreeBlocks sb < 2 ^ 64 := by
    have first := getLe32_lt sb 12
    have second := getLe32_lt sb 344
    unfold sbGetFreeBlocks Sblock.freeBlocks Sblock.freeBlocksHigh
    omega
  have count : sbGetFreeBlocks (sbFreeBlocksDec sb) = v % 2 ^ 48 := by
    rw [sbGetFreeBlocks, low, high]
    omega
  rw [count, value]
  omega

def Geometry.Free (g : Geometry) (bmaps : Nat → Buf) (b : Nat) : Prop :=
  g.firstDataBlock ≤ b ∧ b < g.totalBlocks ∧ g.marked bmaps b = false

/-- The driver on a volume whose groups are all initialised, each with the number of its clear bits as the count of its
free blocks. The bits behind the end of the volume are set. -/
structure Fs.Counted (env : Env) (g : Geometry) (S : Nat → Prop) (V : Buf) (fs : Fs) : Prop where
  on : fs.On env g S V
  groups : fs.noBlkgrp = g.groups
  few : g.groups ≤ 32767
  bitmap : ∀ i < g.groups, fs.bbitmapBlk i < g.totalBlocks
  initialised : ∀ i < g.groups, hasBit (Desc.bgFlags (fs.groupDescriptor i)) bgBlockUninit = false
  counts : ∀ i < g.groups, Desc.freeBlocks g.gdsize (fs.groupDescriptor i) = (clearBits g.bs (fs.blkBmaps i)).card
  padding : ∀ b, g.totalBlocks ≤ b → b < g.bitmapEnd → g.marked fs.blkBmaps b = true
  cursor : fs.currBlkno < 2 ^ 32

/-- A call that hands out a block: it was free, its bit is set and no other, and the counts of its group and of the
superblock go down by one. -/
structure GotBlock (g : Geometry) (fs : Fs) (b : Nat) (fs' : Fs) : Prop where
  free : g.Free fs.blkBmaps b
  bitmaps : fs'.blkBmaps = Function.update fs.blkBmaps (g.groupOf b)
    (setBmap (fs.blkBmaps (g.groupOf b)) (g.bitOf b / 8) (g.bitOf b % 8))
  group : ∀ i < g.groups, Desc.freeBlocks g.gdsize (fs'.groupDescriptor i) + (if i = g.groupOf b then 1 else 0) =
    Desc.freeBlocks g.gdsize (fs.groupDescriptor i)
  superblock : (sbGetFreeBlocks fs'.sb + 1) % 2 ^ 48 = sbGetFreeBlocks fs.sb % 2 ^ 48

/-- A call that fails: no block is free, and bitmaps and counts stay as they are. -/
structure NoBlock (g : Geometry) (fs fs' : Fs) : Prop where
  full : ∀ b, ¬ g.Free fs.blkBmaps b
  bitmaps : fs'.blkBmaps = fs.blkBmaps
  descriptors : fs'.gdtable = fs.gdtable
  superblock : fs'.sb = fs.sb

theorem Geometry.marked_set {g : Geometry} {bmaps : Nat → Buf} {b x : Nat} (lower : g.firstDataBlock ≤ b)
    (lower' : g.firstDataBlock ≤ x) :
    g.marked (Function.update bmaps (g.groupOf b)
      (setBmap (bmaps (g.groupOf b)) (g.bitOf b / 8) (g.bitOf b % 8))) x = (g.marked bmaps x || decide (x = b)) := by
  have same : g.groupOf x = g.groupOf b ∧ g.bitOf x = g.bitOf b ↔ x = b := by
    refine ⟨fun both => ?_, fun here => here ▸ ⟨rfl, rfl⟩⟩
    have first := Nat.div_add_mod (b - g.firstDataBlock) g.blocksPerGroup
    have second := Nat.div_add_mod (x - g.firstDataBlock) g.blocksPerGroup
    unfold Geometry.groupOf Geometry.bitOf at both
    rw [both.1, both.2] at second
    omega
  rw [Geometry.marked_update]
  split
  · next here =>
    have bit : g.bitOf x / 8 = g.bitOf b / 8 ∧ g.bitOf x % 8 = g.bitOf b % 8 ↔ x = b := by
      rw [← same]
      omega
    rw [testBmap_setBmap (Nat.mod_lt _ (by decide)), ← Bool.decide_and, Geometry.marked, here]
    simp only [bit]
  · next other => rw [decide_eq_false (fun here : x = b => other (here ▸ rfl)), Bool.or_false]

section Call

variable {env : Env} {g : Geometry} {S : Nat → Prop} {V : Buf} {fs : Fs} (valid : g.Valid env)
  (counted : fs.Counted env g S V)
variable {i b c : Nat} {fs' : Fs}
include valid counted

theorem Fs.Counted.free_of_clear {n : Nat} (below : i < g.groups) (clear : n ∈ clearBits g.bs (fs.blkBmaps i)) :
    g.Free fs.blkBmaps (n + g.firstDataBlock + i * g.bs * 8) := by
  obtain ⟨small, bit⟩ := mem_clearBits.mp clear
  obtain ⟨group, number⟩ := valid.groupOf_bit (i := i) small
  have unmarked : g.marked fs.blkBmaps (n + g.firstDataBlock + i * g.bs * 8) = false := by
    rw [Geometry.marked, group, number]
    exact bit
  refine ⟨by omega, ?_, unmarked⟩
  by_contra outside
  have set_ := counted.padding _ (Nat.le_of_not_lt outside) (valid.lt_bitmapEnd (by rw [group]; exact below))
  rw [unmarked] at set_
  cases set_

omit counted in
theorem Geometry.Free.clear (free : g.Free fs.blkBmaps b) :
    g.groupOf b < g.groups ∧ g.bitOf b ∈ clearBits g.bs (fs.blkBmaps (g.groupOf b)) := by
  refine ⟨valid.groupOf_lt (Nat.lt_of_lt_of_le free.2.1 valid.total_le_bitmapEnd), mem_clearBits.mpr ⟨?_, free.2.2⟩⟩
  rw [← valid.perGroup]
  exact Nat.mod_lt _ valid.perGroup_pos

theorem Fs.Counted.not_free_of_zero (zero : Desc.freeBlocks g.gdsize (fs.groupDescriptor (g.groupOf b)) = 0) :
    ¬ g.Free fs.blkBmaps b := by
  intro free
  obtain ⟨group, clear⟩ := free.clear valid
  rw [counted.counts _ group, Finset.card_eq_zero] at zero
  rw [zero] at clear
  exact absurd clear (Finset.notMem_empty _)

theorem Fs.Counted.take {p : Nat} {j : List (Nat × Buf)} {q : PrevIndices} (free : g.Free fs.blkBmaps b)
    (word : c < 2 ^ 32) (state : fs' = takeBlock
      { fs with
        blkBmaps := Function.update fs.blkBmaps (g.groupOf b)
          (setBmap (fs.blkBmaps (g.groupOf b)) (g.bitOf b / 8) (g.bitOf b % 8))
        currBlkno := c
        firstPassBbmap := p
        journalPtr := j
        prev := q } (g.groupOf b)) : fs'.Counted env g S V ∧ GotBlock g fs b fs' := by
  have on := counted.on
  have gdsize := on.root.gdsize
  obtain ⟨group, clear⟩ := free.clear valid
  have some : Desc.freeBlocks g.gdsize (fs.groupDescriptor (g.groupOf b)) ≠ 0 := fun zero =>
    counted.not_free_of_zero valid zero free
  have descends : fs.Descends
      (fs.putDescriptor (g.groupOf b) (bgFreeBlocksDec fs.root.gdsize (fs.groupDescriptor (g.groupOf b)))) :=
    Fs.putDescriptor_descends (gdsize ▸ valid.descriptor) (.putWide16 _ _ (by decide) (by decide))
  have stored {i o : Nat} (inside : o < g.gdsize) : fs'.groupDescriptor i o =
      if i = g.groupOf b then bgFreeBlocksDec g.gdsize (fs.groupDescriptor (g.groupOf b)) o
      else fs.groupDescriptor i o := by
    rw [state, ← gdsize]
    exact Fs.groupDescriptor_putDescriptor _ (by rw [gdsize]; exact inside)
  have count : ∀ i < g.groups, Desc.freeBlocks g.gdsize (fs'.groupDescriptor i) + (if i = g.groupOf b then 1 else 0) =
      Desc.freeBlocks g.gdsize (fs.groupDescriptor i) := by
    intro i below
    by_cases here : i = g.groupOf b
    · subst here
      rw [if_pos rfl, Desc.freeBlocks_congr valid.descriptor (fun o inside => (stored inside).trans (if_pos rfl)),
        Desc.freeBlocks_dec some]
    · rw [if_neg here, Desc.freeBlocks_congr valid.descriptor (fun o inside => (stored inside).trans (if_neg here)),
        Nat.add_zero]
  have bitmaps : fs'.blkBmaps = Function.update fs.blkBmaps (g.groupOf b)
      (setBmap (fs.blkBmaps (g.groupOf b)) (g.bitOf b / 8) (g.bitOf b % 8)) := by rw [state]; rfl
  refine ⟨⟨?_, ?_, counted.few, fun i below => ?_, fun i below => ?_, fun i below => ?_, fun x lower upper => ?_, ?_⟩,
    free, bitmaps, count, ?_⟩
  · rw [state]
    exact { on with }
  · rw [state]
    exact counted.groups
  · have same : fs'.bbitmapBlk i = fs.bbitmapBlk i := by
      rw [state]
      exact (descends.2 i).blockId
    rw [same]
    exact counted.bitmap i below
  · rw [Bool.eq_false_iff]
    intro set_
    rw [state] at set_
    exact absurd ((descends.2 i).flags _ set_) (by rw [counted.initialised i below]; decide)
  · have before := counted.counts i below
    rw [← count i below] at before
    rw [bitmaps]
    by_cases here : i = g.groupOf b
    · subst here
      rw [if_pos rfl] at before
      rw [Function.update_self, clearBits_setBmap, Finset.card_erase_of_mem clear]
      omega
    · rw [if_neg here] at before
      rw [Function.update_of_ne here]
      exact before
  · have nonempty := valid.nonempty
    rw [bitmaps, Geometry.marked_set free.1 (by omega), counted.padding x lower upper, Bool.true_or]
  · rw [state]
    exact word
  · rw [state]
    exact sbGetFreeBlocks_dec fs.sb

theorem Fs.Counted.logBlock (below : i < g.groups) (room : fs.journalPtr.length < maxJournalEntries)
    {bmaps : Nat → Buf} {p : Nat} {gd sb : Buf} (state : fs' =
      { fs with blkBmaps := bmaps, currBlkno := c, firstPassBbmap := p, gdtable := gd, sb := sb }) :
    ∃ j, Ext4.logBlock env (fs.bbitmapBlk i) fs' = some (true, { fs' with journalPtr := j }) := by
  have small := valid.total_lt
  have inside := counted.bitmap i below
  have on : fs'.On env g S V := by
    rw [state]
    exact { counted.on with }
  rw [Ext4.logBlock, run_bind, Ext4.readBlock, reading, on.readBlock valid inside, Option.bind_some, w32_of_lt (by omega)]
  simp only
  unfold ext4fsLogJournal pushJournal
  have table : fs'.journalPtr = fs.journalPtr := by rw [state]
  rw [run_bind]
  split
  · exact ⟨fs'.journalPtr, rfl⟩
  · rw [if_neg (by rw [table]; omega)]
    exact ⟨_, rfl⟩

omit valid in
theorem Fs.Counted.initBlockBitmap (below : i < g.groups) : Ext4.initBlockBitmap env i fs = some ((), fs) := by
  rw [Ext4.initBlockBitmap, get_bind]
  simp only [counted.initialised i below, Bool.false_eq_true, if_false]
  rfl

theorem Fs.Counted.firstBlkInGroup (below : i < g.groups) (room : fs.journalPtr.length < maxJournalEntries) :
    (Desc.freeBlocks g.gdsize (fs.groupDescriptor i) = 0 ∧ Ext4.firstBlkInGroup env i fs = some (none, fs)) ∨
      ∃ b fs', Ext4.firstBlkInGroup env i fs = some (some b, fs') ∧ g.groupOf b = i ∧ fs'.Counted env g S V ∧
        GotBlock g fs b fs' ∧ fs'.currBlkno = b ∧ fs'.firstPassBbmap = fs.firstPassBbmap + 1 ∧
        ∀ x, g.Free fs.blkBmaps x → g.groupOf x = i → b ≤ x := by
  have on := counted.on
  have gdsize := on.root.gdsize
  obtain ⟨r, run⟩ : ∃ r, r = Ext4.firstBlkInGroup env i fs := ⟨_, rfl⟩
  rw [← run]
  rw [Ext4.firstBlkInGroup, get_bind] at run
  simp only [run_ite, gdsize] at run
  by_cases zero : Desc.freeBlocks g.gdsize (fs.groupDescriptor i) = 0
  · rw [if_pos zero] at run
    exact Or.inl ⟨zero, run⟩
  · right
    rw [if_neg zero, bind_of_run (counted.initBlockBitmap below), get_bind] at run
    rcases getNewBlkNo_spec fs.blksz (fs.blkBmaps i) with ⟨-, full⟩ | ⟨n, small, taken, clear, before⟩
    · rw [counted.counts i below, Finset.card_eq_zero] at zero
      refine absurd (Finset.eq_empty_of_forall_notMem (fun n member => ?_)) zero
      obtain ⟨inside, clear⟩ := mem_clearBits.mp member
      rw [full n (by rw [on.blksz]; exact inside)] at clear
      cases clear
    · rw [on.blksz] at small
      have offset : (if fs.blksz = 1024 then 1 else 0) = g.firstDataBlock := by
        rw [on.blksz]
        exact valid.first_eq.symm
      rw [offset] at taken
      simp only [taken] at run
      obtain ⟨group, number⟩ := valid.groupOf_bit (i := i) small
      have free := counted.free_of_clear valid below (mem_clearBits.mpr ⟨small, clear⟩)
      obtain ⟨b, block⟩ : ∃ b, b = n + g.firstDataBlock + i * g.bs * 8 := ⟨_, rfl⟩
      rw [← block] at group number free
      have word : b < 2 ^ 32 := by
        have total := valid.total_lt
        have inside := free.2.1
        omega
      obtain ⟨fs₁, state⟩ : ∃ fs₁, fs₁ = takeBlock
          { fs with
            blkBmaps := Function.update fs.blkBmaps i (setBmap (fs.blkBmaps i) (n / 8) (n % 8))
            currBlkno := n + g.firstDataBlock + i * fs.blksz * 8
            firstPassBbmap := fs.firstPassBbmap + 1 } i := ⟨_, rfl⟩
      rw [modify_bind, ← state, get_bind] at run
      have descends : fs.Descends (fs.putDescriptor i (bgFreeBlocksDec fs.root.gdsize (fs.groupDescriptor i))) :=
        Fs.putDescriptor_descends (gdsize ▸ valid.descriptor) (.putWide16 _ _ (by decide) (by decide))
      have bitmap : fs₁.bbitmapBlk i = fs.bbitmapBlk i := by
        rw [state]
        exact (descends.2 i).blockId
      obtain ⟨j, logged⟩ := counted.logBlock valid below room state
      obtain ⟨fs₂, state₂⟩ : ∃ fs₂ : Fs, fs₂ = { fs₁ with journalPtr := j } := ⟨_, rfl⟩
      rw [run_bind, bitmap, logged, ← state₂, Option.bind_some] at run
      have cursor : fs₁.currBlkno = b := by
        rw [state, block, ← on.blksz]
        rfl
      have whole : fs₂ = takeBlock
          { fs with
            blkBmaps := Function.update fs.blkBmaps (g.groupOf b)
              (setBmap (fs.blkBmaps (g.groupOf b)) (g.bitOf b / 8) (g.bitOf b % 8))
            currBlkno := b
            firstPassBbmap := fs.firstPassBbmap + 1
            journalPtr := j
            prev := fs.prev } (g.groupOf b) := by
        rw [group, number, state₂, state, block, on.blksz]
        rfl
      obtain ⟨counted', got⟩ := counted.take valid free word whole
      refine ⟨b, fs₂, ?_, group, counted', got, by rw [state₂, cursor], ?_, fun x free' here => ?_⟩
      · rw [run, if_pos rfl, cursor]
        rfl
      · rw [whole]
        rfl
      · obtain ⟨-, clear'⟩ := free'.clear valid
        have later : n ≤ g.bitOf x := by
          by_contra less
          have set_ := before _ (Nat.lt_of_not_le less)
          rw [← here, (mem_clearBits.mp clear').2] at set_
          cases set_
        have place := Nat.div_add_mod (x - g.firstDataBlock) g.blocksPerGroup
        have lower := free'.1
        unfold Geometry.groupOf at here
        unfold Geometry.bitOf at later
        rw [here, valid.perGroup, show 8 * g.bs * i = i * g.bs * 8 by ring] at place
        rw [valid.perGroup] at later
        omega

omit counted in
theorem groupOfBlock_lt (on : fs.On env g S V) (lower : g.firstDataBlock ≤ b) (upper : b < g.bitmapEnd) :
    groupOfBlock fs b < g.groups := by
  have positive := valid.perGroup_pos
  have first := valid.first_eq
  have whole := Nat.div_add_mod b g.blocksPerGroup
  have many := valid.groups_pos
  unfold Geometry.bitmapEnd at upper
  simp only [groupOfBlock, on.root.perGroup, on.blksz]
  by_cases small : g.bs = 1024
  · rw [if_pos small] at first
    split
    · next last =>
      have quotient : b / g.blocksPerGroup ≤ g.groups := Nat.div_le_of_le_mul (by rw [Nat.mul_comm]; omega)
      have some_group : b / g.blocksPerGroup ≠ 0 := by
        intro zero
        rw [zero, last.2] at whole
        omega
      have bound := valid.groups_lt
      obtain ⟨q, value⟩ := Nat.exists_eq_succ_of_ne_zero some_group
      rw [value] at quotient ⊢
      unfold w32 minusOne
      omega
    · next other =>
      refine (Nat.div_lt_iff_lt_mul positive).mpr (Nat.lt_of_le_of_ne (by omega) (fun same => ?_))
      exact other ⟨small, by rw [same]; exact Nat.mul_mod_left _ _⟩
  · rw [if_neg small] at first
    rw [if_neg (fun both => small both.1)]
    exact (Nat.div_lt_iff_lt_mul positive).mpr (by omega)

/-- What a call gives, with the search to be taken up behind the block. -/
def Fs.Gives (env : Env) (g : Geometry) (S : Nat → Prop) (V : Buf) (fs : Fs) (b : Nat) (fs' : Fs) : Prop :=
  fs'.Counted env g S V ∧ (b = minusOne ∧ NoBlock g fs fs' ∨
    GotBlock g fs b fs' ∧ fs'.firstPassBbmap ≠ 0 ∧ fs'.currBlkno = b ∧ ∀ x, g.Free fs.blkBmaps x → b ≤ x)

omit valid counted in
theorem Fs.Gives.of_cursor (gives : Fs.Gives env g S V { fs with currBlkno := c } b fs') :
    fs.Gives env g S V b fs' := by
  obtain ⟨counted', ⟨failed, none⟩ | ⟨got, rest⟩⟩ := gives
  · exact ⟨counted', Or.inl ⟨failed, none.full, none.bitmaps, none.descriptors, none.superblock⟩⟩
  · exact ⟨counted', Or.inr ⟨⟨got.free, got.bitmaps, got.group, got.superblock⟩, rest⟩⟩

theorem Fs.Counted.firstPass {left : Nat} (room : fs.journalPtr.length < maxJournalEntries)
    (whole : i + left = g.groups) (before : ∀ x, g.Free fs.blkBmaps x → i ≤ g.groupOf x) :
    ∃ r fs', shortLoop (Ext4.firstBlkInGroup env) left i fs = some (r, fs') ∧
      fs.Gives env g S V (r.getD minusOne) fs' := by
  induction left generalizing i with
  | zero =>
    refine ⟨none, fs, rfl, counted, Or.inl ⟨rfl, fun x free => ?_, rfl, rfl, rfl⟩⟩
    have later := before x free
    have inside := (free.clear valid).1
    omega
  | succ left ih =>
    have few := counted.few
    have below : i < g.groups := by omega
    rw [shortLoop, run_ite, if_neg (by omega), run_bind]
    rcases counted.firstBlkInGroup valid below room with ⟨zero, round⟩ | ⟨b, fs', round, group, counted', got, cursor, pass, least⟩
    · rw [round, Option.bind_some]
      refine ih (by omega) (fun x free => ?_)
      have later := before x free
      have notHere : g.groupOf x ≠ i := fun here => counted.not_free_of_zero valid (here ▸ zero) free
      omega
    · rw [round, Option.bind_some]
      refine ⟨some b, fs', rfl, counted', Or.inr ⟨got, by omega, cursor, fun x free => ?_⟩⟩
      rw [Option.getD_some]
      by_contra less
      have earlier : g.groupOf x ≤ g.groupOf b := Nat.div_le_div_right (by omega)
      have later := before x free
      exact less (least x free (by omega))

omit counted in
theorem nextBlkLoop_gives {rounds : Nat} {fs : Fs} (counted : fs.Counted env g S V)
    (room : fs.journalPtr.length < maxJournalEntries) (pass : fs.firstPassBbmap ≠ 0)
    (enough : g.bitmapEnd - fs.currBlkno < rounds)
    (ahead : ∀ x, g.Free fs.blkBmaps x → g.firstDataBlock ≤ fs.currBlkno ∧ fs.currBlkno ≤ x) :
    ∃ b fs', nextBlkLoop env rounds fs = some (b, fs') ∧ fs.Gives env g S V b fs' := by
  induction rounds generalizing fs with
  | zero => exact absurd enough (Nat.not_lt_zero _)
  | succ rounds ih =>
    have on := counted.on
    have gdsize := on.root.gdsize
    have word := valid.bitmapEnd_lt
    obtain ⟨r, run⟩ : ∃ r, r = nextBlkLoop env (rounds + 1) fs := ⟨_, rfl⟩
    rw [← run]
    rw [nextBlkLoop, get_bind] at run
    simp only [run_ite, gdsize, counted.groups, on.root.perGroup] at run
    by_cases outside : g.groups ≤ groupOfBlock fs fs.currBlkno
    · rw [if_pos outside] at run
      refine ⟨minusOne, fs, run, counted, Or.inl ⟨rfl, fun x free => ?_, rfl, rfl, rfl⟩⟩
      obtain ⟨lower, later⟩ := ahead x free
      have inside := free.2.1
      have total := valid.total_le_bitmapEnd
      have group := groupOfBlock_lt valid on lower (by omega)
      omega
    · rw [if_neg outside] at run
      obtain ⟨lower, group⟩ :=
        valid.groupOfBlock_eq on.root on.blksz counted.cursor (Nat.lt_of_not_le outside)
      have below : g.groupOf fs.currBlkno < g.groups := by omega
      have upper := valid.lt_bitmapEnd below
      rw [group] at run
      by_cases zero : Desc.freeBlocks g.gdsize (fs.groupDescriptor (g.groupOf fs.currBlkno)) = 0
      · -- The group is full: the search goes on with the first block of the next one.
        rw [if_pos zero, modify_bind] at run
        obtain ⟨c, next⟩ : ∃ c, c = (g.groupOf fs.currBlkno + 1) * g.blocksPerGroup + g.firstDataBlock := ⟨_, rfl⟩
        have offset : (if fs.blksz = 1024 then 1 else 0) = g.firstDataBlock := by
          rw [on.blksz]
          exact valid.first_eq.symm
        rw [offset, ← next] at run
        have place := Nat.lt_mul_div_succ (fs.currBlkno - g.firstDataBlock) valid.perGroup_pos
        rw [Nat.mul_comm] at place
        have last : (g.groupOf fs.currBlkno + 1) * g.blocksPerGroup ≤ g.groups * g.blocksPerGroup :=
          Nat.mul_le_mul_right _ below
        have ends : c ≤ g.bitmapEnd := by
          unfold Geometry.bitmapEnd
          omega
        have further : fs.currBlkno < c := by
          unfold Geometry.groupOf at next
          omega
        have counted' : Fs.Counted env g S V { fs with currBlkno := c } :=
          { counted with on := { on with }, cursor := (by omega : c < 2 ^ 32) }
        suffices ahead' : ∀ x, g.Free fs.blkBmaps x → g.firstDataBlock ≤ c ∧ c ≤ x by
          obtain ⟨b, fs', further_run, gives⟩ := ih counted' room pass (by simp only; omega) ahead'
          exact ⟨b, fs', run.trans further_run, gives.of_cursor⟩
        intro x free
        have later := (ahead x free).2
        have groups : g.groupOf fs.currBlkno ≤ g.groupOf x := Nat.div_le_div_right (by omega)
        have notHere : g.groupOf x ≠ g.groupOf fs.currBlkno := fun here =>
          counted.not_free_of_zero valid (here ▸ zero) free
        have start : g.groupOf x * g.blocksPerGroup ≤ x - g.firstDataBlock := Nat.div_mul_le_self _ _
        have step : (g.groupOf fs.currBlkno + 1) * g.blocksPerGroup ≤ g.groupOf x * g.blocksPerGroup :=
          Nat.mul_le_mul_right _ (by omega)
        have lower' := free.1
        omega
      · rw [if_neg zero, bind_of_run (counted.initBlockBitmap below), get_bind] at run
        have bitmap : ext4fsSetBlockBmap fs.root.blockSize fs.currBlkno (fs.blkBmaps (g.groupOf fs.currBlkno))
            (g.groupOf fs.currBlkno) = if g.marked fs.blkBmaps fs.currBlkno then none
              else some (setBmap (fs.blkBmaps (g.groupOf fs.currBlkno)) (g.bitOf fs.currBlkno / 8)
                (g.bitOf fs.currBlkno % 8)) := by
          rw [ext4fsSetBlockBmap, on.root.blockSize, valid.blockBit_eq lower]
          rfl
        by_cases set_ : g.marked fs.blkBmaps fs.currBlkno = true
        · rw [if_pos set_] at bitmap
          simp only [bitmap] at run
          rw [modify_bind] at run
          have next : w32 (fs.currBlkno + 1) = fs.currBlkno + 1 := w32_of_lt (by omega)
          have counted' : Fs.Counted env g S V { fs with currBlkno := w32 (fs.currBlkno + 1) } :=
            { counted with on := { on with }, cursor := w32_lt _ }
          suffices ahead' : ∀ x, g.Free fs.blkBmaps x → g.firstDataBlock ≤ w32 (fs.currBlkno + 1) ∧
              w32 (fs.currBlkno + 1) ≤ x by
            obtain ⟨b, fs', further_run, gives⟩ := ih counted' room pass (by simp only; omega) ahead'
            exact ⟨b, fs', run.trans further_run, gives.of_cursor⟩
          intro x free
          have later := (ahead x free).2
          have notHere : x ≠ fs.currBlkno := fun here => by
            have clear := free.2.2
            rw [here, set_] at clear
            cases clear
          omega
        · rw [if_neg set_] at bitmap
          simp only [bitmap] at run
          have free : g.Free fs.blkBmaps fs.currBlkno := by
            refine ⟨lower, ?_, Bool.eq_false_iff.mpr set_⟩
            by_contra outside
            exact set_ (counted.padding _ (Nat.le_of_not_lt outside) upper)
          rw [modify_bind] at run
          obtain ⟨fs₁, state⟩ : ∃ fs₁ : Fs, fs₁ =
              { fs with
                blkBmaps := Function.update fs.blkBmaps (g.groupOf fs.currBlkno)
                  (setBmap (fs.blkBmaps (g.groupOf fs.currBlkno)) (g.bitOf fs.currBlkno / 8)
                    (g.bitOf fs.currBlkno % 8)) } := ⟨_, rfl⟩
          rw [← state] at run
          have got {j : List (Nat × Buf)} {q : PrevIndices} {fs' : Fs}
              (whole : fs' = takeBlock { fs₁ with journalPtr := j, prev := q } (g.groupOf fs.currBlkno)) :
              fs.Gives env g S V fs.currBlkno fs' := by
            rw [state] at whole
            obtain ⟨counted', got⟩ := counted.take valid free counted.cursor whole
            refine ⟨counted', Or.inr ⟨got, ?_, ?_, fun x free' => (ahead x free').2⟩⟩
            · rw [whole]
              exact pass
            · rw [whole]
              rfl
          -- The bitmap is logged where that of another group was logged last.
          simp only [run_ite] at run
          split at run
          · obtain ⟨j, logged⟩ := counted.logBlock valid below room state
            rw [bind_of_run logged] at run
            simp only [if_true, modify_bind] at run
            exact ⟨fs.currBlkno, _, run, got rfl⟩
          · simp only [run_bind, run_pure, Option.bind_some, if_true, run_modify] at run
            exact ⟨fs.currBlkno, _, run, got rfl⟩

/-- Once a block was handed out, the free ones are those behind `curr_blkno`. -/
def Fs.Ahead (g : Geometry) (fs : Fs) : Prop :=
  fs.firstPassBbmap ≠ 0 → ∀ x, g.Free fs.blkBmaps x → fs.currBlkno < x

omit valid counted in
theorem Fs.Gives.ahead (gives : fs.Gives env g S V b fs') : fs'.Ahead g := by
  intro _ x free
  obtain ⟨-, ⟨-, none⟩ | ⟨got, -, cursor, least⟩⟩ := gives
  · rw [none.bitmaps] at free
    exact absurd free (none.full x)
  · obtain ⟨lower, inside, clear⟩ := free
    rw [got.bitmaps, Geometry.marked_set got.free.1 lower, Bool.or_eq_false_iff, decide_eq_false_iff_not] at clear
    have later := least x ⟨lower, inside, clear.1⟩
    rw [cursor]
    omega

theorem Fs.Counted.getNewBlkNo (ahead : fs.Ahead g) (room : fs.journalPtr.length < maxJournalEntries) :
    ∃ b fs', ext4fsGetNewBlkNo env fs = some (b, fs') ∧ fs.Gives env g S V b fs' := by
  have on := counted.on
  rw [ext4fsGetNewBlkNo, get_bind]
  simp only [run_ite]
  split
  · obtain ⟨r, fs', loop, gives⟩ := counted.firstPass valid room (Nat.zero_add _) (fun x _ => Nat.zero_le _)
    refine ⟨r.getD minusOne, fs', ?_, gives⟩
    rw [counted.groups, bind_of_run loop, run_pure]
  · next later =>
    rw [modify_bind]
    have counted' : Fs.Counted env g S V { fs with currBlkno := w32 (fs.currBlkno + 1) } :=
      { counted with on := { on with }, cursor := w32_lt _ }
    have first := valid.first_le
    have rounds : g.bitmapEnd < (g.groups + 1) * g.blocksPerGroup + 2 := by
      unfold Geometry.bitmapEnd
      rw [Nat.add_mul]
      omega
    have enough : g.bitmapEnd - w32 (fs.currBlkno + 1) <
        (fs.noBlkgrp + 1) * Sblock.blocksPerGroup fs.root.sblock + 2 := by
      rw [counted.groups, on.root.perGroup]
      omega
    obtain ⟨b, fs', run, gives⟩ := nextBlkLoop_gives valid counted' room later enough (fun x free => by
      have behind := ahead later x free
      have small := free.2.1
      have total := valid.total_lt
      simp only
      rw [w32_of_lt (by omega)]
      omega)
    exact ⟨b, fs', run, gives.of_cursor⟩

end Call

/-- The results of `n` calls of `ext4fs_get_new_blk_no`. -/
def newBlocks (env : Env) : Nat → Run (List Nat)
  | 0 => pure []
  | n + 1 => do
    let b ← ext4fsGetNewBlkNo env
    let bs ← newBlocks env n
    pure (b :: bs)

/-- Calls that each hand out a block that is free by then, or fail where none is. -/
inductive Allocations (g : Geometry) : Fs → List Nat → Fs → Prop
  | nil (fs : Fs) : Allocations g fs [] fs
  | got {fs fs₁ fs' : Fs} {b : Nat} {bs : List Nat} (call : GotBlock g fs b fs₁) (rest : Allocations g fs₁ bs fs') :
    Allocations g fs (b :: bs) fs'
  | failed {fs fs₁ fs' : Fs} {bs : List Nat} (call : NoBlock g fs fs₁) (rest : Allocations g fs₁ bs fs') :
    Allocations g fs (minusOne :: bs) fs'

theorem Allocations.distinct {g : Geometry} {fs fs' : Fs} {bs : List Nat} (allocations : Allocations g fs bs fs') :
    (bs.filter (· ≠ minusOne)).Nodup ∧ ∀ b ∈ bs, b ≠ minusOne → g.Free fs.blkBmaps b := by
  induction allocations with
  | nil fs => exact ⟨List.nodup_nil, fun b member => absurd member List.not_mem_nil⟩
  | @got fs fs₁ fs' b bs call rest ih =>
    have kept : ∀ x, g.Free fs₁.blkBmaps x → g.Free fs.blkBmaps x ∧ x ≠ b := by
      rintro x ⟨lower, inside, clear⟩
      rw [call.bitmaps, Geometry.marked_set call.free.1 lower, Bool.or_eq_false_iff, decide_eq_false_iff_not] at clear
      exact ⟨⟨lower, inside, clear.1⟩, clear.2⟩
    refine ⟨?_, fun x member some => ?_⟩
    · by_cases none : b = minusOne
      · rw [List.filter_cons_of_neg (by simpa using none)]
        exact ih.1
      · rw [List.filter_cons_of_pos (by simpa using none)]
        refine List.nodup_cons.mpr ⟨fun again => ?_, ih.1⟩
        have member := List.mem_of_mem_filter again
        exact (kept b (ih.2 b member none)).2 rfl
    · rcases List.mem_cons.mp member with rfl | later
      · exact call.free
      · exact (kept x (ih.2 x later some)).1
  | @failed fs fs₁ fs' bs call rest ih =>
    rw [call.bitmaps] at ih
    refine ⟨?_, fun x member some => ?_⟩
    · rw [List.filter_cons_of_neg (by simp)]
      exact ih.1
    · rcases List.mem_cons.mp member with rfl | later
      · exact absurd rfl some
      · exact ih.2 x later some

section Calls

variable {env : Env} {g : Geometry} {S : Nat → Prop} {V : Buf} {fs : Fs} (valid : g.Valid env)
include valid

theorem Fs.Counted.newBlocks {n : Nat} {fs : Fs} (counted : fs.Counted env g S V) (ahead : fs.Ahead g)
    (room : ∀ k < n, ∀ bs fs', Ext4.newBlocks env k fs = some (bs, fs') → fs'.journalPtr.length < maxJournalEntries) :
    ∃ bs fs', Ext4.newBlocks env n fs = some (bs, fs') ∧ bs.length = n ∧ Allocations g fs bs fs' := by
  induction n generalizing fs with
  | zero => exact ⟨[], fs, rfl, rfl, .nil fs⟩
  | succ n ih =>
    obtain ⟨b, fs₁, call, gives⟩ := counted.getNewBlkNo valid ahead (room 0 (Nat.succ_pos n) [] fs rfl)
    obtain ⟨bs, fs', calls, length, rest⟩ := ih gives.1 gives.ahead (fun k below bs fs' run =>
      room (k + 1) (by omega) (b :: bs) fs' (bind_eq_some.mpr ⟨b, fs₁, call, bind_eq_some.mpr ⟨bs, fs', run, rfl⟩⟩))
    refine ⟨b :: bs, fs', bind_eq_some.mpr ⟨b, fs₁, call, bind_eq_some.mpr ⟨bs, fs', calls, rfl⟩⟩, by simp [length], ?_⟩
    obtain ⟨-, ⟨rfl, none⟩ | ⟨got, -⟩⟩ := gives
    · exact .failed none rest
    · exact .got got rest

/-- Any number of calls of `ext4fs_get_new_blk_no`, the first of them with nothing handed out yet, as long as the table of
the journal has room: they give different blocks, all of which were free; each sets the bit of its block and counts it;
and a call fails exactly where no block is left. -/
theorem getNewBlkNo_allocations {n : Nat} (counted : fs.Counted env g S V) (first : fs.firstPassBbmap = 0)
    (room : ∀ k < n, ∀ bs fs', newBlocks env k fs = some (bs, fs') → fs'.journalPtr.length < maxJournalEntries) :
    ∃ bs fs', newBlocks env n fs = some (bs, fs') ∧ bs.length = n ∧ Allocations g fs bs fs' ∧
      (bs.filter (· ≠ minusOne)).Nodup ∧ ∀ b ∈ bs, b ≠ minusOne → g.Free fs.blkBmaps b := by
  obtain ⟨bs, fs', run, length, allocations⟩ := counted.newBlocks valid (fun later => absurd first later) room
  exact ⟨bs, fs', run, length, allocations, allocations.distinct⟩

end Calls

theorem sampleFs_clear : (clearBits 1024 (sampleFs.blkBmaps 0)).card = 22 := by
  have bitmap : sampleFs.blkBmaps 0 = sampleGeometry.blk (sampleEnv.volume (sampleCard false)) 3 := by
    have number : sampleGeometry.bbm (sampleEnv.volume (sampleCard false)) 0 = 3 := by decide +kernel
    exact congrArg (sampleGeometry.blk (sampleEnv.volume (sampleCard false))) number
  have first : clearBits 1024 (sampleFs.blkBmaps 0) =
      (Finset.range 64).filter (fun n => testBmap (sampleFs.blkBmaps 0) (n / 8) (n % 8) = false) := by
    ext n
    rw [mem_clearBits, Finset.mem_filter, Finset.mem_range]
    refine ⟨fun ⟨inside, clear⟩ => ⟨?_, clear⟩, fun ⟨small, clear⟩ => ⟨by omega, clear⟩⟩
    by_contra large
    have full := sampleCard_bitmap false (show 8 ≤ n / 8 by omega) (by omega)
    rw [bitmap, testBmap_full full (Nat.mod_lt _ (by decide))] at clear
    cases clear
  rw [first]
  decide +kernel

theorem sampleFs_counted :
    sampleFs.Counted sampleEnv sampleGeometry (fun _ => False) (sampleEnv.volume (sampleCard false)) := by
  have one : sampleGeometry.groups = 1 := rfl
  have only {i : Nat} (below : i < sampleGeometry.groups) : i = 0 := by omega
  refine ⟨⟨⟨by decide +kernel, by decide +kernel, by decide +kernel, by decide +kernel, by decide +kernel, rfl, rfl⟩, rfl,
    by decide +kernel, rfl, Caches.Ok.reinit _ _⟩, rfl, by decide, fun i below => ?_, fun i below => ?_,
    fun i below => ?_, fun b lower upper => ?_, by decide⟩
  · rw [only below]
    decide +kernel
  · rw [only below]
    decide +kernel
  · rw [only below]
    exact Eq.trans (by decide +kernel) sampleFs_clear.symm
  · have total : sampleGeometry.totalBlocks = 64 := rfl
    exact sampleCard_marked false (by omega) (by omega) upper

/-- Three calls where 22 blocks are free. -/
theorem sampleFs_allocations :
    ∃ bs fs', newBlocks sampleEnv 3 sampleFs = some (bs, fs') ∧ bs.length = 3 ∧
      Allocations sampleGeometry sampleFs bs fs' ∧ (bs.filter (· ≠ minusOne)).Nodup ∧
      ∀ b ∈ bs, b ≠ minusOne → sampleGeometry.Free sampleFs.blkBmaps b := by
  refine getNewBlkNo_allocations (sampleCard_consistent false).valid sampleFs_counted rfl (fun k below bs fs' run => ?_)
  have lengths : ∀ k < 3, (newBlocks sampleEnv k sampleFs).all (fun r => r.2.journalPtr.length < maxJournalEntries) = true := by
    decide +kernel
  have all := lengths k below
  rw [run] at all
  simpa using all

/-- What the allocator and the routines that release blocks compute for the blocks of a volume, `total` in all: group and
bit are quotient and remainder of the number that counts from the first data block. -/
structure BlockLayout.Uniform (l : BlockLayout) (fs : Fs) (total : Nat) : Prop where
  place : ∀ b, l.first ≤ b → b < total → groupOfBlock fs b = (b - l.first) / (8 * l.bs) ∧
    blockBit l.bs b (groupOfBlock fs b) = ((b - l.first) % (8 * l.bs) / 8, (b - l.first) % (8 * l.bs) % 8)
  restored : ∀ b bmap bmap', l.first ≤ b → b < total →
    ext4fsSetBlockBmap l.bs b bmap (groupOfBlock fs b) = some bmap' →
    ext4fsResetBlockBmap l.bs b bmap' (groupOfBlock fs b) = bmap
  distinct : ∀ b b', l.first ≤ b → b < total → l.first ≤ b' → b' < total → groupOfBlock fs b = groupOfBlock fs b' →
    blockBit l.bs b (groupOfBlock fs b) = blockBit l.bs b' (groupOfBlock fs b') → b = b'
  taken : ∀ i bmap no bmap', l.first + i * l.bs * 8 < total → getNewBlkNo l.bs bmap = some (no, bmap') →
    groupOfBlock fs (no + i * l.bs * 8) = i ∧ ext4fsSetBlockBmap l.bs (no + i * l.bs * 8) bmap i = some bmap'

/-- A volume on a partition whose sectors of 512 bytes are counted in 32 bits. -/
theorem blockLayout_uniform {l : BlockLayout} {fs : Fs} {total : Nat} (size : fs.blksz = l.bs)
    (perGroup : Sblock.blocksPerGroup fs.root.sblock = 8 * l.bs) (inside : total * l.bs < 2 ^ 32 * 512) :
    l.Uniform fs total := by
  have sizes := l.sizes
  have small : total < 2 ^ 31 := by
    by_contra large
    have least : 2 ^ 31 * 1024 ≤ total * l.bs := Nat.mul_le_mul (by omega) (by omega)
    omega
  have group {b : Nat} (lower : l.first ≤ b) (upper : b < total) : groupOfBlock fs b = l.groupOf b :=
    BlockLayout.groupOfBlock_eq size perGroup lower (by omega)
  refine ⟨fun b lower upper => ?_, fun b bmap bmap' lower upper run => ?_,
    fun b b' lower upper lower' upper' groups bits => ?_, fun i bmap no bmap' within run => ?_⟩
  · rw [group lower upper]
    exact ⟨rfl, BlockLayout.blockBit_eq lower⟩
  · rw [group lower upper] at run ⊢
    unfold ext4fsSetBlockBmap at run
    unfold ext4fsResetBlockBmap
    rw [BlockLayout.blockBit_eq lower] at run ⊢
    dsimp only at run ⊢
    split at run
    · cases run
    · next clear =>
      cases run
      exact resetBmap_setBmap (Nat.mod_lt _ (by decide)) (Bool.eq_false_iff.mpr clear)
  · rw [group lower upper, group lower' upper'] at groups bits
    rw [BlockLayout.blockBit_eq lower, BlockLayout.blockBit_eq lower', Prod.mk.injEq] at bits
    have same : l.bitOf b = l.bitOf b' := by omega
    rw [BlockLayout.eq_of_bit lower, BlockLayout.eq_of_bit lower', groups, same]
  · obtain ⟨n, below, number, clear, rfl⟩ := getNewBlkNo_some run
    have block : no = n + l.first := by
      rw [number]
      split <;> omega
    obtain ⟨groupEq, bitEq⟩ := @BlockLayout.groupOf_bit l i n below
    have lower : l.first ≤ n + l.first + i * l.bs * 8 := by omega
    have bit := BlockLayout.blockBit_eq lower
    rw [groupEq, bitEq] at bit
    rw [block, BlockLayout.groupOfBlock_eq size perGroup lower (by omega)]
    refine ⟨groupEq, ?_⟩
    unfold ext4fsSetBlockBmap
    rw [bit]
    dsimp only
    rw [clear, if_neg Bool.false_ne_true]

/-- The small volume has blocks of 1 KiB. -/
theorem sampleFs_uniform : BlockLayout.Uniform ⟨1024, 1, by decide⟩ sampleFs 64 :=
  blockLayout_uniform rfl (by decide +kernel) (by decide)

end UuuFastboot.Ext4
