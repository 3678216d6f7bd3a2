import UuuFastboot.Ext4.Bitmap
import UuuFastboot.Ext4.Recovery

namespace UuuFastboot.Ext4

open Word Overlay Bytes Partial

/-- The blocks of a volume `V` that are not to be handed out, with the bits behind its end, those of them
whose contents are to stay, and the inodes that are not to be handed out. The bitmaps that an uninitialised
group names hold nothing, and such a group has none of its blocks or inodes in use. -/
structure Areas (g : Geometry) (V : Buf) where
  used : Nat → Prop
  kept : Nat → Prop
  inodes : Nat → Prop
  kept_used : ∀ b, kept b → used b
  kept_below : ∀ b, kept b → b < g.totalBlocks
  zero : used 0
  padding : ∀ b, g.totalBlocks ≤ b → b < g.bitmapEnd → used b
  blockMap : ∀ i < g.groups, used (g.bbm V i) ∧ g.bbm V i < g.totalBlocks
  inodeMap : ∀ i < g.groups, used (g.ibm V i) ∧ g.ibm V i < g.totalBlocks
  blankBlocks : ∀ i < g.groups, hasBit (Desc.bgFlags (g.desc V i)) bgBlockUninit = true →
    ¬ kept (g.bbm V i) ∧ ∀ b, used b → g.firstDataBlock ≤ b → g.groupOf b ≠ i
  blankInodes : ∀ i < g.groups, hasBit (Desc.bgFlags (g.desc V i)) bgInodeUninit = true →
    ¬ kept (g.ibm V i) ∧ ∀ ino, inodes ino → (ino - 1) / g.inodesPerGroup ≠ i

structure CardWrite.Apart (g : Geometry) (kept : Nat → Prop) (w : CardWrite) : Prop where
  first : g.bs ∣ w.off
  size : g.bs ∣ w.size
  inside : w.off + w.size ≤ g.totalBlocks * g.bs
  apart : ∀ b, kept b → w.off + w.size ≤ b * g.bs ∨ (b + 1) * g.bs ≤ w.off

/-- The driver in a transaction that began in the state `base`, with the volume `V₁`, and that has handed
out the blocks `N`. Whatever it wrote since then went past the blocks whose contents are to stay, and
what it logged of these is what they held. -/
structure Fs.Busy (env : Env) (g : Geometry) (S : Nat → Prop) {V₁ : Buf} (A : Areas g V₁) (N : List Nat)
    (V : Buf) (fs base : Fs) : Prop where
  on : fs.On env g S V
  cached : ∀ x, S x → A.kept x ∨ x ∈ N
  groups : fs.noBlkgrp = g.groups
  follows : ∀ i < g.groups, Desc.Follows g.gdsize (g.desc V₁ i) (fs.groupDescriptor i)
  marked : ∀ b, A.used b ∨ b ∈ N → g.firstDataBlock ≤ b → b < g.bitmapEnd → g.marked fs.blkBmaps b = true
  blank : ∀ i < g.groups, hasBit (Desc.bgFlags (fs.groupDescriptor i)) bgBlockUninit = true →
    ∀ b ∈ N, g.groupOf b ≠ i
  inodes : ∀ ino, A.inodes ino → g.inodeMarked fs.inodeBmaps ino = true
  fresh : ∀ b ∈ N, ¬ A.used b ∧ g.firstDataBlock ≤ b ∧ b < g.totalBlocks
  nodup : N.Nodup
  same : ∀ b, A.kept b → g.SameBlock V₁ V b
  trace : ∃ T, fs.trace = base.trace ++ T ∧ ∀ w ∈ T, w.Apart g A.kept
  journal : ∃ L, fs.journalPtr = base.journalPtr ++ L ∧
    ∀ e ∈ L, A.kept e.1 → ∀ i < g.bs, e.2 i = V₁ (e.1 * g.bs + i)
  cursor : fs.currBlkno < 2 ^ 32

/-- What the allocators leave as it is. The table of the journal only grows. -/
structure Fs.Allocates (fs fs' : Fs) : Prop where
  root : fs'.root = fs.root
  gParentInode : fs'.gParentInode = fs.gParentInode
  dirtyBlockPtr : fs'.dirtyBlockPtr = fs.dirtyBlockPtr
  gdtableBlkno : fs'.gdtableBlkno = fs.gdtableBlkno
  noBlkPergdt : fs'.noBlkPergdt = fs.noBlkPergdt
  jrnlBlkIdx : fs'.jrnlBlkIdx = fs.jrnlBlkIdx
  journalPtr : fs.journalPtr <+: fs'.journalPtr
  features : ∀ o, 92 ≤ o → o < 104 → fs'.sb o = fs.sb o

theorem Fs.Allocates.refl (fs : Fs) : fs.Allocates fs := ⟨rfl, rfl, rfl, rfl, rfl, rfl, List.prefix_refl _, fun _ _ _ => rfl⟩

theorem Fs.Allocates.trans {fs fs' fs'' : Fs} (first : fs.Allocates fs') (second : fs'.Allocates fs'') :
    fs.Allocates fs'' :=
  ⟨second.root.trans first.root, second.gParentInode.trans first.gParentInode,
    second.dirtyBlockPtr.trans first.dirtyBlockPtr, second.gdtableBlkno.trans first.gdtableBlkno,
    second.noBlkPergdt.trans first.noBlkPergdt, second.jrnlBlkIdx.trans first.jrnlBlkIdx,
    first.journalPtr.trans second.journalPtr,
    fun o lower upper => (second.features o lower upper).trans (first.features o lower upper)⟩

theorem Fs.Allocates.of_log {fs fs' : Fs} {L : List (Nat × Buf)}
    (grows : fs' = { fs with journalPtr := fs.journalPtr ++ L }) : fs.Allocates fs' := by
  subst grows
  exact ⟨rfl, rfl, rfl, rfl, rfl, rfl, List.prefix_append _ _, fun _ _ _ => rfl⟩

def Fs.HasEntry (fs : Fs) (b : Nat) : Prop := ∃ e ∈ fs.journalPtr, e.1 = b

theorem Fs.HasEntry.mono {fs fs' : Fs} {b : Nat} (entry : fs.HasEntry b) (grows : fs.journalPtr <+: fs'.journalPtr) :
    fs'.HasEntry b := by
  obtain ⟨e, member, number⟩ := entry
  exact ⟨e, grows.subset member, number⟩

theorem Geometry.sameBlock_overlay {g : Geometry} {V buf : Buf} {b x : Nat} (other : x ≠ b) :
    g.SameBlock V (overlay V (b * g.bs) g.bs buf) x :=
  fun _ below => (overlay_block_other other below).symm

theorem Geometry.sameBlock_overlayRun {g : Geometry} {V buf : Buf} {b c x : Nat} (other : x < b ∨ b + c ≤ x) :
    g.SameBlock V (overlay V (b * g.bs) (c * g.bs) buf) x := by
  intro i below
  rcases other with before | after
  · have step : (x + 1) * g.bs ≤ b * g.bs := Nat.mul_le_mul_right _ before
    rw [Nat.add_mul, Nat.one_mul] at step
    exact (overlay_of_lt (by omega)).symm
  · have step : (b + c) * g.bs ≤ x * g.bs := Nat.mul_le_mul_right _ after
    rw [Nat.add_mul] at step
    exact (overlay_of_ge (by omega)).symm

theorem Geometry.marked_update {g : Geometry} (bmaps : Nat → Buf) (i : Nat) (bmap : Buf) (b : Nat) :
    g.marked (Function.update bmaps i bmap) b =
      if g.groupOf b = i then testBmap bmap (g.bitOf b / 8) (g.bitOf b % 8) else g.marked bmaps b := by
  unfold Geometry.marked
  split
  · next here => rw [here, Function.update_self]
  · next other => rw [Function.update_of_ne other]

section Steps

variable {env : Env} {g : Geometry} {S : Nat → Prop} {V₁ : Buf} {A : Areas g V₁} {base : Fs} {N : List Nat} {V : Buf}
  {fs : Fs} (valid : g.Valid env) (busy : fs.Busy env g S A N V base)

section Reading

include busy

theorem Fs.Busy.ne_zero {b : Nat} (member : b ∈ N) : b ≠ 0 := fun zero =>
  (busy.fresh b member).1 (zero ▸ A.zero)

theorem Fs.Busy.gdsize : fs.root.gdsize = g.gdsize := busy.on.root.gdsize

theorem Fs.Busy.bbitmapBlk {i : Nat} (below : i < g.groups) : fs.bbitmapBlk i = g.bbm V₁ i := by
  rw [Fs.bbitmapBlk, busy.gdsize, (busy.follows i below).blockId]
  rfl

theorem Fs.Busy.ibitmapBlk {i : Nat} (below : i < g.groups) : fs.ibitmapBlk i = g.ibm V₁ i := by
  rw [Fs.ibitmapBlk, busy.gdsize, (busy.follows i below).inodeId]
  rfl

theorem Fs.Busy.descend {fs' : Fs} (descends : fs.Descends fs') (card : fs'.card = fs.card)
    (trace : fs'.trace = fs.trace) (caches : fs'.caches = fs.caches) (blksz : fs'.blksz = fs.blksz)
    (sectPerblk : fs'.sectPerblk = fs.sectPerblk) (groups : fs'.noBlkgrp = fs.noBlkgrp)
    (blkBmaps : fs'.blkBmaps = fs.blkBmaps) (inodeBmaps : fs'.inodeBmaps = fs.inodeBmaps) (journalPtr : fs'.journalPtr = fs.journalPtr)
    (cursor : fs'.currBlkno < 2 ^ 32) : fs'.Busy env g S A N V base := by
  obtain ⟨root, further⟩ := descends
  rw [busy.gdsize] at further
  refine
    { on := ⟨root ▸ busy.on.root, blksz.trans busy.on.blksz, ?_, card ▸ busy.on.volume, ?_⟩
      cached := busy.cached
      groups := groups.trans busy.groups
      follows := fun i below => (busy.follows i below).trans (further i)
      marked := blkBmaps ▸ busy.marked
      blank := fun i below set_ => busy.blank i below ((further i).flags _ set_)
      inodes := inodeBmaps ▸ busy.inodes
      fresh := busy.fresh
      nodup := busy.nodup
      same := busy.same
      trace := trace ▸ busy.trace
      journal := journalPtr ▸ busy.journal
      cursor := cursor }
  · rw [sectPerblk, root]
    exact busy.on.sectPerblk
  · rw [caches, root]
    exact busy.on.caches

theorem Fs.Busy.mark {b : Nat} (lower : g.firstDataBlock ≤ b) (upper : b < g.bitmapEnd)
    (free : g.marked fs.blkBmaps b = false)
    (initialised : hasBit (Desc.bgFlags (fs.groupDescriptor (g.groupOf b))) bgBlockUninit = false) :
    ¬ A.used b ∧ b < g.totalBlocks ∧ b ∉ N ∧
      Fs.Busy env g S A (N ++ [b]) V
        { fs with
          blkBmaps := Function.update fs.blkBmaps (g.groupOf b)
            (setBmap (fs.blkBmaps (g.groupOf b)) (g.bitOf b / 8) (g.bitOf b % 8)) } base := by
  have unmarked : ∀ x, A.used x ∨ x ∈ N → x ≠ b := by
    rintro x old rfl
    rw [busy.marked x old lower upper] at free
    cases free
  have unused : ¬ A.used b := fun used => unmarked b (Or.inl used) rfl
  have notNew : b ∉ N := fun member => unmarked b (Or.inr member) rfl
  have inside : b < g.totalBlocks := by
    by_contra outside
    exact unused (A.padding b (by omega) upper)
  refine ⟨unused, inside, notNew, { busy with on := { busy.on with }, cached := ?_, marked := ?_, blank := ?_, fresh := ?_, nodup := ?_ }⟩
  · intro x inS
    exact (busy.cached x inS).imp_right (List.mem_append_left _)
  · intro x old low high
    simp only [Geometry.marked_update]
    split
    · next here =>
      rw [testBmap_setBmap (by omega)]
      rcases old with used | member
      · have set_ := busy.marked x (Or.inl used) low high
        rw [Geometry.marked, here] at set_
        rw [set_, Bool.true_or]
      · rcases List.mem_append.mp member with older | new
        · have set_ := busy.marked x (Or.inr older) low high
          rw [Geometry.marked, here] at set_
          rw [set_, Bool.true_or]
        · rw [List.mem_singleton.mp new]
          simp
    · next other =>
      refine busy.marked x (old.imp_right (fun member => ?_)) low high
      rcases List.mem_append.mp member with older | new
      · exact older
      · exact absurd (congrArg g.groupOf (List.mem_singleton.mp new)) other
  · intro i below set_ x member
    rcases List.mem_append.mp member with older | new
    · exact busy.blank i below set_ x older
    · rintro rfl
      rw [List.mem_singleton.mp new] at set_
      exact Bool.false_ne_true (initialised.symm.trans set_)
  · intro x member
    rcases List.mem_append.mp member with older | new
    · exact busy.fresh x older
    · rw [List.mem_singleton.mp new]
      exact ⟨unused, lower, inside⟩
  · exact List.nodup_append.mpr ⟨busy.nodup, List.nodup_singleton b, fun x older y new same =>
      notNew (by rw [List.mem_singleton.mp new] at same; exact same ▸ older)⟩

theorem Fs.Busy.log {n : Nat} {buf : Buf} {fs' : Fs} (run : ext4fsLogJournal buf n fs = some ((), fs'))
    (right : A.kept n → ∀ i < g.bs, buf i = V₁ (n * g.bs + i)) :
    fs'.Busy env g S A N V base ∧ fs'.HasEntry n ∧ ∃ L, fs' = { fs with journalPtr := fs.journalPtr ++ L } := by
  unfold ext4fsLogJournal pushJournal at run
  split at run
  · next there =>
    cases run
    obtain ⟨e, member, number⟩ := List.any_eq_true.mp there
    exact ⟨busy, ⟨e, member, by simpa using number⟩, [], by rw [List.append_nil]⟩
  · split at run
    · cases run
    · cases run
      obtain ⟨L, table, logged⟩ := busy.journal
      refine ⟨{ busy with on := { busy.on with }, journal := ⟨L ++ [(n, buf)], ?_, ?_⟩ },
        ⟨(n, buf), List.mem_append_right _ (List.mem_singleton.mpr rfl), rfl⟩, _, rfl⟩
      · simp only [table, List.append_assoc]
      · intro e member
        rcases List.mem_append.mp member with older | new
        · exact logged e older
        · rw [List.mem_singleton.mp new]
          exact right

end Reading

include valid busy

theorem Fs.Busy.writeRun {b c : Nat} (buf : Buf) (inside : b + c ≤ g.totalBlocks) (open_ : ∀ t < c, ¬ A.kept (b + t))
    (uncached : ∀ t < c, ¬ S (b + t)) :
    Fs.Busy env g S A N (overlay V (b * g.bs) (c * g.bs) buf) (fs.write env ⟨b * g.bs, buf, c * g.bs⟩) base := by
  have dvd := valid.devBlksz_dvd_bs
  have limit := valid.inside
  have room : b * g.bs + c * g.bs ≤ g.totalBlocks * g.bs := by
    rw [← Nat.add_mul]
    exact Nat.mul_le_mul_right _ inside
  have other : ∀ {P : Nat → Prop}, (∀ t < c, ¬ P (b + t)) → ∀ x, P x → x < b ∨ b + c ≤ x := by
    intro P none x holds
    by_contra between
    exact none (x - b) (by omega) (by rwa [Nat.add_sub_cancel' (by omega)])
  obtain ⟨T, trace, apart⟩ := busy.trace
  refine
    { busy with
      on := ⟨busy.on.root, busy.on.blksz, busy.on.sectPerblk, ?_, ?_⟩
      same := fun x kept => ?_
      trace := ⟨T ++ [⟨b * g.bs, buf, c * g.bs⟩], ?_, fun w member => ?_⟩ }
  · rw [← busy.on.volume]
    exact volume_putExt4 fs.card buf (dvd.mul_left b) (dvd.mul_left c) (room.trans limit)
  · exact busy.on.caches.congr (fun x inS => Geometry.sameBlock_overlayRun (other uncached x inS))
  · exact (busy.same x kept).trans (Geometry.sameBlock_overlayRun (other open_ x kept))
  · simp only [Fs.write, trace, List.append_assoc]
  · rcases List.mem_append.mp member with older | new
    · exact apart w older
    · rw [List.mem_singleton.mp new]
      refine ⟨Dvd.intro_left _ rfl, Dvd.intro_left _ rfl, room, fun x kept => ?_⟩
      rcases other open_ x kept with before | after
      · exact Or.inr (Nat.mul_le_mul_right _ before)
      · refine Or.inl ?_
        rw [← Nat.add_mul]
        exact Nat.mul_le_mul_right _ after

theorem Fs.Busy.write {b : Nat} (buf : Buf) (below : b < g.totalBlocks) (open_ : ¬ A.kept b) (uncached : ¬ S b) :
    Fs.Busy env g S A N (overlay V (b * g.bs) g.bs buf) (fs.write env ⟨b * fs.blksz, buf, fs.blksz⟩) base := by
  have one := busy.writeRun valid (c := 1) buf below (fun t small => by rwa [Nat.lt_one_iff.mp small])
    (fun t small => by rwa [Nat.lt_one_iff.mp small])
  rw [busy.on.blksz]
  rwa [Nat.one_mul] at one

theorem Fs.Busy.logBlock {b : Nat} {ok : Bool} {fs' : Fs} (below : b < g.totalBlocks)
    (run : logBlock env b fs = some (ok, fs')) :
    ok = true ∧ fs'.Busy env g S A N V base ∧ fs'.HasEntry b ∧
      ∃ L, fs' = { fs with journalPtr := fs.journalPtr ++ L } := by
  have small := valid.total_lt
  rw [Ext4.logBlock, run_bind, Ext4.readBlock, reading, busy.on.readBlock valid below, Option.bind_some,
    w32_of_lt (by omega)] at run
  obtain ⟨⟨⟩, fs₁, logged, last⟩ := bind_eq_some.mp run
  cases last
  obtain ⟨busy', entry, grows⟩ := busy.log logged (fun kept i inside => by
    rw [clip_of_lt inside]
    exact (busy.same b kept i inside).symm)
  exact ⟨rfl, busy', entry, grows⟩

/-- A block that is in use and yet not to be kept is written: the bitmap of an uninitialised group. -/
theorem Fs.Busy.writeBitmap {b : Nat} (buf : Buf) (used : A.used b) (below : b < g.totalBlocks) (open_ : ¬ A.kept b) :
    Fs.Busy env g S A N (overlay V (b * g.bs) g.bs buf) (fs.write env ⟨b * fs.blksz, buf, fs.blksz⟩) base ∧
      ∀ x ∈ N, g.SameBlock V (overlay V (b * g.bs) g.bs buf) x := by
  have notNew : b ∉ N := fun member => (busy.fresh b member).1 used
  refine ⟨busy.write valid buf below open_ (fun inS => ?_), fun x member => ?_⟩
  · rcases busy.cached b inS with kept | member
    · exact open_ kept
    · exact notNew member
  · exact Geometry.sameBlock_overlay (fun same => notNew (same ▸ member))

theorem Fs.Busy.initBlockBitmap {i : Nat} {fs' : Fs} (below : i < g.groups)
    (run : initBlockBitmap env i fs = some ((), fs')) :
    ∃ V', fs'.Busy env g S A N V' base ∧ (∀ b ∈ N, g.SameBlock V V' b) ∧ fs.Allocates fs' ∧
      hasBit (Desc.bgFlags (fs'.groupDescriptor i)) bgBlockUninit = false ∧
      fs'.firstPassBbmap = fs.firstPassBbmap ∧ fs'.firstPassIbmap = fs.firstPassIbmap ∧ fs'.currBlkno = fs.currBlkno := by
  have size : fs.root.gdsize = 32 ∨ fs.root.gdsize = 64 := busy.gdsize ▸ valid.descriptor
  rw [Ext4.initBlockBitmap, get_bind] at run
  simp only [run_ite] at run
  split at run
  · next flagged =>
    cases run
    have initial := (busy.follows i below).flags _ flagged
    obtain ⟨open_, free⟩ := A.blankBlocks i below initial
    obtain ⟨used, inside⟩ := A.blockMap i below
    rw [← busy.bbitmapBlk below] at open_ used inside
    obtain ⟨written, new⟩ := busy.writeBitmap valid zeros used inside open_
    obtain ⟨follows, cleared⟩ : Desc.Follows fs.root.gdsize (fs.groupDescriptor i) _ ∧ _ :=
      Desc.Follows.clearFlag flagged
    have descends : fs.Descends (fs.putDescriptor i _) := Fs.putDescriptor_descends size follows
    refine ⟨_, ?_, new, ⟨rfl, rfl, rfl, rfl, rfl, rfl, List.prefix_refl _, fun _ _ _ => rfl⟩,
      (congrArg (hasBit · _) (Fs.bgFlags_putDescriptor i _ size)).trans cleared, rfl, rfl, rfl⟩
    refine { written with on := { written.on with }, follows := ?_, marked := ?_, blank := ?_ }
    · intro j inGroups
      have further := descends.2 j
      rw [busy.gdsize] at further
      exact (busy.follows j inGroups).trans further
    · intro b old low high
      rw [Geometry.marked_update, if_neg]
      · exact busy.marked b old low high
      · rcases old with used | member
        · exact free b used low
        · exact busy.blank i below flagged b member
    · intro j inGroups set_ b member
      exact busy.blank j inGroups ((descends.2 j).flags _ set_) b member
  · next clear =>
    cases run
    exact ⟨V, busy, fun b _ => .refl V b, .refl fs, Bool.eq_false_iff.mpr clear, rfl, rfl, rfl⟩

theorem Fs.Busy.initInodeBitmap {i : Nat} {fs' : Fs} (below : i < g.groups)
    (run : initInodeBitmap env i fs = some ((), fs')) :
    ∃ V', fs'.Busy env g S A N V' base ∧ (∀ b ∈ N, g.SameBlock V V' b) ∧ fs.Allocates fs' ∧
      fs'.firstPassBbmap = fs.firstPassBbmap ∧ fs'.firstPassIbmap = fs.firstPassIbmap := by
  have size : fs.root.gdsize = 32 ∨ fs.root.gdsize = 64 := busy.gdsize ▸ valid.descriptor
  rw [Ext4.initInodeBitmap, get_bind] at run
  simp only [run_ite] at run
  split at run
  · next flagged =>
    cases run
    obtain ⟨open_, free⟩ := A.blankInodes i below ((busy.follows i below).flags _ flagged)
    obtain ⟨used, inside⟩ := A.inodeMap i below
    rw [← busy.ibitmapBlk below] at open_ used inside
    obtain ⟨written, new⟩ := busy.writeBitmap valid zeros used inside open_
    obtain ⟨follows, -⟩ : Desc.Follows fs.root.gdsize (fs.groupDescriptor i) _ ∧ _ := Desc.Follows.clearFlag flagged
    have descends : Fs.Descends (fs.write env ⟨fs.ibitmapBlk i * fs.blksz, zeros, fs.blksz⟩)
        (Fs.putDescriptor (fs.write env ⟨fs.ibitmapBlk i * fs.blksz, zeros, fs.blksz⟩) i _) :=
      Fs.putDescriptor_descends size follows
    refine ⟨_, ?_, new, ⟨rfl, rfl, rfl, rfl, rfl, rfl, List.prefix_refl _, fun _ _ _ => rfl⟩, rfl, rfl⟩
    have stored := written.descend descends rfl rfl rfl rfl rfl rfl rfl rfl rfl busy.cursor
    refine { stored with on := { stored.on with }, inodes := fun ino used => ?_ }
    show testBmap (Function.update fs.inodeBmaps i zeros _) _ _ = true
    rw [Function.update_of_ne (free ino used)]
    exact busy.inodes ino used
  · cases run
    exact ⟨V, busy, fun b _ => .refl V b, .refl fs, rfl, rfl⟩

end Steps

end UuuFastboot.Ext4
