import UuuFastboot.Ext4.AllocSpec

namespace UuuFastboot.Ext4

open Word Overlay Bytes Partial

/-- A step that keeps the books: nothing of the volume is written but blocks in `P`, and the descriptors of the groups
name the same blocks as before. -/
structure Fs.Books (env : Env) (g : Geometry) (P : Nat → Prop) (fs fs' : Fs) : Prop where
  descends : fs.Descends fs'
  caches : fs'.caches = fs.caches
  blksz : fs'.blksz = fs.blksz
  sectPerblk : fs'.sectPerblk = fs.sectPerblk
  noBlkgrp : fs'.noBlkgrp = fs.noBlkgrp
  gParentInode : fs'.gParentInode = fs.gParentInode
  dirtyBlockPtr : fs'.dirtyBlockPtr = fs.dirtyBlockPtr
  same : ∀ x, ¬ P x → g.SameBlock (env.volume fs.card) (env.volume fs'.card) x

structure Fs.BitmapsIn (env : Env) (g : Geometry) (P : Nat → Prop) (fs : Fs) : Prop where
  gdsize : fs.root.gdsize = 32 ∨ fs.root.gdsize = 64
  blksz : fs.blksz = g.bs
  sector : env.devBlksz ∣ g.bs
  bitmaps : ∀ i < fs.noBlkgrp, P (fs.bbitmapBlk i) ∧ P (fs.ibitmapBlk i)

section Frame

variable {env : Env} {g : Geometry} {P : Nat → Prop} {fs fs' fs'' : Fs}

theorem Fs.Books.refl (fs : Fs) : fs.Books env g P fs :=
  ⟨.refl fs, rfl, rfl, rfl, rfl, rfl, rfl, fun x _ => .refl _ x⟩

theorem Fs.Books.trans (first : fs.Books env g P fs') (second : fs'.Books env g P fs'') : fs.Books env g P fs'' :=
  ⟨first.descends.trans second.descends, second.caches.trans first.caches, second.blksz.trans first.blksz,
    second.sectPerblk.trans first.sectPerblk, second.noBlkgrp.trans first.noBlkgrp,
    second.gParentInode.trans first.gParentInode, second.dirtyBlockPtr.trans first.dirtyBlockPtr,
    fun x outside => (first.same x outside).trans (second.same x outside)⟩

theorem Fs.Books.bitmapsIn (books : fs.Books env g P fs') (ready : fs.BitmapsIn env g P) : fs'.BitmapsIn env g P := by
  obtain ⟨root, follows⟩ := books.descends
  refine ⟨by rw [root]; exact ready.gdsize, books.blksz.trans ready.blksz, ready.sector, fun i below => ?_⟩
  rw [Fs.bbitmapBlk, Fs.ibitmapBlk, root, (follows i).blockId, (follows i).inodeId]
  exact ready.bitmaps i (by rwa [← books.noBlkgrp])

/-- What the books are about, bar the contents of blocks in `P` and the counters of the descriptors. -/
def Fs.booked (fs : Fs) : Buf × Root × Buf × Caches × Nat × Nat × Nat × Buf × List (Nat × Buf) :=
  (fs.card, fs.root, fs.gdtable, fs.caches, fs.blksz, fs.sectPerblk, fs.noBlkgrp, fs.gParentInode, fs.dirtyBlockPtr)

theorem Fs.Books.of_eq (same : fs'.booked = fs.booked) : fs.Books env g P fs' := by
  obtain ⟨card, root, gdtable, caches, blksz, sectPerblk, noBlkgrp, gParentInode, dirtyBlockPtr⟩ :=
    by simpa only [Fs.booked, Prod.mk.injEq] using same
  refine ⟨⟨root, fun j => ?_⟩, caches, blksz, sectPerblk, noBlkgrp, gParentInode, dirtyBlockPtr, fun x _ => ?_⟩
  · rw [Fs.groupDescriptor, Fs.groupDescriptor, gdtable, root]
    exact .refl _
  · rw [card]
    exact .refl _ x

theorem Fs.Books.putDescriptor {i : Nat} {gd : Buf} (ready : fs.BitmapsIn env g P)
    (follows : Desc.Follows fs.root.gdsize (fs.groupDescriptor i) gd) : fs.Books env g P (fs.putDescriptor i gd) :=
  ⟨Fs.putDescriptor_descends ready.gdsize follows, rfl, rfl, rfl, rfl, rfl, rfl, fun x _ => .refl _ x⟩

theorem Fs.Books.write {b : Nat} {buf : Buf} (ready : fs.BitmapsIn env g P) (inside : P b) :
    fs.Books env g P (fs.write env ⟨b * fs.blksz, buf, fs.blksz⟩) := by
  refine ⟨⟨rfl, fun j => .refl _⟩, rfl, rfl, rfl, rfl, rfl, rfl, fun x outside i below => ?_⟩
  have other : x ≠ b := fun same => outside (same ▸ inside)
  show _ = env.volume (putExt4 env fs.card (b * fs.blksz) buf fs.blksz) _
  rw [ready.blksz]
  refine (volume_putExt4_outside fs.card buf (ready.sector.mul_left b) ready.sector ?_).symm
  rcases Nat.lt_or_gt_of_ne other with before | after
  · have step := Nat.mul_le_mul_right g.bs (show x + 1 ≤ b from before)
    rw [Nat.succ_mul] at step
    exact .inl (by omega)
  · have step := Nat.mul_le_mul_right g.bs (show b + 1 ≤ x from after)
    rw [Nat.succ_mul] at step
    exact .inr (by omega)

theorem ext4fsLogJournal_grows {buf : Buf} {b : Nat} (run : ext4fsLogJournal buf b fs = some ((), fs')) :
    ∃ L, fs' = { fs with journalPtr := fs.journalPtr ++ L } := by
  unfold ext4fsLogJournal pushJournal at run
  split_ifs at run
  · cases run
    exact ⟨[], by rw [List.append_nil]⟩
  · cases run
    exact ⟨_, rfl⟩

theorem logBlock_books {b : Nat} {ok : Bool} (run : logBlock env b fs = some (ok, fs')) : fs.Books env g P fs' := by
  rw [logBlock, run_bind, readBlock, reading, Option.bind_some] at run
  cases read : fs.readBlock env b with
  | none =>
    rw [read] at run
    cases run
    exact .refl fs
  | some buf =>
    simp only [read] at run
    obtain ⟨⟨⟩, fs₁, log, run⟩ := bind_eq_some.mp run
    cases run
    obtain ⟨L, rfl⟩ := ext4fsLogJournal_grows log
    exact .of_eq rfl

variable (ready : fs.BitmapsIn env g P)
include ready

theorem initBlockBitmap_books {i : Nat} (below : i < fs.noBlkgrp) (run : initBlockBitmap env i fs = some ((), fs')) :
    fs.Books env g P fs' := by
  rw [initBlockBitmap, get_bind] at run
  simp only [run_ite] at run
  split at run
  · next flagged =>
    cases run
    have written : fs.Books env g P (fs.write env ⟨fs.bbitmapBlk i * fs.blksz, zeros, fs.blksz⟩) :=
      .write ready (ready.bitmaps i below).1
    have follows : Desc.Follows fs.root.gdsize _ _ := (Desc.Follows.clearFlag flagged).1
    have stored := Fs.Books.putDescriptor (written.bitmapsIn ready) follows
    exact (written.trans stored).trans (.of_eq rfl)
  · cases run
    exact .refl fs

theorem initInodeBitmap_books {i : Nat} (below : i < fs.noBlkgrp) (run : initInodeBitmap env i fs = some ((), fs')) :
    fs.Books env g P fs' := by
  rw [initInodeBitmap, get_bind] at run
  simp only [run_ite] at run
  split at run
  · next flagged =>
    cases run
    have written : fs.Books env g P (fs.write env ⟨fs.ibitmapBlk i * fs.blksz, zeros, fs.blksz⟩) :=
      .write ready (ready.bitmaps i below).2
    have follows : Desc.Follows fs.root.gdsize _ _ := (Desc.Follows.clearFlag flagged).1
    have stored := Fs.Books.putDescriptor (written.bitmapsIn ready) follows
    exact (written.trans stored).trans (.of_eq rfl)
  · cases run
    exact .refl fs

theorem takeBlock_books (i : Nat) : fs.Books env g P (takeBlock fs i) :=
  (Fs.Books.putDescriptor (i := i) ready (.putWide16 _ _ (by decide) (by decide))).trans
    (.of_eq rfl)

theorem takeInode_books (i : Nat) : fs.Books env g P (takeInode fs i) :=
  (Fs.Books.putDescriptor (i := i) ready (.putWide16 _ _ (by decide) (by decide))).trans
    (.of_eq rfl)

theorem putItableUnused_books (i v : Nat) : fs.Books env g P (putItableUnused fs i v) := by
  unfold putItableUnused
  split
  · exact .putDescriptor ready (.putLe16 _ _ (by decide))
  · exact .refl fs

theorem itableUnusedDec_books (i : Nat) : fs.Books env g P
    (if fs.hasGdtChksum then fs.putDescriptor i (bgItableUnusedDec fs.root.gdsize (fs.groupDescriptor i)) else fs) := by
  split
  · exact .putDescriptor ready (.putWide16 _ _ (by decide) (by decide))
  · exact .refl fs

end Frame

/-- The bits of the blocks in `Q` are set where the searches of the allocator look for them, in groups whose bitmaps are
initialised. -/
structure Fs.Taken (Q : Nat → Prop) (fs : Fs) : Prop where
  first : ∀ i < fs.noBlkgrp, ∀ n < 8 * fs.blksz, Q (n + (if fs.blksz = 1024 then 1 else 0) + i * fs.blksz * 8) →
    hasBit (Desc.bgFlags (fs.groupDescriptor i)) bgBlockUninit = false ∧ testBmap (fs.blkBmaps i) (n / 8) (n % 8) = true
  next : ∀ b < 2 ^ 32, Q b → groupOfBlock fs b < fs.noBlkgrp →
    hasBit (Desc.bgFlags (fs.groupDescriptor (groupOfBlock fs b))) bgBlockUninit = false ∧
      testBmap (fs.blkBmaps (groupOfBlock fs b)) (blockBit fs.root.blockSize b (groupOfBlock fs b)).1
        (blockBit fs.root.blockSize b (groupOfBlock fs b)).2 = true
  cursor : fs.currBlkno < 2 ^ 32
  limit : fs.noBlkgrp * Sblock.blocksPerGroup fs.root.sblock + 1 < 2 ^ 32

section Searches

variable {env : Env} {g : Geometry} {P Q : Nat → Prop} {fs fs' : Fs}

theorem Fs.Taken.step (taken : fs.Taken Q) (books : fs.Books env g P fs')
    (bitmaps : ∀ i, hasBit (Desc.bgFlags (fs.groupDescriptor i)) bgBlockUninit = false → fs'.blkBmaps i = fs.blkBmaps i)
    (cursor : fs'.currBlkno < 2 ^ 32) : fs'.Taken Q := by
  obtain ⟨root, follows⟩ := books.descends
  have flag (i : Nat) (clear : hasBit (Desc.bgFlags (fs.groupDescriptor i)) bgBlockUninit = false) :
      hasBit (Desc.bgFlags (fs'.groupDescriptor i)) bgBlockUninit = false := by
    by_contra flagged
    rw [Bool.not_eq_false] at flagged
    rw [(follows i).flags _ flagged] at clear
    cases clear
  have group (b : Nat) : groupOfBlock fs' b = groupOfBlock fs b := by
    unfold groupOfBlock
    rw [root, books.blksz]
  refine ⟨?_, ?_, cursor, by rw [books.noBlkgrp, root]; exact taken.limit⟩
  · intro i below n small inside
    rw [books.noBlkgrp] at below
    rw [books.blksz] at small inside
    obtain ⟨clear, bit⟩ := taken.first i below n small inside
    exact ⟨flag i clear, by rw [bitmaps i clear]; exact bit⟩
  · intro b word inside below
    rw [group, books.noBlkgrp] at below
    obtain ⟨clear, bit⟩ := taken.next b word inside below
    rw [group, root]
    exact ⟨flag _ clear, by rw [bitmaps _ clear]; exact bit⟩

theorem initBlockBitmap_bitmaps {i j : Nat} (run : initBlockBitmap env i fs = some ((), fs'))
    (clear : hasBit (Desc.bgFlags (fs.groupDescriptor j)) bgBlockUninit = false) : fs'.blkBmaps j = fs.blkBmaps j := by
  rw [initBlockBitmap, get_bind] at run
  simp only [run_ite] at run
  split at run
  · next flagged =>
    cases run
    have other : j ≠ i := by
      rintro rfl
      rw [clear] at flagged
      cases flagged
    exact Function.update_of_ne other _ _
  · cases run
    rfl

theorem initBlockBitmap_currBlkno {i : Nat} (run : initBlockBitmap env i fs = some ((), fs')) :
    fs'.currBlkno = fs.currBlkno := by
  rw [initBlockBitmap, get_bind] at run
  simp only [run_ite] at run
  split at run <;> cases run <;> rfl

theorem getNewInodeNo_bounds {ipg no : Nat} {bmap bmap' : Buf} (taken : getNewInodeNo ipg bmap = some (no, bmap')) :
    0 < no ∧ (no ≤ 8 ∨ no ≤ ipg + 7) := by
  obtain ⟨byte, first, taken⟩ := Option.bind_eq_some_iff.mp taken
  split at taken
  · cases taken
  · next inside =>
    obtain ⟨bit, second, taken⟩ := Option.bind_eq_some_iff.mp taken
    cases taken
    obtain ⟨small, -⟩ := clearBit_some second
    omega

theorem initInodeBitmap_currInodeNo {i : Nat} (run : initInodeBitmap env i fs = some ((), fs')) :
    fs'.currInodeNo = fs.currInodeNo := by
  rw [initInodeBitmap, get_bind] at run
  simp only [run_ite] at run
  split at run <;> cases run <;> rfl

def Fs.InodeNumber (fs : Fs) (ino : Nat) : Prop := 0 < ino ∧ ino ≤ fs.noBlkgrp * fs.root.inodesPerGroup + 7

theorem Fs.Books.inodeNumber {ino : Nat} (books : fs.Books env g P fs') (number : fs'.InodeNumber ino) :
    fs.InodeNumber ino := by
  rwa [Fs.InodeNumber, books.descends.1, books.noBlkgrp] at number

variable (ready : fs.BitmapsIn env g P)
include ready

theorem firstBlkInGroup_books {i : Nat} {r : Option Nat} (below : i < fs.noBlkgrp)
    (run : firstBlkInGroup env i fs = some (r, fs')) :
    fs.Books env g P fs' ∧ ∀ Q, fs.Taken Q → (r = none → fs'.Taken Q) ∧ ∀ b, r = some b → b ≠ minusOne → ¬ Q b := by
  rw [firstBlkInGroup, get_bind] at run
  simp only [run_ite] at run
  split at run
  · cases run
    exact ⟨.refl fs, fun Q taken => ⟨fun _ => taken, fun b none => by cases none⟩⟩
  · obtain ⟨⟨⟩, fs₁, init, run⟩ := bind_eq_some.mp run
    have books := initBlockBitmap_books ready below init
    have taken₁ (Q) (taken : fs.Taken Q) : fs₁.Taken Q := taken.step books (fun j => initBlockBitmap_bitmaps init)
      (by rw [initBlockBitmap_currBlkno init]; exact taken.cursor)
    rw [get_bind] at run
    cases found : getNewBlkNo fs₁.blksz (fs₁.blkBmaps i) with
    | none =>
      simp only [found] at run
      cases run
      have moved : fs₁.Books env g P { fs₁ with currBlkno := minusOne } := .of_eq rfl
      exact ⟨books.trans moved, fun Q taken => ⟨fun _ => (taken₁ Q taken).step moved (fun _ _ => rfl)
        (show minusOne < 2 ^ 32 by decide), fun b none => by cases none⟩⟩
    | some block =>
      obtain ⟨no, bmap⟩ := block
      simp only [found] at run
      rw [modify_bind, get_bind] at run
      obtain ⟨ok, fs₃, log, run⟩ := bind_eq_some.mp run
      have cursor : fs₁.Books env g P { fs₁ with
          blkBmaps := Function.update fs₁.blkBmaps i bmap
          currBlkno := no + i * fs₁.blksz * 8
          firstPassBbmap := fs₁.firstPassBbmap + 1 } := .of_eq rfl
      have counted := cursor.trans (takeBlock_books (cursor.bitmapsIn (books.bitmapsIn ready)) i)
      have whole := books.trans (counted.trans (logBlock_books log))
      obtain ⟨n, small, rfl, clear, -⟩ := getNewBlkNo_some found
      have fresh (Q) (taken : fs.Taken Q) : ¬ Q (n + (if fs₁.blksz = 1024 then 1 else 0) + i * fs₁.blksz * 8) :=
        fun inside => by
          have bit := ((taken₁ Q taken).first i (by rw [books.noBlkgrp]; exact below) n small inside).2
          rw [clear] at bit
          cases bit
      cases ok with
      | true =>
        cases run
        refine ⟨whole, fun Q taken => ⟨fun none => (by cases none), fun b here _ => ?_⟩⟩
        cases here
        exact fresh Q taken
      | false =>
        cases run
        exact ⟨whole, fun Q _ => ⟨fun none => (by cases none), fun b here got => absurd (Option.some.inj here).symm got⟩⟩

theorem nextBlkLoop_books {rounds b : Nat} (run : nextBlkLoop env rounds fs = some (b, fs')) :
    fs.Books env g P fs' ∧ ∀ Q, fs.Taken Q → b ≠ minusOne → ¬ Q b := by
  induction rounds generalizing fs with
  | zero => cases run
  | succ rounds ih =>
    rw [nextBlkLoop, get_bind] at run
    simp only [run_ite] at run
    split at run
    · cases run
      exact ⟨.refl _, fun _ _ got => absurd rfl got⟩
    next below =>
    replace below := Nat.lt_of_not_le below
    split at run
    · rw [modify_bind] at run
      have moved : fs.Books env g P { fs with
          currBlkno := (groupOfBlock fs fs.currBlkno + 1) * Sblock.blocksPerGroup fs.root.sblock +
            (if fs.blksz = 1024 then 1 else 0) } := .of_eq rfl
      obtain ⟨books, fresh⟩ := ih (moved.bitmapsIn ready) run
      refine ⟨moved.trans books, fun Q taken => fresh Q (taken.step moved (fun _ _ => rfl) ?_)⟩
      have most : (groupOfBlock fs fs.currBlkno + 1) * Sblock.blocksPerGroup fs.root.sblock ≤ _ :=
        Nat.mul_le_mul_right (Sblock.blocksPerGroup fs.root.sblock) below
      have limit := taken.limit
      dsimp only
      split <;> omega
    · obtain ⟨⟨⟩, fs₁, init, run⟩ := bind_eq_some.mp run
      have books := initBlockBitmap_books ready below init
      have ready₁ := books.bitmapsIn ready
      have cursor : fs₁.currBlkno = fs.currBlkno := initBlockBitmap_currBlkno init
      have taken₁ (Q) (taken : fs.Taken Q) : fs₁.Taken Q :=
        taken.step books (fun j => initBlockBitmap_bitmaps init) (by rw [cursor]; exact taken.cursor)
      have group : groupOfBlock fs₁ fs₁.currBlkno = groupOfBlock fs fs.currBlkno := by
        rw [cursor]
        unfold groupOfBlock
        rw [books.descends.1, books.blksz]
      rw [get_bind] at run
      cases found : ext4fsSetBlockBmap fs₁.root.blockSize fs₁.currBlkno (fs₁.blkBmaps (groupOfBlock fs fs.currBlkno))
        (groupOfBlock fs fs.currBlkno) with
      | none =>
        simp only [found] at run
        rw [modify_bind] at run
        have moved : fs₁.Books env g P { fs₁ with currBlkno := w32 (fs₁.currBlkno + 1) } := .of_eq rfl
        obtain ⟨later, fresh⟩ := ih (moved.bitmapsIn ready₁) run
        exact ⟨books.trans (moved.trans later), fun Q taken =>
          fresh Q ((taken₁ Q taken).step moved (fun _ _ => rfl) (w32_lt _))⟩
      | some bmap =>
        have clear : testBmap (fs₁.blkBmaps (groupOfBlock fs fs.currBlkno))
            (blockBit fs₁.root.blockSize fs₁.currBlkno (groupOfBlock fs fs.currBlkno)).1
            (blockBit fs₁.root.blockSize fs₁.currBlkno (groupOfBlock fs fs.currBlkno)).2 = false := by
          unfold ext4fsSetBlockBmap at found
          simp only at found
          split at found
          · cases found
          · next clear => exact Bool.not_eq_true _ ▸ clear
        have fresh (Q) (taken : fs.Taken Q) : ¬ Q fs₁.currBlkno := fun inside => by
          have bit := ((taken₁ Q taken).next _ (taken₁ Q taken).cursor inside
            (by rw [group, books.noBlkgrp]; exact below)).2
          rw [group, clear] at bit
          cases bit
        simp only [found] at run
        rw [modify_bind] at run
        have marked : fs₁.Books env g P { fs₁ with
            blkBmaps := Function.update fs₁.blkBmaps (groupOfBlock fs fs.currBlkno) bmap } := .of_eq rfl
        have counted {fs₃ : Fs} (noted : fs₁.Books env g P fs₃) :
            fs.Books env g P (takeBlock fs₃ (groupOfBlock fs fs.currBlkno)) :=
          books.trans (noted.trans (takeBlock_books (noted.bitmapsIn ready₁) _))
        simp only [run_ite] at run
        split at run
        · obtain ⟨ok, fs₄, entry, run⟩ := bind_eq_some.mp run
          have before := marked.trans (logBlock_books entry)
          cases ok with
          | false =>
            cases run
            exact ⟨books.trans before, fun _ _ got => absurd rfl got⟩
          | true =>
            cases run
            exact ⟨counted (before.trans (.of_eq rfl)), fun Q taken _ => fresh Q taken⟩
        · cases run
          exact ⟨counted marked, fun Q taken _ => fresh Q taken⟩

theorem ext4fsGetNewBlkNo_books {b : Nat} (run : ext4fsGetNewBlkNo env fs = some (b, fs')) :
    fs.Books env g P fs' ∧ ∀ Q, fs.Taken Q → b ≠ minusOne → ¬ Q b := by
  rw [ext4fsGetNewBlkNo, get_bind] at run
  simp only [run_ite] at run
  split at run
  · obtain ⟨r, fs₁, loop, run⟩ := bind_eq_some.mp run
    cases run
    have rule := shortLoop_rule (P := fun fs₁ => fs.Books env g P fs₁ ∧ ∀ Q, fs.Taken Q → fs₁.Taken Q)
      (Q := fun b fs₁ => fs.Books env g P fs₁ ∧ ∀ Q, fs.Taken Q → b ≠ minusOne → ¬ Q b) fs.noBlkgrp
      (fun i fs₁ r fs₂ below before step => by
        obtain ⟨books, taken⟩ := before
        obtain ⟨later, fresh⟩ := firstBlkInGroup_books (books.bitmapsIn ready) (by rwa [books.noBlkgrp]) step
        cases r with
        | none => exact ⟨books.trans later, fun Q here => (fresh Q (taken Q here)).1 rfl⟩
        | some b => exact ⟨books.trans later, fun Q here => (fresh Q (taken Q here)).2 b rfl⟩)
      (Nat.le_of_eq (Nat.zero_add _)) ⟨.refl fs, fun _ taken => taken⟩ loop
    cases r with
    | none => exact ⟨rule.1, fun _ _ got => absurd rfl got⟩
    | some b => exact rule
  · rw [modify_bind] at run
    have moved : fs.Books env g P { fs with currBlkno := w32 (fs.currBlkno + 1) } := .of_eq rfl
    obtain ⟨books, fresh⟩ := nextBlkLoop_books (moved.bitmapsIn ready) run
    exact ⟨moved.trans books, fun Q taken => fresh Q (taken.step moved (fun _ _ => rfl) (w32_lt _))⟩

theorem firstInodeInGroup_books {i : Nat} {r : Option Nat} (below : i < fs.noBlkgrp)
    (run : firstInodeInGroup env i fs = some (r, fs')) :
    fs.Books env g P fs' ∧
      (0 < fs.root.inodesPerGroup → ∀ ino, r = some ino → ino = minusOne ∨ fs.InodeNumber ino) := by
  rw [firstInodeInGroup, get_bind] at run
  simp only [run_ite] at run
  split at run
  · cases run
    exact ⟨.refl fs, fun _ ino none => by cases none⟩
  · rw [modify_bind] at run
    obtain ⟨⟨⟩, fs₁, init, run⟩ := bind_eq_some.mp run
    have unused := putItableUnused_books ready i (Desc.freeInodes fs.root.gdsize (fs.groupDescriptor i))
    have books := unused.trans (initInodeBitmap_books (unused.bitmapsIn ready) (by rw [unused.noBlkgrp]; exact below) init)
    have ready₁ := books.bitmapsIn ready
    rw [get_bind] at run
    cases taken : getNewInodeNo fs₁.root.inodesPerGroup (fs₁.inodeBmaps i) with
    | none =>
      simp only [taken] at run
      cases run
      exact ⟨books.trans (.of_eq rfl), fun _ ino none => by cases none⟩
    | some found =>
      obtain ⟨no, bmap⟩ := found
      simp only [taken] at run
      rw [modify_bind, modify_bind, get_bind] at run
      obtain ⟨ok, fs₃, log, run⟩ := bind_eq_some.mp run
      have cursor : fs₁.Books env g P { fs₁ with
          inodeBmaps := Function.update fs₁.inodeBmaps i bmap
          currInodeNo := no + i * fs₁.root.inodesPerGroup
          firstPassIbmap := fs₁.firstPassIbmap + 1 } := .of_eq rfl
      have counted := cursor.trans (takeInode_books (cursor.bitmapsIn ready₁) i)
      have fewer := counted.trans (itableUnusedDec_books (counted.bitmapsIn ready₁) i)
      have whole := books.trans (fewer.trans (logBlock_books log))
      cases ok with
      | true =>
        cases run
        refine ⟨whole, fun some_inode ino here => .inr ?_⟩
        obtain ⟨positive, most⟩ := getNewInodeNo_bounds taken
        have last : (i + 1) * fs.root.inodesPerGroup ≤ fs.noBlkgrp * fs.root.inodesPerGroup :=
          Nat.mul_le_mul_right _ below
        have same : ∀ (fs : Fs) (gd : Buf), (if fs.hasGdtChksum then fs.putDescriptor i gd else fs).currInodeNo =
            fs.currInodeNo := fun fs gd => by split <;> rfl
        rw [Nat.succ_mul] at last
        rw [books.descends.1] at most
        rw [← Option.some.inj here, same]
        change fs.InodeNumber (no + i * fs₁.root.inodesPerGroup)
        rw [books.descends.1]
        exact ⟨by omega, by omega⟩
      | false =>
        cases run
        exact ⟨whole, fun _ ino here => .inl (Option.some.inj here).symm⟩

theorem nextInodeLoop_books {rounds ino : Nat} (run : nextInodeLoop env rounds fs = some (ino, fs')) :
    fs.Books env g P fs' ∧ (0 < fs.root.inodesPerGroup → ino = minusOne ∨ fs.InodeNumber ino) := by
  induction rounds generalizing fs with
  | zero => cases run
  | succ rounds ih =>
    rw [nextInodeLoop, modify_bind, get_bind] at run
    obtain ⟨fs₀, state⟩ : ∃ fs₀ : Fs, fs₀ = { fs with currInodeNo := fs.currInodeNo + 1 } := ⟨_, rfl⟩
    have moved : fs.Books env g P fs₀ := by
      rw [state]
      exact .of_eq rfl
    simp only [← state, run_ite] at run
    split at run
    · cases run
    next below =>
    replace below := Nat.lt_of_not_le below
    obtain ⟨⟨⟩, fs₁, init, run⟩ := bind_eq_some.mp run
    have books := moved.trans (initInodeBitmap_books (moved.bitmapsIn ready) (by rw [state]; exact below) init)
    have ready₁ := books.bitmapsIn ready
    have right (some_inode : 0 < fs.root.inodesPerGroup) : fs.InodeNumber fs₁.currInodeNo := by
      rw [initInodeBitmap_currInodeNo init, state]
      have inside := (Nat.div_lt_iff_lt_mul some_inode).mp below
      exact ⟨Nat.succ_pos _, by dsimp only; omega⟩
    rw [get_bind] at run
    cases place : inodeBit fs₁.root.inodesPerGroup fs₁.currInodeNo ((fs.currInodeNo + 1) / fs.root.inodesPerGroup) with
    | none =>
      simp only [place] at run
      cases run
    | some found =>
    obtain ⟨byte, bit⟩ := found
    simp only [place, run_ite] at run
    split at run
    · obtain ⟨later, number⟩ := ih ready₁ run
      exact ⟨books.trans later, fun some_inode =>
        (number (by rw [books.descends.1]; exact some_inode)).imp_right books.inodeNumber⟩
    · rw [modify_bind] at run
      have marked : fs₁.Books env g P { fs₁ with
          inodeBmaps := Function.update fs₁.inodeBmaps ((fs.currInodeNo + 1) / fs.root.inodesPerGroup)
            (setBmap (fs₁.inodeBmaps ((fs.currInodeNo + 1) / fs.root.inodesPerGroup)) byte bit) } := .of_eq rfl
      have counted {fs₃ : Fs} (v : Fs → Nat) (noted : fs₁.Books env g P fs₃) : fs.Books env g P
          (putItableUnused (takeInode fs₃ ((fs.currInodeNo + 1) / fs.root.inodesPerGroup))
            ((fs.currInodeNo + 1) / fs.root.inodesPerGroup)
            (v (takeInode fs₃ ((fs.currInodeNo + 1) / fs.root.inodesPerGroup)))) := by
        have taken := noted.trans (takeInode_books (noted.bitmapsIn ready₁) ((fs.currInodeNo + 1) / fs.root.inodesPerGroup))
        exact books.trans (taken.trans (putItableUnused_books (taken.bitmapsIn ready₁) _ _))
      simp only [run_ite] at run
      split at run
      · obtain ⟨ok, fs₄, entry, run⟩ := bind_eq_some.mp run
        have before := marked.trans (logBlock_books entry)
        cases ok with
        | false =>
          cases run
          exact ⟨books.trans before, fun _ => .inl rfl⟩
        | true =>
          cases run
          exact ⟨counted (fun fs => getLe16 (fs.groupDescriptor _) 14) (before.trans (.of_eq rfl)),
            fun some_inode => .inr (right some_inode)⟩
      · cases run
        exact ⟨counted (fun fs => getLe16 (fs.groupDescriptor _) 14) marked, fun some_inode => .inr (right some_inode)⟩

theorem ext4fsGetNewInodeNo_books {ino : Nat} (run : ext4fsGetNewInodeNo env fs = some (ino, fs')) :
    fs.Books env g P fs' ∧ (0 < fs.root.inodesPerGroup → ino = minusOne ∨ fs.InodeNumber ino) := by
  rw [ext4fsGetNewInodeNo, get_bind] at run
  simp only [run_ite] at run
  split at run
  · obtain ⟨r, fs₁, loop, run⟩ := bind_eq_some.mp run
    cases run
    have rule := shortLoop_rule (P := fun fs₁ => fs.Books env g P fs₁)
      (Q := fun ino fs₁ => fs.Books env g P fs₁ ∧ (0 < fs.root.inodesPerGroup → ino = minusOne ∨ fs.InodeNumber ino))
      fs.noBlkgrp
      (fun i fs₁ r fs₂ below books step => by
        obtain ⟨later, number⟩ := firstInodeInGroup_books (books.bitmapsIn ready) (by rwa [books.noBlkgrp]) step
        rw [books.descends.1] at number
        cases r with
        | none => exact books.trans later
        | some ino => exact ⟨books.trans later, fun some_inode => (number some_inode ino rfl).imp_right books.inodeNumber⟩)
      (Nat.le_of_eq (Nat.zero_add _)) (.refl fs) loop
    cases r with
    | none => exact ⟨rule, fun _ => .inl rfl⟩
    | some ino => exact rule
  · exact nextInodeLoop_books ready run

end Searches

end UuuFastboot.Ext4
