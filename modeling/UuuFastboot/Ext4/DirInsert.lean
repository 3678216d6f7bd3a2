import UuuFastboot.Ext4.DirUpdate
import UuuFastboot.Ext4.ParentPath

namespace UuuFastboot.Ext4

open Word Overlay Bytes CString Partial

section Slot

variable {env : Env} {g : Geometry} {own : Nat → Prop} {warm : Caches → Prop} {fs₀ fs fs' : Fs} {inode : Buf}
  {D : List (Nat × Buf)} {B : Nat → Nat} {rs : Nat → List Record} {name : CStr}

theorem slotInBlock_found {k b : Nat} {c : Caches} {block : Buf} {r : Option (Nat × Buf × Slot)}
    (lookup : allocatedBlock env inode k fs = some (b, { fs with caches := c })) (fine : ¬ (b = 0 ∨ isNeg b = true))
    (read : Fs.readBlock env { fs with caches := c } b = some block)
    (run : slotInBlock env inode name k fs = some (r, fs')) :
    (∃ L, fs' = { fs with caches := c, journalPtr := fs.journalPtr ++ L }) ∧
      r = some (b, block, findSlot block fs.blksz name fs.blksz 0) := by
  rw [slotInBlock, bind_of_run lookup] at run
  simp only [run_ite, if_neg fine] at run
  rw [run_bind, Ext4.readBlock, reading, read, Option.bind_some] at run
  obtain ⟨⟨⟩, fs₁, log, run⟩ := bind_eq_some.mp run
  obtain ⟨L, rfl⟩ := ext4fsLogJournal_grows log
  cases run
  exact ⟨⟨L, rfl⟩, rfl⟩

theorem Fs.Within.slotLoop {last : Nat} {r : Option (Nat × Buf × Slot)} (within : fs.Within env g own warm fs₀ inode D)
    (views : fs₀.Views env g) (owns : Dir.Owns env g fs₀.card fs₀.root warm inode B rs own)
    (below : last < Inode.size inode / g.bs) (run : slotLoop env inode name last fs = some (r, fs')) :
    (∃ c L, warm c ∧ fs' = { fs with caches := c, journalPtr := fs.journalPtr ++ L }) ∧
      ((∃ k ≤ last, ∃ pre s post block, rs k = pre ++ s :: post ∧ s.Roomy name ∧ Tiles block 0 (rs k) g.bs ∧
          r = some (B k, block, .behind (span pre) (s.len - entryBytes s.name.length))) ∨
        (∀ k ≤ last, ∀ s ∈ rs k, ¬ s.Roomy name) ∧
          ∃ block, Tiles block 0 (rs 0) g.bs ∧ r = some (B 0, block, .full)) := by
  -- what one block gives
  have round {k : Nat} {fs fs' : Fs} {r : Option (Nat × Buf × Slot)} (within : fs.Within env g own warm fs₀ inode D)
      (below : k < Inode.size inode / g.bs) (run : slotInBlock env inode name k fs = some (r, fs')) :
      (∃ c L, warm c ∧ fs' = { fs with caches := c, journalPtr := fs.journalPtr ++ L }) ∧
        ∃ block, Tiles block 0 (rs k) g.bs ∧
          ((∃ pre s post, rs k = pre ++ s :: post ∧ s.Roomy name ∧
              r = some (B k, block, .behind (span pre) (s.len - entryBytes s.name.length))) ∨
            (∀ s ∈ rs k, ¬ s.Roomy name) ∧ r = some (B k, block, .full)) := by
    have dir := within.dir owns
    obtain ⟨c, caches, lookup, read, fine⟩ := within.lookup views dir below
    obtain ⟨⟨L, rfl⟩, rfl⟩ := slotInBlock_found lookup fine read run
    have tiles : Tiles (clip g.bs (g.blk (env.volume fs.card) (B k))) 0 (rs k) g.bs :=
      (dir.tiles k below).congr (fun i _ upper => clip_of_lt upper)
    refine ⟨⟨c, L, caches, rfl⟩, _, tiles, ?_⟩
    rw [within.bitmaps.blksz]
    have count := tiles.length_le
    rw [show sizeofDirent = 8 from rfl] at count
    rcases findSlot_tiles name tiles (tiles.ne_nil Geometry.bs_pos) (show (rs k).length ≤ g.bs by omega) with
      ⟨pre, s, post, split, roomy, found⟩ | ⟨cramped, full⟩
    · rw [Nat.zero_add] at found
      exact .inl ⟨pre, s, post, split, roomy, by rw [found]⟩
    · exact .inr ⟨cramped, by rw [full]⟩
  induction last generalizing fs with
  | zero =>
    obtain ⟨logs, block, tiles, ⟨pre, s, post, split, roomy, rfl⟩ | ⟨cramped, rfl⟩⟩ := round within below run
    · exact ⟨logs, .inl ⟨0, le_rfl, pre, s, post, block, split, roomy, tiles, rfl⟩⟩
    · refine ⟨logs, .inr ⟨fun k first => ?_, block, tiles, rfl⟩⟩
      rw [Nat.le_zero.mp first]
      exact cramped
  | succ before ih =>
    rw [Ext4.slotLoop] at run
    obtain ⟨r₁, fs₁, first, run⟩ := bind_eq_some.mp run
    obtain ⟨⟨c, L, caches, logs⟩, block, tiles, ⟨pre, s, post, split, roomy, rfl⟩ | ⟨cramped, rfl⟩⟩ :=
      round within below first
    · cases run
      exact ⟨⟨c, L, caches, logs⟩, .inl ⟨before + 1, le_rfl, pre, s, post, block, split, roomy, tiles, rfl⟩⟩
    · have number : isNeg (before + 1) = false := by
        have dir := owns.dir
        have size : Inode.size inode < 2 ^ 32 := getLe32_lt _ _
        have large : 2 ^ 10 ≤ g.bs := Nat.pow_le_pow_right (by decide) dir.fits.log2
        have most : Inode.size inode / g.bs ≤ Inode.size inode / 2 ^ 10 := Nat.div_le_div_left large (by decide)
        refine decide_eq_false ?_
        omega
      have within₁ : fs₁.Within env g own warm fs₀ inode D := by
        rw [logs]
        exact within.logs caches
      simp only [run_ite, number, Bool.false_eq_true, if_false] at run
      obtain ⟨⟨c', L', caches', logs'⟩, found⟩ := ih within₁ (by omega) run
      refine ⟨⟨c', L ++ L', caches', ?_⟩, ?_⟩
      · rw [logs', logs, List.append_assoc]
      · rcases found with ⟨k, below', found⟩ | ⟨cramped', full⟩
        · exact .inl ⟨k, by omega, found⟩
        · refine .inr ⟨fun k most => ?_, full⟩
          rcases Nat.eq_or_lt_of_le most with rfl | lower
          · exact cramped
          · exact cramped' k (by omega)

end Slot

theorem putEntry_len_full (block : Buf) (ino type : Nat) (name : CStr) :
    Dirent.direntlen (putEntry block 0 ino (2 ^ 16) type name) 0 = 0 := by
  have kept : Dirent.direntlen (putEntry block 0 ino (2 ^ 16) type name) 0 =
      getLe16 (putLe16 (putLe32 block 0 ino) 4 (2 ^ 16)) 4 := by
    refine getLe16_congr (fun i below => ?_)
    have size : sizeofDirent = 8 := rfl
    unfold putEntry
    rw [overlay_of_lt (by omega), overlay_of_lt (by omega), overlay_of_lt (by omega)]
  rw [kept, getLe16_putLe16, Nat.mod_self]

/-- The inode of the parent directory with the block `b` behind its `m` blocks. -/
def grownInode (inode : Buf) (m b bs : Nat) : Buf :=
  let inode := putLe32 inode (Inode.dirBlocks + 4 * m) b
  let inode := putLe32 inode 4 (w32 (Inode.size inode + bs))
  putLe32 inode 28 (w32 (Inode.blockcnt inode + bs / 512))

section Grow

variable {inode : Buf} {m b bs k : Nat}

theorem size_grownInode (small : Inode.size inode + bs < 2 ^ 32) :
    Inode.size (grownInode inode m b bs) = Inode.size inode + bs := by
  have kept : Inode.size (putLe32 inode (Inode.dirBlocks + 4 * m) b) = Inode.size inode :=
    getLe32_congr (fun i below => putLe32_of_lt (by unfold Inode.dirBlocks; omega))
  have outer (inode : Buf) (v : Nat) : getLe32 (putLe32 inode 28 v) 4 = getLe32 inode 4 :=
    getLe32_congr (fun i below => putLe32_of_lt (by omega))
  rw [grownInode, Inode.size, outer, getLe32_putLe32, kept, w32_of_lt small, Nat.mod_eq_of_lt small]

theorem usesExtents_grownInode : Inode.usesExtents (grownInode inode m b bs) = Inode.usesExtents inode := by
  have kept : Inode.flags (grownInode inode m b bs) = Inode.flags inode := by
    refine getLe32_congr (fun i below => ?_)
    rw [grownInode, putLe32_of_ge (by omega), putLe32_of_ge (by omega),
      putLe32_of_lt (by unfold Inode.dirBlocks; omega)]
  rw [Inode.usesExtents, Inode.usesExtents, kept]

theorem dirBlock_grownInode (word : b < 2 ^ 32) :
    getLe32 (grownInode inode m b bs) (Inode.dirBlocks + 4 * m) = b := by
  have kept : getLe32 (grownInode inode m b bs) (Inode.dirBlocks + 4 * m) =
      getLe32 (putLe32 inode (Inode.dirBlocks + 4 * m) b) (Inode.dirBlocks + 4 * m) := by
    refine getLe32_congr (fun i below => ?_)
    unfold Inode.dirBlocks
    rw [grownInode, putLe32_of_ge (by omega), putLe32_of_ge (by omega), Inode.dirBlocks]
  rw [kept, getLe32_putLe32, Nat.mod_eq_of_lt word]

theorem dirBlock_grownInode_of_lt (before : k < m) :
    getLe32 (grownInode inode m b bs) (Inode.dirBlocks + 4 * k) = getLe32 inode (Inode.dirBlocks + 4 * k) := by
  refine getLe32_congr (fun i below => ?_)
  unfold Inode.dirBlocks
  rw [grownInode, putLe32_of_ge (by omega), putLe32_of_ge (by omega), putLe32_of_lt (by unfold Inode.dirBlocks; omega)]

end Grow

section Insert

variable {env : Env} {g : Geometry} {own : Nat → Prop} {warm : Caches → Prop} {fs₀ fs fs' : Fs} {inode : Buf}
  {D : List (Nat × Buf)} {B : Nat → Nat} {rs : Nat → List Record} {name : CStr}

theorem Fs.Within.growParent {m : Nat} (within : fs.Within env g own warm fs₀ inode D) (views : fs₀.Views env g)
    (fits : g.Fits env)
    (fresh : ∀ b fs₂, ext4fsGetNewBlkNo env fs = some (b, fs₂) → b ≠ minusOne → ¬ own b ∧ b < g.totalBlocks)
    (run : growParent env m fs = some (true, fs')) :
    Inode.usesExtents inode = false ∧ m < indirectBlocks ∧ ∃ b, ¬ own b ∧ b < g.totalBlocks ∧
      fs'.Within env g own warm fs₀ (grownInode inode m b g.bs) D ∧
      ∃ block, fs'.readBlock env b = some block ∧ ∀ i < g.bs, block i = 0 := by
  rw [Ext4.growParent, get_bind, within.gParentInode] at run
  simp only [run_ite] at run
  split at run
  · cases run
  next plain =>
  split at run
  · cases run
  next few =>
  obtain ⟨b, fs₁, alloc, run⟩ := bind_eq_some.mp run
  simp only [run_ite] at run
  split at run
  · cases run
  next got =>
  obtain ⟨notOwn, below⟩ := fresh b fs₁ alloc got
  have within₁ := within.books (ext4fsGetNewBlkNo_books within.bitmaps alloc).1
  have books : fs₁.Books env g (fun x => ¬ own x) (fs₁.write env ⟨b * fs₁.blksz, zeros, fs₁.blksz⟩) :=
    .write within₁.bitmaps notOwn
  have written := within₁.books books
  have stored : env.volume (fs₁.write env ⟨b * fs₁.blksz, zeros, fs₁.blksz⟩).card =
      overlay (env.volume fs₁.card) (b * g.bs) g.bs zeros := by
    have inside : b * g.bs + g.bs ≤ env.partSize * env.devBlksz := by
      have most := Nat.mul_le_mul_right g.bs (show b + 1 ≤ g.totalBlocks from below)
      rw [Nat.succ_mul] at most
      exact most.trans fits.inside
    show env.volume (putExt4 env fs₁.card (b * fs₁.blksz) zeros fs₁.blksz) = _
    rw [within₁.bitmaps.blksz]
    exact volume_putExt4 fs₁.card zeros (within₁.bitmaps.sector.mul_left b) within₁.bitmaps.sector inside
  cases run
  refine ⟨by simpa using plain, Nat.lt_of_not_le few, b, notOwn, below, ?_, ?_⟩
  · have size : fs₁.blksz = g.bs := within₁.bitmaps.blksz
    refine { written with gParentInode := ?_, bitmaps := { written.bitmaps with } }
    show grownInode fs₁.gParentInode m b fs₁.blksz = _
    rw [within₁.gParentInode, size]
  · refine ⟨_, (written.views views).readBlock fits below, fun i small => ?_⟩
    rw [clip_of_lt small, stored]
    exact overlay_of_mem (Nat.le_add_right _ i) (Nat.add_lt_add_left small _)

theorem Fs.Within.insertEntry {b ino : Nat} {entry : Nat → Buf} (within : fs.Within env g own warm fs₀ inode D)
    (some_inode : 0 < fs₀.root.inodesPerGroup) (word : fs₀.noBlkgrp * fs₀.root.inodesPerGroup + 8 ≤ 2 ^ 32)
    (run : (do
      let inodeno ← ext4fsGetNewInodeNo env
      if inodeno = minusOne then pure minusOne
      else do
        ext4fsPutMetadata (entry inodeno) b
        pure inodeno : Run Nat) fs = some (ino, fs')) (got : ino ≠ minusOne) :
    ino ≠ 0 ∧ ino < 2 ^ 32 ∧ fs'.Within env g own warm fs₀ inode (D ++ [(b, entry ino)]) := by
  obtain ⟨no, fs₁, alloc, run⟩ := bind_eq_some.mp run
  have within₁ := within.books (ext4fsGetNewInodeNo_books within.bitmaps alloc).1
  simp only [run_ite] at run
  split at run
  · cases run
    exact absurd rfl got
  next some_ =>
  obtain ⟨⟨⟩, fs₂, put, run⟩ := bind_eq_some.mp run
  cases run
  rcases (ext4fsGetNewInodeNo_books within.bitmaps alloc).2 (by rw [within.root]; exact some_inode) with
    none | ⟨positive, most⟩
  · exact absurd none some_
  · rw [within.root, within.noBlkgrp] at most
    exact ⟨positive.ne', by omega, within₁.noted put⟩

theorem Fs.Within.insertFresh {rounds m b type ino : Nat} {block : Buf}
    (within : fs.Within env g own warm fs₀ (grownInode inode m b g.bs) D) (views : fs₀.Views env g)
    (plain : Inode.usesExtents inode = false) (blocks : 0 < m) (few : m < indirectBlocks)
    (size : Inode.size (grownInode inode m b g.bs) / g.bs = m + 1) (word : b < 2 ^ 31)
    (read : fs.readBlock env b = some block) (zero : ∀ i < g.bs, block i = 0) (large : 10 ≤ g.log2bs)
    (some_inode : 0 < fs₀.root.inodesPerGroup) (inodes : fs₀.noBlkgrp * fs₀.root.inodesPerGroup + 8 ≤ 2 ^ 32)
    (run : updateDentryFrom env name type (rounds + 1) fs = some (ino, fs')) (got : ino ≠ minusOne) :
    ino ≠ 0 ∧ ino < 2 ^ 32 ∧ fs'.Within env g own warm fs₀ (grownInode inode m b g.bs)
      (D ++ [(b, putEntry block 0 ino g.bs type name)]) := by
  have blockSize : fs.root.blockSize = g.bs := blockSize_of_log2 (within.views views).log2
  obtain ⟨before, rfl⟩ : ∃ before, m = before + 1 := ⟨m - 1, by omega⟩
  have mapped : Mapped env fs.card fs.root warm (grownInode inode (before + 1) b g.bs)
      (fun k => getLe32 (grownInode inode (before + 1) b g.bs) (Inode.dirBlocks + 4 * k)) :=
    mapped_direct (by rw [usesExtents_grownInode]; exact plain) (by rw [blockSize, size]; exact few) warm
  obtain ⟨cache, c, found, caches⟩ := mapped fs.caches within.caches (before + 1) (by rw [blockSize, size]; omega)
  have newest : getLe32 (grownInode inode (before + 1) b g.bs) (Inode.dirBlocks + 4 * (before + 1)) = b :=
    dirBlock_grownInode (by omega)
  simp only [newest] at found
  have lookup : allocatedBlock env (grownInode inode (before + 1) b g.bs) (before + 1) fs =
      some (b, { fs with caches := c }) := by
    rw [allocatedBlock, found]
    rfl
  have last : w32 (before + 1 + 1 + minusOne) = before + 1 := by
    unfold indirectBlocks at few
    unfold w32 minusOne
    omega
  rw [updateDentryFrom, get_bind, within.gParentInode, directoryBlocks, blockSize, size] at run
  simp only [last] at run
  obtain ⟨r, fs₁, search, run⟩ := bind_eq_some.mp run
  rw [Ext4.slotLoop] at search
  obtain ⟨r₁, fs₂, first, search⟩ := bind_eq_some.mp search
  by_cases boot : b = 0
  · -- a block with the number 0 is taken for a hole
    rw [slotInBlock, bind_of_run lookup] at first
    simp only [run_ite, if_pos (Or.inl boot)] at first
    cases first
    cases search
    cases run
    exact absurd rfl got
  · have fine : ¬ (b = 0 ∨ isNeg b = true) := by
      rintro (none | negative)
      · exact boot none
      · exact absurd negative (by rw [isNeg, decide_eq_true_eq]; omega)
    obtain ⟨⟨L, rfl⟩, rfl⟩ := slotInBlock_found lookup fine read first
    have stop : findSlot block fs.blksz name fs.blksz 0 = .stop 0 := by
      have positive : 2 ^ 10 ≤ g.bs := Nat.pow_le_pow_right (by decide) large
      obtain ⟨rounds, count⟩ : ∃ rounds, g.bs = rounds + 1 := ⟨g.bs - 1, by omega⟩
      have empty : Dirent.direntlen block 0 = 0 :=
        getLe16_congr (c := zeros) (p := 0) (fun i below => zero (0 + 4 + i) (by omega))
      rw [within.bitmaps.blksz, count, findSlot]
      simp only [empty]
      rw [if_neg (by omega), if_pos trivial]
    simp only [stop] at search
    cases search
    simp only [Nat.sub_zero] at run
    have inserted := (within.logs caches).insertEntry some_inode inodes run got
    rwa [within.bitmaps.blksz] at inserted

/-- The directory is left with one more live entry. -/
def InsertRight (env : Env) (g : Geometry) (warm : Caches → Prop) (rs : Nat → List Record) (name : CStr) (ino : Nat)
    (inode : Buf) (fs' : Fs) : Prop :=
  ∃ B' rs', fs'.LeavesDir env g warm fs'.gParentInode B' rs' ∧
    (live (recordsOf g fs'.gParentInode rs')).Perm ((name, ino) :: live (recordsOf g inode rs))

def HasRoom (g : Geometry) (inode : Buf) (rs : Nat → List Record) (name : CStr) : Prop :=
  ∃ k < Inode.size inode / g.bs, ∃ r ∈ rs k, r.Roomy name

theorem Fs.Within.insertRight_of_roomy {k ino type : Nat} {block : Buf} {pre post : List Record} {s : Record}
    (views : fs₀.Views env g) (owns : Dir.Owns env g fs₀.card fs₀.root warm inode B rs own)
    (clean : ∀ e ∈ D, ∀ j < Inode.size inode / g.bs, e.1 ≠ B j) (below : k < Inode.size inode / g.bs)
    (tiles : Tiles block 0 (rs k) g.bs) (split : rs k = pre ++ s :: post) (roomy : s.Roomy name) (there : ino ≠ 0)
    (number : ino < 2 ^ 32) (kind : type < 2 ^ 8) (short : name.length < 2 ^ 8)
    (within : fs.Within env g own warm fs₀ inode (D ++ [(B k,
      putEntry (putLe16 block (span pre + 4) (entryBytes s.name.length)) (span pre + entryBytes s.name.length) ino
        (s.len - entryBytes s.name.length) type name)])) :
    InsertRight env g warm rs name ino inode fs := by
  rw [split] at tiles
  have inserted := tiles.insert roomy number kind short
  rw [Nat.zero_add] at inserted
  obtain ⟨front, back, whole, replaced⟩ := recordsOf_split below rs
  rw [split] at whole
  refine ⟨B, _, by rw [within.gParentInode]; exact within.leavesDir views owns clean below inserted, ?_⟩
  have new : live [(⟨ino, s.len - entryBytes s.name.length, name, type⟩ : Record)] = [(name, ino)] := live_singleton there
  have before : live (recordsOf g inode rs) = (live front ++ live pre ++ live [s]) ++ (live post ++ live back) := by
    rw [whole, live_append, live_append front, live_append pre, live_cons s post]
    simp only [List.append_assoc]
  have after : live (recordsOf g inode (Function.update rs k
      (pre ++ { s with len := entryBytes s.name.length } ::
        ⟨ino, s.len - entryBytes s.name.length, name, type⟩ :: post))) =
      (live front ++ live pre ++ live [s]) ++ (name, ino) :: (live post ++ live back) := by
    rw [replaced, live_append, live_append front, live_append pre, live_cons _ (_ :: post), live_len, live_cons _ post, new]
    simp only [List.append_assoc, List.cons_append, List.nil_append]
  rw [within.gParentInode, before, after]
  exact List.perm_middle

/-- The entry fills a block of its own, and its length has to fit into 16 bits. -/
theorem Fs.Within.insertRight_grown_iff {ino type b : Nat} {block first : Buf} (views : fs₀.Views env g)
    (owns : Dir.Owns env g fs₀.card fs₀.root warm inode B rs own)
    (clean : ∀ e ∈ D, ∀ j < Inode.size inode / g.bs, e.1 ≠ B j) (plain : Inode.usesExtents inode = false)
    (blocks : 0 < Inode.size inode / g.bs) (few : Inode.size inode / g.bs < indirectBlocks) (notOwn : ¬ own b)
    (inside : b < g.totalBlocks) (tiles : Tiles first 0 (rs 0) g.bs) (there : ino ≠ 0) (number : ino < 2 ^ 32)
    (kind : type < 2 ^ 8) (short : name.length < 2 ^ 8)
    (within : fs.Within env g own warm fs₀ (grownInode inode (Inode.size inode / g.bs) b g.bs)
      ((D ++ [(B 0, first)]) ++ [(b, putEntry block 0 ino g.bs type name)])) :
    InsertRight env g warm rs name ino inode fs ↔ g.bs ≠ 2 ^ 16 := by
  have dir := within.dir owns
  obtain ⟨m, count⟩ : ∃ m, m = Inode.size inode / g.bs := ⟨_, rfl⟩
  have large : 2 ^ 10 ≤ g.bs := Nat.pow_le_pow_right (by decide) dir.fits.log2
  have total := dir.fits.total_lt
  have whole : Inode.size inode = m * g.bs := by
    have parts := Nat.div_add_mod (Inode.size inode) g.bs
    rw [dir.whole, Nat.add_zero, ← count, Nat.mul_comm] at parts
    exact parts.symm
  have small : Inode.size inode + g.bs < 2 ^ 32 := by
    have most : m * g.bs ≤ 12 * 2 ^ 16 := Nat.mul_le_mul (by rw [count]; exact few.le) dir.bs_le
    have := dir.bs_le
    omega
  rw [← count] at within blocks few
  obtain ⟨inode', grown⟩ : ∃ inode', inode' = grownInode inode m b g.bs := ⟨_, rfl⟩
  have size : Inode.size inode' = (m + 1) * g.bs := by rw [grown, size_grownInode small, whole, Nat.succ_mul]
  have count' : Inode.size inode' / g.bs = m + 1 := by rw [size, Nat.mul_div_cancel _ Geometry.bs_pos]
  have blockSize : fs.root.blockSize = g.bs := blockSize_of_log2 dir.log2
  have mapped : Mapped env fs.card fs.root warm inode' (fun k => getLe32 inode' (Inode.dirBlocks + 4 * k)) :=
    mapped_direct (by rw [grown, usesExtents_grownInode]; exact plain) (by rw [blockSize, count']; exact few) warm
  have newest : getLe32 inode' (Inode.dirBlocks + 4 * m) = b := by rw [grown, dirBlock_grownInode (by omega)]
  -- the older blocks are where they were
  have older (k : Nat) (below : k < m) : getLe32 inode' (Inode.dirBlocks + 4 * k) = B k := by
    rw [grown, dirBlock_grownInode_of_lt below]
    have direct : Mapped env fs.card fs.root warm inode (fun k => getLe32 inode (Inode.dirBlocks + 4 * k)) :=
      mapped_direct plain (by rw [blockSize, ← count]; exact few.le) warm
    obtain ⟨_, _, here, -⟩ := direct fs.caches within.caches k (by rw [blockSize, ← count]; exact below)
    obtain ⟨_, _, here', -⟩ := dir.mapped fs.caches within.caches k (by rw [blockSize, ← count]; exact below)
    rw [here] at here'
    exact congrArg Prod.fst (Option.some.inj here')
  rw [← grown] at within
  have last : fs.pending env b = some (putEntry block 0 ino g.bs type name) := Fs.pending_last within.dirtyBlockPtr
  constructor
  · rintro ⟨B', rs', leaves, -⟩ size
    rw [within.gParentInode] at leaves
    obtain ⟨_, _, here, -⟩ := mapped fs.caches within.caches m (by rw [blockSize, count']; exact Nat.lt_succ_self m)
    obtain ⟨_, _, here', -⟩ := leaves.mapped fs.caches within.caches m (by rw [blockSize, count']; exact Nat.lt_succ_self m)
    rw [here] at here'
    have same : b = B' m := newest.symm.trans (congrArg Prod.fst (Option.some.inj here'))
    obtain ⟨buf, pending, filled⟩ := leaves.block m (by rw [count']; exact Nat.lt_succ_self m)
    rw [← same, last, Option.some.injEq] at pending
    refine not_tiles_of_len_zero ?_ Geometry.bs_pos filled
    rw [← pending, size]
    exact putEntry_len_full block ino type name
  · intro short_
    have limit : g.bs < 2 ^ 16 := Nat.lt_of_le_of_ne dir.bs_le short_
    refine ⟨_, Function.update rs m [⟨ino, g.bs, name, type⟩], ⟨by rw [within.gParentInode]; exact mapped, ?_, ?_⟩, ?_⟩
    · rw [within.gParentInode, size, Nat.mul_mod_left]
    · rw [within.gParentInode, count']
      intro k below
      rcases Nat.eq_or_lt_of_le (Nat.le_of_lt_succ below) with rfl | earlier
      · rw [newest, Function.update_self]
        refine ⟨_, last, recordAt_putEntry number limit kind short, ⟨?_, ?_⟩, Nat.zero_add _⟩
        · exact Nat.pow_dvd_pow 2 (show 2 ≤ g.log2bs from Nat.le_trans (by decide) dir.fits.log2)
        · show sizeofDirent + name.length ≤ g.bs
          rw [show sizeofDirent = 8 from rfl]
          omega
      · have inside : k < Inode.size inode / g.bs := by rw [← count]; exact earlier
        have other : b ≠ B k := fun same => notOwn (by rw [same]; exact owns.blocks k inside)
        rw [older k earlier, Function.update_of_ne earlier.ne, Fs.pending_other other within.dirtyBlockPtr]
        by_cases zero : k = 0
        · subst zero
          exact ⟨first, Fs.pending_last rfl, tiles⟩
        · have away : B 0 ≠ B k := fun same => zero (owns.distinct 0 (by omega) k inside same).symm
          refine ⟨_, ?_, (dir.tiles k inside).congr (fun i _ upper => clip_of_lt upper)⟩
          rw [Fs.pending_other away rfl, Fs.pending_none (fun e member => clean e member k inside)]
          exact (within.views views).readBlock dir.fits (dir.block k inside).2
    · have new : live [(⟨ino, g.bs, name, type⟩ : Record)] = [(name, ino)] := live_singleton there
      have kept : (List.range m).flatMap (Function.update rs m [⟨ino, g.bs, name, type⟩]) = (List.range m).flatMap rs :=
        List.flatMap_congr (fun i member => Function.update_of_ne (List.mem_range.mp member).ne _ _)
      rw [within.gParentInode, recordsOf, count', List.range_succ, List.flatMap_append, List.flatMap_singleton,
        Function.update_self, kept, live_append, new, recordsOf, ← count]
      exact List.perm_append_singleton _ _

/-- `ext4fs_update_parent_dentry` adds exactly the new entry, unless the directory has to grow by a block of 64 KiB. -/
theorem insert_right_iff {type ino : Nat} (views : fs.Views env g)
    (owns : Dir.Owns env g fs.card fs.root warm fs.gParentInode B rs own) (caches : warm fs.caches)
    (bitmaps : fs.BitmapsIn env g (fun x => ¬ own x)) (taken : fs.Taken (fun x => own x ∨ g.totalBlocks ≤ x))
    (clean : ∀ e ∈ fs.dirtyBlockPtr, ∀ j < Inode.size fs.gParentInode / g.bs, e.1 ≠ B j)
    (blocks : 0 < Inode.size fs.gParentInode / g.bs)
    (some_inode : 0 < fs.root.inodesPerGroup) (inodes : fs.noBlkgrp * fs.root.inodesPerGroup + 8 ≤ 2 ^ 32)
    (kind : type < 2 ^ 8) (short : name.length < 2 ^ 8)
    (run : ext4fsUpdateParentDentry env name type fs = some (ino, fs')) (got : ino ≠ minusOne) :
    InsertRight env g warm rs name ino fs.gParentInode fs' ↔ HasRoom g fs.gParentInode rs name ∨ g.bs ≠ 2 ^ 16 := by
  have start : fs.Within env g own warm fs fs.gParentInode fs.dirtyBlockPtr :=
    ⟨rfl, rfl, rfl, rfl, rfl, caches, fun x _ => .refl _ x, bitmaps⟩
  have dir := owns.dir
  obtain ⟨inode, parent⟩ : ∃ inode, inode = fs.gParentInode := ⟨_, rfl⟩
  have size : Inode.size inode < 2 ^ 32 := getLe32_lt _ _
  have large : 2 ^ 10 ≤ g.bs := Nat.pow_le_pow_right (by decide) dir.fits.log2
  have most : Inode.size inode / g.bs ≤ Inode.size inode / 2 ^ 10 := Nat.div_le_div_left large (by decide)
  have last : w32 (Inode.size inode / g.bs + minusOne) = Inode.size inode / g.bs - 1 := by
    rw [← parent] at blocks
    unfold w32 minusOne
    omega
  rw [← parent] at start owns dir clean blocks ⊢
  rw [ext4fsUpdateParentDentry, updateDentryFrom, get_bind, ← parent, directoryBlocks,
    blockSize_of_log2 dir.log2, last] at run
  obtain ⟨r, fs₁, search, run⟩ := bind_eq_some.mp run
  obtain ⟨⟨c, L, warmed, rfl⟩, found⟩ := start.slotLoop views owns (by omega) search
  have within := start.logs (L := L) warmed
  rcases found with ⟨k, below, pre, s, post, block, split, roomy, tiles, rfl⟩ | ⟨cramped, block, tiles, rfl⟩
  · have inside : k < Inode.size inode / g.bs := by omega
    have namelen : Dirent.namelen block (span pre) = s.name.length := by
      rw [split] at tiles
      have here := (tiles_append.mp tiles).2.1
      rw [Nat.zero_add] at here
      rw [← here, recordAt, length_bytesAt]
    simp only [namelen] at run
    obtain ⟨there, number, noted⟩ := within.insertEntry some_inode inodes run got
    exact iff_of_true (noted.insertRight_of_roomy views owns clean inside tiles split roomy there number kind short)
      (.inl ⟨k, inside, s, split ▸ List.mem_append_right pre List.mem_cons_self, roomy⟩)
  · have noRoom : ¬ HasRoom g inode rs name := by
      rintro ⟨k, below, r, member, roomy⟩
      exact cramped k (by omega) r member roomy
    obtain ⟨ok, fs₂, grow, run⟩ := bind_eq_some.mp run
    cases ok with
    | false =>
      cases run
      exact absurd rfl got
    | true =>
      have fresh (b : Nat) (fs₂ : Fs)
          (alloc : ext4fsGetNewBlkNo env { fs with caches := c, journalPtr := fs.journalPtr ++ L } = some (b, fs₂))
          (some_ : b ≠ minusOne) : ¬ own b ∧ b < g.totalBlocks := by
        have free := (ext4fsGetNewBlkNo_books within.bitmaps alloc).2 _
          ⟨taken.first, taken.next, taken.cursor, taken.limit⟩ some_
        exact ⟨fun mine => free (.inl mine), Nat.lt_of_not_le (fun beyond => free (.inr beyond))⟩
      obtain ⟨plain, few, b, notOwn, below, grown, zero, read, cleared⟩ := within.growParent views dir.fits fresh grow
      obtain ⟨⟨⟩, fs₃, put, run⟩ := bind_eq_some.mp run
      have noted := grown.noted put
      have total := dir.fits.total_lt
      have count : Inode.size (grownInode inode (Inode.size inode / g.bs) b g.bs) / g.bs = Inode.size inode / g.bs + 1 := by
        have whole : Inode.size inode / g.bs * g.bs = Inode.size inode := Nat.div_mul_cancel (Nat.dvd_of_mod_eq_zero dir.whole)
        have limit : Inode.size inode / g.bs * g.bs ≤ 12 * 2 ^ 16 := Nat.mul_le_mul few.le dir.bs_le
        have := dir.bs_le
        rw [size_grownInode (by omega), Nat.add_div_right _ Geometry.bs_pos]
      have again : fs₃.readBlock env b = some zero := by
        obtain rfl := ext4fsPutMetadata_run put
        exact read
      obtain ⟨there, number, final⟩ :=
        noted.insertFresh views plain blocks few count (by omega) again cleared dir.fits.log2 some_inode inodes run got
      rw [final.insertRight_grown_iff views owns clean plain blocks few notOwn below tiles there number kind short]
      exact ⟨.inr, fun either => either.resolve_left noRoom⟩

end Insert

/-- The driver on a volume with a well-formed parent directory, whose blocks `own` are marked in the bitmaps as those
behind the end of the volume are. -/
structure Fs.HasParent (env : Env) (g : Geometry) (own : Nat → Prop) (warm : Caches → Prop) (B : Nat → Nat)
    (rs : Nat → List Record) (fs : Fs) : Prop where
  views : fs.Views env g
  owns : Dir.Owns env g fs.card fs.root warm fs.gParentInode B rs own
  blocks : 0 < Inode.size fs.gParentInode / g.bs
  unique : ((live (recordsOf g fs.gParentInode rs)).map Prod.fst).Nodup
  caches : warm fs.caches
  bitmaps : fs.BitmapsIn env g (fun x => ¬ own x)
  taken : fs.Taken (fun x => own x ∨ g.totalBlocks ≤ x)
  clean : ∀ e ∈ fs.dirtyBlockPtr, ∀ j < Inode.size fs.gParentInode / g.bs, e.1 ≠ B j
  inodes : 0 < fs.root.inodesPerGroup ∧ fs.noBlkgrp * fs.root.inodesPerGroup + 8 ≤ 2 ^ 32

theorem Dir.owns_direct {env : Env} {g : Geometry} {card : Buf} {root : Root} {warm : Caches → Prop} {inode : Buf}
    {rs : Nat → List Record} (plain : Inode.usesExtents inode = false) (few : Inode.size inode / root.blockSize ≤ indirectBlocks)
    (dir : Dir env g card root warm inode (fun k => getLe32 inode (Inode.dirBlocks + 4 * k)) rs)
    (distinct : ∀ i < Inode.size inode / g.bs, ∀ j < Inode.size inode / g.bs,
      getLe32 inode (Inode.dirBlocks + 4 * i) = getLe32 inode (Inode.dirBlocks + 4 * j) → i = j) :
    Dir.Owns env g card root warm inode (fun k => getLe32 inode (Inode.dirBlocks + 4 * k)) rs
      (fun x => ∃ k < Inode.size inode / g.bs, getLe32 inode (Inode.dirBlocks + 4 * k) = x) where
  blocks := fun k below => ⟨k, below, rfl⟩
  distinct := distinct
  frame := fun _ same =>
    { dir with
      mapped := mapped_direct plain few warm
      tiles := fun k below => (dir.tiles k below).congr (fun i _ upper => (same _ ⟨k, below, rfl⟩ i upper).symm) }

def parentFs : Fs :=
  { sampleFs with
    gParentInode := sampleRootInode
    inodeBmaps := fun _ => sampleGeometry.blk (sampleEnv.volume (sampleCard false)) 4 }

theorem parentFs_hasParent : parentFs.HasParent sampleEnv sampleGeometry
    (fun x => ∃ k < Inode.size sampleRootInode / sampleGeometry.bs, getLe32 sampleRootInode (Inode.dirBlocks + 4 * k) = x)
    (fun _ => True) (fun k => getLe32 sampleRootInode (Inode.dirBlocks + 4 * k)) (treeRecords 2) := by
  have count : Inode.size sampleRootInode / sampleGeometry.bs = 1 := by decide +kernel
  have block : getLe32 sampleRootInode (Inode.dirBlocks + 4 * 0) = 7 := by decide +kernel
  have own (x : Nat) : (∃ k < Inode.size sampleRootInode / sampleGeometry.bs,
      getLe32 sampleRootInode (Inode.dirBlocks + 4 * k) = x) ↔ x = 7 := by
    rw [count]
    constructor
    · rintro ⟨k, below, rfl⟩
      rw [Nat.lt_one_iff.mp below, block]
    · rintro rfl
      exact ⟨0, Nat.one_pos, block⟩
  have dir : Dir sampleEnv sampleGeometry parentFs.card parentFs.root (fun _ => True) sampleRootInode
      (fun k => getLe32 sampleRootInode (Inode.dirBlocks + 4 * k)) (treeRecords 2) := by
    refine ⟨⟨by decide, by decide, by decide, by decide⟩, by decide +kernel, by decide,
      mapped_direct (by decide +kernel) (by decide +kernel) _, by decide +kernel, ?_, ?_⟩
    · rw [count]
      decide +kernel
    · rw [count]
      decide +kernel
  have flag : hasBit (Desc.bgFlags (parentFs.groupDescriptor 0)) bgBlockUninit = false := by decide +kernel
  have marked {b : Nat} (used : b = 7 ∨ 64 ≤ b) (upper : b < 8193) :
      testBmap (parentFs.blkBmaps 0) ((b - 1) / 8) ((b - 1) % 8) = true := by
    have bit := sampleCard_marked false (b := b) (by omega) (by omega) upper
    have number : sampleGeometry.bitOf b = b - 1 := Nat.mod_eq_of_lt (show b - 1 < 8192 by omega)
    have group : sampleGeometry.groupOf b = 0 := Nat.div_eq_of_lt (show b - 1 < 8192 by omega)
    rwa [Geometry.marked, number, group] at bit
  have groups : parentFs.noBlkgrp = 1 := rfl
  have distinct (i : Nat) (below : i < Inode.size sampleRootInode / sampleGeometry.bs) (j : Nat)
      (below' : j < Inode.size sampleRootInode / sampleGeometry.bs)
      (_ : getLe32 sampleRootInode (Inode.dirBlocks + 4 * i) = getLe32 sampleRootInode (Inode.dirBlocks + 4 * j)) : i = j := by
    rw [count] at below below'
    omega
  refine ⟨⟨by decide +kernel, rfl, by decide +kernel⟩, dir.owns_direct (by decide +kernel) (by decide +kernel) distinct,
    by decide +kernel, by decide +kernel, trivial, ⟨.inl rfl, rfl, by decide, ?_⟩,
    ⟨?_, ?_, by decide +kernel, by decide +kernel⟩, ?_, by decide +kernel⟩
  · intro i below
    simp only [own]
    rw [groups] at below
    rw [Nat.lt_one_iff.mp below]
    decide +kernel
  · intro i below n small inside
    simp only [own] at inside
    rw [groups] at below
    have size : parentFs.blksz = 1024 := rfl
    rw [Nat.lt_one_iff.mp below, size] at inside
    rw [size] at small
    rw [Nat.lt_one_iff.mp below]
    simp only [if_true, Nat.zero_mul, Nat.add_zero] at inside
    have bit := marked (b := n + 1) inside (by omega)
    exact ⟨flag, bit⟩
  · intro b word inside below
    simp only [own] at inside
    have total : sampleGeometry.totalBlocks = 64 := rfl
    have perGroup : Sblock.blocksPerGroup parentFs.root.sblock = 8192 := by decide +kernel
    have size : parentFs.blksz = 1024 := rfl
    have blockSize : parentFs.root.blockSize = 1024 := by decide +kernel
    rw [groups] at below
    have group := Nat.lt_one_iff.mp below
    have upper : b < 8193 := by
      unfold groupOfBlock w32 minusOne at group
      simp only [perGroup, size] at group
      split at group <;> omega
    rw [group, blockSize]
    have bit := marked (b := b) inside upper
    refine ⟨flag, ?_⟩
    unfold blockBit
    simp only [Nat.zero_mul, Nat.sub_zero, ne_eq, not_true, if_false]
    split
    · next whole =>
      have byte : (b - 1) / 8 = b / 8 - 1 := by omega
      have last : (b - 1) % 8 = 7 := by omega
      rwa [byte, last] at bit
    · next part =>
      have byte : (b - 1) / 8 = b / 8 := by omega
      have rest : (b - 1) % 8 = b % 8 - 1 := by omega
      rwa [byte, rest] at bit
  · intro e member
    cases member

def pageGeometry : Geometry := { sampleGeometry with log2bs := 16, firstDataBlock := 0, totalBlocks := 8, blocksPerGroup := 2 ^ 19 }

def pageEnv : Env := { sampleEnv with partSize := 1024 }

/-- Block 5 has the records of the files `f` and `g`, half a block each. -/
def pageCard : Buf := fun a =>
  match a / 2 ^ 16 with
  | 5 => putEntry (putEntry zeros 0 12 (2 ^ 15) 1 [102]) (2 ^ 15) 13 (2 ^ 15) 1 [103] (a % 2 ^ 16)
  | _ => 0

def pageInode : Buf := words [(0, 0o40755), (4, 2 ^ 16), (40, 5)]

def pageFs : Fs :=
  { sampleFs with
    card := pageCard
    root := { sampleFs.root with sblock := words [(24, 6), (32, 2 ^ 19), (40, 16)] }
    blksz := 2 ^ 16
    sectPerblk := 128
    gParentInode := pageInode }

def pageRecords (_ : Nat) : List Record := [⟨12, 2 ^ 15, [102], 1⟩, ⟨13, 2 ^ 15, [103], 1⟩]

end UuuFastboot.Ext4
