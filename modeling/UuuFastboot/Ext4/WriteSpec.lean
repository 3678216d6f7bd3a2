import UuuFastboot.Ext4.CreateSpec
import UuuFastboot.Ext4.OpenSpec

namespace UuuFastboot.Ext4

open Word Overlay Bytes CString Partial

theorem Geometry.searchBlocks_same {g : Geometry} {levels left k : Nat} {V V' inode : Buf} {name : CStr}
    (block : ∀ j, k ≤ j → j < k + left → ∃ b via, g.Found levels V inode j b via ∧
      (∀ x ∈ via, g.SameBlock V V' x) ∧ (b ≠ 0 → g.SameBlock V V' b)) :
    g.searchBlocks levels V' inode name left k = g.searchBlocks levels V inode name left k := by
  induction left generalizing k with
  | zero => rfl
  | succ left ih =>
    obtain ⟨b, via, found, map, data⟩ := block k (Nat.le_refl k) (by omega)
    rw [Geometry.searchBlocks, Geometry.searchBlocks, found.lookup, (found.congr map).lookup]
    simp only
    split
    · rfl
    · next there =>
      rw [(data there).clip_eq, ih (fun j lower upper => block j (by omega) (by omega))]

section Congr

variable {g : Geometry} {levels : Nat} {S K : Nat → Prop} {V V' inode : Buf} (map : ∀ x, S x → g.SameBlock V V' x)
  (blocks : ∀ b, K b → g.SameBlock V V' b)
include map

theorem Geometry.DirMap.congr (dir : g.DirMap levels S K V inode) : g.DirMap levels S K V' inode := by
  refine ⟨dir.some, fun k below => ?_⟩
  obtain ⟨b, via, found, inside, inK, safe⟩ := dir.block k below
  exact ⟨b, via, found.congr (fun x member => map x (safe x member)), inside, inK, safe⟩

include blocks

theorem Geometry.searchBlocks_congr {name : CStr} {left k : Nat} (dir : g.DirMap levels S K V inode)
    (bound : k + left ≤ Inode.size inode / g.bs) :
    g.searchBlocks levels V' inode name left k = g.searchBlocks levels V inode name left k := by
  refine Geometry.searchBlocks_same (fun j _ below => ?_)
  obtain ⟨b, via, found, inside, inK, safe⟩ := dir.block j (by omega)
  exact ⟨b, via, found, fun x member => map x (safe x member), fun _ => blocks b inK⟩

theorem Geometry.slotFrom_congr {name : CStr} {k : Nat} (dir : g.DirMap levels S K V inode)
    (bound : k < Inode.size inode / g.bs) :
    g.slotFrom levels V' inode name k = g.slotFrom levels V inode name k := by
  have slotIn : ∀ k < Inode.size inode / g.bs, g.slotIn levels V' inode name k = g.slotIn levels V inode name k := by
    intro k below
    obtain ⟨b, via, found, inside, inK, safe⟩ := dir.block k below
    have found' := found.congr (fun x member => map x (safe x member))
    simp only [Geometry.slotIn, found.lookup, found'.lookup, (blocks b inK).clip_eq]
  induction k with
  | zero => exact slotIn 0 bound
  | succ k ih => rw [Geometry.slotFrom, Geometry.slotFrom, slotIn (k + 1) bound, ih (by omega)]

theorem Geometry.HasRoom.congr {name : CStr} (dir : g.DirMap levels S K V inode) (room : g.HasRoom levels V inode name) :
    g.HasRoom levels V' inode name := by
  rw [Geometry.HasRoom, Geometry.slotFrom_congr map blocks dir (Nat.sub_lt dir.some Nat.one_pos)]
  exact room

theorem Geometry.Walkable.congr {env : Env} {names : List CStr} {d : Nat} (valid : g.Valid env) (table : g.SameTable V V')
    (tables : ∀ ino, g.HasInode V ino → g.SameBlock V V' (g.inodeBlk V ino))
    (walk : g.Walkable levels S K V names d) :
    g.Walkable levels S K V' names d ∧ g.resolve levels V' names d = g.resolve levels V names d := by
  induction names generalizing d with
  | nil => exact ⟨trivial, rfl⟩
  | cons name rest ih =>
    obtain ⟨has, dir, further⟩ := walk
    have inodeAt := table.inodeAt valid has.1 has.2.1 (tables d has)
    have moved {ino : Nat} (has : g.HasInode V ino) : g.HasInode V' ino :=
      ⟨has.1, has.2.1, by rw [table.inodeBlk valid has.1 has.2.1]; exact has.2.2⟩
    have search : g.search levels V' (g.inodeAt V' d) name = g.search levels V (g.inodeAt V d) name := by
      rw [inodeAt]
      exact Geometry.searchBlocks_congr map blocks dir (Nat.le_of_eq (Nat.zero_add _))
    refine ⟨⟨moved has, by rw [inodeAt]; exact dir.congr map, fun ino found => ?_⟩, ?_⟩
    · rw [search] at found
      obtain ⟨has', walk'⟩ := further ino found
      exact ⟨moved has', (ih walk').1⟩
    · cases rest with
      | nil => rfl
      | cons next rest =>
        rw [Geometry.resolve, Geometry.resolve, search]
        cases found : g.search levels V (g.inodeAt V d) name with
        | none => rfl
        | some ino => exact (ih (further ino found).2).2

omit map blocks in
theorem Geometry.Walkable.resolved {names : List CStr} {d p : Nat} {name : CStr} (walk : g.Walkable levels S K V names d)
    (resolved : g.resolve levels V names d = some (p, name)) :
    g.HasInode V p ∧ g.DirMap levels S K V (g.inodeAt V p) := by
  induction names generalizing d with
  | nil => cases resolved
  | cons first rest ih =>
    obtain ⟨has, dir, further⟩ := walk
    cases rest with
    | nil =>
      cases resolved
      exact ⟨has, dir⟩
    | cons next rest =>
      obtain ⟨ino, found, resolved⟩ := Option.bind_eq_some_iff.mp resolved
      exact ih (further ino found).2 resolved

end Congr

structure Geometry.Describes (g : Geometry) (V : Buf) : Prop where
  magic : Sblock.magic (sbOf V) = ext2Magic
  log2 : Sblock.log2BlockSize (sbOf V) + 10 = g.log2bs
  first : Sblock.firstDataBlock (sbOf V) = g.firstDataBlock
  total : Sblock.totalBlocks (sbOf V) = g.totalBlocks
  perGroup : Sblock.blocksPerGroup (sbOf V) = g.blocksPerGroup
  inodes : Sblock.inodesPerGroup (sbOf V) = g.inodesPerGroup
  inodesz : (if Sblock.revisionLevel (sbOf V) = 0 then 128 else Sblock.inodeSize (sbOf V)) = g.inodesz
  gdsize : (if Sblock.revisionLevel (sbOf V) = 0 then 32
    else if hasBit (Sblock.featureIncompat (sbOf V)) incompat64Bit then Sblock.descriptorSize (sbOf V) else 32) = g.gdsize

theorem ext4fsMount_run {env : Env} {g : Geometry} {card : Buf} (valid : g.Valid env)
    (describes : g.Describes (env.volume card)) (has : g.HasInode (env.volume card) rootIno) :
    ∃ root, ext4fsMount env card = some root ∧ root.Has g ∧ root.inode = g.inodeAt (env.volume card) rootIno := by
  have read : ext4ReadSuperblock env card = some (sbOf (env.volume card)) := ext4ReadSuperblock_eq valid card
  obtain ⟨root, sizes⟩ : ∃ root : Root, root =
      if Sblock.revisionLevel (sbOf (env.volume card)) = 0 then ⟨sbOf (env.volume card), zeros, 128, 32⟩
      else
        ⟨sbOf (env.volume card), zeros, Sblock.inodeSize (sbOf (env.volume card)),
          if hasBit (Sblock.featureIncompat (sbOf (env.volume card))) incompat64Bit
          then Sblock.descriptorSize (sbOf (env.volume card)) else 32⟩ := ⟨_, rfl⟩
  have shape : root.Has g := by
    have inodesz := describes.inodesz
    have gdsize := describes.gdsize
    rw [sizes]
    split
    · next old =>
      rw [if_pos old] at inodesz gdsize
      exact ⟨describes.log2, describes.first, describes.total, describes.perGroup, describes.inodes, inodesz, gdsize⟩
    · next recent =>
      rw [if_neg recent] at inodesz gdsize
      exact ⟨describes.log2, describes.first, describes.total, describes.perGroup, describes.inodes, inodesz, gdsize⟩
  have inode := ext4fsReadInode_eq valid shape card has.1 has.2.1 has.2.2
  refine ⟨{ root with inode := g.inodeAt (env.volume card) rootIno }, ?_, { shape with }, rfl⟩
  rw [ext4fsMount, read]
  simp only [Option.bind_eq_bind, Option.bind_some]
  rw [if_neg (not_not.mpr describes.magic), ← sizes, inode, Option.bind_some]

/-- A volume that is as the driver takes it for granted. `A` has the blocks and inodes in use, all of them marked in
the bitmaps; the blocks `S` lead to those of the journal and of the directories, which are `K`. The journal needs no
recovery, and the volume begins with a word that is zero. -/
structure Consistent (env : Env) (g : Geometry) {V : Buf} (A : Areas g V) (S K : Nat → Prop) (J : Nat → Nat) (n : Nat) :
    Prop where
  valid : g.Valid env
  describes : g.Describes V
  root : g.HasInode V rootIno
  journal : JournalApart env g V (g.inodeAt V journalIno) S J n
  clean : hasBit (Sblock.featureIncompat (sbOf V)) incompatRecover = false
  inodeBits : 8 ∣ g.inodesPerGroup ∧ g.inodesPerGroup ≤ 8 * g.bs
  blocks : ∀ b, A.used b → g.firstDataBlock ≤ b → b < g.bitmapEnd →
    g.marked (fun i => g.blk V (g.bbm V i)) b = true
  inodes : ∀ ino, A.inodes ino → (ino - 1) / g.inodesPerGroup < g.groups ∧
    g.inodeMarked (fun i => g.blk V (g.ibm V i)) ino = true
  superblock : A.kept g.firstDataBlock
  journalFirst : A.kept (J 0)
  boot : A.kept 0
  empty : g.word V 0 0 = 0
  map : ∀ x, S x → A.kept x
  descriptors : ∀ b, g.gdtBlk ≤ b → b < g.gdtBlk + g.gdtBlocks → A.kept b
  journalInode : A.kept (g.inodeBlk V journalIno)
  bitmaps : ∀ i < g.groups, (g.bbm V i ≠ g.firstDataBlock ∧ g.bbm V i ≠ J 0) ∧ g.ibm V i ≠ g.firstDataBlock ∧
    g.ibm V i ≠ J 0
  tables : ∀ ino, g.HasInode V ino → g.inodeBlk V ino ≠ g.firstDataBlock ∧ g.inodeBlk V ino ≠ J 0
  directories : ∀ b, K b → b ≠ g.firstDataBlock ∧ b ≠ J 0

section Opened

variable {env : Env} {g : Geometry} {V : Buf} {A : Areas g V} {S K : Nat → Prop} {J : Nat → Nat} {n : Nat}
  (consistent : Consistent env g A S K J n)
include consistent

theorem Consistent.beside : g.Beside (J 0) V (g.opened V (J 0) (journalBlock g V J 0)) :=
  Geometry.opened_beside consistent.valid V (J 0) _

theorem Consistent.table : g.SameTable V (g.opened V (J 0) (journalBlock g V J 0)) :=
  consistent.beside.table consistent.journal.table

theorem Consistent.busy {fs mid fs' : Fs} (opened : fs.JournalOpened env g V S J mid)
    (loaded : mid.Loaded g (g.opened V (J 0) (journalBlock g V J 0)) fs') (cursor : fs.currBlkno < 2 ^ 32) :
    fs'.Busy env g S (A.move consistent.valid consistent.table) [] (g.opened V (J 0) (journalBlock g V J 0)) fs' := by
  have valid := consistent.valid
  have table := consistent.table
  have positive := valid.perGroup_pos
  obtain ⟨V₁, volume⟩ : ∃ V₁, V₁ = g.opened V (J 0) (journalBlock g V J 0) := ⟨_, rfl⟩
  have on : fs'.On env g S V₁ := by
    have on₁ := opened.on
    rw [loaded.state, volume]
    exact { on₁ with }
  have beside := consistent.beside
  rw [← volume] at loaded table beside
  have bitmap {b o : Nat} (notSb : b ≠ g.firstDataBlock) (notJ : b ≠ J 0) (below : o < g.bs) :
      clip g.bs (g.blk V₁ b) o = g.blk V b o := by
    rw [clip_of_lt below]
    exact (beside b notSb notJ o below).symm
  simp only [← volume]
  refine
    { on := on
      cached := fun x inS => Or.inl (consistent.map x inS)
      groups := by rw [loaded.state]
      follows := fun i below => fs'.follows_of_table valid on.root.gdsize (by rw [loaded.state, volume]) below
      marked := ?_
      blank := fun _ _ _ b member => absurd member List.not_mem_nil
      inodes := ?_
      fresh := fun b member => absurd member List.not_mem_nil
      nodup := List.nodup_nil
      same := fun b _ => volume ▸ .refl _ b
      trace := ⟨[], (List.append_nil _).symm, fun w member => absurd member List.not_mem_nil⟩
      journal := ⟨[], (List.append_nil _).symm, fun e member => absurd member List.not_mem_nil⟩
      cursor := ?_ }
  · rintro b (used | member) lower upper
    · have group := valid.groupOf_lt upper
      have bits : g.bitOf b < 8 * g.bs := by
        rw [← valid.perGroup]
        exact Nat.mod_lt _ positive
      have set_ := consistent.blocks b used lower upper
      obtain ⟨⟨notSb, notJ⟩, -⟩ := consistent.bitmaps _ group
      rw [Geometry.marked, testBmap] at set_ ⊢
      rw [loaded.blkBmaps _ group, Geometry.bbm, (table.follows valid group).blockId]
      exact (congrArg (fun byte : UInt8 => byte.toNat.testBit _) (bitmap notSb notJ (by omega))).trans set_
    · exact absurd member List.not_mem_nil
  · intro ino used
    obtain ⟨group, set_⟩ := consistent.inodes ino used
    have bits : (ino - 1) % g.inodesPerGroup < g.inodesPerGroup := Nat.mod_lt _ valid.inodes.1
    have room := consistent.inodeBits.2
    obtain ⟨-, notSb, notJ⟩ := consistent.bitmaps _ group
    rw [Geometry.inodeMarked, testBmap] at set_ ⊢
    rw [loaded.inodeBmaps _ group, Geometry.ibm, (table.follows valid group).inodeId]
    exact (congrArg (fun byte : UInt8 => byte.toNat.testBit _) (bitmap notSb notJ (by omega))).trans set_
  · rw [loaded.state, opened.state]
    exact cursor

theorem Consistent.walk {path : List CStr} (walk : g.Walkable env.levels S K V path rootIno) :
    g.Walkable env.levels S K (g.opened V (J 0) (journalBlock g V J 0)) path rootIno ∧
      g.resolve env.levels (g.opened V (J 0) (journalBlock g V J 0)) path rootIno =
        g.resolve env.levels V path rootIno := by
  have beside := consistent.beside
  exact walk.congr (fun x inS => beside x (consistent.journal.map x inS).1 (consistent.journal.map x inS).2)
    (fun b inK => beside b (consistent.directories b inK).1 (consistent.directories b inK).2) consistent.valid
    consistent.table (fun ino has => beside _ (consistent.tables ino has).1 (consistent.tables ino has).2)

end Opened

/-- The part of the path in front of its last name leads to a directory, which has no entry with that name. -/
structure NewPath (env : Env) (g : Geometry) (S K : Nat → Prop) (V : Buf) (path : CStr) : Prop where
  walk : g.Walkable env.levels S K V (components path) rootIno
  absent : ∀ p name, g.resolve env.levels V (components path) rootIno = some (p, name) →
    g.search env.levels V (g.inodeAt V p) name = none

/-- The driver in front of `ext4fs_write`, with the volume mounted. -/
structure Fs.Mounted (env : Env) (g : Geometry) (V : Buf) (fs : Fs) : Prop where
  has : fs.root.Has g
  inode : fs.root.inode = g.inodeAt V rootIno
  volume : env.volume fs.card = V
  caches : fs.caches = ext4fsReinitGlobal
  trace : fs.trace = []
  firstPassBbmap : fs.firstPassBbmap = 0
  firstPassIbmap : fs.firstPassIbmap = 0
  cursor : fs.currBlkno = 0

/-- A transaction that was begun on the volume `V`, and what was done in it before anything is written in place. -/
structure Transaction (env : Env) (g : Geometry) {V : Buf} {A : Areas g V} {S K : Nat → Prop} {J : Nat → Nat} {n : Nat}
    (consistent : Consistent env g A S K J n) (plain : Prop) (ok : Bool) (fs began fs' : Fs) : Prop where
  opened : ∃ mid, fs.JournalOpened env g V S J mid ∧ mid.Loaded g (g.opened V (J 0) (journalBlock g V J 0)) began
  made : began.Made env g S (A.move consistent.valid consistent.table) plain ok fs' began

section Moved

variable {env : Env} {g : Geometry} {V : Buf} {A : Areas g V} {S K : Nat → Prop} {J : Nat → Nat} {n : Nat}
  (consistent : Consistent env g A S K J n)
include consistent

theorem Consistent.placed {ino : Nat} (placed : Placed A ino) : Placed (A.move consistent.valid consistent.table) ino :=
  ⟨placed.one, placed.bound, placed.notLast, by
    rw [consistent.table.inodeBlk consistent.valid placed.one placed.bound]
    exact placed.kept⟩

theorem Consistent.inodeAt {ino : Nat} (has : g.HasInode V ino) :
    g.inodeAt (g.opened V (J 0) (journalBlock g V J 0)) ino = g.inodeAt V ino :=
  consistent.table.inodeAt consistent.valid has.1 has.2.1
    (consistent.beside _ (consistent.tables ino has).1 (consistent.tables ino has).2)

theorem Consistent.plain {name : CStr} {size p : Nat} (has : g.HasInode V p)
    (dir : g.DirMap env.levels S K V (g.inodeAt V p)) (plain : Plain env g A V (g.inodeAt V p) K name size p) :
    Plain env g (A.move consistent.valid consistent.table) (g.opened V (J 0) (journalBlock g V J 0))
      (g.inodeAt (g.opened V (J 0) (journalBlock g V J 0)) p) K name size p := by
  have beside := consistent.beside
  rw [consistent.inodeAt has]
  exact ⟨plain.room.congr (fun x inS => beside x (consistent.journal.map x inS).1 (consistent.journal.map x inS).2)
      (fun b inK => beside b (consistent.directories b inK).1 (consistent.directories b inK).2) dir,
    plain.some, plain.directory, consistent.placed plain.parent,
    fun ino one group unused => consistent.placed (plain.inode ino one group unused)⟩

end Moved

section Run

variable {env : Env} {g : Geometry} {V data : Buf} {A : Areas g V} {S K : Nat → Prop} {J : Nat → Nat} {n size : Nat}
  {path : CStr} {fs fs' : Fs} {ok : Bool} (consistent : Consistent env g A S K J n) (new : NewPath env g S K V path)
include consistent new

/-- The way through `ext4fs_write` for a path that names no file: it goes no further than the feature word of a
volume with metadata checksums; else a transaction is given up or carried out. -/
theorem Consistent.ext4fsWrite_cases (mounted : fs.Mounted env g V) (word : size < 2 ^ 32)
    (fits : (size + g.bs - 1) / g.bs ≤ g.limit) (run : ext4fsWrite env path data size .reg fs = some (ok, fs')) :
    (hasBit (Sblock.featureRoCompat (sbOf V)) roCompatMetadataCsum = true ∧ ok = false ∧
        env.volume fs'.card = g.opened V (J 0) (journalBlock g V J 0)) ∨
      hasBit (Sblock.featureRoCompat (sbOf V)) roCompatMetadataCsum = false ∧ ∃ began ended,
        Transaction env g consistent (∀ p name, g.resolve env.levels V (components path) rootIno = some (p, name) →
          Plain env g A V (g.inodeAt V p) K name size p) ok { fs with gParentInode := zeros } began ended ∧
        (do
          if ok then ext4fsUpdate env
          ext4fsDeinit env : Run Unit) ended = some ((), fs') := by
  have valid := consistent.valid
  have beside := consistent.beside
  have maps (i : Nat) (below : i < g.groups) := (A.blockMap i below).2
  have inodeMaps (i : Nat) (below : i < g.groups) := (A.inodeMap i below).2
  rw [ext4fsWrite, modify_bind] at run
  obtain ⟨fs₀, state₀⟩ : ∃ fs₀ : Fs, fs₀ = { fs with gParentInode := zeros } := ⟨_, rfl⟩
  rw [← state₀] at run ⊢
  obtain ⟨started, began, init, run⟩ := bind_eq_some.mp run
  have has₀ : fs₀.root.Has g := by rw [state₀]; exact mounted.has
  obtain ⟨rfl, mid, opened, loaded⟩ := ext4fsInit_run valid consistent.journal has₀
    (by rw [state₀]; exact mounted.volume) (by rw [state₀, mounted.caches]; exact Caches.Ok.reinit _ _) consistent.clean
    maps inodeMaps init
  have busy := consistent.busy opened loaded (by rw [state₀, mounted.cursor]; decide)
  have kept : began.root = fs.root ∧ began.firstPassIbmap = 0 ∧ began.firstPassBbmap = 0 := by
    rw [loaded.state, opened.state, state₀]
    exact ⟨rfl, mounted.firstPassIbmap, mounted.firstPassBbmap⟩
  have features : Sblock.featureRoCompat began.sb = Sblock.featureRoCompat (sbOf V) := by
    refine getLe32_congr (fun i below => ?_)
    rw [loaded.features _ (by omega) (by omega), opened.state]
    show sbOf (flaggedVolume V) (100 + i) = _
    rw [sbOf_flagged, putRecover, putLe32_of_ge (by omega)]
  simp only [if_true] at run
  rw [get_bind, features] at run
  simp only [run_ite] at run
  split at run
  · next sums =>
    cases run
    refine Or.inl ⟨sums, rfl, ?_⟩
    rw [loaded.state]
    exact opened.on.volume
  · next supported =>
    obtain ⟨made, ended, checked, run⟩ := bind_eq_some.mp run
    obtain ⟨walk, resolve⟩ := consistent.walk new.walk
    have absent : ∀ p name, g.resolve env.levels (g.opened V (J 0) (journalBlock g V J 0)) (components path) rootIno =
        some (p, name) → g.search env.levels (g.opened V (J 0) (journalBlock g V J 0))
          (g.inodeAt (g.opened V (J 0) (journalBlock g V J 0)) p) name = none := by
      intro p name resolved
      rw [resolve] at resolved
      obtain ⟨has, dir⟩ := new.walk.resolved resolved
      rw [consistent.inodeAt has, ← new.absent p name resolved]
      exact Geometry.searchBlocks_congr
        (fun x inS => beside x (consistent.journal.map x inS).1 (consistent.journal.map x inS).2)
        (fun b inK => beside b (consistent.directories b inK).1 (consistent.directories b inK).2) dir
        (Nat.le_of_eq (Nat.zero_add _))
    have whole := writeChecked_run valid (A := A.move valid consistent.table) consistent.map consistent.boot
      ((Geometry.word_opened valid V _ consistent.journal.there).trans consistent.empty) consistent.inodeBits.1 busy
      kept.2.1 kept.2.2 (by rw [kept.1, mounted.inode, consistent.inodeAt consistent.root]) walk absent word fits checked
    have plain (here : ∀ p name, g.resolve env.levels V (components path) rootIno = some (p, name) →
        Plain env g A V (g.inodeAt V p) K name size p) (p : Nat) (name : CStr)
        (resolved : g.resolve env.levels (g.opened V (J 0) (journalBlock g V J 0)) (components path) rootIno =
          some (p, name)) : Plain env g (A.move valid consistent.table) (g.opened V (J 0) (journalBlock g V J 0))
            (g.inodeAt (g.opened V (J 0) (journalBlock g V J 0)) p) K name size p := by
      rw [resolve] at resolved
      obtain ⟨has, dir⟩ := new.walk.resolved resolved
      exact consistent.plain has dir (here p name resolved)
    have moved : began.Made env g S (A.move valid consistent.table)
        (∀ p name, g.resolve env.levels V (components path) rootIno = some (p, name) →
          Plain env g A V (g.inodeAt V p) K name size p) made ended began :=
      ⟨whole.steps, whole.busy, fun success here => whole.dirty success (plain here),
        fun success here => whole.bitmaps success (plain here)⟩
    cases made with
    | true =>
      obtain ⟨⟨⟩, fs₁, update, run⟩ := bind_eq_some.mp run
      obtain ⟨⟨⟩, fs₂, deinit, run⟩ := bind_eq_some.mp run
      cases run
      exact Or.inr ⟨Bool.eq_false_iff.mpr supported, began, ended, ⟨⟨mid, opened, loaded⟩, moved⟩,
        bind_eq_some.mpr ⟨(), fs₁, update, deinit⟩⟩
    | false =>
      obtain ⟨⟨⟩, fs₁, deinit, run⟩ := bind_eq_some.mp run
      cases run
      exact Or.inr ⟨Bool.eq_false_iff.mpr supported, began, ended, ⟨⟨mid, opened, loaded⟩, moved⟩, deinit⟩

end Run

def sampleEnv : Env where
  log2blksz := 9
  partStart := 0
  partSize := 128
  beyond _ := 0
  levels := 1
  rounds := 64
  crc16 _ _ _ := 0

def sampleGeometry : Geometry where
  log2bs := 10
  firstDataBlock := 1
  totalBlocks := 64
  blocksPerGroup := 8192
  inodesPerGroup := 16
  inodesz := 128
  gdsize := 32

def words (l : List (Nat × Nat)) : Buf := l.foldr (fun w b => putLe32 b w.1 w.2) zeros

/-- The superblock, with or without the flag for metadata checksums. -/
def sampleSb (sums : Bool) : Buf :=
  words [(0, 16), (4, 64), (12, 22), (16, 4), (20, 1), (32, 8192), (40, 16), (56, ext2Magic), (76, 1), (88, 128), (92, 4),
    (100, if sums then 2 ^ roCompatMetadataCsum else 0)]

def sampleRootInode : Buf := words [(0, 0o40755), (4, 1024), (40, 7)]

/-- The inode of the journal, in the blocks from 8 to 39; those behind the twelfth are found through block 63. -/
def sampleJournalInode : Buf :=
  words ((0, 0o100600) :: (4, 32768) :: (88, 63) :: (List.range 12).map (fun k => (40 + 4 * k, 8 + k)))

def sampleFileInode : Buf := words [(0, 0o100755), (4, 5), (40, 40)]

/-- The entries of the root directory: `.`, `..` and the file `f`. -/
def sampleDirectory : Buf :=
  words [(0, 2), (4, 0x201000c), (8, 46), (12, 2), (16, 0x202000c), (20, 0x2e2e), (24, 12), (28, 0x10103e8), (32, 102)]

/-- The blocks up to 40 and block 63 are in use, with twelve inodes of which the twelfth is that of the file. -/
def sampleCard (sums : Bool) : Buf := fun a =>
  match a / 1024 with
  | 1 => sampleSb sums (a % 1024)
  | 2 => words [(0, 3), (4, 4), (8, 5), (12, 22 + 2 ^ 16 * 4)] (a % 1024)
  | 3 => if a % 1024 < 5 then 255 else if a % 1024 < 7 then 0 else if a % 1024 = 7 then 0xC0 else 255
  | 4 => if a % 1024 = 0 then 255 else if a % 1024 = 1 then 0x0F else 255
  | 5 =>
    overlay (overlay zeros 128 128 sampleRootInode) 896 128 sampleJournalInode (a % 1024)
  | 6 => overlay zeros 384 128 sampleFileInode (a % 1024)
  | 7 => sampleDirectory (a % 1024)
  | 8 => putBe32 (putBe32 (putBe32 (putBe32 zeros 0 0xc03b3998) 4 4) 20 1) 24 1 (a % 1024)
  | 40 => if a % 1024 < 5 then 104 else 0
  | 63 => words ((List.range 20).map (fun k => (4 * k, 20 + k))) (a % 1024)
  | _ => 0

def sampleAreas (sums : Bool) : Areas sampleGeometry (sampleEnv.volume (sampleCard sums)) where
  used b := b ≤ 40 ∨ 63 ≤ b
  kept b := b ≤ 40 ∨ b = 63
  inodes ino := ino ≤ 12
  kept_used b kept := by omega
  kept_below b kept := by
    have total : sampleGeometry.totalBlocks = 64 := rfl
    omega
  zero := by omega
  padding b lower upper := by
    have total : sampleGeometry.totalBlocks = 64 := rfl
    omega
  blockMap := by cases sums <;> decide +kernel
  inodeMap := by cases sums <;> decide +kernel
  blankBlocks i below flag := absurd flag (by revert i; cases sums <;> decide +kernel)
  blankInodes i below flag := absurd flag (by revert i; cases sums <;> decide +kernel)

theorem sampleCard_bitmap (sums : Bool) {o : Nat} (lower : 8 ≤ o) (upper : o < 1024) :
    sampleGeometry.blk (sampleEnv.volume (sampleCard sums)) 3 o = 255 := by
  have place : sampleGeometry.blk (sampleEnv.volume (sampleCard sums)) 3 o = sampleCard sums (0 + (3 * 1024 + o)) := rfl
  have block : (0 + (3 * 1024 + o)) / 1024 = 3 := by omega
  have byte : (0 + (3 * 1024 + o)) % 1024 = o := by omega
  rw [place, sampleCard, block, byte]
  simp only
  rw [if_neg (by omega), if_neg (by omega), if_neg (by omega)]

theorem sampleCard_marked (sums : Bool) {b : Nat} (used : b ≤ 40 ∨ 63 ≤ b) (lower : 1 ≤ b) (upper : b < 8193) :
    sampleGeometry.marked
      (fun i => sampleGeometry.blk (sampleEnv.volume (sampleCard sums))
        (sampleGeometry.bbm (sampleEnv.volume (sampleCard sums)) i)) b = true := by
  by_cases first : b < 65
  · have all : ∀ sums : Bool, ∀ b < 65, (b ≤ 40 ∨ 63 ≤ b) → 1 ≤ b → sampleGeometry.marked
        (fun i => sampleGeometry.blk (sampleEnv.volume (sampleCard sums))
          (sampleGeometry.bbm (sampleEnv.volume (sampleCard sums)) i)) b = true := by decide +kernel
    exact all sums b first used lower
  · have bitmap : sampleGeometry.bbm (sampleEnv.volume (sampleCard sums)) 0 = 3 := by cases sums <;> decide +kernel
    have group : sampleGeometry.groupOf b = 0 := Nat.div_eq_of_lt (show b - 1 < 8192 by omega)
    have bit : sampleGeometry.bitOf b = b - 1 := Nat.mod_eq_of_lt (show b - 1 < 8192 by omega)
    have all : ∀ i < 8, (255 : UInt8).toNat.testBit i = true := by decide
    rw [Geometry.marked, group, bit, testBmap]
    simp only [bitmap]
    rw [sampleCard_bitmap sums (by omega) (by omega)]
    exact all _ (Nat.mod_lt _ (by decide))

theorem sampleCard_journal (sums : Bool) {k : Nat} (below : k < 32) :
    sampleGeometry.Found sampleEnv.levels (sampleEnv.volume (sampleCard sums))
      (sampleGeometry.inodeAt (sampleEnv.volume (sampleCard sums)) journalIno) k (8 + k) (if k < 12 then [] else [63]) := by
  have all : ∀ sums : Bool, ∀ k < 32, sampleGeometry.lookup sampleEnv.levels (sampleEnv.volume (sampleCard sums))
      (sampleGeometry.inodeAt (sampleEnv.volume (sampleCard sums)) journalIno) k =
        some (8 + k, if k < 12 then [] else [63]) := by decide +kernel
  have limit : 32 ≤ sampleGeometry.limit := by decide
  exact ⟨all sums k below, Geometry.lookup_complete (all sums k below) (by omega), Or.inr (by omega), by omega⟩

theorem sampleCard_consistent (sums : Bool) :
    Consistent sampleEnv sampleGeometry (sampleAreas sums) (fun x => x = 63) (fun b => b = 7) (8 + ·) 32 where
  valid := by
    refine ⟨by decide, by decide, rfl, rfl, by decide, ⟨7, by decide, by decide, rfl⟩, by decide, by decide, by decide,
      by decide, by decide, by decide⟩
  describes := by
    cases sums <;> exact ⟨by decide +kernel, by decide +kernel, by decide +kernel, by decide +kernel, by decide +kernel,
      by decide +kernel, by decide +kernel, by decide +kernel⟩
  root := by cases sums <;> exact ⟨by decide, by decide, by decide +kernel⟩
  journal :=
    { file :=
        { number := by decide
          inodeBlk := by cases sums <;> decide +kernel
          found := fun k below => ⟨if k < 12 then [] else [63], sampleCard_journal sums below, by split <;> simp⟩
          inside := fun k below => show 8 + k < 64 by omega }
      inode := rfl
      nonempty := by decide
      map := fun x here => by subst here; decide
      inodeBlk := by cases sums <;> decide +kernel
      first := by decide
      there := by decide
      table := by decide }
  clean := by cases sums <;> decide +kernel
  inodeBits := by decide
  blocks b used lower upper := sampleCard_marked sums used lower upper
  inodes ino used := by
    have all : ∀ sums : Bool, ∀ ino < 13, (ino - 1) / 16 < 1 ∧ sampleGeometry.inodeMarked
      (fun i => sampleGeometry.blk (sampleEnv.volume (sampleCard sums))
        (sampleGeometry.ibm (sampleEnv.volume (sampleCard sums)) i)) ino = true := by decide +kernel
    exact all sums ino (Nat.lt_succ_of_le used)
  superblock := Or.inl (by decide)
  journalFirst := Or.inl (by decide)
  boot := Or.inl (by decide)
  empty := by cases sums <;> decide +kernel
  map x here := Or.inr here
  descriptors b lower upper := Or.inl (by
    have first : sampleGeometry.gdtBlk = 2 := rfl
    have count : sampleGeometry.gdtBlocks = 1 := rfl
    omega)
  journalInode := by cases sums <;> exact Or.inl (by decide +kernel)
  bitmaps := by cases sums <;> decide +kernel
  tables ino has := by
    have all : ∀ sums : Bool, ∀ ino < 17, sampleGeometry.inodeBlk (sampleEnv.volume (sampleCard sums)) ino ≠ 1 ∧
      sampleGeometry.inodeBlk (sampleEnv.volume (sampleCard sums)) ino ≠ 8 := by decide +kernel
    exact all sums ino (Nat.lt_succ_of_le has.2.1)
  directories b here := by subst here; decide

/-- The driver on the small volume, with its bitmaps and descriptors read. -/
def sampleFs : Fs :=
  { mounted (sampleCard false) ⟨sampleSb false, zeros, 128, 32⟩ ⟨minusOne, minusOne, minusOne, minusOne, minusOne, minusOne⟩
    with
    blksz := 1024
    sectPerblk := 2
    noBlkgrp := 1
    noBlkPergdt := 1
    sb := sampleSb false
    gdtable := sampleGeometry.blk (sampleEnv.volume (sampleCard false)) 2
    blkBmaps := fun i => sampleGeometry.blk (sampleEnv.volume (sampleCard false))
      (sampleGeometry.bbm (sampleEnv.volume (sampleCard false)) i) }

end UuuFastboot.Ext4
