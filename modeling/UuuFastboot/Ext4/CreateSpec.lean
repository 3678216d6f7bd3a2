import UuuFastboot.Ext4.DataSpec
import UuuFastboot.Ext4.InsertSpec

namespace UuuFastboot.Ext4

open Word Overlay Bytes CString Partial

/-- An inode whose slot the driver computes as the volume has it: not the last one of its group. -/
structure Placed {g : Geometry} {V₁ : Buf} (A : Areas g V₁) (ino : Nat) : Prop where
  one : 1 ≤ ino
  bound : ino ≤ g.inodes
  notLast : ino % g.inodesPerGroup ≠ 0
  kept : A.kept (g.inodeBlk V₁ ino)

section Places

variable {env : Env} {g : Geometry} {S : Nat → Prop} {V₁ : Buf} {A : Areas g V₁} {base : Fs} {N : List Nat}
  {V : Buf} {fs fs' : Fs} {ino : Nat} {place : InodePlace}

theorem inodePlace_state (run : inodePlace ino fs = some (place, fs')) : fs = fs' := by
  rw [inodePlace, get_bind] at run
  simp only [run_ite] at run
  split at run
  · cases run
  · cases run
    rfl

theorem inodePlace_blkno (valid : g.Valid env) (busy : fs.Busy env g S A N V base) (placed : Placed A ino)
    (run : inodePlace ino fs = some (place, fs')) : place.blkno = g.inodeBlk V₁ ino := by
  obtain ⟨one, bound, notLast, kept⟩ := placed
  have count := valid.inodeCount
  have small := valid.total_lt
  have positive := valid.inodes.1
  have inside := A.kept_below _ kept
  have group : ino / g.inodesPerGroup = (ino - 1) / g.inodesPerGroup := by
    have whole := Nat.div_add_mod' ino g.inodesPerGroup
    have rest := Nat.mod_lt ino positive
    refine (Nat.div_eq_of_lt_le ?_ ?_).symm
    · omega
    · rw [Nat.add_mul, Nat.one_mul]
      omega
  have inGroups : (ino - 1) / g.inodesPerGroup < g.groups := by
    refine Nat.div_lt_of_lt_mul ?_
    rw [Nat.mul_comm]
    exact Nat.lt_of_lt_of_le (by omega) bound
  have table : Desc.inodeTableId g.gdsize (fs.groupDescriptor ((ino - 1) / g.inodesPerGroup)) =
      g.itab V₁ ((ino - 1) / g.inodesPerGroup) := (busy.follows _ inGroups).inodeTableId
  rw [inodePlace, get_bind] at run
  simp only [run_ite] at run
  split at run
  · cases run
  · cases run
    show w32 _ = _
    rw [busy.on.root.inodes, busy.on.blksz, busy.on.root.inodesz, busy.gdsize, group, table, w32_pred one (by omega)]
    exact w32_of_lt (by unfold Geometry.inodeBlk Geometry.ipb at inside; omega)

theorem Fs.Busy.widen {T : Nat → Prop} (busy : fs.Busy env g S A N V base) (sub : ∀ x, S x → T x)
    (safe : ∀ x, T x → A.kept x ∨ x ∈ N) : fs.Busy env g T A N V base :=
  { busy with
    on := ⟨busy.on.root, busy.on.blksz, busy.on.sectPerblk, busy.on.volume, busy.on.caches.mono sub⟩
    cached := safe }

theorem Fs.Busy.logHeld {b : Nat} (valid : g.Valid env) (busy : fs.Busy env g S A N V base)
    (run : ext4fsLogJournal (fs.blockOrZeros env b) b fs = some ((), fs')) :
    fs'.Busy env g S A N V base ∧ fs'.HasEntry b ∧ ∃ L, fs' = { fs with journalPtr := fs.journalPtr ++ L } := by
  refine busy.log run (fun kept i below => ?_)
  rw [Fs.blockOrZeros, busy.on.readBlock valid (A.kept_below b kept), Option.getD_some, clip_of_lt below]
  exact (busy.same b kept i below).symm

end Places

section Store

variable {env : Env} {g : Geometry} {S : Nat → Prop} {V₁ : Buf} {A : Areas g V₁} {base : Fs} {N M D Q : List Nat}
  {V inode data : Buf} {fs fs' : Fs} {n : Nat} (valid : g.Valid env)
include valid

/-- `ext4fs_write_file` with a map that is complete or ends with a zero pointer. -/
theorem ext4fsWriteFile_run {len : Nat} {ok : Bool} (cached : ∀ x, S x → A.kept x) (boot : A.kept 0)
    (zero : g.word V₁ 0 0 = 0) (mapping : fs.Mapping env g S A n N M D Q V inode base)
    (plain : Inode.usesExtents inode = false) (size : (min len (Inode.size inode) + g.bs - 1) / g.bs = n)
    (fits : n ≤ g.limit) (ends : D.length = n ∨ g.MapEnd inode D.length)
    (run : ext4fsWriteFile env inode data len fs = some (ok, fs')) :
    fs.Allocates fs' ∧ (ok = true → D.length = n) ∧
      ∃ S' V', (∀ x, S x → S' x) ∧ fs'.Busy env g S' A (N ++ M) V' base := by
  obtain ⟨busy, split, mapped, length⟩ := mapping
  have fresh : ∀ x ∈ M, ¬ A.used x := fun x member => (busy.fresh x (List.mem_append_right _ member)).1
  have busy' : fs.Busy env g (fun x => S x ∨ x ∈ Q ∨ x = 0) A (N ++ M) V base := by
    refine busy.widen (fun x inS => Or.inl inS) ?_
    rintro x (inS | inQ | rfl)
    · exact Or.inl (cached x inS)
    · exact Or.inr (List.mem_append_right _ (split.pointers inQ))
    · exact Or.inl boot
  have open_ : Open A (fun x => S x ∨ x ∈ Q ∨ x = 0) (N ++ M) D := by
    refine ⟨fun x inD => List.mem_append_right _ (split.leaves inD), split.nodup, ?_⟩
    rintro x inD (inS | inQ | rfl)
    · exact fresh x (split.leaves inD) (A.kept_used x (cached x inS))
    · exact split.apart inD inQ
    · exact fresh 0 (split.leaves inD) A.zero
  have word : g.word V 0 0 = 0 := by
    rw [← (busy.same 0 boot).word valid.perblock_pos, zero]
  rw [ext4fsWriteFile, get_bind, busy.on.blksz, size] at run
  replace run : writeLoop env inode data n 0 (0 * g.bs) none fs = some (ok, fs') := by
    rw [Nat.zero_mul]
    exact run
  obtain ⟨allocates, V', busy₁, -, written⟩ := writeLoop_spec valid open_ plain fits (fun x inQ => Or.inr (Or.inl inQ))
    (Or.inr (Or.inr rfl)) split.apart length busy' mapped ends word (Nat.zero_add n) (Nat.zero_le _)
    (show PutOff env g fs.root D 0 0 none from rfl) (fun k below => absurd below (Nat.not_lt_zero k)) run
  exact ⟨allocates, fun success => (written success).1, _, V', fun x inS => Or.inl inS, busy₁⟩

theorem storeInodes_run {len ino parent : Nat} {ok : Bool} (cached : ∀ x, S x → A.kept x) (boot : A.kept 0)
    (zero : g.word V₁ 0 0 = 0) (mapping : fs.Mapping env g S A n N M D Q V inode base)
    (plain : Inode.usesExtents inode = false) (size : (min len (Inode.size inode) + g.bs - 1) / g.bs = n)
    (fits : n ≤ g.limit) (ends : D.length = n ∨ g.MapEnd inode D.length)
    (run : storeInodes env inode data len ino parent fs = some (ok, fs')) :
    fs.Steps fs' ∧ (ok = true → D.length = n) ∧
      (∃ S' V', (∀ x, S x → S' x) ∧ fs'.Busy env g S' A (N ++ M) V' base) ∧
      (Placed A ino → Placed A parent →
        ∀ e ∈ fs'.dirtyBlockPtr, e ∈ fs.dirtyBlockPtr ∨ A.kept e.1 ∧ fs'.HasEntry e.1) := by
  have busy := mapping.busy
  rw [storeInodes] at run
  obtain ⟨place, fs₀, here, run⟩ := bind_eq_some.mp run
  obtain rfl := inodePlace_state here
  rw [get_bind, run_bind, blockOrZeros, reading, Option.bind_some] at run
  obtain ⟨⟨⟩, fs₁, log, run⟩ := bind_eq_some.mp run
  obtain ⟨busy₁, entry₁, L, grows₁⟩ := busy.logHeld valid log
  obtain ⟨⟨⟩, fs₂, noted, run⟩ := bind_eq_some.mp run
  have state₂ := ext4fsPutMetadata_run noted
  have mapping₂ : fs₂.Mapping env g S A n N M D Q V inode base := by
    rw [state₂]
    exact ⟨{ busy₁ with on := { busy₁.on with } }, mapping.split, mapping.mapped, mapping.bound⟩
  have steps₂ : fs.Steps fs₂ := by
    rw [state₂, grows₁]
    exact ⟨rfl, rfl, rfl, rfl, List.prefix_append _ _, fun _ _ _ => rfl⟩
  have dirty₂ : ∀ e ∈ fs₂.dirtyBlockPtr, e ∈ fs.dirtyBlockPtr ∨ e.1 = place.blkno := by
    rw [state₂, grows₁]
    intro e member
    exact (List.mem_append.mp member).imp_right (fun new => by rw [List.mem_singleton.mp new])
  have entry₂ : fs₂.HasEntry place.blkno := by
    rw [state₂]
    exact entry₁
  obtain ⟨wrote, fs₃, write, run⟩ := bind_eq_some.mp run
  obtain ⟨allocates, complete, S', V', wider, busy₃⟩ := ext4fsWriteFile_run valid cached boot zero mapping₂ plain size fits
    ends write
  have steps₃ := steps₂.trans allocates.steps
  have entry₃ : fs₃.HasEntry place.blkno := entry₂.mono allocates.journalPtr
  have dirty₃ : ∀ e ∈ fs₃.dirtyBlockPtr, e ∈ fs.dirtyBlockPtr ∨ e.1 = place.blkno := by
    rw [allocates.dirtyBlockPtr]
    exact dirty₂
  have number (placed : Placed A ino) : place.blkno = g.inodeBlk V₁ ino := inodePlace_blkno valid busy placed here
  cases wrote with
  | false =>
    cases run
    refine ⟨steps₃, fun success => (by cases success), ⟨S', V', wider, busy₃⟩, fun placed _ e member => ?_⟩
    exact (dirty₃ e member).imp_right (fun same => by rw [same]; exact ⟨number placed ▸ placed.kept, entry₃⟩)
  | true =>
    simp only [if_true] at run
    obtain ⟨place', fs₄, there, run⟩ := bind_eq_some.mp run
    obtain rfl := inodePlace_state there
    rw [get_bind] at run
    simp only [run_ite] at run
    split at run
    · rw [run_bind, blockOrZeros, reading, Option.bind_some] at run
      obtain ⟨⟨⟩, fs₄, log', run⟩ := bind_eq_some.mp run
      obtain ⟨busy₄, entry₄, L', grows₄⟩ := busy₃.logHeld valid log'
      obtain ⟨⟨⟩, fs₅, noted', run⟩ := bind_eq_some.mp run
      cases run
      obtain rfl := ext4fsPutMetadata_run noted'
      have steps₄ : fs₃.Steps fs₄ := by
        rw [grows₄]
        exact ⟨rfl, rfl, rfl, rfl, List.prefix_append _ _, fun _ _ _ => rfl⟩
      have steps := steps₃.trans steps₄
      refine ⟨⟨steps.1, steps.2, steps.3, steps.4, steps.5, steps.6⟩, fun _ => complete rfl,
        ⟨S', V', wider, { busy₄ with on := { busy₄.on with } }⟩, fun placed placed' e member => ?_⟩
      rcases List.mem_append.mp member with old | new
      · rw [grows₄] at old
        exact (dirty₃ e old).imp_right (fun same => by
          rw [same]
          exact ⟨number placed ▸ placed.kept, entry₃.mono steps₄.journalPtr⟩)
      · rw [List.mem_singleton.mp new]
        exact Or.inr ⟨inodePlace_blkno valid busy₃ placed' there ▸ placed'.kept, entry₄⟩
    · rw [modify_bind] at run
      obtain ⟨⟨⟩, fs₅, noted', run⟩ := bind_eq_some.mp run
      cases run
      obtain rfl := ext4fsPutMetadata_run noted'
      refine ⟨⟨steps₃.1, steps₃.2, steps₃.3, steps₃.4, steps₃.5, steps₃.6⟩, fun _ => complete rfl,
        ⟨S', V', wider, { busy₃ with on := { busy₃.on with } }⟩, fun placed placed' e member => ?_⟩
      have from_ : e ∈ fs.dirtyBlockPtr ∨ e.1 = place.blkno := by
        rcases List.mem_append.mp member with old | new
        · exact dirty₃ e (List.dropLast_subset _ old)
        · rw [List.mem_singleton.mp new]
          exact Or.inr rfl
      exact from_.imp_right (fun same => by
        rw [same]
        exact ⟨number placed ▸ placed.kept, entry₃⟩)

end Store

theorem Geometry.pointers_congr {g : Geometry} {inode inode' : Buf} (k : Nat)
    (same : ∀ o, Inode.dirBlocks ≤ o → o < 100 → inode' o = inode o) : g.pointers inode' k = g.pointers inode k := by
  have area : Inode.dirBlocks = 40 := rfl
  have word {o : Nat} (lower : 40 ≤ o) (upper : o + 4 ≤ 100) : getLe32 inode' o = getLe32 inode o :=
    getLe32_congr (fun i below => same _ (by omega) (by omega))
  simp only [Geometry.pointers, Inode.indirBlock, Inode.doubleIndirBlock, Inode.tripleIndirBlock,
    word (show 40 ≤ 88 by decide) (by decide), word (show 40 ≤ 92 by decide) (by decide),
    word (show 40 ≤ 96 by decide) (by decide)]
  split
  · next direct =>
    unfold indirectBlocks at direct
    rw [word (by omega) (by omega)]
  · rfl

theorem newInode_reg (data : Buf) (size : Nat) :
    Inode.size (newInode .reg data size false) = size % 2 ^ 32 ∧
      ∀ o, 28 ≤ o → newInode .reg data size false o = 0 := by
  refine ⟨?_, fun o behind => ?_⟩
  · have field : newInode .reg data size false = putLe16 (putLe16 (putLe32 zeros 4 size) 0 0o100755) 26 1 := rfl
    rw [field, ← getLe32_putLe32 zeros 4 size]
    refine getLe32_congr (fun i below => ?_)
    rw [putLe16, overlay_of_lt (by omega), putLe16, overlay_of_ge (by omega)]
  · show putLe16 (putLe16 (putLe32 zeros 4 size) 0 0o100755) 26 1 o = 0
    rw [putLe16, overlay_of_ge (by omega), putLe16, overlay_of_ge (by omega), putLe32, overlay_of_ge (by omega)]
    rfl

/-- The part of a transaction in front of `ext4fs_update`. Where it succeeds, and all is as `plain` says, every block
that is noted as changed is logged, and so is a bitmap of each kind. -/
structure Fs.Made (env : Env) (g : Geometry) (S : Nat → Prop) {V₁ : Buf} (A : Areas g V₁) (plain : Prop) (ok : Bool)
    (fs fs' base : Fs) : Prop where
  steps : fs.Steps fs'
  busy : ∃ S' N V', (∀ x, S x → S' x) ∧ fs'.Busy env g S' A N V' base
  dirty : ok = true → plain → ∀ e ∈ fs'.dirtyBlockPtr, e ∈ fs.dirtyBlockPtr ∨ A.kept e.1 ∧ fs'.HasEntry e.1
  bitmaps : ok = true → plain → (∃ i < g.groups, fs'.HasEntry (g.bbm V₁ i)) ∧ ∃ i < g.groups, fs'.HasEntry (g.ibm V₁ i)

theorem Fs.Made.failed {env : Env} {g : Geometry} {S : Nat → Prop} {V₁ V : Buf} {A : Areas g V₁} {plain : Prop} {N : List Nat}
    {fs fs' base : Fs} (steps : fs.Steps fs') (busy : fs'.Busy env g S A N V base) :
    fs.Made env g S A plain false fs' base :=
  ⟨steps, ⟨S, N, V, fun _ inS => inS, busy⟩, fun success => (by cases success), fun success => (by cases success)⟩

/-- What a new file is made under without a block of the volume being changed that is not logged: its directory
has room, it is not empty, and its inode and that of the directory are in their places. -/
structure Plain (env : Env) (g : Geometry) {V₁ : Buf} (A : Areas g V₁) (V directory : Buf) (K : Nat → Prop) (name : CStr)
    (size parent : Nat) : Prop where
  room : g.HasRoom env.levels V directory name
  some : 0 < size
  directory : ∀ b, K b → A.kept b
  parent : Placed A parent
  inode : ∀ ino, 1 ≤ ino → (ino - 1) / g.inodesPerGroup < g.groups → ¬ A.inodes ino → Placed A ino

section Create

variable {env : Env} {g : Geometry} {S K : Nat → Prop} {V₁ : Buf} {A : Areas g V₁} {base : Fs} {N : List Nat}
  {V data : Buf} {fs fs' : Fs} (valid : g.Valid env)
include valid

theorem createFile_run {size parent : Nat} {name : CStr} {ok : Bool} (cached : ∀ x, S x → A.kept x) (boot : A.kept 0)
    (zero : g.word V₁ 0 0 = 0) (bytes : 8 ∣ g.inodesPerGroup) (busy : fs.Busy env g S A N V base)
    (first : fs.firstPassIbmap = 0) (firstB : fs.firstPassBbmap = 0) (dir : g.DirMap env.levels S K V fs.gParentInode)
    (word : size < 2 ^ 32) (fits : (size + g.bs - 1) / g.bs ≤ g.limit)
    (run : createFile env data size .reg parent name fs = some (ok, fs')) :
    fs.Made env g S A (Plain env g A V fs.gParentInode K name size parent) ok fs' base := by
  have blksz := busy.on.blksz
  have notLink : decide (FileType.reg = FileType.symlink ∧ size ≤ 60) = false := decide_eq_false (fun both => absurd both.1 (by decide))
  rw [createFile] at run
  simp only [notLink, Bool.false_eq_true, if_false] at run
  rw [get_bind] at run
  simp only [run_ite, blksz] at run
  split at run
  · cases run
    exact .failed (.refl fs) busy
  obtain ⟨ino, fs₁, insert, run⟩ := bind_eq_some.mp run
  have inserted := updateDentryFrom_run valid busy bytes first dir insert
  obtain ⟨N₁, V₂, busy₁, -, roomy⟩ := inserted.busy
  split at run
  · cases run
    exact .failed inserted.steps busy₁
  next some =>
  obtain ⟨⟨inode, total⟩, fs₂, allocate, run⟩ := bind_eq_some.mp run
  obtain ⟨sizeField, empty⟩ := newInode_reg data size
  obtain ⟨allocates, outside, M, D, Q, V₃, mapping, -, logged, ends⟩ := ext4fsAllocateBlocks_spec valid cached busy₁ fits
    (fun o lower _ => empty o (by unfold Inode.dirBlocks at lower; omega)) allocate
  have area : Inode.dirBlocks = 40 := rfl
  obtain ⟨inode', final⟩ : ∃ inode', inode' = putLe32 inode 28 (w32 (total * g.bs) / 512) := ⟨_, rfl⟩
  have pointers : ∀ k, g.pointers inode' k = g.pointers inode k := by
    intro k
    rw [final]
    exact Geometry.pointers_congr k (fun o lower _ => overlay_of_ge (by omega))
  have flags : Inode.usesExtents inode' = false := by
    have none : Inode.flags inode' = 0 := by
      refine getLe32_congr (c := zeros) (p := 0) (fun i below => ?_)
      rw [final, putLe32, overlay_of_ge (by omega), outside _ (by omega), empty _ (by omega)]
      rfl
    rw [Inode.usesExtents, none]
    rfl
  have length : (min size (Inode.size inode') + g.bs - 1) / g.bs = (size + g.bs - 1) / g.bs := by
    have same : Inode.size inode' = size := by
      rw [Nat.mod_eq_of_lt word] at sizeField
      rw [← sizeField]
      refine getLe32_congr (fun i below => ?_)
      rw [final, putLe32, overlay_of_lt (by omega), outside _ (by omega)]
    rw [same, Nat.min_self]
  have mapping' : fs₂.Mapping env g S A ((size + g.bs - 1) / g.bs) (N ++ N₁) M D Q V₃ inode' base :=
    ⟨mapping.busy, mapping.split, mapping.mapped.congr (fun x _ => .refl _ x) (fun k _ => pointers k), mapping.bound⟩
  have ends' : D.length = (size + g.bs - 1) / g.bs ∨ g.MapEnd inode' D.length :=
    ends.imp_right (Exists.imp (fun is found => ⟨(pointers _).trans found.1, found.2⟩))
  simp only at run
  rw [← final] at run
  obtain ⟨steps, complete, ⟨S', V', wider, busy'⟩, dirty⟩ := storeInodes_run valid cached boot zero mapping' flags length fits
    ends' run
  have later := allocates.steps.trans steps
  refine ⟨inserted.steps.trans later, ⟨S', _, V', wider, busy'⟩, fun success plain e member => ?_, fun success plain => ?_⟩
  · obtain ⟨one, inGroups, unused, -⟩ := inserted.inode some
    rcases dirty (plain.inode ino one inGroups unused) plain.parent e member with old | new
    · rw [allocates.dirtyBlockPtr] at old
      exact (inserted.dirty plain.room e old).imp_right (fun found =>
        ⟨plain.directory _ found.1, found.2.mono later.journalPtr⟩)
    · exact Or.inr new
  · obtain ⟨one, inGroups, unused, entry⟩ := inserted.inode some
    have blocks : D ≠ [] := by
      rintro rfl
      have none := complete success
      have positive := plain.some
      have whole : 0 < (size + g.bs - 1) / g.bs := Nat.div_pos (by omega) Geometry.bs_pos
      rw [List.length_nil] at none
      omega
    obtain ⟨b, entry', inside⟩ := logged ((inserted.kept plain.room).2.trans firstB) blocks
    exact ⟨⟨_, valid.groupOf_lt (inside.trans_le valid.total_le_bitmapEnd), entry'.mono steps.journalPtr⟩,
      ⟨_, inGroups, entry.mono later.journalPtr⟩⟩

theorem writeChecked_run {size : Nat} {path : CStr} {ok : Bool} (cached : ∀ x, S x → A.kept x) (boot : A.kept 0)
    (zero : g.word V₁ 0 0 = 0) (bytes : 8 ∣ g.inodesPerGroup) (busy : fs.Busy env g S A N V base)
    (first : fs.firstPassIbmap = 0) (firstB : fs.firstPassBbmap = 0) (root : fs.root.inode = g.inodeAt V rootIno)
    (walk : g.Walkable env.levels S K V (components path) rootIno)
    (absent : ∀ p name, g.resolve env.levels V (components path) rootIno = some (p, name) →
      g.search env.levels V (g.inodeAt V p) name = none)
    (word : size < 2 ^ 32) (fits : (size + g.bs - 1) / g.bs ≤ g.limit)
    (run : writeChecked env path data size .reg fs = some (ok, fs')) :
    fs.Made env g S A (∀ p name, g.resolve env.levels V (components path) rootIno = some (p, name) →
      Plain env g A V (g.inodeAt V p) K name size p) ok fs' base := by
  rw [writeChecked] at run
  obtain ⟨r, fs₁, parentOf, run⟩ := bind_eq_some.mp run
  obtain ⟨⟨c, state₁⟩, on₁, result⟩ := ext4fsGetParentInodeNum_run valid busy.on root walk parentOf
  have busy₁ : fs₁.Busy env g S A N V base := by
    subst state₁
    exact { busy with on := on₁ }
  have steps₁ : fs.Steps fs₁ := by
    rw [state₁]
    exact ⟨rfl, rfl, rfl, rfl, List.prefix_refl _, fun _ _ _ => rfl⟩
  match r with
  | none =>
    cases run
    exact .failed steps₁ busy₁
  | some (p, name) =>
    obtain ⟨resolved, has, dir⟩ := result p name rfl
    simp only at run
    rw [bind_of_run (ext4fsIget_run valid on₁ has)] at run
    simp only at run
    rw [modify_bind] at run
    obtain ⟨fs₂, state₂⟩ : ∃ fs₂ : Fs, fs₂ = { fs₁ with gParentInode := g.inodeAt V p } := ⟨_, rfl⟩
    have parent : fs₂.gParentInode = g.inodeAt V p := by rw [state₂]
    have busy₂ : fs₂.Busy env g S A N V base := by
      rw [state₂]
      exact { busy₁ with on := { busy₁.on with } }
    have kept₂ : fs.Steps fs₂ ∧ fs₂.dirtyBlockPtr = fs.dirtyBlockPtr ∧ fs₂.firstPassIbmap = 0 ∧
        fs₂.firstPassBbmap = 0 := by
      rw [state₂, state₁]
      exact ⟨⟨rfl, rfl, rfl, rfl, List.prefix_refl _, fun _ _ _ => rfl⟩, rfl, first, firstB⟩
    rw [← state₂] at run
    simp only [run_ite] at run
    split at run
    · cases run
      exact .failed kept₂.1 busy₂
    · rw [← parent] at dir
      obtain ⟨c', unlink, on₃⟩ := ext4fsFilenameUnlink_absent valid busy₂.on dir (parent ▸ absent p name resolved)
      obtain ⟨fs₃, state₃⟩ : ∃ fs₃ : Fs, fs₃ = { fs₂ with caches := c' } := ⟨_, rfl⟩
      rw [← state₃] at unlink on₃
      have old : replaceOld env name fs₂ = some (true, fs₃) := by
        rw [replaceOld, bind_of_run unlink, if_pos rfl]
        rfl
      rw [bind_of_run old] at run
      simp only [if_true] at run
      have busy₃ : fs₃.Busy env g S A N V base := by
        subst state₃
        exact { busy₂ with on := on₃ }
      have kept₃ : fs.Steps fs₃ ∧ fs₃.dirtyBlockPtr = fs.dirtyBlockPtr ∧ fs₃.firstPassIbmap = 0 ∧
          fs₃.firstPassBbmap = 0 ∧ fs₃.gParentInode = g.inodeAt V p := by
        obtain ⟨steps, dirty, passI, passB⟩ := kept₂
        rw [state₃]
        exact ⟨⟨steps.1, steps.2, steps.3, steps.4, steps.5, steps.6⟩, dirty, passI, passB, parent⟩
      obtain ⟨steps₃, dirty₃, passI, passB, parent₃⟩ := kept₃
      have made := createFile_run valid cached boot zero bytes busy₃ passI passB (parent₃ ▸ parent ▸ dir) word fits run
      rw [parent₃] at made
      exact ⟨steps₃.trans made.steps, made.busy,
        fun success plain e member => dirty₃ ▸ made.dirty success (plain p name resolved) e member,
        fun success plain => made.bitmaps success (plain p name resolved)⟩

end Create

end UuuFastboot.Ext4
