import UuuFastboot.Ext4.AllocateSpec
import UuuFastboot.Ext4.PathSpec

namespace UuuFastboot.Ext4

open Word Overlay Bytes CString Partial

/-- What every step of a transaction leaves as it is, as long as nothing is written in place. The table of the
journal only grows. -/
structure Fs.Steps (fs fs' : Fs) : Prop where
  root : fs'.root = fs.root
  gdtableBlkno : fs'.gdtableBlkno = fs.gdtableBlkno
  noBlkPergdt : fs'.noBlkPergdt = fs.noBlkPergdt
  jrnlBlkIdx : fs'.jrnlBlkIdx = fs.jrnlBlkIdx
  journalPtr : fs.journalPtr <+: fs'.journalPtr
  features : ∀ o, 92 ≤ o → o < 104 → fs'.sb o = fs.sb o

theorem Fs.Allocates.steps {fs fs' : Fs} (allocates : fs.Allocates fs') : fs.Steps fs' :=
  ⟨allocates.root, allocates.gdtableBlkno, allocates.noBlkPergdt, allocates.jrnlBlkIdx, allocates.journalPtr,
    allocates.features⟩

theorem Fs.Steps.refl (fs : Fs) : fs.Steps fs := (Fs.Allocates.refl fs).steps

theorem Fs.Steps.trans {fs fs' fs'' : Fs} (first : fs.Steps fs') (second : fs'.Steps fs'') : fs.Steps fs'' :=
  ⟨second.root.trans first.root, second.gdtableBlkno.trans first.gdtableBlkno,
    second.noBlkPergdt.trans first.noBlkPergdt, second.jrnlBlkIdx.trans first.jrnlBlkIdx,
    first.journalPtr.trans second.journalPtr,
    fun o lower upper => (second.features o lower upper).trans (first.features o lower upper)⟩

def Fs.Logs (fs fs' : Fs) : Prop := ∃ c L, fs' = { fs with caches := c, journalPtr := fs.journalPtr ++ L }

theorem Fs.Logs.trans {fs fs' fs'' : Fs} (first : fs.Logs fs') (second : fs'.Logs fs'') : fs.Logs fs'' := by
  obtain ⟨c, L, rfl⟩ := first
  obtain ⟨c', L', rfl⟩ := second
  exact ⟨c', L ++ L', by simp only [List.append_assoc]⟩

theorem Fs.Logs.allocates {fs fs' : Fs} (logs : fs.Logs fs') : fs.Allocates fs' := by
  obtain ⟨c, L, rfl⟩ := logs
  exact ⟨rfl, rfl, rfl, rfl, rfl, rfl, List.prefix_append _ _, fun _ _ _ => rfl⟩

def Geometry.slotIn (g : Geometry) (levels : Nat) (V inode : Buf) (name : CStr) (k : Nat) : Slot :=
  match g.lookup levels V inode k with
  | none => .outside
  | some (b, _) => findSlot (clip g.bs (g.blk V b)) g.bs name g.bs 0

/-- The place for an entry in the blocks of a directory up to block `k`. -/
def Geometry.slotFrom (g : Geometry) (levels : Nat) (V inode : Buf) (name : CStr) : Nat → Slot
  | 0 => g.slotIn levels V inode name 0
  | k + 1 =>
    match g.slotIn levels V inode name (k + 1) with
    | .full => g.slotFrom levels V inode name k
    | slot => slot

def Geometry.HasRoom (g : Geometry) (levels : Nat) (V inode : Buf) (name : CStr) : Prop :=
  g.slotFrom levels V inode name (Inode.size inode / g.bs - 1) ≠ .full

section Slots

variable {env : Env} {g : Geometry} {S K : Nat → Prop} {V₁ : Buf} {A : Areas g V₁} {base : Fs} {N : List Nat}
  {V inode : Buf} {fs fs' : Fs} {name : CStr} (valid : g.Valid env) (busy : fs.Busy env g S A N V base)
  (dir : g.DirMap env.levels S K V inode)
include valid busy dir

theorem slotInBlock_run {k : Nat} {r : Option (Nat × Buf × Slot)} (below : k < Inode.size inode / g.bs)
    (run : slotInBlock env inode name k fs = some (r, fs')) :
    fs.Logs fs' ∧ fs'.Busy env g S A N V base ∧ (k < 2 ^ 31) ∧
      ∀ b block slot, r = some (b, block, slot) →
        slot = g.slotIn env.levels V inode name k ∧ K b ∧ fs'.HasEntry b := by
  obtain ⟨b, via, found, inside, inK, safe⟩ := dir.block k below
  obtain ⟨c, lookup, on'⟩ := busy.on.lookup valid found safe
  have busy₁ : Fs.Busy env g S A N V { fs with caches := c } base := { busy with on := on' }
  obtain ⟨fs₁, state⟩ : ∃ fs₁ : Fs, fs₁ = { fs with caches := c } := ⟨_, rfl⟩
  rw [← state] at lookup busy₁
  rw [slotInBlock, bind_of_run lookup] at run
  simp only [run_ite] at run
  split at run
  · cases run
    exact ⟨⟨c, [], by rw [state, List.append_nil]⟩, busy₁, found.small, nofun⟩
  · rw [run_bind, readBlock, reading, busy₁.on.readBlock valid inside, Option.bind_some] at run
    obtain ⟨⟨⟩, fs₂, log, run⟩ := bind_eq_some.mp run
    obtain ⟨busy₂, entry, L, grows⟩ := busy₁.log log (fun kept i small => by
      rw [clip_of_lt small]
      exact (busy.same b kept i small).symm)
    rw [get_bind] at run
    cases run
    refine ⟨⟨c, L, by rw [grows, state]⟩, busy₂, found.small, fun b' block slot same => ?_⟩
    cases same
    refine ⟨?_, inK, entry⟩
    rw [Geometry.slotIn, found.lookup, busy₂.on.blksz]

theorem slotLoop_run {start : Nat} {r : Option (Nat × Buf × Slot)} (below : start < Inode.size inode / g.bs)
    (run : slotLoop env inode name start fs = some (r, fs')) :
    fs.Logs fs' ∧ fs'.Busy env g S A N V base ∧
      ∀ b block slot, r = some (b, block, slot) →
        slot = g.slotFrom env.levels V inode name start ∧ K b ∧ fs'.HasEntry b := by
  induction start generalizing fs with
  | zero =>
    obtain ⟨logs, busy', -, result⟩ := slotInBlock_run valid busy dir below run
    exact ⟨logs, busy', result⟩
  | succ start ih =>
    rw [slotLoop] at run
    obtain ⟨r₁, fs₁, here, run⟩ := bind_eq_some.mp run
    obtain ⟨logs, busy₁, small, result⟩ := slotInBlock_run valid busy dir below here
    have positive : isNeg (start + 1) = false := decide_eq_false (by omega)
    match r₁ with
    | none =>
      cases run
      exact ⟨logs, busy₁, nofun⟩
    | some (b, block, slot) =>
      obtain ⟨place, inK, entry⟩ := result b block slot rfl
      rw [Geometry.slotFrom, ← place]
      cases slot with
      | full =>
        simp only [positive, Bool.false_eq_true, if_false] at run
        obtain ⟨further, busy₂, result₂⟩ := ih busy₁ (by omega) run
        exact ⟨logs.trans further, busy₂, result₂⟩
      | behind off len =>
        cases run
        exact ⟨logs, busy₁, fun _ _ _ same => by cases same; exact ⟨rfl, inK, entry⟩⟩
      | stop off =>
        cases run
        exact ⟨logs, busy₁, fun _ _ _ same => by cases same; exact ⟨rfl, inK, entry⟩⟩
      | outside =>
        cases run
        exact ⟨logs, busy₁, fun _ _ _ same => by cases same; exact ⟨rfl, inK, entry⟩⟩

end Slots

theorem Geometry.DirMap.grown {levels : Nat} {g : Geometry} {S K : Nat → Prop} {V V' inode inode' : Buf} {b : Nat}
    (dir : g.DirMap levels S K V inode) (plain : Inode.usesExtents inode = false)
    (direct : Inode.size inode / g.bs < indirectBlocks) (below : b < g.totalBlocks)
    (flags : Inode.usesExtents inode' = Inode.usesExtents inode)
    (size : Inode.size inode' / g.bs = Inode.size inode / g.bs + 1)
    (new : getLe32 inode' (Inode.dirBlocks + 4 * (Inode.size inode / g.bs)) = b)
    (old : ∀ k < Inode.size inode / g.bs,
      getLe32 inode' (Inode.dirBlocks + 4 * k) = getLe32 inode (Inode.dirBlocks + 4 * k)) :
    g.DirMap levels S (fun _ => True) V' inode' := by
  have plain' := flags.trans plain
  have limit : indirectBlocks ≤ g.limit := by
    unfold Geometry.limit
    omega
  have direct' : ∀ k < indirectBlocks,
      g.Found levels V' inode' k (getLe32 inode' (Inode.dirBlocks + 4 * k)) [] := by
    intro k small
    refine ⟨?_, Or.inr ?_, Or.inr (by omega), by unfold indirectBlocks at small; omega⟩
    · rw [Geometry.lookup, plain', if_neg Bool.false_ne_true, Geometry.pointers, if_pos small]
      rfl
    · rw [Geometry.depth, if_pos small]
      rfl
  refine ⟨size ▸ Nat.succ_pos _, fun k inside => ⟨_, [], direct' k (by omega), ?_, trivial, fun x member => absurd member List.not_mem_nil⟩⟩
  by_cases last : k = Inode.size inode / g.bs
  · rw [last, new]
    exact below
  · obtain ⟨x, via, found, small, -⟩ := dir.block k (by omega)
    have same := found.lookup
    rw [Geometry.lookup, plain, if_neg Bool.false_ne_true, Geometry.pointers, if_pos (by omega)] at same
    cases same
    rw [old k (by omega)]
    exact small

/-- A new entry was made, with the inode `ino`, or none was. In a directory with room nothing but one of its blocks,
in `K`, is noted as changed, and that block is logged. -/
structure Fs.Inserted (env : Env) (g : Geometry) (S : Nat → Prop) {V₁ : Buf} (A : Areas g V₁) (N : List Nat) (V : Buf)
    (K : Nat → Prop) (room : Prop) (ino : Nat) (fs fs' base : Fs) : Prop where
  steps : fs.Steps fs'
  kept : room → fs'.gParentInode = fs.gParentInode ∧ fs'.firstPassBbmap = fs.firstPassBbmap
  dirty : room → ∀ e ∈ fs'.dirtyBlockPtr, e ∈ fs.dirtyBlockPtr ∨ K e.1 ∧ fs'.HasEntry e.1
  busy : ∃ N' V', fs'.Busy env g S A (N ++ N') V' base ∧ (∀ x ∈ N, g.SameBlock V V' x) ∧ (room → N' = [])
  inode : ino ≠ minusOne → 1 ≤ ino ∧ (ino - 1) / g.inodesPerGroup < g.groups ∧ ¬ A.inodes ino ∧
    fs'.HasEntry (g.ibm V₁ ((ino - 1) / g.inodesPerGroup))

theorem Fs.Inserted.after {env : Env} {g : Geometry} {S K : Nat → Prop} {V₁ V : Buf} {A : Areas g V₁} {N : List Nat}
    {room : Prop} {ino : Nat} {fs fs₁ fs' base : Fs} (logs : fs.Logs fs₁)
    (inserted : fs₁.Inserted env g S A N V K room ino fs' base) : fs.Inserted env g S A N V K room ino fs' base := by
  have steps := logs.allocates.steps
  obtain ⟨c, L, rfl⟩ := logs
  exact ⟨steps.trans inserted.steps, inserted.kept, inserted.dirty, inserted.busy, inserted.inode⟩

section Insert

variable {env : Env} {g : Geometry} {S : Nat → Prop} {V₁ : Buf} {A : Areas g V₁} {base : Fs} {N : List Nat}
  {V : Buf} {fs fs' : Fs} (valid : g.Valid env)
include valid

theorem growParent_run {K : Nat → Prop} {ok : Bool} (busy : fs.Busy env g S A N V base)
    (dir : g.DirMap env.levels S K V fs.gParentInode)
    (run : growParent env (Inode.size fs.gParentInode / g.bs) fs = some (ok, fs')) :
    fs.Steps fs' ∧ fs'.firstPassIbmap = fs.firstPassIbmap ∧ ∃ N' V', fs'.Busy env g S A (N ++ N') V' base ∧
      (∀ x ∈ N, g.SameBlock V V' x) ∧ (ok = true → g.DirMap env.levels S (fun _ => True) V' fs'.gParentInode) := by
  rw [growParent, get_bind] at run
  simp only [run_ite] at run
  split at run
  · cases run
    exact ⟨.refl fs, rfl, [], V, by rwa [List.append_nil], fun x _ => .refl V x, nofun⟩
  next plain =>
  split at run
  · cases run
    exact ⟨.refl fs, rfl, [], V, by rwa [List.append_nil], fun x _ => .refl V x, nofun⟩
  next direct =>
  obtain ⟨b, fs₁, call, run⟩ := bind_eq_some.mp run
  have took := ext4fsGetNewBlkNo_took valid busy call
  obtain ⟨V', new, busy₁⟩ := took.busy
  split at run
  · next none =>
    cases run
    rw [if_pos none] at busy₁
    exact ⟨took.allocates.steps, took.firstPassIbmap, [], V', by rwa [List.append_nil], new, nofun⟩
  next some =>
  rw [if_neg some] at busy₁
  obtain ⟨unused, -, below, notNew, busy₁⟩ := busy₁
  have open_ : ¬ A.kept b := fun kept => unused (A.kept_used b kept)
  have uncached : ¬ S b := fun cached => (busy.cached b cached).elim open_ notNew
  have busy₂ := busy₁.write valid zeros below open_ uncached
  obtain ⟨fs₂, state⟩ : ∃ fs₂, fs₂ = fs₁.write env ⟨b * fs₁.blksz, zeros, fs₁.blksz⟩ := ⟨_, rfl⟩
  have kept : fs₁.Allocates fs₂ ∧ fs₂.firstPassIbmap = fs₁.firstPassIbmap := by
    rw [state]
    exact ⟨⟨rfl, rfl, rfl, rfl, rfl, rfl, List.prefix_refl _, fun _ _ _ => rfl⟩, rfl⟩
  rw [← state] at busy₂
  rw [run_bind, putBlock, Option.bind_some, ← state, modify_bind] at run
  cases run
  have allocates := took.allocates.trans kept.1
  refine ⟨⟨allocates.1, allocates.4, allocates.5, allocates.6, allocates.7, allocates.8⟩,
    kept.2.trans took.firstPassIbmap, [b], _, { busy₂ with on := { busy₂.on with } }, fun x member => ?_, fun _ => ?_⟩
  · exact (new x member).trans (Geometry.sameBlock_overlay (fun same => notNew (same ▸ member)))
  · have small := valid.total_lt
    have upper := valid.bs_le
    have positive := Geometry.bs_pos (g := g)
    have within := Nat.lt_div_mul_add (a := Inode.size fs.gParentInode) positive
    have parent := allocates.gParentInode
    obtain ⟨n, count⟩ : ∃ n, n = Inode.size fs.gParentInode / g.bs := ⟨_, rfl⟩
    have room : n * g.bs ≤ 12 * 4096 := Nat.mul_le_mul (by unfold indirectBlocks at direct; omega) upper
    show g.DirMap env.levels S (fun _ => True) _ (putLe32 (putLe32 (putLe32 fs₂.gParentInode _ b) 4 _) 28 _)
    rw [parent]
    rw [← count] at direct within
    have direct' : n < 12 := Nat.lt_of_not_le direct
    have place : Inode.dirBlocks = 40 := rfl
    refine dir.grown (Bool.eq_false_iff.mpr plain) (by rw [← count]; exact direct') below ?_ ?_ ?_ (fun k earlier => ?_)
    · unfold Inode.usesExtents Inode.flags
      rw [getLe32_putLe32_of_apart _ (by omega), getLe32_putLe32_of_apart _ (by omega),
        getLe32_putLe32_of_apart _ (by omega)]
    · unfold Inode.size at within count ⊢
      rw [getLe32_putLe32_of_apart _ (by omega), getLe32_putLe32, getLe32_putLe32_of_apart _ (by omega),
        busy₂.on.blksz, w32, Nat.mod_mod, Nat.mod_eq_of_lt (by omega), Nat.add_div_right _ positive]
    · rw [← count, getLe32_putLe32_of_apart _ (by omega), getLe32_putLe32_of_apart _ (by omega), getLe32_putLe32,
        Nat.mod_eq_of_lt (by omega)]
    · rw [← count] at earlier ⊢
      rw [getLe32_putLe32_of_apart _ (by omega), getLe32_putLe32_of_apart _ (by omega),
        getLe32_putLe32_of_apart _ (by omega)]

omit valid in
theorem ext4fsPutMetadata_run {buf : Buf} {b : Nat} (run : ext4fsPutMetadata buf b fs = some ((), fs')) :
    fs' = { fs with dirtyBlockPtr := fs.dirtyBlockPtr ++ [(b, buf)] } := by
  unfold ext4fsPutMetadata at run
  split at run
  · cases run
  · cases run
    rfl

theorem insertEntry_run {K : Nat → Prop} {b ino : Nat} {buf : Nat → Buf} (room : Prop)
    (busy : fs.Busy env g S A N V base) (bytes : 8 ∣ g.inodesPerGroup) (first : fs.firstPassIbmap = 0) (inK : K b)
    (entry : fs.HasEntry b)
    (run : (do
      let inodeno ← ext4fsGetNewInodeNo env
      if inodeno = minusOne then pure minusOne
      else do
        ext4fsPutMetadata (buf inodeno) b
        pure inodeno : Run Nat) fs = some (ino, fs')) :
    fs.Inserted env g S A N V K room ino fs' base := by
  obtain ⟨no, fs₁, call, run⟩ := bind_eq_some.mp run
  have took := ext4fsGetNewInodeNo_took valid busy bytes first call
  have kept := took.allocates
  obtain ⟨V', new, busy₁⟩ := took.busy
  simp only [run_ite] at run
  split at run
  · next none =>
    cases run
    exact ⟨kept.steps, fun _ => ⟨kept.gParentInode, took.firstPassBbmap⟩,
      fun _ e member => Or.inl (kept.dirtyBlockPtr ▸ member),
      ⟨[], V', by rwa [List.append_nil], new, fun _ => rfl⟩, fun some => absurd rfl some⟩
  · obtain ⟨⟨⟩, fs₂, noted, run⟩ := bind_eq_some.mp run
    cases run
    obtain rfl := ext4fsPutMetadata_run noted
    refine ⟨⟨kept.1, kept.4, kept.5, kept.6, kept.7, kept.8⟩, fun _ => ⟨kept.gParentInode, took.firstPassBbmap⟩,
      fun _ e member => ?_, ⟨[], V', ?_, new, fun _ => rfl⟩, took.inode⟩
    · rcases List.mem_append.mp member with old | new
      · exact Or.inl (kept.dirtyBlockPtr ▸ old)
      · rw [List.mem_singleton.mp new]
        exact Or.inr ⟨inK, entry.mono kept.journalPtr⟩
    · rw [List.append_nil]
      exact { busy₁ with on := { busy₁.on with } }

/-- `ext4fs_update_parent_dentry` puts the new entry into a block of the directory that has room. A directory without
room is given a block first. -/
theorem updateDentryFrom_run {K : Nat → Prop} {name : CStr} {type rounds ino : Nat} (busy : fs.Busy env g S A N V base)
    (bytes : 8 ∣ g.inodesPerGroup) (first : fs.firstPassIbmap = 0)
    (dir : g.DirMap env.levels S K V fs.gParentInode)
    (run : updateDentryFrom env name type rounds fs = some (ino, fs')) :
    fs.Inserted env g S A N V K (g.HasRoom env.levels V fs.gParentInode name) ino fs' base := by
  induction rounds generalizing fs N V K with
  | zero => cases run
  | succ rounds ih =>
    have word : Inode.size fs.gParentInode < 2 ^ 32 := getLe32_lt _ _
    have count : w32 (Inode.size fs.gParentInode / g.bs + minusOne) = Inode.size fs.gParentInode / g.bs - 1 :=
      w32_pred dir.some ((Nat.div_le_self _ _).trans_lt word)
    have size : directoryBlocks fs.root fs.gParentInode = Inode.size fs.gParentInode / g.bs := by
      rw [directoryBlocks, busy.on.root.blockSize]
    rw [updateDentryFrom, get_bind] at run
    simp only [size, count] at run
    obtain ⟨r, fs₁, loop, run⟩ := bind_eq_some.mp run
    obtain ⟨logs, busy₁, place⟩ := slotLoop_run valid busy dir (Nat.sub_lt dir.some Nat.one_pos) loop
    have kept := logs.allocates
    have pass : fs₁.firstPassIbmap = 0 := by
      obtain ⟨c, L, rfl⟩ := logs
      exact first
    cases r with
    | none =>
      cases run
      exact .after logs ⟨.refl fs', fun _ => ⟨rfl, rfl⟩, fun _ e member => Or.inl member,
        ⟨[], V, by rwa [List.append_nil], fun x _ => .refl V x, fun _ => rfl⟩, fun some => absurd rfl some⟩
    | some found =>
      obtain ⟨b, block, slot⟩ := found
      obtain ⟨from_, inK, entry⟩ := place b block slot rfl
      cases slot with
      | behind off len => exact .after logs (insertEntry_run valid _ busy₁ bytes pass inK entry run)
      | stop off => exact .after logs (insertEntry_run valid _ busy₁ bytes pass inK entry run)
      | outside => cases run
      | full =>
        have noRoom : ¬ g.HasRoom env.levels V fs.gParentInode name := not_not.mpr from_.symm
        obtain ⟨ok, fs₂, grow, run⟩ := bind_eq_some.mp run
        rw [← kept.gParentInode] at grow
        obtain ⟨steps, passI, N₁, V₂, busy₂, new, dir'⟩ := growParent_run valid busy₁ (kept.gParentInode ▸ dir) grow
        cases ok with
        | false =>
          cases run
          exact ⟨kept.steps.trans steps, fun room => absurd room noRoom, fun room => absurd room noRoom,
            ⟨N₁, V₂, busy₂, new, fun room => absurd room noRoom⟩, fun some => absurd rfl some⟩
        | true =>
          simp only [if_true] at run
          obtain ⟨⟨⟩, fs₃, noted, run⟩ := bind_eq_some.mp run
          obtain rfl := ext4fsPutMetadata_run noted
          have busy₃ : Fs.Busy env g S A (N ++ N₁) V₂
              { fs₂ with dirtyBlockPtr := fs₂.dirtyBlockPtr ++ [(b, block)] } base :=
            { busy₂ with on := { busy₂.on with } }
          have further := ih busy₃ (passI.trans pass) (dir' rfl) run
          obtain ⟨N₂, V₃, busy₄, newer, -⟩ := further.busy
          have steps' := further.steps
          refine ⟨kept.steps.trans (steps.trans ⟨steps'.1, steps'.2, steps'.3, steps'.4, steps'.5, steps'.6⟩),
            fun room => absurd room noRoom, fun room => absurd room noRoom,
            ⟨N₁ ++ N₂, V₃, by rwa [← List.append_assoc], fun x member => ?_, fun room => absurd room noRoom⟩,
            further.inode⟩
          exact (new x member).trans (newer x (List.mem_append_left _ member))

end Insert

end UuuFastboot.Ext4
