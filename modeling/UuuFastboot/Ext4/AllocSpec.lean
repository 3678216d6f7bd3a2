import UuuFastboot.Ext4.Transaction

namespace UuuFastboot.Ext4

open Word Overlay Bytes Partial

theorem shortLoop_rule {α : Type} {body : Nat → Run (Option α)} {P : Fs → Prop} {Q : α → Fs → Prop} (bound : Nat)
    (step : ∀ i fs r fs', i < bound → P fs → body i fs = some (r, fs') → r.elim (P fs') (fun a => Q a fs'))
    {left i : Nat} {fs fs' : Fs} {r : Option α} (inside : i + left ≤ bound) (before : P fs)
    (run : shortLoop body left i fs = some (r, fs')) : r.elim (P fs') (fun a => Q a fs') := by
  induction left generalizing i fs with
  | zero =>
    cases run
    exact before
  | succ left ih =>
    rw [shortLoop] at run
    split at run
    · cases run
      exact before
    · obtain ⟨s, fs₁, round, rest⟩ := bind_eq_some.mp run
      have after := step i fs s fs₁ (by omega) before round
      cases s with
      | some a =>
        cases rest
        exact after
      | none => exact ih (by omega) after rest

/-- A call of the allocator gave the block `b`, which was free, or none. -/
structure Fs.Took (env : Env) (g : Geometry) (S : Nat → Prop) {V₁ : Buf} (A : Areas g V₁) (N : List Nat) (V : Buf)
    (b : Nat) (fs fs' base : Fs) : Prop where
  allocates : fs.Allocates fs'
  firstPassIbmap : fs'.firstPassIbmap = fs.firstPassIbmap
  logged : fs.firstPassBbmap = 0 → b ≠ minusOne → fs'.HasEntry (g.bbm V₁ (g.groupOf b))
  busy : ∃ V', (∀ x ∈ N, g.SameBlock V V' x) ∧
    if b = minusOne then fs'.Busy env g S A N V' base
    else ¬ A.used b ∧ g.firstDataBlock ≤ b ∧ b < g.totalBlocks ∧ b ∉ N ∧ fs'.Busy env g S A (N ++ [b]) V' base

section Took

variable {env : Env} {g : Geometry} {S : Nat → Prop} {V₁ V V' : Buf} {A : Areas g V₁} {fs fs' base : Fs} {N : List Nat}
  (allocates : fs.Allocates fs') (pass : fs'.firstPassIbmap = fs.firstPassIbmap)
  (new : ∀ x ∈ N, g.SameBlock V V' x)
include allocates pass new

theorem Fs.Took.none (busy : fs'.Busy env g S A N V' base) : fs.Took env g S A N V minusOne fs' base :=
  ⟨allocates, pass, fun _ some => absurd rfl some, V', new, by rwa [if_pos rfl]⟩

theorem Fs.Took.block {b : Nat} (valid : g.Valid env) (unused : ¬ A.used b) (lower : g.firstDataBlock ≤ b)
    (below : b < g.totalBlocks) (notNew : b ∉ N) (busy : fs'.Busy env g S A (N ++ [b]) V' base)
    (logged : fs.firstPassBbmap = 0 → fs'.HasEntry (g.bbm V₁ (g.groupOf b))) :
    fs.Took env g S A N V b fs' base := by
  have small := valid.total_lt
  have some : b ≠ minusOne := by
    unfold minusOne
    omega
  refine ⟨allocates, pass, fun first _ => logged first, V', new, ?_⟩
  rw [if_neg some]
  exact ⟨unused, lower, below, notNew, busy⟩

theorem Fs.Took.after {b : Nat} {fs'' : Fs} (first : fs.firstPassBbmap = 0 → fs'.firstPassBbmap = 0)
    (took : fs'.Took env g S A N V' b fs'' base) : fs.Took env g S A N V b fs'' base := by
  obtain ⟨V'', newer, busy⟩ := took.busy
  exact ⟨allocates.trans took.allocates, took.firstPassIbmap.trans pass, fun now => took.logged (first now), V'',
    fun x member => (new x member).trans (newer x member), busy⟩

end Took

theorem sbFreeBlocksDec_features (sb : Buf) {o : Nat} (lower : 92 ≤ o) (upper : o < 104) :
    sbFreeBlocksDec sb o = sb o := by
  rw [sbFreeBlocksDec, sbSetFreeBlocks, putLe32, overlay_of_lt (by omega), putLe32, overlay_of_ge (by omega)]

theorem sbFreeInodesDec_features (sb : Buf) {o : Nat} (lower : 92 ≤ o) : sbFreeInodesDec sb o = sb o := by
  rw [sbFreeInodesDec, putLe32, overlay_of_ge (by omega)]

section Blocks

variable {env : Env} {g : Geometry} {S : Nat → Prop} {V₁ : Buf} {A : Areas g V₁} {base : Fs} {N : List Nat} {V : Buf}
  {fs : Fs} (valid : g.Valid env) (busy : fs.Busy env g S A N V base)
include valid busy

theorem Fs.Busy.takeBlock (i : Nat) : (takeBlock fs i).Busy env g S A N V base :=
  busy.descend (Fs.putDescriptor_descends (busy.gdsize ▸ valid.descriptor) (.putWide16 _ _ (by decide) (by decide)))
    rfl rfl rfl rfl rfl rfl rfl rfl rfl busy.cursor

theorem Fs.Busy.takeInode (i : Nat) : (takeInode fs i).Busy env g S A N V base :=
  busy.descend (Fs.putDescriptor_descends (busy.gdsize ▸ valid.descriptor) (.putWide16 _ _ (by decide) (by decide)))
    rfl rfl rfl rfl rfl rfl rfl rfl rfl busy.cursor

omit valid in
theorem Fs.Busy.moveTo {c : Nat} (word : c < 2 ^ 32) :
    Fs.Busy env g S A N V { fs with currBlkno := c } base :=
  { busy with on := { busy.on with }, cursor := word }

theorem firstBlkInGroup_took {i : Nat} {r : Option Nat} {fs' : Fs} (below : i < g.groups)
    (run : firstBlkInGroup env i fs = some (r, fs')) :
    fs.Took env g S A N V (r.getD minusOne) fs' base ∧ (r = none → fs'.firstPassBbmap = fs.firstPassBbmap) := by
  rw [firstBlkInGroup, get_bind] at run
  simp only [run_ite] at run
  split at run
  · cases run
    exact ⟨.none (.refl fs) rfl (fun x _ => .refl V x) busy, fun _ => rfl⟩
  · obtain ⟨⟨⟩, fs₁, init, run⟩ := bind_eq_some.mp run
    obtain ⟨V', busy₁, new, allocates, initialised, passB, passI, -⟩ := busy.initBlockBitmap valid below init
    rw [get_bind] at run
    cases taken : getNewBlkNo fs₁.blksz (fs₁.blkBmaps i) with
    | none =>
      simp only [taken] at run
      cases run
      exact ⟨.none ⟨allocates.1, allocates.2, allocates.3, allocates.4, allocates.5, allocates.6, allocates.7, allocates.8⟩ passI new
        (busy₁.moveTo (by decide)), fun _ => passB⟩
    | some found =>
      obtain ⟨no, bmap⟩ := found
      simp only [taken] at run
      obtain ⟨n, inBitmap, number, free, rfl⟩ := getNewBlkNo_some taken
      rw [busy₁.on.blksz] at inBitmap number
      rw [← valid.first_eq] at number
      obtain ⟨group, bit⟩ := valid.groupOf_bit (i := i) inBitmap
      obtain ⟨b, block⟩ : ∃ b, b = n + g.firstDataBlock + i * g.bs * 8 := ⟨_, rfl⟩
      rw [← block] at group bit
      have upper : b < g.bitmapEnd := by
        have step : (i + 1) * g.blocksPerGroup ≤ g.groups * g.blocksPerGroup := Nat.mul_le_mul_right _ below
        rw [valid.perGroup] at step
        rw [block, Geometry.bitmapEnd, valid.perGroup, Nat.add_comm n, Nat.add_assoc]
        refine Nat.add_lt_add_left (Nat.lt_of_lt_of_le ?_ step) _
        calc n + i * g.bs * 8 < 8 * g.bs + i * g.bs * 8 := Nat.add_lt_add_right inBitmap _
          _ = (i + 1) * (8 * g.bs) := by ring
      have word := valid.bitmapEnd_lt
      obtain ⟨unused, inside, notNew, marked⟩ := busy₁.mark (b := b) (by omega) upper
        (by rw [Geometry.marked, group, bit]; exact free) (by rw [group]; exact initialised)
      rw [group, bit] at marked
      have cursor : no + i * fs₁.blksz * 8 = b := by rw [block, number, busy₁.on.blksz]
      obtain ⟨fs₂, state⟩ : ∃ fs₂, fs₂ =
          Ext4.takeBlock
            { fs₁ with
              blkBmaps := Function.update fs₁.blkBmaps i (setBmap (fs₁.blkBmaps i) (n / 8) (n % 8))
              currBlkno := no + i * fs₁.blksz * 8
              firstPassBbmap := fs₁.firstPassBbmap + 1 } i := ⟨_, rfl⟩
      have busy₂ : fs₂.Busy env g S A (N ++ [b]) V' base := by
        rw [state]
        refine Fs.Busy.takeBlock valid ?_ i
        exact { marked with on := { marked.on with }, cursor := (by omega : no + i * fs₁.blksz * 8 < 2 ^ 32) }
      have kept : fs₁.Allocates fs₂ ∧ fs₂.firstPassIbmap = fs₁.firstPassIbmap ∧ fs₂.currBlkno = b := by
        rw [state, ← cursor]
        exact ⟨⟨rfl, rfl, rfl, rfl, rfl, rfl, List.prefix_refl _, fun _ lower upper => sbFreeBlocksDec_features _ lower upper⟩, rfl, rfl⟩
      rw [modify_bind, ← state, get_bind] at run
      obtain ⟨ok, fs₃, log, run⟩ := bind_eq_some.mp run
      rw [busy₂.bbitmapBlk below] at log
      obtain ⟨rfl, busy₃, entry, L, grows⟩ := busy₂.logBlock valid (A.blockMap i below).2 log
      cases run
      refine ⟨?_, fun none => by cases none⟩
      rw [Option.getD_some, kept.2.2]
      refine .block (allocates.trans (kept.1.trans (.of_log grows))) ?_ new valid unused (by omega) inside notNew busy₃
        (fun _ => by rw [group]; exact entry)
      rw [grows]
      exact kept.2.1.trans passI

omit busy in
theorem nextBlkLoop_took {rounds b : Nat} {V : Buf} {fs fs' : Fs} (busy : fs.Busy env g S A N V base)
    (run : nextBlkLoop env rounds fs = some (b, fs')) (pass : fs.firstPassBbmap ≠ 0) :
    fs.Took env g S A N V b fs' base := by
  induction rounds generalizing V fs with
  | zero => cases run
  | succ rounds ih =>
    rw [nextBlkLoop, get_bind] at run
    simp only [run_ite] at run
    have groups := busy.groups
    split at run
    · cases run
      exact .none (.refl _) rfl (fun x _ => .refl V x) busy
    · next inGroups =>
      have below : groupOfBlock fs fs.currBlkno < g.groups := by omega
      obtain ⟨lower, group⟩ := valid.groupOfBlock_eq busy.on.root busy.on.blksz busy.cursor below
      rw [group] at run below
      split at run
      · rw [modify_bind] at run
        have word := valid.bitmapEnd_lt
        have step : (g.groupOf fs.currBlkno + 1) * g.blocksPerGroup ≤ g.groups * g.blocksPerGroup :=
          Nat.mul_le_mul_right _ below
        have cursor : (g.groupOf fs.currBlkno + 1) * Sblock.blocksPerGroup fs.root.sblock +
            (if fs.blksz = 1024 then 1 else 0) < 2 ^ 32 := by
          rw [busy.on.root.perGroup]
          unfold Geometry.bitmapEnd at word
          split <;> omega
        refine .after ?_ ?_ (fun x _ => .refl V x) (fun first => absurd first pass) (ih (busy.moveTo cursor) run pass)
        · exact ⟨rfl, rfl, rfl, rfl, rfl, rfl, List.prefix_refl _, fun _ _ _ => rfl⟩
        · rfl
      · obtain ⟨⟨⟩, fs₁, init, run⟩ := bind_eq_some.mp run
        obtain ⟨V', busy₁, new, allocates, initialised, passB, passI, cursor⟩ := busy.initBlockBitmap valid below init
        rw [get_bind] at run
        cases taken : ext4fsSetBlockBmap fs₁.root.blockSize fs₁.currBlkno (fs₁.blkBmaps (g.groupOf fs.currBlkno))
            (g.groupOf fs.currBlkno) with
        | none =>
          simp only [taken] at run
          rw [modify_bind] at run
          refine .after ?_ ?_ new (fun first => absurd first pass) (ih (busy₁.moveTo (w32_lt _)) run (by rwa [passB]))
          · exact ⟨allocates.1, allocates.2, allocates.3, allocates.4, allocates.5, allocates.6, allocates.7, allocates.8⟩
          · exact passI
        | some bmap =>
          simp only [taken] at run
          rw [cursor, busy₁.on.root.blockSize, ext4fsSetBlockBmap, valid.blockBit_eq lower] at taken
          simp only at taken
          split at taken
          · cases taken
          · next free =>
            cases taken
            obtain ⟨unused, inside, notNew, marked⟩ := busy₁.mark lower (valid.lt_bitmapEnd below)
              (Bool.eq_false_iff.mpr free) initialised
            rw [modify_bind] at run
            obtain ⟨fs₂, state⟩ : ∃ fs₂, fs₂ =
                { fs₁ with
                  blkBmaps := Function.update fs₁.blkBmaps (g.groupOf fs.currBlkno)
                    (setBmap (fs₁.blkBmaps (g.groupOf fs.currBlkno)) (g.bitOf fs.currBlkno / 8)
                      (g.bitOf fs.currBlkno % 8)) } := ⟨_, rfl⟩
            rw [← state] at run marked
            have kept : fs₁.Allocates fs₂ ∧ fs₂.firstPassIbmap = fs₁.firstPassIbmap := by
              rw [state]
              exact ⟨⟨rfl, rfl, rfl, rfl, rfl, rfl, List.prefix_refl _, fun _ _ _ => rfl⟩, rfl⟩
            simp only [run_ite] at run
            split at run
            · obtain ⟨ok, fs₃, log, run⟩ := bind_eq_some.mp run
              rw [busy₁.bbitmapBlk below] at log
              obtain ⟨rfl, busy₃, -, L, grows⟩ := marked.logBlock valid (A.blockMap _ below).2 log
              simp only [if_true, modify_bind] at run
              cases run
              rw [cursor]
              have logged := allocates.trans (kept.1.trans (.of_log grows))
              refine .block ?_ ?_ new valid unused lower inside notNew
                (Fs.Busy.takeBlock valid ?_ _) (fun first => absurd first pass)
              · exact ⟨logged.1, logged.2, logged.3, logged.4, logged.5, logged.6, logged.7,
                  fun o lower upper => (sbFreeBlocksDec_features _ lower upper).trans (logged.8 o lower upper)⟩
              · rw [grows]
                exact kept.2.trans passI
              · exact { busy₃ with on := { busy₃.on with } }
            · simp only [run_bind, run_pure, Option.bind_some, if_true, run_modify] at run
              cases run
              rw [cursor]
              have taken := allocates.trans kept.1
              refine .block ?_ ?_ new valid unused lower inside notNew (Fs.Busy.takeBlock valid marked _)
                (fun first => absurd first pass)
              · exact ⟨taken.1, taken.2, taken.3, taken.4, taken.5, taken.6, taken.7,
                  fun o lower upper => (sbFreeBlocksDec_features _ lower upper).trans (taken.8 o lower upper)⟩
              · exact kept.2.trans passI

theorem ext4fsGetNewBlkNo_took {b : Nat} {fs' : Fs} (run : ext4fsGetNewBlkNo env fs = some (b, fs')) :
    fs.Took env g S A N V b fs' base := by
  rw [ext4fsGetNewBlkNo, get_bind] at run
  simp only [run_ite] at run
  split at run
  · next first =>
    obtain ⟨r, fs₁, loop, run⟩ := bind_eq_some.mp run
    cases run
    have ended := shortLoop_rule g.groups
      (P := fun fs₁ => fs₁.firstPassBbmap = 0 ∧ fs.Took env g S A N V minusOne fs₁ base)
      (Q := fun b fs₁ => fs.Took env g S A N V b fs₁ base) (fun i fs₁ r fs₂ below before round => ?_)
      (by rw [busy.groups, Nat.zero_add])
      ⟨first, .none (.refl fs) rfl (fun x _ => .refl V x) busy⟩ loop
    · cases r with
      | none => exact ended.2
      | some b => exact ended
    · obtain ⟨zero, before⟩ := before
      obtain ⟨V', new, busy₁⟩ := before.busy
      rw [if_pos rfl] at busy₁
      obtain ⟨took, pass⟩ := firstBlkInGroup_took valid busy₁ below round
      have whole := Fs.Took.after before.allocates before.firstPassIbmap new (fun _ => zero) took
      cases r with
      | none => exact ⟨(pass rfl).trans zero, whole⟩
      | some b => exact whole
  · next later =>
    rw [modify_bind] at run
    refine .after ?_ ?_ (fun x _ => .refl V x) (fun first => absurd first later)
      (nextBlkLoop_took valid (busy.moveTo (w32_lt _)) run later)
    · exact ⟨rfl, rfl, rfl, rfl, rfl, rfl, List.prefix_refl _, fun _ _ _ => rfl⟩
    · rfl

end Blocks

/-- A call of the allocator of inodes gave the number `ino` of a free one, or none. -/
structure Fs.TookInode (env : Env) (g : Geometry) (S : Nat → Prop) {V₁ : Buf} (A : Areas g V₁) (N : List Nat) (V : Buf)
    (ino : Nat) (fs fs' base : Fs) : Prop where
  allocates : fs.Allocates fs'
  firstPassBbmap : fs'.firstPassBbmap = fs.firstPassBbmap
  busy : ∃ V', (∀ x ∈ N, g.SameBlock V V' x) ∧ fs'.Busy env g S A N V' base
  inode : ino ≠ minusOne → 1 ≤ ino ∧ (ino - 1) / g.inodesPerGroup < g.groups ∧ ¬ A.inodes ino ∧
    fs'.HasEntry (g.ibm V₁ ((ino - 1) / g.inodesPerGroup))

section Inodes

variable {env : Env} {g : Geometry} {S : Nat → Prop} {V₁ : Buf} {A : Areas g V₁} {base : Fs} {N : List Nat} {V : Buf}
  {fs : Fs} (valid : g.Valid env) (busy : fs.Busy env g S A N V base)
include valid busy

theorem Fs.Busy.putItableUnused (i v : Nat) : (putItableUnused fs i v).Busy env g S A N V base := by
  unfold Ext4.putItableUnused
  split
  · exact busy.descend (Fs.putDescriptor_descends (busy.gdsize ▸ valid.descriptor) (.putLe16 _ _ (by decide)))
      rfl rfl rfl rfl rfl rfl rfl rfl rfl busy.cursor
  · exact busy

omit valid busy in
theorem Fs.Allocates.putItableUnused (fs : Fs) (i v : Nat) : fs.Allocates (putItableUnused fs i v) := by
  unfold Ext4.putItableUnused
  split
  · exact ⟨rfl, rfl, rfl, rfl, rfl, rfl, List.prefix_refl _, fun _ _ _ => rfl⟩
  · exact .refl fs

omit valid busy in
theorem putItableUnused_pass (fs : Fs) (i v : Nat) :
    (putItableUnused fs i v).firstPassBbmap = fs.firstPassBbmap := by
  unfold putItableUnused
  split <;> rfl

theorem Fs.Busy.markInode {i no : Nat} (lower : 1 ≤ no) (upper : no ≤ g.inodesPerGroup)
    (free : testBmap (fs.inodeBmaps i) ((no - 1) / 8) ((no - 1) % 8) = false) :
    (no + i * g.inodesPerGroup - 1) / g.inodesPerGroup = i ∧ ¬ A.inodes (no + i * g.inodesPerGroup) ∧
      Fs.Busy env g S A N V
        { fs with
          inodeBmaps := Function.update fs.inodeBmaps i (setBmap (fs.inodeBmaps i) ((no - 1) / 8) ((no - 1) % 8)) }
        base := by
  have positive := valid.inodes.1
  have place : no + i * g.inodesPerGroup - 1 = no - 1 + i * g.inodesPerGroup := by omega
  have group : (no + i * g.inodesPerGroup - 1) / g.inodesPerGroup = i := by
    rw [place, Nat.add_mul_div_right _ _ positive, Nat.div_eq_of_lt (by omega), Nat.zero_add]
  have bit : (no + i * g.inodesPerGroup - 1) % g.inodesPerGroup = no - 1 := by
    rw [place, Nat.add_mul_mod_self_right, Nat.mod_eq_of_lt (by omega)]
  refine ⟨group, fun used => ?_, { busy with on := { busy.on with }, inodes := fun ino used => ?_ }⟩
  · have set_ := busy.inodes _ used
    rw [Geometry.inodeMarked, group, bit, free] at set_
    cases set_
  · have set_ := busy.inodes ino used
    unfold Geometry.inodeMarked at set_ ⊢
    by_cases here : (ino - 1) / g.inodesPerGroup = i
    · simp only [here, Function.update_self] at set_ ⊢
      rw [testBmap_setBmap (by omega), set_, Bool.true_or]
    · simpa only [Function.update_of_ne here] using set_

theorem firstInodeInGroup_took {i : Nat} {r : Option Nat} {fs' : Fs} (bytes : 8 ∣ g.inodesPerGroup)
    (below : i < g.groups) (run : firstInodeInGroup env i fs = some (r, fs')) :
    fs.TookInode env g S A N V (r.getD minusOne) fs' base := by
  rw [firstInodeInGroup, get_bind] at run
  simp only [run_ite] at run
  split at run
  · cases run
    exact ⟨.refl fs, rfl, ⟨V, fun x _ => .refl V x, busy⟩, fun some => absurd rfl some⟩
  · rw [modify_bind] at run
    obtain ⟨⟨⟩, fs₁, init, run⟩ := bind_eq_some.mp run
    have busy₀ := busy.putItableUnused valid i (Desc.freeInodes fs.root.gdsize (fs.groupDescriptor i))
    have kept₀ := Fs.Allocates.putItableUnused fs i (Desc.freeInodes fs.root.gdsize (fs.groupDescriptor i))
    have pass₀ := putItableUnused_pass fs i (Desc.freeInodes fs.root.gdsize (fs.groupDescriptor i))
    obtain ⟨V', busy₁, new, allocates, passB, -⟩ := busy₀.initInodeBitmap valid below init
    replace allocates := kept₀.trans allocates
    replace passB := passB.trans pass₀
    rw [get_bind] at run
    cases taken : getNewInodeNo fs₁.root.inodesPerGroup (fs₁.inodeBmaps i) with
    | none =>
      simp only [taken] at run
      cases run
      refine ⟨?_, passB, ⟨V', new, { busy₁ with on := { busy₁.on with } }⟩, fun some => absurd rfl some⟩
      exact ⟨allocates.1, allocates.2, allocates.3, allocates.4, allocates.5, allocates.6, allocates.7, allocates.8⟩
    | some found =>
      obtain ⟨no, bmap⟩ := found
      simp only [taken] at run
      rw [busy₁.on.root.inodes] at taken
      obtain ⟨lower, upper, free, rfl⟩ := getNewInodeNo_some bytes valid.inodes.1 taken
      obtain ⟨group, unused, marked⟩ := busy₁.markInode valid lower upper free
      obtain ⟨fs₂, state⟩ : ∃ fs₂, fs₂ =
          Ext4.takeInode
            { fs₁ with
              inodeBmaps :=
                Function.update fs₁.inodeBmaps i (setBmap (fs₁.inodeBmaps i) ((no - 1) / 8) ((no - 1) % 8))
              currInodeNo := no + i * fs₁.root.inodesPerGroup
              firstPassIbmap := fs₁.firstPassIbmap + 1 } i := ⟨_, rfl⟩
      have busy₂ : fs₂.Busy env g S A N V' base := by
        rw [state]
        refine Fs.Busy.takeInode valid ?_ i
        exact { marked with on := { marked.on with } }
      have kept : fs₁.Allocates fs₂ ∧ fs₂.firstPassBbmap = fs₁.firstPassBbmap ∧
          fs₂.currInodeNo = no + i * g.inodesPerGroup := by
        rw [state, ← busy₁.on.root.inodes]
        exact ⟨⟨rfl, rfl, rfl, rfl, rfl, rfl, List.prefix_refl _, fun _ lower _ => sbFreeInodesDec_features _ lower⟩, rfl, rfl⟩
      rw [modify_bind, ← state, modify_bind] at run
      obtain ⟨fs₃, state₃⟩ : ∃ fs₃, fs₃ =
          if fs₂.hasGdtChksum then
            fs₂.putDescriptor i (bgItableUnusedDec fs₂.root.gdsize (fs₂.groupDescriptor i))
          else fs₂ := ⟨_, rfl⟩
      have busy₃ : fs₃.Busy env g S A N V' base := by
        rw [state₃]
        split
        · exact busy₂.descend (Fs.putDescriptor_descends (busy₂.gdsize ▸ valid.descriptor)
            (.putWide16 _ _ (by decide) (by decide))) rfl rfl rfl rfl rfl rfl rfl rfl rfl busy₂.cursor
        · exact busy₂
      have kept₃ : fs₂.Allocates fs₃ ∧ fs₃.firstPassBbmap = fs₂.firstPassBbmap ∧
          fs₃.currInodeNo = fs₂.currInodeNo := by
        rw [state₃]
        split
        · exact ⟨⟨rfl, rfl, rfl, rfl, rfl, rfl, List.prefix_refl _, fun _ _ _ => rfl⟩, rfl, rfl⟩
        · exact ⟨.refl fs₂, rfl, rfl⟩
      rw [← state₃, get_bind] at run
      obtain ⟨ok, fs₄, log, run⟩ := bind_eq_some.mp run
      rw [busy₃.ibitmapBlk below] at log
      obtain ⟨rfl, busy₄, entry, L, grows⟩ := busy₃.logBlock valid (A.inodeMap i below).2 log
      cases run
      rw [Option.getD_some, kept₃.2.2, kept.2.2]
      refine ⟨allocates.trans (kept.1.trans (kept₃.1.trans (.of_log grows))), ?_, ⟨V', new, busy₄⟩, fun _ => ?_⟩
      · rw [grows]
        exact kept₃.2.1.trans (kept.2.1.trans passB)
      · rw [group]
        exact ⟨by omega, below, unused, entry⟩

theorem ext4fsGetNewInodeNo_took {ino : Nat} {fs' : Fs} (bytes : 8 ∣ g.inodesPerGroup) (first : fs.firstPassIbmap = 0)
    (run : ext4fsGetNewInodeNo env fs = some (ino, fs')) : fs.TookInode env g S A N V ino fs' base := by
  rw [ext4fsGetNewInodeNo, get_bind] at run
  simp only [run_ite, first, if_true] at run
  obtain ⟨r, fs₁, loop, run⟩ := bind_eq_some.mp run
  cases run
  have ended := shortLoop_rule g.groups (P := fun fs₁ => fs.TookInode env g S A N V minusOne fs₁ base)
    (Q := fun ino fs₁ => fs.TookInode env g S A N V ino fs₁ base) (fun i fs₁ r fs₂ below before round => ?_)
    (by rw [busy.groups, Nat.zero_add])
    ⟨.refl fs, rfl, ⟨V, fun x _ => .refl V x, busy⟩, fun some => absurd rfl some⟩ loop
  · cases r with
    | none => exact ended
    | some ino => exact ended
  · obtain ⟨V', new, busy₁⟩ := before.busy
    have took := firstInodeInGroup_took valid busy₁ bytes below round
    obtain ⟨V'', newer, busy₂⟩ := took.busy
    have whole : fs.TookInode env g S A N V (r.getD minusOne) fs₂ base :=
      ⟨before.allocates.trans took.allocates, took.firstPassBbmap.trans before.firstPassBbmap,
        ⟨V'', fun x member => (new x member).trans (newer x member), busy₂⟩, took.inode⟩
    cases r with
    | none => exact whole
    | some ino => exact whole

end Inodes

end UuuFastboot.Ext4
