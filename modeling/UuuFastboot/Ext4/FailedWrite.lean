import UuuFastboot.Ext4.ReadSpec
import UuuFastboot.Ext4.WriteSpec

namespace UuuFastboot.Ext4

open Word Overlay Bytes CString Partial

/-- The file of an inode lies in the blocks `kept`: its inode, the blocks that lead to its data, and its data, which is
in the blocks `B`. -/
structure Geometry.FileIn (g : Geometry) (levels : Nat) (kept : Nat → Prop) (V : Buf) (ino : Nat) (B : Nat → Nat) :
    Prop where
  has : g.HasInode V ino
  inode : kept (g.inodeBlk V ino)
  block : ∀ k, k * g.bs < Inode.size (g.inodeAt V ino) → ∃ via, g.Found levels V (g.inodeAt V ino) k (B k) via ∧
    (∀ x ∈ via, kept x) ∧ (B k ≠ 0 → kept (B k))

section Files

variable {env : Env} {g : Geometry} {kept : Nat → Prop} {V V' : Buf} {ino : Nat} {B : Nat → Nat} (valid : g.Valid env)
  (same : ∀ b, kept b → g.SameBlock V V' b) (table : g.SameTable V V') (file : g.FileIn env.levels kept V ino B)
include valid same table file

theorem Geometry.FileIn.inodeAt_eq : g.inodeAt V' ino = g.inodeAt V ino :=
  table.inodeAt valid file.has.1 file.has.2.1 (same _ file.inode)

theorem Geometry.FileIn.move : g.FileIn env.levels kept V' ino B := by
  have number := table.inodeBlk valid file.has.1 file.has.2.1
  refine ⟨⟨file.has.1, file.has.2.1, number ▸ file.has.2.2⟩, number ▸ file.inode, fun k below => ?_⟩
  rw [file.inodeAt_eq valid same table] at below ⊢
  obtain ⟨via, found, safe, data⟩ := file.block k below
  exact ⟨via, found.congr (fun x member => same x (safe x member)), safe, data⟩

omit valid table in
theorem Geometry.FileIn.bytes {t : Nat} (below : t < Inode.size (g.inodeAt V ino)) :
    g.fileBytes V' B t = g.fileBytes V B t := by
  have start : t / g.bs * g.bs < Inode.size (g.inodeAt V ino) := Nat.lt_of_le_of_lt (Nat.div_mul_le_self _ _) below
  obtain ⟨via, found, safe, data⟩ := file.block _ start
  unfold Geometry.fileBytes Geometry.place
  split
  · rfl
  · next there => exact (same _ (data there) _ (Nat.mod_lt _ Geometry.bs_pos)).symm

theorem Geometry.FileIn.search {name : CStr} :
    g.search env.levels V' (g.inodeAt V' ino) name = g.search env.levels V (g.inodeAt V ino) name := by
  rw [file.inodeAt_eq valid same table]
  refine Geometry.searchBlocks_same (fun k _ below => ?_)
  have start : k * g.bs < Inode.size (g.inodeAt V ino) := by
    have next := Nat.mul_le_mul_right g.bs (show k + 1 ≤ Inode.size (g.inodeAt V ino) / g.bs by omega)
    have whole := Nat.div_mul_le_self (Inode.size (g.inodeAt V ino)) g.bs
    have positive : 0 < g.bs := Geometry.bs_pos
    rw [Nat.add_mul] at next
    omega
  obtain ⟨via, found, safe, data⟩ := file.block k start
  exact ⟨B k, via, found, fun x member => same x (safe x member), fun there => same _ (data there)⟩

end Files

/-- After a write that failed, the volume `V'` has the files of `V` with the same contents under the same names and the
same counts of free blocks and inodes, and neither its superblock nor its journal asks for recovery. The blocks
in `A.kept` are those of the files and directories that are looked at. -/
structure Unchanged (env : Env) (g : Geometry) {V : Buf} (A : Areas g V) (J : Nat → Nat) (V' : Buf) : Prop where
  files : ∀ ino B, g.FileIn env.levels (fun b => A.kept b ∧ b ≠ J 0) V ino B →
    g.inodeAt V' ino = g.inodeAt V ino ∧ g.FileIn env.levels (fun b => A.kept b ∧ b ≠ J 0) V' ino B ∧
      ∀ t < Inode.size (g.inodeAt V ino), g.fileBytes V' B t = g.fileBytes V B t
  entries : ∀ d B, g.FileIn env.levels (fun b => A.kept b ∧ b ≠ J 0) V d B →
    ∀ name, g.search env.levels V' (g.inodeAt V' d) name = g.search env.levels V (g.inodeAt V d) name
  superblock : sbOf V' = sbOf V
  groups : g.SameTable V V'
  unflagged : hasBit (Sblock.featureIncompat (sbOf V')) incompatRecover = false
  journal : Journal.sStart (journalBlock g V' J 0) = 0

section Failed

variable {env : Env} {g : Geometry} {V : Buf} {A : Areas g V} {S K : Nat → Prop} {J : Nat → Nat} {n : Nat}
  (consistent : Consistent env g A S K J n)
include consistent

theorem Consistent.flagged :
    hasBit (Sblock.featureIncompat (sbOf (g.opened V (J 0) (journalBlock g V J 0)))) incompatRecover = true := by
  have same : g.SameBlock (flaggedVolume V) (g.opened V (J 0) (journalBlock g V J 0)) g.firstDataBlock :=
    Geometry.sameBlock_overlay consistent.journal.first.symm
  have clean := consistent.clean
  rw [sbOf_congr consistent.valid same, sbOf_flagged, featureIncompat_putRecover clean]
  rw [hasBit] at clean ⊢
  rw [Nat.testBit_two_pow_add_eq, clean]
  rfl

theorem Consistent.journalThere {S' : Nat → Prop} {N : List Nat} {V₂ : Buf} {fs base : Fs}
    (busy : fs.Busy env g S' (A.move consistent.valid consistent.table) N V₂ base) (sub : ∀ x, S x → S' x) :
    JournalThere env g V₂ (g.inodeAt V journalIno) S' J n := by
  have valid := consistent.valid
  have moved := consistent.journal.move valid consistent.beside
  have number := consistent.table.inodeBlk valid (by decide : 1 ≤ journalIno) consistent.journal.file.number
  refine moved.congr valid (fun b lower upper => busy.same b (consistent.descriptors b lower upper)) ?_
    (fun x inS => busy.same x (consistent.map x inS)) sub
  rw [number]
  exact busy.same _ consistent.journalInode

theorem Consistent.closed_unchanged {S' : Nat → Prop} {N : List Nat} {V₂ : Buf} {fs base : Fs}
    (busy : fs.Busy env g S' (A.move consistent.valid consistent.table) N V₂ base) :
    Unchanged env g A J (g.closed V₂ (J 0) (journalBlock g V₂ J 0)) := by
  have valid := consistent.valid
  obtain ⟨V', volume⟩ : ∃ V', V' = g.closed V₂ (J 0) (journalBlock g V₂ J 0) := ⟨_, rfl⟩
  rw [← volume]
  have apart := consistent.journal.first
  -- The superblock that is written is the one on the volume, with the flag cleared.
  have superblock : putRecover (sbOf V₂) false = sbOf V := by
    have opened : sbOf V₂ = sbOf (g.opened V (J 0) (journalBlock g V J 0)) :=
      sbOf_congr valid (busy.same _ consistent.superblock)
    have flagged : sbOf (g.opened V (J 0) (journalBlock g V J 0)) = sbOf (flaggedVolume V) :=
      sbOf_congr valid (Geometry.sameBlock_overlay apart.symm)
    rw [opened, flagged, sbOf_flagged, putRecover_putRecover consistent.clean]
  have first : g.SameBlock V V' g.firstDataBlock := by
    intro i below
    obtain ⟨a, place⟩ : ∃ a, a = g.firstDataBlock * g.bs + i := ⟨_, rfl⟩
    rw [← place]
    by_cases inside : superblockSize ≤ a ∧ a < superblockSize + superblockSize
    · rw [volume, Geometry.closed, overlay_of_mem inside.1 inside.2, superblock, sbOf, clip_of_lt (by omega), tail_apply,
        Nat.add_sub_cancel' inside.1]
    · calc V a
        _ = flaggedVolume V a := (if_neg inside).symm
        _ = g.opened V (J 0) (journalBlock g V J 0) a := by
          rw [place]
          exact (overlay_block_other apart.symm below).symm
        _ = V₂ a := by
          rw [place]
          exact busy.same _ consistent.superblock i below
        _ = overlay V₂ (J 0 * g.bs) g.bs (putBe32 (journalBlock g V₂ J 0) 28 0) a := by
          rw [place]
          exact (overlay_block_other apart.symm below).symm
        _ = V' a := by
          rw [volume]
          exact (if_neg inside).symm
  have blocks : ∀ b, A.kept b ∧ b ≠ J 0 → g.SameBlock V V' b := by
    rintro b ⟨kept, notJ⟩
    by_cases here : b = g.firstDataBlock
    · rw [here]
      exact first
    · have outside : g.SameBlock V₂ V' b := by
        rw [volume]
        exact (Geometry.sameBlock_overlay notJ).trans (sameBlock_putSb valid here)
      exact (consistent.beside b here notJ).trans ((busy.same b kept).trans outside)
  have table : g.SameTable V V' := fun b lower upper => blocks b ⟨consistent.descriptors b lower upper, fun here => by
    have journal := consistent.journal.table
    omega⟩
  have sb : sbOf V' = sbOf V := sbOf_congr valid first
  refine
    { files := fun ino B file =>
        ⟨file.inodeAt_eq valid blocks table, file.move valid blocks table, fun t below => file.bytes blocks below⟩
      entries := fun d B file name => file.search valid blocks table
      superblock := sb
      groups := table
      unflagged := by rw [sb]; exact consistent.clean
      journal := ?_ }
  -- The journal's superblock is not in the block of the volume's.
  have word : Journal.sStart (journalBlock g V' J 0) = getBe32 (putBe32 (journalBlock g V₂ J 0) 28 0) 28 := by
    have size := valid.bs_ge
    refine getBe32_congr (fun i below => ?_)
    have same : g.SameBlock (overlay V₂ (J 0 * g.bs) g.bs (putBe32 (journalBlock g V₂ J 0) 28 0)) V' (J 0) := by
      rw [volume]
      exact sameBlock_putSb valid apart
    rw [journalBlock, clip_of_lt (by omega), Geometry.blk, tail_apply, ← same _ (by omega),
      overlay_of_mem (by omega) (by omega), Nat.add_sub_cancel_left]
  rw [word, getBe32_putBe32]
  rfl

end Failed

section Command

variable {env : Env} {g : Geometry} {V : Buf} {A : Areas g V} {S K : Nat → Prop} {J : Nat → Nat} {n : Nat}
  (consistent : Consistent env g A S K J n)
include consistent

theorem Consistent.failed_run {card card' data : Buf} {prev : PrevIndices} {path : CStr} {len : Nat}
    (volume : env.volume card = V) (run : writeCommand env card prev path data len = some (none, card')) :
    ∃ fs fs', fs.Mounted env g V ∧ ext4fsWrite env path data (w32 len) .reg fs = some (false, fs') ∧ fs'.card = card' := by
  subst volume
  obtain ⟨root, mount, has, inode⟩ := ext4fsMount_run consistent.valid consistent.describes consistent.root
  rw [writeCommand, mount] at run
  obtain ⟨⟨r, fs'⟩, write, same⟩ := Option.map_eq_some_iff.mp run
  cases same
  refine ⟨mounted card root prev, fs', ⟨has, inode, rfl, rfl, rfl, rfl, rfl, rfl⟩, ?_, rfl⟩
  rw [ext4WriteFile] at write
  simp only [ne_eq, not_true_eq_false, if_false] at write
  obtain ⟨ok, fs₁, written, result⟩ := bind_eq_some.mp write
  cases ok with
  | true => cases result
  | false =>
    cases result
    exact written

end Command

/-- The static variables as they are before the first command. -/
def initialPrev : PrevIndices := ⟨minusOne, minusOne, minusOne, minusOne, minusOne, minusOne⟩

theorem samplePath_new : NewPath sampleEnv sampleGeometry (fun x => x = 63) (fun b => b = 7)
    (sampleEnv.volume (sampleCard false)) (cstr "/g") := by
  have parts : components (cstr "/g") = [[103]] := by decide +kernel
  have absent : sampleGeometry.search sampleEnv.levels (sampleEnv.volume (sampleCard false))
      (sampleGeometry.inodeAt (sampleEnv.volume (sampleCard false)) rootIno) [103] = none := by decide +kernel
  have block : sampleGeometry.lookup sampleEnv.levels (sampleEnv.volume (sampleCard false))
      (sampleGeometry.inodeAt (sampleEnv.volume (sampleCard false)) rootIno) 0 = some (7, []) := by decide +kernel
  have one : Inode.size (sampleGeometry.inodeAt (sampleEnv.volume (sampleCard false)) rootIno) / sampleGeometry.bs = 1 := by
    decide +kernel
  refine ⟨?_, fun p name resolved => ?_⟩
  · rw [parts]
    refine ⟨(sampleCard_consistent false).root, ⟨by rw [one]; decide, fun k below => ?_⟩, fun ino found => ?_⟩
    · obtain rfl : k = 0 := by omega
      exact ⟨7, [], ⟨block, Geometry.lookup_complete block (by decide), Or.inr (by decide), by decide⟩, by decide, rfl,
        fun x member => absurd member List.not_mem_nil⟩
    · rw [absent] at found
      cases found
  · rw [parts] at resolved
    cases resolved
    exact absent


end UuuFastboot.Ext4
