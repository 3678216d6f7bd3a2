import UuuFastboot.Ext4.Directory
import UuuFastboot.Ext4.Transaction

namespace UuuFastboot.Ext4

open Word Overlay Bytes CString Partial

namespace Geometry

variable (g : Geometry)

/-- The search for a name in the blocks of a directory, from block `k` on. -/
def searchBlocks (levels : Nat) (V inode : Buf) (name : CStr) : Nat → Nat → Option Nat
  | 0, _ => none
  | left + 1, k =>
    match g.lookup levels V inode k with
    | none => none
    | some (b, _) =>
      if b = 0 then none
      else
        match entryInode (clip g.bs (g.blk V b)) (scanBlock (clip g.bs (g.blk V b)) g.bs name g.bs 0 none) with
        | some (ino, _) => some ino
        | none => searchBlocks levels V inode name left (k + 1)

def search (levels : Nat) (V inode : Buf) (name : CStr) : Option Nat :=
  g.searchBlocks levels V inode name (Inode.size inode / g.bs) 0

def resolve (levels : Nat) (V : Buf) : List CStr → Nat → Option (Nat × CStr)
  | [], _ => none
  | [name], d => some (d, name)
  | name :: next :: rest, d => (g.search levels V (g.inodeAt V d) name).bind (resolve levels V (next :: rest))

def HasInode (V : Buf) (ino : Nat) : Prop := 1 ≤ ino ∧ ino ≤ g.inodes ∧ g.inodeBlk V ino < g.totalBlocks

/-- The blocks of a directory are in `K`, and the blocks that lead to them in `S`. -/
structure DirMap (levels : Nat) (S K : Nat → Prop) (V inode : Buf) : Prop where
  some : 0 < Inode.size inode / g.bs
  block : ∀ k < Inode.size inode / g.bs, ∃ b via, g.Found levels V inode k b via ∧ b < g.totalBlocks ∧ K b ∧
    ∀ x ∈ via, S x

/-- Every directory on the way along a path has its blocks where they belong, and every entry that is found
on the way stands for an inode of the volume. -/
def Walkable (levels : Nat) (S K : Nat → Prop) (V : Buf) : List CStr → Nat → Prop
  | [], _ => True
  | name :: rest, d => g.HasInode V d ∧ g.DirMap levels S K V (g.inodeAt V d) ∧
      ∀ ino, g.search levels V (g.inodeAt V d) name = some ino → g.HasInode V ino ∧ Walkable levels S K V rest ino

end Geometry

section Search

variable {env : Env} {g : Geometry} {S K : Nat → Prop} {V inode : Buf} {fs : Fs} (valid : g.Valid env)
  (on : fs.On env g S V)
include valid on

theorem searchDirLoop_run (name : CStr) {left k : Nat} (dir : g.DirMap env.levels S K V inode)
    (bound : k + left ≤ Inode.size inode / g.bs) :
    ∃ c, searchDirLoop env inode name left k fs =
        some ((g.searchBlocks env.levels V inode name left k).getD minusOne, { fs with caches := c }) ∧
      Fs.On env g S V { fs with caches := c } := by
  induction left generalizing k fs with
  | zero => exact ⟨fs.caches, rfl, on⟩
  | succ left ih =>
    obtain ⟨b, via, found, below, -, safe⟩ := dir.block k (by omega)
    obtain ⟨c, lookup, on'⟩ := on.lookup valid found safe
    obtain ⟨fs₁, state⟩ : ∃ fs₁ : Fs, fs₁ = { fs with caches := c } := ⟨_, rfl⟩
    rw [← state] at lookup on'
    have small := valid.total_lt
    have positive : isNeg b = false := decide_eq_false (by omega)
    rw [searchDirLoop, bind_of_run lookup, Geometry.searchBlocks, found.lookup]
    simp only [positive, Bool.false_eq_true, or_false, run_ite]
    split
    · exact ⟨c, by rw [state]; rfl, state ▸ on'⟩
    · simp only [run_bind, readBlock, reading, on'.readBlock valid below, Option.bind_some, run_get, on'.blksz]
      cases entryInode (clip g.bs (g.blk V b)) (scanBlock (clip g.bs (g.blk V b)) g.bs name g.bs 0 none) with
      | some entry => exact ⟨c, by rw [state]; rfl, state ▸ on'⟩
      | none =>
        obtain ⟨c', run, on''⟩ := ih on' (k := k + 1) (by omega)
        rw [state] at run on''
        exact ⟨c', by rw [state]; exact run, on''⟩

theorem searchDir_run (name : CStr) (dir : g.DirMap env.levels S K V inode) :
    ∃ c, searchDir env inode name fs =
        some ((g.search env.levels V inode name).getD minusOne, { fs with caches := c }) ∧
      Fs.On env g S V { fs with caches := c } := by
  obtain ⟨c, run, on'⟩ := searchDirLoop_run valid on name dir (Nat.le_of_eq (Nat.zero_add _))
  refine ⟨c, ?_, on'⟩
  rw [searchDir, get_bind, directoryBlocks, on.root.blockSize]
  exact run

theorem ext4fsIget_run {ino : Nat} (has : g.HasInode V ino) :
    ext4fsIget env ino fs = some (some (g.inodeAt V ino), fs) := by
  obtain ⟨one, bound, inside⟩ := has
  have read := ext4fsReadInode_eq valid on.root fs.card one bound (by rw [on.volume]; exact inside)
  rw [on.volume] at read
  rw [ext4fsIget, reading, read]

theorem searchDir_run' {name : CStr} {r : Nat} {fs' : Fs} (dir : g.DirMap env.levels S K V inode)
    (run : searchDir env inode name fs = some (r, fs')) :
    r = (g.search env.levels V inode name).getD minusOne ∧ (∃ c, fs' = { fs with caches := c }) ∧ fs'.On env g S V := by
  obtain ⟨c, run', on'⟩ := searchDir_run valid on name dir
  rw [run] at run'
  cases run'
  exact ⟨rfl, ⟨c, rfl⟩, on'⟩

omit on in
theorem parentLoop_run {names : List CStr} {first : Bool} {d : Nat} {r : Option (Nat × CStr)} {fs fs' : Fs}
    (on : fs.On env g S V) (walk : g.Walkable env.levels S K V names d) (top : first = true → d = rootIno)
    (run : parentLoop env names first (g.inodeAt V d) d fs = some (r, fs')) :
    (∃ c, fs' = { fs with caches := c }) ∧ fs'.On env g S V ∧
      ∀ p name, r = some (p, name) → g.resolve env.levels V names d = some (p, name) ∧ g.HasInode V p ∧
        g.DirMap env.levels S K V (g.inodeAt V p) := by
  induction names generalizing d first fs with
  | nil => cases run
  | cons name rest ih =>
    obtain ⟨has, dir, further⟩ := walk
    have count := valid.inodeCount
    rw [parentLoop] at run
    obtain ⟨matched, fs₁, search, run⟩ := bind_eq_some.mp run
    obtain ⟨rfl, ⟨c, state⟩, on₁⟩ := searchDir_run' valid on dir search
    have number : ∀ ino, g.search env.levels V (g.inodeAt V d) name = some ino → ino ≠ minusOne := by
      intro ino found same
      have bound := (further ino found).1.2.1
      rw [same, minusOne] at bound
      omega
    cases rest with
    | cons next rest =>
      rw [if_pos (List.cons_ne_nil _ _)] at run
      cases found : g.search env.levels V (g.inodeAt V d) name with
      | none =>
        rw [found, Option.getD_none, if_pos rfl] at run
        cases run
        exact ⟨⟨c, state⟩, on₁, nofun⟩
      | some ino =>
        obtain ⟨has', walk'⟩ := further ino found
        rw [found, Option.getD_some, if_neg (number ino found), bind_of_run (ext4fsIget_run valid on₁ has')] at run
        obtain ⟨⟨c', state'⟩, on', result⟩ := ih on₁ walk' (show false = true → _ from nofun) run
        refine ⟨⟨c', by rw [state', state]⟩, on', fun p last same => ?_⟩
        obtain ⟨resolved, rest⟩ := result p last same
        exact ⟨by rw [Geometry.resolve, found]; exact resolved, rest⟩
    | nil =>
      rw [if_neg (fun more => more rfl)] at run
      obtain ⟨matched, fs₂, again, run⟩ := bind_eq_some.mp run
      obtain ⟨rfl, ⟨c', state'⟩, on₂⟩ := searchDir_run' valid on₁ dir again
      have same : fs₂ = { fs with caches := c' } := by rw [state', state]
      have parent : (if (g.search env.levels V (g.inodeAt V d) name).getD minusOne = minusOne ∧ first = true then rootIno
          else d) = d := by
        split
        · next here => exact (top here.2).symm
        · rfl
      rw [parent] at run
      have named : (if 256 < name.length then some (none, fs₂)
          else if name.length = 256 then undefined fs₂ else some (some (d, name), fs₂)) = some (r, fs') →
            fs' = fs₂ ∧ (r = none ∨ r = some (d, name)) := by
        intro last
        split_ifs at last
        · cases last
          exact ⟨rfl, Or.inl rfl⟩
        · cases last
        · cases last
          exact ⟨rfl, Or.inr rfl⟩
      have ended : fs' = fs₂ ∧ (r = none ∨ r = some (d, name)) := by
        cases found : g.search env.levels V (g.inodeAt V d) name with
        | none =>
          rw [found, Option.getD_none, if_pos rfl] at run
          simp only [run_bind, run_pure, Option.bind_some, Bool.false_eq_true, if_false, run_ite] at run
          exact named run
        | some ino =>
          rw [found, Option.getD_some, if_neg (number ino found), run_bind,
            ext4fsIget_run valid on₂ (further ino found).1, Option.bind_some] at run
          simp only [run_bind, run_pure, Option.bind_some, run_ite] at run
          split at run
          · cases run
            exact ⟨rfl, Or.inl rfl⟩
          · exact named run
      obtain ⟨rfl, result⟩ := ended
      refine ⟨⟨c', same⟩, on₂, fun p last value => ?_⟩
      rcases result with none | some
      · rw [none] at value
        cases value
      · rw [some] at value
        cases value
        exact ⟨rfl, has, dir⟩

omit on in
theorem ext4fsGetParentInodeNum_run {path : CStr} {r : Option (Nat × CStr)} {fs fs' : Fs} (on : fs.On env g S V)
    (root : fs.root.inode = g.inodeAt V rootIno) (walk : g.Walkable env.levels S K V (components path) rootIno)
    (run : ext4fsGetParentInodeNum env path fs = some (r, fs')) :
    (∃ c, fs' = { fs with caches := c }) ∧ fs'.On env g S V ∧
      ∀ p name, r = some (p, name) → g.resolve env.levels V (components path) rootIno = some (p, name) ∧
        g.HasInode V p ∧ g.DirMap env.levels S K V (g.inodeAt V p) := by
  rw [ext4fsGetParentInodeNum] at run
  simp only [run_ite] at run
  split at run
  · cases run
    exact ⟨⟨fs.caches, rfl⟩, on, nofun⟩
  · rw [get_bind, root] at run
    exact parentLoop_run valid on walk (fun _ => rfl) run

omit on in
theorem unlinkLoop_absent {name : CStr} {left k : Nat} {fs : Fs} (on : fs.On env g S V)
    (dir : g.DirMap env.levels S K V fs.gParentInode) (bound : k + left ≤ Inode.size fs.gParentInode / g.bs)
    (absent : g.searchBlocks env.levels V fs.gParentInode name left k = none) :
    ∃ c, unlinkLoop env name left k fs = some (minusOne, { fs with caches := c }) ∧
      Fs.On env g S V { fs with caches := c } := by
  induction left generalizing k fs with
  | zero => exact ⟨fs.caches, rfl, on⟩
  | succ left ih =>
    obtain ⟨b, via, found, below, -, safe⟩ := dir.block k (by omega)
    obtain ⟨c, lookup, on'⟩ := on.lookup valid found safe
    obtain ⟨fs₁, state⟩ : ∃ fs₁ : Fs, fs₁ = { fs with caches := c } := ⟨_, rfl⟩
    have parent : fs₁.gParentInode = fs.gParentInode := by rw [state]
    rw [← state] at lookup on'
    have small := valid.total_lt
    have positive : isNeg b = false := decide_eq_false (by omega)
    rw [Geometry.searchBlocks, found.lookup] at absent
    rw [unlinkLoop, get_bind, bind_of_run lookup]
    simp only [positive, Bool.false_eq_true, or_false, run_ite] at absent ⊢
    by_cases zero : b = 0
    · rw [if_pos zero]
      exact ⟨c, by rw [state]; rfl, state ▸ on'⟩
    · rw [if_neg zero] at absent ⊢
      have missing : unlinkFilename env name b fs₁ = some (minusOne, fs₁) := by
        simp only [unlinkFilename, run_bind, readBlock, reading, on'.readBlock valid below, Option.bind_some, run_get,
          on'.blksz]
        cases scan : entryInode (clip g.bs (g.blk V b)) (scanBlock (clip g.bs (g.blk V b)) g.bs name g.bs 0 none) with
        | none => rfl
        | some entry =>
          rw [scan] at absent
          cases absent
      rw [bind_of_run missing, if_neg (fun other => other rfl)]
      split at absent
      · cases absent
      · obtain ⟨c', run, on''⟩ := ih on' (k := k + 1) (parent ▸ dir) (by rw [parent]; omega) (by rw [parent]; exact absent)
        rw [state] at run on''
        exact ⟨c', by rw [state]; exact run, on''⟩

theorem ext4fsFilenameUnlink_absent {name : CStr} (dir : g.DirMap env.levels S K V fs.gParentInode)
    (absent : g.search env.levels V fs.gParentInode name = none) :
    ∃ c, ext4fsFilenameUnlink env name fs = some (minusOne, { fs with caches := c }) ∧
      Fs.On env g S V { fs with caches := c } := by
  rw [ext4fsFilenameUnlink, get_bind, directoryBlocks, on.root.blockSize]
  exact unlinkLoop_absent valid on dir (Nat.le_of_eq (Nat.zero_add _)) absent

end Search

end UuuFastboot.Ext4
