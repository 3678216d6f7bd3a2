import UuuFastboot.Ext4.DirSearch

namespace UuuFastboot.Ext4

open Word Overlay Bytes CString Partial

section Walks

variable (entry search : Nat → CStr → Option Nat) (mode : Nat → Option Nat)

def isDir (n : Nat) : Bool := (mode n).any (fun m => FileType.ofMode m = .directory)

/-- The directory that the last part of a path belongs to, and that part: each part in front of it names a directory
in the one before, and it names no directory itself. -/
def parentOf : List CStr → Nat → Option (Nat × CStr)
  | [], _ => none
  | [name], d => if (entry d name).any (isDir mode) then none else some (d, name)
  | name :: next :: rest, d => (entry d name).bind (fun n => if isDir mode n then parentOf (next :: rest) n else none)

/-- What `ext4fs_get_parent_inode_num` makes of the parts of a path, with `search` for `search_dir` and `mode` for the
mode of an inode that can be read; `none` for a run without a meaning. -/
def walkParts : List CStr → Nat → Option (Option (Nat × CStr))
  | [], _ => none
  | [name], d =>
    match search d name with
    | none => some (some (d, name))
    | some n => (mode n).map (fun m => if modeHasDirBit m then none else some (d, name))
  | name :: next :: rest, d =>
    match search d name with
    | none => some none
    | some n => if (mode n).isSome then walkParts (next :: rest) n else some none

/-- Behind an inode that is no directory the code goes on as if it were one, and comes to an end of the path. -/
def Leads : List CStr → Nat → Prop
  | [], _ => True
  | [name], n => ∀ k, search n name = some k → ∀ m, mode k = some m → modeHasDirBit m = false
  | name :: next :: rest, n => ∃ k, search n name = some k ∧ (mode k).isSome ∧ Leads (next :: rest) k

/-- The path has a part; no part in front of the last one names anything but a directory, or the code does not come to
the end of the path behind it; and the last part names no block device and no socket. -/
def Straight : List CStr → Nat → Prop
  | [], _ => False
  | [name], d => ∀ n, entry d name = some n → ∀ m, mode n = some m → modeHasDirBit m = true → isDir mode n = true
  | name :: next :: rest, d => ∀ n, entry d name = some n →
      if isDir mode n then Straight (next :: rest) n else ¬ Leads search mode (next :: rest) n

variable {entry search mode}

theorem modeHasDirBit_of_isDir {n m : Nat} (number : mode n = some m) (directory : isDir mode n = true) :
    modeHasDirBit m = true := by
  rw [isDir, number, Option.any_some, decide_eq_true_eq, FileType.ofMode] at directory
  split_ifs at directory with four
  rw [modeHasDirBit, hasBit, Nat.testBit_eq_decide_div_mod_eq]
  exact decide_eq_true (by omega)

theorem walkParts_eq_none_iff {names : List CStr} {n : Nat} (more : names ≠ []) :
    walkParts search mode names n = some none ↔ ¬ Leads search mode names n := by
  induction names generalizing n with
  | nil => exact absurd rfl more
  | cons name rest ih =>
    cases rest with
    | nil =>
      rw [walkParts, Leads]
      cases found : search n name with
      | none => simp
      | some k =>
        cases kind : mode k with
        | none => simp [kind]
        | some m => simp [kind]
    | cons next rest =>
      rw [walkParts, Leads]
      cases found : search n name with
      | none => simp
      | some k =>
        cases kind : mode k with
        | none => simp [kind]
        | some m => simp [kind, ih (List.cons_ne_nil next rest)]

/-- Where names in directories are found as their records have them, the walk goes right exactly on a straight path. -/
theorem walkParts_eq_iff {T : Nat → Prop} {names : List CStr} {d : Nat} (inside : T d) (dir : isDir mode d = true)
    (closed : ∀ d n name, T d → isDir mode d = true → entry d name = some n → T n ∧ (mode n).isSome = true)
    (same : ∀ d name, T d → isDir mode d = true → search d name = entry d name) :
    walkParts search mode names d = some (parentOf entry mode names d) ↔ Straight entry search mode names d := by
  induction names generalizing d with
  | nil => exact ⟨nofun, fun none => none.elim⟩
  | cons name rest ih =>
    have found := same d name inside dir
    cases rest with
    | nil =>
      rw [walkParts, found, parentOf, Straight]
      cases here : entry d name with
      | none => simp
      | some n =>
        obtain ⟨m, kind⟩ := Option.isSome_iff_exists.mp (closed d n name inside dir here).2
        by_cases bit : modeHasDirBit m = true
        · by_cases directory : isDir mode n = true
          · simp [kind, bit, directory]
          · simp [kind, bit, directory]
        · have other : isDir mode n = false := by
            rw [Bool.eq_false_iff]
            exact fun directory => bit (modeHasDirBit_of_isDir kind directory)
          simp [kind, bit, other]
    | cons next rest =>
      rw [walkParts, found, parentOf, Straight]
      cases here : entry d name with
      | none => simp
      | some n =>
        obtain ⟨inside', readable⟩ := closed d n name inside dir here
        by_cases directory : isDir mode n = true
        · simp only [readable, directory, if_true, Option.bind_some, Option.some.injEq, forall_eq', ih inside' directory]
        · simp only [readable, directory, if_true, Bool.false_eq_true, if_false, Option.bind_some, Option.some.injEq,
            forall_eq', walkParts_eq_none_iff (List.cons_ne_nil next rest)]

end Walks

def Fs.inodeOf (env : Env) (fs : Fs) (n : Nat) : Option Buf := ext4fsReadInode env fs.card fs.root n

theorem Fs.inodeOf_eq (env : Env) (fs : Fs) (n : Nat) : ext4fsReadInode env fs.card fs.root n = fs.inodeOf env n := rfl

def Fs.modeOf (env : Env) (fs : Fs) (n : Nat) : Option Nat := (fs.inodeOf env n).map Inode.mode

/-- The inode that a name stands for in the records of a directory. -/
def Fs.entryOf (env : Env) (g : Geometry) (fs : Fs) (rs : Nat → Nat → List Record) (d : Nat) (name : CStr) : Option Nat :=
  (fs.inodeOf env d).bind (fun inode => ((recordsOf g inode (rs d)).find? (Record.Names name)).map Record.inode)

def Fs.searchOf (env : Env) (fs : Fs) (B : Nat → Nat → Nat) (d : Nat) (name : CStr) : Option Nat :=
  (fs.inodeOf env d).bind (fun inode => fs.searchIn env inode (B d) name)

/-- The inodes that names can lead to: with the root, and with an inode all that the search in it gives, whether it is
a directory or not. The directories are well formed. -/
structure Tree (env : Env) (g : Geometry) (fs : Fs) (warm : Caches → Prop) (T : Nat → Prop) (B : Nat → Nat → Nat)
    (rs : Nat → Nat → List Record) : Prop where
  mapped : ∀ n inode, T n → fs.inodeOf env n = some inode → Mapped env fs.card fs.root warm inode (B n)
  closed : ∀ n k name, T n → fs.searchOf env B n name = some k → T k
  dir : ∀ n inode, T n → fs.inodeOf env n = some inode → isDir (fs.modeOf env) n = true →
    Dir env g fs.card fs.root warm inode (B n) (rs n) ∧
      ∀ r ∈ recordsOf g inode (rs n), r.inode < 2 ^ 31 ∧ (r.inode ≠ 0 → (fs.inodeOf env r.inode).isSome = true)
  top : T rootIno
  root : fs.inodeOf env rootIno = some fs.root.inode
  rootDir : isDir (fs.modeOf env) rootIno = true

theorem searchFrom_lt {read : Nat → Option Buf} {bs left k n : Nat} {B : Nat → Nat} {name : CStr}
    (found : searchFrom read bs B name left k = some n) : n < 2 ^ 31 := by
  induction left generalizing k with
  | zero => cases found
  | succ left ih =>
    rw [searchFrom] at found
    split_ifs at found
    split at found
    · cases found
    · next block _ =>
      cases entry : entryInode block (scanBlock block bs name bs 0 none) with
      | none =>
        rw [entry] at found
        exact ih found
      | some triple =>
        rw [entry] at found
        obtain ⟨⟨off, previous⟩, -, value⟩ := Option.bind_eq_some_iff.mp entry
        simp only [] at value
        split_ifs at value with negative
        cases value
        cases found
        exact Nat.lt_of_not_le (of_decide_eq_false (Bool.eq_false_iff.mpr negative))

section Code

variable {env : Env} {g : Geometry} {fs : Fs} {warm : Caches → Prop} {T : Nat → Prop} {B : Nat → Nat → Nat}
  {rs : Nat → Nat → List Record}

theorem Fs.searchOf_ne {d n : Nat} {name : CStr} (found : fs.searchOf env B d name = some n) : n ≠ minusOne := by
  obtain ⟨inode, -, found⟩ := Option.bind_eq_some_iff.mp found
  have small := searchFrom_lt found
  unfold minusOne
  omega

theorem Tree.parentLoop {names : List CStr} {first : Bool} {d : Nat} {inode : Buf} {c : Caches}
    (tree : Tree env g fs warm T B rs) (short : ∀ name ∈ names, name.length < 256) (inside : T d)
    (loaded : fs.inodeOf env d = some inode) (top : first = true → d = rootIno) (caches : warm c) :
    ∃ c', Ext4.parentLoop env names first inode d { fs with caches := c } =
      (walkParts (fs.searchOf env B) (fs.modeOf env) names d).map (fun r => (r, { fs with caches := c' })) ∧ warm c' := by
  induction names generalizing d inode c first with
  | nil => exact ⟨c, rfl, caches⟩
  | cons name rest ih =>
    have length := short name List.mem_cons_self
    have run (c : Caches) (caches : warm c) : ∃ c', searchDir env inode name { fs with caches := c } =
        some ((fs.searchOf env B d name).getD minusOne, { fs with caches := c' }) ∧ warm c' := by
      have mapped : Mapped env { fs with caches := c }.card { fs with caches := c }.root warm inode (B d) :=
        tree.mapped d inode inside loaded
      obtain ⟨c', run, caches'⟩ := searchDir_mapped mapped caches name
      have same : fs.searchOf env B d name = Fs.searchIn env { fs with caches := c } inode (B d) name := by
        rw [Fs.searchOf, loaded, Option.bind_some]
        rfl
      exact ⟨c', by rw [same]; exact run, caches'⟩
    obtain ⟨c₁, search, caches₁⟩ := run c caches
    rw [Ext4.parentLoop, bind_of_run search]
    cases rest with
    | cons next rest =>
      simp only [ne_eq, reduceCtorEq, not_false_eq_true, if_true]
      rw [walkParts]
      cases found : fs.searchOf env B d name with
      | none =>
        simp only [Option.getD_none, if_true]
        exact ⟨c₁, rfl, caches₁⟩
      | some n =>
        simp only [Option.getD_some, if_neg (Fs.searchOf_ne found), run_bind, ext4fsIget, reading, Option.bind_some,
          Fs.inodeOf_eq env fs]
        cases readable : fs.inodeOf env n with
        | none =>
          have mode : fs.modeOf env n = none := by rw [Fs.modeOf, readable, Option.map_none]
          rw [mode]
          exact ⟨c₁, rfl, caches₁⟩
        | some inode' =>
          have mode : (fs.modeOf env n).isSome = true := by rw [Fs.modeOf, readable]; rfl
          rw [if_pos mode]
          exact ih (fun part member => short part (List.mem_cons_of_mem name member)) (tree.closed d n name inside found)
            readable (fun none => absurd none Bool.false_ne_true) caches₁
    | nil =>
      have result : (if (fs.searchOf env B d name).getD minusOne = minusOne ∧ first = true then rootIno else d) = d := by
        split
        · next here => exact (top here.2).symm
        · rfl
      obtain ⟨c₂, again, caches₂⟩ := run c₁ caches₁
      simp only [ne_eq, not_true_eq_false, if_false, result]
      rw [bind_of_run again, walkParts]
      have long : ¬ 256 < name.length := by omega
      have exact_ : ¬ name.length = 256 := by omega
      cases found : fs.searchOf env B d name with
      | none =>
        simp only [Option.getD_none, if_true, run_bind, run_pure, Option.bind_some, Bool.false_eq_true, if_false,
          if_neg long, if_neg exact_]
        exact ⟨c₂, rfl, caches₂⟩
      | some n =>
        simp only [Option.getD_some, if_neg (Fs.searchOf_ne found), run_bind, ext4fsIget, reading, Option.bind_some,
          Fs.inodeOf_eq env fs]
        cases readable : fs.inodeOf env n with
        | none =>
          have mode : fs.modeOf env n = none := by rw [Fs.modeOf, readable, Option.map_none]
          rw [mode]
          exact ⟨c₂, rfl, caches₂⟩
        | some inode' =>
          have mode : fs.modeOf env n = some (Inode.mode inode') := by rw [Fs.modeOf, readable, Option.map_some]
          rw [mode]
          refine ⟨c₂, ?_, caches₂⟩
          simp only [run_bind, run_pure, Option.bind_some, Option.map_some, if_neg long, if_neg exact_]
          split <;> rfl

/-- In every tree and for every absolute path, `ext4fs_get_parent_inode_num` gives the directory of the last part of
the path, or fails where there is none, exactly if the path is straight. -/
theorem parentInodeNum_iff {path : CStr} (tree : Tree env g fs warm T B rs) (views : fs.Views env g) (caches : warm fs.caches)
    (absolute : path.head? = some 47) (short : ∀ name ∈ components path, name.length < 256) :
    (∃ fs', ext4fsGetParentInodeNum env path fs =
        some (parentOf (fs.entryOf env g rs) (fs.modeOf env) (components path) rootIno, fs')) ↔
      Straight (fs.entryOf env g rs) (fs.searchOf env B) (fs.modeOf env) (components path) rootIno := by
  have searched (d : Nat) (name : CStr) (inside : T d) (directory : isDir (fs.modeOf env) d = true) :
      fs.searchOf env B d name = fs.entryOf env g rs d name := by
    rw [Fs.searchOf, Fs.entryOf]
    cases loaded : fs.inodeOf env d with
    | none => rfl
    | some inode =>
      obtain ⟨dir, sound⟩ := tree.dir d inode inside loaded directory
      exact searchIn_dir views dir (fun r member => (sound r member).1)
  have closed (d n : Nat) (name : CStr) (inside : T d) (directory : isDir (fs.modeOf env) d = true)
      (found : fs.entryOf env g rs d name = some n) : T n ∧ (fs.modeOf env n).isSome = true := by
    refine ⟨tree.closed d n name inside (by rw [searched d name inside directory, found]), ?_⟩
    obtain ⟨inode, loaded, found⟩ := Option.bind_eq_some_iff.mp found
    obtain ⟨r, first, rfl⟩ := Option.map_eq_some_iff.mp found
    have names := List.find?_some first
    rw [decide_eq_true_eq] at names
    have readable := ((tree.dir d inode inside loaded directory).2 r (List.mem_of_find?_eq_some first)).2 names.1
    rwa [Fs.modeOf, Option.isSome_map]
  obtain ⟨c', run, -⟩ := tree.parentLoop short tree.top tree.root (fun _ => rfl) caches
  rw [← walkParts_eq_iff tree.top tree.rootDir closed searched, ext4fsGetParentInodeNum, if_neg (not_not.mpr absolute),
    get_bind]
  have start : parentLoop env (components path) true fs.root.inode rootIno fs =
      (walkParts (fs.searchOf env B) (fs.modeOf env) (components path) rootIno).map
        (fun r => (r, { fs with caches := c' })) := run
  rw [start]
  constructor
  · rintro ⟨fs', same⟩
    obtain ⟨r, value, pair⟩ := Option.map_eq_some_iff.mp same
    cases pair
    exact value
  · intro value
    rw [value]
    exact ⟨_, rfl⟩

end Code

def treeFs : Fs :=
  { sampleFs with
    root := { sampleFs.root with inode := (ext4fsReadInode sampleEnv sampleFs.card sampleFs.root rootIno).getD zeros } }

def treeMap (n k : Nat) : Nat := getLe32 ((treeFs.inodeOf sampleEnv n).getD zeros) (Inode.dirBlocks + 4 * k)

def treeRecords (_ _ : Nat) : List Record := [⟨2, 12, [46], 2⟩, ⟨2, 12, [46, 46], 2⟩, ⟨12, 1000, [102], 1⟩]

theorem treeFs_views : treeFs.Views sampleEnv sampleGeometry := ⟨by decide +kernel, rfl, by decide +kernel⟩

theorem treeFs_tree : Tree sampleEnv sampleGeometry treeFs (fun _ => True) (fun n => n = 2 ∨ n = 12) treeMap treeRecords := by
  have plain : ∀ n ∈ [2, 12], (treeFs.inodeOf sampleEnv n).all (fun inode => Inode.usesExtents inode = false ∧
      Inode.size inode / treeFs.root.blockSize ≤ indirectBlocks) = true := by decide +kernel
  have blocks : (treeFs.inodeOf sampleEnv 2).all (fun inode => Inode.size inode = 1024 ∧ getLe32 inode 40 = 7) = true := by
    decide +kernel
  have mapped (n : Nat) (inode : Buf) (here : n = 2 ∨ n = 12) (loaded : treeFs.inodeOf sampleEnv n = some inode) :
      Mapped sampleEnv treeFs.card treeFs.root (fun _ => True) inode (treeMap n) := by
    have all := plain n (by rcases here with rfl | rfl <;> decide)
    rw [loaded, Option.all_some, decide_eq_true_eq] at all
    have map : treeMap n = fun k => getLe32 inode (Inode.dirBlocks + 4 * k) := by
      funext k
      rw [treeMap, loaded, Option.getD_some]
    rw [map]
    exact mapped_direct all.1 all.2 _
  have root (inode : Buf) (loaded : treeFs.inodeOf sampleEnv 2 = some inode) :
      Dir sampleEnv sampleGeometry treeFs.card treeFs.root (fun _ => True) inode (treeMap 2) (treeRecords 2) := by
    rw [loaded, Option.all_some, decide_eq_true_eq] at blocks
    obtain ⟨size, first⟩ := blocks
    have number : treeMap 2 0 = 7 := by rw [treeMap, loaded, Option.getD_some]; exact first
    have one (k : Nat) (below : k < Inode.size inode / sampleGeometry.bs) : k = 0 := by
      rw [size] at below
      exact Nat.lt_one_iff.mp below
    refine ⟨⟨by decide, by decide, by decide, by decide⟩, by decide +kernel, by decide, mapped 2 inode (.inl rfl) loaded,
      by rw [size]; rfl, fun k below => ?_, fun k below => ?_⟩
    · rw [one k below, number]
      decide
    · rw [one k below, number]
      decide +kernel
  have small : (treeFs.inodeOf sampleEnv 12).all (fun inode => directoryBlocks treeFs.root inode = 0) = true := by
    decide +kernel
  have listed {inode : Buf} (r : Record) (member : r ∈ recordsOf sampleGeometry inode (treeRecords 2)) :
      r.inode = 2 ∨ r.inode = 12 := by
    obtain ⟨k, -, member⟩ := mem_recordsOf.mp member
    have all : ∀ r ∈ treeRecords 2 k, r.inode = 2 ∨ r.inode = 12 := by
      unfold treeRecords
      decide
    exact all r member
  have words (n : Nat) (here : n = 2 ∨ n = 12) : n < 2 ^ 31 ∧ (treeFs.inodeOf sampleEnv n).isSome = true := by
    rcases here with rfl | rfl <;> decide +kernel
  refine ⟨mapped, fun n k name here found => ?_, fun n inode here loaded directory => ?_, .inl rfl, ?_, by decide +kernel⟩
  · obtain ⟨inode, loaded, found⟩ := Option.bind_eq_some_iff.mp found
    rcases here with rfl | rfl
    · rw [searchIn_dir treeFs_views (root inode loaded) (fun r member => (words _ (listed r member)).1)] at found
      obtain ⟨r, first, rfl⟩ := Option.map_eq_some_iff.mp found
      exact listed r (List.mem_of_find?_eq_some first)
    · rw [loaded, Option.all_some, decide_eq_true_eq] at small
      rw [Fs.searchIn, small] at found
      cases found
  · rcases here with rfl | rfl
    · refine ⟨root inode loaded, fun r member => ?_⟩
      have fine := words _ (listed r member)
      exact ⟨fine.1, fun _ => fine.2⟩
    · have other : isDir (treeFs.modeOf sampleEnv) 12 = false := by decide +kernel
      rw [other] at directory
      cases directory
  · obtain ⟨inode, loaded⟩ := Option.isSome_iff_exists.mp (words 2 (.inl rfl)).2
    have same : treeFs.root.inode = (treeFs.inodeOf sampleEnv 2).getD zeros := rfl
    rw [same, loaded]
    exact loaded

/-- The file `/f`. -/
theorem treeFs_file : ∃ fs', ext4fsGetParentInodeNum sampleEnv (cstr "/f") treeFs = some (some (rootIno, cstr "f"), fs') := by
  have parts : components (cstr "/f") = [cstr "f"] := by decide
  have value : parentOf (treeFs.entryOf sampleEnv sampleGeometry treeRecords) (treeFs.modeOf sampleEnv)
      (components (cstr "/f")) rootIno = some (rootIno, cstr "f") := by decide +kernel
  have right := (parentInodeNum_iff treeFs_tree treeFs_views trivial (show (cstr "/f").head? = some 47 by decide)
    (by decide)).mpr (by
      rw [parts]
      intro n found m mode bit
      have number : treeFs.entryOf sampleEnv sampleGeometry treeRecords rootIno (cstr "f") = some 12 := by decide +kernel
      rw [number] at found
      cases found
      have none : (treeFs.modeOf sampleEnv 12).all (fun m => modeHasDirBit m = false) = true := by decide +kernel
      rw [mode, Option.all_some, decide_eq_true_eq] at none
      rw [none] at bit
      cases bit)
  rwa [value] at right

/-- The file is taken for the directory of `/f/x`, and the path `/` leads to a null pointer. -/
theorem treeFs_file_as_directory :
    Tree sampleEnv sampleGeometry treeFs (fun _ => True) (fun n => n = 2 ∨ n = 12) treeMap treeRecords ∧
      parentOf (treeFs.entryOf sampleEnv sampleGeometry treeRecords) (treeFs.modeOf sampleEnv)
        (components (cstr "/f/x")) rootIno = none ∧
      (ext4fsGetParentInodeNum sampleEnv (cstr "/f/x") treeFs).map Prod.fst = some (some (12, cstr "x")) ∧
      (ext4fsGetParentInodeNum sampleEnv (cstr "/") treeFs).map Prod.fst = none :=
  ⟨treeFs_tree, by decide +kernel, by decide +kernel, by decide +kernel⟩

end UuuFastboot.Ext4
