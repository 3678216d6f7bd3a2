import UuuFastboot.Ext4.Records
import UuuFastboot.Ext4.ReadFile
import UuuFastboot.Ext4.WriteSpec
import UuuFastboot.Lib.Partial
import Mathlib.Data.List.TakeWhile

namespace UuuFastboot.Ext4

open Word Overlay Bytes CString Partial

/-- The lookup of the blocks of an inode gives `B`, whatever the buffers of the lookup hold of what `warm` allows. -/
def Mapped (env : Env) (card : Buf) (root : Root) (warm : Caches → Prop) (inode : Buf) (B : Nat → Nat) : Prop :=
  ∀ c, warm c → ∀ k < Inode.size inode / root.blockSize, ∃ cache c',
    readAllocatedBlock env card root inode k none c = some (B k, cache, c') ∧ warm c'

theorem mapped_direct {env : Env} {card : Buf} {root : Root} {inode : Buf} (plain : Inode.usesExtents inode = false)
    (few : Inode.size inode / root.blockSize ≤ indirectBlocks) (warm : Caches → Prop) :
    Mapped env card root warm inode (fun k => getLe32 inode (Inode.dirBlocks + 4 * k)) := by
  intro c caches k below
  have small : k < indirectBlocks := Nat.lt_of_lt_of_le below few
  have word : w32 (Inode.dirBlocks + 4 * k) = Inode.dirBlocks + 4 * k := by
    unfold Inode.dirBlocks indirectBlocks at *
    exact w32_of_lt (by omega)
  refine ⟨none, c, ?_, caches⟩
  rw [readAllocatedBlock, if_neg (by rw [plain]; exact Bool.false_ne_true), if_pos (by simp [small]), word]

/-- A directory with its blocks `B`, which are filled by the records `rs`. -/
structure Dir (env : Env) (g : Geometry) (card : Buf) (root : Root) (warm : Caches → Prop) (inode : Buf) (B : Nat → Nat)
    (rs : Nat → List Record) : Prop where
  fits : g.Fits env
  log2 : root.log2BlockSize = g.log2bs
  limit : g.log2bs ≤ 16
  mapped : Mapped env card root warm inode B
  whole : Inode.size inode % g.bs = 0
  block : ∀ k < Inode.size inode / g.bs, B k ≠ 0 ∧ B k < g.totalBlocks
  tiles : ∀ k < Inode.size inode / g.bs, Tiles (g.blk (env.volume card) (B k)) 0 (rs k) g.bs

/-- A live record has a name, which is a C string, and the number of an inode that can be read. -/
structure Record.Sound (env : Env) (card : Buf) (root : Root) (r : Record) : Prop where
  named : r.inode ≠ 0 → r.name ≠ []
  text : r.inode ≠ 0 → 0 ∉ r.name
  number : r.inode < 2 ^ 31
  readable : r.inode ≠ 0 → (ext4fsReadInode env card root r.inode).isSome = true

structure Fs.Views (env : Env) (g : Geometry) (fs : Fs) : Prop where
  log2 : fs.root.log2BlockSize = g.log2bs
  blksz : fs.blksz = g.bs
  sectPerblk : fs.sectPerblk = 2 ^ log2FsBlocksize env fs.root

theorem Fs.Views.readBlock {env : Env} {g : Geometry} {fs : Fs} (views : fs.Views env g) (fits : g.Fits env) {b : Nat}
    (below : b < g.totalBlocks) : fs.readBlock env b = some (clip g.bs (g.blk (env.volume fs.card) b)) := by
  have sector : fs.sector b = blockSector env fs.root b := by rw [Fs.sector, views.sectPerblk, blockSector]
  rw [Fs.readBlock, sector, views.blksz, fsDevread_whole fits views.log2 fs.card below]

/-- The search of `search_dir` in the blocks from `k` on. -/
def searchFrom (read : Nat → Option Buf) (bs : Nat) (B : Nat → Nat) (name : CStr) : Nat → Nat → Option Nat
  | 0, _ => none
  | left + 1, k =>
    if B k = 0 ∨ isNeg (B k) then none
    else
      match read (B k) with
      | none => none
      | some block =>
        match entryInode block (scanBlock block bs name bs 0 none) with
        | some (ino, _) => some ino
        | none => searchFrom read bs B name left (k + 1)

/-- The inode that `search_dir` finds for a name. -/
def Fs.searchIn (env : Env) (fs : Fs) (inode : Buf) (B : Nat → Nat) (name : CStr) : Option Nat :=
  searchFrom (fs.readBlock env) fs.blksz B name (directoryBlocks fs.root inode) 0

section Search

variable {env : Env} {warm : Caches → Prop} {inode : Buf} {B : Nat → Nat} {fs : Fs} {name : CStr}

theorem searchDirLoop_mapped (name : CStr) {left k : Nat} (mapped : Mapped env fs.card fs.root warm inode B) (caches : warm fs.caches)
    (bound : k + left ≤ Inode.size inode / fs.root.blockSize) :
    ∃ c, searchDirLoop env inode name left k fs =
        some ((searchFrom (fs.readBlock env) fs.blksz B name left k).getD minusOne, { fs with caches := c }) ∧ warm c := by
  induction left generalizing k fs with
  | zero => exact ⟨fs.caches, rfl, caches⟩
  | succ left ih =>
    obtain ⟨cache, c, lookup, caches'⟩ := mapped fs.caches caches k (by omega)
    obtain ⟨fs₁, state⟩ : ∃ fs₁ : Fs, fs₁ = { fs with caches := c } := ⟨_, rfl⟩
    have found : allocatedBlock env inode k fs = some (B k, fs₁) := by rw [allocatedBlock, lookup, state]; rfl
    have read : fs₁.readBlock env = fs.readBlock env := by rw [state]; rfl
    have size : fs₁.blksz = fs.blksz := by rw [state]
    have further : ∃ c', searchDirLoop env inode name left (k + 1) fs₁ =
        some ((searchFrom (fs.readBlock env) fs.blksz B name left (k + 1)).getD minusOne, { fs with caches := c' }) ∧
          warm c' := by
      have mapped₁ : Mapped env fs₁.card fs₁.root warm inode B := by rw [state]; exact mapped
      obtain ⟨c', run, caches''⟩ := ih (k := k + 1) mapped₁ (by rw [state]; exact caches')
        (by rw [state]; show k + 1 + left ≤ Inode.size inode / fs.root.blockSize; omega)
      rw [read, size] at run
      rw [state] at run
      exact ⟨c', by rw [state]; exact run, caches''⟩
    rw [searchDirLoop, bind_of_run found, searchFrom]
    simp only [run_ite]
    split
    · exact ⟨c, by rw [state]; rfl, caches'⟩
    · rw [run_bind, Ext4.readBlock, reading, Option.bind_some, read]
      cases fs.readBlock env (B k) with
      | none => exact ⟨c, by rw [state]; rfl, caches'⟩
      | some block =>
        simp only [get_bind, size]
        cases entryInode block (scanBlock block fs.blksz name fs.blksz 0 none) with
        | some entry => exact ⟨c, by rw [state]; rfl, caches'⟩
        | none => exact further

theorem searchDir_mapped (mapped : Mapped env fs.card fs.root warm inode B) (caches : warm fs.caches) (name : CStr) :
    ∃ c, searchDir env inode name fs = some ((fs.searchIn env inode B name).getD minusOne, { fs with caches := c }) ∧
      warm c := by
  obtain ⟨c, run, caches'⟩ := searchDirLoop_mapped name mapped caches (Nat.le_of_eq (Nat.zero_add _))
  exact ⟨c, by rw [searchDir, get_bind]; exact run, caches'⟩

theorem scan_cases (name : CStr) {block : Buf} {bs : Nat} {records : List Record} (tiles : Tiles block 0 records bs)
    (positive : 0 < bs) :
    (∃ pre r post, records = pre ++ r :: post ∧ r.Names name ∧ r.inode < 2 ^ 31 ∧ (∀ p ∈ pre, ¬ p.Names name) ∧
        entryInode block (scanBlock block bs name bs 0 none) =
          some (r.inode, span pre, pre.getLast?.map (fun p => span pre - p.len))) ∨
      (∀ r ∈ records, r.Names name → ∃ q ∈ records, q.Names name ∧ 2 ^ 31 ≤ q.inode) ∧
        entryInode block (scanBlock block bs name bs 0 none) = none := by
  have count := tiles.length_le
  rw [show sizeofDirent = 8 from rfl] at count
  rw [scanBlock_tiles tiles (tiles.ne_nil positive) rfl (by omega)]
  by_cases there : ∃ r ∈ records, r.Names name
  · obtain ⟨pre, r, post, rfl, here, before⟩ := exists_first there
    have place : recordAt block (0 + span pre) = r := ((tiles_append.mp tiles).2).1
    have number : Dirent.inode block (span pre) = r.inode := by
      rw [← place, Nat.zero_add]
      rfl
    rw [scanRecords_some before here, entryInode, Option.bind_some]
    by_cases large : 2 ^ 31 ≤ r.inode
    · refine .inr ⟨fun _ _ _ => ⟨r, List.mem_append_right pre List.mem_cons_self, here, large⟩, ?_⟩
      have word : isNeg r.inode = true := decide_eq_true large
      simp only [number, word, if_true, Nat.zero_add]
    · refine .inl ⟨pre, r, post, rfl, here, Nat.lt_of_not_le large, before, ?_⟩
      have word : isNeg r.inode = false := decide_eq_false large
      simp only [number, word, Bool.false_eq_true, if_false, Nat.zero_add, Option.or_none]
  · have absent : ∀ r ∈ records, ¬ r.Names name := fun r member names => there ⟨r, member, names⟩
    exact .inr ⟨fun r member names => absurd names (absent r member), by rw [scanRecords_none absent]; rfl⟩

theorem entryInode_tiles (name : CStr) {block : Buf} {bs : Nat} {rs : List Record} (tiles : Tiles block 0 rs bs) (positive : 0 < bs)
    (small : ∀ r ∈ rs, r.inode < 2 ^ 31) :
    (entryInode block (scanBlock block bs name bs 0 none)).map Prod.fst = (rs.find? (Record.Names name)).map Record.inode := by
  rcases scan_cases name tiles positive with ⟨pre, r, post, split, here, -, before, found⟩ | ⟨hidden, failed⟩
  · have first : rs.find? (Record.Names name) = some r :=
      List.find?_eq_some_iff_append.mpr ⟨decide_eq_true here, pre, post, split,
        fun p member => by rw [decide_eq_false (before p member)]; rfl⟩
    rw [found, first]
    rfl
  · have missing : rs.find? (Record.Names name) = none :=
      List.find?_eq_none.mpr (fun r member names => by
        obtain ⟨q, inside, -, large⟩ := hidden r member (of_decide_eq_true names)
        exact absurd (small q inside) (Nat.not_lt.mpr large))
    rw [failed, missing]
    rfl

end Search

section Directory

variable {env : Env} {g : Geometry} {card : Buf} {root : Root} {warm : Caches → Prop} {inode : Buf} {B : Nat → Nat}
  {rs : Nat → List Record} {fs : Fs} {name : CStr}

def recordsOf (g : Geometry) (inode : Buf) (rs : Nat → List Record) : List Record :=
  (List.range (Inode.size inode / g.bs)).flatMap rs

theorem mem_recordsOf {r : Record} : r ∈ recordsOf g inode rs ↔ ∃ k < Inode.size inode / g.bs, r ∈ rs k := by
  rw [recordsOf, List.mem_flatMap]
  exact exists_congr (fun k => and_congr_left' List.mem_range)

theorem searchFrom_dir (views : fs.Views env g) (dir : Dir env g fs.card fs.root warm inode B rs)
    (small : ∀ r ∈ recordsOf g inode rs, r.inode < 2 ^ 31) {left k : Nat} (bound : k + left ≤ Inode.size inode / g.bs) :
    searchFrom (fs.readBlock env) fs.blksz B name left k =
      (((List.range' k left).flatMap rs).find? (Record.Names name)).map Record.inode := by
  induction left generalizing k with
  | zero => rfl
  | succ left ih =>
    obtain ⟨there, below⟩ := dir.block k (by omega)
    have total := dir.fits.total_lt
    have positive : isNeg (B k) = false := decide_eq_false (by omega)
    have tiles : Tiles (clip g.bs (g.blk (env.volume fs.card) (B k))) 0 (rs k) g.bs :=
      (dir.tiles k (by omega)).congr (fun i _ upper => clip_of_lt upper)
    have here := entryInode_tiles name tiles Geometry.bs_pos
      (fun r member => small r (mem_recordsOf.mpr ⟨k, by omega, member⟩))
    rw [searchFrom, if_neg (fun none => none.elim there (by rw [positive]; exact Bool.false_ne_true)),
      views.readBlock dir.fits below, List.range'_succ, List.flatMap_cons, List.find?_append, Option.map_or, ← here, views.blksz]
    cases entry : entryInode (clip g.bs (g.blk (env.volume fs.card) (B k)))
      (scanBlock (clip g.bs (g.blk (env.volume fs.card) (B k))) g.bs name g.bs 0 none) with
    | some found => simp only [entry, Option.map_some, Option.some_or]
    | none =>
      simp only [entry, Option.map_none, Option.none_or]
      rw [← views.blksz]
      exact ih (k := k + 1) (by omega)

theorem searchIn_dir (views : fs.Views env g) (dir : Dir env g fs.card fs.root warm inode B rs)
    (small : ∀ r ∈ recordsOf g inode rs, r.inode < 2 ^ 31) :
    fs.searchIn env inode B name = ((recordsOf g inode rs).find? (Record.Names name)).map Record.inode := by
  rw [Fs.searchIn, directoryBlocks, blockSize_of_log2 dir.log2,
    searchFrom_dir views dir small (Nat.le_of_eq (Nat.zero_add _)), recordsOf, List.range_eq_range']

def Record.text (r : Record) : CStr := r.name.takeWhile (· ≠ 0)

theorem textAt_eq (b : Buf) (off n : Nat) : textAt b off n = (bytesAt b off n).takeWhile (· ≠ 0) := by
  induction n generalizing off with
  | zero => rfl
  | succ n ih =>
    rw [textAt, bytesAt, List.takeWhile_cons, ih]
    by_cases zero : b off = 0
    · rw [if_pos zero, if_neg (by simp [zero])]
    · rw [if_neg zero, if_pos (by simp [zero])]

/-- What `ext4fs_iterate_dir` finds in records: it passes over records without a name only, and it ends at a record
that leaves the type open and whose inode can not be read. -/
def iterateRecords (readable : Nat → Bool) (name : CStr) : List Record → Option Nat
  | [] => none
  | r :: rs =>
    if r.name = [] then iterateRecords readable name rs
    else if r.type = 0 ∧ readable r.inode = false then none
    else if r.text = name then some r.inode
    else iterateRecords readable name rs

variable (dir : Dir env g card root warm inode B rs)
include dir

theorem Dir.bs_le : g.bs ≤ 2 ^ 16 := Nat.pow_le_pow_right (by decide) dir.limit

theorem Dir.readPart (off len : Nat) {c : Caches} {k : Nat} (caches : warm c) (more : 0 < len)
    (below : k < Inode.size inode / g.bs) (inside : off + len ≤ g.bs) :
    ∃ c', ext4fsReadFile env card root inode (k * g.bs + off) len zeros c =
        some (some (overlay zeros 0 len (tail (g.blk (env.volume card) (B k)) off), len), c') ∧ warm c' := by
  have positive := Geometry.bs_pos (g := g)
  have limit := dir.bs_le
  have last : (k + 1) * g.bs ≤ Inode.size inode := (Nat.mul_le_mul_right _ below).trans (Nat.div_mul_le_self _ _)
  have word : Inode.size inode < 2 ^ 32 := getLe32_lt _ _
  rw [Nat.succ_mul] at last
  have block : (k * g.bs + off) / g.bs = k := Geometry.block_of_lt (by omega)
  have rest : (k * g.bs + off) % g.bs = off := by rw [Nat.mul_add_mod_self_right, Nat.mod_eq_of_lt (by omega)]
  have all : readLength inode (k * g.bs + off) len = len := by unfold readLength; omega
  have count : (len + (k * g.bs + off) + g.bs - 1) / g.bs - (k * g.bs + off) / g.bs = 1 := by
    rw [block, show len + (k * g.bs + off) + g.bs - 1 = (k + 1) * g.bs + (off + len - 1) by rw [Nat.succ_mul]; omega,
      Geometry.block_of_lt (by omega)]
    omega
  obtain ⟨cache, c', lookup, caches'⟩ := dir.mapped c caches k (by rwa [blockSize_of_log2 dir.log2])
  have call : ReadCall g (readAllocatedBlock env card root inode) inode B (k * g.bs + off) len c c' := by
    refine ⟨by omega, by rw [rest, all]; omega, fun i after before => ?_, ?_⟩
    · rw [block] at after
      rw [all] at before
      have only : i = k := by
        by_contra other
        have next := Nat.mul_le_mul_right g.bs (show k + 1 ≤ i by omega)
        rw [Nat.succ_mul] at next
        omega
      rw [only]
      exact (dir.block k below).2
    · rw [all, count, block]
      exact ⟨cache, c', lookup, rfl⟩
  have straight : ¬ g.Slips env B (k * g.bs + off) (readLength inode (k * g.bs + off) len) := by
    intro slips
    have further := slips.further
    rw [block, all, Nat.succ_mul] at further
    omega
  obtain ⟨result, c'', run, outcome⟩ := call.result dir.fits dir.log2 (by rw [all]; exact more)
    (fsDevread_honest dir.fits dir.log2 card) (fun _ => trivial) (fun _ _ => trivial) zeros
  rw [Geometry.readFrom_of_not_slips straight, all] at outcome
  rw [all] at run
  have there (t : Nat) (small : t < len) : (k * g.bs + off + t) / g.bs = k := by
    rw [Nat.add_assoc]
    exact Geometry.block_of_lt (by omega)
  have readable : g.AllReadable env root (fsDevread env card) B (k * g.bs + off) len := by
    refine ⟨fun below more inside => fsDevread_isSome dir.fits dir.log2 card below more inside, fun t small _ => ?_⟩
    have next := Nat.mul_le_mul_right g.bs (dir.block k below).2
    have volume := dir.fits.inside
    rw [Nat.succ_mul] at next
    rw [Nat.add_assoc, Geometry.place_of_lt (by omega)]
    omega
  rcases outcome with ⟨-, unreadable⟩ | ⟨rfl, rfl, -⟩
  · exact absurd readable unreadable
  · refine ⟨c'', ?_, caches'⟩
    have bytes : overlay zeros 0 len (tail (g.fileBytes (env.volume card) B) (k * g.bs + off)) =
        overlay zeros 0 len (tail (g.blk (env.volume card) (B k)) off) := by
      refine overlay_congr (fun t small => ?_)
      rw [tail_apply, tail_apply, Geometry.fileBytes, there t small, if_neg (dir.block k below).1, Nat.add_assoc,
        Geometry.place_of_lt (by omega)]
      rfl
    rw [← bytes]
    exact run

theorem Dir.iterate_round (name : CStr) (rounds : Nat) {c : Caches} {k off : Nat} {r : Record} {ss : List Record} (caches : warm c)
    (below : k < Inode.size inode / g.bs)
    (tiles : Tiles (g.blk (env.volume card) (B k)) off (r :: ss) g.bs) :
    ∃ c', warm c' ∧
      (iterateLoop env card root inode name (rounds + 1) (k * g.bs + off) c).map (fun found => found.1.map (·.1.ino)) =
        if r.name = [] then
          (iterateLoop env card root inode name rounds (k * g.bs + (off + r.len)) c').map (fun found => found.1.map (·.1.ino))
        else if r.type = 0 ∧ (ext4fsReadInode env card root r.inode).isSome = false then some none
        else if r.text = name then some (some r.inode)
        else (iterateLoop env card root inode name rounds (k * g.bs + (off + r.len)) c').map
          (fun found => found.1.map (·.1.ino)) := by
  obtain ⟨here, fits, rest⟩ := tiles
  have ends := rest.last_eq
  have long := fits.2
  have size : sizeofDirent = 8 := rfl
  have last : (k + 1) * g.bs ≤ Inode.size inode := (Nat.mul_le_mul_right _ below).trans (Nat.div_mul_le_self _ _)
  have word : Inode.size inode < 2 ^ 32 := getLe32_lt _ _
  rw [Nat.succ_mul] at last
  obtain ⟨c₁, header, caches₁⟩ := dir.readPart off sizeofDirent caches (by decide) below (by omega)
  obtain ⟨blk, contents⟩ : ∃ blk, blk = g.blk (env.volume card) (B k) := ⟨_, rfl⟩
  obtain ⟨dirent, copy⟩ : ∃ dirent, dirent = overlay zeros 0 sizeofDirent (tail blk off) := ⟨_, rfl⟩
  rw [← contents] at header here
  rw [← copy] at header
  have bytes : ∀ i < sizeofDirent, dirent i = blk (off + i) := fun i small => by
    rw [copy, overlay_of_mem (Nat.zero_le i) (by omega)]
    rfl
  have number : Dirent.inode dirent 0 = r.inode := by
    rw [← here]
    exact getLe32_congr (fun i small => by rw [Nat.zero_add]; exact bytes i (by omega))
  have len : Dirent.direntlen dirent 0 = r.len := by
    rw [← here]
    exact getLe16_congr (fun i small => by rw [Nat.zero_add, Nat.add_assoc]; exact bytes (4 + i) (by omega))
  have namelen : Dirent.namelen dirent 0 = r.name.length := by
    rw [← here, recordAt, length_bytesAt]
    exact congrArg UInt8.toNat (bytes 6 (by omega))
  have type : Dirent.filetype dirent 0 = r.type := by
    rw [← here]
    exact congrArg UInt8.toNat (bytes 7 (by omega))
  have next : w32 (k * g.bs + off + r.len) = k * g.bs + (off + r.len) := by
    rw [Nat.add_assoc]
    exact w32_of_lt (by omega)
  rw [iterateLoop, if_neg (by omega), header]
  simp only [len, namelen, next]
  rw [if_neg (by omega : ¬ r.len = 0)]
  by_cases empty : r.name = []
  · rw [if_pos (by rw [empty]; rfl)]
    exact ⟨c₁, caches₁, (if_pos empty).symm⟩
  · have some : 0 < r.name.length := List.length_pos_iff.mpr empty
    obtain ⟨c₂, text, caches₂⟩ := dir.readPart (off + sizeofDirent) r.name.length caches₁ some below (by omega)
    rw [← Nat.add_assoc, ← contents] at text
    have filename : textAt (overlay zeros 0 r.name.length (tail blk (off + sizeofDirent))) 0 r.name.length = r.text := by
      have whole : r.name.length = Dirent.namelen blk off := by rw [← here, recordAt, length_bytesAt]
      have name : bytesAt blk (off + sizeofDirent) r.name.length = r.name := by
        rw [whole, ← here]
        rfl
      rw [textAt_eq, Record.text]
      refine congrArg (List.takeWhile _) (Eq.trans (bytesAt_congr (fun i small => ?_)) name)
      rw [Nat.zero_add, overlay_of_mem (Nat.zero_le i) (by omega)]
      rfl
    refine ⟨c₂, caches₂, ?_⟩
    rw [if_neg (Nat.ne_of_gt some), if_neg empty, text]
    simp only [filename, entryNode, number, type]
    by_cases open_ : r.type = 0
    · cases read : ext4fsReadInode env card root r.inode with
      | none => simp [open_]
      | some found =>
        by_cases same : r.text = name
        · simp [open_, same]
        · simp [open_, same]
    · by_cases same : r.text = name
      · simp [open_, same]
      · simp [open_, same]

structure Dir.Rest (g : Geometry) (V inode : Buf) (B : Nat → Nat) (rs : Nat → List Record) (fpos : Nat) (all : List Record)
    (k off : Nat) (ss : List Record) (left : Nat) : Prop where
  below : k < Inode.size inode / g.bs
  count : k + 1 + left = Inode.size inode / g.bs
  fpos_eq : fpos = k * g.bs + off
  tiles : Tiles (g.blk V (B k)) off ss g.bs
  all_eq : all = ss ++ (List.range' (k + 1) left).flatMap rs

theorem Dir.Rest.next_block {fpos k off left : Nat} {all : List Record}
    (rest : Dir.Rest g (env.volume card) inode B rs fpos all k off [] (left + 1)) :
    Dir.Rest g (env.volume card) inode B rs fpos all (k + 1) 0 (rs (k + 1)) left := by
  obtain ⟨below, count, place, tiles, all_eq⟩ := rest
  have ends : off = g.bs := tiles
  refine ⟨by omega, by omega, by rw [place, ends, Nat.succ_mul, Nat.add_zero], dir.tiles (k + 1) (by omega), ?_⟩
  rw [all_eq, List.nil_append, List.range'_succ, List.flatMap_cons]

theorem Dir.iterate_run {c : Caches} {fpos rounds k off left : Nat} {all ss : List Record} (caches : warm c)
    (enough : Inode.size inode ≤ fpos + rounds)
    (rest : Dir.Rest g (env.volume card) inode B rs fpos all k off ss left) :
    (iterateLoop env card root inode name rounds fpos c).map (fun found => found.1.map (·.1.ino)) =
      some (iterateRecords (fun ino => (ext4fsReadInode env card root ino).isSome) name all) := by
  have whole : Inode.size inode / g.bs * g.bs = Inode.size inode := Nat.div_mul_cancel (Nat.dvd_of_mod_eq_zero dir.whole)
  induction rounds generalizing c fpos k off left all ss with
  | zero =>
    -- no rounds are left at the end of the last block only
    obtain ⟨below, count, place, tiles, rfl⟩ := rest
    have ends := tiles.last_eq
    have last := Nat.mul_le_mul_right g.bs below
    rw [Nat.succ_mul, whole] at last
    obtain rfl : ss = [] := by
      by_contra more
      obtain ⟨r, ss', rfl⟩ := List.exists_cons_of_ne_nil more
      have := tiles.2.1.2
      rw [show sizeofDirent = 8 from rfl] at this
      rw [span_cons] at ends
      omega
    obtain rfl : left = 0 := by
      by_contra more
      have next := Nat.mul_le_mul_right g.bs (show k + 2 ≤ Inode.size inode / g.bs by omega)
      have positive := Geometry.bs_pos (g := g)
      rw [whole, Nat.succ_mul, Nat.succ_mul] at next
      rw [span_nil] at ends
      omega
    rfl
  | succ rounds ih =>
    have step {k off left : Nat} {r : Record} {ss : List Record}
        (rest : Dir.Rest g (env.volume card) inode B rs fpos all k off (r :: ss) left) :
        (iterateLoop env card root inode name (rounds + 1) fpos c).map (fun found => found.1.map (·.1.ino)) =
          some (iterateRecords (fun ino => (ext4fsReadInode env card root ino).isSome) name all) := by
      obtain ⟨below, count, place, tiles, rfl⟩ := rest
      obtain ⟨c', caches', round⟩ := dir.iterate_round name rounds caches below tiles
      have long := tiles.2.1.2
      rw [show sizeofDirent = 8 from rfl] at long
      have later : Dir.Rest g (env.volume card) inode B rs (k * g.bs + (off + r.len)) _ k (off + r.len) ss left :=
        ⟨below, count, rfl, tiles.2.2, rfl⟩
      have further := ih caches' (by omega) later
      rw [place, round, further, List.cons_append, iterateRecords]
      split_ifs <;> rfl
    cases ss with
    | cons r ss => exact step rest
    | nil =>
      cases left with
      | succ left =>
        have next := rest.next_block dir
        cases records : rs (k + 1) with
        | cons r ss =>
          rw [records] at next
          exact step next
        | nil =>
          have none := next.tiles
          rw [records] at none
          exact absurd none Geometry.bs_pos.ne
      | zero =>
        obtain ⟨below, count, place, tiles, rfl⟩ := rest
        have ends : off = g.bs := tiles
        have size : Inode.size inode ≤ fpos := by rw [← whole, ← count, Nat.add_zero, Nat.succ_mul]; omega
        rw [iterateLoop, if_pos size]
        rfl

theorem Dir.iterateDir (name : CStr) {c : Caches} {node : Node} (loaded : node.load env card root = some inode) (caches : warm c) :
    (ext4fsIterateDir env card root node name c).map (fun found => found.1.map (·.1.ino)) =
      some (iterateRecords (fun ino => (ext4fsReadInode env card root ino).isSome) name (recordsOf g inode rs)) := by
  have whole : Inode.size inode / g.bs * g.bs = Inode.size inode := Nat.div_mul_cancel (Nat.dvd_of_mod_eq_zero dir.whole)
  rw [ext4fsIterateDir, loaded]
  simp only []
  cases count : Inode.size inode / g.bs with
  | zero =>
    rw [count, Nat.zero_mul] at whole
    rw [← whole, recordsOf, count]
    rfl
  | succ left =>
    have rest : Dir.Rest g (env.volume card) inode B rs 0 (recordsOf g inode rs) 0 0 (rs 0) left := by
      refine ⟨by omega, by omega, by rw [Nat.zero_mul], dir.tiles 0 (by omega), ?_⟩
      rw [recordsOf, count, List.range_eq_range', List.range'_succ, List.flatMap_cons]
    exact dir.iterate_run caches (by omega) rest

end Directory

section Alike

variable {env : Env} {card : Buf} {root : Root} {name : CStr} {rs : List Record}

/-- Inode number 0 can be read: the arithmetic of `ext4fs_read_inode` leads to a block of the partition. -/
def zeroReadable (env : Env) (card : Buf) (root : Root) : Bool := (ext4fsReadInode env card root 0).isSome

/-- A deleted record that `ext4fs_iterate_dir` takes for the name. -/
def Record.Misleads (zero : Bool) (name : CStr) (r : Record) : Prop :=
  r.inode = 0 ∧ r.name ≠ [] ∧ r.text = name ∧ (r.type ≠ 0 ∨ zero = true)

/-- A deleted record at which `ext4fs_iterate_dir` gives up. -/
def Record.Stops (zero : Bool) (r : Record) : Prop := r.inode = 0 ∧ r.name ≠ [] ∧ r.type = 0 ∧ zero = false

/-- A record at which `ext4fs_iterate_dir` ends. -/
def Record.Halts (zero : Bool) (name : CStr) (r : Record) : Prop := r.Names name ∨ r.Misleads zero name ∨ r.Stops zero

instance (zero : Bool) (name : CStr) : DecidablePred (Record.Misleads zero name) := fun _ => instDecidableAnd

instance (zero : Bool) : DecidablePred (Record.Stops zero) := fun _ => instDecidableAnd

instance (zero : Bool) (name : CStr) : DecidablePred (Record.Halts zero name) := fun _ => instDecidableOr

theorem Record.Sound.text_eq {r : Record} (sound : r.Sound env card root) (live : r.inode ≠ 0) : r.text = r.name := by
  refine List.takeWhile_eq_self_iff.mpr (fun x member => decide_eq_true ?_)
  rintro rfl
  exact sound.text live member

theorem iterateRecords_cons {r : Record} (sound : r.Sound env card root) :
    iterateRecords (fun ino => (ext4fsReadInode env card root ino).isSome) name (r :: rs) =
      if r.Halts (zeroReadable env card root) name then
        if r.Stops (zeroReadable env card root) then none else some r.inode
      else iterateRecords (fun ino => (ext4fsReadInode env card root ino).isSome) name rs := by
  rw [iterateRecords]
  by_cases live : r.inode = 0
  · rw [live]
    show (if _ then _ else if r.type = 0 ∧ zeroReadable env card root = false then _ else _) = _
    by_cases empty : r.name = []
    · simp [Record.Halts, Record.Names, Record.Misleads, Record.Stops, live, empty]
    · by_cases type : r.type = 0
      · cases zero : zeroReadable env card root <;>
          simp [Record.Halts, Record.Names, Record.Misleads, Record.Stops, live, empty, type]
      · simp [Record.Halts, Record.Names, Record.Misleads, Record.Stops, live, empty, type]
  · have text := sound.text_eq live
    have readable := sound.readable live
    have some := sound.named live
    simp [Record.Halts, Record.Names, Record.Misleads, Record.Stops, live, text, readable, some]

theorem iterateRecords_append (post : List Record) {pre : List Record} (sound : ∀ r ∈ pre, r.Sound env card root)
    (before : ∀ p ∈ pre, ¬ p.Halts (zeroReadable env card root) name) :
    iterateRecords (fun ino => (ext4fsReadInode env card root ino).isSome) name (pre ++ post) =
      iterateRecords (fun ino => (ext4fsReadInode env card root ino).isSome) name post := by
  induction pre with
  | nil => rfl
  | cons p pre ih =>
    rw [List.cons_append, iterateRecords_cons (sound p List.mem_cons_self), if_neg (before p List.mem_cons_self)]
    exact ih (fun r member => sound r (List.mem_cons_of_mem p member))
      (fun q member => before q (List.mem_cons_of_mem p member))

/-- No deleted record comes in the way of `ext4fs_iterate_dir`: each one that it would take for the name stands behind
a live record with the name or behind one at which it gives up, and each one at which it gives up stands behind the
first live record with the name, if there is one. -/
structure Unmisled (zero : Bool) (name : CStr) (rs : List Record) : Prop where
  misleading : ∀ pre r post, rs = pre ++ r :: post → r.Misleads zero name → ∃ p ∈ pre, p.Names name ∨ p.Stops zero
  stopping : ∀ pre r post, rs = pre ++ r :: post → r.Stops zero → (∃ p ∈ rs, p.Names name) → ∃ p ∈ pre, p.Names name

theorem iterateRecords_halt {pre post : List Record} {r : Record} (sound : ∀ r ∈ rs, r.Sound env card root)
    (split : rs = pre ++ r :: post) (before : ∀ p ∈ pre, ¬ p.Halts (zeroReadable env card root) name)
    (halts : r.Halts (zeroReadable env card root) name) :
    iterateRecords (fun ino => (ext4fsReadInode env card root ino).isSome) name rs =
      if r.Stops (zeroReadable env card root) then none else some r.inode := by
  rw [split, iterateRecords_append (r :: post) (fun p member => sound p (split ▸ List.mem_append_left _ member)) before,
    iterateRecords_cons (sound r (split ▸ List.mem_append_right _ List.mem_cons_self)), if_pos halts]

theorem iterateRecords_none (sound : ∀ r ∈ rs, r.Sound env card root)
    (never : ∀ r ∈ rs, ¬ r.Halts (zeroReadable env card root) name) :
    iterateRecords (fun ino => (ext4fsReadInode env card root ino).isSome) name rs = none := by
  have run := iterateRecords_append [] sound never
  rwa [List.append_nil] at run

/-- `ext4fs_iterate_dir` gives the first live record with the name exactly if no deleted record comes in its way. -/
theorem iterateRecords_eq_iff (sound : ∀ r ∈ rs, r.Sound env card root) :
    iterateRecords (fun ino => (ext4fsReadInode env card root ino).isSome) name rs =
        (rs.find? (Record.Names name)).map Record.inode ↔
      Unmisled (zeroReadable env card root) name rs := by
  obtain ⟨zero, same⟩ : ∃ zero, zero = zeroReadable env card root := ⟨_, rfl⟩
  by_cases there : ∃ r ∈ rs, r.Halts zero name
  · obtain ⟨pre, r, post, split, halts, before⟩ := exists_first there
    have result := iterateRecords_halt sound split (same ▸ before) (same ▸ halts)
    rw [result, ← same]
    have early : ∀ {p : Record}, p ∈ pre → ¬ p.Names name := fun member names => before _ member (.inl names)
    rcases halts with names | misleads | stops
    · -- the first live record with the name comes before all others
      have found : rs.find? (Record.Names name) = some r :=
        List.find?_eq_some_iff_append.mpr ⟨decide_eq_true names, pre, post, split,
          fun p member => by rw [decide_eq_false (early member)]; rfl⟩
      rw [found, if_neg (fun stops => names.1 stops.1)]
      refine ⟨fun _ => ?_, fun _ => rfl⟩
      have behind {pre' post' : List Record} {q : Record} (split' : rs = pre' ++ q :: post') (halts' : q.Halts zero name)
          (dead : q.inode = 0) : r ∈ pre' := by
        rcases two_splits (split.symm.trans split') with earlier | rfl | later
        · exact earlier
        · exact absurd dead names.1
        · exact absurd halts' (before q later)
      exact ⟨fun pre' q post' split' misleads => ⟨r, behind split' (.inr (.inl misleads)) misleads.1, .inl names⟩,
        fun pre' q post' split' stops _ => ⟨r, behind split' (.inr (.inr stops)) stops.1, names⟩⟩
    · have goesOn : ¬ r.Stops zero := fun stops =>
        misleads.2.2.2.elim (· stops.2.2.1) (fun one => Bool.false_ne_true (stops.2.2.2.symm.trans one))
      rw [if_neg goesOn, misleads.1]
      constructor
      · intro equal
        obtain ⟨q, found, number⟩ := Option.map_eq_some_iff.mp equal.symm
        have names := List.find?_some found
        rw [decide_eq_true_eq] at names
        exact absurd number names.1
      · intro unmisled
        obtain ⟨p, member, earlier⟩ := unmisled.misleading pre r post split misleads
        exact absurd (earlier.imp_right Or.inr) (before p member)
    · rw [if_pos stops]
      constructor
      · intro equal
        have missing := List.find?_eq_none.mp (Option.map_eq_none_iff.mp equal.symm)
        have absent : ¬ ∃ p ∈ rs, p.Names name := fun ⟨p, member, names⟩ => missing p member (decide_eq_true names)
        refine ⟨fun pre' q post' split' misleads => ⟨r, ?_, .inr stops⟩, fun _ _ _ _ _ some => absurd some absent⟩
        rcases two_splits (split.symm.trans split') with earlier | rfl | later
        · exact earlier
        · exact absurd stops.2.2.1 (misleads.2.2.2.resolve_right (by rw [stops.2.2.2]; exact Bool.false_ne_true))
        · exact absurd (.inr (.inl misleads)) (before q later)
      · intro unmisled
        have absent : rs.find? (Record.Names name) = none := by
          refine List.find?_eq_none.mpr (fun p member names => ?_)
          obtain ⟨q, earlier, names'⟩ := unmisled.stopping pre r post split stops ⟨p, member, of_decide_eq_true names⟩
          exact early earlier names'
        rw [absent]
        rfl
  · have never : ∀ r ∈ rs, ¬ r.Halts zero name := fun r member halts => there ⟨r, member, halts⟩
    have missing : rs.find? (Record.Names name) = none :=
      List.find?_eq_none.mpr (fun r member names => never r member (.inl (of_decide_eq_true names)))
    rw [iterateRecords_none sound (same ▸ never), missing, ← same]
    refine ⟨fun _ => ⟨fun pre r post split misleads => ?_, fun pre r post split stops => ?_⟩, fun _ => rfl⟩
    · exact absurd (.inr (.inl misleads)) (never r (split ▸ List.mem_append_right _ List.mem_cons_self))
    · exact absurd (.inr (.inr stops)) (never r (split ▸ List.mem_append_right _ List.mem_cons_self))

end Alike

/-- `search_dir` and `ext4fs_iterate_dir` find the same inode for a name, and they fail exactly if no live record has
it. -/
structure ResolveAlike (search : Option (Nat × Fs)) (iterate : Option (Option (Node × FileType) × Caches)) (rs : List Record)
    (name : CStr) : Prop where
  same : ∀ n, (∃ fs', search = some (n, fs') ∧ n ≠ minusOne) ↔
    ∃ node type c, iterate = some (some (node, type), c) ∧ node.ino = n
  searchFails : (∃ fs', search = some (minusOne, fs')) ↔ ¬ ∃ r ∈ rs, r.Names name
  iterateFails : (∃ c, iterate = some (none, c)) ↔ ¬ ∃ r ∈ rs, r.Names name

/-- In every directory and for every name, the write path and the read path resolve the name alike exactly if no
deleted record comes in the way of `ext4fs_iterate_dir`. -/
theorem resolveAlike_iff {env : Env} {g : Geometry} {warm : Caches → Prop} {inode : Buf} {B : Nat → Nat}
    {rs : Nat → List Record} {fs : Fs} {node : Node} (views : fs.Views env g)
    (dir : Dir env g fs.card fs.root warm inode B rs) (caches : warm fs.caches)
    (loaded : node.load env fs.card fs.root = some inode)
    (sound : ∀ r ∈ recordsOf g inode rs, r.Sound env fs.card fs.root) (name : CStr) :
    ResolveAlike (searchDir env inode name fs) (ext4fsIterateDir env fs.card fs.root node name fs.caches)
        (recordsOf g inode rs) name ↔
      Unmisled (zeroReadable env fs.card fs.root) name (recordsOf g inode rs) := by
  obtain ⟨c, search, -⟩ := searchDir_mapped dir.mapped caches name
  obtain ⟨⟨found, c'⟩, iterate, value⟩ := Option.map_eq_some_iff.mp (dir.iterateDir name loaded caches)
  rw [searchIn_dir views dir (fun r member => (sound r member).number)] at search
  rw [← iterateRecords_eq_iff sound, ← value, search, iterate]
  cases first : (recordsOf g inode rs).find? (Record.Names name) with
  | none =>
    have absent : ¬ ∃ r ∈ recordsOf g inode rs, r.Names name := by
      rintro ⟨r, member, names⟩
      exact List.find?_eq_none.mp first r member (decide_eq_true names)
    constructor
    · intro alike
      obtain ⟨c₁, same⟩ := alike.iterateFails.mpr absent
      cases same
      rfl
    · intro same
      obtain rfl : found = none := Option.map_eq_none_iff.mp same
      refine ⟨fun n => ⟨?_, ?_⟩, iff_of_true ⟨_, rfl⟩ absent, iff_of_true ⟨_, rfl⟩ absent⟩
      · rintro ⟨fs', equal, other⟩
        cases equal
        exact absurd rfl other
      · rintro ⟨_, _, _, equal, -⟩
        cases equal
  | some r =>
    have member := List.mem_of_find?_eq_some first
    have names := List.find?_some first
    rw [decide_eq_true_eq] at names
    have there : ¬ ¬ ∃ r ∈ recordsOf g inode rs, r.Names name := not_not.mpr ⟨r, member, names⟩
    have number : r.inode ≠ minusOne := by
      have small := (sound r member).number
      unfold minusOne
      omega
    constructor
    · intro alike
      obtain ⟨node', type, c₁, same, ino⟩ := (alike.same r.inode).mp ⟨_, rfl, number⟩
      cases same
      exact congrArg some ino
    · intro same
      obtain ⟨⟨node', type⟩, rfl, ino⟩ := Option.map_eq_some_iff.mp same
      refine ⟨fun n => ⟨?_, ?_⟩, iff_of_false ?_ there, iff_of_false ?_ there⟩
      · rintro ⟨fs', equal, -⟩
        cases equal
        exact ⟨node', type, c', rfl, ino⟩
      · rintro ⟨_, _, _, equal, value⟩
        cases equal
        rw [← value, ino]
        exact ⟨_, rfl, number⟩
      · rintro ⟨fs', equal⟩
        exact absurd (Prod.mk.inj (Option.some.inj equal)).1 number
      · rintro ⟨c₁, equal⟩
        cases equal

/-- The root directory with a second block, whose only record was deleted. -/
def reusedInode : Buf := putLe32 (putLe32 sampleRootInode 4 2048) 44 41

def reusedFs : Fs := { sampleFs with card := overlay (sampleCard false) (41 * 1024) 1024 (putEntry zeros 0 0 1024 1 [103]) }

def reusedRecords (k : Nat) : List Record :=
  if k = 0 then [⟨2, 12, [46], 2⟩, ⟨2, 12, [46, 46], 2⟩, ⟨12, 1000, [102], 1⟩] else [⟨0, 1024, [103], 1⟩]

theorem reusedFs_views : reusedFs.Views sampleEnv sampleGeometry := ⟨by decide +kernel, rfl, by decide +kernel⟩

theorem reusedFs_dir : Dir sampleEnv sampleGeometry reusedFs.card reusedFs.root (fun _ => True) reusedInode
    (fun k => getLe32 reusedInode (Inode.dirBlocks + 4 * k)) reusedRecords := by
  have count : Inode.size reusedInode / sampleGeometry.bs = 2 := by decide +kernel
  refine ⟨⟨by decide, by decide, by decide, by decide⟩, by decide +kernel, by decide,
    mapped_direct (by decide +kernel) (by decide +kernel) _, by decide +kernel, ?_, ?_⟩
  · rw [count]
    decide +kernel
  · rw [count]
    decide +kernel

theorem reusedFs_sound : ∀ r ∈ recordsOf sampleGeometry reusedInode reusedRecords,
    r.Sound sampleEnv reusedFs.card reusedFs.root := by
  have all : ∀ r ∈ recordsOf sampleGeometry reusedInode reusedRecords, (r.inode ≠ 0 → r.name ≠ []) ∧
      (r.inode ≠ 0 → 0 ∉ r.name) ∧ r.inode < 2 ^ 31 ∧
        (r.inode ≠ 0 → (ext4fsReadInode sampleEnv reusedFs.card reusedFs.root r.inode).isSome = true) := by decide +kernel
  intro r member
  obtain ⟨named, text, number, readable⟩ := all r member
  exact ⟨named, text, number, readable⟩

/-- The file `f` in front of the deleted record. -/
theorem reusedFs_alike : ∃ rs, Dir sampleEnv sampleGeometry reusedFs.card reusedFs.root (fun _ => True) reusedInode
      (fun k => getLe32 reusedInode (Inode.dirBlocks + 4 * k)) rs ∧
    ResolveAlike (searchDir sampleEnv reusedInode [102] reusedFs)
      (ext4fsIterateDir sampleEnv reusedFs.card reusedFs.root ⟨2, some reusedInode⟩ [102] reusedFs.caches)
      (recordsOf sampleGeometry reusedInode rs) [102] := by
  have clean : ∀ r ∈ recordsOf sampleGeometry reusedInode reusedRecords,
      ¬ r.Misleads (zeroReadable sampleEnv reusedFs.card reusedFs.root) [102] ∧
        ¬ r.Stops (zeroReadable sampleEnv reusedFs.card reusedFs.root) := by decide +kernel
  refine ⟨reusedRecords, reusedFs_dir,
    (resolveAlike_iff reusedFs_views reusedFs_dir trivial rfl reusedFs_sound [102]).mpr
      ⟨fun pre r post split misleads => ?_, fun pre r post split stops => ?_⟩⟩
  · exact absurd misleads (clean r (split ▸ List.mem_append_right pre List.mem_cons_self)).1
  · exact absurd stops (clean r (split ▸ List.mem_append_right pre List.mem_cons_self)).2

/-- The deleted record is found under its old name, with inode 0. -/
theorem reusedFs_misled :
    Dir sampleEnv sampleGeometry reusedFs.card reusedFs.root (fun _ => True) reusedInode
      (fun k => getLe32 reusedInode (Inode.dirBlocks + 4 * k)) reusedRecords ∧
    (∀ r ∈ recordsOf sampleGeometry reusedInode reusedRecords, ¬ r.Names [103]) ∧
    (searchDir sampleEnv reusedInode [103] reusedFs).map Prod.fst = some minusOne ∧
    (ext4fsIterateDir sampleEnv reusedFs.card reusedFs.root ⟨2, some reusedInode⟩ [103] reusedFs.caches).map
      (fun found => found.1.map (·.1.ino)) = some (some 0) :=
  ⟨reusedFs_dir, by decide +kernel, by decide +kernel, by decide +kernel⟩

end UuuFastboot.Ext4
