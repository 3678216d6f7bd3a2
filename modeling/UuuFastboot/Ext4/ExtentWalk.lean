import UuuFastboot.Ext4.Extent
import UuuFastboot.Lib.Orbit

namespace UuuFastboot.Ext4

open Word Overlay Bytes Orbit Relation

/-- Whether the search of an index block or the scan of a leaf stops at an entry. -/
def stopsAt (block : Buf) (k i : Nat) : Bool :=
  if getLe16 block 6 = 0 then
    let e := extentAt block i
    decide (asInt k < asInt e.start ∨ asInt k < asInt (w32 (e.start + e.rawLen)))
  else decide (k < indexKey block i)

/-- The entries from `i` on up to the one at which a loop over `left` entries stops. -/
def scanned (stops : Nat → Bool) : Nat → Nat → List Nat
  | 0, _ => []
  | left + 1, i => i :: if stops i then [] else scanned stops left (i + 1)

def chosenEntry (block : Buf) (k : Nat) : Nat := indexScan block k (getLe16 block 2) 0 - 1

/-- The entries that the loops read in one block: those up to the last one of the loop, and of an index block then the
one whose child is followed. -/
def entriesRead (block : Buf) (k : Nat) : List Nat :=
  if getLe16 block 0 ≠ extMagic then []
  else scanned (stopsAt block k) (getLe16 block 2) 0 ++ if getLe16 block 6 = 0 then [] else [chosenEntry block k]

def followed (env : Env) (root : Root) (k : Nat) (block : Buf) : Option Nat :=
  if getLe16 block 0 ≠ extMagic ∨ getLe16 block 6 = 0 then none
  else some (blockSector env root (indexChild block (chosenEntry block k)))

structure EntryRead where
  size : Nat
  entry : Nat
  deriving DecidableEq

/-- The entry, behind a header of as many bytes, lies in the area. -/
def EntryRead.Inside (r : EntryRead) : Prop := 12 + 12 * (r.entry + 1) ≤ r.size

instance (r : EntryRead) : Decidable r.Inside := inferInstanceAs (Decidable (_ ≤ _))

theorem EntryRead.inside_iff {size i : Nat} : (EntryRead.mk size i).Inside ↔ 12 + 12 * (i + 1) ≤ size := Iff.rfl

/-- All the entries that a lookup of block `k` reads, through at most `levels` blocks. -/
def extentReads (env : Env) (card : Buf) (root : Root) (k : Nat) : Nat → ExtCache → Nat → Buf → List EntryRead
  | 0, _, _, _ => []
  | levels + 1, cache, size, block =>
    (entriesRead block k).map (EntryRead.mk size) ++
      (((followed env root k block).bind (extCacheRead env card root cache)).elim []
        (fun held => extentReads env card root k levels (some held) root.blockSize held.2))

section Walk

variable {env : Env} {card : Buf} {root : Root} {k : Nat}

def ExtCache.Fresh (env : Env) (card : Buf) (root : Root) (cache : ExtCache) : Prop :=
  ∀ sector buf, cache = some (sector, buf) → fsDevread env card sector 0 root.blockSize = some buf

/-- From a sector the lookup goes on to the sector that the block there leads to. -/
def childSector (env : Env) (card : Buf) (root : Root) (k sector : Nat) : Option Nat :=
  (fsDevread env card sector 0 root.blockSize).bind (followed env root k)

theorem extCacheRead_fresh {cache : ExtCache} (fresh : cache.Fresh env card root) (sector : Nat) :
    extCacheRead env card root cache sector =
      (fsDevread env card sector 0 root.blockSize).map (fun buf => (sector, buf)) := by
  cases cache with
  | none => rfl
  | some held =>
    obtain ⟨at_, buf⟩ := held
    simp only [extCacheRead]
    split_ifs with same
    · rw [← same, fresh at_ buf rfl]
      rfl
    · rfl

theorem ExtCache.Fresh.none : ExtCache.Fresh env card root none := by
  intro _ _ held
  cases held

theorem ExtCache.Fresh.some {sector : Nat} {buf : Buf} (read : fsDevread env card sector 0 root.blockSize = some buf) :
    ExtCache.Fresh env card root (some (sector, buf)) := by
  intro _ _ same
  cases same
  exact read

section

variable {cache : ExtCache} (fresh : cache.Fresh env card root)
include fresh

theorem ext4fsGetExtentBlock_succ (levels : Nat) (block : Buf) :
    (ext4fsGetExtentBlock env card root k (levels + 1) cache block = none ↔
      ∃ s buf, followed env root k block = some s ∧ fsDevread env card s 0 root.blockSize = some buf ∧
        ext4fsGetExtentBlock env card root k levels (some (s, buf)) buf = none) := by
  rw [ext4fsGetExtentBlock, followed]
  by_cases magic : getLe16 block 0 ≠ extMagic
  · simp [magic]
  · by_cases flat : getLe16 block 6 = 0
    · simp [magic, flat]
    · rw [if_neg magic, if_neg flat, if_neg (by tauto)]
      simp only [extCacheRead_fresh fresh, indexChild, chosenEntry, Option.some.injEq, exists_and_left, ↓existsAndEq,
        true_and]
      cases read : fsDevread env card (blockSector env root _) 0 root.blockSize with
      | none => simp
      | some buf => simp

theorem ext4fsGetExtentBlock_none (levels : Nat) (block : Buf) :
    ext4fsGetExtentBlock env card root k (levels + 1) cache block = none ↔
      ∃ s t, followed env root k block = some s ∧ orbit (childSector env card root k) levels s = some t ∧
        (fsDevread env card t 0 root.blockSize).isSome := by
  induction levels generalizing cache block with
  | zero =>
    rw [ext4fsGetExtentBlock_succ fresh]
    constructor
    · rintro ⟨s, buf, follows, read, -⟩
      exact ⟨s, s, follows, rfl, by rw [read]; rfl⟩
    · rintro ⟨s, t, follows, here, readable⟩
      obtain ⟨buf, read⟩ := Option.isSome_iff_exists.mp readable
      cases Option.some.inj here
      exact ⟨s, buf, follows, read, rfl⟩
  | succ levels ih =>
    rw [ext4fsGetExtentBlock_succ fresh]
    constructor
    · rintro ⟨s, buf, follows, read, endless⟩
      obtain ⟨s', t, next, there, readable⟩ := (ih (.some read) buf).mp endless
      refine ⟨s, t, follows, ?_, readable⟩
      rw [orbit, childSector, read, Option.bind_some, next, Option.bind_some, there]
    · rintro ⟨s, t, follows, there, readable⟩
      obtain ⟨s', step, rest⟩ := Option.bind_eq_some_iff.mp there
      obtain ⟨buf, read, next⟩ := Option.bind_eq_some_iff.mp step
      exact ⟨s, buf, follows, read, (ih (.some read) buf).mpr ⟨s', t, next, rest, readable⟩⟩

theorem ext4fsGetExtentBlock_ends (block : Buf) :
    (∃ levels, (ext4fsGetExtentBlock env card root k levels cache block).isSome) ↔
      ∀ s, followed env root k block = some s → ∃ n, orbit (childSector env card root k) n s = none := by
  constructor
  · rintro ⟨levels, ends⟩ s follows
    cases levels with
    | zero => simp [ext4fsGetExtentBlock] at ends
    | succ n =>
      refine ⟨n + 1, ?_⟩
      by_contra more
      obtain ⟨u, there⟩ := Option.ne_none_iff_exists'.mp more
      rw [orbit_add] at there
      obtain ⟨t, there, step⟩ := Option.bind_eq_some_iff.mp there
      rw [orbit_one] at step
      obtain ⟨buf, read, -⟩ := Option.bind_eq_some_iff.mp step
      have endless := (ext4fsGetExtentBlock_none fresh n block).mpr ⟨s, t, follows, there, by rw [read]; rfl⟩
      rw [endless] at ends
      cases ends
  · intro ends
    cases follows : followed env root k block with
    | none =>
      refine ⟨1, Option.isSome_iff_ne_none.mpr (fun endless => ?_)⟩
      obtain ⟨s, t, follows', -⟩ := (ext4fsGetExtentBlock_none fresh 0 block).mp endless
      rw [follows] at follows'
      cases follows'
    | some s =>
      obtain ⟨n, ends⟩ := ends s follows
      refine ⟨n + 1, Option.isSome_iff_ne_none.mpr (fun endless => ?_)⟩
      obtain ⟨s', t, follows', there, -⟩ := (ext4fsGetExtentBlock_none fresh n block).mp endless
      rw [follows] at follows'
      cases follows'
      rw [ends] at there
      cases there

def BlockInside (k size : Nat) (block : Buf) : Prop := ∀ i ∈ entriesRead block k, (EntryRead.mk size i).Inside

theorem mem_extentReads_succ {levels size : Nat} {block : Buf}
    {r : EntryRead} :
    r ∈ extentReads env card root k (levels + 1) cache size block ↔ (∃ i ∈ entriesRead block k, ⟨size, i⟩ = r) ∨
      ∃ s buf, followed env root k block = some s ∧ fsDevread env card s 0 root.blockSize = some buf ∧
        r ∈ extentReads env card root k levels (some (s, buf)) root.blockSize buf := by
  rw [extentReads, List.mem_append, List.mem_map]
  refine or_congr_right ?_
  cases follows : followed env root k block with
  | none => simp
  | some s =>
    rw [Option.bind_some, extCacheRead_fresh fresh]
    cases read : fsDevread env card s 0 root.blockSize with
    | none => simp [read]
    | some buf => simp [read]

theorem extentReads_inside (size : Nat) (block : Buf) :
    (∀ levels, ∀ r ∈ extentReads env card root k levels cache size block, r.Inside) ↔
      BlockInside k size block ∧ ∀ s, followed env root k block = some s → ∀ t buf,
        ReflTransGen (Leads (childSector env card root k)) s t → fsDevread env card t 0 root.blockSize = some buf →
          BlockInside k root.blockSize buf := by
  constructor
  · intro inside
    refine ⟨fun i read => inside 1 _ ((mem_extentReads_succ fresh).mpr (.inl ⟨i, read, rfl⟩)),
      fun s follows t buf reaches last => ?_⟩
    -- along the way the entries that are still to be read are inside
    induction reaches using ReflTransGen.head_induction_on generalizing cache size block with
    | refl =>
      exact fun i read => inside 2 _ ((mem_extentReads_succ fresh).mpr (.inr ⟨t, buf, follows, last,
        (mem_extentReads_succ (.some last)).mpr (.inl ⟨i, read, rfl⟩)⟩))
    | @head s s' step _ ih =>
      obtain ⟨buf', read, follows'⟩ := Option.bind_eq_some_iff.mp step
      exact ih (.some read) root.blockSize buf' (fun levels r member =>
        inside (levels + 1) r ((mem_extentReads_succ fresh).mpr (.inr ⟨s, buf', follows, read, member⟩))) follows'
  · rintro ⟨here, beyond⟩ levels
    induction levels generalizing cache size block with
    | zero => exact fun r member => absurd member List.not_mem_nil
    | succ levels ih =>
      intro r member
      rcases (mem_extentReads_succ fresh).mp member with ⟨i, read, rfl⟩ | ⟨s, buf, follows, read, later⟩
      · exact here i read
      · exact ih (.some read) root.blockSize buf (beyond s follows s buf .refl read)
          (fun s' follows' t buf' reaches => beyond s follows t buf'
            (.head (Option.bind_eq_some_iff.mpr ⟨buf, read, follows'⟩) reaches)) r later

end

theorem scanned_inside {stops : Nat → Bool} {size left i : Nat} (before : 12 + 12 * i ≤ size) :
    (∀ j ∈ scanned stops left i, (EntryRead.mk size j).Inside) ↔
      12 + 12 * (i + left) ≤ size ∨ ∃ j, i ≤ j ∧ (EntryRead.mk size j).Inside ∧ stops j := by
  simp only [EntryRead.inside_iff]
  induction left generalizing i with
  | zero => exact ⟨fun _ => .inl before, fun _ j member => absurd member List.not_mem_nil⟩
  | succ left ih =>
    rw [scanned, List.forall_mem_cons]
    by_cases stop : stops i = true
    · rw [if_pos stop]
      constructor
      · exact fun inside => .inr ⟨i, le_rfl, inside.1, stop⟩
      · rintro (all | ⟨j, le, inside, -⟩)
        · exact ⟨by omega, by simp⟩
        · exact ⟨by omega, by simp⟩
    · rw [if_neg stop]
      by_cases here : 12 + 12 * (i + 1) ≤ size
      · rw [ih here, and_iff_right here]
        refine or_congr (by omega) (exists_congr fun j => and_congr_left fun inside => ?_)
        constructor
        · omega
        · intro le
          rcases Nat.lt_or_eq_of_le le with less | rfl
          · exact less
          · exact absurd inside.2 stop
      · constructor
        · exact fun inside => absurd inside.1 here
        · rintro (all | ⟨j, le, inside, -⟩)
          · omega
          · omega

/-- The number of entries that a block claims fits in the area, or one of those in the area ends the search. -/
def EntriesWithin (k size : Nat) (block : Buf) : Prop :=
  getLe16 block 0 = extMagic → 12 + 12 * getLe16 block 2 ≤ size ∨
    ∃ i, (EntryRead.mk size i).Inside ∧ stopsAt block k i

theorem blockInside_iff {size : Nat} (room : 24 ≤ size) (block : Buf) :
    BlockInside k size block ↔ EntriesWithin k size block := by
  unfold BlockInside EntriesWithin entriesRead
  by_cases magic : getLe16 block 0 = extMagic
  · rw [if_neg (not_not.mpr magic), List.forall_mem_append, scanned_inside (by omega), forall_prop_of_true magic]
    simp only [Nat.zero_add, Nat.zero_le, true_and]
    refine and_iff_left_of_imp (fun within => ?_)
    by_cases flat : getLe16 block 6 = 0
    · simp [flat]
    · rw [if_neg flat, List.forall_mem_singleton]
      obtain ⟨-, upper, front, -⟩ := indexScan_spec block k (getLe16 block 2) 0
      have reach : 12 + 12 * indexScan block k (getLe16 block 2) 0 ≤ size := by
        rcases within with all | ⟨i, inside, stops⟩
        · omega
        · have key : k < indexKey block i := by simpa [stopsAt, flat] using stops
          have before : indexScan block k (getLe16 block 2) 0 ≤ i := by
            by_contra later
            have := front i (Nat.zero_le i) (by omega)
            omega
          rw [EntryRead.inside_iff] at inside
          omega
      rw [EntryRead.inside_iff, chosenEntry]
      omega
  · simp [magic]

end Walk

def ComesTo (env : Env) (card : Buf) (root : Root) (inode : Buf) (k sector : Nat) : Prop :=
  ∃ first, followed env root k (tail inode Inode.dirBlocks) = some first ∧
    ReflTransGen (Leads (childSector env card root k)) first sector

/-- A tree in which a block can be looked up: the way to it has no cycle, and each block on the way that has the magic
number has no more entries than fit, or one of those that fit ends the search. -/
structure Walkable (env : Env) (card : Buf) (root : Root) (inode : Buf) (k : Nat) : Prop where
  acyclic : ∀ s, ComesTo env card root inode k s → ¬ TransGen (Leads (childSector env card root k)) s s
  area : EntriesWithin k 60 (tail inode Inode.dirBlocks)
  blocks : ∀ s buf, ComesTo env card root inode k s → fsDevread env card s 0 root.blockSize = some buf →
    EntriesWithin k root.blockSize buf

theorem ext4fsGetExtentBlock_levels (env : Env) (levels : Nat) (card : Buf) (root : Root) (k n : Nat) (cache : ExtCache)
    (block : Buf) : ext4fsGetExtentBlock { env with levels := levels } card root k n cache block =
      ext4fsGetExtentBlock env card root k n cache block := by
  induction n generalizing cache block with
  | zero => rfl
  | succ n ih =>
    simp only [ext4fsGetExtentBlock]
    split_ifs
    · rfl
    · rfl
    · generalize 2 ^ 32 * getLe16 block _ + getLe32 block _ = child
      have same : extCacheRead { env with levels := levels } card root cache
          (blockSector { env with levels := levels } root child) =
        extCacheRead env card root cache (blockSector env root child) := rfl
      rw [same]
      cases extCacheRead env card root cache (blockSector env root child) with
      | none => rfl
      | some held => exact ih _ _

theorem readAllocatedBlock_isSome {env : Env} {card : Buf} {root : Root} {inode : Buf} {k : Nat} {cache : ExtCache}
    (extents : Inode.usesExtents inode) (c : Caches) (levels : Nat) :
    (readAllocatedBlock { env with levels := levels } card root inode k cache c).isSome =
      (ext4fsGetExtentBlock env card root k levels cache (tail inode Inode.dirBlocks)).isSome := by
  rw [readAllocatedBlock, if_pos extents, readExtent, ext4fsGetExtentBlock_levels]
  rcases ext4fsGetExtentBlock env card root k levels cache (tail inode Inode.dirBlocks) with _ | ⟨_ | leaf, cache'⟩
  · rfl
  · rfl
  · rfl

/-- For every inode and every contents of the device, the lookup of a block in the extents ends and reads no entry
outside the inode or the block with the entry, exactly if the tree is walkable. -/
theorem extentLookup_safe_iff {env : Env} {card : Buf} {root : Root} {inode : Buf} {k : Nat} {cache : ExtCache}
    (extents : Inode.usesExtents inode) (fresh : cache.Fresh env card root) (c : Caches) :
    ((∃ levels, (readAllocatedBlock { env with levels := levels } card root inode k cache c).isSome) ∧
        ∀ levels, ∀ r ∈ extentReads env card root k levels cache 60 (tail inode Inode.dirBlocks), r.Inside) ↔
      Walkable env card root inode k := by
  have large : 24 ≤ root.blockSize := by
    have : 2 ^ 10 ≤ root.blockSize := Nat.pow_le_pow_right (by decide) (Nat.le_add_left _ _)
    omega
  have words : (Set.Iio (2 ^ 32)).Finite := Set.finite_Iio _
  have closed : ∀ s t, childSector env card root k s = some t → t ∈ Set.Iio (2 ^ 32) := by
    intro s t leads
    obtain ⟨buf, -, follows⟩ := Option.bind_eq_some_iff.mp leads
    unfold followed at follows
    split at follows
    · cases follows
    · cases Option.some.inj follows
      exact w32_lt _
  simp only [readAllocatedBlock_isSome extents]
  rw [ext4fsGetExtentBlock_ends fresh, extentReads_inside fresh, blockInside_iff (by decide)]
  simp only [ends_iff (finite_reaches words closed _), blockInside_iff large]
  constructor
  · rintro ⟨acyclic, area, blocks⟩
    refine ⟨?_, area, ?_⟩
    · rintro s ⟨first, follows, reaches⟩
      exact acyclic first follows s reaches
    · rintro s buf ⟨first, follows, reaches⟩ read
      exact blocks first follows s buf reaches read
  · intro walkable
    exact ⟨fun first follows s reaches => walkable.acyclic s ⟨first, follows, reaches⟩, walkable.area,
      fun first follows s buf reaches read => walkable.blocks s buf ⟨first, follows, reaches⟩ read⟩

/-- In the tree with a leaf in block 10 the way to a block ends there. -/
theorem treeCard_safe :
    (∃ levels, (readAllocatedBlock { treeEnv with levels := levels } treeCard pointerRoot
      (treeInode (treeBlock 1 1 0 10 0)) 1 none ext4fsReinitGlobal).isSome) ∧
    ∀ levels, ∀ r ∈ extentReads treeEnv treeCard pointerRoot 1 levels none 60
      (tail (treeInode (treeBlock 1 1 0 10 0)) Inode.dirBlocks), r.Inside := by
  refine (extentLookup_safe_iff (by decide +kernel) .none ext4fsReinitGlobal).mpr ?_
  have first : followed treeEnv pointerRoot 1 (tail (treeInode (treeBlock 1 1 0 10 0)) Inode.dirBlocks) = some 20 := by
    decide +kernel
  have last : childSector treeEnv treeCard pointerRoot 1 20 = none := by decide +kernel
  have only : ∀ s, ComesTo treeEnv treeCard pointerRoot (treeInode (treeBlock 1 1 0 10 0)) 1 s → s = 20 := by
    rintro s ⟨first', follows, reaches⟩
    cases Option.some.inj (first.symm.trans follows)
    rcases ReflTransGen.cases_head reaches with same | ⟨t, step, -⟩
    · exact same.symm
    · cases last.symm.trans step
  refine ⟨fun s comes cycle => ?_, fun _ => .inl (by decide +kernel), fun s buf comes read => ?_⟩
  · cases only s comes
    obtain ⟨t, step, -⟩ := TransGen.head'_iff.mp cycle
    cases last.symm.trans step
  · cases only s comes
    have held : (fsDevread treeEnv treeCard 20 0 pointerRoot.blockSize).map (fun buf => getLe16 buf 2) = some 2 := by
      decide +kernel
    rw [read] at held
    have entries : getLe16 buf 2 = 2 := Option.some.inj held
    exact fun _ => .inl (by rw [entries]; decide)

/-- A block of an index that is its own child keeps the loop going for ever, and a leaf in the inode that claims five
entries is read behind its end. -/
theorem corruptTree_unsafe :
    (∀ levels, readAllocatedBlock { treeEnv with levels := levels } (overlay zeros 10240 1024 (treeBlock 1 1 0 10 0))
      pointerRoot (treeInode (treeBlock 1 1 0 10 0)) 0 none ext4fsReinitGlobal = none) ∧
    ∃ r ∈ extentReads treeEnv zeros pointerRoot 9 1 none 60 (tail (treeInode (treeBlock 5 0 0 1 40)) Inode.dirBlocks),
      ¬ r.Inside := by
  refine ⟨fun levels => ?_, ⟨60, 4⟩, by decide +kernel, by decide⟩
  have first : followed treeEnv pointerRoot 0 (tail (treeInode (treeBlock 1 1 0 10 0)) Inode.dirBlocks) = some 20 := by
    decide +kernel
  have loop : childSector treeEnv (overlay zeros 10240 1024 (treeBlock 1 1 0 10 0)) pointerRoot 0 20 = some 20 := by
    decide +kernel
  rw [← Option.not_isSome_iff_eq_none, readAllocatedBlock_isSome (by decide +kernel)]
  intro ends
  obtain ⟨n, none⟩ := (ext4fsGetExtentBlock_ends .none _).mp ⟨levels, ends⟩ 20 first
  exact orbit_of_cycle (.single loop) n none

end UuuFastboot.Ext4
