import UuuFastboot.Part.Dos

namespace UuuFastboot.Dos

open Word Bytes CString Radix

/-- A record with a signature, flags that are zero or mark a bootable partition, and at most one link. -/
structure GoodRecord (record : Buf) : Prop where
  magic : hasMagic record = true
  flags : ∀ pt ∈ entries record, bootInd pt = 0 ∨ bootInd pt = 0x80
  single : (entries record).countP isExtended ≤ 1

def isData (pt : Buf) : Bool := sysInd pt != 0 && !isExtended pt

/-- The sector that the link of a record names, counted from `base`. -/
def link (base : Nat) (record : Buf) : Option Nat := ((entries record).find? isExtended).map (base + start4 ·)

/-- The extended boot records from a link on, each with its sector. -/
inductive RecordsFrom (dev : BlkDesc) (base : Nat) : Option Nat → List (Nat × Buf) → Prop
  | last : RecordsFrom dev base none []
  | next {sector : Nat} {record : Buf} {rest : List (Nat × Buf)} : dev.read sector = some record → GoodRecord record →
      RecordsFrom dev base (link base record) rest → RecordsFrom dev base (some sector) ((sector, record) :: rest)

/-- A disk with the boot record `mbr` and the extended boot records `chain`, no two of which are the same. -/
structure Partitioned (dev : BlkDesc) (mbr : Buf) (chain : List (Nat × Buf)) : Prop where
  first : dev.read 0 = some mbr
  good : GoodRecord mbr
  records : RecordsFrom dev ((link 0 mbr).getD 0) (link 0 mbr) chain
  acyclic : (0 :: chain.map Prod.fst).Nodup

/-- The entries of the logical partitions along a chain, with the sectors they are relative to. -/
def logicals (chain : List (Nat × Buf)) : List (Nat × Buf) :=
  chain.flatMap (fun r => ((entries r.2).filter isData).map (Prod.mk r.1))

/-- The partition with the number `n`: the entry, and the sector it is relative to. -/
def partitionAt (mbr : Buf) (chain : List (Nat × Buf)) (n : Int) : Option (Nat × Buf) :=
  if 1 ≤ n ∧ n ≤ 4 then ((entries mbr)[(n - 1).toNat]?.filter isData).map (Prod.mk 0)
  else if 5 ≤ n then (logicals chain)[(n - 5).toNat]?
  else none

theorem start4_lt (pt : Buf) : start4 pt < 2 ^ 32 := getLe32_lt _ _

theorem GoodRecord.not_pbr {record : Buf} (good : GoodRecord record) : testBlockType record ≠ some .pbr := by
  have flag := good.flags (tail record 0x1be) (List.mem_map.mpr ⟨0, by decide, rfl⟩)
  have plain : ¬ (bootInd (tail record 0x1be) ≠ 0 ∧ bootInd (tail record 0x1be) ≠ 0x80) := by tauto
  simp [testBlockType, good.magic, plain]

section Search

variable {sector : Nat} {n : Int}

theorem found_iff {pt : Buf} {partNum : Nat} (flag : bootInd pt = 0 ∨ bootInd pt = 0x80) :
    (bootInd pt &&& ~~~0x80 = 0 ∧ sysInd pt ≠ 0 ∧ (partNum : Int) = n ∧ isExtended pt = false) ↔
      (partNum : Int) = n ∧ isData pt = true := by
  have mask : bootInd pt &&& ~~~0x80 = 0 := by
    rcases flag with flag | flag <;> rw [flag] <;> decide
  simp only [mask, isData, bne_iff_ne, Bool.and_eq_true, Bool.not_eq_true', true_and, ne_eq]
  tauto

theorem counts_of_isData {pt : Buf} (data : isData pt = true) : counts sector pt = true := by
  rw [counts, Bool.or_eq_true]
  exact Or.inr data

theorem findEntry_behind {l : List Buf} {partNum : Nat} (behind : n < partNum) :
    findEntry sector n l partNum = .inr (partNum + (l.filter (counts sector)).length) := by
  induction l generalizing partNum with
  | nil => rfl
  | cons pt rest ih =>
    rw [findEntry, if_neg (fun found => absurd found.2.2.1 behind.ne')]
    cases counted : counts sector pt with
    | true =>
      rw [if_pos rfl, ih (by omega), List.filter_cons_of_pos counted, List.length_cons]
      congr 1
      omega
    | false =>
      rw [if_neg Bool.false_ne_true, ih behind, List.filter_cons_of_neg (by rw [counted]; exact Bool.false_ne_true)]

theorem findEntry_at {l : List Buf} {partNum k : Nat} (flags : ∀ pt ∈ l, bootInd pt = 0 ∨ bootInd pt = 0x80)
    (number : n = partNum + k) :
    findEntry sector n l partNum = match (l.filter (counts sector))[k]?.filter isData with
      | some pt => .inl pt
      | none => .inr (partNum + (l.filter (counts sector)).length) := by
  induction l generalizing partNum k with
  | nil => rfl
  | cons pt rest ih =>
    have flagsRest : ∀ pt ∈ rest, bootInd pt = 0 ∨ bootInd pt = 0x80 :=
      fun pt member => flags pt (List.mem_cons_of_mem _ member)
    rw [findEntry]
    simp only [found_iff (flags pt List.mem_cons_self)]
    cases counted : counts sector pt with
    | false =>
      have other : isData pt ≠ true := fun data => by
        rw [counts_of_isData data] at counted
        cases counted
      rw [if_neg (fun found => other found.2), if_neg Bool.false_ne_true, ih flagsRest number,
        List.filter_cons_of_neg (by rw [counted]; exact Bool.false_ne_true)]
    | true =>
      rw [List.filter_cons_of_pos counted, List.length_cons, if_pos rfl]
      cases k with
      | zero =>
        rw [List.getElem?_cons_zero]
        cases data : isData pt with
        | true => rw [if_pos ⟨by omega, rfl⟩, Option.filter_some, if_pos data]
        | false =>
          rw [if_neg (fun found => Bool.false_ne_true found.2), findEntry_behind (by omega), Option.filter_some, data,
            if_neg Bool.false_ne_true]
          simp only [Sum.inr.injEq]
          omega
      | succ k =>
        rw [if_neg (fun found => absurd found.1 (by omega)), ih flagsRest (show n = (partNum + 1 : Nat) + k by omega),
          List.getElem?_cons_succ, show partNum + 1 + (rest.filter (counts sector)).length =
            partNum + ((rest.filter (counts sector)).length + 1) by omega]

end Search

section Chain

variable {dev : BlkDesc} {base : Nat} {n : Int} {disksig : Nat} {info : DiskPartition}

/-- The result of a search among the entries `left`, which are numbered from `partNum` on. -/
def searchFrom (dev : BlkDesc) (n : Int) (disksig : Nat) (info : DiskPartition) (left : List (Nat × Buf))
    (partNum : Nat) : Bool × DiskPartition :=
  if n < partNum then (false, info)
  else match left[(n - partNum).toNat]? with
    | some (sector, pt) => (true, entryInfo dev sector disksig n pt)
    | none => (false, info)

theorem searchFrom_behind {left : List (Nat × Buf)} {partNum : Nat} (behind : n < partNum) :
    searchFrom dev n disksig info left partNum = (false, info) := if_pos behind

theorem searchFrom_at {left : List (Nat × Buf)} {partNum k : Nat} (number : n = partNum + k) :
    searchFrom dev n disksig info left partNum = match left[k]? with
      | some (sector, pt) => (true, entryInfo dev sector disksig n pt)
      | none => (false, info) := by
  rw [searchFrom, if_neg (by omega), show (n - partNum).toNat = k by omega]

theorem partGetInfoExtended_record {sector relative partNum depth : Nat} {record : Buf}
    (read : dev.read sector = some record) (good : GoodRecord record) :
    partGetInfoExtended dev n (depth + 1) (sector, relative) partNum info disksig =
      match findEntry sector n (entries record) partNum with
      | .inl pt =>
        some (true, entryInfo dev sector (if sector = 0 then getLe32 record 0x1b8 else disksig) n pt)
      | .inr partNum =>
        match (entries record).find? isExtended with
        | some pt => partGetInfoExtended dev n depth (follow sector relative pt) partNum info
            (if sector = 0 then getLe32 record 0x1b8 else disksig)
        | none => some (false, info) := by
  rw [partGetInfoExtended]
  simp only [read, good.magic, good.not_pbr, Bool.not_true, Bool.false_eq_true, if_false]
  all_goals rfl

theorem RecordsFrom.sector_lt {sector : Nat} {chain : List (Nat × Buf)} (records : RecordsFrom dev base (some sector) chain) :
    sector < 2 ^ 32 := by
  cases records with
  | next read _ _ => exact (dev.read_lt _ _ read).trans dev.lba_lt

theorem RecordsFrom.search {l : Option Nat} {chain : List (Nat × Buf)} (records : RecordsFrom dev base l chain)
    (apart : 0 ∉ chain.map Prod.fst) {sector : Nat} (here : l = some sector) {partNum depth : Nat}
    (enough : chain.length ≤ depth) :
    partGetInfoExtended dev n depth (sector, base) partNum info disksig =
      some (searchFrom dev n disksig info (logicals chain) partNum) := by
  induction records generalizing sector partNum depth with
  | last => cases here
  | @next sector record rest read good further ih =>
    cases here
    rw [List.map_cons, List.mem_cons, not_or] at apart
    rw [List.length_cons] at enough
    obtain ⟨depth, rfl⟩ : ∃ d, depth = d + 1 := ⟨depth - 1, by omega⟩
    have counted : (entries record).filter (counts sector) = (entries record).filter isData :=
      List.filter_congr (fun pt _ => by rw [counts, isData, beq_eq_false_iff_ne.mpr (Ne.symm apart.1), Bool.false_or])
    -- behind the record the next one is searched, or the chain has ended
    have handed (p : Nat) : (match (entries record).find? isExtended with
        | some pt => partGetInfoExtended dev n depth (follow sector base pt) p info disksig
        | none => some (false, info)) = some (searchFrom dev n disksig info (logicals rest) p) := by
      cases linked : (entries record).find? isExtended with
      | some pt =>
        rw [link, linked, Option.map_some] at further ih
        have target : follow sector base pt = (base + start4 pt, base) := by
          rw [follow, if_neg (Ne.symm apart.1), Nat.add_comm, w32_of_lt further.sector_lt]
        simp only [target]
        exact ih apart.2 rfl (by omega)
      | none =>
        rw [link, linked, Option.map_none] at further
        cases further
        simp [searchFrom, logicals]
    rw [partGetInfoExtended_record read good]
    simp only [if_neg (Ne.symm apart.1)]
    rw [logicals, List.flatMap_cons, ← logicals]
    rcases lt_or_ge n (partNum : Int) with behind | ahead
    · rw [findEntry_behind behind, searchFrom_behind behind]
      simp only [handed]
      rw [searchFrom_behind (by omega)]
    · obtain ⟨k, number⟩ : ∃ k : Nat, n = partNum + k := ⟨(n - partNum).toNat, by omega⟩
      have data : ((entries record).filter isData)[k]?.filter isData = ((entries record).filter isData)[k]? := by
        cases at_ : ((entries record).filter isData)[k]? with
        | none => rfl
        | some pt => rw [Option.filter_some, if_pos (List.mem_filter.mp (List.mem_of_getElem? at_)).2]
      rw [findEntry_at good.flags number, counted, data, searchFrom_at number]
      cases at_ : ((entries record).filter isData)[k]? with
      | some pt =>
        have below := (List.getElem?_eq_some_iff.mp at_).1
        rw [List.getElem?_append_left (by rwa [List.length_map]), List.getElem?_map, at_]
        rfl
      | none =>
        have above := List.getElem?_eq_none_iff.mp at_
        simp only [handed]
        rw [List.getElem?_append_right (by rwa [List.length_map]), List.length_map,
          searchFrom_at (show n = (partNum + ((entries record).filter isData).length : Nat) +
            (k - ((entries record).filter isData).length : Nat) by omega)]

end Chain

theorem partGetInfoDos_eq {dev : BlkDesc} {mbr : Buf} {chain : List (Nat × Buf)} (disk : Partitioned dev mbr chain)
    (n : Int) (info : DiskPartition) {depth : Nat} (enough : chain.length < depth) :
    partGetInfoDos dev depth n info = some (match partitionAt mbr chain n with
      | some (sector, pt) => (true, entryInfo dev sector (getLe32 mbr 0x1b8) n pt)
      | none => (false, info)) := by
  obtain ⟨depth, rfl⟩ : ∃ d, depth = d + 1 := ⟨depth - 1, by omega⟩
  have apart : 0 ∉ chain.map Prod.fst := (List.nodup_cons.mp disk.acyclic).1
  have counted : (entries mbr).filter (counts 0) = entries mbr := List.filter_eq_self.mpr (fun pt _ => rfl)
  have four : (entries mbr).length = 4 := rfl
  have handed : (match (entries mbr).find? isExtended with
      | some pt => partGetInfoExtended dev n depth (follow 0 0 pt) 5 info (getLe32 mbr 0x1b8)
      | none => some (false, info)) = some (searchFrom dev n (getLe32 mbr 0x1b8) info (logicals chain) 5) := by
    have records := disk.records
    cases linked : (entries mbr).find? isExtended with
    | some pt =>
      have start : link 0 mbr = some (start4 pt) := by rw [link, linked, Option.map_some, Nat.zero_add]
      have target : follow 0 0 pt = (start4 pt, start4 pt) := by
        rw [follow, if_pos rfl, Nat.add_zero, w32_of_lt (start4_lt pt)]
      rw [start, Option.getD_some] at records
      simp only [target]
      exact records.search apart rfl (by omega)
    | none =>
      have none_ : link 0 mbr = none := by rw [link, linked, Option.map_none]
      rw [none_] at records
      cases records
      simp [searchFrom, logicals]
  rw [partGetInfoDos, partGetInfoExtended_record disk.first disk.good]
  simp only [if_pos]
  unfold partitionAt
  rcases lt_or_ge n 1 with behind | ahead
  · rw [findEntry_behind (show n < (1 : Nat) by omega), counted, four]
    simp only [handed]
    rw [searchFrom_behind (by omega), if_neg (by omega), if_neg (by omega)]
  · obtain ⟨k, number⟩ : ∃ k : Nat, n = (1 : Nat) + k := ⟨(n - 1).toNat, by omega⟩
    rw [findEntry_at disk.good.flags number, counted, four]
    by_cases primary : n ≤ 4
    · rw [if_pos ⟨ahead, primary⟩, show (n - 1).toNat = k by omega]
      cases (entries mbr)[k]?.filter isData with
      | some pt => rfl
      | none =>
        simp only [handed]
        rw [searchFrom_behind (by omega)]
        rfl
    · rw [if_neg (fun both => primary both.2), if_pos (by omega), List.getElem?_eq_none (by omega)]
      simp only [Option.filter_none, handed]
      rw [searchFrom_at (show n = (5 : Nat) + ((n - 5).toNat : Nat) by omega)]

/-- The call for the number `n` finds the partition with its absolute start and its size, and fails if there is none. -/
def RightInfo (dev : BlkDesc) (mbr : Buf) (chain : List (Nat × Buf)) (n : Int) : Prop :=
  ∀ info depth, chain.length < depth → ∃ ok info', partGetInfoDos dev depth n info = some (ok, info') ∧
    match partitionAt mbr chain n with
    | some (sector, pt) => ok = true ∧ info'.start = sector + start4 pt ∧ info'.size = size4 pt
    | none => ok = false

/-- Partitions are numbered as they should be; the start of one is exact unless it is no sector number at all. -/
theorem rightInfo_iff {dev : BlkDesc} {mbr : Buf} {chain : List (Nat × Buf)} (disk : Partitioned dev mbr chain) (n : Int) :
    RightInfo dev mbr chain n ↔
      ∀ sector pt, partitionAt mbr chain n = some (sector, pt) → sector + start4 pt < 2 ^ 32 := by
  constructor
  · intro right sector pt there
    obtain ⟨ok, info', run, found⟩ := right ⟨0, 0, 0, [], [], false, [], 0⟩ (chain.length + 1) (by omega)
    rw [partGetInfoDos_eq disk n _ (by omega), there] at run
    rw [there] at found
    cases run
    rw [← found.2.1]
    exact w32_lt _
  · intro small info depth enough
    refine ⟨_, _, partGetInfoDos_eq disk n info enough, ?_⟩
    cases there : partitionAt mbr chain n with
    | some p => exact ⟨rfl, w32_of_lt (small p.1 p.2 there), rfl⟩
    | none => rfl

/-- A record with two entries, each given by its type, start and size. -/
def sampleRecord (first second : UInt8 × Nat × Nat) : Buf :=
  let types : Buf := fun i =>
    if i = 0x1fe then 0x55 else if i = 0x1ff then 0xaa else if i = 0x1c2 then first.1 else if i = 0x1d2 then second.1 else 0
  putLe32 (putLe32 (putLe32 (putLe32 types 0x1c6 first.2.1) 0x1ca first.2.2) 0x1d6 second.2.1) 0x1da second.2.2

def sampleMbr : Buf := sampleRecord (0x83, 2, 4) (0x5, 8, 32)

/-- The extended boot record, with a logical partition one sector behind it, or behind the last sector number. -/
def sampleEbr (wrapped : Bool) : Buf := sampleRecord (0x83, if wrapped then 2 ^ 32 - 8 else 1, 16) (0, 0, 0)

theorem twoRecords_lt {first second lba sector : Nat} {a b buffer : Buf} (below : first < lba) (below' : second < lba)
    (read : (if sector = first then some a else if sector = second then some b else none) = some buffer) : sector < lba := by
  split at read
  · omega
  · split at read
    · omega
    · cases read

def sampleDisk (wrapped : Bool) : BlkDesc where
  ifType := .mmc
  devnum := 0
  lba := 64
  read sector := if sector = 0 then some sampleMbr else if sector = 8 then some (sampleEbr wrapped) else none
  lba_lt := by decide
  read_lt _ _ := twoRecords_lt (by decide) (by decide)

theorem sampleDisk_partitioned (wrapped : Bool) : Partitioned (sampleDisk wrapped) sampleMbr [(8, sampleEbr wrapped)] := by
  have mbr : GoodRecord sampleMbr := ⟨by decide +kernel, by decide +kernel, by decide +kernel⟩
  have ebr : GoodRecord (sampleEbr wrapped) := by
    constructor <;> revert wrapped <;> decide +kernel
  have first : link 0 sampleMbr = some 8 := by decide +kernel
  have last : ∀ wrapped, link 8 (sampleEbr wrapped) = none := by decide +kernel
  refine ⟨rfl, mbr, ?_, by simp⟩
  rw [first, Option.getD_some]
  exact .next rfl ebr (by rw [last]; exact .last)

theorem sampleDisk_right : Partitioned (sampleDisk false) sampleMbr [(8, sampleEbr false)] ∧
    ∀ n, RightInfo (sampleDisk false) sampleMbr [(8, sampleEbr false)] n := by
  have few : ∀ p ∈ (entries sampleMbr).map (Prod.mk 0) ++ logicals [(8, sampleEbr false)],
      p.1 + start4 p.2 < 2 ^ 32 := by decide +kernel
  refine ⟨sampleDisk_partitioned false, fun n => (rightInfo_iff (sampleDisk_partitioned false) n).mpr ?_⟩
  intro sector pt there
  unfold partitionAt at there
  split at there
  · obtain ⟨pt', found, same⟩ := Option.map_eq_some_iff.mp there
    cases same
    refine few (0, pt) (List.mem_append_left _ (List.mem_map_of_mem ?_))
    exact List.mem_of_getElem? (Option.filter_eq_some_iff.mp found).1
  · split at there
    · exact few (sector, pt) (List.mem_append_right _ (List.mem_of_getElem? there))
    · cases there

/-- A logical partition that is said to start 2^32 - 8 sectors behind its record is reported to start at sector 0. -/
theorem sampleDisk_wrapped : Partitioned (sampleDisk true) sampleMbr [(8, sampleEbr true)] ∧
    ¬ RightInfo (sampleDisk true) sampleMbr [(8, sampleEbr true)] 5 := by
  refine ⟨sampleDisk_partitioned true, fun right => ?_⟩
  obtain ⟨ok, info', run, found⟩ := right ⟨0, 0, 0, [], [], false, [], 0⟩ 2 (by decide)
  have there : (partitionAt sampleMbr [(8, sampleEbr true)] 5).map (fun p => p.1 + start4 p.2) = some (2 ^ 32) := by
    decide +kernel
  have reported : (partGetInfoDos (sampleDisk true) 2 5 ⟨0, 0, 0, [], [], false, [], 0⟩).map (fun r => r.2.start) =
      some 0 := by decide +kernel
  obtain ⟨p, at_, sum⟩ := Option.map_eq_some_iff.mp there
  rw [run, Option.map_some, Option.some_inj] at reported
  rw [at_] at found
  rw [found.2.1, sum] at reported
  exact absurd reported (by decide)

end UuuFastboot.Dos
