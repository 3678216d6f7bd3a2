import UuuFastboot.Flash.Target
import UuuFastboot.Gadget.Runs

namespace UuuFastboot

open Word CString

/-- The names of the entries that stand in front of those of the disk. -/
def fixedNames : List CStr := [cstr "gpt", cstr "tos", cstr "all", cstr "bootloader"]

def OnDisk (parts : Nat → Option DiskPartition) (i : Nat) (info : DiskPartition) : Prop := 1 ≤ i ∧ parts i = some info

/-- No two partitions of the disk have the same name, and none has an empty one. -/
structure NamedApart (parts : Nat → Option DiskPartition) : Prop where
  nonempty : ∀ i info, OnDisk parts i info → info.name ≠ []
  distinct : ∀ i j info info', OnDisk parts i info → OnDisk parts j info' → info.name = info'.name → i = j

/-- Every partition of the disk is found under its name, and no name stands twice in the table. -/
structure FoundByName (emmc : Bool) (parts : Nat → Option DiskPartition) (ptable : List PtEntry) : Prop where
  found : ∀ i info, OnDisk parts i info → fastbootFlashFindPtn ptable info.name = some (diskEntry emmc i info)
  nodup : (ptable.map PtEntry.name).Nodup

/-- The table has the partition under its whole name: the name fits into its field, no fixed entry has it, and
all the partitions in front of it are there, of which the table has room for 28. -/
structure Listed (parts : Nat → Option DiskPartition) (i : Nat) (info : DiskPartition) : Prop where
  short : info.name.length ≤ 19
  free : info.name ∉ fixedNames
  room : i ≤ maxPtn - 4
  noGap : ∀ j, 1 ≤ j → j < i → (parts j).isSome

theorem fixedEntries_names (emmc : Bool) (lba : Nat) : (fixedEntries emmc lba).map PtEntry.name = fixedNames := rfl

theorem mem_diskEntries_iff {emmc : Bool} {parts : Nat → Option DiskPartition} {room index : Nat} {p : PtEntry} :
    p ∈ diskEntries emmc parts room index ↔
      ∃ i info, index ≤ i ∧ i < index + room ∧ parts i = some info ∧
        (∀ j, index ≤ j → j < i → (parts j).isSome) ∧ p = diskEntry emmc i info := by
  induction room generalizing index with
  | zero =>
    refine ⟨fun member => absurd member List.not_mem_nil, ?_⟩
    rintro ⟨i, info, lower, upper, -⟩
    omega
  | succ room ih =>
    rw [diskEntries]
    split
    · next missing =>
      refine ⟨fun member => absurd member List.not_mem_nil, ?_⟩
      rintro ⟨i, info, lower, upper, there, noGap, -⟩
      rcases Nat.eq_or_lt_of_le lower with rfl | later
      · rw [missing] at there
        cases there
      · have present := noGap index (Nat.le_refl _) later
        rw [missing] at present
        cases present
    · next first there =>
      rw [List.mem_cons, ih]
      constructor
      · rintro (rfl | ⟨i, info, lower, upper, found, noGap, rfl⟩)
        · exact ⟨index, first, Nat.le_refl _, by omega, there, fun j low high => by omega, rfl⟩
        · refine ⟨i, info, by omega, by omega, found, fun j low high => ?_, rfl⟩
          rcases Nat.eq_or_lt_of_le low with rfl | later
          · rw [there]
            rfl
          · exact noGap j later high
      · rintro ⟨i, info, lower, upper, found, noGap, rfl⟩
        rcases Nat.eq_or_lt_of_le lower with rfl | later
        · rw [there] at found
          cases found
          exact Or.inl rfl
        · exact Or.inr ⟨i, info, later, by omega, found, fun j low high => noGap j (by omega) high, rfl⟩

theorem fastbootFlashFindPtn_of_nodup {ptable : List PtEntry} {p : PtEntry}
    (nodup : (ptable.map PtEntry.name).Nodup) (member : p ∈ ptable) : fastbootFlashFindPtn ptable p.name = some p := by
  cases search : fastbootFlashFindPtn ptable p.name with
  | none =>
    have missed := List.find?_eq_none.mp search p member
    simp at missed
  | some q =>
    have same : q.name = p.name := found_name search
    rw [List.inj_on_of_nodup_map nodup (List.mem_of_find?_eq_some search) member same]

section

variable {parts : Nat → Option DiskPartition} {emmc : Bool} {lba : Nat}

theorem diskEntry_name {info : DiskPartition} (i : Nat) (short : info.name.length ≤ 19) :
    (diskEntry emmc i info).name = info.name := List.take_of_length_le short

theorem diskEntries_nodup (apart : NamedApart parts) (short : ∀ i info, OnDisk parts i info → info.name.length ≤ 19)
    {room index : Nat} (counted : 1 ≤ index) : ((diskEntries emmc parts room index).map PtEntry.name).Nodup := by
  induction room generalizing index with
  | zero => exact List.nodup_nil
  | succ room ih =>
    rw [diskEntries]
    split
    · exact List.nodup_nil
    · next first there =>
      rw [List.map_cons, List.nodup_cons]
      refine ⟨fun again => ?_, ih (by omega)⟩
      obtain ⟨p, member, same⟩ := List.mem_map.mp again
      obtain ⟨i, info, lower, -, found, -, rfl⟩ := mem_diskEntries_iff.mp member
      have here : OnDisk parts index first := ⟨counted, there⟩
      have behind : OnDisk parts i info := ⟨by omega, found⟩
      rw [diskEntry_name i (short i info behind), diskEntry_name index (short index first here)] at same
      have equal := apart.distinct i index info first behind here same
      omega

theorem Listed.of_found {i : Nat} {info : DiskPartition} (there : OnDisk parts i info)
    (found : fastbootFlashFindPtn (ptableOf emmc lba parts) info.name = some (diskEntry emmc i info)) :
    Listed parts i info := by
  have name : (diskEntry emmc i info).name = info.name := found_name found
  have free : info.name ∉ fixedNames := by
    intro taken
    rw [← fixedEntries_names emmc lba] at taken
    obtain ⟨p, member, same⟩ := List.mem_map.mp taken
    rw [fastbootFlashFindPtn, ptableOf, List.find?_append] at found
    cases first : (fixedEntries emmc lba).find? (fun ptn => ptn.name == info.name) with
    | none =>
      have missed := List.find?_eq_none.mp first p member
      simp [same] at missed
    | some q =>
      rw [first, Option.some_or] at found
      cases found
      have counted := there.1
      have fixed := List.mem_of_find?_eq_some first
      simp only [fixedEntries, diskEntry, List.mem_cons, PtEntry.mk.injEq, List.not_mem_nil, or_false] at fixed
      omega
  rcases List.mem_append.mp (List.mem_of_find?_eq_some found) with fixed | disk
  · refine absurd (List.mem_map_of_mem (f := PtEntry.name) fixed) ?_
    rw [fixedEntries_names, name]
    exact free
  · obtain ⟨j, info', lower, upper, -, noGap, same⟩ := mem_diskEntries_iff.mp disk
    have index : i = j := congrArg PtEntry.partitionIndex same
    subst index
    refine ⟨?_, free, by omega, noGap⟩
    have cut := congrArg List.length name
    simp only [diskEntry, List.length_take] at cut
    omega

theorem ptableOf_nodup (apart : NamedApart parts) (listed : ∀ i info, OnDisk parts i info → Listed parts i info) :
    ((ptableOf emmc lba parts).map PtEntry.name).Nodup := by
  have short := fun i info there => (listed i info there).short
  rw [ptableOf, List.map_append, fixedEntries_names, List.nodup_append]
  refine ⟨by decide, diskEntries_nodup apart short (Nat.le_refl 1), ?_⟩
  rintro name fixed name' disk rfl
  obtain ⟨p, member, rfl⟩ := List.mem_map.mp disk
  obtain ⟨i, info, lower, -, found, -, rfl⟩ := mem_diskEntries_iff.mp member
  have here := listed i info ⟨lower, found⟩
  rw [diskEntry_name i here.short] at fixed
  exact here.free fixed

end

/-- Loading the partitions of a disk with different names gives a table that has each of them under its name
exactly when every name has at most 19 characters and is not that of a fixed entry, and the partitions are
numbered from 1 on without a gap and are at most 28. -/
theorem loadPartitions_foundByName_iff {σ : Type} (b : Board σ) (d : DevInfo) (s : Session σ) {emmc : Bool} {lba : Nat}
    {parts : Nat → Option DiskPartition} (loads : (b.load d s.world.storage).1 = true)
    (table : b.tableOf d s.world.storage = ptableOf emmc lba parts) (apart : NamedApart parts) :
    FoundByName emmc parts (fastbootLoadPartitions b d s).ptable ↔
      ∀ i info, OnDisk parts i info → Listed parts i info := by
  have loaded : (fastbootLoadPartitions b d s).ptable = ptableOf emmc lba parts := by
    simp only [fastbootLoadPartitions, loads, if_true, table]
  rw [loaded]
  constructor
  · exact fun sound i info there => Listed.of_found there (sound.found i info there)
  · intro listed
    have nodup : ((ptableOf emmc lba parts).map PtEntry.name).Nodup := ptableOf_nodup apart listed
    refine ⟨fun i info there => ?_, nodup⟩
    have here := listed i info there
    have member : diskEntry emmc i info ∈ ptableOf emmc lba parts :=
      List.mem_append_right _ (mem_diskEntries_iff.mpr
        ⟨i, info, there.1, by have := here.room; omega, there.2, here.noGap, rfl⟩)
    have found := fastbootFlashFindPtn_of_nodup nodup member
    rwa [diskEntry_name i here.short] at found

def diskBoard (parts : Nat → Option DiskPartition) : Board Unit :=
  { smallBoard with tableOf := fun _ _ => ptableOf false 8192 parts }

def diskTable (parts : Nat → Option DiskPartition) : List PtEntry :=
  (fastbootLoadPartitions (diskBoard parts) ⟨.mmc, 1⟩ (powerOn emptyWorld)).ptable

def onlyPart (name : String) (index : Nat) : Option DiskPartition :=
  if index = 1 then some ⟨cstr name, 100, 50⟩ else none

theorem onDisk_onlyPart {name : String} {i : Nat} {info : DiskPartition} (there : OnDisk (onlyPart name) i info) :
    i = 1 ∧ info = ⟨cstr name, 100, 50⟩ := by
  obtain ⟨-, found⟩ := there
  unfold onlyPart at found
  split at found
  · next first => exact ⟨first, (Option.some.inj found).symm⟩
  · cases found

theorem namedApart_onlyPart {name : String} (some : cstr name ≠ []) : NamedApart (onlyPart name) where
  nonempty i info there := by rw [(onDisk_onlyPart there).2]; exact some
  distinct i j info info' there there' _ := by rw [(onDisk_onlyPart there).1, (onDisk_onlyPart there').1]

theorem system_foundByName :
    (diskTable (onlyPart "system")).length = 5 ∧ FoundByName false (onlyPart "system") (diskTable (onlyPart "system")) := by
  refine ⟨by decide, (loadPartitions_foundByName_iff (diskBoard (onlyPart "system")) ⟨.mmc, 1⟩ (powerOn emptyWorld)
    rfl rfl (namedApart_onlyPart (by decide))).mpr fun i info there => ?_⟩
  obtain ⟨rfl, rfl⟩ := onDisk_onlyPart there
  exact ⟨by decide, by decide, by decide, fun j low high => by omega⟩

/-- A partition with a name of 20 characters is not found under it. -/
theorem longName_not_found :
    NamedApart (onlyPart "vendor_boot_recovery") ∧ OnDisk (onlyPart "vendor_boot_recovery") 1 ⟨cstr "vendor_boot_recovery", 100, 50⟩ ∧
      fastbootFlashFindPtn (diskTable (onlyPart "vendor_boot_recovery")) (cstr "vendor_boot_recovery") = none ∧
      ¬ FoundByName false (onlyPart "vendor_boot_recovery") (diskTable (onlyPart "vendor_boot_recovery")) := by
  have there : OnDisk (onlyPart "vendor_boot_recovery") 1 ⟨cstr "vendor_boot_recovery", 100, 50⟩ := ⟨Nat.le_refl 1, rfl⟩
  have missed : fastbootFlashFindPtn (diskTable (onlyPart "vendor_boot_recovery")) (cstr "vendor_boot_recovery") = none := by
    decide
  refine ⟨namedApart_onlyPart (by decide), there, missed, fun sound => ?_⟩
  have found := sound.found _ _ there
  rw [missed] at found
  cases found

end UuuFastboot
