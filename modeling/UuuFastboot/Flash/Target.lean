import UuuFastboot.Flash.Response
import UuuFastboot.Mmc.Frame
import UuuFastboot.Sparse.Bounds

namespace UuuFastboot

open Word CString

/-! The entries of a loaded table. -/

variable {emmc : Bool} {parts : Nat → Option DiskPartition} {p : PtEntry} {o : FlashOutcome} {q : FlashRequest}

theorem mem_diskEntries {room index : Nat}
    (member : p ∈ diskEntries emmc parts room index) : ∃ k info, p = diskEntry emmc k info := by
  induction room generalizing index with
  | zero => cases member
  | succ room ih =>
    rw [diskEntries] at member
    split at member
    · cases member
    · rename_i info _
      rcases List.mem_cons.mp member with rfl | later
      · exact ⟨index, info, rfl⟩
      · exact ih later

theorem ptableOf_entry {lba : Nat}
    (member : p ∈ ptableOf emmc lba parts) : hasFlag p flagWriteEnv = false ∧ p.partitionId.getD 0 ≤ 2 := by
  rcases List.mem_append.mp member with fixed | disk
  · simp only [fixedEntries, List.mem_cons, List.not_mem_nil, or_false] at fixed
    rcases fixed with rfl | rfl | rfl | rfl <;> cases emmc <;> simp [hasFlag, flagWriteEnv, flagUneraseable]
  · obtain ⟨k, info, rfl⟩ := mem_diskEntries disk
    cases emmc <;> simp [hasFlag, diskEntry]

theorem found_name {ptable : List PtEntry} {name : CStr}
    (found : fastbootFlashFindPtn ptable name = some p) : p.name = name := by
  have matched := List.find?_some found
  simpa using matched

theorem ptableOf_gpt {lba : Nat} {name : CStr}
    (found : fastbootFlashFindPtn (ptableOf emmc lba parts) name = some p) (gpt : p.name = cstr "gpt") :
    p.start = 0 ∧ p.length = 2048 ∧ p.partitionId.getD 0 = 0 := by
  have isName : name = cstr "gpt" := (found_name found).symm.trans gpt
  rw [isName] at found
  have first : p = ⟨cstr "gpt", 0, 0x100000 / 512, flagUneraseable, if emmc then some 0 else none, 0⟩ :=
    (Option.some.inj found).symm
  subst first
  cases emmc <;> exact ⟨rfl, rfl, rfl⟩

theorem reparse_of_lt : ∀ n < 10, reparse n = n := by decide

/-! Where a flash command is meant to write. -/

/-- The device of the boot loader can be set apart. -/
def flashDevice (q : FlashRequest) (p : PtEntry) : Nat :=
  match targetUbootdev q.env p with
  | some text => simpleStrtoul text 10
  | none => q.devinfo.devId

/-- The hardware partition: that of the entry, or for a boot loader on a
device of its own the first boot partition if it has one. -/
def flashHwpart (q : FlashRequest) (p : PtEntry) (st : Storage) : Nat :=
  match targetUbootdev q.env p with
  | some text => if ((st.card (simpleStrtoul text 10)).map Card.emmc).getD false then 1 else 0
  | none => p.partitionId.getD 0

/-- The blocks of the entry in a hardware partition; for the GPT also the
places of the two copies, and for the entry of the whole device all of the
user area. -/
def areaOn (dev part : Nat) (q : FlashRequest) (p : PtEntry) (st : Storage) : Set CellAddr :=
  {x | (x.1 = dev ∧ x.2 ∈ blockArea part p.start p.length) ∨
    (p.name = cstr "gpt" ∧ x.1 = q.devinfo.devId ∧ x.2.1 = 0 ∧
      (x.2.2 / 512 < 34 ∨ ∃ c, st.card q.devinfo.devId = some c ∧ c.lba 0 - 33 ≤ x.2.2 / 512)) ∨
    (p.name = cstr "all" ∧ x.1 = q.devinfo.devId ∧ x.2.1 = 0)}

def entryArea (q : FlashRequest) (p : PtEntry) (st : Storage) : Set CellAddr :=
  areaOn q.devinfo.devId (p.partitionId.getD 0) q p st

def flashArea (q : FlashRequest) (p : PtEntry) (st : Storage) : Set CellAddr :=
  areaOn (flashDevice q p) (flashHwpart q p st) q p st

def isRawFlash (q : FlashRequest) (p : PtEntry) : Bool := isRawPartition p || !isSparseImage q.image

/-- What a flash command needs to find its partition. -/
structure Routed (reader : PartReader) (o : FlashOutcome) (q : FlashRequest) (p : PtEntry) (st : Storage) : Prop where
  /-- The number of the device has one digit. -/
  number : flashDevice q p < 10
  /-- The name starts like the two special ones only if it is one of them. -/
  gptName : isGpt p = true → p.name = cstr "gpt"
  allName : isAll p = true → p.name = cstr "all"
  /-- In front of a raw write the device can be selected. -/
  selected : isRawFlash q p = true → ∃ c, st.card (flashDevice q p) = some c ∧ o.deviceSelect.init.ok = true ∧
    (flashHwpart q p st = 0 ∨ (c.emmc = true ∧ o.deviceSelect.switch = true))
  /-- A sparse image finds the entry's blocks in the partition table of the
  device, and no position in it wraps. -/
  sparse : isRawFlash q p = false → isAll p = false →
    p.partitionId.getD 0 = 0 ∧ p.start + p.length < 2 ^ 32 ∧
      ∀ c c', st.card q.devinfo.devId = some c → c'.data = c.data → c'.hwpart = 0 →
        (∀ info, reader c' p.partitionIndex = some info → info.start = p.start ∧ info.size = p.length) ∧
          RunFits (sparseStorage o.sparseWrite p.start p.length) q.image o.alloc sparseFuel ⟨c', []⟩

/-! What a flash command does to the storage. -/

theorem getFastbootTargetDev_sameData (o : FlashOutcome) (q : FlashRequest) (p : PtEntry) (st : Storage) :
    st.SameData (getFastbootTargetDev o q p (flashStart st)).2.storage := by
  unfold getFastbootTargetDev
  split
  · exact .refl st
  · have same := st.withCard_sameData (Card.mmcInit_data o.targetInit)
    dsimp only
    split
    · exact same _
    · exact same _

theorem getFastbootTargetDev_target {st : Storage}
    {target : MmcDev} {r : FlashRun} (opened : getFastbootTargetDev o q p (flashStart st) = (some target, r))
    (small : p.partitionId.getD 0 ≤ 2) :
    target.dev = flashDevice q p ∧ (target.part.map reparse).getD 0 = flashHwpart q p st := by
  unfold getFastbootTargetDev at opened
  unfold flashDevice flashHwpart
  cases redirect : targetUbootdev q.env p with
  | none =>
    rw [redirect] at opened
    obtain ⟨targetEq, -⟩ := Prod.mk.inj opened
    obtain rfl := Option.some.inj targetEq
    refine ⟨rfl, ?_⟩
    cases part : p.partitionId with
    | none => rfl
    | some id =>
      rw [part] at small
      exact reparse_of_lt id (Nat.lt_of_le_of_lt small (by decide))
  | some text =>
    rw [redirect] at opened
    dsimp only at opened ⊢
    split at opened
    · obtain ⟨targetEq, -⟩ := Prod.mk.inj opened
      obtain rfl := Option.some.inj targetEq
      refine ⟨rfl, ?_⟩
      change (Option.map reparse (if ((st.card (simpleStrtoul text 10)).map Card.emmc).getD false = true then some 1
        else none)).getD 0 = _
      split
      · exact reparse_of_lt 1 (by decide)
      · rfl
    · cases opened

theorem flashBlocks_changedWithin {target : MmcDev} {cnt : Nat}
    {r : FlashRun} (ok : (r.storage.mmcDev o.deviceSelect target).1 = true) :
    r.storage.ChangedWithin
      {x | x.1 = reparse target.dev ∧ x.2 ∈ blockArea ((target.part.map reparse).getD 0) p.start cnt}
      (flashBlocks o q p target cnt r).storage := by
  obtain ⟨current, c, present, ready, hwpart⟩ := Storage.mmcDev_ok ok
  have same := r.storage.mmcDev_sameData o.deviceSelect target
  refine (same.changedWithin _).trans ?_
  change Storage.ChangedWithin _ _ (Storage.mmcWrite _ _ _ _ _).2
  unfold Storage.mmcWrite
  change Storage.ChangedWithin _ _ (Storage.withCard (r.storage.mmcDev o.deviceSelect target).2
    (r.storage.mmcDev o.deviceSelect target).2.currDevice _).2
  rw [current, Storage.withCard_some _ present]
  have written := Storage.put_changedWithin present
    (Card.mmcWrite_changedWithin o.mmcWrite ready p.start cnt (fun i => some (q.image i)))
  rw [hwpart] at written
  exact written

theorem writeBackupGptPartitions_changedWithin (o : FlashOutcome) (g : GptImage) (mbr : Nat → Cell) (c : Card) :
    c.ChangedWithin {x | x.1 = c.hwpart ∧ (x.2 / 512 < 34 ∨ c.lba c.hwpart - 33 ≤ x.2 / 512)}
      (writeBackupGptPartitions o g mbr c).2 := by
  have capacity := c.lba_lt c.hwpart
  unfold writeBackupGptPartitions
  dsimp only
  split
  · exact .refl _ c
  have first := c.blkDwrite_changedWithin o.backupMbr 0 1 mbr
  generalize c.blkDwrite o.backupMbr 0 1 mbr = out at first
  have firstIn : c.ChangedWithin {x | x.1 = c.hwpart ∧ (x.2 / 512 < 34 ∨ c.lba c.hwpart - 33 ≤ x.2 / 512)} out.2 := by
    refine first.mono ?_
    rintro x ⟨⟨part, -, below⟩, -⟩
    exact ⟨part, Or.inl (by omega)⟩
  split
  · exact firstIn
  have second := out.2.blkDwrite_changedWithin o.backupEntries (w32 (c.lba c.hwpart + (2 ^ 32 - 33))) g.entryBlocks
    g.entries
  rw [first.hwpart, first.lba] at second
  generalize out.2.blkDwrite o.backupEntries _ g.entryBlocks g.entries = out' at second
  have secondIn : c.ChangedWithin {x | x.1 = c.hwpart ∧ (x.2 / 512 < 34 ∨ c.lba c.hwpart - 33 ≤ x.2 / 512)} out'.2 := by
    refine firstIn.trans (second.mono ?_)
    rintro x ⟨⟨part, above, -⟩, -⟩
    refine ⟨part, Or.inr ?_⟩
    unfold w32 at above
    omega
  split
  · exact secondIn
  have third := out'.2.blkDwrite_changedWithin o.backupHeader (w32 (c.lba c.hwpart + (2 ^ 32 - 1))) 1 g.header
  rw [secondIn.hwpart, secondIn.lba] at third
  refine secondIn.trans (third.mono ?_)
  rintro x ⟨⟨part, above, -⟩, -⟩
  refine ⟨part, Or.inr ?_⟩
  unfold w32 at above
  omega

theorem mmcSparseWrite_changedWithin (o : Nat → SparseWriteOutcome) (t : SparseTarget) (blk cnt : Nat)
    (src : Nat → Cell) :
    t.card.ChangedWithin (blockArea t.card.hwpart blk cnt) (mmcSparseWrite o t blk cnt src).2.card := by
  unfold mmcSparseWrite
  dsimp only
  split
  · exact (t.card.store_changedWithin blk cnt (fun _ => true) src).mono Set.inter_subset_left
  · exact (t.card.store_changedWithin blk cnt (o t.results.length).write.stored src).mono Set.inter_subset_left

theorem sparseImageRun_hwpart (o : FlashOutcome) (q : FlashRequest) (range : Nat × Nat) (c : Card) :
    c.ChangedWithin {x | x.1 = c.hwpart} (sparseImageRun o q range c).1.dev.card := by
  have step : ∀ t blk n src, c.ChangedWithin {x | x.1 = c.hwpart} (SparseTarget.card t) →
      c.ChangedWithin {x | x.1 = c.hwpart} (mmcSparseWrite o.sparseWrite t blk n src).2.card := by
    intro t blk n src holds
    have written := mmcSparseWrite_changedWithin o.sparseWrite t blk n src
    rw [holds.hwpart] at written
    exact holds.trans (written.mono (fun x inside => inside.1))
  have carries : (sparseStorage o.sparseWrite range.1 range.2).Carries
      (fun t => c.ChangedWithin {x | x.1 = c.hwpart} t.card) (fun t => c.ChangedWithin {x | x.1 = c.hwpart} t.card) :=
    ⟨fun t blk n src holds _ => step t blk n src holds, fun t blk n src holds => step t blk n src holds,
      fun _ holds => holds⟩
  exact (writeSparseImage_carried carries (Card.ChangedWithin.refl _ c)).1

theorem sparseImageRun_partition {start size : Nat} {c : Card}
    (representable : start + size < 2 ^ 32)
    (fits : RunFits (sparseStorage o.sparseWrite start size) q.image o.alloc sparseFuel ⟨c, []⟩) :
    c.ChangedWithin (blockArea c.hwpart start size) (sparseImageRun o q (start, size) c).1.dev.card := by
  have startEq : w32 start = start := w32_of_lt (by omega)
  have sizeEq : w32 size = size := w32_of_lt (by omega)
  have keeps : (sparseStorage o.sparseWrite start size).Keeps
      (fun t => c.ChangedWithin (blockArea c.hwpart start size) t.card) := by
    rintro t blk n src holds ⟨lower, upper⟩
    change w32 start ≤ blk at lower
    change blk + n ≤ w32 start + w32 size at upper
    rw [startEq] at lower
    rw [startEq, sizeEq] at upper
    have written := mmcSparseWrite_changedWithin o.sparseWrite t blk n src
    rw [holds.hwpart] at written
    refine holds.trans (written.mono ?_)
    rintro x ⟨part, above, below⟩
    exact ⟨part, by omega, by omega⟩
  have representable' : (sparseStorage o.sparseWrite start size).start +
      (sparseStorage o.sparseWrite start size).size < 2 ^ 32 := by
    change w32 start + w32 size < 2 ^ 32
    omega
  exact writeSparseImage_keeps representable' keeps (Card.ChangedWithin.refl _ c) fits

theorem targetUbootdev_of_sparse {env : Env} (other : isRawPartition p = false) :
    targetUbootdev env p = none := by
  refine if_neg (fun bootloader => ?_)
  rw [isRawPartition, bootloader] at other
  exact absurd other (by decide)

section

variable {reader : PartReader} {gpt : Mem → Card → GptImage} {o : FlashOutcome} {q : FlashRequest} {p : PtEntry}
  {st : Storage} {r : FlashRun}

theorem flashSparse_changedWithin (routed : Routed reader o q p st) (sparse : isRawFlash q p = false)
    (same : st.SameData r.storage) : st.ChangedWithin (flashArea q p st) (flashSparse reader o q p r).storage := by
  have notRaw : isRawPartition p = false := (Bool.or_eq_false_iff.mp sparse).1
  have device : flashDevice q p = q.devinfo.devId := by rw [flashDevice, targetUbootdev_of_sparse notRaw]
  have hwpart : flashHwpart q p st = p.partitionId.getD 0 := by rw [flashHwpart, targetUbootdev_of_sparse notRaw]
  have attached := (same.trans (Storage.withCard_sameData (Card.mmcInit_data o.cardInit) _ q.devinfo.devId)).trans
    (Storage.blkGetDev_sameData o.blkDev _ q.devinfo.devId)
  unfold flashSparse
  dsimp only
  split
  · rename_i c opened present
    have userArea : c.hwpart = 0 := Storage.blkGetDev_ok opened present
    split
    · exact attached.changedWithin _
    · rename_i range found
      refine (attached.changedWithin _).trans ?_
      change Storage.ChangedWithin _ _ (Storage.put _ q.devinfo.devId (sparseImageRun o q range c).1.dev.card)
      obtain ⟨c₀, original, lba, emmc, contents⟩ := attached.card present
      by_cases all : isAll p = true
      · refine (Storage.put_changedWithin present (sparseImageRun_hwpart o q range c)).mono ?_
        rintro x ⟨dev, part⟩
        exact Or.inr (Or.inr ⟨routed.allName all, dev, part.trans userArea⟩)
      · have other : isAll p = false := by simpa using all
        obtain ⟨userEntry, representable, table⟩ := routed.sparse sparse other
        have data : c.data = c₀.data := by simp only [Card.data, lba, emmc, contents]
        obtain ⟨matching, fits⟩ := table c₀ c original data userArea
        unfold sparseRange at found
        rw [if_neg all] at found
        obtain ⟨info, read, rangeEq⟩ := Option.map_eq_some_iff.mp found
        obtain ⟨startEq, sizeEq⟩ := matching info read
        rw [startEq, sizeEq] at rangeEq
        obtain rfl := rangeEq
        refine (Storage.put_changedWithin present (sparseImageRun_partition representable fits)).mono ?_
        rintro x ⟨dev, inside⟩
        rw [userArea] at inside
        refine Or.inl ⟨dev.trans device.symm, ?_⟩
        rw [hwpart, userEntry]
        exact inside
  · exact attached.changedWithin _

theorem flashBackupGpt_changedWithin {target : MmcDev} {st : Storage} (isName : p.name = cstr "gpt")
    (before : st.ChangedWithin (flashArea q p st) r.storage) :
    st.ChangedWithin (flashArea q p st) (flashBackupGpt gpt o q target r).storage := by
  unfold flashBackupGpt
  split
  · exact before
  · rename_i out written
    have backup : st.ChangedWithin (flashArea q p st) out.2 := by
      unfold writeBackupGpt at written
      dsimp only at written
      split at written
      · obtain rfl := Option.some.inj written
        exact before
      · rename_i c₀ present
        unfold Storage.blkGetDev at written
        rw [Storage.withCard_some _ present] at written
        dsimp only at written
        split at written
        · rename_i attached
          obtain rfl := Option.some.inj written
          rw [Storage.withCard_some _ (Storage.put_card_self _ _ _)]
          have opened := (Storage.withCard_sameData (Card.attach_data o.backupDev 0) r.storage q.devinfo.devId)
          rw [Storage.withCard_some _ present] at opened
          have size : (Card.attach o.backupDev 0 c₀).2.lba = c₀.lba :=
            congrArg Prod.fst (Card.attach_data o.backupDev 0 c₀)
          have inside := writeBackupGptPartitions_changedWithin o (gpt q.image (Card.attach o.backupDev 0 c₀).2)
            (fun i => some (q.image i)) (Card.attach o.backupDev 0 c₀).2
          rw [(Card.attach_ok attached).2, size] at inside
          refine before.trans ((opened.changedWithin _).trans
            ((Storage.put_changedWithin (Storage.put_card_self _ _ _) inside).mono ?_))
          rintro x ⟨dev, part, place⟩
          refine Or.inr (Or.inl ⟨isName, dev, part, ?_⟩)
          rcases place with primary | copy
          · exact Or.inl primary
          · have sizes := before.size q.devinfo.devId
            rw [present, Option.map_some] at sizes
            obtain ⟨c₁, original, lba⟩ := Option.map_eq_some_iff.mp sizes.symm
            exact Or.inr ⟨c₁, original, by rw [lba]; exact copy⟩
        · cases written
    have scanned := Storage.mmcDev_sameData o.rescan out.2 target
    exact backup.trans (scanned.changedWithin _)

theorem blocks_le {bytes length : Nat} (fits : bytes ≤ w32 (length * 512)) : (bytes + 512 - 1) / 512 ≤ length := by
  have exact := w32_le (length * 512)
  omega

theorem flashRaw_changedWithin {target : MmcDev} (routed : Routed reader o q p st) (raw : isRawFlash q p = true)
    (same : st.SameData r.storage) (device : target.dev = flashDevice q p)
    (hwpart : (target.part.map reparse).getD 0 = flashHwpart q p st) (small : flashHwpart q p st ≤ 2)
    (fits : q.downloadBytes ≤ w32 (p.length * 512)) (gptEntry : p.name = cstr "gpt" → 34 ≤ p.length) :
    st.ChangedWithin (flashArea q p st) (flashRaw gpt o q p target r).storage := by
  have number : reparse target.dev = flashDevice q p := by
    rw [device]
    exact reparse_of_lt _ routed.number
  have ok : (r.storage.mmcDev o.deviceSelect target).1 = true := by
    obtain ⟨c, present, ready, has⟩ := routed.selected raw
    have data := same (flashDevice q p)
    rw [present, Option.map_some] at data
    obtain ⟨c', present', eq⟩ := Option.map_eq_some_iff.mp data
    have emmc : c'.emmc = c.emmc := congrArg (fun d => d.2.1) eq
    unfold Storage.mmcDev
    dsimp only
    rw [number, hwpart, if_neg (by unfold partAccessMask; omega), Storage.withCard_some _ present']
    rw [← emmc] at has
    dsimp only
    rw [if_pos (Card.attach_forced ready has)]
  have blocks : ∀ cnt ≤ p.length, st.ChangedWithin (flashArea q p st) (flashBlocks o q p target cnt r).storage := by
    intro cnt within
    refine (same.changedWithin _).trans ((flashBlocks_changedWithin ok).mono ?_)
    rintro x ⟨dev, part, above, below⟩
    exact Or.inl ⟨dev.trans number, part.trans hwpart, above, by omega⟩
  unfold flashRaw
  split
  · rename_i isName
    refine flashBackupGpt_changedWithin (routed.gptName isName) ?_
    split
    · exact same.changedWithin _
    · exact blocks _ (gptEntry (routed.gptName isName))
  · exact blocks _ (blocks_le fits)

theorem flashHwpart_le (small : p.partitionId.getD 0 ≤ 2) : flashHwpart q p st ≤ 2 := by
  unfold flashHwpart
  split
  · split <;> decide
  · exact small

end

/-- A flash command that can find its partition changes the blocks of the
partition only. The table may be that of any device. -/
theorem flashCommand_changes_target (reader : PartReader) (gpt : Mem → Card → GptImage) (o : FlashOutcome)
    (q : FlashRequest) (st : Storage) (p : PtEntry) (emmc : Bool) (lba : Nat) (parts : Nat → Option DiskPartition)
    (loaded : q.ptable = ptableOf emmc lba parts) (found : fastbootFlashFindPtn q.ptable q.cmd = some p)
    (routed : Routed reader o q p st) :
    Set.EqOn (flashCommand reader gpt o q st).storage.cell st.cell (flashArea q p st)ᶜ := by
  obtain ⟨stored, small⟩ := ptableOf_entry (loaded ▸ List.mem_of_find?_eq_some found)
  have gptEntry : p.name = cstr "gpt" → 34 ≤ p.length := by
    intro isName
    rw [loaded] at found
    rw [(ptableOf_gpt found isName).2.1]
    decide
  have unchanged : st.ChangedWithin (flashArea q p st) st := (Storage.SameData.refl st).changedWithin _
  suffices changed : st.ChangedWithin (flashArea q p st) (flashCommand reader gpt o q st).storage from changed.outside
  unfold flashCommand
  split
  · unfold processFlashMmc
    split
    · exact unchanged
    rw [found]
    dsimp only
    split
    · exact unchanged
    rename_i sized
    rw [stored, if_neg (by simp)]
    have fits : q.downloadBytes ≤ w32 (p.length * 512) := by
      simp only [stored, Bool.not_false, and_true] at sized
      omega
    have same := getFastbootTargetDev_sameData o q p st
    unfold flashPartition
    dsimp only
    generalize openedEq : getFastbootTargetDev o q p (flashStart st) = out at same
    obtain ⟨_ | target, r⟩ := out
    · exact same.changedWithin _
    · obtain ⟨device, hwpart⟩ := getFastbootTargetDev_target openedEq small
      dsimp only
      split
      · rename_i sparse
        exact flashSparse_changedWithin routed (by simpa [isRawFlash] using sparse) same
      · rename_i raw
        have isRaw : isRawFlash q p = true := by
          rw [isRawFlash]
          revert raw
          cases isRawPartition p <;> cases isSparseImage q.image <;> simp
        exact flashRaw_changedWithin routed isRaw same device hwpart (flashHwpart_le small) fits gptEntry
  · exact unchanged

def rootfsParts (index : Nat) : Option DiskPartition :=
  if index = 1 then some ⟨cstr "rootfs", 100, 50⟩ else none

def rootfsEntry : PtEntry := diskEntry false 1 ⟨cstr "rootfs", 100, 50⟩

theorem flashCommand_changes_target_rootfs :
    (flashCommand (fun _ _ => none) (fun _ _ => ⟨false, 0, fun _ => none, fun _ => none⟩) noFailure
        (blockRequest "rootfs" (ptableOf false 8192 rootfsParts) (fun _ => none)) sdStorage).storage.cell
          (1, 0, 51200) = some (some 0xA5) ∧
      Set.EqOn (flashCommand (fun _ _ => none) (fun _ _ => ⟨false, 0, fun _ => none, fun _ => none⟩) noFailure
        (blockRequest "rootfs" (ptableOf false 8192 rootfsParts) (fun _ => none)) sdStorage).storage.cell
          sdStorage.cell
        (flashArea (blockRequest "rootfs" (ptableOf false 8192 rootfsParts) (fun _ => none)) rootfsEntry sdStorage)ᶜ := by
  refine ⟨by decide, flashCommand_changes_target _ _ _ _ _ rootfsEntry false 8192 rootfsParts rfl (by decide) ?_⟩
  exact {
    number := by decide
    gptName := fun special => absurd special (by decide)
    allName := fun special => absurd special (by decide)
    selected := fun _ => ⟨sdCard, rfl, rfl, Or.inl (by decide)⟩
    sparse := fun sparse => absurd sparse (by decide) }

def twoCards : Storage where
  card dev := if dev < 2 then some sdCard else none
  currDevice := 1

/-- With `target_ubootdev` the boot loader goes to another device than that
of the table. -/
theorem bootloader_redirected :
    ∃ p, fastbootFlashFindPtn (ptableOf false 8192 rootfsParts) (cstr "bootloader") = some p ∧
      ¬ Set.EqOn (flashCommand (fun _ _ => none) (fun _ _ => ⟨false, 0, fun _ => none, fun _ => none⟩) noFailure
          (blockRequest "bootloader" (ptableOf false 8192 rootfsParts)
            (setenv (fun _ => none) (cstr "target_ubootdev") (cstr "0"))) twoCards).storage.cell twoCards.cell
        (entryArea (blockRequest "bootloader" (ptableOf false 8192 rootfsParts)
          (setenv (fun _ => none) (cstr "target_ubootdev") (cstr "0"))) p twoCards)ᶜ := by
  refine ⟨_, rfl, fun same => ?_⟩
  have kept := same (show (0, 0, 1024) ∈ _ from ?_)
  · exact absurd kept (by decide)
  · rintro (⟨dev, -⟩ | ⟨name, -⟩ | ⟨name, -⟩)
    · exact absurd dev (by decide)
    · exact absurd name (by decide)
    · exact absurd name (by decide)

end UuuFastboot
