import UuuFastboot.Gpt.RestoreRight

namespace UuuFastboot.Gpt

open Word Bytes CString

variable {d d' : EfiDev} {blk blk' part : Nat} {h h' : GptHeader} {e : Buf}

/-- A table stays when the bytes of its header and of its entries do. -/
theorem EfiDev.HasTable.congr (table : d.HasTable blk h e) (disk' : Buf)
    (header : ∀ i < 512, disk' (512 * blk + i) = d.disk (512 * blk + i))
    (array : ∀ a < 16384, disk' (512 * h.partitionEntryLba + a) = d.disk (512 * h.partitionEntryLba + a)) :
    { d with disk := disk' }.HasTable blk h e :=
  { table with
    header := fun i below => (header i below).trans (table.header i below)
    array := fun a below => (array a below).trans (table.array a below) }

/-- Two tables with the same entries answer alike. -/
theorem EfiDev.HasTable.lookup (table : d.HasTable blk h e) (used : d.usedTable = some blk)
    (table' : d'.HasTable blk' h' e) (used' : d'.usedTable = some blk') :
    d'.partGetInfoEfi part = d.partGetInfoEfi part := by
  unfold EfiDev.partGetInfoEfi
  by_cases first : part < 1
  · rw [if_pos first, if_pos first]
  rw [if_neg first, if_neg first, used, used', Option.bind_some, Option.bind_some, table.num_eq, table'.num_eq]
  by_cases above : part > 128
  · rw [if_pos (Or.inl above), if_pos (Or.inl above)]
  have same : ∀ i < 128, d'.pte (d'.header blk') part i = d.pte (d.header blk) part i := by
    intro i below
    obtain ⟨k, rfl⟩ : ∃ k, part = k + 1 := ⟨part - 1, by omega⟩
    rw [table'.pte_eq (by omega) below, table.pte_eq (by omega) below]
  obtain ⟨start, ending, name, bootable, uuid⟩ := fields_congr same
  have valid : isPteValid (d'.pte (d'.header blk') part) = isPteValid (d.pte (d.header blk) part) := by
    unfold isPteValid
    rw [Bool.eq_iff_iff, List.any_eq_true, List.any_eq_true]
    refine exists_congr (fun i => and_congr_right (fun member => ?_))
    have below := List.mem_range.mp member
    rw [same i (by omega)]
  rw [valid, entryInfo, entryInfo, start, ending, name, bootable, uuid]

/-- After a restore, any damage that one of the two tables survives leaves every partition where it was, as long as a
damaged primary header or array is recognised. -/
theorem partGetInfoEfi_survives (d : EfiDev) (guid : CStr) (parts : List PartSpec) (disk' disk'' : Buf) (part : Nat)
    (memory : d.memalign 16384 = true) (run : gptRestore d.lba d.disk guid parts = .ok disk') (apart : 67 ≤ d.lba)
    (damage : (∀ a, 512 ≤ a → a < 512 * 34 → disk'' a = disk' a) ∨
      (∀ a, 512 * (d.lba - 33) ≤ a → a < 512 * d.lba → disk'' a = disk' a) ∧
        { d with disk := disk'' }.isGptValid 1 = false) :
    { d with disk := disk'' }.partGetInfoEfi part = { d with disk := disk' }.partGetInfoEfi part := by
  obtain ⟨h, filled, room, -, -, written⟩ := gptRestore_eq_ok run
  obtain ⟨bin, -, header⟩ := Option.map_eq_some_iff.mp filled
  have primary := hasTable_primary filled written (Or.inl apart)
  have backup := hasTable_backup filled written
  have used := EfiDev.usedTable_eq_some_iff.mpr ⟨primary.valid memory, Or.inl rfl⟩
  rcases damage with kept | ⟨kept, invalid⟩
  · have entryLba : h.partitionEntryLba = 2 := by rw [← header]
    have still := primary.congr disk'' (fun i below => kept _ (by omega) (by omega))
      (fun a below => kept (512 * h.partitionEntryLba + a) (by omega) (by omega))
    exact primary.lookup used still (EfiDev.usedTable_eq_some_iff.mpr ⟨still.valid memory, Or.inl rfl⟩)
  · have last := (writeGptTable_filled filled written).2.1
    have still := backup.congr disk'' (fun i below => kept _ (by omega) (by omega))
      (fun a below => kept (512 * (h.lastUsableLba + 1) + a) (by omega) (by omega))
    exact primary.lookup used still
      (EfiDev.usedTable_eq_some_iff.mpr ⟨still.valid memory, Or.inr ⟨(lastBlock_eq room).symm, invalid⟩⟩)

/-- The table with one partition, after zeros were written over its first 34 blocks. -/
theorem partGetInfoEfi_survives_zeros : ∃ disk', gptRestore emptyDev.lba emptyDev.disk diskGuid
      [tenBlocks (cstr "12343412-1212-3434-0102-030405060708")] = .ok disk' ∧
    ∀ part, { emptyDev with disk := fun a => if a < 512 * 34 then 0 else disk' a }.partGetInfoEfi part =
      { emptyDev with disk := disk' }.partGetInfoEfi part := by
  obtain ⟨disk', run⟩ : ∃ disk', gptRestore emptyDev.lba emptyDev.disk diskGuid
    [tenBlocks (cstr "12343412-1212-3434-0102-030405060708")] = .ok disk' := ⟨_, rfl⟩
  refine ⟨disk', run, fun part => partGetInfoEfi_survives emptyDev diskGuid _ disk' _ part rfl run (by decide)
    (Or.inr ⟨fun a above _ => if_neg (Nat.not_lt.mpr (Nat.le_trans (by decide) above)), ?_⟩)⟩
  refine Bool.eq_false_iff.mpr (fun valid => ?_)
  have signed := EfiDev.signature_of_valid valid
  exact absurd (signed.symm.trans (rfl : _ = 0)) (by decide)

end UuuFastboot.Gpt
