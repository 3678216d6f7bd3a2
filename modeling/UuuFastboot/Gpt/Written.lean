import UuuFastboot.Gpt.Restore

namespace UuuFastboot.Gpt

open Word Overlay Bytes Crc32 CString Uuid

section Encoded

variable {b : Buf} {h : GptHeader} (same : ∀ i < 92, b i = h.encode i)
include same

theorem signature_of_encode (small : h.signature < 2 ^ 64) : signature b = h.signature :=
  getLe64_of_bytes small (fun i below => by
    rw [same _ (by omega), GptHeader.encode, Nat.zero_add, if_pos below])

theorem headerSize_of_encode (small : h.headerSize < 2 ^ 32) : headerSize b = h.headerSize :=
  getLe32_of_bytes small (fun i below => by
    rw [same _ (by omega), GptHeader.encode]
    repeat rw [if_neg (by omega)]
    rw [if_pos (by omega), Nat.add_sub_cancel_left])

theorem headerCrc32_of_encode (small : h.headerCrc32 < 2 ^ 32) : headerCrc32 b = h.headerCrc32 :=
  getLe32_of_bytes small (fun i below => by
    rw [same _ (by omega), GptHeader.encode]
    repeat rw [if_neg (by omega)]
    rw [if_pos (by omega), Nat.add_sub_cancel_left])

theorem myLba_of_encode (small : h.myLba < 2 ^ 64) : myLba b = h.myLba :=
  getLe64_of_bytes small (fun i below => by
    rw [same _ (by omega), GptHeader.encode]
    repeat rw [if_neg (by omega)]
    rw [if_pos (by omega), Nat.add_sub_cancel_left])

theorem firstUsableLba_of_encode (small : h.firstUsableLba < 2 ^ 64) : firstUsableLba b = h.firstUsableLba :=
  getLe64_of_bytes small (fun i below => by
    rw [same _ (by omega), GptHeader.encode]
    repeat rw [if_neg (by omega)]
    rw [if_pos (by omega), Nat.add_sub_cancel_left])

theorem lastUsableLba_of_encode (small : h.lastUsableLba < 2 ^ 64) : lastUsableLba b = h.lastUsableLba :=
  getLe64_of_bytes small (fun i below => by
    rw [same _ (by omega), GptHeader.encode]
    repeat rw [if_neg (by omega)]
    rw [if_pos (by omega), Nat.add_sub_cancel_left])

theorem partitionEntryLba_of_encode (small : h.partitionEntryLba < 2 ^ 64) :
    partitionEntryLba b = h.partitionEntryLba :=
  getLe64_of_bytes small (fun i below => by
    rw [same _ (by omega), GptHeader.encode]
    repeat rw [if_neg (by omega)]
    rw [if_pos (by omega), Nat.add_sub_cancel_left])

theorem numPartitionEntries_of_encode (small : h.numPartitionEntries < 2 ^ 32) :
    numPartitionEntries b = h.numPartitionEntries :=
  getLe32_of_bytes small (fun i below => by
    rw [same _ (by omega), GptHeader.encode]
    repeat rw [if_neg (by omega)]
    rw [if_pos (by omega), Nat.add_sub_cancel_left])

theorem sizeofPartitionEntry_of_encode (small : h.sizeofPartitionEntry < 2 ^ 32) :
    sizeofPartitionEntry b = h.sizeofPartitionEntry :=
  getLe32_of_bytes small (fun i below => by
    rw [same _ (by omega), GptHeader.encode]
    repeat rw [if_neg (by omega)]
    rw [if_pos (by omega), Nat.add_sub_cancel_left])

theorem partitionEntryArrayCrc32_of_encode (small : h.partitionEntryArrayCrc32 < 2 ^ 32) :
    partitionEntryArrayCrc32 b = h.partitionEntryArrayCrc32 :=
  getLe32_of_bytes small (fun i below => by
    rw [same _ (by omega), GptHeader.encode]
    repeat rw [if_neg (by omega)]
    rw [if_pos (by omega), Nat.add_sub_cancel_left])

theorem putLe32_of_encode : ∀ i < 92, putLe32 b 16 0 i = { h with headerCrc32 := 0 }.encode i := by
  intro i below
  unfold putLe32 overlay
  split
  · simp only [GptHeader.encode]
    repeat rw [if_neg (by omega)]
    rw [if_pos (by omega)]
  · next outside =>
    rw [same i below]
    -- The two headers differ in the fourth field only.
    exact ite_congr rfl (fun _ => rfl) (fun _ => ite_congr rfl (fun _ => rfl) (fun _ => ite_congr rfl (fun _ => rfl)
      (fun third => ite_congr rfl (fun fourth => absurd ⟨Nat.le_of_not_lt third, fourth⟩ outside) (fun _ => rfl))))

end Encoded

/-- There is a table with its header in block `blk`, made of `h` and the array `e` of 128 entries. -/
structure EfiDev.HasTable (d : EfiDev) (blk : Nat) (h : GptHeader) (e : Buf) : Prop where
  block : blk < d.lba
  header : ∀ i < 512, d.disk (512 * blk + i) = h.encode i
  room : h.partitionEntryLba + 32 ≤ d.lba
  array : ∀ a < 16384, d.disk (512 * h.partitionEntryLba + a) = e a
  signed : h.signature = gptHeaderSignature
  size : h.headerSize = 92
  checked : h.headerCrc32 = crc32 { h with headerCrc32 := 0 }.encode 92
  my : h.myLba = blk
  first : h.firstUsableLba ≤ d.lba
  last : h.lastUsableLba ≤ d.lba
  num : h.numPartitionEntries = 128
  sizeofEntry : h.sizeofPartitionEntry = 128
  arrayChecked : h.partitionEntryArrayCrc32 = crc32 e 16384

namespace EfiDev.HasTable

variable {d : EfiDev} {blk : Nat} {h : GptHeader} {e : Buf} (table : d.HasTable blk h e)
include table

theorem header_eq : ∀ i < 92, d.header blk i = h.encode i := by
  intro i below
  rw [EfiDev.header, if_pos (by omega), table.header i (by omega)]

theorem num_eq : Gpt.numPartitionEntries (d.header blk) = 128 := by
  rw [numPartitionEntries_of_encode table.header_eq (by rw [table.num]; decide), table.num]

theorem entryLba_eq : Gpt.partitionEntryLba (d.header blk) = h.partitionEntryLba := by
  have room := table.room
  have small := d.lba_lt
  exact partitionEntryLba_of_encode table.header_eq (by omega)

theorem first_eq : Gpt.firstUsableLba (d.header blk) = h.firstUsableLba := by
  have first := table.first
  have small := d.lba_lt
  exact firstUsableLba_of_encode table.header_eq (by omega)

theorem last_eq : Gpt.lastUsableLba (d.header blk) = h.lastUsableLba := by
  have last := table.last
  have small := d.lba_lt
  exact lastUsableLba_of_encode table.header_eq (by omega)

theorem entryBytes_eq : entryBytes (d.header blk) = 16384 := by
  rw [entryBytes, table.num_eq,
    sizeofPartitionEntry_of_encode table.header_eq (by rw [table.sizeofEntry]; decide), table.sizeofEntry]
  rfl

theorem blockCnt_eq : blockCnt (entryBytes (d.header blk)) = 32 := by
  rw [table.entryBytes_eq]
  rfl

theorem allocated_eq : allocated (d.header blk) = 16384 := by
  rw [allocated, table.blockCnt_eq]
  rfl

theorem entries_eq {a : Nat} (below : a < 16384) : d.entries (d.header blk) a = e a := by
  have room := table.room
  have small := d.lba_lt
  rw [EfiDev.entries, table.blockCnt_eq, if_pos below, table.entryLba_eq, w32_of_lt (by omega), table.array a below]

theorem pte_eq {k i : Nat} (inside : k < 128) (below : i < 128) : d.pte (d.header blk) (k + 1) i = e (128 * k + i) := by
  rw [EfiDev.pte, tail_apply, table.entries_eq (by omega)]
  congr 1
  omega

theorem validHeader : validateGptHeader (d.header blk) blk d.lba = true := by
  have small := d.lba_lt
  have block := table.block
  have first := table.first
  have last := table.last
  have crcLt := crc32_lt { h with headerCrc32 := 0 }.encode 92
  have signed := signature_of_encode table.header_eq (by rw [table.signed]; decide)
  have size := headerSize_of_encode table.header_eq (by rw [table.size]; decide)
  have stored := headerCrc32_of_encode table.header_eq (by rw [table.checked]; exact crcLt)
  have my := myLba_of_encode table.header_eq (by rw [table.my]; omega)
  have summed := crc32_congr (putLe32_of_encode table.header_eq)
  have checked : crc32 (putLe32 (d.header blk) 16 0) (Gpt.headerSize (d.header blk)) =
      Gpt.headerCrc32 (d.header blk) := by
    rw [size, table.size, summed, stored, table.checked]
  rw [← table.first_eq] at first
  rw [← table.last_eq] at last
  simp only [validateGptHeader, Bool.and_eq_true, beq_iff_eq, decide_eq_true_eq]
  exact ⟨⟨⟨⟨signed.trans table.signed, checked⟩, my.trans table.my⟩, first⟩, last⟩

theorem valid (memory : d.memalign 16384 = true) : d.isGptValid blk = true := by
  have room := table.room
  have small := d.lba_lt
  have stored := partitionEntryArrayCrc32_of_encode table.header_eq
    (by rw [table.arrayChecked]; exact crc32_lt _ _)
  have loaded : allocReadGptEntries d.lba d.disk (d.header blk) =
      some (fun i => d.disk (512 * h.partitionEntryLba + i)) := by
    simp only [allocReadGptEntries]
    rw [table.blockCnt_eq, table.entryBytes_eq, table.entryLba_eq, w32_of_lt (by omega), if_neg (by decide), if_pos room]
  have summed : crc32 (fun i => d.disk (512 * h.partitionEntryLba + i)) 16384 = crc32 e 16384 := crc32_congr table.array
  rw [EfiDev.isGptValid, table.allocated_eq, memory, Bool.and_true]
  refine isGptValid_of_read (h := d.header blk) rfl table.block table.validHeader loaded ?_
  simp only [validateGptEntries, table.entryBytes_eq, summed, stored, table.arrayChecked, beq_self_eq_true]

end EfiDev.HasTable

def primaryHeader (h : GptHeader) (e : Buf) : GptHeader := { h with partitionEntryArrayCrc32 := crc32 e 16384 }.seal

variable {lba : Nat} {disk' e : Buf} {h : GptHeader} {guid : CStr} {d : EfiDev}

theorem blkDwrite_eq_some {blk cnt : Nat} {disk data : Buf} (run : blkDwrite lba disk blk cnt data = some disk') :
    blk + cnt ≤ lba ∧ disk' = overlay disk (512 * blk) (512 * cnt) data := by
  unfold blkDwrite at run
  split at run
  · next inside => exact ⟨inside, (Option.some.inj run).symm⟩
  · cases run

theorem writeGptTable_eq_some {disk : Buf} (num : h.numPartitionEntries = 128)
    (sizeofEntry : h.sizeofPartitionEntry = 128) (run : writeGptTable lba disk h e = some disk') :
    34 ≤ lba ∧ ∃ mbr, disk' =
      overlay (overlay (overlay (overlay mbr 512 512 (primaryHeader h e).encode) 1024 16384 e)
        (512 * w32 (h.lastUsableLba + 1)) 16384 e) (512 * w32 h.alternateLba) 512
        (prepareBackupGptHeader (primaryHeader h e)).encode := by
  obtain ⟨_, _, _, _, _, _, _, _, _, _, _, _, _⟩ := h
  cases num
  cases sizeofEntry
  simp only [writeGptTable, show w32 (128 * 128) = 16384 from rfl, show blockCnt 16384 = 32 from rfl] at run
  obtain ⟨mbr, -, run⟩ := Option.bind_eq_some_iff.mp run
  obtain ⟨disk₁, first, run⟩ := Option.bind_eq_some_iff.mp run
  obtain ⟨disk₂, second, run⟩ := Option.bind_eq_some_iff.mp run
  obtain ⟨disk₃, third, last⟩ := Option.bind_eq_some_iff.mp run
  obtain ⟨-, rfl⟩ := blkDwrite_eq_some first
  obtain ⟨room, rfl⟩ := blkDwrite_eq_some second
  obtain ⟨-, rfl⟩ := blkDwrite_eq_some third
  obtain ⟨-, rfl⟩ := blkDwrite_eq_some last
  exact ⟨room, mbr, rfl⟩

theorem seal_checked (size : h.headerSize = 92) (cleared : h.headerCrc32 = 0) :
    h.seal.headerCrc32 = crc32 { h.seal with headerCrc32 := 0 }.encode 92 := by
  have same : { h.seal with headerCrc32 := 0 } = h := by rw [← cleared]; rfl
  rw [same, ← size]
  rfl

theorem gptFillHeader_blocks (filled : gptFillHeader lba guid = some h)
    (room : 34 ≤ lba) (small : lba < 2 ^ 32) : h.lastUsableLba = lba - 34 ∧ h.alternateLba = lba - 1 := by
  obtain ⟨bin, -, rfl⟩ := Option.map_eq_some_iff.mp filled
  simp only [w32]
  omega

section Write

variable (filled : gptFillHeader d.lba guid = some h) (run : writeGptTable d.lba d.disk h e = some disk')
include filled run

theorem writeGptTable_filled : 34 ≤ d.lba ∧ h.lastUsableLba = d.lba - 34 ∧ h.alternateLba = d.lba - 1 ∧
    ∃ mbr, disk' =
      overlay (overlay (overlay (overlay mbr 512 512 (primaryHeader h e).encode) 1024 16384 e)
        (512 * (d.lba - 33)) 16384 e) (512 * (d.lba - 1)) 512 (prepareBackupGptHeader (primaryHeader h e)).encode := by
  have small := d.lba_lt
  obtain ⟨bin, -, header⟩ := Option.map_eq_some_iff.mp filled
  obtain ⟨room, mbr, written⟩ := writeGptTable_eq_some (by rw [← header]) (by rw [← header]) run
  obtain ⟨last, alternate⟩ := gptFillHeader_blocks filled room small
  rw [last, alternate, w32_of_lt (by omega), w32_of_lt (by omega), show d.lba - 34 + 1 = d.lba - 33 by omega] at written
  exact ⟨room, last, alternate, mbr, written⟩

theorem hasTable_backup :
    { d with disk := disk' }.HasTable (d.lba - 1) (prepareBackupGptHeader (primaryHeader h e)) e := by
  obtain ⟨bin, -, header⟩ := Option.map_eq_some_iff.mp filled
  obtain ⟨room, last, alternate, mbr, rfl⟩ := writeGptTable_filled filled run
  have entryLba : (prepareBackupGptHeader (primaryHeader h e)).partitionEntryLba = d.lba - 33 :=
    show h.lastUsableLba + 1 = d.lba - 33 by omega
  constructor
  case block => exact show d.lba - 1 < d.lba by omega
  case header =>
    intro i below
    exact (overlay_of_mem (by omega) (by omega)).trans (congrArg _ (by omega))
  case room => exact show _ + 32 ≤ d.lba by omega
  case array =>
    intro a below
    rw [entryLba]
    exact (overlay_of_lt (by omega)).trans ((overlay_of_mem (by omega) (by omega)).trans (congrArg e (by omega)))
  case my => exact alternate
  case last => exact show h.lastUsableLba ≤ d.lba by omega
  case first =>
    subst header
    exact room
  case checked => exact seal_checked (by rw [← header]; rfl) rfl
  all_goals
    subst header
    rfl

/-- The primary table is intact if the backup lies behind it, and also if there are no entries that the
array of the backup could spoil. -/
theorem hasTable_primary (apart : 67 ≤ d.lba ∨ 35 ≤ d.lba ∧ ∀ a, e a = 0) :
    { d with disk := disk' }.HasTable 1 (primaryHeader h e) e := by
  obtain ⟨bin, -, header⟩ := Option.map_eq_some_iff.mp filled
  obtain ⟨room, last, alternate, mbr, rfl⟩ := writeGptTable_filled filled run
  have entryLba : (primaryHeader h e).partitionEntryLba = 2 := by rw [← header]; rfl
  constructor
  case block => exact show 1 < d.lba by omega
  case header =>
    intro i below
    exact (overlay_of_lt (by omega)).trans ((overlay_of_lt (by omega)).trans ((overlay_of_lt (by omega)).trans
      ((overlay_of_mem (by omega) (by omega)).trans (congrArg _ (by omega)))))
  case room =>
    rw [entryLba]
    exact room
  case array =>
    intro a below
    rw [entryLba]
    have primary : overlay (overlay mbr 512 512 (primaryHeader h e).encode) 1024 16384 e (512 * 2 + a) = e a :=
      (overlay_of_mem (by omega) (by omega)).trans (congrArg e (by omega))
    refine (overlay_of_lt (by omega)).trans ?_
    rcases apart with behind | ⟨-, empty⟩
    · exact (overlay_of_lt (by omega)).trans primary
    · unfold overlay
      split
      · rw [empty, empty]
      · exact primary
  case last => exact show h.lastUsableLba ≤ d.lba by omega
  case first =>
    subst header
    exact room
  all_goals
    subst header
    rfl

theorem header_spoiled (tiny : d.lba = 34) : ∀ i < 512, disk' (512 + i) = e i := by
  obtain ⟨-, -, -, mbr, rfl⟩ := writeGptTable_filled filled run
  intro i below
  exact (overlay_of_lt (by omega)).trans ((overlay_of_mem (by omega) (by omega)).trans (congrArg e (by omega)))

end Write

end UuuFastboot.Gpt
