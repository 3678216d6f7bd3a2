import UuuFastboot.Gpt.Table
import UuuFastboot.Flash.Response

namespace UuuFastboot

open Word Overlay Bytes Crc32

/-- A call of `blk_dwrite`. -/
structure BlkWrite where
  blk : Nat
  cnt : Nat
  src : Nat → Cell

/-- The calls that `write_backup_gpt_partitions` makes as long as they succeed. -/
def backupWrites (lba : Nat) (g : GptImage) (mbr : Nat → Cell) : List BlkWrite :=
  [⟨0, 1, mbr⟩, ⟨w32 (lba + (2 ^ 32 - 33)), g.entryBlocks, g.entries⟩, ⟨w32 (lba + (2 ^ 32 - 1)), 1, g.header⟩]

theorem Card.blkDwrite_ok {o : WriteOutcome} {c : Card} {blk cnt : Nat} {src : Nat → Cell} (some_block : 0 < cnt)
    (done : (c.blkDwrite o blk cnt src).1 = cnt) :
    blk + cnt ≤ c.lba c.hwpart ∧ (c.blkDwrite o blk cnt src).2 = c.store blk cnt (fun _ => true) src := by
  unfold Card.blkDwrite at done ⊢
  split at done
  · next inside => exact ⟨inside.2, by rw [if_pos inside]⟩
  · dsimp only at done
    omega

theorem writeBackupGptPartitions_ok {o : FlashOutcome} {g : GptImage} {mbr : Nat → Cell} {c : Card}
    (some_block : 0 < g.entryBlocks) (done : (writeBackupGptPartitions o g mbr c).1 = true) :
    g.valid = true ∧ (∀ w ∈ backupWrites (c.lba c.hwpart) g mbr, w.blk + w.cnt ≤ c.lba c.hwpart) ∧
      (writeBackupGptPartitions o g mbr c).2 =
        (backupWrites (c.lba c.hwpart) g mbr).foldl (fun c w => c.store w.blk w.cnt (fun _ => true) w.src) c := by
  unfold writeBackupGptPartitions at done ⊢
  dsimp only at done ⊢
  split at done
  · cases done
  next valid =>
  rw [if_neg valid]
  split at done
  · cases done
  next first =>
  obtain ⟨mbrInside, stored⟩ := Card.blkDwrite_ok Nat.one_pos (not_not.mp first)
  rw [if_neg first]
  rw [stored] at done ⊢
  split at done
  · cases done
  next second =>
  obtain ⟨entriesInside, stored⟩ := Card.blkDwrite_ok some_block (not_not.mp second)
  rw [if_neg second]
  rw [stored] at done ⊢
  obtain ⟨headerInside, stored⟩ := Card.blkDwrite_ok Nat.one_pos (beq_iff_eq.mp done)
  refine ⟨by simpa using valid, ?_, stored⟩
  intro w call
  simp only [backupWrites, List.mem_cons, List.not_mem_nil, or_false] at call
  rcases call with rfl | rfl | rfl
  · exact mbrInside
  · exact entriesInside
  · exact headerInside

namespace Gpt

section Prepare

variable {lba : Nat} {h : Buf} {m : Mem}

theorem prepare_other {i : Nat}
    (other : i < 16 ∨ 20 ≤ i ∧ i < 24 ∨ 40 ≤ i ∧ i < 48 ∨ 56 ≤ i ∧ i < 72 ∨ 80 ≤ i) :
    prepareLastLbaGptHeader lba h i = h i := by
  simp only [prepareLastLbaGptHeader, prepareFields, putLe32, putLe64, overlay]
  repeat rw [if_neg (by omega)]

theorem prepareFields_other {i : Nat} (other : i < 16 ∨ 20 ≤ i) :
    prepareLastLbaGptHeader lba h i = prepareFields lba h i := by
  rw [prepareLastLbaGptHeader, putLe32, overlay, if_neg (by omega)]

theorem prepareFields_headerSize : headerSize (prepareFields lba h) = headerSize h := by
  refine getLe32_congr (fun i below => ?_)
  rw [← prepareFields_other (by omega), prepare_other (by omega)]

theorem prepare_myLba : myLba (prepareLastLbaGptHeader lba h) = w32 (lba + (2 ^ 32 - 1)) := by
  have small := w32_lt (lba + (2 ^ 32 - 1))
  refine getLe64_of_bytes (by omega) (fun i below => ?_)
  simp only [prepareLastLbaGptHeader, prepareFields, putLe32, putLe64, overlay]
  rw [if_neg (by omega), if_neg (by omega), if_neg (by omega), if_neg (by omega), if_neg (by omega),
    if_pos (by omega), Nat.add_sub_cancel_left]

theorem prepare_lastUsableLba : lastUsableLba (prepareLastLbaGptHeader lba h) = w32 (lba + (2 ^ 32 - 34)) := by
  have small := w32_lt (lba + (2 ^ 32 - 34))
  refine getLe64_of_bytes (by omega) (fun i below => ?_)
  simp only [prepareLastLbaGptHeader, prepareFields, putLe32, putLe64, overlay]
  rw [if_neg (by omega), if_neg (by omega), if_neg (by omega), if_pos (by omega), Nat.add_sub_cancel_left]

theorem prepare_partitionEntryLba :
    partitionEntryLba (prepareLastLbaGptHeader lba h) = w32 (lba + (2 ^ 32 - 34)) + 1 := by
  have small := w32_lt (lba + (2 ^ 32 - 34))
  refine getLe64_of_bytes (by omega) (fun i below => ?_)
  simp only [prepareLastLbaGptHeader, prepareFields, lastUsableLba]
  rw [getLe64_putLe64 (by omega)]
  simp only [putLe32, putLe64, overlay]
  rw [if_neg (by omega), if_neg (by omega), if_pos (by omega), Nat.add_sub_cancel_left]

theorem putLe32_prepare : putLe32 (prepareLastLbaGptHeader lba h) 16 0 = prepareFields lba h := by
  funext i
  by_cases crc : 16 ≤ i ∧ i < 20
  · simp only [prepareFields, putLe32, overlay]
    rw [if_pos (by omega), if_pos (by omega)]
  · rw [putLe32, overlay, if_neg (by omega), prepareFields_other (by omega)]

theorem prepare_headerCrc32 : headerCrc32 (prepareLastLbaGptHeader lba h) =
    crc32 (putLe32 (prepareLastLbaGptHeader lba h) 16 0) (headerSize h) := by
  rw [putLe32_prepare, headerCrc32, prepareLastLbaGptHeader, getLe32_putLe32, prepareFields_headerSize,
    Nat.mod_eq_of_lt (crc32_lt _ _)]

theorem header_backupBuffer {i : Nat} (small : i < 2 ^ 32) :
    header (backupBuffer lba m) i = prepareLastLbaGptHeader lba (header m) i := by
  unfold header backupBuffer Mem.byte
  by_cases field : i < 92
  · rw [w32_of_lt (by omega), overlay_of_mem (by omega) (by omega), Nat.add_sub_cancel_left]
    rfl
  · rw [show prepareLastLbaGptHeader lba (fun j => m (w32 (512 + j))) i = m (w32 (512 + i)) from
      prepare_other (by omega)]
    have place : w32 (512 + i) < 512 ∨ 512 + 92 ≤ w32 (512 + i) := by unfold w32; omega
    rcases place with low | high
    · exact overlay_of_lt low
    · exact overlay_of_ge high

end Prepare

def HoldsCells (disk : Nat → UInt8) (cells : Nat → Cell) : Prop := ∀ a b, cells a = some b → disk a = b

theorem blockCnt_pos (size : Nat) : 0 < blockCnt size := Nat.succ_pos _

theorem blockCnt_bounds {size : Nat} (some_byte : 0 < size) (small : size < 2 ^ 32) :
    size ≤ 512 * blockCnt size ∧ 512 * blockCnt size < size + 512 := by
  have pred : w32 (size + (2 ^ 32 - 1)) = size - 1 := by unfold w32; omega
  unfold blockCnt
  rw [pred]
  omega

section Stored

variable {m : Mem} {c : Card} {o : FlashOutcome} {mbr : Nat → Cell} {disk : Nat → UInt8}

theorem store_contents {start cnt last : Nat} {array hdr : Nat → Cell} (final : last + 1 = c.lba c.hwpart) {a : Nat}
    (inside : a < 512 * c.lba c.hwpart) :
    ([⟨0, 1, mbr⟩, ⟨start, cnt, array⟩, ⟨last, 1, hdr⟩].foldl
      (fun c (w : BlkWrite) => c.store w.blk w.cnt (fun _ => true) w.src) c).contents c.hwpart a =
      if 512 * last ≤ a then hdr (a - 512 * last)
      else if 512 * start ≤ a ∧ a < 512 * (start + cnt) then array (a - 512 * start)
      else if a < 512 then mbr a else c.contents c.hwpart a := by
  have below : a < 512 * (last + 1) := by omega
  simp only [List.foldl_cons, List.foldl_nil, Card.store, Function.update_self, below, inside, and_true, true_and,
    Nat.mul_zero, Nat.zero_le, Nat.zero_add, Nat.mul_one, Nat.sub_zero]

theorem backup_contents (done : (writeBackupGptPartitions o (gptImage m c) mbr c).1 = true) {a : Nat}
    (inside : a < 512 * c.lba c.hwpart) :
    (writeBackupGptPartitions o (gptImage m c) mbr c).2.contents c.hwpart a =
      if 512 * (c.lba c.hwpart - 1) ≤ a then (gptImage m c).header (a - 512 * (c.lba c.hwpart - 1))
      else if 512 * w32 (c.lba c.hwpart + (2 ^ 32 - 33)) ≤ a ∧
          a < 512 * (w32 (c.lba c.hwpart + (2 ^ 32 - 33)) + (gptImage m c).entryBlocks) then
        (gptImage m c).entries (a - 512 * w32 (c.lba c.hwpart + (2 ^ 32 - 33)))
      else if a < 512 then mbr a else c.contents c.hwpart a := by
  have capacity := c.lba_lt c.hwpart
  obtain ⟨-, -, stored⟩ := writeBackupGptPartitions_ok (blockCnt_pos _) done
  have last : w32 (c.lba c.hwpart + (2 ^ 32 - 1)) = c.lba c.hwpart - 1 := by unfold w32; omega
  rw [stored, backupWrites, last]
  exact store_contents (by omega) inside

/-- The header that lies in the last block of a device, and what memory holds behind it
when it is read into a buffer of one block. -/
def storedHeader (lba : Nat) (disk : Nat → UInt8) (behind : Buf) : Buf :=
  fun i => if i < 512 then disk (512 * (lba - 1) + i) else behind i

/-- What is to hold of a backup that is reported as written, with the header that then
lies in the last block. -/
structure BackupSound (m : Mem) (c : Card) (mbr : Nat → Cell) (disk : Nat → UInt8) : Prop where
  inside : ∀ w ∈ backupWrites (c.lba c.hwpart) (gptImage m c) mbr, w.blk + w.cnt ≤ c.lba c.hwpart
  outside : ∀ w ∈ backupWrites (c.lba c.hwpart) (gptImage m c) mbr, ∀ blk, w.blk ≤ blk → blk < w.blk + w.cnt →
    ¬ (firstUsableLba (storedHeader (c.lba c.hwpart) disk zeros) ≤ blk ∧
      blk ≤ lastUsableLba (storedHeader (c.lba c.hwpart) disk zeros))
  accepted : ∀ behind, isGptValid (c.lba c.hwpart) disk behind (c.lba c.hwpart - 1) = true
  array : ∀ i < numPartitionEntries (header m) * sizeofPartitionEntry (header m),
    512 * partitionEntryLba (storedHeader (c.lba c.hwpart) disk zeros) + i < 512 * c.lba c.hwpart ∧
      disk (512 * partitionEntryLba (storedHeader (c.lba c.hwpart) disk zeros) + i) = entries m i
  ends : ∀ k < numPartitionEntries (header m), isPteValid (entry (header m) (entries m) k) = true →
    endingLba (entry (header m) (entries m) k) ≤ lastUsableLba (header m) →
      endingLba (entry (header m) (entries m) k) ≤ lastUsableLba (storedHeader (c.lba c.hwpart) disk zeros)

/-- The images and devices for which the fixed tail of 33 blocks is right. The array
is taken from the buffer after the header in it was prepared, and its block 32 is the one
that the header is written to afterwards. -/
structure BackupFits (lba : Nat) (m : Mem) : Prop where
  room : 34 ≤ lba
  mbr : firstUsableLba (header m) ≠ 0
  size : headerSize (header m) ≤ 512
  length : numPartitionEntries (header m) * sizeofPartitionEntry (header m) ≤ 33 * 512
  kept : ∀ i < numPartitionEntries (header m) * sizeofPartitionEntry (header m),
    (if i < 32 * 512 then (backupBuffer lba m).byte (partitionEntryLba (header m) * 512 + i)
      else header (backupBuffer lba m) (i - 32 * 512)) = entries m i
  ends : ∀ k < numPartitionEntries (header m), isPteValid (entry (header m) (entries m) k) = true →
    endingLba (entry (header m) (entries m) k) ≤ lastUsableLba (header m) →
      endingLba (entry (header m) (entries m) k) ≤ lba - 34

variable (done : (writeBackupGptPartitions o (gptImage m c) mbr c).1 = true)
  (holds : HoldsCells disk ((writeBackupGptPartitions o (gptImage m c) mbr c).2.contents c.hwpart))

include done

theorem backup_valid : isValidGptBuf (c.lba c.hwpart) m = true :=
  (writeBackupGptPartitions_ok (blockCnt_pos _) done).1

theorem backup_room : 33 ≤ c.lba c.hwpart ∧ blockCnt (entryBytes (header m)) ≤ 33 := by
  have capacity := c.lba_lt c.hwpart
  obtain ⟨-, inside, -⟩ := writeBackupGptPartitions_ok (blockCnt_pos _) done
  have array : w32 (c.lba c.hwpart + (2 ^ 32 - 33)) + blockCnt (entryBytes (header m)) ≤ c.lba c.hwpart :=
    inside ⟨_, _, _⟩ (List.mem_cons_of_mem _ List.mem_cons_self)
  unfold w32 at array
  omega

theorem entryBytes_pos : 0 < entryBytes (header m) := by
  have room := (backup_room done).2
  rcases Nat.eq_zero_or_pos (entryBytes (header m)) with none | some
  · rw [none] at room
    exact absurd room (by decide)
  · exact some

include holds

theorem storedHeader_eq (behind : Buf) {i : Nat} (below : i < 512) :
    storedHeader (c.lba c.hwpart) disk behind i = prepareLastLbaGptHeader (c.lba c.hwpart) (header m) i := by
  have room := (backup_room done).1
  rw [storedHeader, if_pos below, ← header_backupBuffer (by omega)]
  apply holds
  rw [backup_contents done (by omega), if_pos (by omega), Nat.add_sub_cancel_left]
  rfl

theorem storedHeader_other (behind : Buf) {i : Nat} (below : i < 512)
    (other : i < 16 ∨ 20 ≤ i ∧ i < 24 ∨ 40 ≤ i ∧ i < 48 ∨ 56 ≤ i ∧ i < 72 ∨ 80 ≤ i) :
    storedHeader (c.lba c.hwpart) disk behind i = header m i := by
  rw [storedHeader_eq done holds behind below, prepare_other other]

theorem stored_array {i : Nat} (below : i < 512 * blockCnt (entryBytes (header m))) :
    disk (512 * (c.lba c.hwpart - 33) + i) =
      if i < 32 * 512 then (backupBuffer (c.lba c.hwpart) m).byte (partitionEntryLba (header m) * 512 + i)
      else header (backupBuffer (c.lba c.hwpart) m) (i - 32 * 512) := by
  have capacity := c.lba_lt c.hwpart
  obtain ⟨room, blocks⟩ := backup_room done
  have start : w32 (c.lba c.hwpart + (2 ^ 32 - 33)) = c.lba c.hwpart - 33 := by unfold w32; omega
  apply holds
  rw [backup_contents done (by omega), start]
  by_cases tail : i < 32 * 512
  · have blockRange : 512 * (c.lba c.hwpart - 33) + i < 512 * (c.lba c.hwpart - 33 + (gptImage m c).entryBlocks) := by
      show _ < 512 * (_ + blockCnt (entryBytes (header m)))
      omega
    rw [if_neg (by omega), if_pos ⟨by omega, blockRange⟩, Nat.add_sub_cancel_left, if_pos tail]
    rfl
  · rw [if_pos (by omega), if_neg tail,
      show 512 * (c.lba c.hwpart - 33) + i - 512 * (c.lba c.hwpart - 1) = i - 32 * 512 by omega]
    rfl

theorem storedHeader_firstUsableLba (behind : Buf) :
    firstUsableLba (storedHeader (c.lba c.hwpart) disk behind) = firstUsableLba (header m) :=
  getLe64_congr (fun i below => storedHeader_other done holds behind (by omega) (by omega))

theorem storedHeader_lastUsableLba (behind : Buf) :
    lastUsableLba (storedHeader (c.lba c.hwpart) disk behind) = w32 (c.lba c.hwpart + (2 ^ 32 - 34)) := by
  rw [← prepare_lastUsableLba (h := header m)]
  exact getLe64_congr (fun i below => storedHeader_eq done holds behind (by omega))

theorem storedHeader_partitionEntryLba (behind : Buf) :
    partitionEntryLba (storedHeader (c.lba c.hwpart) disk behind) = w32 (c.lba c.hwpart + (2 ^ 32 - 34)) + 1 := by
  rw [← prepare_partitionEntryLba (h := header m)]
  exact getLe64_congr (fun i below => storedHeader_eq done holds behind (by omega))

theorem storedHeader_entryBytes (behind : Buf) :
    entryBytes (storedHeader (c.lba c.hwpart) disk behind) = entryBytes (header m) := by
  have num : numPartitionEntries (storedHeader (c.lba c.hwpart) disk behind) = numPartitionEntries (header m) :=
    getLe32_congr (fun i below => storedHeader_other done holds behind (by omega) (by omega))
  have size : sizeofPartitionEntry (storedHeader (c.lba c.hwpart) disk behind) = sizeofPartitionEntry (header m) :=
    getLe32_congr (fun i below => storedHeader_other done holds behind (by omega) (by omega))
  rw [entryBytes, num, size, entryBytes]

/-- The stored header passes its checks exactly if its checksum comes out right and the
last usable block did not wrap. -/
theorem storedHeader_valid_iff (behind : Buf) :
    validateGptHeader (storedHeader (c.lba c.hwpart) disk behind) (c.lba c.hwpart - 1) (c.lba c.hwpart) = true ↔
      crc32 (putLe32 (storedHeader (c.lba c.hwpart) disk behind) 16 0) (headerSize (header m)) =
          crc32 (prepareFields (c.lba c.hwpart) (header m)) (headerSize (header m)) ∧
        w32 (c.lba c.hwpart + (2 ^ 32 - 34)) ≤ c.lba c.hwpart := by
  have capacity := c.lba_lt c.hwpart
  have room := (backup_room done).1
  have valid := backup_valid done
  simp only [isValidGptBuf, validateGptHeader, Bool.and_eq_true, beq_iff_eq, decide_eq_true_eq] at valid
  obtain ⟨⟨⟨⟨⟨sign, -⟩, -⟩, first⟩, -⟩, -⟩ := valid
  have signed : signature (storedHeader (c.lba c.hwpart) disk behind) = gptHeaderSignature := by
    rw [← sign]
    exact getLe64_congr (fun i below => storedHeader_other done holds behind (by omega) (by omega))
  have sized : headerSize (storedHeader (c.lba c.hwpart) disk behind) = headerSize (header m) :=
    getLe32_congr (fun i below => storedHeader_other done holds behind (by omega) (by omega))
  have summed : headerCrc32 (storedHeader (c.lba c.hwpart) disk behind) =
      crc32 (prepareFields (c.lba c.hwpart) (header m)) (headerSize (header m)) := by
    rw [← putLe32_prepare, ← prepare_headerCrc32]
    exact getLe32_congr (fun i below => storedHeader_eq done holds behind (by omega))
  have placed : myLba (storedHeader (c.lba c.hwpart) disk behind) = c.lba c.hwpart - 1 := by
    have last : w32 (c.lba c.hwpart + (2 ^ 32 - 1)) = c.lba c.hwpart - 1 := by unfold w32; omega
    rw [← last, ← prepare_myLba (h := header m)]
    exact getLe64_congr (fun i below => storedHeader_eq done holds behind (by omega))
  simp only [validateGptHeader, signed, sized, summed, placed, storedHeader_firstUsableLba done holds,
    storedHeader_lastUsableLba done holds, first, beq_self_eq_true, Bool.and_eq_true, beq_iff_eq, decide_eq_true_eq,
    true_and, and_true]

/-- A header that is longer than its block is summed up with memory that is not part
of it. -/
theorem headerSize_le_of_accepted
    (accepted : ∀ behind, isGptValid (c.lba c.hwpart) disk behind (c.lba c.hwpart - 1) = true) :
    headerSize (header m) ≤ 512 := by
  have sums (behind : Buf) :
      crc32 (putLe32 (storedHeader (c.lba c.hwpart) disk behind) 16 0) (headerSize (header m)) =
        crc32 (prepareFields (c.lba c.hwpart) (header m)) (headerSize (header m)) :=
    ((storedHeader_valid_iff done holds behind).mp (validateGptHeader_of_isGptValid rfl (accepted behind))).1
  by_contra long
  obtain ⟨n, size⟩ : ∃ n, headerSize (header m) = n + 1 := ⟨headerSize (header m) - 1, by omega⟩
  -- Two memories that differ in the last byte summed alone.
  have equal := (sums zeros).trans (sums (Function.update zeros n 1)).symm
  rw [size] at equal
  refine crc32_last (fun i below => ?_) ?_ equal
  · simp only [putLe32, overlay, storedHeader]
    rw [Function.update_of_ne (by omega)]
  · simp only [putLe32, overlay, storedHeader]
    rw [if_neg (by omega), if_neg (by omega), if_neg (by omega), if_neg (by omega), Function.update_self]
    exact (by decide : (0 : UInt8) ≠ 1)

theorem accepted_of_array (room : 34 ≤ c.lba c.hwpart) (size : headerSize (header m) ≤ 512)
    (array : ∀ i < entryBytes (header m), disk (512 * (c.lba c.hwpart - 33) + i) = entries m i) (behind : Buf) :
    isGptValid (c.lba c.hwpart) disk behind (c.lba c.hwpart - 1) = true := by
  have capacity := c.lba_lt c.hwpart
  have blocks := (backup_room done).2
  have exact : w32 (c.lba c.hwpart + (2 ^ 32 - 34)) = c.lba c.hwpart - 34 := by unfold w32; omega
  have count := storedHeader_entryBytes done holds behind
  have place : w32 (partitionEntryLba (storedHeader (c.lba c.hwpart) disk behind)) = c.lba c.hwpart - 33 := by
    rw [storedHeader_partitionEntryLba done holds behind, exact, w32_of_lt (by omega)]
    omega
  have checked : validateGptHeader (storedHeader (c.lba c.hwpart) disk behind) (c.lba c.hwpart - 1)
      (c.lba c.hwpart) = true := by
    refine (storedHeader_valid_iff done holds behind).mpr ⟨?_, by omega⟩
    rw [← putLe32_prepare]
    refine crc32_congr (fun i below => ?_)
    simp only [putLe32, overlay]
    rw [storedHeader_eq done holds behind (by omega)]
  have read : allocReadGptEntries (c.lba c.hwpart) disk (storedHeader (c.lba c.hwpart) disk behind) =
      some (fun i => disk (512 * (c.lba c.hwpart - 33) + i)) := by
    rw [allocReadGptEntries]
    simp only [count, place]
    rw [if_neg (entryBytes_pos done).ne', if_pos (by omega)]
  have summed : partitionEntryArrayCrc32 (storedHeader (c.lba c.hwpart) disk behind) =
      partitionEntryArrayCrc32 (header m) :=
    getLe32_congr (fun i below => storedHeader_other done holds behind (by omega) (by omega))
  have valid := backup_valid done
  rw [isValidGptBuf, Bool.and_eq_true, validateGptEntries, beq_iff_eq] at valid
  refine isGptValid_of_read (h := storedHeader (c.lba c.hwpart) disk behind) rfl (by omega) checked read ?_
  rw [validateGptEntries, count, summed, crc32_congr array, valid.2, beq_self_eq_true]

theorem fits_of_sound (sound : BackupSound m c mbr disk) : BackupFits (c.lba c.hwpart) m := by
  have capacity := c.lba_lt c.hwpart
  obtain ⟨room, blocks⟩ := backup_room done
  have size := headerSize_le_of_accepted done holds sound.accepted
  have last := storedHeader_lastUsableLba done holds zeros
  have place := storedHeader_partitionEntryLba done holds zeros
  have room : 34 ≤ c.lba c.hwpart := by
    have wraps := ((storedHeader_valid_iff done holds zeros).mp (validateGptHeader_of_isGptValid rfl (sound.accepted zeros))).2
    unfold w32 at wraps
    omega
  have exact : w32 (c.lba c.hwpart + (2 ^ 32 - 34)) = c.lba c.hwpart - 34 := by unfold w32; omega
  rw [exact] at last place
  have start : partitionEntryLba (storedHeader (c.lba c.hwpart) disk zeros) = c.lba c.hwpart - 33 := by omega
  have length : numPartitionEntries (header m) * sizeofPartitionEntry (header m) ≤ 33 * 512 := by
    by_contra long
    have inside := (sound.array (33 * 512) (by omega)).1
    omega
  refine ⟨room, fun zero => ?_, size, length, fun i below => ?_, fun k entry used ending => ?_⟩
  · refine sound.outside ⟨0, 1, mbr⟩ List.mem_cons_self 0 (le_refl _) Nat.one_pos ⟨?_, Nat.zero_le _⟩
    rw [storedHeader_firstUsableLba done holds, zero]
  · have bytes : entryBytes (header m) = numPartitionEntries (header m) * sizeofPartitionEntry (header m) :=
      w32_of_lt (by omega)
    have covered := (blockCnt_bounds (entryBytes_pos done) (w32_lt _)).1
    rw [← stored_array done holds (by omega), ← start]
    exact (sound.array i below).2
  · have kept := sound.ends k entry used ending
    rwa [last] at kept

theorem sound_of_fits (fits : BackupFits (c.lba c.hwpart) m) : BackupSound m c mbr disk := by
  have capacity := c.lba_lt c.hwpart
  obtain ⟨-, inside, -⟩ := writeBackupGptPartitions_ok (blockCnt_pos _) done
  have room := fits.room
  have exact : w32 (c.lba c.hwpart + (2 ^ 32 - 34)) = c.lba c.hwpart - 34 := by unfold w32; omega
  have start : w32 (c.lba c.hwpart + (2 ^ 32 - 33)) = c.lba c.hwpart - 33 := by unfold w32; omega
  have final : w32 (c.lba c.hwpart + (2 ^ 32 - 1)) = c.lba c.hwpart - 1 := by unfold w32; omega
  have last (behind : Buf) := storedHeader_lastUsableLba done holds behind
  have place (behind : Buf) := storedHeader_partitionEntryLba done holds behind
  rw [exact] at last place
  have bytes : entryBytes (header m) = numPartitionEntries (header m) * sizeofPartitionEntry (header m) :=
    w32_of_lt (by have := fits.length; omega)
  have covered := (blockCnt_bounds (entryBytes_pos done) (w32_lt _)).1
  have array (i : Nat) (below : i < numPartitionEntries (header m) * sizeofPartitionEntry (header m)) :
      disk (512 * (c.lba c.hwpart - 33) + i) = entries m i := by
    rw [stored_array done holds (by omega)]
    exact fits.kept i below
  refine ⟨inside, fun w call blk lower upper usable => ?_, fun behind => ?_, fun i below => ?_,
    fun k entry used ending => ?_⟩
  · rw [last, storedHeader_firstUsableLba done holds] at usable
    have mbr := fits.mbr
    simp only [backupWrites, List.mem_cons, List.not_mem_nil, or_false] at call
    rcases call with rfl | rfl | rfl
    · dsimp only at upper
      omega
    · dsimp only at lower
      omega
    · dsimp only at lower
      omega
  · exact accepted_of_array done holds room fits.size (fun i below => array i (bytes ▸ below)) behind
  · have fromStart : 512 * (c.lba c.hwpart - 34 + 1) + i = 512 * (c.lba c.hwpart - 33) + i := by omega
    rw [place, fromStart]
    exact ⟨by have := fits.length; omega, array i below⟩
  · rw [last]
    exact fits.ends k entry used ending

end Stored

/-- A backup GPT that is reported as written is a sound one exactly for the images and devices
of the usual layout. -/
theorem backup_sound_iff {m : Mem} {c : Card} {o : FlashOutcome} {mbr : Nat → Cell} {disk : Nat → UInt8}
    (done : (writeBackupGptPartitions o (gptImage m c) mbr c).1 = true)
    (holds : HoldsCells disk ((writeBackupGptPartitions o (gptImage m c) mbr c).2.contents c.hwpart)) :
    BackupSound m c mbr disk ↔ BackupFits (c.lba c.hwpart) m :=
  ⟨fits_of_sound done holds, sound_of_fits done holds⟩

theorem kept_of_behind {lba : Nat} {m : Mem}
    (length : numPartitionEntries (header m) * sizeofPartitionEntry (header m) ≤ 32 * 512)
    (behind : 2 ≤ partitionEntryLba (header m)) (below : partitionEntryLba (header m) < 2 ^ 23 - 32) :
    ∀ i < numPartitionEntries (header m) * sizeofPartitionEntry (header m),
      (if i < 32 * 512 then (backupBuffer lba m).byte (partitionEntryLba (header m) * 512 + i)
        else header (backupBuffer lba m) (i - 32 * 512)) = entries m i := by
  intro i inside
  rw [if_pos (by omega), entries, Mem.byte, Mem.byte, w32_of_lt (by omega)]
  exact overlay_of_ge (by omega)

/-- An image with one partition from block 34 to its last usable block, and its two checksums. -/
def onePartition (lastUsable arrayCrc headerCrc : Nat) : Mem :=
  let fields := putLe64 (putLe32 (putLe64 (putLe64 zeros 512 gptHeaderSignature) 536 1) 524 92) 552 34
  let usable := putLe64 (putLe64 fields 560 lastUsable) 584 2
  let sums := putLe32 (putLe32 (putLe32 (putLe32 usable 592 1) 596 128) 600 arrayCrc) 528 headerCrc
  putLe64 (putLe64 (putLe64 sums 1024 1) 1056 34) 1064 lastUsable

def backupDisk (m : Mem) : Nat → UInt8 := fun a =>
  ((writeBackupGptPartitions noFailure (gptImage m sdCard) (fun i => some (m i)) sdCard).2.contents sdCard.hwpart a).getD 0

theorem backupDisk_holds (m : Mem) : HoldsCells (backupDisk m)
    ((writeBackupGptPartitions noFailure (gptImage m sdCard) (fun i => some (m i)) sdCard).2.contents sdCard.hwpart) :=
  fun a b cell => by rw [backupDisk, cell, Option.getD_some]

def fittingImage : Mem := onePartition 8158 0xcb58c775 0xa5a95539

def fullImage : Mem := onePartition 8191 0x649aabc2 0xb41c3d0e

set_option maxRecDepth 20000 in
theorem fittingImage_sound :
    isValidGptBuf 8192 fittingImage = true ∧
      BackupSound fittingImage sdCard (fun i => some (fittingImage i)) (backupDisk fittingImage) := by
  refine ⟨by decide +kernel, (backup_sound_iff (o := noFailure) (by decide +kernel) (backupDisk_holds _)).mpr ?_⟩
  refine ⟨by decide, by decide +kernel, by decide +kernel, by decide +kernel, kept_of_behind (by decide +kernel)
    (by decide +kernel) (by decide +kernel), fun k below used ending => ?_⟩
  obtain rfl : k = 0 := by
    have one : numPartitionEntries (header fittingImage) = 1 := by decide +kernel
    omega
  decide +kernel

set_option maxRecDepth 20000 in
/-- The partition ends at the last block of the card, as its image allows. The image is accepted and the
backup reported as written, into the partition. -/
theorem fullImage_not_sound :
    (writeBackupGptPartitions noFailure (gptImage fullImage sdCard) (fun i => some (fullImage i)) sdCard).1 = true ∧
      ¬ BackupSound fullImage sdCard (fun i => some (fullImage i)) (backupDisk fullImage) := by
  have done : (writeBackupGptPartitions noFailure (gptImage fullImage sdCard) (fun i => some (fullImage i)) sdCard).1 =
      true := by decide +kernel
  refine ⟨done, fun sound => ?_⟩
  have fits := fits_of_sound done (backupDisk_holds _) sound
  exact absurd (fits.ends 0 (by decide +kernel) (by decide +kernel) (by decide +kernel)) (by decide +kernel)

end Gpt

end UuuFastboot
