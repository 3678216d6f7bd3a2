import UuuFastboot.Sparse.Steps

namespace UuuFastboot

open Word Overlay

/-- The writer expanded the image: it read every chunk and its data where
the format puts them, it began every chunk at the block the format gives,
and the device ends up with the reference contents. -/
structure Expanded (d : BlockDevice) (m : Mem) (alloc : Nat → Bool) (fuel : Nat) (dev : Nat → Cell) : Prop where
  header : ∀ k < (sparseHeader m).totalChunks, w32 (d.cursorAt m alloc fuel dev k).data = w32 (chunkOffset m k)
  payload : ∀ k < (sparseHeader m).totalChunks,
    w32 (skipChunkHeader (sparseHeader m) (d.cursorAt m alloc fuel dev k).data) = w32 (payloadOffset m k)
  block : ∀ k < (sparseHeader m).totalChunks, (d.cursorAt m alloc fuel dev k).blk = d.firstBlock m k
  blocks : ∀ k < (sparseHeader m).totalChunks, ∀ t, (chunkAt m k).chunkType = some t → t.stores = true →
    chunkBlkcnt d.storage (sparseHeader m) (chunkAt m k) = chunkBytes m k / d.blksz
  device : (writeSparseImage d.storage m alloc fuel dev).1.dev = d.expansion m dev (sparseHeader m).totalChunks

/-- The images and partitions on which no 32-bit product or sum of the
writer is cut off, no header is skipped twice, and no chunk has data that
the writer does not step over as the format says. -/
structure ExactlySized (d : BlockDevice) (m : Mem) : Prop where
  fileHdr : (sparseHeader m).totalChunks = 0 ∨ (sparseHeader m).fileHdrSz ≤ sizeofSparseHeader
  chunkHdr : (sparseHeader m).totalChunks = 0 ∨ sizeofChunkHeader ≤ (sparseHeader m).chunkHdrSz
  whole : ∀ k < (sparseHeader m).totalChunks, ∀ t, (chunkAt m k).chunkType = some t → t.stores = true →
    chunkBytes m k < 2 ^ 32
  filled : ∀ k < (sparseHeader m).totalChunks, (chunkAt m k).chunkType = some .fill → d.Fillable (chunkBytes m k)
  next : ∀ k < (sparseHeader m).totalChunks - 1, chunkBytes m k < 2 ^ 32 ∧ d.firstBlock m (k + 1) < 2 ^ 32
  hole : ∀ k < (sparseHeader m).totalChunks - 1, (chunkAt m k).chunkType = some .dontCare →
    (chunkAt m k).totalSz = (sparseHeader m).chunkHdrSz
  checksum : ∀ k < (sparseHeader m).totalChunks - 1, (chunkAt m k).chunkType = some .crc32 → chunkBytes m k = 0

variable {d : BlockDevice} {m : Mem}

theorem blksz_dvd_chunkBytes (aligned : d.blksz ∣ (sparseHeader m).blkSz) (k : Nat) :
    d.blksz ∣ chunkBytes m k := Dvd.dvd.mul_right aligned _

theorem chunkBlkcnt_exact {k : Nat} (whole : chunkBytes m k < 2 ^ 32) :
    chunkBlkcnt d.storage (sparseHeader m) (chunkAt m k) = chunkBytes m k / d.blksz := by
  change w32 (chunkBytes m k) / d.blksz = _
  rw [w32_of_lt whole]

theorem skipChunkHeader_eq {hdr : SparseHeader} (long : sizeofChunkHeader ≤ hdr.chunkHdrSz) (data : Nat) :
    skipChunkHeader hdr data = w32 (data + hdr.chunkHdrSz) := by
  unfold skipChunkHeader
  split
  · congr 1
    omega
  · congr 1
    omega

theorem firstChunkData_eq {hdr : SparseHeader} (short : hdr.fileHdrSz ≤ sizeofSparseHeader) :
    firstChunkData hdr = w32 hdr.fileHdrSz := if_neg (by omega)

theorem chunkOffset_succ (m : Mem) (k : Nat) : chunkOffset m (k + 1) = chunkOffset m k + (chunkAt m k).totalSz := rfl

theorem writtenContents_exact {k data : Nat} {t : ChunkType}
    (aligned : d.blksz ∣ (sparseHeader m).blkSz) (type_eq : (chunkAt m k).chunkType = some t)
    (payload : w32 data = w32 (payloadOffset m k)) (whole : t.stores = true → chunkBytes m k < 2 ^ 32)
    (fillable : t = .fill → d.Fillable (chunkBytes m k))
    (filled : t = .fill → 0 < chunkBlkcnt d.storage (sparseHeader m) (chunkAt m k) →
      chunkBlkcnt d.storage (sparseHeader m) (chunkAt m k) < 2 ^ 31 → 0 < d.storage.fillBufNumBlks)
    (f : Nat → Cell) (pos : Nat) :
    overlay f pos (d.writtenContents m (sparseHeader m) (chunkAt m k) data t).1
        (d.writtenContents m (sparseHeader m) (chunkAt m k) data t).2 =
      overlay f pos (chunkContents m k).1 (chunkContents m k).2 := by
  have bytes : t.stores = true → chunkBlkcnt d.storage (sparseHeader m) (chunkAt m k) * d.blksz = chunkBytes m k := by
    intro stores
    rw [chunkBlkcnt_exact (whole stores), Nat.div_mul_cancel (blksz_dvd_chunkBytes aligned k)]
  unfold chunkContents
  rw [type_eq]
  cases t with
  | raw =>
    simp only [BlockDevice.writtenContents]
    rw [bytes rfl]
    apply overlay_congr
    intro i _
    rw [m.byte_congr (w32_add_congr payload i)]
  | fill =>
    simp only [BlockDevice.writtenContents]
    rw [m.u32_congr payload]
    generalize chunkBlkcnt d.storage (sparseHeader m) (chunkAt m k) = cnt at *
    rw [bytes rfl]
    apply overlay_congr
    intro o inside
    rw [← bytes rfl] at inside fillable
    have positive : 0 < cnt := by
      rcases Nat.eq_zero_or_pos cnt with rfl | positive
      · simp at inside
      · exact positive
    exact d.fillBuf_of_fillable _ (fillable rfl) inside (filled rfl positive)
  | dontCare => rfl
  | crc32 => rfl

section

variable {d : BlockDevice} {m : Mem} {alloc : Nat → Bool} {fuel : Nat} {dev : Nat → Cell}
variable {k : Nat} {t : ChunkType}

/-- The invariant of the chunk loop on an exactly sized image. -/
structure OnCourse (d : BlockDevice) (m : Mem) (alloc : Nat → Bool) (fuel : Nat) (dev : Nat → Cell) (k : Nat) :
    Prop where
  header : k < (sparseHeader m).totalChunks → w32 (d.cursorAt m alloc fuel dev k).data = w32 (chunkOffset m k)
  block : k < (sparseHeader m).totalChunks → (d.cursorAt m alloc fuel dev k).blk = d.firstBlock m k
  device : (d.cursorAt m alloc fuel dev k).dev = d.expansion m dev k

theorem OnCourse.chunkHeader_eq (course : OnCourse d m alloc fuel dev k)
    (below : k < (sparseHeader m).totalChunks) :
    chunkHeader m (d.cursorAt m alloc fuel dev k).data = chunkAt m k :=
  chunkHeader_congr m (course.header below)

theorem OnCourse.payload (sized : ExactlySized d m) (course : OnCourse d m alloc fuel dev k)
    (below : k < (sparseHeader m).totalChunks) :
    w32 (skipChunkHeader (sparseHeader m) (d.cursorAt m alloc fuel dev k).data) = w32 (payloadOffset m k) := by
  have long := sized.chunkHdr.resolve_left (by omega)
  rw [skipChunkHeader_eq long, w32_w32, w32_add_congr (course.header below)]
  rfl

theorem OnCourse.next_header (sized : ExactlySized d m)
    (course : OnCourse d m alloc fuel dev k) (more : k + 1 < (sparseHeader m).totalChunks)
    (passed : ChunkPassed d m (sparseHeader m) (d.cursorAt m alloc fuel dev k) (d.cursorAt m alloc fuel dev (k + 1)) t) :
    w32 (d.cursorAt m alloc fuel dev (k + 1)).data = w32 (chunkOffset m (k + 1)) := by
  have here := course.chunkHeader_eq (by omega)
  have type_eq := passed.type_eq
  have size_eq := passed.sized
  rw [here] at type_eq size_eq
  rw [passed.data_eq, here, w32_w32, w32_add_congr (course.payload sized (by omega)), chunkOffset_succ, payloadOffset,
    Nat.add_assoc]
  obtain ⟨exact, -⟩ := sized.next k (by omega)
  have dataSz : chunkDataSz (sparseHeader m) (chunkAt m k) = chunkBytes m k := w32_of_lt exact
  cases t with
  | raw =>
    rw [show (chunkAt m k).totalSz = _ from size_eq, w32_add_right]
    rfl
  | fill =>
    rw [show (chunkAt m k).totalSz = _ from size_eq, w32_add_right]
    rfl
  | dontCare =>
    rw [sized.hole k (by omega) type_eq]
    rfl
  | crc32 =>
    rw [show (chunkAt m k).totalSz = _ from size_eq, dataAdvance, dataSz, sized.checksum k (by omega) type_eq]
    rfl

theorem OnCourse.next_block (okay : Okay d m alloc fuel dev) (sized : ExactlySized d m)
    (course : OnCourse d m alloc fuel dev k) (more : k + 1 < (sparseHeader m).totalChunks)
    (passed : ChunkPassed d m (sparseHeader m) (d.cursorAt m alloc fuel dev k) (d.cursorAt m alloc fuel dev (k + 1)) t) :
    (d.cursorAt m alloc fuel dev (k + 1)).blk = d.firstBlock m (k + 1) := by
  have here := course.chunkHeader_eq (by omega)
  have type_eq := passed.type_eq
  rw [here] at type_eq
  obtain ⟨exact, inWord⟩ := sized.next k (by omega)
  have advance : d.advance (sparseHeader m) (chunkAt m k) t = chunkBytes m k / d.blksz := by
    cases t with
    | crc32 => rw [sized.checksum k (by omega) type_eq, Nat.zero_div]; rfl
    | _ => exact chunkBlkcnt_exact exact
  rw [passed.blk_eq, here, course.block (by omega), advance, ← d.firstBlock_succ m k okay.positive okay.aligned,
    w32_of_lt inWord]

theorem OnCourse.next (okay : Okay d m alloc fuel dev) (sized : ExactlySized d m)
    (course : OnCourse d m alloc fuel dev k) (below : k < (sparseHeader m).totalChunks) :
    OnCourse d m alloc fuel dev (k + 1) := by
  obtain ⟨t, passed⟩ := okay.passed k below
  have here := course.chunkHeader_eq below
  have type_eq := passed.type_eq
  have filled := passed.filled
  rw [here] at type_eq filled
  refine ⟨fun more => course.next_header sized more passed, fun more => course.next_block okay sized more passed, ?_⟩
  rw [passed.dev_eq, here, course.device, course.block below,
    writtenContents_exact okay.aligned type_eq (course.payload sized below) (sized.whole k below t type_eq)
      (fun fill => sized.filled k below (fill ▸ type_eq)) filled]
  rfl

theorem onCourse_of_exactlySized (okay : Okay d m alloc fuel dev) (sized : ExactlySized d m)
    (atMost : k ≤ (sparseHeader m).totalChunks) : OnCourse d m alloc fuel dev k := by
  induction k with
  | zero =>
    refine ⟨fun some_chunk => ?_, fun _ => by simp [BlockDevice.firstBlock, blocksBefore]; rfl, rfl⟩
    change w32 (firstChunkData _) = _
    rw [firstChunkData_eq (sized.fileHdr.resolve_left (by omega)), w32_w32]
    rfl
  | succ k ih => exact (ih (by omega)).next okay sized atMost

theorem expanded_of_exactlySized (okay : Okay d m alloc fuel dev) (sized : ExactlySized d m) :
    Expanded d m alloc fuel dev where
  header k below := (onCourse_of_exactlySized okay sized below.le).header below
  payload k below := (onCourse_of_exactlySized okay sized below.le).payload sized below
  block k below := (onCourse_of_exactlySized okay sized below.le).block below
  blocks k below t type_eq stores := chunkBlkcnt_exact (sized.whole k below t type_eq stores)
  device := by
    rw [okay.final]
    exact (onCourse_of_exactlySized okay sized le_rfl).device

theorem chunkHdrSz_lt (m : Mem) : (sparseHeader m).chunkHdrSz < 2 ^ 16 := m.u16_lt 10

theorem totalSz_lt (m : Mem) (k : Nat) : (chunkAt m k).totalSz < 2 ^ 32 := m.u32_lt _

theorem fileHdr_of_expanded (expanded : Expanded d m alloc fuel dev) (some_chunk : 0 < (sparseHeader m).totalChunks) :
    (sparseHeader m).fileHdrSz ≤ sizeofSparseHeader := by
  have small : (sparseHeader m).fileHdrSz < 2 ^ 16 := m.u16_lt 8
  have header : w32 (firstChunkData (sparseHeader m)) = w32 ((sparseHeader m).fileHdrSz + 0) :=
    expanded.header 0 some_chunk
  by_contra long
  rw [firstChunkData, if_pos (by omega), w32_w32] at header
  have excess := w32_add_cancel header
  rw [w32_of_lt (by omega), w32_of_lt (by omega)] at excess
  omega

theorem chunkHdr_of_expanded (expanded : Expanded d m alloc fuel dev) (some_chunk : 0 < (sparseHeader m).totalChunks) :
    sizeofChunkHeader ≤ (sparseHeader m).chunkHdrSz := by
  have payload := expanded.payload 0 some_chunk
  have small := chunkHdrSz_lt m
  by_contra short
  rw [skipChunkHeader, if_neg (by omega), w32_w32, payloadOffset,
    w32_add_congr (expanded.header 0 some_chunk)] at payload
  have equal := w32_add_cancel payload
  rw [w32_of_lt (by decide), w32_of_lt (by omega)] at equal
  omega

section

variable (okay : Okay d m alloc fuel dev)
include okay

theorem whole_of_expanded (expanded : Expanded d m alloc fuel dev)
    (below : k < (sparseHeader m).totalChunks) (type_eq : (chunkAt m k).chunkType = some t)
    (stores : t.stores = true) : chunkBytes m k < 2 ^ 32 :=
  (w32_div_eq_iff (blksz_dvd_chunkBytes okay.aligned k)).mp (expanded.blocks k below t type_eq stores)

theorem passed_of_expanded (expanded : Expanded d m alloc fuel dev)
    (below : k < (sparseHeader m).totalChunks) :
    ∃ t, (chunkAt m k).chunkType = some t ∧ ChunkPassed d m (sparseHeader m) (d.cursorAt m alloc fuel dev k)
      (d.cursorAt m alloc fuel dev (k + 1)) t := by
  obtain ⟨t, passed⟩ := okay.passed k below
  refine ⟨t, ?_, passed⟩
  rw [← passed.type_eq, chunkHeader_congr m (expanded.header k below)]
  rfl

theorem device_frozen (expanded : Expanded d m alloc fuel dev) {a n : Nat}
    (le : k ≤ n) (atMost : n ≤ (sparseHeader m).totalChunks) (before : a < d.firstBlock m k * d.blksz) :
    (d.cursorAt m alloc fuel dev n).dev a = (d.cursorAt m alloc fuel dev k).dev a := by
  induction n, le using Nat.le_induction with
  | base => rfl
  | succ n later ih =>
    obtain ⟨t, -, passed⟩ := passed_of_expanded okay expanded (Nat.lt_of_succ_le atMost)
    have start := Nat.mul_le_mul_right d.blksz (d.firstBlock_mono m later)
    rw [passed.dev_eq, expanded.block n (by omega), overlay_of_lt (by omega), ih (by omega)]

theorem filled_of_expanded (expanded : Expanded d m alloc fuel dev)
    (below : k < (sparseHeader m).totalChunks) (type_eq : (chunkAt m k).chunkType = some .fill) :
    d.Fillable (chunkBytes m k) := by
  by_contra unfillable
  have bytes : chunkBlkcnt d.storage (sparseHeader m) (chunkAt m k) * d.blksz = chunkBytes m k := by
    rw [expanded.blocks k below .fill type_eq rfl, Nat.div_mul_cancel (blksz_dvd_chunkBytes okay.aligned k)]
  obtain ⟨t, type_eq', passed⟩ := passed_of_expanded okay expanded below
  obtain rfl : t = .fill := by rw [type_eq] at type_eq'; exact (Option.some.inj type_eq').symm
  obtain ⟨o, inside, hole⟩ := d.fillBuf_of_not_fillable
    (m.u32 (skipChunkHeader (sparseHeader m) (d.cursorAt m alloc fuel dev k).data)) (bytes ▸ unfillable)
  have next : d.firstBlock m (k + 1) * d.blksz = d.firstBlock m k * d.blksz + chunkBytes m k := by
    rw [d.firstBlock_succ m k okay.positive okay.aligned, Nat.add_mul,
      Nat.div_mul_cancel (blksz_dvd_chunkBytes okay.aligned k)]
  have written : (d.cursorAt m alloc fuel dev (k + 1)).dev (d.firstBlock m k * d.blksz + o) = none := by
    rw [passed.dev_eq, chunkHeader_congr m (expanded.header k below), expanded.block k below]
    change overlay _ _ (chunkBlkcnt d.storage (sparseHeader m) (chunkAt m k) * d.blksz) _ _ = none
    rw [overlay_of_mem (by omega) (by omega), Nat.add_sub_cancel_left]
    exact hole
  have wanted : d.expansion m dev (k + 1) (d.firstBlock m k * d.blksz + o) =
      some (byteOfWord (m.u32 (payloadOffset m k)) o) := by
    rw [BlockDevice.expansion, chunkContents, type_eq, overlay_of_mem (by omega) (by simp only; omega),
      Nat.add_sub_cancel_left]
  have same := congrFun expanded.device (d.firstBlock m k * d.blksz + o)
  rw [okay.final, device_frozen okay expanded (k := k + 1) below le_rfl (by omega), written,
    d.expansion_frozen m dev (k := k + 1) below (by omega), wanted] at same
  cases same

theorem next_of_expanded (expanded : Expanded d m alloc fuel dev)
    (more : k + 1 < (sparseHeader m).totalChunks) :
    d.firstBlock m (k + 1) < 2 ^ 32 ∧ chunkBytes m k < 2 ^ 32 ∧
      ((chunkAt m k).chunkType = some .crc32 → chunkBytes m k = 0) := by
  obtain ⟨t, type_eq, passed⟩ := passed_of_expanded okay expanded (k := k) (by omega)
  have position := passed.blk_eq
  rw [chunkHeader_congr m (expanded.header k (by omega)), expanded.block k (by omega),
    expanded.block (k + 1) more] at position
  have inWord : d.firstBlock m (k + 1) < 2 ^ 32 := position ▸ w32_lt _
  have exact := d.firstBlock_succ m k okay.positive okay.aligned
  have dvd := blksz_dvd_chunkBytes okay.aligned k
  refine ⟨inWord, ?_⟩
  cases t with
  | raw => exact ⟨whole_of_expanded okay expanded (by omega) type_eq rfl, by simp [type_eq]⟩
  | fill => exact ⟨whole_of_expanded okay expanded (by omega) type_eq rfl, by simp [type_eq]⟩
  | dontCare =>
    refine ⟨(w32_div_eq_iff dvd).mp ?_, by simp [type_eq]⟩
    have cut : w32 (chunkBytes m k) / d.blksz ≤ chunkBytes m k / d.blksz := Nat.div_le_div_right (w32_le _)
    change _ = w32 (d.firstBlock m k + w32 (chunkBytes m k) / d.blksz) at position
    rw [w32_of_lt (by omega)] at position
    omega
  | crc32 =>
    change _ = w32 (d.firstBlock m k + 0) at position
    have cut := w32_le (d.firstBlock m k + 0)
    have none_left : chunkBytes m k / d.blksz = 0 := by
      generalize chunkBytes m k / d.blksz = more_blocks at *
      omega
    have zero : chunkBytes m k = 0 := by
      rw [← Nat.div_mul_cancel dvd, none_left, Nat.zero_mul]
    exact ⟨by omega, fun _ => zero⟩

theorem hole_of_expanded (expanded : Expanded d m alloc fuel dev)
    (more : k + 1 < (sparseHeader m).totalChunks) (type_eq : (chunkAt m k).chunkType = some .dontCare) :
    (chunkAt m k).totalSz = (sparseHeader m).chunkHdrSz := by
  obtain ⟨t, type_eq', passed⟩ := passed_of_expanded okay expanded (k := k) (by omega)
  obtain rfl : t = .dontCare := by rw [type_eq] at type_eq'; exact (Option.some.inj type_eq').symm
  have header := expanded.header (k + 1) more
  rw [passed.data_eq, dataAdvance, w32_w32, Nat.add_zero, expanded.payload k (by omega), payloadOffset,
    chunkOffset_succ] at header
  have equal := w32_add_cancel header
  have small := chunkHdrSz_lt m
  rw [w32_of_lt (by omega), w32_of_lt (totalSz_lt m k)] at equal
  exact equal.symm

theorem exactlySized_of_expanded (expanded : Expanded d m alloc fuel dev) :
    ExactlySized d m where
  fileHdr := (Nat.eq_zero_or_pos _).imp_right (fileHdr_of_expanded expanded)
  chunkHdr := (Nat.eq_zero_or_pos _).imp_right (chunkHdr_of_expanded expanded)
  whole _ below _ type_eq stores := whole_of_expanded okay expanded below type_eq stores
  filled _ below type_eq := filled_of_expanded okay expanded below type_eq
  next _ more := by
    obtain ⟨position, bytes, -⟩ := next_of_expanded okay expanded (Nat.add_lt_of_lt_sub more)
    exact ⟨bytes, position⟩
  hole _ more type_eq := hole_of_expanded okay expanded (Nat.add_lt_of_lt_sub more) type_eq
  checksum _ more type_eq := (next_of_expanded okay expanded (Nat.add_lt_of_lt_sub more)).2.2 type_eq

end

end

/-- An image the writer answers with OKAY is expanded as the format says
exactly when its sizes are ones the 32-bit writer steps over rightly. -/
theorem writeSparseImage_expanded_iff (d : BlockDevice) (m : Mem) (alloc : Nat → Bool) (fuel : Nat)
    (dev : Nat → Cell) (_accepted : isSparseImage m = true)
    (okay : (writeSparseImage d.storage m alloc fuel dev).2 = .okay) :
    Expanded d m alloc fuel dev ↔ ExactlySized d m :=
  ⟨exactlySized_of_expanded (okay_of_writeSparseImage okay), expanded_of_exactlySized (okay_of_writeSparseImage okay)⟩

/-- A partition of a card with 512-byte blocks. -/
def userPartition : BlockDevice where
  blksz := 512
  start := 2048
  size := 16775168
  lba := 16777216
  blksz_lt := sector_lt_word
  start_lt := by decide
  size_lt := by decide
  lba_lt := by decide

/-- One block filled, one left alone, one of raw zeros. -/
def mixedImage : Mem :=
  memOf (headerBytes 3 3 ++ (chunkHeaderBytes 0xCAC2 1 16 ++ le32 0x11223344) ++ chunkHeaderBytes 0xCAC3 1 12 ++
    chunkHeaderBytes 0xCAC1 1 (12 + 4096))

theorem mixedImage_exactlySized : ExactlySized userPartition mixedImage where
  fileHdr := by decide
  chunkHdr := by decide
  whole := by decide
  filled := by decide
  next := by decide
  hole := by decide
  checksum := by decide

theorem mixedImage_expanded : Expanded userPartition mixedImage (fun _ => true) 4 (fun _ => some 0) :=
  (writeSparseImage_expanded_iff userPartition mixedImage (fun _ => true) 4 (fun _ => some 0) (by decide)
    (by decide)).mpr mixedImage_exactlySized

/-- A hole of `2 ^ 20` blocks of 4096 bytes, then one filled block. -/
def holeImage : Mem :=
  memOf (headerBytes (2 ^ 20 + 1) 2 ++ chunkHeaderBytes 0xCAC3 (2 ^ 20) 12 ++
    (chunkHeaderBytes 0xCAC2 1 16 ++ le32 0x11223344))

/-- The size of the hole is 0 as a 32-bit product, so the filled block lands
at its front, and the writer still answers OKAY. -/
theorem holeImage_not_expanded :
    isSparseImage holeImage = true ∧
      (writeSparseImage userPartition.storage holeImage (fun _ => true) 4 (fun _ => some 0)).2 = .okay ∧
      (writeSparseImage userPartition.storage holeImage (fun _ => true) 4 (fun _ => some 0)).1.dev ≠
        userPartition.expansion holeImage (fun _ => some 0) (sparseHeader holeImage).totalChunks := by
  refine ⟨by decide, by decide, fun same => ?_⟩
  have front := congrFun same (2048 * 512)
  revert front
  decide

end UuuFastboot
