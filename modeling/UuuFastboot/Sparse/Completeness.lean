import UuuFastboot.Sparse.Expansion

namespace UuuFastboot

open Word

variable {D : Type}

/-- Bytes that the format puts behind the header of chunk `k`. -/
def payloadBytes (m : Mem) (k : Nat) : ChunkType → Nat
  | .raw => chunkBytes m k
  | .fill => 4
  | .dontCare => 0
  | .crc32 => 4

/-- An image as `sparse_format.h` describes it, whose expansion fits in the
storage. -/
structure WellFormed (info : SparseStorage D) (m : Mem) : Prop where
  accepted : isSparseImage m = true
  fileHdr : sizeofSparseHeader ≤ (sparseHeader m).fileHdrSz
  chunkHdr : sizeofChunkHeader ≤ (sparseHeader m).chunkHdrSz
  blkSz : 0 < (sparseHeader m).blkSz
  aligned : info.blksz ∣ (sparseHeader m).blkSz
  chunk : ∀ k < (sparseHeader m).totalChunks, ∃ t, (chunkAt m k).chunkType = some t ∧
    (chunkAt m k).totalSz = (sparseHeader m).chunkHdrSz + payloadBytes m k t
  checksum : ∀ k < (sparseHeader m).totalChunks, (chunkAt m k).chunkType = some .crc32 → (chunkAt m k).chunkSz = 0
  total : blocksBefore m (sparseHeader m).totalChunks = (sparseHeader m).totalBlks
  range : info.start + info.size < 2 ^ 32
  fits : (sparseHeader m).totalBlks * ((sparseHeader m).blkSz / info.blksz) ≤ info.size

/-- The callbacks never fail: they report all the blocks they are given. -/
structure SparseStorage.NeverFails (info : SparseStorage D) : Prop where
  write : ∀ dev blk n src, (info.write dev blk n src).1 = n
  reserve : ∀ blk n, info.reserve blk n = n

/-- The cursor in front of chunk `k`. -/
def cursorBefore (info : SparseStorage D) (m : Mem) (alloc : Nat → Bool) (fuel : Nat) (dev : D) (k : Nat) :
    SparseCursor D :=
  (chunkLoop info m (sparseHeader m) alloc fuel (firstCursor info (sparseHeader m) dev) k).1

/-- Every chunk of the image was processed, each from where the format puts it,
and the answer is OKAY. -/
structure ImageCompleted (info : SparseStorage D) (m : Mem) (alloc : Nat → Bool) (fuel : Nat) (dev : D) : Prop where
  header : ∀ k < (sparseHeader m).totalChunks, w32 (cursorBefore info m alloc fuel dev k).data = w32 (chunkOffset m k)
  okay : (writeSparseImage info m alloc fuel dev).2 = .okay

/-- The well-formed images that the writer gets through. -/
structure Handled (info : SparseStorage D) (m : Mem) (alloc : Nat → Bool) : Prop where
  fileHdr : (sparseHeader m).totalChunks = 0 ∨ (sparseHeader m).fileHdrSz = sizeofSparseHeader
  checksum : ∀ k < (sparseHeader m).totalChunks, (chunkAt m k).chunkType ≠ some .crc32
  alloc : ∀ k < (sparseHeader m).totalChunks, (chunkAt m k).chunkType = some .fill → alloc k = true
  whole : ∀ k < (sparseHeader m).totalChunks, (chunkAt m k).chunkType = some .fill → chunkBytes m k < 2 ^ 32
  fillBuf : ∀ k < (sparseHeader m).totalChunks, (chunkAt m k).chunkType = some .fill → (chunkAt m k).chunkSz ≠ 0 →
    info.blksz ≤ fillbufSize

theorem fillRound_pos {num left : Nat} (some_room : 0 < num) (more : 0 < left) : 0 < fillRound num left := by
  unfold fillRound
  split <;> omega

theorem fillLoop_finishes {info : SparseStorage D} (good : info.NeverFails) (buf : Nat → Cell) (dev : D)
    {blkcnt fuel i blk : Nat} (atMost : i ≤ blkcnt) (room : blk + (blkcnt - i) < 2 ^ 32)
    (rounds : blkcnt - i ≤ fuel) (moves : i < blkcnt → 0 < info.fillBufNumBlks) :
    ∃ dev', fillLoop info buf blkcnt fuel i blk dev = ((blk + (blkcnt - i), dev'), none) := by
  induction fuel generalizing i blk dev with
  | zero =>
    have ended : i = blkcnt := by omega
    subst ended
    exact ⟨dev, by simp [fillLoop]⟩
  | succ fuel ih =>
    unfold fillLoop
    by_cases more : i < blkcnt
    · have le := fillRound_le info.fillBufNumBlks (blkcnt - i)
      have positive := fillRound_pos (moves more) (show 0 < blkcnt - i by omega)
      rw [if_pos more]
      dsimp only
      rw [good.write]
      generalize fillRound info.fillBufNumBlks (blkcnt - i) = j at *
      rw [w32_of_lt (show j < 2 ^ 32 by omega), if_neg (Nat.lt_irrefl j), w32_of_lt (show blk + j < 2 ^ 32 by omega)]
      obtain ⟨dev', run⟩ := ih (info.write dev blk j buf).2 (show i + j ≤ blkcnt by omega)
        (show blk + j + (blkcnt - (i + j)) < 2 ^ 32 by omega) (by omega) (fun _ => moves more)
      exact ⟨dev', by rw [run, show blk + j + (blkcnt - (i + j)) = blk + (blkcnt - i) by omega]⟩
    · have ended : i = blkcnt := by omega
      subst ended
      exact ⟨dev, by simp⟩

/-- The state of the loop in front of chunk `k`, while all went well. -/
structure Course (info : SparseStorage D) (m : Mem) (k : Nat) (c : SparseCursor D) : Prop where
  header : w32 c.data = w32 (chunkOffset m k)
  block : c.blk ≤ info.start + blocksBefore m k * ((sparseHeader m).blkSz / info.blksz)
  total : c.totalBlocks = blocksBefore m k

section

variable {info : SparseStorage D} {m : Mem} {alloc : Nat → Bool} {fuel k : Nat} {c : SparseCursor D}

section

variable (formed : WellFormed info m)
include formed

theorem WellFormed.blksz_pos : 0 < info.blksz := Nat.pos_of_dvd_of_pos formed.aligned formed.blkSz

theorem WellFormed.chunkBlkcnt_le (k : Nat) :
    chunkBlkcnt info (sparseHeader m) (chunkAt m k) ≤
      (chunkAt m k).chunkSz * ((sparseHeader m).blkSz / info.blksz) := by
  have positive := formed.blksz_pos
  obtain ⟨q, blkSz⟩ := formed.aligned
  have cut : chunkDataSz (sparseHeader m) (chunkAt m k) ≤ info.blksz * ((chunkAt m k).chunkSz * q) := by
    refine (w32_le _).trans (le_of_eq ?_)
    rw [blkSz]
    ring
  rw [chunkBlkcnt, blkSz, Nat.mul_div_cancel_left q positive]
  exact (Nat.div_le_div_right cut).trans (le_of_eq (Nat.mul_div_cancel_left _ positive))

/-- The whole expansion fits, so a chunk that starts no further on than the
format says ends inside the storage. -/
theorem Course.room (course : Course info m k c)
    (below : k < (sparseHeader m).totalChunks) :
    c.blk + chunkBlkcnt info (sparseHeader m) (chunkAt m k) ≤ info.start + info.size ∧
      c.blk + chunkBlkcnt info (sparseHeader m) (chunkAt m k) ≤
        info.start + blocksBefore m (k + 1) * ((sparseHeader m).blkSz / info.blksz) := by
  have advance := formed.chunkBlkcnt_le k
  have block := course.block
  have next : blocksBefore m (k + 1) * ((sparseHeader m).blkSz / info.blksz) =
      blocksBefore m k * ((sparseHeader m).blkSz / info.blksz) +
        (chunkAt m k).chunkSz * ((sparseHeader m).blkSz / info.blksz) := Nat.add_mul _ _ _
  have all := Nat.mul_le_mul_right ((sparseHeader m).blkSz / info.blksz) (blocksBefore_mono m (show k + 1 ≤ _ from below))
  have fits := formed.fits
  rw [formed.total] at all
  omega

theorem Course.not_exceeds (course : Course info m k c)
    (below : k < (sparseHeader m).totalChunks) :
    info.exceeds c.blk (chunkBlkcnt info (sparseHeader m) (chunkAt m k)) = false := by
  have range := formed.range
  obtain ⟨inside, _⟩ := course.room formed below
  rw [SparseStorage.exceeds, w32_of_lt range, w32_of_lt (by omega)]
  exact decide_eq_false (by omega)

theorem WellFormed.blocksBefore_lt (atMost : k ≤ (sparseHeader m).totalChunks) :
    blocksBefore m k < 2 ^ 32 := by
  have word : (sparseHeader m).totalBlks < 2 ^ 32 := m.u32_lt 16
  have before := blocksBefore_mono m atMost
  rw [formed.total] at before
  omega

theorem Course.payload (course : Course info m k c) (n : Nat) :
    w32 (skipChunkHeader (sparseHeader m) c.data + n) =
      w32 (chunkOffset m k + ((sparseHeader m).chunkHdrSz + n)) := by
  rw [skipChunkHeader_eq formed.chunkHdr, ← Nat.add_assoc]
  refine w32_add_congr ?_ n
  rw [w32_w32]
  exact w32_add_congr course.header _

theorem Course.step (good : info.NeverFails) (handled : Handled info m alloc)
    (rounds : 2 ^ 32 ≤ fuel) (course : Course info m k c) (below : k < (sparseHeader m).totalChunks) :
    ∃ c', chunkStep info m (sparseHeader m) (alloc k) fuel c = (c', none) ∧ Course info m (k + 1) c' := by
  obtain ⟨t, type_eq, sized⟩ := formed.chunk k below
  have here : chunkHeader m c.data = chunkAt m k := chunkHeader_congr m course.header
  obtain ⟨inside, next⟩ := course.room formed below
  have range := formed.range
  have count := chunkBlkcnt_lt info (sparseHeader m) (chunkAt m k)
  have word := formed.blocksBefore_lt (show k + 1 ≤ _ from below)
  have hdrSz := chunkHdrSz_lt m
  have totalWord := totalSz_lt m k
  have total : w32 (c.totalBlocks + (chunkAt m k).chunkSz) = blocksBefore m (k + 1) := by
    rw [course.total]
    exact w32_of_lt word
  have moved : w32 (c.blk + chunkBlkcnt info (sparseHeader m) (chunkAt m k)) =
      c.blk + chunkBlkcnt info (sparseHeader m) (chunkAt m k) := w32_of_lt (by omega)
  unfold chunkStep
  simp only [here, type_eq]
  cases t with
  | raw =>
    rw [payloadBytes] at sized
    have whole : chunkBytes m k < 2 ^ 32 := by omega
    have exact : chunkDataSz (sparseHeader m) (chunkAt m k) = chunkBytes m k := w32_of_lt whole
    rw [rawChunk]
    dsimp only
    rw [if_neg (by rw [not_not, exact, w32_of_lt (by omega)]; exact sized),
      course.not_exceeds formed below, if_neg Bool.false_ne_true, good.write, w32_of_lt count, if_neg (Nat.lt_irrefl _),
      moved, total]
    refine ⟨_, rfl, ?_, next, rfl⟩
    simp only [w32_w32]
    rw [course.payload formed, exact, chunkOffset_succ, sized]
  | fill =>
    have exact : chunkDataSz (sparseHeader m) (chunkAt m k) = chunkBytes m k := w32_of_lt (handled.whole k below type_eq)
    have moves : 0 < chunkBlkcnt info (sparseHeader m) (chunkAt m k) → 0 < info.fillBufNumBlks := by
      intro some_block
      have chunkSz : (chunkAt m k).chunkSz ≠ 0 := by
        intro zero
        have none := formed.chunkBlkcnt_le k
        rw [zero, Nat.zero_mul] at none
        omega
      exact Nat.div_pos (handled.fillBuf k below type_eq chunkSz) formed.blksz_pos
    obtain ⟨dev', loop⟩ := fillLoop_finishes good
      (info.fillBuf (m.u32 (skipChunkHeader (sparseHeader m) c.data))) c.dev (Nat.zero_le _)
      (show c.blk + (chunkBlkcnt info (sparseHeader m) (chunkAt m k) - 0) < 2 ^ 32 by omega)
      (show _ ≤ fuel by omega) moves
    rw [fillChunk]
    dsimp only
    rw [if_neg (by rw [not_not, w32_of_lt (by omega)]; exact sized), handled.alloc k below type_eq,
      course.not_exceeds formed below, if_neg (by decide), if_neg (by decide), loop]
    dsimp only
    rw [if_neg formed.blkSz.ne', exact, chunkBytes, Nat.mul_div_cancel_left _ formed.blkSz, total, Nat.sub_zero]
    refine ⟨_, rfl, ?_, next, rfl⟩
    simp only [w32_w32]
    rw [course.payload formed, chunkOffset_succ, sized]
    rfl
  | dontCare =>
    rw [dontCareChunk, good.reserve, moved, total]
    refine ⟨_, rfl, ?_, next, rfl⟩
    have header := course.payload formed 0
    rw [Nat.add_zero] at header
    rw [header, chunkOffset_succ, sized]
    rfl
  | crc32 => exact absurd type_eq (handled.checksum k below)

end

/-- Blocks that the writer counts for chunk `k`. -/
def countedBlocks (m : Mem) (k : Nat) : Nat :=
  if (chunkAt m k).chunkType = some .fill then w32 (chunkBytes m k) / (sparseHeader m).blkSz else (chunkAt m k).chunkSz

theorem countedBlocks_le (m : Mem) (k : Nat) : countedBlocks m k ≤ (chunkAt m k).chunkSz := by
  unfold countedBlocks
  split_ifs
  · rcases Nat.eq_zero_or_pos (sparseHeader m).blkSz with zero | positive
    · simp [zero]
    · calc w32 (chunkBytes m k) / (sparseHeader m).blkSz ≤ chunkBytes m k / (sparseHeader m).blkSz :=
          Nat.div_le_div_right (w32_le _)
        _ = (chunkAt m k).chunkSz := Nat.mul_div_cancel_left _ positive
  · exact Nat.le_refl _

theorem chunkStep_done (formed : WellFormed info m) (below : k < (sparseHeader m).totalChunks) {c' : SparseCursor D}
    (header : w32 c.data = w32 (chunkOffset m k))
    (run : chunkStep info m (sparseHeader m) (alloc k) fuel c = (c', none)) :
    (chunkAt m k).chunkType ≠ some .crc32 ∧
      ((chunkAt m k).chunkType = some .fill → alloc k = true ∧
        (chunkBlkcnt info (sparseHeader m) (chunkAt m k) ≠ 0 →
          chunkBlkcnt info (sparseHeader m) (chunkAt m k) < 2 ^ 31 → 0 < info.fillBufNumBlks)) ∧
      c'.totalBlocks = w32 (c.totalBlocks + countedBlocks m k) := by
  obtain ⟨t, type_eq, sized⟩ := formed.chunk k below
  have here : chunkHeader m c.data = chunkAt m k := chunkHeader_congr m header
  unfold chunkStep at run
  simp only [here, type_eq] at run
  simp only [countedBlocks, type_eq, ne_eq, Option.some.injEq]
  cases t with
  | raw =>
    obtain ⟨-, _, -, -, rfl⟩ := rawChunk_goesOn run
    exact ⟨nofun, nofun, rfl⟩
  | fill =>
    obtain ⟨-, allocated, loop, -, counted⟩ := fillChunk_goesOn run
    refine ⟨nofun, fun _ => ⟨allocated, fun some_block small => ?_⟩, counted⟩
    rcases Nat.eq_zero_or_pos info.fillBufNumBlks with zero | positive
    · exact absurd (congrArg Prod.snd loop) (fillLoop_stuck _ _ _ _ zero (Nat.pos_of_ne_zero some_block) (by omega))
    · exact positive
  | dontCare =>
    refine ⟨nofun, nofun, ?_⟩
    cases run
    rfl
  | crc32 =>
    unfold crc32Chunk at run
    rw [if_pos (by rw [sized]; simp [payloadBytes])] at run
    cases run

variable {dev : D}

theorem writeSparseImage_okay_iff (formed : WellFormed info m) :
    (writeSparseImage info m alloc fuel dev).2 = .okay ↔
      (chunkLoop info m (sparseHeader m) alloc fuel (firstCursor info (sparseHeader m) dev)
          (sparseHeader m).totalChunks).2 = none ∧
        (cursorBefore info m alloc fuel dev (sparseHeader m).totalChunks).totalBlocks = (sparseHeader m).totalBlks := by
  have whole := Nat.mod_eq_zero_of_dvd formed.aligned
  unfold writeSparseImage cursorBefore
  dsimp only
  rw [if_neg formed.blksz_pos.ne', if_neg (by simpa using whole)]
  generalize chunkLoop info m (sparseHeader m) alloc fuel (firstCursor info (sparseHeader m) dev)
    (sparseHeader m).totalChunks = out
  obtain ⟨c, _ | stop⟩ := out
  · dsimp only
    split_ifs with differ
    · simpa using differ
    · simpa using differ
  · simp

theorem chunkLoop_course (dev : D) (formed : WellFormed info m) (good : info.NeverFails) (handled : Handled info m alloc)
    (rounds : 2 ^ 32 ≤ fuel) (short : (sparseHeader m).fileHdrSz = sizeofSparseHeader)
    (atMost : k ≤ (sparseHeader m).totalChunks) :
    (chunkLoop info m (sparseHeader m) alloc fuel (firstCursor info (sparseHeader m) dev) k).2 = none ∧
      Course info m k (cursorBefore info m alloc fuel dev k) := by
  induction k with
  | zero =>
    refine ⟨rfl, ?_, Nat.le_add_right _ _, rfl⟩
    change w32 (firstChunkData _) = _
    rw [firstChunkData_eq short.le, w32_w32]
    rfl
  | succ k ih =>
    obtain ⟨passed, course⟩ := ih (by omega)
    obtain ⟨c', step, next⟩ := course.step formed good handled rounds (by omega)
    unfold cursorBefore at step ⊢
    rw [chunkLoop, passed]
    dsimp only
    rw [step]
    exact ⟨rfl, next⟩

/-- Blocks counted for the chunks in front of chunk `k`. -/
def countedBefore (m : Mem) : Nat → Nat
  | 0 => 0
  | k + 1 => countedBefore m k + countedBlocks m k

theorem countedBefore_le (m : Mem) (k : Nat) : countedBefore m k ≤ blocksBefore m k := by
  induction k with
  | zero => exact Nat.le_refl _
  | succ k ih => exact Nat.add_le_add ih (countedBlocks_le m k)

theorem counted_of_sum {n : Nat} (sum : countedBefore m n = blocksBefore m n) (below : k < n) :
    countedBlocks m k = (chunkAt m k).chunkSz := by
  induction n with
  | zero => omega
  | succ n ih =>
    have before := countedBefore_le m n
    have here := countedBlocks_le m n
    rw [countedBefore, blocksBefore] at sum
    rcases Nat.lt_succ_iff_lt_or_eq.mp below with earlier | rfl
    · exact ih (by omega) earlier
    · omega

theorem ImageCompleted.step (completed : ImageCompleted info m alloc fuel dev) (formed : WellFormed info m)
    (below : k < (sparseHeader m).totalChunks) :
    chunkStep info m (sparseHeader m) (alloc k) fuel (cursorBefore info m alloc fuel dev k) =
      (cursorBefore info m alloc fuel dev (k + 1), none) :=
  chunkLoop_step (chunkLoop_before below ((writeSparseImage_okay_iff formed).mp completed.okay).1)

theorem ImageCompleted.counted (completed : ImageCompleted info m alloc fuel dev) (formed : WellFormed info m)
    (atMost : k ≤ (sparseHeader m).totalChunks) :
    (cursorBefore info m alloc fuel dev k).totalBlocks = countedBefore m k := by
  induction k with
  | zero => rfl
  | succ k ih =>
    obtain ⟨_, _, total⟩ := chunkStep_done formed atMost (completed.header k atMost) (completed.step formed atMost)
    rw [total, ih (by omega)]
    exact w32_of_lt (Nat.lt_of_le_of_lt (countedBefore_le m (k + 1)) (formed.blocksBefore_lt atMost))

theorem handled_of_completed (formed : WellFormed info m) (completed : ImageCompleted info m alloc fuel dev) :
    Handled info m alloc := by
  have done := fun k (below : k < (sparseHeader m).totalChunks) =>
    chunkStep_done formed below (completed.header k below) (completed.step formed below)
  have whole : ∀ k < (sparseHeader m).totalChunks, (chunkAt m k).chunkType = some .fill → chunkBytes m k < 2 ^ 32 := by
    intro k below fill
    have total := ((writeSparseImage_okay_iff formed).mp completed.okay).2
    rw [completed.counted formed le_rfl, ← formed.total] at total
    have counted := counted_of_sum total below
    rw [countedBlocks, if_pos fill, ← Nat.mul_div_cancel_left (chunkAt m k).chunkSz formed.blkSz] at counted
    exact (w32_div_eq_iff (Nat.dvd_mul_right _ _)).mp counted
  refine ⟨?_, fun k below => (done k below).1, fun k below fill => ((done k below).2.1 fill).1, whole, ?_⟩
  · rcases Nat.eq_zero_or_pos (sparseHeader m).totalChunks with none | some_chunk
    · exact Or.inl none
    · right
      have first := completed.header 0 some_chunk
      have long := formed.fileHdr
      have small : (sparseHeader m).fileHdrSz < 2 ^ 16 := m.u16_lt 8
      by_contra differ
      change w32 (firstChunkData _) = w32 (sparseHeader m).fileHdrSz at first
      rw [firstChunkData, if_pos (by omega), w32_w32, w32_of_lt (by omega), w32_of_lt (by omega)] at first
      omega
  · intro k below fill some_block
    have bytes := whole k below fill
    have positive := formed.blksz_pos
    have exact : chunkDataSz (sparseHeader m) (chunkAt m k) = chunkBytes m k := w32_of_lt bytes
    by_contra large
    have count : chunkBlkcnt info (sparseHeader m) (chunkAt m k) < 2 ^ 31 := by
      rw [chunkBlkcnt, exact]
      refine Nat.lt_of_le_of_lt (Nat.div_le_div_left (show 2 ≤ info.blksz by unfold fillbufSize at large; omega)
        (by decide)) ?_
      omega
    have some_count : chunkBlkcnt info (sparseHeader m) (chunkAt m k) ≠ 0 := by
      have whole_blocks : info.blksz ≤ chunkBytes m k :=
        Nat.le_of_dvd (Nat.mul_pos formed.blkSz (Nat.pos_of_ne_zero some_block)) (Dvd.dvd.mul_right formed.aligned _)
      rw [chunkBlkcnt, exact]
      exact (Nat.div_pos whole_blocks positive).ne'
    have some_room := ((done k below).2.1 fill).2 some_count count
    have none_fit : info.fillBufNumBlks = 0 := Nat.div_eq_of_lt (by omega)
    omega

/-- A well-formed image whose expansion fits is processed to its end and answered
with OKAY exactly where its file header has no excess, it has no CRC32 chunk, and
each FILL chunk gets its buffer, is smaller than 4 GiB, and has blocks that the
buffer holds. -/
theorem writeSparseImage_completed_iff (formed : WellFormed info m) (good : info.NeverFails) (rounds : 2 ^ 32 ≤ fuel) :
    ImageCompleted info m alloc fuel dev ↔ Handled info m alloc := by
  refine ⟨handled_of_completed formed, fun handled => ?_⟩
  rcases handled.fileHdr with none | short
  · refine ⟨fun k below => by omega, (writeSparseImage_okay_iff formed).mpr ?_⟩
    have total := formed.total
    rw [none] at total ⊢
    exact ⟨rfl, total⟩
  · refine ⟨fun k below => (chunkLoop_course dev formed good handled rounds short below.le).2.header,
      (writeSparseImage_okay_iff formed).mpr ?_⟩
    obtain ⟨passed, course⟩ := chunkLoop_course dev formed good handled rounds short le_rfl
    exact ⟨passed, course.total.trans formed.total⟩

end

/-- A partition on storage that takes every write. -/
def endlessStorage : SparseStorage (Nat → Cell) :=
  { userPartition.storage with write := fun dev blk n src => (n, Overlay.overlay dev (blk * 512) (n * 512) src) }

theorem endlessStorage_neverFails : endlessStorage.NeverFails := ⟨fun _ _ _ _ => rfl, fun _ _ => rfl⟩

theorem mixedImage_wellFormed : WellFormed endlessStorage mixedImage where
  accepted := by decide
  fileHdr := by decide
  chunkHdr := by decide
  blkSz := by decide
  aligned := by decide
  chunk k below := by
    have three : k < 3 := below
    interval_cases k
    · exact ⟨.fill, by decide, by decide⟩
    · exact ⟨.dontCare, by decide, by decide⟩
    · exact ⟨.raw, by decide, by decide⟩
  checksum := by decide
  total := by decide
  range := by decide
  fits := by decide

theorem mixedImage_completed : ImageCompleted endlessStorage mixedImage (fun _ => true) (2 ^ 32) (fun _ => some 0) :=
  (writeSparseImage_completed_iff mixedImage_wellFormed endlessStorage_neverFails (Nat.le_refl _)).mpr
    ⟨by decide, by decide, by decide, by decide, by decide⟩

/-- One filled block and the checksum of the image. -/
def checksumImage : Mem :=
  memOf (headerBytes 1 2 ++ (chunkHeaderBytes 0xCAC2 1 16 ++ le32 0x11223344) ++
    (chunkHeaderBytes 0xCAC4 0 16 ++ le32 0xDEADBEEF))

theorem checksumImage_fails :
    WellFormed endlessStorage checksumImage ∧ endlessStorage.NeverFails ∧
      (writeSparseImage endlessStorage checksumImage (fun _ => true) (2 ^ 32) (fun _ => some 0)).2 =
        .stopped (.fail "Bogus chunk size for chunk type Dont Care") := by
  refine ⟨⟨by decide, by decide, by decide, by decide, by decide, fun k below => ?_, by decide, by decide, by decide,
    by decide⟩, endlessStorage_neverFails, by decide +kernel⟩
  have two : k < 2 := below
  interval_cases k
  · exact ⟨.fill, by decide, by decide⟩
  · exact ⟨.crc32, by decide, by decide⟩

end UuuFastboot
