import UuuFastboot.Sparse.Completeness

namespace UuuFastboot

open Word

variable {D : Type}

/-- A stretch of the image buffer: its offset and its length. -/
abbrev Stretch := Nat × Nat

/-- All bytes of a stretch lie in a buffer of `sz` bytes. -/
def Stretch.Inside (sz : Nat) (r : Stretch) : Prop := ∀ i < r.2, w32 (r.1 + i) < sz

/-- What one round of the chunk loop reads of the image: fields of the chunk
header, the bytes that are given to the write callback, the fill value. -/
def chunkReads (info : SparseStorage D) (m : Mem) (hdr : SparseHeader) (alloc : Bool) (c : SparseCursor D) :
    List Stretch :=
  let ch := chunkHeader m c.data
  let data := skipChunkHeader hdr c.data
  let blkcnt := chunkBlkcnt info hdr ch
  [(c.data, 2), (c.data + 4, 4)] ++
    match ch.chunkType with
    | some .raw =>
      (c.data + 8, 4) ::
        if ch.totalSz = w32 (hdr.chunkHdrSz + chunkDataSz hdr ch) ∧ info.exceeds c.blk blkcnt = false then
          [(data, blkcnt * info.blksz)]
        else []
    | some .fill =>
      (c.data + 8, 4) :: if ch.totalSz = w32 (hdr.chunkHdrSz + 4) ∧ alloc = true then [(data, 4)] else []
    | some .crc32 => [(c.data + 8, 4)]
    | some .dontCare => []
    | none => []

/-- What `write_sparse_image` reads of the image in a run: fields of the file
header, and what each round reads that the loop comes to. -/
inductive SparseReads (info : SparseStorage D) (m : Mem) (alloc : Nat → Bool) (fuel : Nat) (dev : D) : Stretch → Prop
  | fileHdrSz : SparseReads info m alloc fuel dev (8, 2)
  | blkSz : SparseReads info m alloc fuel dev (12, 4)
  | totalChunks : info.blksz ∣ (sparseHeader m).blkSz → SparseReads info m alloc fuel dev (20, 4)
  | totalBlks : info.blksz ∣ (sparseHeader m).blkSz →
      (chunkLoop info m (sparseHeader m) alloc fuel (firstCursor info (sparseHeader m) dev)
        (sparseHeader m).totalChunks).2 = none → SparseReads info m alloc fuel dev (16, 4)
  | chunkHdrSz : info.blksz ∣ (sparseHeader m).blkSz → 0 < (sparseHeader m).totalChunks →
      SparseReads info m alloc fuel dev (10, 2)
  | chunk {k : Nat} {r : Stretch} : info.blksz ∣ (sparseHeader m).blkSz → k < (sparseHeader m).totalChunks →
      (chunkLoop info m (sparseHeader m) alloc fuel (firstCursor info (sparseHeader m) dev) k).2 = none →
      r ∈ chunkReads info m (sparseHeader m) (alloc k) (cursorBefore info m alloc fuel dev k) →
      SparseReads info m alloc fuel dev r

/-- A run on a buffer of `sz` bytes: it reads nothing behind the buffer, and it
comes to an end with OKAY or a FAIL. -/
structure SparseSafe (info : SparseStorage D) (m : Mem) (sz : Nat) (alloc : Nat → Bool) (fuel : Nat) (dev : D) :
    Prop where
  reads : ∀ r, SparseReads info m alloc fuel dev r → r.Inside sz
  verdict : (writeSparseImage info m alloc fuel dev).2 = .okay ∨
    ∃ reason, (writeSparseImage info m alloc fuel dev).2 = .stopped (.fail reason)

/-- The buffer pointer in front of chunk `k`, as the writer moves it. -/
def walkData (m : Mem) : Nat → Nat
  | 0 => firstChunkData (sparseHeader m)
  | k + 1 =>
    let ch := chunkHeader m (walkData m k)
    w32 (skipChunkHeader (sparseHeader m) (walkData m k) +
      (ch.chunkType.map (dataAdvance (sparseHeader m) ch)).getD 0)

/-- The checks that only look at the image let chunk `k` pass. -/
def ChunkAccepted (m : Mem) (k : Nat) : Prop :=
  ∃ t, (chunkHeader m (walkData m k)).chunkType = some t ∧ Sized (sparseHeader m) (chunkHeader m (walkData m k)) t

/-- Blocks of chunk `k` on storage with blocks of `blksz` bytes. -/
def walkBlkcnt (m : Mem) (blksz k : Nat) : Nat :=
  chunkDataSz (sparseHeader m) (chunkHeader m (walkData m k)) / blksz

/-- Chunk `k` lies in a buffer of `sz` bytes as far as it is read, and a FILL
chunk neither divides by zero nor has blocks that the fill buffer does not hold. -/
structure ChunkInside (m : Mem) (sz blksz k : Nat) : Prop where
  type : Stretch.Inside sz (walkData m k, 2)
  chunkSz : Stretch.Inside sz (walkData m k + 4, 4)
  totalSz : ∀ t, (chunkHeader m (walkData m k)).chunkType = some t → t ≠ .dontCare →
    Stretch.Inside sz (walkData m k + 8, 4)
  raw : (chunkHeader m (walkData m k)).chunkType = some .raw →
    Sized (sparseHeader m) (chunkHeader m (walkData m k)) .raw →
    Stretch.Inside sz (skipChunkHeader (sparseHeader m) (walkData m k), walkBlkcnt m blksz k * blksz)
  fill : (chunkHeader m (walkData m k)).chunkType = some .fill →
    Sized (sparseHeader m) (chunkHeader m (walkData m k)) .fill →
    Stretch.Inside sz (skipChunkHeader (sparseHeader m) (walkData m k), 4) ∧ (sparseHeader m).blkSz ≠ 0 ∧
      (walkBlkcnt m blksz k = 0 ∨ blksz ≤ fillbufSize ∨ 2 ^ 31 ≤ walkBlkcnt m blksz k)

/-- The images that can be walked over inside a buffer of `sz` bytes: as far as
the checks on the image let chunks pass, each chunk lies in it. -/
structure ImageInside (m : Mem) (sz blksz : Nat) : Prop where
  divisor : blksz ≠ 0
  header : 16 ≤ sz
  counts : blksz ∣ (sparseHeader m).blkSz → 24 ≤ sz
  chunk : blksz ∣ (sparseHeader m).blkSz → ∀ k < (sparseHeader m).totalChunks,
    (∀ j < k, ChunkAccepted m j) → ChunkInside m sz blksz k

section

variable {info : SparseStorage D} {m : Mem} {alloc : Nat → Bool} {fuel k : Nat} {c c' : SparseCursor D} {dev : D}
variable {a : Bool} {stop : SparseStop} {sz : Nat}

theorem chunkStep_goesOn {hdr : SparseHeader} (run : chunkStep info m hdr a fuel c = (c', none)) :
    ∃ t, (chunkHeader m c.data).chunkType = some t ∧ Sized hdr (chunkHeader m c.data) t ∧
      c'.data = w32 (skipChunkHeader hdr c.data + dataAdvance hdr (chunkHeader m c.data) t) := by
  unfold chunkStep at run
  dsimp only at run
  split at run
  · rename_i type_eq
    obtain ⟨sized, _, -, -, rfl⟩ := rawChunk_goesOn run
    exact ⟨.raw, type_eq, sized, rfl⟩
  · rename_i type_eq
    obtain ⟨sized, -, -, next, -⟩ := fillChunk_goesOn run
    exact ⟨.fill, type_eq, sized, next⟩
  · rename_i type_eq
    cases run
    exact ⟨.dontCare, type_eq, trivial, by simp [dataAdvance, skipChunkHeader, apply_ite w32]⟩
  · rename_i type_eq
    refine ⟨.crc32, type_eq, ?_⟩
    unfold crc32Chunk at run
    split at run
    · cases run
    rename_i sized
    cases run
    exact ⟨not_not.mp sized, rfl⟩
  · cases run

theorem cursor_walk
    (reached : (chunkLoop info m (sparseHeader m) alloc fuel (firstCursor info (sparseHeader m) dev) k).2 = none) :
    (cursorBefore info m alloc fuel dev k).data = walkData m k ∧ ∀ j < k, ChunkAccepted m j := by
  induction k with
  | zero => exact ⟨rfl, fun j below => absurd below (Nat.not_lt_zero j)⟩
  | succ k ih =>
    obtain ⟨pointer, accepted⟩ := ih (chunkLoop_before (Nat.le_succ k) reached)
    obtain ⟨t, type_eq, sized, next⟩ := chunkStep_goesOn (chunkLoop_step reached)
    change (chunkHeader m (cursorBefore info m alloc fuel dev k).data).chunkType = some t at type_eq
    change Sized _ (chunkHeader m (cursorBefore info m alloc fuel dev k).data) t at sized
    change (cursorBefore info m alloc fuel dev (k + 1)).data =
      w32 (skipChunkHeader _ (cursorBefore info m alloc fuel dev k).data +
        dataAdvance _ (chunkHeader m (cursorBefore info m alloc fuel dev k).data) t) at next
    rw [pointer] at type_eq sized next
    refine ⟨?_, fun j below => ?_⟩
    · rw [next, walkData, type_eq]
      rfl
    · rcases Nat.lt_succ_iff_lt_or_eq.mp below with earlier | rfl
      · exact accepted j earlier
      · exact ⟨t, type_eq, sized⟩

theorem fillLoop_ends (buf : Nat → Cell) {blkcnt i blk : Nat} (atMost : i ≤ blkcnt)
    (rounds : blkcnt - i ≤ fuel) (moves : i < blkcnt → 0 < info.fillBufNumBlks ∨ 2 ^ 31 ≤ blkcnt - i)
    (run : (fillLoop info buf blkcnt fuel i blk dev).2 = some stop) : ∃ reason, stop = .fail reason := by
  induction fuel generalizing i blk dev with
  | zero =>
    have ended : i = blkcnt := by omega
    subst ended
    simp [fillLoop] at run
  | succ fuel ih =>
    unfold fillLoop at run
    by_cases more : i < blkcnt
    · rw [if_pos more] at run
      dsimp only at run
      have le := fillRound_le info.fillBufNumBlks (blkcnt - i)
      split at run
      · simp only [Option.some.injEq] at run
        exact ⟨_, run.symm⟩
      · rcases moves more with some_room | large
        · have positive := fillRound_pos some_room (show 0 < blkcnt - i by omega)
          exact ih (by omega) (by omega) (fun _ => Or.inl some_room) run
        · rw [fillRound_of_whole (by omega)] at run
          exact ih (by omega) (by omega) (fun further => by omega) run
    · simp [if_neg more] at run

theorem fillChunk_fails {hdr : SparseHeader} {ch : ChunkHeader} {data : Nat}
    (rounds : 2 ^ 32 ≤ fuel)
    (safe : ch.totalSz = w32 (hdr.chunkHdrSz + 4) → hdr.blkSz ≠ 0 ∧
      (chunkBlkcnt info hdr ch = 0 ∨ 0 < info.fillBufNumBlks ∨ 2 ^ 31 ≤ chunkBlkcnt info hdr ch))
    (run : (fillChunk info m hdr ch data a fuel c).2 = some stop) : ∃ reason, stop = .fail reason := by
  have count := chunkBlkcnt_lt info hdr ch
  unfold fillChunk at run
  dsimp only at run
  generalize loop : fillLoop info (info.fillBuf (m.u32 data)) (chunkBlkcnt info hdr ch) fuel 0 c.blk c.dev = out at run
  split at run
  · exact ⟨_, (Option.some.inj run).symm⟩
  rename_i sized
  obtain ⟨nonzero, moves⟩ := safe (not_not.mp sized)
  split at run
  · exact ⟨_, (Option.some.inj run).symm⟩
  split at run
  · exact ⟨_, (Option.some.inj run).symm⟩
  obtain ⟨⟨blk', dev'⟩, _ | stopped⟩ := out
  · cases run
  · obtain rfl : stopped = stop := Option.some.inj run
    exact fillLoop_ends _ (Nat.zero_le _) (by omega) (fun some_block => by omega) (congrArg Prod.snd loop)

theorem chunkStep_fails (some_block : 0 < info.blksz)
    (inside : ChunkInside m sz info.blksz k) (pointer : c.data = walkData m k) (rounds : 2 ^ 32 ≤ fuel)
    (run : (chunkStep info m (sparseHeader m) a fuel c).2 = some stop) : ∃ reason, stop = .fail reason := by
  unfold chunkStep at run
  simp only [pointer] at run
  split at run
  · unfold rawChunk at run
    dsimp only at run
    split_ifs at run <;> exact ⟨_, (Option.some.inj run).symm⟩
  · rename_i type_eq
    refine fillChunk_fails rounds (fun sized => ?_) run
    obtain ⟨_, nonzero, moves⟩ := inside.fill type_eq sized
    refine ⟨nonzero, moves.imp_right (Or.imp_left fun holds => ?_)⟩
    exact Nat.div_pos holds some_block
  · cases run
  · unfold crc32Chunk at run
    split_ifs at run
    exact ⟨_, (Option.some.inj run).symm⟩
  · exact ⟨_, (Option.some.inj run).symm⟩

theorem chunkLoop_fails (some_block : 0 < info.blksz) (rounds : 2 ^ 32 ≤ fuel)
    (inside : ∀ j < k, (∀ i < j, ChunkAccepted m i) → ChunkInside m sz info.blksz j)
    (run : (chunkLoop info m (sparseHeader m) alloc fuel (firstCursor info (sparseHeader m) dev) k).2 = some stop) :
    ∃ reason, stop = .fail reason := by
  induction k with
  | zero => cases run
  | succ k ih =>
    unfold chunkLoop at run
    dsimp only at run
    split at run
    · exact ih (fun j below => inside j (by omega)) run
    · rename_i reached
      obtain ⟨pointer, accepted⟩ := cursor_walk reached
      exact chunkStep_fails some_block (inside k (Nat.lt_succ_self k) accepted) pointer rounds run

theorem chunkReads_inside {r : Stretch} (inside : ChunkInside m sz info.blksz k)
    (pointer : c.data = walkData m k) (member : r ∈ chunkReads info m (sparseHeader m) a c) : r.Inside sz := by
  unfold chunkReads at member
  simp only [pointer, List.mem_append, List.mem_cons, List.not_mem_nil, or_false] at member
  rcases member with (rfl | rfl) | member
  · exact inside.type
  · exact inside.chunkSz
  · split at member
    · rename_i type_eq
      rcases List.mem_cons.mp member with rfl | member
      · exact inside.totalSz _ type_eq nofun
      · split_ifs at member with sized
        · rw [List.mem_singleton.mp member]
          exact inside.raw type_eq sized.1
        · cases member
    · rename_i type_eq
      rcases List.mem_cons.mp member with rfl | member
      · exact inside.totalSz _ type_eq nofun
      · split_ifs at member with sized
        · rw [List.mem_singleton.mp member]
          exact (inside.fill type_eq sized.1).1
        · cases member
    · rename_i type_eq
      rw [List.mem_singleton.mp member]
      exact inside.totalSz _ type_eq nofun
    · cases member
    · cases member

theorem inside_of_le {off len : Nat} (fits : off + len ≤ sz) (small : off + len ≤ 2 ^ 32) :
    Stretch.Inside sz (off, len) := by
  intro i below
  rw [w32_of_lt (by simp only at below ⊢; omega)]
  simp only at below ⊢
  omega

theorem sparseSafe_of_inside (image : ImageInside m sz info.blksz) (rounds : 2 ^ 32 ≤ fuel) :
    SparseSafe info m sz alloc fuel dev := by
  have header := image.header
  have some_block := Nat.pos_of_ne_zero image.divisor
  refine ⟨fun r read => ?_, ?_⟩
  · cases read with
    | fileHdrSz => exact inside_of_le (by omega) (by decide)
    | blkSz => exact inside_of_le (by omega) (by decide)
    | totalChunks aligned =>
      have counts := image.counts aligned
      exact inside_of_le (by omega) (by decide)
    | totalBlks aligned _ =>
      have counts := image.counts aligned
      exact inside_of_le (by omega) (by decide)
    | chunkHdrSz => exact inside_of_le (by omega) (by decide)
    | chunk aligned below reached member =>
      obtain ⟨pointer, accepted⟩ := cursor_walk reached
      exact chunkReads_inside (image.chunk aligned _ below accepted) pointer member
  · unfold writeSparseImage
    dsimp only
    rw [if_neg image.divisor]
    split
    · exact Or.inr ⟨_, rfl⟩
    rename_i whole
    have aligned := Nat.dvd_of_mod_eq_zero (not_not.mp whole)
    split
    · rename_i stop stopped
      obtain ⟨reason, rfl⟩ := chunkLoop_fails some_block rounds (image.chunk aligned) stopped
      exact Or.inr ⟨reason, rfl⟩
    · split
      · exact Or.inr ⟨_, rfl⟩
      · exact Or.inl rfl

end

/-- Every request of the writer succeeds. -/
structure SparseStorage.Generous (info : SparseStorage D) : Prop extends info.NeverFails where
  room : ∀ blk n, info.exceeds blk n = false

section

variable {info : SparseStorage D} {m : Mem} {sz k : Nat} {c : SparseCursor D} {dev : D}
variable {fuel : Nat} {stop : SparseStop}

theorem SparseStorage.Generous.running (generous : info.Generous) {buf : Nat → Cell} {blkcnt i blk : Nat}
    (bounded : blkcnt < 2 ^ 32)
    (run : (fillLoop info buf blkcnt fuel i blk dev).2 = some stop) : stop = .running := by
  induction fuel generalizing i blk dev with
  | zero =>
    unfold fillLoop at run
    split at run
    · exact (Option.some.inj run).symm
    · cases run
  | succ fuel ih =>
    unfold fillLoop at run
    split at run
    · have le := fillRound_le info.fillBufNumBlks (blkcnt - i)
      dsimp only at run
      rw [generous.write, w32_of_lt (by omega), if_neg (Nat.lt_irrefl _)] at run
      exact ih run
    · cases run

theorem fillLoop_done_zero (buf : Nat → Cell) (fuel blk : Nat) (dev : D) :
    (fillLoop info buf 0 fuel 0 blk dev).2 = none := by
  cases fuel <;> rfl

theorem SparseStorage.Generous.fillChunk_stop (generous : info.Generous) {hdr : SparseHeader} {ch : ChunkHeader}
    {data : Nat} (sized : ch.totalSz = w32 (hdr.chunkHdrSz + 4)) :
    (fillChunk info m hdr ch data true fuel c).2 =
      match (fillLoop info (info.fillBuf (m.u32 data)) (chunkBlkcnt info hdr ch) fuel 0 c.blk c.dev).2 with
      | some stop => some stop
      | none => if hdr.blkSz = 0 then some .divByZero else none := by
  unfold fillChunk
  dsimp only
  rw [if_neg (not_not.mpr sized), generous.room, if_neg (by decide), if_neg (by decide)]
  generalize fillLoop info (info.fillBuf (m.u32 data)) (chunkBlkcnt info hdr ch) fuel 0 c.blk c.dev = out
  obtain ⟨_, _ | stop⟩ := out
  · dsimp only
    split_ifs <;> rfl
  · rfl

theorem SparseStorage.Generous.fill_safe (generous : info.Generous) {hdr : SparseHeader} {ch : ChunkHeader} {data : Nat}
    (sized : ch.totalSz = w32 (hdr.chunkHdrSz + 4))
    (fails : ∀ stop, (fillChunk info m hdr ch data true (2 ^ 32) c).2 = some stop → ∃ reason, stop = .fail reason) :
    hdr.blkSz ≠ 0 ∧
      (chunkBlkcnt info hdr ch = 0 ∨ info.blksz ≤ fillbufSize ∨ 2 ^ 31 ≤ chunkBlkcnt info hdr ch) := by
  rw [generous.fillChunk_stop sized] at fails
  refine ⟨fun zero => ?_, ?_⟩
  · have none_left : chunkBlkcnt info hdr ch = 0 := by
      rw [chunkBlkcnt, chunkDataSz, zero, Nat.zero_mul]
      exact Nat.zero_div _
    rw [none_left, fillLoop_done_zero, zero] at fails
    obtain ⟨reason, fail⟩ := fails _ rfl
    cases fail
  · by_contra stuck
    simp only [not_or] at stuck
    obtain ⟨some_blocks, wide, few⟩ := stuck
    have none_fit : info.fillBufNumBlks = 0 := Nat.div_eq_of_lt (by omega)
    have ended := fillLoop_stuck (info.fillBuf (m.u32 data)) (2 ^ 32) c.blk c.dev none_fit
      (Nat.pos_of_ne_zero some_blocks) (by omega)
    obtain ⟨stop, loop⟩ := Option.ne_none_iff_exists'.mp ended
    obtain rfl := generous.running (chunkBlkcnt_lt info hdr ch) loop
    rw [loop] at fails
    obtain ⟨reason, fail⟩ := fails _ rfl
    cases fail

theorem SparseStorage.Generous.passes (generous : info.Generous) (some_block : 0 < info.blksz)
    (inside : ChunkInside m sz info.blksz k) (pointer : c.data = walkData m k) (accepted : ChunkAccepted m k) :
    (chunkStep info m (sparseHeader m) true (2 ^ 32) c).2 = none := by
  obtain ⟨t, type_eq, sized⟩ := accepted
  have count := chunkBlkcnt_lt info (sparseHeader m) (chunkHeader m (walkData m k))
  rcases stopped : (chunkStep info m (sparseHeader m) true (2 ^ 32) c).2 with _ | stop
  · rfl
  obtain ⟨reason, rfl⟩ := chunkStep_fails some_block inside pointer (Nat.le_refl _) stopped
  exfalso
  unfold chunkStep at stopped
  simp only [pointer, type_eq] at stopped
  cases t with
  | raw =>
    have passed : (chunkHeader m (walkData m k)).totalSz = _ := sized
    unfold rawChunk at stopped
    dsimp only at stopped
    rw [if_neg (not_not.mpr passed), generous.room, if_neg (by decide), generous.write, w32_of_lt count,
      if_neg (Nat.lt_irrefl _)] at stopped
    cases stopped
  | fill =>
    dsimp only at stopped
    rw [generous.fillChunk_stop sized] at stopped
    split at stopped
    · rename_i loop
      have running := generous.running count loop
      cases stopped
      cases running
    · split_ifs at stopped
      cases stopped
  | dontCare => cases stopped
  | crc32 =>
    have passed : (chunkHeader m (walkData m k)).totalSz = _ := sized
    unfold crc32Chunk at stopped
    rw [if_neg (not_not.mpr passed)] at stopped
    cases stopped

theorem SparseStorage.Generous.reaches (generous : info.Generous) (some_block : 0 < info.blksz)
    (before : ∀ j < k, ChunkAccepted m j ∧ ChunkInside m sz info.blksz j) :
    (chunkLoop info m (sparseHeader m) (fun _ => true) (2 ^ 32) (firstCursor info (sparseHeader m) dev) k).2 = none := by
  induction k with
  | zero => rfl
  | succ k ih =>
    have reached := ih (fun j below => before j (by omega))
    obtain ⟨accepted, inside⟩ := before k (Nat.lt_succ_self k)
    rw [chunkLoop, reached]
    exact generous.passes some_block inside (cursor_walk reached).1 accepted

theorem chunkLoop_stopped {alloc : Nat → Bool} {n : Nat} (le : k ≤ n)
    (run : (chunkLoop info m (sparseHeader m) alloc fuel c k).2 = some stop) :
    (chunkLoop info m (sparseHeader m) alloc fuel c n).2 = some stop := by
  induction n, le using Nat.le_induction with
  | base => exact run
  | succ n _ ih =>
    rw [chunkLoop, ih]
    exact ih

theorem SparseSafe.stop_fails {alloc : Nat → Bool}
    (safe : SparseSafe info m sz alloc fuel dev) (some_block : info.blksz ≠ 0)
    (aligned : info.blksz ∣ (sparseHeader m).blkSz) (below : k < (sparseHeader m).totalChunks)
    (reached : (chunkLoop info m (sparseHeader m) alloc fuel (firstCursor info (sparseHeader m) dev) k).2 = none)
    (run : (chunkStep info m (sparseHeader m) (alloc k) fuel (cursorBefore info m alloc fuel dev k)).2 = some stop) :
    ∃ reason, stop = .fail reason := by
  have here : (chunkLoop info m (sparseHeader m) alloc fuel (firstCursor info (sparseHeader m) dev) (k + 1)).2 =
      some stop := by
    rw [chunkLoop, reached]
    exact run
  have ended := chunkLoop_stopped (show k + 1 ≤ _ from below) here
  have verdict := safe.verdict
  unfold writeSparseImage at verdict
  simp only [if_neg some_block, Nat.mod_eq_zero_of_dvd aligned, ne_eq, not_true, if_false, ended] at verdict
  rcases verdict with okay | ⟨reason, fail⟩
  · cases okay
  · exact ⟨reason, SparseEnd.stopped.inj fail⟩

theorem SparseSafe.chunkInside (generous : info.Generous)
    (safe : SparseSafe info m sz (fun _ => true) (2 ^ 32) dev) (some_block : info.blksz ≠ 0)
    (aligned : info.blksz ∣ (sparseHeader m).blkSz) (below : k < (sparseHeader m).totalChunks)
    (reached : (chunkLoop info m (sparseHeader m) (fun _ => true) (2 ^ 32) (firstCursor info (sparseHeader m) dev) k).2 =
      none) : ChunkInside m sz info.blksz k := by
  obtain ⟨pointer, _⟩ := cursor_walk reached
  have read : ∀ r ∈ chunkReads info m (sparseHeader m) true (cursorBefore info m (fun _ => true) (2 ^ 32) dev k),
      r.Inside sz := fun r member => safe.reads r (.chunk aligned below reached member)
  unfold chunkReads at read
  simp only [pointer, List.mem_append, List.mem_cons, List.not_mem_nil, or_false] at read
  refine ⟨read _ (Or.inl (Or.inl rfl)), read _ (Or.inl (Or.inr rfl)), ?_, ?_, ?_⟩
  · intro t type_eq counted
    refine read _ (Or.inr ?_)
    rw [type_eq]
    cases t with
    | raw => exact List.mem_cons_self
    | fill => exact List.mem_cons_self
    | dontCare => exact absurd rfl counted
    | crc32 => exact List.mem_cons_self
  · intro type_eq sized
    refine read _ (Or.inr ?_)
    rw [type_eq]
    refine List.mem_cons_of_mem _ ?_
    rw [if_pos ⟨sized, generous.room _ _⟩]
    exact List.mem_cons_self
  · intro type_eq sized
    refine ⟨?_, ?_⟩
    · refine read _ (Or.inr ?_)
      rw [type_eq]
      refine List.mem_cons_of_mem _ ?_
      rw [if_pos ⟨sized, trivial⟩]
      exact List.mem_cons_self
    · have fails : ∀ stop, (fillChunk info m (sparseHeader m) (chunkHeader m (walkData m k))
          (skipChunkHeader (sparseHeader m) (walkData m k)) true (2 ^ 32)
          (cursorBefore info m (fun _ => true) (2 ^ 32) dev k)).2 = some stop → ∃ reason, stop = .fail reason := by
        intro stop run
        refine safe.stop_fails some_block aligned below reached ?_
        unfold chunkStep
        simp only [pointer, type_eq]
        exact run
      exact generous.fill_safe sized fails

end

/-- Storage of the largest size whose callbacks never fail. -/
def generousStorage (blksz : Nat) (word : blksz < 2 ^ 32) : SparseStorage Unit where
  blksz := blksz
  start := 0
  size := 2 ^ 32 - 1
  blksz_lt := word
  start_lt := zero_lt_word
  size_lt := by decide
  write _ _ n _ := (n, ())
  reserve _ n := n

theorem generousStorage_generous {blksz : Nat} (word : blksz < 2 ^ 32) : (generousStorage blksz word).Generous := by
  refine ⟨⟨fun _ _ _ _ => rfl, fun _ _ => rfl⟩, fun blk n => decide_eq_false ?_⟩
  have below := w32_lt (blk + n)
  simp only [generousStorage, Nat.zero_add]
  rw [w32_of_lt (show 2 ^ 32 - 1 < 2 ^ 32 by decide)]
  omega

theorem imageInside_of_safe {m : Mem} {sz : Nat} {info : SparseStorage D} {dev : D} (generous : info.Generous)
    (safe : SparseSafe info m sz (fun _ => true) (2 ^ 32) dev) : ImageInside m sz info.blksz := by
  have divisor : info.blksz ≠ 0 := by
    intro zero
    have verdict := safe.verdict
    simp only [writeSparseImage, if_pos zero] at verdict
    rcases verdict with okay | ⟨reason, fail⟩
    · cases okay
    · cases fail
  refine ⟨divisor, ?_, fun aligned => ?_, fun aligned k below accepted => ?_⟩
  · exact safe.reads _ .blkSz 3 (by decide)
  · exact safe.reads _ (.totalChunks aligned) 3 (by decide)
  · -- the chunks in front of this one lie inside by induction, so the loop comes to it
    induction k using Nat.strong_induction_on with
    | _ k ih =>
      have inside : ∀ j < k, ChunkInside m sz info.blksz j :=
        fun j earlier => ih j earlier (by omega) (fun i before => accepted i (by omega))
      exact safe.chunkInside generous divisor aligned below
        (generous.reaches (Nat.pos_of_ne_zero divisor) (fun j earlier => ⟨accepted j earlier, inside j earlier⟩))

/-- A buffer is safe to be written to storage with blocks of `blksz` bytes,
whatever the storage does, exactly if its image lies inside. -/
theorem sparseSafe_iff (m : Mem) (sz : Nat) {blksz : Nat} (word : blksz < 2 ^ 32) :
    (∀ (D : Type) (info : SparseStorage D) (alloc : Nat → Bool) (fuel : Nat) (dev : D), info.blksz = blksz →
        2 ^ 32 ≤ fuel → SparseSafe info m sz alloc fuel dev) ↔ ImageInside m sz blksz := by
  constructor
  · intro safe
    exact imageInside_of_safe (generousStorage_generous word)
      (safe Unit (generousStorage blksz word) (fun _ => true) (2 ^ 32) () rfl (Nat.le_refl _))
  · rintro image D info alloc fuel dev rfl rounds
    exact sparseSafe_of_inside image rounds

theorem mixedImage_inside : ImageInside mixedImage 4164 512 where
  divisor := by decide
  header := by decide
  counts _ := by decide
  chunk _ k below _ := by
    have three : k < 3 := below
    interval_cases k
    · exact ⟨inside_of_le (by decide) (by decide), inside_of_le (by decide) (by decide),
        fun _ _ _ => inside_of_le (by decide) (by decide), fun raw => absurd raw (by decide),
        fun _ _ => ⟨inside_of_le (by decide) (by decide), by decide, Or.inr (Or.inl (by decide))⟩⟩
    · exact ⟨inside_of_le (by decide) (by decide), inside_of_le (by decide) (by decide),
        fun _ _ _ => inside_of_le (by decide) (by decide), fun raw => absurd raw (by decide),
        fun fill => absurd fill (by decide)⟩
    · exact ⟨inside_of_le (by decide) (by decide), inside_of_le (by decide) (by decide),
        fun _ _ _ => inside_of_le (by decide) (by decide), fun _ _ => inside_of_le (by decide) (by decide),
        fun fill => absurd fill (by decide)⟩

theorem mixedImage_safe : SparseSafe endlessStorage mixedImage 4164 (fun _ => true) (2 ^ 32) (fun _ => some 0) :=
  (sparseSafe_iff mixedImage 4164 (by decide)).mpr mixedImage_inside _ _ _ _ _ rfl (Nat.le_refl _)

/-- A file header that announces a chunk, and nothing behind it. -/
def headerImage : Mem := memOf (headerBytes 1 1)

/-- A FILL chunk of an image whose blocks have no bytes. -/
def zeroBlkSzImage : Mem :=
  memOf (le32 sparseHeaderMagic ++ le16 1 ++ le16 0 ++ le16 28 ++ le16 12 ++ le32 0 ++ le32 1 ++ le32 1 ++ le32 0 ++
    (chunkHeaderBytes 0xCAC2 1 16 ++ le32 0x11223344))

/-- In a buffer of 28 bytes the chunk header is read behind the end; and blocks of
no bytes are divided by. -/
theorem headerImage_not_safe :
    isSparseImage headerImage = true ∧
      (∀ dev, ¬ SparseSafe endlessStorage headerImage 28 (fun _ => true) (2 ^ 32) dev) ∧
      isSparseImage zeroBlkSzImage = true ∧
      (writeSparseImage endlessStorage zeroBlkSzImage (fun _ => true) (2 ^ 32) (fun _ => some 0)).2 =
        .stopped .divByZero := by
  refine ⟨by decide, fun dev safe => ?_, by decide, by decide +kernel⟩
  have read := safe.reads (28, 2) (.chunk (k := 0) (by decide) (by decide) rfl List.mem_cons_self) 0 (by decide)
  exact absurd read (by decide)

end UuuFastboot
