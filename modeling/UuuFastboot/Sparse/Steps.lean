import UuuFastboot.Sparse.Fill

namespace UuuFastboot

open Word Overlay

/-- What one chunk stores, as the writer reads it: how many bytes, and
which. `data` is the pointer behind the chunk header. -/
def BlockDevice.writtenContents (d : BlockDevice) (m : Mem) (hdr : SparseHeader) (ch : ChunkHeader) (data : Nat) :
    ChunkType → Nat × (Nat → Cell)
  | .raw => (chunkBlkcnt d.storage hdr ch * d.blksz, fun i => some (m.byte (data + i)))
  | .fill =>
    (chunkBlkcnt d.storage hdr ch * d.blksz,
      fun i => d.storage.fillBuf (m.u32 data) (d.fillIndex (chunkBlkcnt d.storage hdr ch) i))
  | .dontCare => (0, fun _ => none)
  | .crc32 => (0, fun _ => none)

/-- Blocks by which a chunk moves the device position. -/
def BlockDevice.advance (d : BlockDevice) (hdr : SparseHeader) (ch : ChunkHeader) : ChunkType → Nat
  | .crc32 => 0
  | _ => chunkBlkcnt d.storage hdr ch

/-- Bytes by which a chunk moves the buffer pointer past its header. -/
def dataAdvance (hdr : SparseHeader) (ch : ChunkHeader) : ChunkType → Nat
  | .raw => chunkDataSz hdr ch
  | .fill => 4
  | .dontCare => 0
  | .crc32 => chunkDataSz hdr ch

/-- The check of `total_sz` that a chunk has to pass. -/
def Sized (hdr : SparseHeader) (ch : ChunkHeader) : ChunkType → Prop
  | .raw => ch.totalSz = w32 (hdr.chunkHdrSz + chunkDataSz hdr ch)
  | .fill => ch.totalSz = w32 (hdr.chunkHdrSz + 4)
  | .dontCare => True
  | .crc32 => ch.totalSz = hdr.chunkHdrSz

/-- Everything a round of the chunk loop does when it does not stop. -/
structure ChunkPassed (d : BlockDevice) (m : Mem) (hdr : SparseHeader) (c c' : SparseCursor (Nat → Cell))
    (t : ChunkType) : Prop where
  type_eq : (chunkHeader m c.data).chunkType = some t
  sized : Sized hdr (chunkHeader m c.data) t
  blk_eq : c'.blk = w32 (c.blk + d.advance hdr (chunkHeader m c.data) t)
  data_eq : c'.data = w32 (skipChunkHeader hdr c.data + dataAdvance hdr (chunkHeader m c.data) t)
  dev_eq : c'.dev = overlay c.dev (c.blk * d.blksz)
    (d.writtenContents m hdr (chunkHeader m c.data) (skipChunkHeader hdr c.data) t).1
    (d.writtenContents m hdr (chunkHeader m c.data) (skipChunkHeader hdr c.data) t).2
  room : t.stores = true → 0 < chunkBlkcnt d.storage hdr (chunkHeader m c.data) →
    c.blk + chunkBlkcnt d.storage hdr (chunkHeader m c.data) ≤ d.lba
  filled : t = .fill → 0 < chunkBlkcnt d.storage hdr (chunkHeader m c.data) →
    chunkBlkcnt d.storage hdr (chunkHeader m c.data) < 2 ^ 31 → 0 < d.storage.fillBufNumBlks

variable {D : Type} {c c' : SparseCursor (Nat → Cell)} {fuel : Nat} {m : Mem} {alloc : Nat → Bool}

theorem chunkBlkcnt_lt (info : SparseStorage D) (hdr : SparseHeader) (ch : ChunkHeader) :
    chunkBlkcnt info hdr ch < 2 ^ 32 :=
  Nat.lt_of_le_of_lt (Nat.div_le_self _ _) (w32_lt _)

theorem rawChunk_goesOn {info : SparseStorage D} {hdr : SparseHeader} {ch : ChunkHeader} {data : Nat}
    {c c' : SparseCursor D} (run : rawChunk info m hdr ch data c = (c', none)) :
    Sized hdr ch .raw ∧ ∃ out, out = info.write c.dev c.blk (chunkBlkcnt info hdr ch) (fun i => some (m.byte (data + i))) ∧
      ¬ w32 out.1 < chunkBlkcnt info hdr ch ∧
      c' = ⟨w32 (c.blk + w32 out.1), w32 (data + chunkDataSz hdr ch), w32 (c.totalBlocks + ch.chunkSz), out.2⟩ := by
  unfold rawChunk at run
  dsimp only at run
  split at run
  · cases run
  rename_i sized
  split at run
  · cases run
  split at run
  · cases run
  rename_i done
  cases run
  exact ⟨not_not.mp sized, _, rfl, done, rfl⟩

theorem fillChunk_goesOn {info : SparseStorage D} {hdr : SparseHeader} {ch : ChunkHeader} {data : Nat}
    {c c' : SparseCursor D} {a : Bool} (run : fillChunk info m hdr ch data a fuel c = (c', none)) :
    Sized hdr ch .fill ∧ a = true ∧
      fillLoop info (info.fillBuf (m.u32 data)) (chunkBlkcnt info hdr ch) fuel 0 c.blk c.dev = ((c'.blk, c'.dev), none) ∧
      c'.data = w32 (data + 4) ∧ c'.totalBlocks = w32 (c.totalBlocks + chunkDataSz hdr ch / hdr.blkSz) := by
  unfold fillChunk at run
  dsimp only at run
  split at run
  · cases run
  rename_i sized
  split at run
  · cases run
  rename_i allocated
  split at run
  · cases run
  split at run
  · cases run
  rename_i ended
  split at run
  · cases run
  cases run
  exact ⟨not_not.mp sized, by simpa using allocated, Prod.ext rfl ended, rfl, rfl⟩

theorem rawChunk_passed (d : BlockDevice) (m : Mem) (hdr : SparseHeader)
    (type_eq : (chunkHeader m c.data).chunkType = some .raw)
    (run : rawChunk d.storage m hdr (chunkHeader m c.data) (skipChunkHeader hdr c.data) c = (c', none)) :
    ChunkPassed d m hdr c c' .raw := by
  obtain ⟨sized, _, rfl, done, rfl⟩ := rawChunk_goesOn run
  obtain ⟨count, stored, room⟩ := storeBlocks_fst_of_ge done (chunkBlkcnt_lt _ _ _)
  exact {
    type_eq := type_eq
    sized := sized
    blk_eq := congrArg (fun n => w32 (c.blk + n)) count
    data_eq := rfl
    dev_eq := stored
    room := fun _ => room
    filled := fun fill => by cases fill }

theorem fillChunk_passed (d : BlockDevice) (m : Mem) (hdr : SparseHeader)
    {alloc : Bool} (position : c.blk < 2 ^ 32)
    (type_eq : (chunkHeader m c.data).chunkType = some .fill)
    (run : fillChunk d.storage m hdr (chunkHeader m c.data) (skipChunkHeader hdr c.data) alloc fuel c = (c', none)) :
    ChunkPassed d m hdr c c' .fill := by
  obtain ⟨sized, -, loop, data_eq, -⟩ := fillChunk_goesOn run
  have bounded := chunkBlkcnt_lt d.storage hdr (chunkHeader m c.data)
  obtain ⟨blkEq, fits, devEq⟩ := fillLoop_done d _ bounded (Nat.zero_le _) position loop
  have capacity := d.lba_lt
  have inWord : c'.blk < 2 ^ 32 := by
    rcases Nat.eq_zero_or_pos (chunkBlkcnt d.storage hdr (chunkHeader m c.data)) with zero | positive
    · omega
    · have := fits positive
      omega
  exact {
    type_eq := type_eq
    sized := sized
    blk_eq := by
      change c'.blk = w32 (c.blk + chunkBlkcnt d.storage hdr (chunkHeader m c.data))
      rw [← Nat.sub_zero (chunkBlkcnt _ _ _), ← blkEq, w32_of_lt inWord]
    data_eq := data_eq
    dev_eq := devEq
    room := fun _ positive => by
      have := fits positive
      omega
    filled := fun _ positive small => by
      rcases Nat.eq_zero_or_pos d.storage.fillBufNumBlks with zero | some_room
      · exact absurd (congrArg Prod.snd loop) (fillLoop_stuck _ _ _ _ zero positive small)
      · exact some_room }

theorem chunkStep_passed (d : BlockDevice) (m : Mem) (hdr : SparseHeader)
    {alloc : Bool} (position : c.blk < 2 ^ 32)
    (run : chunkStep d.storage m hdr alloc fuel c = (c', none)) :
    ∃ t, ChunkPassed d m hdr c c' t := by
  unfold chunkStep at run
  dsimp only at run
  split at run
  · rename_i type_eq
    exact ⟨.raw, rawChunk_passed d m hdr type_eq run⟩
  · rename_i type_eq
    exact ⟨.fill, fillChunk_passed d m hdr position type_eq run⟩
  · rename_i type_eq
    simp only [dontCareChunk, Prod.mk.injEq, and_true] at run
    subst run
    exact ⟨.dontCare, type_eq, trivial, rfl, by simp [dataAdvance, skipChunkHeader, apply_ite w32],
      by simp [BlockDevice.writtenContents], by simp [ChunkType.stores], by simp⟩
  · rename_i type_eq
    unfold crc32Chunk at run
    split at run
    · cases run
    rename_i sized
    simp only [Prod.mk.injEq, and_true] at run
    subst run
    exact ⟨.crc32, type_eq, not_not.mp sized, (w32_of_lt position).symm, rfl,
      by simp [BlockDevice.writtenContents], by simp [ChunkType.stores], by simp⟩
  · cases run

/-- The cursor in front of chunk `k`. -/
def BlockDevice.cursorAt (d : BlockDevice) (m : Mem) (alloc : Nat → Bool) (fuel : Nat) (dev : Nat → Cell) (k : Nat) :
    SparseCursor (Nat → Cell) :=
  (chunkLoop d.storage m (sparseHeader m) alloc fuel (firstCursor d.storage (sparseHeader m) dev) k).1

theorem chunkLoop_before {info : SparseStorage D} {hdr : SparseHeader}
    {c : SparseCursor D} {k n : Nat} (le : k ≤ n)
    (run : (chunkLoop info m hdr alloc fuel c n).2 = none) :
    (chunkLoop info m hdr alloc fuel c k).2 = none := by
  induction n, le using Nat.le_induction with
  | base => exact run
  | succ n _ ih =>
    unfold chunkLoop at run
    dsimp only at run
    split at run
    · rename_i stopped
      rw [stopped] at run
      cases run
    · rename_i passed
      exact ih passed

theorem chunkLoop_step {info : SparseStorage D} {hdr : SparseHeader}
    {c : SparseCursor D} {k : Nat}
    (run : (chunkLoop info m hdr alloc fuel c (k + 1)).2 = none) :
    chunkStep info m hdr (alloc k) fuel (chunkLoop info m hdr alloc fuel c k).1 =
      ((chunkLoop info m hdr alloc fuel c (k + 1)).1, none) := by
  have before := chunkLoop_before (Nat.le_succ k) run
  have unfolded : chunkLoop info m hdr alloc fuel c (k + 1) =
      chunkStep info m hdr (alloc k) fuel (chunkLoop info m hdr alloc fuel c k).1 := by
    rw [chunkLoop, before]
  rw [← unfolded, ← run]

/-- The image and device for which the writer answers OKAY, and what that
already says about them. -/
structure Okay (d : BlockDevice) (m : Mem) (alloc : Nat → Bool) (fuel : Nat) (dev : Nat → Cell) : Prop where
  positive : 0 < d.blksz
  aligned : d.blksz ∣ (sparseHeader m).blkSz
  position : ∀ k ≤ (sparseHeader m).totalChunks, (d.cursorAt m alloc fuel dev k).blk < 2 ^ 32
  passed : ∀ k < (sparseHeader m).totalChunks, ∃ t, ChunkPassed d m (sparseHeader m)
    (d.cursorAt m alloc fuel dev k) (d.cursorAt m alloc fuel dev (k + 1)) t
  final : (writeSparseImage d.storage m alloc fuel dev).1 =
    d.cursorAt m alloc fuel dev (sparseHeader m).totalChunks

theorem okay_of_writeSparseImage {d : BlockDevice} {dev : Nat → Cell}
    (run : (writeSparseImage d.storage m alloc fuel dev).2 = .okay) : Okay d m alloc fuel dev := by
  have outcome := run
  unfold writeSparseImage at outcome
  dsimp only at outcome
  split at outcome
  · cases outcome
  rename_i nonzero
  split at outcome
  · cases outcome
  rename_i aligned
  split at outcome
  · cases outcome
  rename_i ended
  split at outcome
  · cases outcome
  rename_i total
  have steps : ∀ k < (sparseHeader m).totalChunks,
      chunkStep d.storage m (sparseHeader m) (alloc k) fuel (d.cursorAt m alloc fuel dev k) =
        (d.cursorAt m alloc fuel dev (k + 1), none) :=
    fun k below => chunkLoop_step (chunkLoop_before below ended)
  have position : ∀ k ≤ (sparseHeader m).totalChunks, (d.cursorAt m alloc fuel dev k).blk < 2 ^ 32 := by
    intro k
    induction k with
    | zero => exact fun _ => d.start_lt
    | succ k ih =>
      intro atMost
      obtain ⟨t, passed⟩ := chunkStep_passed d m _ (ih (by omega)) (steps k (by omega))
      rw [passed.blk_eq]
      exact w32_lt _
  refine ⟨Nat.pos_of_ne_zero nonzero, Nat.dvd_of_mod_eq_zero (not_not.mp aligned), position, ?_, ?_⟩
  · intro k below
    exact chunkStep_passed d m _ (position k below.le) (steps k below)
  · unfold writeSparseImage BlockDevice.cursorAt
    dsimp only
    rw [if_neg nonzero, if_neg aligned, ended]
    dsimp only
    rw [if_neg total]

end UuuFastboot
