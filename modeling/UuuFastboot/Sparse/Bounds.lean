import UuuFastboot.Sparse.Expansion

namespace UuuFastboot

open Word

section

variable {D : Type}

def SparseStorage.Inside (info : SparseStorage D) (blk n : Nat) : Prop :=
  info.start ≤ blk ∧ blk + n ≤ info.start + info.size

/-- From round `i` of a FILL loop on, the callback never reports so many
blocks that the position wraps or that the rest of the chunk no longer fits. -/
def FillFits (info : SparseStorage D) (buf : Nat → Cell) (blkcnt : Nat) : Nat → Nat → Nat → D → Prop
  | 0, _, _, _ => True
  | fuel + 1, i, blk, dev =>
    let j := fillRound info.fillBufNumBlks (blkcnt - i)
    let out := info.write dev blk j buf
    i < blkcnt → j ≤ w32 out.1 →
      blk + w32 out.1 < 2 ^ 32 ∧
        (i + j < blkcnt → blk + w32 out.1 + (blkcnt - (i + j)) ≤ info.start + info.size) ∧
        FillFits info buf blkcnt fuel (i + j) (blk + w32 out.1) out.2

/-- In the chunk in front of the cursor no 32-bit sum of a position and a
block count wraps: neither the sum that is compared with the end of the
partition nor a move of the position. -/
def ChunkFits (info : SparseStorage D) (m : Mem) (hdr : SparseHeader) (fuel : Nat) (c : SparseCursor D) : Prop :=
  let ch := chunkHeader m c.data
  let data := skipChunkHeader hdr c.data
  let blkcnt := chunkBlkcnt info hdr ch
  match ch.chunkType with
  | some .raw =>
    let blks := w32 (info.write c.dev c.blk blkcnt (fun i => some (m.byte (data + i)))).1
    c.blk + blkcnt < 2 ^ 32 ∧ (blkcnt ≤ blks → c.blk + blks < 2 ^ 32)
  | some .fill =>
    c.blk + blkcnt < 2 ^ 32 ∧ FillFits info (info.fillBuf (m.u32 data)) blkcnt fuel 0 c.blk c.dev
  | some .dontCare => c.blk + info.reserve c.blk blkcnt < 2 ^ 32
  | _ => True

instance decidableFillFits (info : SparseStorage D) (buf : Nat → Cell) (blkcnt : Nat) :
    (fuel i blk : Nat) → (dev : D) → Decidable (FillFits info buf blkcnt fuel i blk dev)
  | 0, _, _, _ => isTrue trivial
  | fuel + 1, i, blk, dev =>
    let j := fillRound info.fillBufNumBlks (blkcnt - i)
    let out := info.write dev blk j buf
    have := decidableFillFits info buf blkcnt fuel (i + j) (blk + w32 out.1) out.2
    inferInstanceAs (Decidable (i < blkcnt → j ≤ w32 out.1 → _ ∧ _ ∧ _))

instance (info : SparseStorage D) (m : Mem) (hdr : SparseHeader) (fuel : Nat) (c : SparseCursor D) :
    Decidable (ChunkFits info m hdr fuel c) := by
  unfold ChunkFits
  dsimp only
  split <;> infer_instance

/-- `ChunkFits` at every chunk that the run reaches. -/
def RunFits (info : SparseStorage D) (m : Mem) (alloc : Nat → Bool) (fuel : Nat) (dev : D) : Prop :=
  ∀ k < (sparseHeader m).totalChunks,
    ChunkFits info m (sparseHeader m) fuel
      (chunkLoop info m (sparseHeader m) alloc fuel (firstCursor info (sparseHeader m) dev) k).1

instance (info : SparseStorage D) (m : Mem) (alloc : Nat → Bool) (fuel : Nat) (dev : D) :
    Decidable (RunFits info m alloc fuel dev) :=
  inferInstanceAs (Decidable (∀ k < _, _))

/-- A property of the device that every write inside the partition keeps. -/
def SparseStorage.Keeps (info : SparseStorage D) (P : D → Prop) : Prop :=
  ∀ dev blk n src, P dev → info.Inside blk n → P (info.write dev blk n src).2

variable {info : SparseStorage D} {P : D → Prop} {m : Mem} {hdr : SparseHeader} {alloc : Bool} {fuel : Nat}

theorem fillLoop_keeps (keeps : info.Keeps P) {buf : Nat → Cell} {blkcnt i blk : Nat} {dev : D}
    (holds : P dev) (lower : info.start ≤ blk)
    (upper : i < blkcnt → blk + (blkcnt - i) ≤ info.start + info.size)
    (fits : FillFits info buf blkcnt fuel i blk dev) :
    P (fillLoop info buf blkcnt fuel i blk dev).1.2 ∧
      info.start ≤ (fillLoop info buf blkcnt fuel i blk dev).1.1 := by
  induction fuel generalizing i blk dev with
  | zero =>
    rw [fillLoop]
    split <;> exact ⟨holds, lower⟩
  | succ fuel ih =>
    rw [fillLoop]
    split
    · rename_i more
      have roundLe : fillRound info.fillBufNumBlks (blkcnt - i) ≤ blkcnt - i := by
        unfold fillRound
        split <;> omega
      have room := upper more
      have stored := keeps dev blk (fillRound info.fillBufNumBlks (blkcnt - i)) buf holds ⟨lower, by omega⟩
      dsimp only
      split
      · exact ⟨stored, lower⟩
      · rename_i done
        obtain ⟨inWord, rest, later⟩ := fits more (Nat.le_of_not_lt done)
        rw [w32_of_lt inWord]
        exact ih stored (by omega) rest later
    · exact ⟨holds, lower⟩

section

variable (representable : info.start + info.size < 2 ^ 32)
include representable

theorem not_exceeds {blk blkcnt : Nat}
    (inWord : blk + blkcnt < 2 ^ 32) (passed : ¬ info.exceeds blk blkcnt = true) :
    blk + blkcnt ≤ info.start + info.size := by
  unfold SparseStorage.exceeds at passed
  rw [w32_of_lt representable, w32_of_lt inWord, decide_eq_true_eq] at passed
  omega

theorem rawChunk_keeps (keeps : info.Keeps P)
    {ch : ChunkHeader} {data : Nat} {c : SparseCursor D} (holds : P c.dev) (lower : info.start ≤ c.blk)
    (sum : c.blk + chunkBlkcnt info hdr ch < 2 ^ 32)
    (inWord : chunkBlkcnt info hdr ch ≤ w32 (info.write c.dev c.blk (chunkBlkcnt info hdr ch)
        (fun i => some (m.byte (data + i)))).1 →
      c.blk + w32 (info.write c.dev c.blk (chunkBlkcnt info hdr ch)
        (fun i => some (m.byte (data + i)))).1 < 2 ^ 32) :
    P (rawChunk info m hdr ch data c).1.dev ∧ info.start ≤ (rawChunk info m hdr ch data c).1.blk := by
  unfold rawChunk
  dsimp only
  split
  · exact ⟨holds, lower⟩
  split
  · exact ⟨holds, lower⟩
  rename_i passed
  have stored := keeps c.dev c.blk (chunkBlkcnt info hdr ch) (fun i => some (m.byte (data + i))) holds
    ⟨lower, not_exceeds representable sum passed⟩
  split
  · exact ⟨stored, lower⟩
  · rename_i done
    refine ⟨stored, ?_⟩
    dsimp only
    rw [w32_of_lt (inWord (Nat.le_of_not_lt done))]
    omega

theorem fillChunk_keeps (keeps : info.Keeps P)
    {ch : ChunkHeader} {data : Nat} {c : SparseCursor D} (holds : P c.dev) (lower : info.start ≤ c.blk)
    (sum : c.blk + chunkBlkcnt info hdr ch < 2 ^ 32)
    (fits : FillFits info (info.fillBuf (m.u32 data)) (chunkBlkcnt info hdr ch) fuel 0 c.blk c.dev) :
    P (fillChunk info m hdr ch data alloc fuel c).1.dev ∧
      info.start ≤ (fillChunk info m hdr ch data alloc fuel c).1.blk := by
  unfold fillChunk
  dsimp only
  split
  · exact ⟨holds, lower⟩
  split
  · exact ⟨holds, lower⟩
  split
  · exact ⟨holds, lower⟩
  rename_i passed
  have kept := fillLoop_keeps keeps holds lower (fun _ => not_exceeds representable sum passed) fits
  split
  · exact kept
  · split <;> exact kept

theorem chunkStep_keeps (keeps : info.Keeps P)
    {c : SparseCursor D} (holds : P c.dev) (lower : info.start ≤ c.blk) (fits : ChunkFits info m hdr fuel c) :
    P (chunkStep info m hdr alloc fuel c).1.dev ∧ info.start ≤ (chunkStep info m hdr alloc fuel c).1.blk := by
  unfold ChunkFits at fits
  unfold chunkStep
  dsimp only at fits ⊢
  split <;> rename_i type_eq <;> rw [type_eq] at fits
  · exact rawChunk_keeps representable keeps holds lower fits.1 fits.2
  · exact fillChunk_keeps representable keeps holds lower fits.1 fits.2
  · refine ⟨holds, ?_⟩
    dsimp only [dontCareChunk] at fits ⊢
    rw [w32_of_lt fits]
    omega
  · unfold crc32Chunk
    split <;> exact ⟨holds, lower⟩
  · exact ⟨holds, lower⟩

theorem writeSparseImage_keeps {alloc : Nat → Bool} {dev : D}
    (keeps : info.Keeps P) (holds : P dev) (fits : RunFits info m alloc fuel dev) :
    P (writeSparseImage info m alloc fuel dev).1.dev := by
  have run : ∀ k ≤ (sparseHeader m).totalChunks,
      P (chunkLoop info m (sparseHeader m) alloc fuel (firstCursor info (sparseHeader m) dev) k).1.dev ∧
        info.start ≤ (chunkLoop info m (sparseHeader m) alloc fuel (firstCursor info (sparseHeader m) dev) k).1.blk := by
    intro k
    induction k with
    | zero => exact fun _ => ⟨holds, le_rfl⟩
    | succ k ih =>
      intro atMost
      obtain ⟨before, lower⟩ := ih (by omega)
      rw [chunkLoop]
      split
      · exact ⟨before, lower⟩
      · exact chunkStep_keeps representable keeps before lower (fits k atMost)
  have final := (run _ le_rfl).1
  unfold writeSparseImage
  dsimp only
  split
  · exact holds
  split
  · exact holds
  split
  · exact final
  split
  · exact final
  · exact final

end

/-- A call `info->write(blk, n)`. -/
structure WriteCall where
  blk : Nat
  n : Nat
  deriving DecidableEq, Repr

/-- The same storage with a log of the calls that its callback gets. -/
def SparseStorage.logged (info : SparseStorage D) : SparseStorage (D × List WriteCall) where
  blksz := info.blksz
  start := info.start
  size := info.size
  blksz_lt := info.blksz_lt
  start_lt := info.start_lt
  size_lt := info.size_lt
  write dev blk n src :=
    let out := info.write dev.1 blk n src
    (out.1, out.2, dev.2 ++ [⟨blk, n⟩])
  reserve := info.reserve

/-- All calls of the write callback in a run on the image `m`. -/
def writeCalls (info : SparseStorage D) (m : Mem) (alloc : Nat → Bool) (fuel : Nat) (dev : D) : List WriteCall :=
  (writeSparseImage info.logged m alloc fuel (dev, [])).1.dev.2

end

/-- In every run, on any image and with any callback, in which no sum of a
position and a block count wraps, all blocks written are in the partition. -/
theorem writeCalls_inside {D : Type} (info : SparseStorage D) (m : Mem) (alloc : Nat → Bool) (fuel : Nat) (dev : D)
    (representable : info.start + info.size < 2 ^ 32) (fits : RunFits info.logged m alloc fuel (dev, [])) :
    ∀ call ∈ writeCalls info m alloc fuel dev, info.start ≤ call.blk ∧ call.blk + call.n ≤ info.start + info.size := by
  have keeps : info.logged.Keeps (fun dev => ∀ call ∈ dev.2, info.Inside call.blk call.n) := by
    intro dev blk n src holds inside call member
    rcases List.mem_append.mp member with old | new
    · exact holds call old
    · obtain rfl := List.mem_singleton.mp new
      exact inside
  have representable' : info.logged.start + info.logged.size < 2 ^ 32 := representable
  exact writeSparseImage_keeps representable' keeps (fun call member => absurd member List.not_mem_nil) fits

theorem mixedImage_calls_inside :
    (writeCalls userPartition.storage mixedImage (fun _ => true) 4 (fun _ => some 0)).length = 2 ∧
      ∀ call ∈ writeCalls userPartition.storage mixedImage (fun _ => true) 4 (fun _ => some 0),
        userPartition.start ≤ call.blk ∧ call.blk + call.n ≤ userPartition.start + userPartition.size :=
  ⟨by decide,
    writeCalls_inside userPartition.storage mixedImage (fun _ => true) 4 (fun _ => some 0) (by decide) (by decide)⟩

def smallPartition : BlockDevice := { userPartition with start := 8192, start_lt := by decide, size := 1000,
                                                         size_lt := by decide }

/-- 512 holes of just under 4 GiB, together just under `2 ^ 32` device
blocks, then one filled block. -/
def wrapImage : Mem := fun a =>
  if a < 28 then (headerBytes (512 * 0xFFFFF + 1) 513).getD a 0
  else if a < 28 + 512 * 12 then (chunkHeaderBytes 0xCAC3 0xFFFFF 12).getD ((a - 28) % 12) 0
  else (chunkHeaderBytes 0xCAC2 1 16 ++ le32 0x11223344).getD (a - (28 + 512 * 12)) 0

/-- The holes move the position once around the address space, to a block
in front of the partition, and the filled block is written there. -/
theorem wrapImage_call_outside :
    smallPartition.start + smallPartition.size < 2 ^ 32 ∧
      ∃ call ∈ writeCalls smallPartition.storage wrapImage (fun _ => true) 4 (fun _ => some 0),
        ¬ (smallPartition.start ≤ call.blk ∧ call.blk + call.n ≤ smallPartition.start + smallPartition.size) :=
  ⟨by decide, ⟨4096, 8⟩, by decide +kernel, by decide⟩

end UuuFastboot
