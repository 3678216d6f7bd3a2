import UuuFastboot.Sparse.Writer

namespace UuuFastboot

open Word Overlay

/-- A block device of `lba` blocks and the partition of it that an image is
written to; all are `lbaint_t` values of its descriptor. -/
structure BlockDevice where
  blksz : Nat
  start : Nat
  size : Nat
  lba : Nat
  blksz_lt : blksz < 2 ^ 32
  start_lt : start < 2 ^ 32
  size_lt : size < 2 ^ 32
  lba_lt : lba < 2 ^ 32

/-- A write that stores exactly the blocks it is given, or nothing when
they do not all lie on the device. Device contents are addressed in bytes. -/
def storeBlocks (blksz lba : Nat) (dev : Nat → Cell) (blk n : Nat) (src : Nat → Cell) :
    Nat × (Nat → Cell) :=
  if blk + n ≤ lba then (n, overlay dev (blk * blksz) (n * blksz) src) else (0, dev)

def mmcSparseReserve (_blk blkcnt : Nat) : Nat := blkcnt

/-- The storage description of a device that stores exactly. -/
def BlockDevice.storage (d : BlockDevice) : SparseStorage (Nat → Cell) where
  blksz := d.blksz
  start := d.start
  size := d.size
  blksz_lt := d.blksz_lt
  start_lt := d.start_lt
  size_lt := d.size_lt
  write := storeBlocks d.blksz d.lba
  reserve := mmcSparseReserve

/-! The meaning of an image, in exact integers and without the writer. -/

/-- Byte offset of chunk `k`: the first follows the file header, each next
one starts where the `total_sz` of the one before ends. -/
def chunkOffset (m : Mem) : Nat → Nat
  | 0 => (sparseHeader m).fileHdrSz
  | k + 1 => chunkOffset m k + (chunkHeader m (chunkOffset m k)).totalSz

def chunkAt (m : Mem) (k : Nat) : ChunkHeader := chunkHeader m (chunkOffset m k)

/-- Offset of the data of chunk `k`. -/
def payloadOffset (m : Mem) (k : Nat) : Nat := chunkOffset m k + (sparseHeader m).chunkHdrSz

/-- Bytes that chunk `k` stands for on the device. -/
def chunkBytes (m : Mem) (k : Nat) : Nat := (sparseHeader m).blkSz * (chunkAt m k).chunkSz

/-- Image blocks of the chunks before chunk `k`. -/
def blocksBefore (m : Mem) : Nat → Nat
  | 0 => 0
  | k + 1 => blocksBefore m k + (chunkAt m k).chunkSz

/-- Device block at which chunk `k` begins. -/
def BlockDevice.firstBlock (d : BlockDevice) (m : Mem) (k : Nat) : Nat :=
  d.start + blocksBefore m k * (sparseHeader m).blkSz / d.blksz

/-- What chunk `k` puts on the device: how many bytes, and which. A
DONT_CARE or CRC32 chunk leaves the device as it was. -/
def chunkContents (m : Mem) (k : Nat) : Nat × (Nat → Cell) :=
  match (chunkAt m k).chunkType with
  | some .raw => (chunkBytes m k, fun i => some (m.byte (payloadOffset m k + i)))
  | some .fill => (chunkBytes m k, fun i => some (byteOfWord (m.u32 (payloadOffset m k)) i))
  | _ => (0, fun _ => none)

/-- Device contents after the first `count` chunks were expanded. -/
def BlockDevice.expansion (d : BlockDevice) (m : Mem) (dev : Nat → Cell) : Nat → Nat → Cell
  | 0 => dev
  | k + 1 =>
    overlay (d.expansion m dev k) (d.firstBlock m k * d.blksz) (chunkContents m k).1 (chunkContents m k).2

/-- Chunks that put bytes on the device. -/
def ChunkType.stores : ChunkType → Bool
  | .raw => true
  | .fill => true
  | .dontCare => false
  | .crc32 => false

theorem BlockDevice.firstBlock_succ (d : BlockDevice) (m : Mem) (k : Nat) (positive : 0 < d.blksz)
    (aligned : d.blksz ∣ (sparseHeader m).blkSz) :
    d.firstBlock m (k + 1) = d.firstBlock m k + chunkBytes m k / d.blksz := by
  obtain ⟨q, blkSz⟩ := aligned
  unfold firstBlock chunkBytes
  have reassoc : ∀ n, n * (d.blksz * q) = d.blksz * (n * q) := fun n => by ring
  have product : d.blksz * q * (chunkAt m k).chunkSz = d.blksz * ((chunkAt m k).chunkSz * q) := by ring
  rw [blkSz, reassoc, reassoc, product, Nat.mul_div_cancel_left _ positive,
    Nat.mul_div_cancel_left _ positive, Nat.mul_div_cancel_left _ positive]
  simp only [blocksBefore]
  ring

theorem blocksBefore_mono (m : Mem) {j k : Nat} (le : j ≤ k) : blocksBefore m j ≤ blocksBefore m k := by
  induction le with
  | refl => rfl
  | step _ ih => exact Nat.le_trans ih (Nat.le_add_right _ _)

theorem BlockDevice.firstBlock_mono (d : BlockDevice) (m : Mem) {j k : Nat} (le : j ≤ k) :
    d.firstBlock m j ≤ d.firstBlock m k :=
  Nat.add_le_add_left (Nat.div_le_div_right (Nat.mul_le_mul_right _ (blocksBefore_mono m le))) _

/-- What chunk `k` leaves on the device is not touched by the chunks after
it: they begin further on. -/
theorem BlockDevice.expansion_frozen (d : BlockDevice) (m : Mem) (dev : Nat → Cell) {a k n : Nat}
    (le : k ≤ n) (below : a < d.firstBlock m k * d.blksz) :
    d.expansion m dev n a = d.expansion m dev k a := by
  induction n, le using Nat.le_induction with
  | base => rfl
  | succ n later ih =>
    have before : a < d.firstBlock m n * d.blksz :=
      Nat.lt_of_lt_of_le below (Nat.mul_le_mul_right _ (d.firstBlock_mono m later))
    rw [expansion, overlay_of_lt before, ih]

end UuuFastboot
