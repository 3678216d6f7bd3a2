import UuuFastboot.Sparse.Format

namespace UuuFastboot

open Word

/-- `struct sparse_storage` over a device state `D`. The fields are
`lbaint_t`, 32 bits wide on the target; `write` answers the number of
blocks it reports written. -/
structure SparseStorage (D : Type) where
  blksz : Nat
  start : Nat
  size : Nat
  blksz_lt : blksz < 2 ^ 32
  start_lt : start < 2 ^ 32
  size_lt : size < 2 ^ 32
  write : D → Nat → Nat → (Nat → Cell) → Nat × D
  reserve : Nat → Nat → Nat

/-- What keeps `write_sparse_image` from its OKAY. `running` is a FILL loop
that has not finished within the rounds it was given. -/
inductive SparseStop where
  | fail (reason : String)
  | divByZero
  | running
  deriving DecidableEq, Repr

inductive SparseEnd where
  | okay
  | stopped (stop : SparseStop)
  deriving DecidableEq, Repr

/-- The variables of `write_sparse_image` that live from one chunk to the
next: the device position `blk`, the buffer pointer `data` and the count of
expanded blocks. -/
structure SparseCursor (D : Type) where
  blk : Nat
  data : Nat
  totalBlocks : Nat
  dev : D

def fillbufSize : Nat := 1024 * 512

variable {D : Type}

def SparseStorage.fillBufNumBlks (info : SparseStorage D) : Nat := fillbufSize / info.blksz

/-- Number of 32-bit words of `fill_buf` that get the fill value. -/
def SparseStorage.fillBufWords (info : SparseStorage D) : Nat := info.blksz * info.fillBufNumBlks / 4

/-- `blk + blkcnt > info->start + info->size`, as 32-bit sums. -/
def SparseStorage.exceeds (info : SparseStorage D) (blk blkcnt : Nat) : Bool :=
  w32 (info.start + info.size) < w32 (blk + blkcnt)

/-- Byte `i` of a 32-bit little-endian word. -/
def byteOfWord (v i : Nat) : UInt8 := UInt8.ofNat (v / 2 ^ (8 * (i % 4)))

/-- `fill_buf` after its filling loop: a fresh heap block whose first words
hold the fill value. -/
def SparseStorage.fillBuf (info : SparseStorage D) (fillVal : Nat) : Nat → Cell :=
  fun i => if i < 4 * info.fillBufWords then some (byteOfWord fillVal i) else none

/-- The number of blocks of one round of the FILL loop. `j` is an `int`, so
a remainder with the top bit set is negative and is not cut down. -/
def fillRound (num left : Nat) : Nat :=
  if num < left ∧ left < 2 ^ 31 then num else left

/-- `for (i = 0; i < blkcnt;)` of a FILL chunk, for at most `fuel` rounds.
`i` never passes `blkcnt`, so its sums are exact. -/
def fillLoop (info : SparseStorage D) (buf : Nat → Cell) (blkcnt : Nat) :
    Nat → Nat → Nat → D → (Nat × D) × Option SparseStop
  | 0, i, blk, dev => if i < blkcnt then ((blk, dev), some .running) else ((blk, dev), none)
  | fuel + 1, i, blk, dev =>
    if i < blkcnt then
      let j := fillRound info.fillBufNumBlks (blkcnt - i)
      let out := info.write dev blk j buf
      let blks := w32 out.1
      if blks < j then ((blk, out.2), some (.fail "flash write failure"))
      else fillLoop info buf blkcnt fuel (i + j) (w32 (blk + blks)) out.2
    else ((blk, dev), none)

/-- `data` after the chunk header: past the structure, and past what a
header longer than the structure has left. -/
def skipChunkHeader (hdr : SparseHeader) (data : Nat) : Nat :=
  if sizeofChunkHeader < hdr.chunkHdrSz then
    w32 (data + sizeofChunkHeader + (hdr.chunkHdrSz - sizeofChunkHeader))
  else w32 (data + sizeofChunkHeader)

/-- `chunk_data_sz`, a 32-bit product. -/
def chunkDataSz (hdr : SparseHeader) (ch : ChunkHeader) : Nat := w32 (hdr.blkSz * ch.chunkSz)

def chunkBlkcnt (info : SparseStorage D) (hdr : SparseHeader) (ch : ChunkHeader) : Nat :=
  chunkDataSz hdr ch / info.blksz

def rawChunk (info : SparseStorage D) (m : Mem) (hdr : SparseHeader) (ch : ChunkHeader) (data : Nat)
    (c : SparseCursor D) : SparseCursor D × Option SparseStop :=
  let blkcnt := chunkBlkcnt info hdr ch
  if ch.totalSz ≠ w32 (hdr.chunkHdrSz + chunkDataSz hdr ch) then
    (c, some (.fail "Bogus chunk size for chunk type Raw"))
  else if info.exceeds c.blk blkcnt then
    (c, some (.fail "Request would exceed partition size!"))
  else
    let out := info.write c.dev c.blk blkcnt (fun i => some (m.byte (data + i)))
    let blks := w32 out.1
    if blks < blkcnt then ({ c with dev := out.2 }, some (.fail "flash write failure"))
    else
      ({ blk := w32 (c.blk + blks)
         data := w32 (data + chunkDataSz hdr ch)
         totalBlocks := w32 (c.totalBlocks + ch.chunkSz)
         dev := out.2 }, none)

/-- `alloc` says whether `memalign` finds room for `fill_buf`. -/
def fillChunk (info : SparseStorage D) (m : Mem) (hdr : SparseHeader) (ch : ChunkHeader) (data : Nat)
    (alloc : Bool) (fuel : Nat) (c : SparseCursor D) : SparseCursor D × Option SparseStop :=
  let blkcnt := chunkBlkcnt info hdr ch
  if ch.totalSz ≠ w32 (hdr.chunkHdrSz + 4) then
    (c, some (.fail "Bogus chunk size for chunk type FILL"))
  else if !alloc then (c, some (.fail "Malloc failed for: CHUNK_TYPE_FILL"))
  else if info.exceeds c.blk blkcnt then
    (c, some (.fail "Request would exceed partition size!"))
  else
    let out := fillLoop info (info.fillBuf (m.u32 data)) blkcnt fuel 0 c.blk c.dev
    match out.2 with
    | some stop => ({ c with blk := out.1.1, dev := out.1.2 }, some stop)
    | none =>
      if hdr.blkSz = 0 then ({ c with blk := out.1.1, dev := out.1.2 }, some .divByZero)
      else
        ({ blk := out.1.1
           data := w32 (data + 4)
           totalBlocks := w32 (c.totalBlocks + chunkDataSz hdr ch / hdr.blkSz)
           dev := out.1.2 }, none)

def dontCareChunk (info : SparseStorage D) (hdr : SparseHeader) (ch : ChunkHeader) (data : Nat)
    (c : SparseCursor D) : SparseCursor D × Option SparseStop :=
  ({ c with
     blk := w32 (c.blk + info.reserve c.blk (chunkBlkcnt info hdr ch))
     data := data
     totalBlocks := w32 (c.totalBlocks + ch.chunkSz) }, none)

def crc32Chunk (hdr : SparseHeader) (ch : ChunkHeader) (data : Nat)
    (c : SparseCursor D) : SparseCursor D × Option SparseStop :=
  if ch.totalSz ≠ hdr.chunkHdrSz then
    (c, some (.fail "Bogus chunk size for chunk type Dont Care"))
  else
    ({ c with
       data := w32 (data + chunkDataSz hdr ch)
       totalBlocks := w32 (c.totalBlocks + ch.chunkSz) }, none)

/-- One round of the chunk loop. -/
def chunkStep (info : SparseStorage D) (m : Mem) (hdr : SparseHeader) (alloc : Bool) (fuel : Nat)
    (c : SparseCursor D) : SparseCursor D × Option SparseStop :=
  let ch := chunkHeader m c.data
  let data := skipChunkHeader hdr c.data
  match ch.chunkType with
  | some .raw => rawChunk info m hdr ch data c
  | some .fill => fillChunk info m hdr ch data alloc fuel c
  | some .dontCare => dontCareChunk info hdr ch data c
  | some .crc32 => crc32Chunk hdr ch data c
  | none => (c, some (.fail "Unknown chunk type"))

/-- The first `count` rounds of the chunk loop, stopping at the first round
that answers the host. `alloc k` is the outcome of `memalign` in round `k`. -/
def chunkLoop (info : SparseStorage D) (m : Mem) (hdr : SparseHeader) (alloc : Nat → Bool) (fuel : Nat)
    (c : SparseCursor D) : Nat → SparseCursor D × Option SparseStop
  | 0 => (c, none)
  | count + 1 =>
    let before := chunkLoop info m hdr alloc fuel c count
    match before.2 with
    | some _ => before
    | none => chunkStep info m hdr (alloc count) fuel before.1

/-- `data` at the first chunk. A header longer than the structure is
skipped by its own size, and then by its excess once more. -/
def firstChunkData (hdr : SparseHeader) : Nat :=
  if sizeofSparseHeader < hdr.fileHdrSz then
    w32 (hdr.fileHdrSz + (hdr.fileHdrSz - sizeofSparseHeader))
  else w32 hdr.fileHdrSz

def firstCursor (info : SparseStorage D) (hdr : SparseHeader) (dev : D) : SparseCursor D where
  blk := info.start
  data := firstChunkData hdr
  totalBlocks := 0
  dev := dev

/-- `write_sparse_image`: what it answers and the cursor it ends with. -/
def writeSparseImage (info : SparseStorage D) (m : Mem) (alloc : Nat → Bool) (fuel : Nat) (dev : D) :
    SparseCursor D × SparseEnd :=
  let hdr := sparseHeader m
  let first := firstCursor info hdr dev
  if info.blksz = 0 then (first, .stopped .divByZero)
  else if hdr.blkSz % info.blksz ≠ 0 then (first, .stopped (.fail "sparse image block size issue"))
  else
    let out := chunkLoop info m hdr alloc fuel first hdr.totalChunks
    match out.2 with
    | some stop => (out.1, .stopped stop)
    | none =>
      if out.1.totalBlocks ≠ hdr.totalBlks then (out.1, .stopped (.fail "sparse image write failure"))
      else (out.1, .okay)

end UuuFastboot
