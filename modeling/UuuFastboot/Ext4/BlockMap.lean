import UuuFastboot.Ext4.Layout

namespace UuuFastboot.Ext4

open Word Overlay Bytes

/-- One of the three indirect-block buffers the driver keeps between calls:
`ext4fs_indir1_block`, `_size` and `_blkno`. A buffer that is not there has
size 0, and `blkno` is -1 while nothing was read. -/
structure Indir where
  size : Nat
  blkno : Nat
  buf : Buf

/-- As `ext4fs_reinit_global` leaves a buffer. -/
def Indir.none : Indir := ⟨0, minusOne, zeros⟩

/-- The buffer allocated, or allocated anew for another block size. -/
def Indir.prepare (blksz : Nat) (c : Indir) : Indir := if c.size = blksz then c else ⟨blksz, minusOne, zeros⟩

/-- Read `block` into the buffer unless `test` is the block it holds; with
whether the read succeeded. -/
def Indir.load (env : Env) (card : Buf) (root : Root) (c : Indir) (test block : Nat) : Bool × Indir :=
  let c := c.prepare root.blockSize
  if blockSector env root test = c.blkno then (true, c)
  else
    match fsDevread env card (blockSector env root block) 0 root.blockSize with
    | .none => (false, c)
    | some buf => (true, ⟨root.blockSize, blockSector env root block, buf⟩)

def Indir.entry (env : Env) (c : Indir) (i : Nat) : Nat :=
  if i < c.size / 4 then getLe32 c.buf (4 * i) else w32 (env.beyond i)

structure Caches where
  indir1 : Indir
  indir2 : Indir
  indir3 : Indir

def ext4fsReinitGlobal : Caches := ⟨.none, .none, .none⟩

/-- `struct ext_block_cache`: the sector and the contents of the block it
holds. Every block put into it has the size of a file system block. -/
abbrev ExtCache := Option (Nat × Buf)

def extCacheRead (env : Env) (card : Buf) (root : Root) (cache : ExtCache) (sector : Nat) : Option (Nat × Buf) :=
  match cache with
  | some (held, buf) => if held = sector then some (held, buf) else fetch
  | .none => fetch
where
  fetch : Option (Nat × Buf) := (fsDevread env card sector 0 root.blockSize).map (fun buf => (sector, buf))

/-- `EXT4_EXT_MAGIC` -/
def extMagic : Nat := 0xf30a

/-- Number of index entries in front of the first one that starts behind
`fileblock`, from entry `i` on. -/
def indexScan (block : Buf) (fileblock : Nat) : Nat → Nat → Nat
  | 0, i => i
  | left + 1, i => if getLe32 block (12 + 12 * i) ≤ fileblock then indexScan block fileblock left (i + 1) else i

/-- The loop of `ext4fs_get_extent_block`: the leaf that `fileblock` belongs
to, or no leaf where the code returns NULL. -/
def ext4fsGetExtentBlock (env : Env) (card : Buf) (root : Root) (fileblock : Nat) :
    Nat → ExtCache → Buf → Option (Option Buf × ExtCache)
  | 0, _, _ => .none
  | levels + 1, cache, block =>
    if getLe16 block 0 ≠ extMagic then some (.none, cache)
    else if getLe16 block 6 = 0 then some (some block, cache)
    else
      let i := indexScan block fileblock (getLe16 block 2) 0 - 1
      let child := 2 ^ 32 * getLe16 block (12 + 12 * i + 8) + getLe32 block (12 + 12 * i + 4)
      match extCacheRead env card root cache (blockSector env root child) with
      | .none => some (.none, .none)
      | some (sector, buf) => ext4fsGetExtentBlock env card root fileblock levels (some (sector, buf)) buf

/-- The scan of a leaf for the extent that holds `fileblock`; the sum for its
end is one of `long` numbers. -/
def extentScan (leaf : Buf) (fileblock : Nat) : Nat → Nat → Nat
  | 0, _ => 0
  | left + 1, i =>
    let startblock := getLe32 leaf (12 + 12 * i)
    let endblock := asInt (w32 (startblock + getLe16 leaf (12 + 12 * i + 4)))
    if asInt fileblock < asInt startblock then 0
    else if asInt fileblock < endblock then
      w32 (fileblock + (2 ^ 32 - startblock) + 2 ^ 32 * getLe16 leaf (12 + 12 * i + 6) +
        getLe32 leaf (12 + 12 * i + 8))
    else extentScan leaf fileblock left (i + 1)

/-- `-EINVAL` -/
def minusEinval : Nat := 2 ^ 32 - 22

/-- `read_allocated_block` for an inode with extents. -/
def readExtent (env : Env) (card : Buf) (root : Root) (inode : Buf) (fileblock : Nat) (cache : ExtCache) :
    Option (Nat × ExtCache) :=
  match ext4fsGetExtentBlock env card root fileblock env.levels cache (tail inode Inode.dirBlocks) with
  | .none => .none
  | some (.none, cache) => some (minusEinval, cache)
  | some (some leaf, cache) => some (extentScan leaf fileblock (getLe16 leaf 2) 0, cache)

/-- `read_allocated_block` for a block behind the direct ones: the block or
-1, and the buffers afterwards. `load` reads a block into a buffer of a level, unless
the block that the buffer is tested for is there. -/
def readIndirectWith (env : Env) (root : Root) (load : Nat → Indir → Nat → Nat → Bool × Indir) (inode : Buf)
    (fileblock : Nat) (c : Caches) : Nat × Caches :=
  let perblock := root.blockSize / 4
  if fileblock < indirectBlocks + perblock then
    let (ok, indir1) := load 0 c.indir1 (Inode.indirBlock inode) (Inode.indirBlock inode)
    let c := { c with indir1 := indir1 }
    if ok then (indir1.entry env (fileblock - indirectBlocks), c) else (minusOne, c)
  else if fileblock < indirectBlocks + perblock * (perblock + 1) then
    let rblock := fileblock - (indirectBlocks + perblock)
    let (ok, indir1) := load 0 c.indir1 (Inode.doubleIndirBlock inode) (Inode.doubleIndirBlock inode)
    let c := { c with indir1 := indir1 }
    if ok then
      let child := indir1.entry env (rblock / perblock)
      let (ok, indir2) := load 1 c.indir2 child child
      let c := { c with indir2 := indir2 }
      if ok then (indir2.entry env (rblock % perblock), c) else (minusOne, c)
    else (minusOne, c)
  else
    let rblock := fileblock - (indirectBlocks + perblock + perblock * perblock)
    let (ok, indir1) := load 0 c.indir1 (Inode.tripleIndirBlock inode) (Inode.tripleIndirBlock inode)
    let c := { c with indir1 := indir1 }
    if ok then
      let parent := indir1.entry env (rblock / (perblock * perblock))
      let (ok, indir2) := load 1 c.indir2 parent parent
      let c := { c with indir2 := indir2 }
      if ok then
        -- the buffer is tested with an index that is not reduced modulo its number of entries
        let (ok, indir3) := load 2 c.indir3 (indir2.entry env (rblock / perblock))
          (indir2.entry env (rblock / perblock % perblock))
        let c := { c with indir3 := indir3 }
        if ok then (indir3.entry env (rblock % perblock), c) else (minusOne, c)
      else (minusOne, c)
    else (minusOne, c)

/-- `read_allocated_block` behind the direct blocks, on a device whose reads
succeed. -/
def readIndirect (env : Env) (card : Buf) (root : Root) : Buf → Nat → Caches → Nat × Caches :=
  readIndirectWith env root (fun _ c test block => c.load env card root test block)

/-- `read_allocated_block`: the block of the volume that holds a block of
the file, 0 for a hole and a negative value for an error. The extent cache is
the caller's, or a fresh one. -/
def readAllocatedBlock (env : Env) (card : Buf) (root : Root) (inode : Buf) (fileblock : Nat) (cache : ExtCache)
    (c : Caches) : Option (Nat × ExtCache × Caches) :=
  if Inode.usesExtents inode then
    (readExtent env card root inode fileblock cache).map (fun (blknr, cache) => (blknr, cache, c))
  else if isNeg fileblock || fileblock < indirectBlocks then
    some (getLe32 inode (w32 (Inode.dirBlocks + 4 * fileblock)), cache, c)
  else
    let (blknr, c) := readIndirect env card root inode fileblock c
    some (blknr, cache, c)

end UuuFastboot.Ext4
