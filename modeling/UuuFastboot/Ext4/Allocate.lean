import UuuFastboot.Ext4.Alloc

namespace UuuFastboot.Ext4

open Word Overlay Bytes

/-- `*total_remaining_blocks` and `*no_blks_reqd` -/
structure Progress where
  remaining : Nat
  reqd : Nat

/-- How the block for one entry of a block of pointers is obtained: no block
where the allocation gives up. -/
abbrev EntrySource := Progress → Run (Option Nat × Progress)

/-- The loop that fills a block of pointers: it ends when nothing remains to
be allocated or the block is full. -/
def fillEntries (source : EntrySource) : Nat → Nat → Buf → Progress → Run (Option Buf × Progress)
  | 0, _, buf, p => pure (some buf, p)
  | left + 1, i, buf, p => do
    match ← source p with
    | (none, p) => pure (none, p)
    | (some blkno, p) =>
      let buf := putLe32 buf (4 * i) blkno
      if p.remaining = 0 then pure (some buf, p) else fillEntries source left (i + 1) buf p

section Allocator

-- `newBlk` hands out a block, or -1
variable (env : Env) (newBlk : Run Nat)

def dataEntryWith : EntrySource := fun p => do
  let blkno ← newBlk
  if blkno = minusOne then pure (none, p) else pure (some blkno, { p with remaining := p.remaining - 1 })

/-- An entry that names a block of pointers, whose own entries come from
`source`. Where `check` is set the block is read first, and an error of that read
ends the allocation. -/
def pointerEntryWith (check : Bool) (source : EntrySource) : EntrySource := fun p => do
  let blkno ← newBlk
  if blkno = minusOne then pure (none, p)
  else do
    let p := { p with reqd := p.reqd + 1 }
    let fs ← get
    if check && (fs.readBlock env blkno).isNone then pure (none, p)
    else do
      match ← fillEntries source (fs.blksz / 4) 0 zeros p with
      | (none, p) => pure (none, p)
      | (some buf, p) => do
        putBlock env blkno buf
        pure (some blkno, p)

/-- Allocate a tree of pointer blocks and store its root in a field of the
inode, if blocks remain to be allocated. -/
def allocTree (field : Nat) (source : EntrySource) (inode : Buf) (p : Progress) : Run (Buf × Progress) := do
  if p.remaining = 0 then pure (inode, p)
  else
    match ← source p with
    | (none, p) => pure (inode, p)
    | (some blkno, p) => pure (putLe32 inode field blkno, p)

def allocSingleIndirectBlock : Buf → Progress → Run (Buf × Progress) :=
  allocTree 88 (pointerEntryWith env newBlk true (dataEntryWith newBlk))

def allocDoubleIndirectBlock : Buf → Progress → Run (Buf × Progress) :=
  allocTree 92 (pointerEntryWith env newBlk true (pointerEntryWith env newBlk true (dataEntryWith newBlk)))

/-- `alloc_triple_indirect_block`, which does not read the blocks it will
fill. -/
def allocTripleIndirectBlock : Buf → Progress → Run (Buf × Progress) :=
  allocTree 96 (pointerEntryWith env newBlk false (pointerEntryWith env newBlk false
    (pointerEntryWith env newBlk false (dataEntryWith newBlk))))

/-- The loop of `ext4fs_allocate_blocks` over the direct blocks; false where
it returns because no block is left. -/
def allocDirect : Nat → Nat → Buf → Nat → Run (Bool × Buf × Nat)
  | 0, _, inode, remaining => pure (true, inode, remaining)
  | left + 1, i, inode, remaining => do
    if remaining = 0 then pure (true, inode, remaining)
    else
      let blkno ← newBlk
      if blkno = minusOne then pure (false, inode, remaining)
      else allocDirect left (i + 1) (putLe32 inode (Inode.dirBlocks + 4 * i) blkno) (remaining - 1)

/-- `ext4fs_allocate_blocks` with any allocator: the inode and
`*total_no_of_block`. A failed allocation is not reported. -/
def ext4fsAllocateBlocksWith (inode : Buf) (remaining totalNoOfBlock : Nat) : Run (Buf × Nat) := do
  let (ok, inode, remaining) ← allocDirect newBlk indirectBlocks 0 inode remaining
  if ok then
    let (inode, p) ← allocSingleIndirectBlock env newBlk inode ⟨remaining, 0⟩
    let (inode, p) ← allocDoubleIndirectBlock env newBlk inode p
    let (inode, p) ← allocTripleIndirectBlock env newBlk inode p
    pure (inode, totalNoOfBlock + p.reqd)
  else pure (inode, totalNoOfBlock)

end Allocator

/-- An entry with a block of data from the allocator of the driver. -/
def dataEntry (env : Env) : EntrySource := dataEntryWith (ext4fsGetNewBlkNo env)

/-- An entry with a block of pointers from the allocator of the driver. -/
def pointerEntry (env : Env) : Bool → EntrySource → EntrySource := pointerEntryWith env (ext4fsGetNewBlkNo env)

def ext4fsAllocateBlocks (env : Env) : Buf → Nat → Nat → Run (Buf × Nat) :=
  ext4fsAllocateBlocksWith env (ext4fsGetNewBlkNo env)

end UuuFastboot.Ext4
