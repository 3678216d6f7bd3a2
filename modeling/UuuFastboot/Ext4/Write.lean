import UuuFastboot.Ext4.Allocate
import UuuFastboot.Ext4.Directory

namespace UuuFastboot.Ext4

open Word Overlay Bytes CString

def ext4fsChecksumUpdate (env : Env) (fs : Fs) (i : Nat) : Nat :=
  if fs.hasGdtChksum then
    let desc := fs.groupDescriptor i
    let crc := env.crc16 0xffff (tail fs.sb 104) 16
    let crc := env.crc16 crc (putLe32 zeros 0 i) 4
    let crc := env.crc16 crc desc 30
    if 32 < fs.root.gdsize then env.crc16 crc (tail desc 32) (fs.root.gdsize - 32) else crc
  else 0

/-- One round of the loop of `ext4fs_update` over the block bitmaps. -/
def updateBlockBitmap (env : Env) (i : Nat) : Run (Option Unit) := do
  modify (fun fs => fs.putDescriptor i (putLe16 (fs.groupDescriptor i) 30 (ext4fsChecksumUpdate env fs i)))
  let fs ← get
  putBlock env (fs.bbitmapBlk i) (fs.blkBmaps i)
  pure none

/-- One round of the loop of `ext4fs_update` over the inode bitmaps. -/
def updateInodeBitmap (env : Env) (i : Nat) : Run (Option Unit) := do
  let fs ← get
  putBlock env (fs.ibitmapBlk i) (fs.inodeBmaps i)
  pure none

/-- `ext4fs_update`. What it does to `gindex` and `gd_index` is seen by nobody:
every caller goes on with `ext4fs_deinit`. -/
def ext4fsUpdate (env : Env) : Run Unit := do
  ext4fsUpdateJournal env
  putSb env
  let fs ← get
  let _ ← shortLoop (updateBlockBitmap env) fs.noBlkgrp 0
  let _ ← shortLoop (updateInodeBitmap env) fs.noBlkgrp 0
  let fs ← get
  put env (fs.gdtableBlkno * fs.blksz) fs.gdtable (fs.blksz * fs.noBlkPergdt)
  ext4fsDumpMetadata env

def ext4fsDivRoundup (size n : Nat) : Nat := if size / n * n ≠ size then size / n + 1 else size / n

/-- `ext4fs_get_bgdtable`; false for -1. -/
def ext4fsGetBgdtable (env : Env) : Run Bool := do
  modify (fun fs =>
    { fs with noBlkPergdt := (fs.noBlkgrp * fs.root.gdsize + fs.blksz - 1) / fs.blksz })
  let fs ← get
  match fsDevread env fs.card (fs.sector fs.gdtableBlkno) 0 (fs.blksz * fs.noBlkPergdt) with
  | none => pure false
  | some gdtable => do
    set { fs with gdtable := gdtable }
    ext4fsLogGdt
    pure true

/-- Read the bitmaps of `left` groups from group `i` on; false where one
cannot be read. -/
def readBitmaps (env : Env) (blockOf : Fs → Nat → Nat) (store : Fs → Nat → Buf → Fs) : Nat → Nat → Run Bool
  | 0, _ => pure true
  | left + 1, i => do
    let fs ← get
    match ← readBlock env (blockOf fs i) with
    | none => pure false
    | some bmap => do
      set (store fs i bmap)
      readBitmaps env blockOf store left (i + 1)

/-- The sum of the free blocks that the descriptors of the first groups give. -/
def realFreeBlocks (fs : Fs) : Nat → Nat
  | 0 => 0
  | n + 1 => w32 (realFreeBlocks fs n + Desc.freeBlocks fs.root.gdsize (fs.groupDescriptor n))

/-- `ext4fs_deinit`. The bitmaps and the descriptor table are given back; the
next `ext4fs_init` reads them again. -/
def ext4fsDeinit (env : Env) : Run Unit := do
  let inode ← journalInode env
  let blknr ← allocatedBlock env inode 0
  let jsb ← blockOrZeros env blknr
  putBlock env blknr (putBe32 jsb 28 0)
  ext4fsFreeJournal
  reloadSb env
  modify (fun fs => { fs with sb := putRecover fs.sb false })
  putSb env
  modify (fun fs => { fs with firstPassIbmap := 0, firstPassBbmap := 0, currInodeNo := 0, currBlkno := 0 })

/-- The part of `ext4fs_init` behind the journal; false for a failure. -/
def loadGroups (env : Env) : Run Bool := do
  modify (fun fs =>
    { fs with
      noBlkgrp :=
        ext4fsDivRoundup (w32 (Sblock.totalBlocks fs.root.sblock + 2 ^ 32 - Sblock.firstDataBlock fs.root.sblock))
          (Sblock.blocksPerGroup fs.root.sblock)
      gdtableBlkno := if fs.blksz = 1024 then 2 else 1 })
  if ← ext4fsGetBgdtable env then
    let fs ← get
    if ← readBitmaps env Fs.bbitmapBlk (fun fs i bmap => { fs with blkBmaps := Function.update fs.blkBmaps i bmap })
        fs.noBlkgrp 0 then
      if ← readBitmaps env Fs.ibitmapBlk
          (fun fs i bmap => { fs with inodeBmaps := Function.update fs.inodeBmaps i bmap }) fs.noBlkgrp 0 then
        modify (fun fs =>
          if realFreeBlocks fs fs.noBlkgrp ≠ sbGetFreeBlocks fs.sb then
            { fs with sb := sbSetFreeBlocks fs.sb (realFreeBlocks fs fs.noBlkgrp) }
          else fs)
        pure true
      else pure false
    else pure false
  else pure false

/-- `ext4fs_init`; false for -1. -/
def ext4fsInit (env : Env) : Run Bool := do
  modify (fun fs =>
    { fs with
      blksz := fs.root.blockSize
      sectPerblk := fs.root.blockSize / env.devBlksz
      sb := zeros })
  let fs ← get
  let ok ←
    match ext4ReadSuperblock env fs.card with
    | none => pure false
    | some sb => do
      set { fs with sb := sb }
      if ← ext4fsInitJournal env then loadGroups env else pure false
  if ok then pure true
  else do
    ext4fsDeinit env
    pure false

/-! Deletion. -/

/-- One of the static variables that hold the group logged last. -/
structure PrevIndex where
  read : PrevIndices → Nat
  write : PrevIndices → Nat → PrevIndices

/-- Clear the bit of a block, count it as free in its group and in the
superblock, and log the bitmap where it was not the last one logged; false where
it cannot be read. A group past the last one has no bitmap. -/
def releaseBlock (env : Env) (prev : PrevIndex) (blknr : Nat) : Run Bool := do
  let fs ← get
  let bgIdx := groupOfBlock fs blknr
  if fs.noBlkgrp ≤ bgIdx then undefined
  else do
    modify (fun fs =>
      let bmap := ext4fsResetBlockBmap fs.root.blockSize blknr (fs.blkBmaps bgIdx) bgIdx
      let gd := bgFreeBlocksInc fs.root.gdsize (fs.groupDescriptor bgIdx)
      { fs.putDescriptor bgIdx gd with
        blkBmaps := Function.update fs.blkBmaps bgIdx bmap
        sb := sbFreeBlocksInc fs.sb })
    let fs ← get
    if prev.read fs.prev ≠ bgIdx then do
      let logged ← logBlock env (fs.bbitmapBlk bgIdx)
      if logged then modify (fun fs => { fs with prev := prev.write fs.prev bgIdx })
      pure logged
    else pure true

/-- Run `release` on the entries of a block of pointers in front of the first
one that is zero; false where one of them fails. -/
def releaseEntries (release : Nat → Run Bool) (block : Buf) : Nat → Nat → Run Bool
  | 0, _ => pure true
  | left + 1, i => do
    let blknr := getLe32 block (4 * i)
    if blknr = 0 then pure true
    else if ← release blknr then releaseEntries release block left (i + 1)
    else pure false

def deleteSingleIndirectBlock (env : Env) (inode : Buf) : Run Unit := do
  if Inode.indirBlock inode ≠ 0 then
    let _ ← releaseBlock env ⟨(·.single), fun p v => { p with single := v }⟩ (Inode.indirBlock inode)

def deleteDoubleIndirectBlock (env : Env) (inode : Buf) : Run Unit := do
  if Inode.doubleIndirBlock inode ≠ 0 then
    let release := releaseBlock env ⟨(·.double), fun p v => { p with double := v }⟩
    let block ← blockOrZeros env (Inode.doubleIndirBlock inode)
    let fs ← get
    if ← releaseEntries release block (fs.blksz / 4) 0 then
      let _ ← release (Inode.doubleIndirBlock inode)

def deleteTripleIndirectBlock (env : Env) (inode : Buf) : Run Unit := do
  if Inode.tripleIndirBlock inode ≠ 0 then
    let release := releaseBlock env ⟨(·.triple), fun p v => { p with triple := v }⟩
    let releaseParent (parent : Nat) : Run Bool := do
      let block ← blockOrZeros env parent
      let fs ← get
      if ← releaseEntries release block (fs.blksz / 4) 0 then release parent else pure false
    let block ← blockOrZeros env (Inode.tripleIndirBlock inode)
    let fs ← get
    if ← releaseEntries releaseParent block (fs.blksz / 4) 0 then
      let _ ← release (Inode.tripleIndirBlock inode)

/-- The loop of `ext4fs_delete_file` over the data blocks; false for a
failure. -/
def releaseData (env : Env) (inode : Buf) : Nat → Nat → Run Bool
  | 0, _ => pure true
  | left + 1, i => do
    let blknr ← allocatedBlock env inode i
    if blknr = 0 then releaseData env inode left (i + 1)
    else if isNeg blknr then pure false
    else if ← releaseBlock env ⟨(·.deleteFile), fun p v => { p with deleteFile := v }⟩ blknr then
      releaseData env inode left (i + 1)
    else pure false

/-- `mode & S_IFLNK`, which is not zero for regular files either -/
def modeHasLinkBits (mode : Nat) : Bool := hasBit mode 15 || hasBit mode 13

/-- The number of data blocks that `ext4fs_delete_file` releases. -/
def blocksToRelease (blksz : Nat) (inode : Buf) : Nat :=
  if modeHasLinkBits (Inode.mode inode) ∧ Inode.size inode ≤ 60 then 0
  else (Inode.size inode + blksz - 1) / blksz

/-- Where `ext4fs_write` and `ext4fs_delete_file` look for an inode: the
group they compute, the block of the inode table and the offset in it. The group
is computed from the number before it is made to count from zero. -/
structure InodePlace where
  group : Nat
  blkno : Nat
  blkoff : Nat

def inodePlace (ino : Nat) : Run InodePlace := do
  let fs ← get
  let inodesPerBlock := fs.blksz / fs.root.inodesz
  let group := ino / fs.root.inodesPerGroup
  -- the descriptor table ends with its last block
  if fs.blksz * fs.noBlkPergdt < (group + 1) * fs.root.gdsize then undefined
  else
    let ino := w32 (ino + minusOne)
    let blkno := Desc.inodeTableId fs.root.gdsize (fs.groupDescriptor group) +
      ino % fs.root.inodesPerGroup / inodesPerBlock
    pure ⟨group, w32 blkno, ino % inodesPerBlock * fs.root.inodesz⟩

/-- The part of `ext4fs_delete_file` that clears the inode; false for a
failure. -/
def releaseInode (env : Env) (inodeno : Nat) : Run Bool := do
  let place ← inodePlace inodeno
  match ← readBlock env place.blkno with
  | none => pure false
  | some block => do
    ext4fsLogJournal block place.blkno
    let fs ← get
    ext4fsPutMetadata (overlay block place.blkoff fs.root.inodesz zeros) place.blkno
    match inodeBit fs.root.inodesPerGroup inodeno place.group with
    | none => undefined
    | some (byte, bit) =>
      if fs.noBlkgrp ≤ place.group then undefined
      else do
        modify (fun fs =>
          let gd := bgFreeInodesInc fs.root.gdsize (fs.groupDescriptor place.group)
          { fs.putDescriptor place.group gd with
            inodeBmaps :=
              Function.update fs.inodeBmaps place.group (resetBmap (fs.inodeBmaps place.group) byte bit)
            sb := sbFreeInodesInc fs.sb })
        let fs ← get
        logBlock env (fs.ibitmapBlk place.group)

/-- `ext4fs_delete_file`; false for -1. -/
def ext4fsDeleteFile (env : Env) (inodeno : Nat) : Run Bool := do
  match ← ext4fsIget env inodeno with
  | none => pure false
  | some inode => do
    if !Inode.usesExtents inode then
      deleteSingleIndirectBlock env inode
      deleteDoubleIndirectBlock env inode
      deleteTripleIndirectBlock env inode
    let fs ← get
    if ← releaseData env inode (blocksToRelease fs.blksz inode) 0 then
      if ← releaseInode env inodeno then
        ext4fsUpdate env
        ext4fsDeinit env
        modify (fun fs => { fs with caches := ext4fsReinitGlobal })
        ext4fsInit env
      else pure false
    else pure false

/-! Writing. -/

/-- The write that `ext4fs_write_file` has put off. -/
structure DelayedWrite where
  start : Nat
  extent : Nat
  buf : Nat
  next : Nat

def spillWrite (env : Env) (data : Buf) : Option DelayedWrite → Run Unit
  | none => pure ()
  | some d => put env (d.start * env.devBlksz) (tail data d.buf) d.extent

/-- The loop of `ext4fs_write_file`, with the number of blocks that are left;
false for -1. -/
def writeLoop (env : Env) (inode data : Buf) : Nat → Nat → Nat → Option DelayedWrite → Run Bool
  | 0, _, _, delayed => do
    spillWrite env data delayed
    pure true
  | left + 1, i, buf, delayed => do
    let blknr ← allocatedBlock env inode i
    if blknr = 0 ∨ isNeg blknr then pure false
    else do
      let fs ← get
      let blknr := blockSector env fs.root blknr
      let fresh : DelayedWrite := ⟨blknr, fs.blksz, buf, blknr + fs.blksz / env.devBlksz⟩
      if blknr ≠ 0 then
        match delayed with
        | none => writeLoop env inode data left (i + 1) (buf + fs.blksz) (some fresh)
        | some d =>
          if d.next = blknr then
            writeLoop env inode data left (i + 1) (buf + fs.blksz)
              (some { d with extent := d.extent + fs.blksz, next := d.next + fs.blksz / env.devBlksz })
          else do
            spillWrite env data delayed
            writeLoop env inode data left (i + 1) (buf + fs.blksz) (some fresh)
      else do
        spillWrite env data delayed
        writeLoop env inode data left (i + 1) (buf + fs.blksz) none

/-- `ext4fs_write_file(file_inode, 0, len, buf)`; false for -1. -/
def ext4fsWriteFile (env : Env) (inode data : Buf) (len : Nat) : Run Bool := do
  let fs ← get
  let len := min len (Inode.size inode)
  writeLoop env inode data ((len + fs.blksz - 1) / fs.blksz) 0 0 none

/-- Code of the type of a new entry. -/
def typeCode : FileType → Nat
  | .reg => 1
  | .symlink => 7
  | .directory => 2
  | .unknown => 0

/-- The inode of a new file before blocks are allocated to it. -/
def newInode (type : FileType) (data : Buf) (sizebytes : Nat) (storeLinkInInode : Bool) : Buf :=
  let inode := putLe32 zeros 4 sizebytes
  let inode := putLe16 inode 0 (if type = .symlink then 0o120777 else 0o100755)
  let inode :=
    if storeLinkInInode then
      overlay inode Inode.dirBlocks sizebytes (fun i => (textAt data 0 sizebytes).getD i 0)
    else inode
  putLe16 inode 26 1

/-- Store the inodes of the new file and of its parent in their blocks of the
inode table. The block of the new inode is read and changed before the data is
written and the parent is looked at behind that; false where the data cannot be
written. -/
def storeInodes (env : Env) (inode data : Buf) (sizebytes inodeno parentInodeno : Nat) : Run Bool := do
  let place ← inodePlace inodeno
  let fs ← get
  let block ← blockOrZeros env place.blkno
  ext4fsLogJournal block place.blkno
  let block := overlay block place.blkoff fs.root.inodesz inode
  ext4fsPutMetadata block place.blkno
  if ← ext4fsWriteFile env inode data sizebytes then
    let parent ← inodePlace parentInodeno
    let fs ← get
    if parent.blkno ≠ place.blkno then
      let block ← blockOrZeros env parent.blkno
      ext4fsLogJournal block parent.blkno
      ext4fsPutMetadata (overlay block parent.blkoff fs.root.inodesz fs.gParentInode) parent.blkno
    else
      modify (fun fs => { fs with dirtyBlockPtr := fs.dirtyBlockPtr.dropLast })
      ext4fsPutMetadata (overlay block parent.blkoff fs.root.inodesz fs.gParentInode) place.blkno
    pure true
  else pure false

/-- The part of `ext4fs_write` that makes the new file, behind the deletion of
an old one; false for a failure. -/
def createFile (env : Env) (data : Buf) (sizebytes : Nat) (type : FileType) (parentInodeno : Nat)
    (filename : CStr) : Run Bool := do
  let storeLinkInInode := decide (type = .symlink ∧ sizebytes ≤ 60)
  let bytesReqd := if storeLinkInInode then 0 else sizebytes
  let fs ← get
  let blksReqd := (bytesReqd + fs.blksz - 1) / fs.blksz
  if Sblock.freeBlocks fs.sb < blksReqd then pure false
  else do
    let inodeno ← ext4fsUpdateParentDentry env filename (typeCode type)
    if inodeno = minusOne then pure false
    else do
      let (inode, total) ← ext4fsAllocateBlocks env (newInode type data sizebytes storeLinkInInode) blksReqd blksReqd
      let inode := putLe32 inode 28 (w32 (total * fs.blksz) / 512)
      storeInodes env inode data bytesReqd inodeno parentInodeno

/-- Take out an entry that has the name already and delete its file; false
for a failure. -/
def replaceOld (env : Env) (filename : CStr) : Run Bool := do
  let existing ← ext4fsFilenameUnlink env filename
  if existing = minusOne then pure true
  else do
    let ok ← ext4fsDeleteFile env existing
    modify (fun fs => { fs with firstPassBbmap := 0, currBlkno := 0, firstPassIbmap := 0, currInodeNo := 0 })
    pure ok

/-- The part of `ext4fs_write` whose failures go to the label `fail`. -/
def writeChecked (env : Env) (fname : CStr) (data : Buf) (sizebytes : Nat) (type : FileType) : Run Bool := do
  match ← ext4fsGetParentInodeNum env fname with
  | none => pure false
  | some (parentInodeno, filename) =>
    match ← ext4fsIget env parentInodeno with
    | none => pure false
    | some parent => do
      modify (fun fs => { fs with gParentInode := parent })
      if Inode.isHashed parent then pure false
      else if ← replaceOld env filename then createFile env data sizebytes type parentInodeno filename
      else pure false

/-- `ext4fs_write` for a regular file or a symbolic link; false for -1. -/
def ext4fsWrite (env : Env) (fname : CStr) (data : Buf) (sizebytes : Nat) (type : FileType) : Run Bool := do
  modify (fun fs => { fs with gParentInode := zeros })
  if ← ext4fsInit env then
    let fs ← get
    if hasBit (Sblock.featureRoCompat fs.sb) roCompatMetadataCsum then pure false
    else if ← writeChecked env fname data sizebytes type then do
      ext4fsUpdate env
      ext4fsDeinit env
      pure true
    else do
      ext4fsDeinit env
      pure false
  else pure false

/-- `ext4_write_file(filename, buf, offset, len)`: `*actwrite`, or no result
for -1. -/
def ext4WriteFile (env : Env) (filename : CStr) (data : Buf) (offset len : Nat) : Run (Option Nat) := do
  if offset ≠ 0 then pure none
  else if ← ext4fsWrite env filename data (w32 len) .reg then pure (some len)
  else pure none

/-- The driver as `ext4fs_probe` leaves it on a card: nothing read yet but what
the mount reads, and the static variables as the sessions before left them. -/
def mounted (card : Buf) (root : Root) (prev : PrevIndices) : Fs where
  card := card
  trace := []
  root := root
  caches := ext4fsReinitGlobal
  blksz := 0
  sectPerblk := 0
  noBlkgrp := 0
  noBlkPergdt := 0
  gdtableBlkno := 0
  sb := zeros
  gdtable := zeros
  blkBmaps := fun _ => zeros
  inodeBmaps := fun _ => zeros
  currBlkno := 0
  firstPassBbmap := 0
  currInodeNo := 0
  firstPassIbmap := 0
  journalPtr := []
  dirtyBlockPtr := []
  jrnlBlkIdx := 0
  revkBlkList := []
  firstNode := true
  gParentInode := zeros
  prev := prev

/-- One write command: the volume is mounted, the file written, and the volume
closed again. The result is `*actwrite`, or no result for an error, with the card. -/
def writeCommand (env : Env) (card : Buf) (prev : PrevIndices) (path : CStr) (data : Buf) (len : Nat) :
    Option (Option Nat × Buf) :=
  match ext4fsMount env card with
  | none => some (none, card)
  | some root => (ext4WriteFile env path data 0 len (mounted card root prev)).map (fun (r, fs) => (r, fs.card))

/-- One read command for a whole file: the volume is mounted and the file at the
path read from its start. The result is the buffer and the number of bytes. -/
def readCommand (env : Env) (card : Buf) (path : CStr) (out : Buf) : Option (Option (Buf × Nat)) :=
  match ext4fsMount env card with
  | none => some none
  | some root => (ext4ReadFile env card root path 0 0 out ext4fsReinitGlobal).map (·.1)

end UuuFastboot.Ext4
