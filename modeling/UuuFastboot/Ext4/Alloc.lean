import UuuFastboot.Ext4.Journal

namespace UuuFastboot.Ext4

open Word Overlay Bytes

/-! Counters of the superblock. -/

/-- `ext4fs_sb_free_inodes_dec` -/
def sbFreeInodesDec (sb : Buf) : Buf := putLe32 sb 16 (w32 (Sblock.freeInodes sb + minusOne))

/-- `ext4fs_sb_free_inodes_inc` -/
def sbFreeInodesInc (sb : Buf) : Buf := putLe32 sb 16 (w32 (Sblock.freeInodes sb + 1))

/-- `ext4fs_sb_get_free_blocks` -/
def sbGetFreeBlocks (sb : Buf) : Nat := Sblock.freeBlocks sb + 2 ^ 32 * Sblock.freeBlocksHigh sb

/-- `ext4fs_sb_set_free_blocks`; the upper half keeps 16 bits. -/
def sbSetFreeBlocks (sb : Buf) (freeBlocks : Nat) : Buf :=
  putLe32 (putLe32 sb 12 (freeBlocks % 2 ^ 32)) 344 (freeBlocks / 2 ^ 32 % 2 ^ 16)

/-- `ext4fs_sb_free_blocks_dec` -/
def sbFreeBlocksDec (sb : Buf) : Buf := sbSetFreeBlocks sb ((sbGetFreeBlocks sb + 2 ^ 64 - 1) % 2 ^ 64)

/-- `ext4fs_sb_free_blocks_inc`, which carries nothing into the upper half. -/
def sbFreeBlocksInc (sb : Buf) : Buf := putLe32 sb 12 (w32 (Sblock.freeBlocks sb + 1))

/-! Counters of a group descriptor. -/

/-- A 32-bit counter held in two halves, changed by adding the word `by`. -/
def bgAdd (gdsize : Nat) (gd : Buf) (low high : Nat) (by_ : Nat) : Buf :=
  Desc.putWide16 gdsize gd low high (w32 (Desc.wide16 gdsize gd low high + by_))

/-- `ext4fs_bg_free_inodes_dec` -/
def bgFreeInodesDec (gdsize : Nat) (gd : Buf) : Buf := bgAdd gdsize gd 14 46 minusOne

/-- `ext4fs_bg_free_inodes_inc` -/
def bgFreeInodesInc (gdsize : Nat) (gd : Buf) : Buf := bgAdd gdsize gd 14 46 1

/-- `ext4fs_bg_free_blocks_dec` -/
def bgFreeBlocksDec (gdsize : Nat) (gd : Buf) : Buf := bgAdd gdsize gd 12 44 minusOne

/-- `ext4fs_bg_free_blocks_inc` -/
def bgFreeBlocksInc (gdsize : Nat) (gd : Buf) : Buf := bgAdd gdsize gd 12 44 1

/-- `ext4fs_bg_itable_unused_dec` -/
def bgItableUnusedDec (gdsize : Nat) (gd : Buf) : Buf := bgAdd gdsize gd 28 50 minusOne

/-- Clear one bit of `bg_flags`. -/
def bgClearFlag (gd : Buf) (bit : Nat) : Buf := putLe16 gd 18 (Desc.bgFlags gd - 2 ^ bit)

/-- Bit of `EXT4_BG_INODE_UNINIT` -/
def bgInodeUninit : Nat := 0

/-- Bit of `EXT4_BG_BLOCK_UNINIT` -/
def bgBlockUninit : Nat := 1

/-! Bitmaps. -/

/-- `ptr[byte] & (1 << bit)` -/
def testBmap (bmap : Buf) (byte bit : Nat) : Bool := (bmap byte).toNat.testBit bit

/-- `ptr[byte] |= 1 << bit` -/
def setBmap (bmap : Buf) (byte bit : Nat) : Buf := overlay bmap byte 1 (fun _ => bmap byte ||| UInt8.ofNat (2 ^ bit))

/-- `ptr[byte] &= ~(1 << bit)` -/
def resetBmap (bmap : Buf) (byte bit : Nat) : Buf :=
  overlay bmap byte 1 (fun _ => bmap byte &&& ~~~ UInt8.ofNat (2 ^ bit))

/-- The first byte from `byte` on that is not 255, among `left` bytes. -/
def skipFull (bmap : Buf) : Nat → Nat → Option Nat
  | 0, _ => none
  | left + 1, byte => if bmap byte = 255 then skipFull bmap left (byte + 1) else some byte

/-- The first clear bit of a byte, from `bit` on. -/
def clearBit (bmap : Buf) (byte : Nat) : Nat → Nat → Option Nat
  | 0, _ => none
  | left + 1, bit => if testBmap bmap byte bit then clearBit bmap byte left (bit + 1) else some bit

/-- `_get_new_inode_no`: the number counted from one and the bitmap with its bit
set, or `none` for -1. The first byte that is not 255 has a clear bit, so that the
loop over the bytes behind it ends in its first round. -/
def getNewInodeNo (inodesPerGroup : Nat) (bmap : Buf) : Option (Nat × Buf) := do
  let byte ← skipFull bmap (inodesPerGroup / 8 + 1) 0
  if inodesPerGroup < 8 * byte + 1 ∧ byte ≠ 0 then none
  else
    let bit ← clearBit bmap byte 8 0
    some (8 * byte + bit + 1, setBmap bmap byte bit)

def getNewBlkNo (blksz : Nat) (bmap : Buf) : Option (Nat × Buf) := do
  let byte ← skipFull bmap blksz 0
  let bit ← clearBit bmap byte 8 0
  some (8 * byte + (if blksz = 1024 then 1 else 0) + bit, setBmap bmap byte bit)

/-- Byte and bit that stand for a block in the bitmap of its group, in
`ext4fs_set_block_bmap` and `ext4fs_reset_block_bmap`. -/
def blockBit (blksz blockno index : Nat) : Nat × Nat :=
  let i := blockno / 8 - index * blksz
  let remainder := blockno % 8
  if blksz ≠ 1024 then (i, remainder)
  else if remainder = 0 then (i - 1, 7)
  else (i, remainder - 1)

/-- `ext4fs_set_block_bmap`; `none` for -1. -/
def ext4fsSetBlockBmap (blksz blockno : Nat) (bmap : Buf) (index : Nat) : Option Buf :=
  let (byte, bit) := blockBit blksz blockno index
  if testBmap bmap byte bit then none else some (setBmap bmap byte bit)

def ext4fsResetBlockBmap (blksz blockno : Nat) (bmap : Buf) (index : Nat) : Buf :=
  let (byte, bit) := blockBit blksz blockno index
  resetBmap bmap byte bit

/-- Byte and bit that stand for an inode in the bitmap of group `index`, in
`ext4fs_set_inode_bmap` and `ext4fs_reset_inode_bmap`. The bit of an inode whose
number is that of the group's last one is looked for in front of the bitmap. -/
def inodeBit (inodesPerGroup inodeNo index : Nat) : Option (Nat × Nat) :=
  let no := inodeNo - index * inodesPerGroup
  if no % 8 = 0 then if no = 0 then none else some (no / 8 - 1, 7) else some (no / 8, no % 8 - 1)

/-- The group whose bitmap has the bit of a block, as the allocator and the
routines that release blocks compute it. -/
def groupOfBlock (fs : Fs) (blkno : Nat) : Nat :=
  let blkPerGrp := Sblock.blocksPerGroup fs.root.sblock
  let bgIdx := blkno / blkPerGrp
  if fs.blksz = 1024 ∧ blkno % blkPerGrp = 0 then w32 (bgIdx + minusOne) else bgIdx

/-- Where `BLOCK_UNINIT` is set: the bitmap is zeroed, in memory and on the
device, and the flag is cleared. -/
def initBlockBitmap (env : Env) (bgIdx : Nat) : Run Unit := do
  let fs ← get
  let bgd := fs.groupDescriptor bgIdx
  if hasBit (Desc.bgFlags bgd) bgBlockUninit then
    putBlock env (fs.bbitmapBlk bgIdx) zeros
    modify (fun fs =>
      { fs.putDescriptor bgIdx (bgClearFlag bgd bgBlockUninit) with
        blkBmaps := Function.update fs.blkBmaps bgIdx zeros })

/-- The same for `INODE_UNINIT` and the inode bitmap. -/
def initInodeBitmap (env : Env) (bgIdx : Nat) : Run Unit := do
  let fs ← get
  let bgd := fs.groupDescriptor bgIdx
  if hasBit (Desc.bgFlags bgd) bgInodeUninit then
    putBlock env (fs.ibitmapBlk bgIdx) zeros
    modify (fun fs =>
      { fs.putDescriptor bgIdx (bgClearFlag bgd bgInodeUninit) with
        inodeBmaps := Function.update fs.inodeBmaps bgIdx zeros })

/-- One block less in the counters of a group and of the superblock. -/
def takeBlock (fs : Fs) (bgIdx : Nat) : Fs :=
  let fs' := fs.putDescriptor bgIdx (bgFreeBlocksDec fs.root.gdsize (fs.groupDescriptor bgIdx))
  { fs' with sb := sbFreeBlocksDec fs.sb }

/-- Log a block as it is on the device; false where it cannot be read. -/
def logBlock (env : Env) (blknr : Nat) : Run Bool := do
  match ← readBlock env blknr with
  | none => pure false
  | some buf => do
    ext4fsLogJournal buf (w32 blknr)
    pure true

/-- The search of `ext4fs_get_new_blk_no` in one group, while nothing was
allocated; no result where the loop goes on. -/
def firstBlkInGroup (env : Env) (i : Nat) : Run (Option Nat) := do
  let fs ← get
  if Desc.freeBlocks fs.root.gdsize (fs.groupDescriptor i) = 0 then pure none
  else do
    initBlockBitmap env i
    let fs ← get
    match getNewBlkNo fs.blksz (fs.blkBmaps i) with
    | none => do
      modify (fun fs => { fs with currBlkno := minusOne })
      pure none
    | some (no, bmap) => do
      modify (fun fs =>
        takeBlock
          { fs with
            blkBmaps := Function.update fs.blkBmaps i bmap
            currBlkno := no + i * fs.blksz * 8
            firstPassBbmap := fs.firstPassBbmap + 1 } i)
      let fs ← get
      if ← logBlock env (fs.bbitmapBlk i) then pure (some fs.currBlkno) else pure (some minusOne)

/-- The loop behind the label `restart` of `ext4fs_get_new_blk_no`. Each round
moves `curr_blkno` on, so the number of blocks of all groups bounds them. -/
def nextBlkLoop (env : Env) : Nat → Run Nat
  | 0 => undefined
  | rounds + 1 => do
    let fs ← get
    let blkPerGrp := Sblock.blocksPerGroup fs.root.sblock
    let bgIdx := groupOfBlock fs fs.currBlkno
    if fs.noBlkgrp ≤ bgIdx then pure minusOne
    else if Desc.freeBlocks fs.root.gdsize (fs.groupDescriptor bgIdx) = 0 then do
      modify (fun fs =>
        { fs with currBlkno := (bgIdx + 1) * blkPerGrp + (if fs.blksz = 1024 then 1 else 0) })
      nextBlkLoop env rounds
    else do
      initBlockBitmap env bgIdx
      let fs ← get
      match ext4fsSetBlockBmap fs.root.blockSize fs.currBlkno (fs.blkBmaps bgIdx) bgIdx with
      | none => do
        modify (fun fs => { fs with currBlkno := w32 (fs.currBlkno + 1) })
        nextBlkLoop env rounds
      | some bmap => do
        modify (fun fs => { fs with blkBmaps := Function.update fs.blkBmaps bgIdx bmap })
        let logged ←
          if fs.prev.newBlk ≠ bgIdx then do
            let logged ← logBlock env (fs.bbitmapBlk bgIdx)
            if logged then modify (fun fs => { fs with prev := { fs.prev with newBlk := bgIdx } })
            pure logged
          else pure true
        if logged then do
          modify (fun fs => takeBlock fs bgIdx)
          pure fs.currBlkno
        else pure minusOne

def ext4fsGetNewBlkNo (env : Env) : Run Nat := do
  let fs ← get
  if fs.firstPassBbmap = 0 then
    return (← shortLoop (firstBlkInGroup env) fs.noBlkgrp 0).getD minusOne
  else do
    modify (fun fs => { fs with currBlkno := w32 (fs.currBlkno + 1) })
    nextBlkLoop env ((fs.noBlkgrp + 1) * Sblock.blocksPerGroup fs.root.sblock + 2)

/-- `feature_ro_compat & EXT4_FEATURE_RO_COMPAT_GDT_CSUM` -/
def Fs.hasGdtChksum (fs : Fs) : Bool := hasBit (Sblock.featureRoCompat fs.sb) roCompatGdtCsum

/-- `bgd->bg_itable_unused = v` where descriptor checksums are in use. -/
def putItableUnused (fs : Fs) (bgIdx v : Nat) : Fs :=
  if fs.hasGdtChksum then fs.putDescriptor bgIdx (putLe16 (fs.groupDescriptor bgIdx) 28 v) else fs

/-- One inode less in the counters of a group and of the superblock. -/
def takeInode (fs : Fs) (bgIdx : Nat) : Fs :=
  let fs' := fs.putDescriptor bgIdx (bgFreeInodesDec fs.root.gdsize (fs.groupDescriptor bgIdx))
  { fs' with sb := sbFreeInodesDec fs.sb }

/-- The search of `ext4fs_get_new_inode_no` in one group, while nothing was
allocated. -/
def firstInodeInGroup (env : Env) (i : Nat) : Run (Option Nat) := do
  let fs ← get
  let freeInodes := Desc.freeInodes fs.root.gdsize (fs.groupDescriptor i)
  if freeInodes = 0 then pure none
  else do
    modify (fun fs => putItableUnused fs i freeInodes)
    initInodeBitmap env i
    let fs ← get
    match getNewInodeNo fs.root.inodesPerGroup (fs.inodeBmaps i) with
    | none => do
      modify (fun fs => { fs with currInodeNo := minusOne })
      pure none
    | some (no, bmap) => do
      modify (fun fs =>
        takeInode
          { fs with
            inodeBmaps := Function.update fs.inodeBmaps i bmap
            currInodeNo := no + i * fs.root.inodesPerGroup
            firstPassIbmap := fs.firstPassIbmap + 1 } i)
      modify (fun fs =>
        if fs.hasGdtChksum then fs.putDescriptor i (bgItableUnusedDec fs.root.gdsize (fs.groupDescriptor i)) else fs)
      let fs ← get
      if ← logBlock env (fs.ibitmapBlk i) then pure (some fs.currInodeNo) else pure (some minusOne)

/-- The loop behind the label `restart` of `ext4fs_get_new_inode_no`; the
bitmap that a group index past the last group would name is not there. -/
def nextInodeLoop (env : Env) : Nat → Run Nat
  | 0 => undefined
  | rounds + 1 => do
    modify (fun fs => { fs with currInodeNo := fs.currInodeNo + 1 })
    let fs ← get
    let ibmapIdx := fs.currInodeNo / fs.root.inodesPerGroup
    if fs.noBlkgrp ≤ ibmapIdx then undefined
    else do
      initInodeBitmap env ibmapIdx
      let fs ← get
      match inodeBit fs.root.inodesPerGroup fs.currInodeNo ibmapIdx with
      | none => undefined
      | some (byte, bit) =>
        if testBmap (fs.inodeBmaps ibmapIdx) byte bit then nextInodeLoop env rounds
        else do
          modify (fun fs =>
            { fs with
              inodeBmaps :=
                Function.update fs.inodeBmaps ibmapIdx (setBmap (fs.inodeBmaps ibmapIdx) byte bit) })
          let logged ←
            if fs.prev.newInode ≠ ibmapIdx then do
              let logged ← logBlock env (fs.ibitmapBlk ibmapIdx)
              if logged then modify (fun fs => { fs with prev := { fs.prev with newInode := ibmapIdx } })
              pure logged
            else pure true
          if logged then do
            modify (fun fs => takeInode fs ibmapIdx)
            modify (fun fs => putItableUnused fs ibmapIdx (getLe16 (fs.groupDescriptor ibmapIdx) 14))
            pure fs.currInodeNo
          else pure minusOne

def ext4fsGetNewInodeNo (env : Env) : Run Nat := do
  let fs ← get
  if fs.firstPassIbmap = 0 then
    return (← shortLoop (firstInodeInGroup env) fs.noBlkgrp 0).getD minusOne
  else nextInodeLoop env ((fs.noBlkgrp + 1) * fs.root.inodesPerGroup)

end UuuFastboot.Ext4
