import UuuFastboot.Ext4.Device

namespace UuuFastboot.Ext4

open Word Overlay Bytes

/-- A signed 32-bit value is held as its word; this is the word of `-1`. -/
def minusOne : Nat := 2 ^ 32 - 1

/-- `v < 0` for a signed 32-bit value -/
def isNeg (v : Nat) : Bool := decide (2 ^ 31 ≤ v)

/-- The integer that the word of a signed 32-bit value stands for. -/
def asInt (v : Nat) : Int := if v < 2 ^ 31 then v else (v : Int) - 2 ^ 32

/-! Fields of `struct ext2_sblock`. -/

namespace Sblock

def totalBlocks (sb : Buf) : Nat := getLe32 sb 4

def freeBlocks (sb : Buf) : Nat := getLe32 sb 12

def freeInodes (sb : Buf) : Nat := getLe32 sb 16

def firstDataBlock (sb : Buf) : Nat := getLe32 sb 20

def log2BlockSize (sb : Buf) : Nat := getLe32 sb 24

def blocksPerGroup (sb : Buf) : Nat := getLe32 sb 32

def inodesPerGroup (sb : Buf) : Nat := getLe32 sb 40

def magic (sb : Buf) : Nat := getLe16 sb 56

def revisionLevel (sb : Buf) : Nat := getLe32 sb 76

def inodeSize (sb : Buf) : Nat := getLe16 sb 88

def featureCompatibility (sb : Buf) : Nat := getLe32 sb 92

def featureIncompat (sb : Buf) : Nat := getLe32 sb 96

def featureRoCompat (sb : Buf) : Nat := getLe32 sb 100

def descriptorSize (sb : Buf) : Nat := getLe16 sb 254

def freeBlocksHigh (sb : Buf) : Nat := getLe32 sb 344

end Sblock

/-- `flags & mask` for a mask of one bit -/
def hasBit (flags bit : Nat) : Bool := flags.testBit bit

/-- Bit of `EXT4_FEATURE_INCOMPAT_64BIT` -/
def incompat64Bit : Nat := 7

/-- Bit of `EXT3_FEATURE_INCOMPAT_RECOVER` -/
def incompatRecover : Nat := 2

/-- Bit of `EXT4_FEATURE_RO_COMPAT_GDT_CSUM` -/
def roCompatGdtCsum : Nat := 4

/-- Bit of `EXT4_FEATURE_RO_COMPAT_METADATA_CSUM` -/
def roCompatMetadataCsum : Nat := 10

/-- Bit of `EXT4_FEATURE_COMPAT_HAS_JOURNAL` -/
def compatHasJournal : Nat := 2

/-- `SUPERBLOCK_SIZE`, which is `SUPERBLOCK_START` as well -/
def superblockSize : Nat := 1024

def indirectBlocks : Nat := 12

/-- `sizeof(struct ext2_inode)` -/
def sizeofInode : Nat := 128

/-! Fields of `struct ext2_inode`. -/

namespace Inode

def mode (inode : Buf) : Nat := getLe16 inode 0

def size (inode : Buf) : Nat := getLe32 inode 4

def blockcnt (inode : Buf) : Nat := getLe32 inode 28

def flags (inode : Buf) : Nat := getLe32 inode 32

def indirBlock (inode : Buf) : Nat := getLe32 inode 88

def doubleIndirBlock (inode : Buf) : Nat := getLe32 inode 92

def tripleIndirBlock (inode : Buf) : Nat := getLe32 inode 96

/-- Offset of `b.blocks.dir_blocks` -/
def dirBlocks : Nat := 40

/-- `flags & EXT4_EXTENTS_FL` -/
def usesExtents (inode : Buf) : Bool := hasBit (flags inode) 19

/-- `flags & EXT4_INDEX_FL` -/
def isHashed (inode : Buf) : Bool := hasBit (flags inode) 12

end Inode

/-! Fields of `struct ext2_block_group`; the upper halves exist in
descriptors of 64 bytes. -/

namespace Desc

variable (gdsize : Nat) (gd : Buf)

/-- A 32-bit block number and its upper half. -/
def wide32 (low high : Nat) : Nat := getLe32 gd low + if gdsize = 64 then 2 ^ 32 * getLe32 gd high else 0

/-- A 16-bit counter and its upper half. -/
def wide16 (low high : Nat) : Nat := getLe16 gd low + if gdsize = 64 then 2 ^ 16 * getLe16 gd high else 0

/-- A counter stored back over both halves. -/
def putWide16 (low high v : Nat) : Buf :=
  let gd := putLe16 gd low v
  if gdsize = 64 then putLe16 gd high (v / 2 ^ 16) else gd

/-- `ext4fs_bg_get_block_id` -/
def blockId : Nat := wide32 gdsize gd 0 32

/-- `ext4fs_bg_get_inode_id` -/
def inodeId : Nat := wide32 gdsize gd 4 36

/-- `ext4fs_bg_get_inode_table_id` -/
def inodeTableId : Nat := wide32 gdsize gd 8 40

/-- `ext4fs_bg_get_free_blocks` -/
def freeBlocks : Nat := wide16 gdsize gd 12 44

/-- `ext4fs_bg_get_free_inodes` -/
def freeInodes : Nat := wide16 gdsize gd 14 46

/-- `ext4fs_bg_get_flags` -/
def bgFlags (gd : Buf) : Nat := getLe16 gd 18

end Desc

/-- `struct ext2_data` of the mounted volume: the superblock and the root
directory's inode as they were read when it was mounted, with the two sizes that
`ext4fs_mount` keeps in `ext_fs`. -/
structure Root where
  sblock : Buf
  inode : Buf
  inodesz : Nat
  gdsize : Nat

def Root.log2BlockSize (root : Root) : Nat := Sblock.log2BlockSize root.sblock + 10

/-- `EXT2_BLOCK_SIZE` -/
def Root.blockSize (root : Root) : Nat := 2 ^ root.log2BlockSize

def Root.inodesPerGroup (root : Root) : Nat := Sblock.inodesPerGroup root.sblock

/-- `LOG2_BLOCK_SIZE(data) - log2blksz` -/
def log2FsBlocksize (env : Env) (root : Root) : Nat := root.log2BlockSize - env.log2blksz

/-- `(lbaint_t)block << (LOG2_BLOCK_SIZE(data) - log2blksz)` -/
def blockSector (env : Env) (root : Root) (block : Nat) : Nat := w32 (block * 2 ^ log2FsBlocksize env root)

/-- `ext4fs_blockgroup`: the descriptor of a group, read from the device. -/
def ext4fsBlockgroup (env : Env) (card : Buf) (root : Root) (group : Nat) : Option Buf :=
  let descPerBlk := root.blockSize / root.gdsize
  if root.gdsize = 0 ∨ descPerBlk = 0 then none
  else
    let blkno := Sblock.firstDataBlock root.sblock + 1 + group / descPerBlk
    let blkoff := group % descPerBlk * root.gdsize
    fsDevread env card (blockSector env root blkno) blkoff root.gdsize

/-- `ext4fs_read_inode`; `none` for a return value of 0. -/
def ext4fsReadInode (env : Env) (card : Buf) (root : Root) (ino : Nat) : Option Buf :=
  let ino := w32 (ino + minusOne)
  let inodesPerBlock := root.blockSize / root.inodesz
  if root.inodesPerGroup = 0 ∨ root.inodesz = 0 then none
  else do
    let blkgrp ← ext4fsBlockgroup env card root (ino / root.inodesPerGroup)
    if inodesPerBlock = 0 then none
    else
      let blkno := Desc.inodeTableId root.gdsize blkgrp + ino % root.inodesPerGroup / inodesPerBlock
      let blkoff := ino % inodesPerBlock * root.inodesz
      fsDevread env card (blockSector env root blkno) blkoff sizeofInode

def ext4ReadSuperblock (env : Env) (card : Buf) : Option Buf :=
  fsDevread env card (superblockSize / env.devBlksz) (superblockSize % env.devBlksz) superblockSize

def ext2Magic : Nat := 0xEF53

/-- `EXT2_ROOT_INO` -/
def rootIno : Nat := 2

/-- `ext4fs_mount`; `none` for a return value of 0. -/
def ext4fsMount (env : Env) (card : Buf) : Option Root := do
  let sblock ← ext4ReadSuperblock env card
  if Sblock.magic sblock ≠ ext2Magic then none
  else
    let root : Root :=
      if Sblock.revisionLevel sblock = 0 then ⟨sblock, zeros, 128, 32⟩
      else
        ⟨sblock, zeros, Sblock.inodeSize sblock,
          if hasBit (Sblock.featureIncompat sblock) incompat64Bit then Sblock.descriptorSize sblock else 32⟩
    let inode ← ext4fsReadInode env card root rootIno
    some { root with inode := inode }

end UuuFastboot.Ext4
