import UuuFastboot.Ext4.Reader

namespace UuuFastboot.Ext4

open Word Overlay Bytes

/-- The static variables `prev_*_index` local to the allocator and to the
routines that release blocks: the group whose bitmap each of them logged last. -/
structure PrevIndices where
  newBlk : Nat
  newInode : Nat
  single : Nat
  double : Nat
  triple : Nat
  deleteFile : Nat

/-- A call of `put_ext4`. -/
structure CardWrite where
  off : Nat
  buf : Buf
  size : Nat

/-- All of the driver's state that a write goes through: the card, the mounted
volume, `struct ext_filesystem`, the tables of the journal and the indirect-block
buffers. The calls of `put_ext4` are noted in their order. -/
structure Fs where
  card : Buf
  trace : List CardWrite
  root : Root
  caches : Caches
  blksz : Nat
  sectPerblk : Nat
  noBlkgrp : Nat
  noBlkPergdt : Nat
  gdtableBlkno : Nat
  sb : Buf
  gdtable : Buf
  blkBmaps : Nat → Buf
  inodeBmaps : Nat → Buf
  currBlkno : Nat
  firstPassBbmap : Nat
  currInodeNo : Nat
  firstPassIbmap : Nat
  /-- `journal_ptr[0 .. gindex)`: block numbers and contents -/
  journalPtr : List (Nat × Buf)
  /-- `dirty_block_ptr[0 .. gd_index)` -/
  dirtyBlockPtr : List (Nat × Buf)
  jrnlBlkIdx : Nat
  revkBlkList : List Buf
  firstNode : Bool
  gParentInode : Buf
  prev : PrevIndices

/-- A piece of the driver. The result is `none` for a run that C gives no
meaning to, or that does not return. -/
abbrev Run (α : Type) := StateT Fs Option α

def undefined {α : Type} : Run α := fun _ => none

/-- The part of the driver that looks at the state without changing it. -/
def reading {α : Type} (f : Fs → α) : Run α := fun fs => some (f fs, fs)

/-- `(lbaint_t)block * fs->sect_perblk` -/
def Fs.sector (fs : Fs) (block : Nat) : Nat := w32 (block * fs.sectPerblk)

/-- A block read with `ext4fs_devread`. -/
def Fs.readBlock (env : Env) (fs : Fs) (block : Nat) : Option Buf :=
  fsDevread env fs.card (fs.sector block) 0 fs.blksz

/-- The contents of a zeroed buffer after a read whose status is not looked at. -/
def Fs.blockOrZeros (env : Env) (fs : Fs) (block : Nat) : Buf := (fs.readBlock env block).getD zeros

def readBlock (env : Env) (block : Nat) : Run (Option Buf) := reading (fun fs => fs.readBlock env block)

def blockOrZeros (env : Env) (block : Nat) : Run Buf := reading (fun fs => fs.blockOrZeros env block)

def Fs.write (env : Env) (fs : Fs) (w : CardWrite) : Fs :=
  { fs with card := putExt4 env fs.card w.off w.buf w.size, trace := fs.trace ++ [w] }

/-- `put_ext4(off, buf, size)` -/
def put (env : Env) (off : Nat) (buf : Buf) (size : Nat) : Run Unit :=
  fun fs => some ((), fs.write env ⟨off, buf, size⟩)

/-- `put_ext4(block * fs->blksz, buf, fs->blksz)` -/
def putBlock (env : Env) (block : Nat) (buf : Buf) : Run Unit :=
  fun fs => some ((), fs.write env ⟨block * fs.blksz, buf, fs.blksz⟩)

/-- `read_allocated_block(inode, fileblock, NULL)` -/
def allocatedBlock (env : Env) (inode : Buf) (fileblock : Nat) : Run Nat := fun fs =>
  (readAllocatedBlock env fs.card fs.root inode fileblock none fs.caches).map
    (fun (blknr, _, caches) => (blknr, { fs with caches := caches }))

/-- `ext4fs_iget`; the inner `none` for -1. -/
def ext4fsIget (env : Env) (ino : Nat) : Run (Option Buf) :=
  reading (fun fs => ext4fsReadInode env fs.card fs.root ino)

/-- `ext4fs_get_group_descriptor` -/
def Fs.groupDescriptor (fs : Fs) (bgIdx : Nat) : Buf := tail fs.gdtable (bgIdx * fs.root.gdsize)

/-- Store a descriptor back into the table. -/
def Fs.putDescriptor (fs : Fs) (bgIdx : Nat) (gd : Buf) : Fs :=
  { fs with gdtable := overlay fs.gdtable (bgIdx * fs.root.gdsize) fs.root.gdsize gd }

def Fs.bbitmapBlk (fs : Fs) (bgIdx : Nat) : Nat := Desc.blockId fs.root.gdsize (fs.groupDescriptor bgIdx)

def Fs.ibitmapBlk (fs : Fs) (bgIdx : Nat) : Nat := Desc.inodeId fs.root.gdsize (fs.groupDescriptor bgIdx)

/-- Run `body` for the indices from `i` on, as a loop over a counter of type
`short` does: behind 32767 the counter turns negative, which ends the loop since it
is compared with an unsigned bound. The loop ends early with the first result that
`body` gives. -/
def shortLoop {α : Type} (body : Nat → Run (Option α)) : Nat → Nat → Run (Option α)
  | 0, _ => pure none
  | left + 1, i => do
    if 2 ^ 15 ≤ i then pure none
    else
      match ← body i with
      | some a => pure (some a)
      | none => shortLoop body left (i + 1)

end UuuFastboot.Ext4
