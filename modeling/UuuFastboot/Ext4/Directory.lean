import UuuFastboot.Ext4.Alloc

namespace UuuFastboot.Ext4

open Word Overlay Bytes CString

def bytesAt (b : Buf) (off : Nat) : Nat → CStr
  | 0 => []
  | len + 1 => b off :: bytesAt b (off + 1) len

/-- The scan of one directory block by `search_dir` and `unlink_filename`:
the offset of the live entry with the name and that of the entry in front of it. -/
def scanBlock (block : Buf) (blksz : Nat) (name : CStr) : Nat → Nat → Option Nat → Option (Nat × Option Nat)
  | 0, _, _ => none
  | rounds + 1, offset, previous =>
    if offset % 4 ≠ 0 then none
    else if Dirent.direntlen block offset < sizeofDirent then none
    else if Dirent.inode block offset ≠ 0 ∧ name.length = Dirent.namelen block offset ∧
        bytesAt block (offset + sizeofDirent) (Dirent.namelen block offset) = name then some (offset, previous)
    else
      let next := offset + Dirent.direntlen block offset
      if next < blksz then scanBlock block blksz name rounds next (some offset) else none

/-- `inodeno > 0` for the entry that a scan found -/
def entryInode (block : Buf) (found : Option (Nat × Option Nat)) : Option (Nat × Nat × Option Nat) :=
  found.bind (fun (offset, previous) =>
    let inodeno := Dirent.inode block offset
    if isNeg inodeno then none else some (inodeno, offset, previous))

/-- Number of blocks of a directory, `size >> LOG2_BLOCK_SIZE(ext4fs_root)` -/
def directoryBlocks (root : Root) (inode : Buf) : Nat := Inode.size inode / root.blockSize

/-- The loop of `search_dir` over the blocks of a directory. -/
def searchDirLoop (env : Env) (inode : Buf) (name : CStr) : Nat → Nat → Run Nat
  | 0, _ => pure minusOne
  | left + 1, blkIdx => do
    let blknr ← allocatedBlock env inode blkIdx
    if blknr = 0 ∨ isNeg blknr then pure minusOne
    else
      match ← readBlock env blknr with
      | none => pure minusOne
      | some block => do
        let fs ← get
        match entryInode block (scanBlock block fs.blksz name fs.blksz 0 none) with
        | some (inodeno, _) => pure inodeno
        | none => searchDirLoop env inode name left (blkIdx + 1)

def searchDir (env : Env) (inode : Buf) (name : CStr) : Run Nat := do
  let fs ← get
  searchDirLoop env inode name (directoryBlocks fs.root inode) 0

/-- `mode & S_IFDIR` -/
def modeHasDirBit (mode : Nat) : Bool := hasBit mode 14

/-- The loop of `ext4fs_get_parent_inode_num` over the parts of the path, and
what stands behind its label `end`: the parent directory and the name of the file,
or no result for -1. `first` is set for the part next to the root. A path without
parts makes the code follow a null pointer. -/
def parentLoop (env : Env) : List CStr → Bool → Buf → Nat → Run (Option (Nat × CStr))
  | [], _, _, _ => undefined
  | name :: rest, first, parent, result => do
    let matched ← searchDir env parent name
    if rest ≠ [] then
      if matched = minusOne then pure none
      else
        match ← ext4fsIget env matched with
        | none => pure none
        | some inode => parentLoop env rest false inode matched
    else
      let result := if matched = minusOne ∧ first then rootIno else result
      let matched ← searchDir env parent name
      let isDir ←
        if matched = minusOne then pure false
        else
          match ← ext4fsIget env matched with
          | none => undefined
          | some inode => pure (modeHasDirBit (Inode.mode inode))
      if isDir then pure none
      else if 256 < name.length then pure none
      -- a name of 256 bytes leaves no room for the terminator of `filename`
      else if name.length = 256 then undefined
      else pure (some (result, name))

/-- `ext4fs_get_parent_inode_num(dirname, dname, F_FILE)` -/
def ext4fsGetParentInodeNum (env : Env) (dirname : CStr) : Run (Option (Nat × CStr)) := do
  if dirname.head? ≠ some 47 then pure none
  else do
    let fs ← get
    parentLoop env (components dirname) true fs.root.inode rootIno

/-- `unlink_filename`: the inode of the entry that was taken out, or -1. -/
def unlinkFilename (env : Env) (name : CStr) (blknr : Nat) : Run Nat := do
  match ← readBlock env blknr with
  | none => pure minusOne
  | some block => do
    let fs ← get
    match entryInode block (scanBlock block fs.blksz name fs.blksz 0 none) with
    | none => pure minusOne
    | some (inodeno, offset, previous) => do
      ext4fsLogJournal block blknr
      let block :=
        match previous with
        | some before =>
          putLe16 block (before + 4) (Dirent.direntlen block before + Dirent.direntlen block offset)
        | none => putLe32 block offset 0
      ext4fsPutMetadata block blknr
      pure inodeno

/-- The loop of `ext4fs_filename_unlink` over the blocks of the parent. -/
def unlinkLoop (env : Env) (name : CStr) : Nat → Nat → Run Nat
  | 0, _ => pure minusOne
  | left + 1, blkIdx => do
    let fs ← get
    let blknr ← allocatedBlock env fs.gParentInode blkIdx
    if blknr = 0 ∨ isNeg blknr then pure minusOne
    else do
      let inodeno ← unlinkFilename env name blknr
      if inodeno ≠ minusOne then pure inodeno else unlinkLoop env name left (blkIdx + 1)

def ext4fsFilenameUnlink (env : Env) (name : CStr) : Run Nat := do
  let fs ← get
  unlinkLoop env name (directoryBlocks fs.root fs.gParentInode) 0

/-- `n` rounded up to a multiple of four -/
def round4 (n : Nat) : Nat := (n + 3) / 4 * 4

def entryBytes (len : Nat) : Nat := round4 (len + sizeofDirent)

/-- `check_void_in_dentry` for the entry at `off`: how many bytes behind it a new
entry can have, 0 if they do not suffice. -/
def checkVoidInDentry (block : Buf) (off : Nat) (name : CStr) : Nat :=
  let space := w32 (Dirent.direntlen block off + 2 ^ 32 - entryBytes (Dirent.namelen block off))
  if isNeg space ∨ space < entryBytes name.length then 0 else space

/-- What the loop of `ext4fs_update_parent_dentry` over the entries of a block
ends with. -/
inductive Slot where
  /-- The entry at `off` is cut down to its own bytes; the new one behind it gets
  `len` bytes. -/
  | behind (off len : Nat)
  /-- The entry at `off` has the length 0. -/
  | stop (off : Nat)
  /-- No entry leaves room. -/
  | full
  /-- The loop leaves the block. -/
  | outside
deriving DecidableEq

/-- The loop of `ext4fs_update_parent_dentry` over the entries of a block, from
the entry at an offset on. -/
def findSlot (block : Buf) (blksz : Nat) (name : CStr) : Nat → Nat → Slot
  | 0, _ => .outside
  | rounds + 1, off =>
    let direntlen := Dirent.direntlen block off
    if blksz ≤ off then .outside
    else if direntlen = 0 then .stop off
    else
      let used := entryBytes (Dirent.namelen block off)
      if blksz - off = direntlen then
        if used + entryBytes name.length ≤ direntlen then .behind off (direntlen - used) else .full
      else
        let space := checkVoidInDentry block off name
        if space ≠ 0 then .behind off space else findSlot block blksz name rounds (off + direntlen)

/-- A block with the new entry at `off`, `len` bytes long. -/
def putEntry (block : Buf) (off ino len type : Nat) (name : CStr) : Buf :=
  let block := putLe32 block off ino
  let block := putLe16 block (off + 4) len
  let block := overlay block (off + 6) 1 (fun _ => UInt8.ofNat name.length)
  let block := overlay block (off + 7) 1 (fun _ => UInt8.ofNat type)
  overlay block (off + sizeofDirent) name.length (fun i => name.getD i 0)

/-- The search of `ext4fs_update_parent_dentry` in one block of the
directory: the block with its number and the place in it, or no result for a
failure. -/
def slotInBlock (env : Env) (inode : Buf) (name : CStr) (blkIdx : Nat) : Run (Option (Nat × Buf × Slot)) := do
  let blknr ← allocatedBlock env inode blkIdx
  if blknr = 0 ∨ isNeg blknr then pure none
  else
    match ← readBlock env blknr with
    | none => pure none
    | some block => do
      ext4fsLogJournal block blknr
      let fs ← get
      pure (some (blknr, block, findSlot block fs.blksz name fs.blksz 0))

/-- The loop behind the label `restart_read`, from a block of the directory
down to its first one. -/
def slotLoop (env : Env) (inode : Buf) (name : CStr) : Nat → Run (Option (Nat × Buf × Slot))
  | 0 => slotInBlock env inode name 0
  | before + 1 => do
    match ← slotInBlock env inode name (before + 1) with
    | some (blknr, block, .full) =>
      if isNeg (before + 1) then pure (some (blknr, block, .full)) else slotLoop env inode name before
    | found => pure found

/-- Give the parent directory one more block, which is zeroed; false for a
failure. -/
def growParent (env : Env) (directoryBlocks : Nat) : Run Bool := do
  let fs ← get
  if Inode.usesExtents fs.gParentInode then pure false
  else if indirectBlocks ≤ directoryBlocks then pure false
  else do
    let newBlkNo ← ext4fsGetNewBlkNo env
    if newBlkNo = minusOne then pure false
    else do
      putBlock env newBlkNo zeros
      modify (fun fs =>
        let inode := putLe32 fs.gParentInode (Inode.dirBlocks + 4 * directoryBlocks) newBlkNo
        let inode := putLe32 inode 4 (w32 (Inode.size inode + fs.blksz))
        { fs with gParentInode := putLe32 inode 28 (w32 (Inode.blockcnt inode + fs.blksz / 512)) })
      pure true

/-- `ext4fs_update_parent_dentry` from the label `restart` on. A directory
that is given a block has room in it, so that `restart` is reached again at most
once; the number of direct blocks bounds it in any case. -/
def updateDentryFrom (env : Env) (name : CStr) (type : Nat) : Nat → Run Nat
  | 0 => undefined
  | rounds + 1 => do
    let fs ← get
    let dirBlocks := directoryBlocks fs.root fs.gParentInode
    match ← slotLoop env fs.gParentInode name (w32 (dirBlocks + minusOne)) with
    | none => pure minusOne
    | some (blknr, block, slot) =>
      let insert (block : Buf) (off len : Nat) : Run Nat := do
        let inodeno ← ext4fsGetNewInodeNo env
        if inodeno = minusOne then pure minusOne
        else do
          ext4fsPutMetadata (putEntry block off inodeno len type name) blknr
          pure inodeno
      match slot with
      | .behind off len =>
        let used := entryBytes (Dirent.namelen block off)
        insert (putLe16 block (off + 4) used) (off + used) len
      | .stop off => insert block off (fs.blksz - off)
      | .outside => undefined
      | .full => do
        if ← growParent env dirBlocks then
          ext4fsPutMetadata block blknr
          updateDentryFrom env name type rounds
        else pure minusOne

/-- `ext4fs_update_parent_dentry`: the number of the inode that the new entry
has, or -1. -/
def ext4fsUpdateParentDentry (env : Env) (name : CStr) (type : Nat) : Run Nat :=
  updateDentryFrom env name type (indirectBlocks + 2)

end UuuFastboot.Ext4
