import UuuFastboot.Lib.CString
import UuuFastboot.Ext4.BlockMap

namespace UuuFastboot.Ext4

open Word Overlay Bytes CString

/-- The read that `ext4fs_read_file` has put off: adjacent blocks are
collected into one request. `buf` is where the bytes go in the caller's buffer. -/
structure Delayed where
  start : Nat
  extent : Nat
  skipfirst : Nat
  buf : Nat
  next : Nat

/-- Carry out a read that was put off. `read` stands for `ext4fs_devread`. -/
def spill (read : Nat → Nat → Nat → Option Buf) (delayed : Option Delayed) (out : Buf) : Option Buf :=
  match delayed with
  | none => some out
  | some d => (read d.start d.skipfirst d.extent).map (overlay out d.buf d.extent)

/-- The file that `ext4fs_read_file` reads and the part of it that is asked for. -/
structure ReadRequest where
  inode : Buf
  pos : Nat
  len : Nat
  blocksize : Nat
  blockcnt : Nat

/-- What is left of block `i` in the request: how much of its front is
skipped, and how many bytes are wanted behind that. -/
def ReadRequest.part (r : ReadRequest) (i : Nat) : Nat × Nat :=
  let blockend :=
    if i + 1 = r.blockcnt then
      let e := r.len + r.pos - r.blocksize * i
      if e = 0 then r.blocksize else e
    else r.blocksize
  let skipfirst := if i = r.pos / r.blocksize then r.pos - r.blocksize * i else 0
  (skipfirst, blockend - skipfirst)

/-- State of the loop of `ext4fs_read_file`: the caller's buffer, how far it is
filled, the read that was put off, and the buffers of the block lookup. -/
structure ReadState where
  buf : Nat
  delayed : Option Delayed
  out : Buf
  cache : ExtCache
  caches : Caches

/-- The request with one more block added to what was put off. -/
def addBlock (env : Env) (read : Nat → Nat → Nat → Option Buf) (s : ReadState) (blknr skipfirst blockend : Nat) :
    Option (Option Delayed × Buf) :=
  let fresh : Delayed := ⟨blknr, blockend, skipfirst, s.buf, blknr + blockend / env.devBlksz⟩
  match s.delayed with
  | none => some (some fresh, s.out)
  | some d =>
    if d.next = blknr then
      some (some { d with extent := d.extent + blockend, next := d.next + blockend / env.devBlksz }, s.out)
    else (spill read s.delayed s.out).map (fun out => (some fresh, out))

/-- A round of the loop with block `i` of the file, which is block `b` of the
volume or a hole: what is put off then, and the caller's buffer. -/
def readRound (env : Env) (root : Root) (read : Nat → Nat → Nat → Option Buf) (r : ReadRequest) (i b : Nat)
    (s : ReadState) : Option (Option Delayed × Buf) :=
  let blknr := blockSector env root b
  let (skipfirst, blockend) := r.part i
  if blknr ≠ 0 then addBlock env read s blknr skipfirst blockend
  else
    (spill read s.delayed s.out).map
      (fun out => (none, overlay out s.buf (min (r.blocksize - skipfirst) (r.len - s.buf)) zeros))

/-- The loop of `ext4fs_read_file`, with the number of blocks that are left.
The inner `none` is a return value of -1. `lookup` stands for
`read_allocated_block` with the inode. -/
def readLoop (env : Env) (root : Root) (read : Nat → Nat → Nat → Option Buf)
    (lookup : Nat → ExtCache → Caches → Option (Nat × ExtCache × Caches)) (r : ReadRequest) :
    Nat → Nat → ReadState → Option (Option Buf × Caches)
  | 0, _, s => some (spill read s.delayed s.out, s.caches)
  | left + 1, i, s =>
    match lookup i s.cache s.caches with
    | none => none
    | some (blknr, cache, caches) =>
      if isNeg blknr then some (none, caches)
      else
        match readRound env root read r i blknr s with
        | none => some (none, caches)
        | some (delayed, out) =>
          readLoop env root read lookup r left (i + 1)
            ⟨s.buf + (r.blocksize - (r.part i).1), delayed, out, cache, caches⟩

/-- `ext4fs_read_file`: the caller's buffer and the number of bytes read, or
the inner `none` for -1. -/
def ext4fsReadFileWith (env : Env) (root : Root) (read : Nat → Nat → Nat → Option Buf)
    (lookup : Nat → ExtCache → Caches → Option (Nat × ExtCache × Caches)) (inode : Buf) (pos len : Nat) (out : Buf)
    (caches : Caches) : Option (Option (Buf × Nat) × Caches) :=
  let filesize := Inode.size inode
  let len := if filesize < len + pos then filesize - pos else len
  let blocksize := root.blockSize
  if len = 0 then some (none, caches)
  else
    let blockcnt := (len + pos + blocksize - 1) / blocksize
    let first := pos / blocksize
    (readLoop env root read lookup ⟨inode, pos, len, blocksize, blockcnt⟩ (blockcnt - first) first
        ⟨0, none, out, none, caches⟩).map
      (fun (out, caches) => (out.map (fun out => (out, len)), caches))

/-- `ext4fs_read_file` on a device whose block reads succeed. -/
def ext4fsReadFile (env : Env) (card : Buf) (root : Root) (inode : Buf) (pos len : Nat) (out : Buf)
    (caches : Caches) : Option (Option (Buf × Nat) × Caches) :=
  ext4fsReadFileWith env root (fsDevread env card) (readAllocatedBlock env card root inode) inode pos len out caches

/-- `struct ext2fs_node` without the pointer to the volume; `inode` is `none`
while `inode_read` is 0. -/
structure Node where
  ino : Nat
  inode : Option Buf

/-- The inode of a node, read where it is not there yet. -/
def Node.load (env : Env) (card : Buf) (root : Root) (node : Node) : Option Buf :=
  match node.inode with
  | some inode => some inode
  | none => ext4fsReadInode env card root node.ino

/-- `FILETYPE_UNKNOWN` and the three types a directory entry can give. -/
inductive FileType where
  | unknown
  | reg
  | directory
  | symlink
  deriving DecidableEq, Repr

/-- The type as an entry of a directory states it. -/
def FileType.ofEntry (code : Nat) : FileType :=
  if code = 2 then .directory else if code = 7 then .symlink else if code = 1 then .reg else .unknown

/-- `mode & FILETYPE_INO_MASK` compared with the types of inodes -/
def FileType.ofMode (mode : Nat) : FileType :=
  if mode / 2 ^ 12 % 16 = 4 then .directory
  else if mode / 2 ^ 12 % 16 = 10 then .symlink
  else if mode / 2 ^ 12 % 16 = 8 then .reg
  else .unknown

/-! Fields of `struct ext2_dirent`, the header of a directory entry. -/

namespace Dirent

def inode (b : Buf) (off : Nat) : Nat := getLe32 b off

def direntlen (b : Buf) (off : Nat) : Nat := getLe16 b (off + 4)

def namelen (b : Buf) (off : Nat) : Nat := (b (off + 6)).toNat

def filetype (b : Buf) (off : Nat) : Nat := (b (off + 7)).toNat

end Dirent

/-- `sizeof(struct ext2_dirent)` -/
def sizeofDirent : Nat := 8

/-- What one entry gives `ext4fs_iterate_dir`: the node and type of the entry
if it has the name that is looked for. -/
def entryNode (env : Env) (card : Buf) (root : Root) (dirent : Buf) (found : Bool) :
    Option (Option (Node × FileType)) :=
  let ino := Dirent.inode dirent 0
  if Dirent.filetype dirent 0 ≠ 0 then
    some (if found then some (⟨ino, none⟩, FileType.ofEntry (Dirent.filetype dirent 0)) else none)
  else
    (ext4fsReadInode env card root ino).map (fun inode =>
      if found then some (⟨ino, some inode⟩, FileType.ofMode (Inode.mode inode)) else none)

/-- The loop of `ext4fs_iterate_dir` for a name that is looked for, from
position `fpos` of the directory on. Every round moves on by the length of an
entry, so the size of the directory bounds the rounds. -/
def iterateLoop (env : Env) (card : Buf) (root : Root) (inode : Buf) (name : CStr) :
    Nat → Nat → Caches → Option (Option (Node × FileType) × Caches)
  | 0, _, caches => some (none, caches)
  | rounds + 1, fpos, caches =>
    if Inode.size inode ≤ fpos then some (none, caches)
    else
      match ext4fsReadFile env card root inode fpos sizeofDirent zeros caches with
      | none => none
      | some (none, caches) => some (none, caches)
      | some (some (dirent, _), caches) =>
        if Dirent.direntlen dirent 0 = 0 then some (none, caches)
        else if Dirent.namelen dirent 0 = 0 then
          iterateLoop env card root inode name rounds (w32 (fpos + Dirent.direntlen dirent 0)) caches
        else
          match ext4fsReadFile env card root inode (fpos + sizeofDirent) (Dirent.namelen dirent 0) zeros caches with
          | none => none
          | some (none, caches) => some (none, caches)
          | some (some (filename, _), caches) =>
            let found := decide (textAt filename 0 (Dirent.namelen dirent 0) = name)
            match entryNode env card root dirent found with
            | none => some (none, caches)
            | some (some entry) => some (some entry, caches)
            | some none =>
              iterateLoop env card root inode name rounds (w32 (fpos + Dirent.direntlen dirent 0)) caches

/-- `ext4fs_iterate_dir` for a name that is looked for; the inner `none` for a
return value of 0. -/
def ext4fsIterateDir (env : Env) (card : Buf) (root : Root) (dir : Node) (name : CStr) (caches : Caches) :
    Option (Option (Node × FileType) × Caches) :=
  match dir.load env card root with
  | none => some (none, caches)
  | some inode => iterateLoop env card root inode name (Inode.size inode) 0 caches

def ext4fsReadSymlink (env : Env) (card : Buf) (root : Root) (node : Node) (caches : Caches) :
    Option (Option CStr × Caches) :=
  match node.load env card root with
  | none => some (none, caches)
  | some inode =>
    if Inode.size inode < 60 then some (some (textAt inode Inode.dirBlocks (Inode.size inode)), caches)
    else
      (ext4fsReadFile env card root inode 0 (Inode.size inode) zeros caches).map (fun (read, caches) =>
        (read.bind (fun (text, actread) =>
          if actread = 0 then none else some (textAt text 0 (Inode.size inode))), caches))

/-- The parts of a path between its slashes, as `strtok` and the loop of
`ext4fs_find_file1` take them; `part` is the part read so far, backwards. -/
def componentsFrom : CStr → CStr → List CStr
  | [], [] => []
  | part, [] => [part.reverse]
  | [], c :: rest => if c = 47 then componentsFrom [] rest else componentsFrom [c] rest
  | part, c :: rest =>
    if c = 47 then part.reverse :: componentsFrom [] rest else componentsFrom (c :: part) rest

def components (path : CStr) : List CStr := componentsFrom [] path

/-- `EXT2_MAX_SYMLINKCNT` -/
def maxSymlinkcnt : Nat := 8

/-- `ext4fs_find_file1` on the parts of the path. The result has the node and
the type found, where `none` leaves the caller's type as it was; with it comes
`symlinknest`. Each part takes one round. -/
def ext4fsFindFile1 (env : Env) (card : Buf) (root : Root) :
    Nat → List CStr → Node → FileType → Nat → Caches → Option (Option (Node × Option FileType) × Nat × Caches)
  | 0, _, _, _, _, _ => none
  | _ + 1, [], node, _, nest, caches => some (some (node, none), nest, caches)
  | rounds + 1, name :: rest, node, type, nest, caches =>
    if type ≠ .directory then some (none, nest, caches)
    else
      match ext4fsIterateDir env card root node name caches with
      | none => none
      | some (none, caches) => some (none, nest, caches)
      | some (some (found, type), caches) =>
        let continued (found : Node) (type : FileType) (nest : Nat) (caches : Caches) :=
          match rest with
          | [] => some (some (found, some type), nest, caches)
          | _ :: _ => ext4fsFindFile1 env card root rounds rest found type nest caches
        if type = .symlink then
          if nest + 1 = maxSymlinkcnt then some (none, nest + 1, caches)
          else
            match ext4fsReadSymlink env card root found caches with
            | none => none
            | some (none, caches) => some (none, nest + 1, caches)
            | some (some symlink, caches) =>
              let base : Node := if symlink.head? = some 47 then ⟨rootIno, some root.inode⟩ else node
              match ext4fsFindFile1 env card root rounds (components symlink) base .directory (nest + 1) caches with
              | none => none
              | some (none, nest, caches) => some (none, nest, caches)
              | some (some (found, foundtype), nest, caches) => continued found (foundtype.getD type) nest caches
        else continued found type nest caches

/-- More rounds than any path of at most `EXT2_PATH_MAX` bytes and the links on
it can take. -/
def pathRounds (path : CStr) : Nat := path.length + 2 ^ 16

/-- `ext4fs_open`: the inode of the regular file at a path, or the inner `none`
for -1. -/
def ext4fsOpen (env : Env) (card : Buf) (root : Root) (filename : CStr) (caches : Caches) :
    Option (Option Buf × Caches) :=
  match ext4fsFindFile1 env card root (pathRounds filename) (components filename) ⟨rootIno, some root.inode⟩
      .directory 0 caches with
  | none => none
  | some (none, _, caches) => some (none, caches)
  | some (some (node, foundtype), _, caches) =>
    if foundtype.getD .directory ≠ .reg then some (none, caches)
    else some (node.load env card root, caches)

/-- `ext4_read_file` at the start of a file into a buffer `out`: the buffer
and the number of bytes read, or the inner `none` for -1. -/
def ext4ReadFile (env : Env) (card : Buf) (root : Root) (filename : CStr) (offset len : Nat) (out : Buf)
    (caches : Caches) : Option (Option (Buf × Nat) × Caches) :=
  match ext4fsOpen env card root filename caches with
  | none => none
  | some (none, caches) => some (none, caches)
  | some (some inode, caches) =>
    ext4fsReadFile env card root inode offset (if len = 0 then Inode.size inode else len) out caches

end UuuFastboot.Ext4
