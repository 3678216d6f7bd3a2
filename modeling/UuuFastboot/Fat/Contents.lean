import UuuFastboot.Fat.Table

namespace UuuFastboot.Fat

open Word Overlay Bytes Partial

/-- What the driver takes from a directory entry for the contents of its file. -/
structure DirEntry where
  start : Nat
  starthi : Nat
  size : Nat

/-- `START` -/
def DirEntry.startCluster (dent : DirEntry) : FatSize → Nat
  | .fat32 => dent.start + 2 ^ 16 * dent.starthi
  | _ => dent.start

def archDmaMinalign : Nat := 64

/-- `MAX_CLUSTSIZE`: the size of `get_contents_vfatname_block`. -/
def maxClustsize : Nat := 65536

/-- The mark that `set_contents` puts at the end of a chain. -/
def FatSize.endMark : FatSize → Nat
  | fat12 => 0xfff
  | fat16 => 0xffff
  | fat32 => 0xfffffff

def Env.bytesperclust (env : Env) : Nat := w32 (env.clustSize * env.sectSize)

/-- The first sector of a cluster, or that of the root directory. -/
def startsect (env : Env) (clustnum : Nat) : Nat :=
  if 0 < clustnum then w32 (env.dataBegin + clustnum * env.clustSize) else env.rootdirSect

/-- The search of `determine_fatent`. -/
def determineLoop (env : Env) : Nat → Nat → Run Nat
  | 0, _ => undefined
  | fuel + 1, nextEntry => do
    let nextFat ← getFatent env nextEntry
    if nextFat = 0 then pure nextEntry
    else determineLoop env fuel (w32 (nextEntry + 1))

/-- `determine_fatent`. The search ends at the latest with an entry that `get_fatent` refuses; the result of
`set_fatent_value` is not looked at. -/
def determineFatent (env : Env) (entry : Nat) : Run Nat := do
  let nextEntry ← determineLoop env (env.fatsize.reserved + 1) (w32 (entry + 1))
  let _ ← setFatentValue env entry nextEntry
  pure nextEntry

/-- The loop of `clear_fatent`. -/
def clearLoop (env : Env) : Nat → Nat → Run Unit
  | 0, _ => undefined
  | fuel + 1, entry => do
    if checkClust entry env.fatsize then pure ()
    else
      let fatVal ← getFatent env entry
      if fatVal = 0 then pure ()
      else do
        let _ ← setFatentValue env entry 0
        clearLoop env fuel fatVal

/-- `clear_fatent`; false for -1. Each round but the last takes an entry of a cluster away. -/
def clearFatent (env : Env) (entry : Nat) : Run Bool := do
  clearLoop env (env.fatsize.reserved + 1) entry
  flushDirtyFatBuffer env

/-- Sectors are written one by one, as from a misaligned buffer. -/
def writeSectors (env : Env) : Nat → Nat → Buf → Run Bool
  | 0, _, _ => pure true
  | n + 1, sect, buffer => do
    if ← diskWrite env sect 1 (overlay env.stack 0 env.sectSize buffer) then
      writeSectors env n (w32 (sect + 1)) (tail buffer env.sectSize)
    else pure false

/-- The whole sectors that `set_cluster` writes from a buffer at an address. -/
def writeWhole (env : Env) (sect : Nat) (buffer : Buf) (addr size : Nat) : Run Bool :=
  if addr % archDmaMinalign ≠ 0 then writeSectors env (size / env.sectSize) sect buffer
  else if env.sectSize ≤ size then diskWrite env sect (size / env.sectSize) buffer
  else pure true

/-- `set_cluster` from a buffer at an address; false for -1. The last sector is filled with what is on the stack. -/
def setCluster (env : Env) (clustnum : Nat) (buffer : Buf) (addr size : Nat) : Run Bool := do
  let sect := startsect env clustnum
  let idx := size / env.sectSize
  if ← writeWhole env sect buffer addr size then
    let rest := size - idx * env.sectSize
    if rest = 0 then pure true
    else diskWrite env (w32 (sect + idx)) 1 (overlay env.stack 0 rest (tail buffer (idx * env.sectSize)))
  else pure false

/-- The loops of `set_contents`: `actsize` bytes at `off` of the buffer are to go to the clusters from `curclust` to
`endclust`. The result is whether 0 is returned, and `gotsize`. -/
def setContentsLoop (env : Env) (buffer : Buf) (addr : Nat) : Nat → Nat → Nat → Nat → Nat → Nat → Run (Bool × Nat)
  | 0, _, _, _, _, _ => undefined
  | fuel + 1, curclust, endclust, actsize, filesize, off => do
    if actsize < filesize then
      let newclust ← determineFatent env endclust
      if w32 (newclust + minusOne) ≠ endclust then
        if ← setCluster env curclust (tail buffer off) (addr + off) (w32 actsize) then
          if checkClust newclust env.fatsize then pure (true, off + actsize)
          else
            setContentsLoop env buffer addr fuel newclust newclust env.bytesperclust (filesize - actsize) (off + actsize)
        else pure (false, off)
      else if checkClust newclust env.fatsize then pure (true, off)
      else setContentsLoop env buffer addr fuel curclust newclust (actsize + env.bytesperclust) filesize off
    else
      if ← setCluster env curclust (tail buffer off) (addr + off) (w32 filesize) then do
        let _ ← setFatentValue env endclust env.fatsize.endMark
        pure (true, off + filesize)
      else pure (false, off)

/-- `set_contents`. The loops end after at most `filesize` rounds where clusters have a size. -/
def setContents (env : Env) (dentptr : DirEntry) (buffer : Buf) (addr : Nat) (maxsize : Int) : Run (Bool × Nat) :=
  let filesize := if 0 < maxsize ∧ maxsize.toNat < dentptr.size then maxsize.toNat else dentptr.size
  let curclust := dentptr.startCluster env.fatsize
  if curclust = 0 then pure (filesize = 0, 0)
  else setContentsLoop env buffer addr (filesize + 1) curclust curclust env.bytesperclust filesize 0

/-- `disk_read` into a buffer from an offset on. -/
def diskReadAt (env : Env) (card : Buf) (block nrBlocks : Nat) (buf : Buf) (off : Nat) : Buf :=
  overlay buf off (nrBlocks * env.blksz) (tail card (w32 (env.partStart + block) * env.blksz))

/-- Sectors are read one by one, as into a misaligned buffer. -/
def readSectors (env : Env) (card : Buf) : Nat → Nat → Buf → Nat → Buf
  | 0, _, buffer, _ => buffer
  | n + 1, sect, buffer, off =>
    readSectors env card n (w32 (sect + 1)) (overlay buffer off env.sectSize (diskRead env card sect 1 env.stack))
      (off + env.sectSize)

/-- `get_cluster` into a buffer from an offset on, at an address. It does not fail, as no reading does. -/
def getCluster (env : Env) (card : Buf) (clustnum : Nat) (buffer : Buf) (off addr size : Nat) : Buf :=
  let sect := startsect env clustnum
  let idx := size / env.sectSize
  let whole :=
    if addr % archDmaMinalign ≠ 0 then readSectors env card idx sect buffer off
    else diskReadAt env card sect idx buffer off
  let rest := size - idx * env.sectSize
  if rest = 0 then whole
  else overlay whole (off + idx * env.sectSize) rest (diskRead env card (w32 (sect + idx)) 1 env.stack)

/-- `get_contents` goes to the cluster at `pos`; none where the chain ends before. -/
def seekCluster (env : Env) (pos : Nat) : Nat → Nat → Nat → Run (Option (Nat × Nat))
  | 0, _, _ => undefined
  | fuel + 1, actsize, curclust => do
    if actsize ≤ pos then
      let curclust ← getFatent env curclust
      if checkClust curclust env.fatsize then pure none
      else seekCluster env pos fuel (actsize + env.bytesperclust) curclust
    else pure (some (actsize, curclust))

/-- The loops of `get_contents`: `actsize` bytes of the clusters from `curclust` to `endclust` are to go to `off` of the
buffer. The result is `gotsize` with the buffer. -/
def getContentsLoop (env : Env) (addr : Nat) : Nat → Nat → Nat → Nat → Nat → Nat → Buf → Run (Nat × Buf)
  | 0, _, _, _, _, _, _ => undefined
  | fuel + 1, curclust, endclust, actsize, filesize, off, buffer => do
    if actsize < filesize then
      let newclust ← getFatent env endclust
      if w32 (newclust + minusOne) ≠ endclust then
        let st ← get
        let buffer := getCluster env st.card curclust buffer off (addr + off) (w32 actsize)
        let curclust ← getFatent env endclust
        if checkClust curclust env.fatsize then pure (off + actsize, buffer)
        else
          getContentsLoop env addr fuel curclust curclust env.bytesperclust (filesize - actsize) (off + actsize) buffer
      else if checkClust newclust env.fatsize then pure (off, buffer)
      else getContentsLoop env addr fuel curclust newclust (actsize + env.bytesperclust) filesize off buffer
    else do
      let st ← get
      pure (off + filesize, getCluster env st.card curclust buffer off (addr + off) (w32 filesize))

/-- `get_contents` once it is at the cluster, with `filesize` and `pos` counted from there. The part of a first cluster
that is not read from its beginning must have room in `get_contents_vfatname_block`. -/
def getFrom (env : Env) (curclust filesize pos : Nat) (buffer : Buf) (addr : Nat) : Run (Nat × Buf) := do
  if pos = 0 then getContentsLoop env addr (filesize + 1) curclust curclust env.bytesperclust filesize 0 buffer
  else
    let actsize := min filesize env.bytesperclust
    if maxClustsize < actsize then undefined
    else do
      let st ← get
      let block := getCluster env st.card curclust env.stack 0 0 (w32 actsize)
      let filesize := filesize - actsize
      let actsize := actsize - pos
      let buffer := overlay buffer 0 actsize (tail block pos)
      if filesize = 0 then pure (actsize, buffer)
      else do
        let curclust ← getFatent env curclust
        if checkClust curclust env.fatsize then pure (actsize, buffer)
        else getContentsLoop env addr (filesize + 1) curclust curclust env.bytesperclust filesize actsize buffer

/-- `get_contents`, with `gotsize` and the buffer for a result; it returns 0 throughout. The sum of `pos` and `maxsize`
must be one that `loff_t` has. -/
def getContents (env : Env) (dentptr : DirEntry) (pos : Nat) (buffer : Buf) (addr : Nat) (maxsize : Int) :
    Run (Nat × Buf) := do
  if dentptr.size ≤ pos then pure (0, buffer)
  else if 0 < maxsize ∧ 2 ^ 63 ≤ pos + maxsize.toNat then undefined
  else
    let filesize := if 0 < maxsize ∧ pos + maxsize.toNat < dentptr.size then pos + maxsize.toNat else dentptr.size
    match ← seekCluster env pos (pos + 1) env.bytesperclust (dentptr.startCluster env.fatsize) with
    | none => pure (0, buffer)
    | some (actsize, curclust) =>
      let actsize := actsize - env.bytesperclust
      getFrom env curclust (filesize - actsize) (pos - actsize) buffer addr

end UuuFastboot.Fat
