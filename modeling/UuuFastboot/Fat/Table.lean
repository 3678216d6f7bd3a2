import UuuFastboot.Fat.Entry
import UuuFastboot.Lib.Partial

namespace UuuFastboot.Fat

open Word Overlay Bytes Partial

/-- What stays as `do_fat_write` sets it up: the partition, the block size of the device, `total_sector`, `num_of_fats`
and the fields of `fsdata` that describe the volume. -/
structure Env where
  partStart : Nat
  blksz : Nat
  totalSector : Nat
  numOfFats : Nat
  fatsize : FatSize
  fatlength : Nat
  fatSect : Nat
  rootdirSect : Nat
  sectSize : Nat
  clustSize : Nat
  /-- `data_begin`, kept as a 32-bit word: it can be negative. -/
  dataBegin : Nat
  /-- What an uninitialised buffer holds. -/
  stack : Buf

/-- The device, and the fields of `fsdata` for the window of the table in memory; its number is `none` for -1. -/
structure St where
  card : Buf
  fatbuf : Buf
  fatDirty : Bool
  fatbufnum : Option Nat

/-- A piece of the driver; no result for a run that C gives no meaning to. -/
abbrev Run (α : Type) := StateT St Option α

def undefined {α : Type} : Run α := fun _ => none

/-- The word -1 -/
def minusOne : Nat := 2 ^ 32 - 1

def fatbufblocks : Nat := 6

/-- `disk_read`: what the buffer holds afterwards. The device is taken to be exact. -/
def diskRead (env : Env) (card : Buf) (block nrBlocks : Nat) (buf : Buf) : Buf :=
  overlay buf 0 (nrBlocks * env.blksz) (tail card (w32 (env.partStart + block) * env.blksz))

/-- `disk_write`; false for -1 -/
def diskWrite (env : Env) (block nrBlocks : Nat) (buf : Buf) : Run Bool := fun st =>
  if w32 (env.partStart + env.totalSector) < w32 (env.partStart + block + nrBlocks) then some (false, st)
  else
    some (true,
      { st with card := overlay st.card (w32 (env.partStart + block) * env.blksz) (nrBlocks * env.blksz) buf })

/-- `getsize` for the window that begins with a block of the table. -/
def getsize (env : Env) (startblock : Nat) : Nat :=
  if env.fatlength < w32 (startblock + fatbufblocks) then w32 (env.fatlength + 2 ^ 32 - startblock) else fatbufblocks

/-- `flush_dirty_fat_buffer`; false for -1 -/
def flushDirtyFatBuffer (env : Env) : Run Bool := do
  let st ← get
  match st.fatbufnum with
  | none => pure true
  | some fatbufnum =>
    if st.fatDirty then
      let startblock := w32 (fatbufnum * fatbufblocks)
      let size := getsize env startblock
      if ← diskWrite env (w32 (startblock + env.fatSect)) size st.fatbuf then
        if env.numOfFats = 2 then
          if ← diskWrite env (w32 (startblock + env.fatSect + env.fatlength)) size st.fatbuf then do
            modify (fun st => { st with fatDirty := false })
            pure true
          else pure false
        else do
          modify (fun st => { st with fatDirty := false })
          pure true
      else pure false
    else pure true

/-- Make a window of the table the one in memory; false where the old one cannot be written. More sectors than
the buffer has room for would be read where the window is behind the end of the table. -/
def loadWindow (env : Env) (bufnum : Nat) : Run Bool := do
  let st ← get
  if st.fatbufnum = some bufnum then pure true
  else
    let startblock := w32 (bufnum * fatbufblocks)
    let size := getsize env startblock
    if ← flushDirtyFatBuffer env then
      if fatbufblocks < size then undefined
      else do
        modify (fun st =>
          { st with
            fatbuf := diskRead env st.card (w32 (startblock + env.fatSect)) size st.fatbuf
            fatbufnum := some bufnum })
        pure true
    else pure false

def getFatent (env : Env) (entry : Nat) : Run Nat := do
  if checkClust entry env.fatsize then pure 0
  else
    let bufnum := entry / env.fatsize.bufsize env.sectSize
    let offset := entry - bufnum * env.fatsize.bufsize env.sectSize
    if ← loadWindow env bufnum then do
      let st ← get
      pure (getEntry st.fatbuf offset env.fatsize)
    else pure minusOne

/-- `set_fatent_value`: 0, or -1 -/
def setFatentValue (env : Env) (entry entryValue : Nat) : Run Nat := do
  let bufnum := entry / env.fatsize.bufsize env.sectSize
  let offset := entry - bufnum * env.fatsize.bufsize env.sectSize
  if ← loadWindow env bufnum then do
    modify (fun st => { st with fatDirty := true, fatbuf := putEntry st.fatbuf offset entryValue env.fatsize })
    pure 0
  else pure minusOne

end UuuFastboot.Fat
