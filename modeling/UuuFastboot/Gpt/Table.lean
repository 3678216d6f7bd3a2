import UuuFastboot.Lib.Crc32
import UuuFastboot.Flash.Process

namespace UuuFastboot.Gpt

open Word Overlay Bytes Crc32

section Fields

variable (h : Buf)

def signature : Nat := getLe64 h 0

def headerSize : Nat := getLe32 h 12

def headerCrc32 : Nat := getLe32 h 16

def myLba : Nat := getLe64 h 24

def firstUsableLba : Nat := getLe64 h 40

def lastUsableLba : Nat := getLe64 h 48

def partitionEntryLba : Nat := getLe64 h 72

def numPartitionEntries : Nat := getLe32 h 80

def sizeofPartitionEntry : Nat := getLe32 h 84

def partitionEntryArrayCrc32 : Nat := getLe32 h 88

/-- The length of the entry array as the code multiplies it. -/
def entryBytes : Nat := w32 (numPartitionEntries h * sizeofPartitionEntry h)

end Fields

def gptHeaderSignature : Nat := 0x5452415020494645

/-- `validate_gpt_header` of a header that lies at block `lba`. -/
def validateGptHeader (h : Buf) (lba lastlba : Nat) : Bool :=
  signature h == gptHeaderSignature && crc32 (putLe32 h 16 0) (headerSize h) == headerCrc32 h && myLba h == lba &&
    firstUsableLba h ≤ lastlba && lastUsableLba h ≤ lastlba

def validateGptEntries (h e : Buf) : Bool := crc32 e (entryBytes h) == partitionEntryArrayCrc32 h

/-- The header in an image buffer, the second block of it. -/
def header (m : Mem) : Buf := fun i => m.byte (512 + i)

/-- The entries in an image buffer, where its header places them. -/
def entries (m : Mem) : Buf := fun i => m.byte (partitionEntryLba (header m) * 512 + i)

def isValidGptBuf (lba : Nat) (m : Mem) : Bool :=
  validateGptHeader (header m) 1 lba && validateGptEntries (header m) (entries m)

/-- `BLOCK_CNT`; the predecessor of 0 is the largest `unsigned int`. -/
def blockCnt (size : Nat) : Nat := w32 (size + (2 ^ 32 - 1)) / 512 + 1

/-- `prepare_last_lba_gpt_header` before the checksum is filled in. -/
def prepareFields (lba : Nat) (h : Buf) : Buf :=
  let h₁ := putLe64 h 24 (w32 (lba + (2 ^ 32 - 1)))
  let h₂ := putLe64 h₁ 32 (myLba h)
  let h₃ := putLe64 h₂ 48 (w32 (lba + (2 ^ 32 - 34)))
  let h₄ := putLe64 h₃ 72 (lastUsableLba h₃ + 1)
  putLe32 h₄ 16 0

def prepareLastLbaGptHeader (lba : Nat) (h : Buf) : Buf :=
  putLe32 (prepareFields lba h) 16 (crc32 (prepareFields lba h) (headerSize (prepareFields lba h)))

/-- The image buffer with its header prepared for the last block. -/
def backupBuffer (lba : Nat) (m : Mem) : Mem := overlay m 512 92 (prepareLastLbaGptHeader lba (header m))

/-- What `write_backup_gpt_partitions` takes from an image buffer. The pointer
to the entries is the one that the header had before it was prepared. -/
def gptImage (m : Mem) (c : Card) : GptImage where
  valid := isValidGptBuf (c.lba c.hwpart) m
  entryBlocks := blockCnt (entryBytes (header m))
  entries := fun i => some ((backupBuffer (c.lba c.hwpart) m).byte (partitionEntryLba (header m) * 512 + i))
  header := fun i => some (header (backupBuffer (c.lba c.hwpart) m) i)

/-- `alloc_read_gpt_entries`, with enough memory for the entries. -/
def allocReadGptEntries (lba : Nat) (disk : Nat → UInt8) (h : Buf) : Option Buf :=
  let count := entryBytes h
  let blk := w32 (partitionEntryLba h)
  if count = 0 then none
  else if blk + blockCnt count ≤ lba then some (fun i => disk (512 * blk + i))
  else none

/-- `is_gpt_valid`. One block is read, into a buffer of one block; `behind` is what lies
in memory from there on. -/
def isGptValid (lba : Nat) (disk : Nat → UInt8) (behind : Buf) (blk : Nat) : Bool :=
  let h : Buf := fun i => if i < 512 then disk (512 * blk + i) else behind i
  if blk + 1 ≤ lba ∧ validateGptHeader h blk lba then
    match allocReadGptEntries lba disk h with
    | none => false
    | some e => validateGptEntries h e
  else false

section Valid

variable {lba blk : Nat} {disk : Nat → UInt8} {behind h e : Buf}
  (header : h = fun i => if i < 512 then disk (512 * blk + i) else behind i)
include header

theorem validateGptHeader_of_isGptValid (valid : isGptValid lba disk behind blk = true) :
    validateGptHeader h blk lba = true := by
  subst header
  simp only [isGptValid] at valid
  split at valid
  · next checks => exact checks.2
  · cases valid

theorem isGptValid_of_read (block : blk + 1 ≤ lba) (checked : validateGptHeader h blk lba = true)
    (read : allocReadGptEntries lba disk h = some e) (summed : validateGptEntries h e = true) :
    isGptValid lba disk behind blk = true := by
  subst header
  simp only [isGptValid]
  rw [if_pos ⟨block, checked⟩, read]
  exact summed

end Valid

/-- Entry `k` of an array, and whether it is in use: `is_pte_valid`. -/
def entry (h e : Buf) (k : Nat) : Buf := tail e (k * sizeofPartitionEntry h)

def isPteValid (pte : Buf) : Bool := (List.range 16).any (fun i => pte i != 0)

def endingLba (pte : Buf) : Nat := getLe64 pte 40

end UuuFastboot.Gpt
