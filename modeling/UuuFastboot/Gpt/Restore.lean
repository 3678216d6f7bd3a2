import UuuFastboot.Gpt.PartInfo

namespace UuuFastboot.Gpt

open Word Overlay Bytes Crc32 CString Uuid

structure GptHeader where
  signature : Nat
  revision : Nat
  headerSize : Nat
  headerCrc32 : Nat
  myLba : Nat
  alternateLba : Nat
  firstUsableLba : Nat
  lastUsableLba : Nat
  diskGuid : Buf
  partitionEntryLba : Nat
  numPartitionEntries : Nat
  sizeofPartitionEntry : Nat
  partitionEntryArrayCrc32 : Nat

/-- The header in its block, the rest of which `calloc` has cleared. -/
def GptHeader.encode (h : GptHeader) : Buf := fun i =>
  if i < 8 then leByte h.signature i
  else if i < 12 then leByte h.revision (i - 8)
  else if i < 16 then leByte h.headerSize (i - 12)
  else if i < 20 then leByte h.headerCrc32 (i - 16)
  else if i < 24 then 0
  else if i < 32 then leByte h.myLba (i - 24)
  else if i < 40 then leByte h.alternateLba (i - 32)
  else if i < 48 then leByte h.firstUsableLba (i - 40)
  else if i < 56 then leByte h.lastUsableLba (i - 48)
  else if i < 72 then h.diskGuid (i - 56)
  else if i < 80 then leByte h.partitionEntryLba (i - 72)
  else if i < 84 then leByte h.numPartitionEntries (i - 80)
  else if i < 88 then leByte h.sizeofPartitionEntry (i - 84)
  else if i < 92 then leByte h.partitionEntryArrayCrc32 (i - 88)
  else 0

/-- A partition that is asked for: the fields of `disk_partition_t` that are read. The name is one of 1 to
31 characters; behind its terminator the array may hold anything. -/
structure PartSpec where
  start : Nat
  size : Nat
  name : Buf
  bootable : Bool
  uuid : CStr
  start_lt : start < 2 ^ 32
  size_lt : size < 2 ^ 32
  name_ends : ∃ len, 1 ≤ len ∧ len ≤ 31 ∧ name len = 0 ∧ ∀ i < len, name i ≠ 0

def PartSpec.text (p : PartSpec) : CStr := textAt p.name 0 32

/-- `gpt_fill_header`; `none` if the identifier is not valid. -/
def gptFillHeader (lba : Nat) (strGuid : CStr) : Option GptHeader :=
  (uuidStrToBin strGuid .guid).map (fun guid =>
    { signature := gptHeaderSignature
      revision := 0x00010000
      headerSize := 92
      headerCrc32 := 0
      myLba := 1
      alternateLba := w32 (lba + (2 ^ 32 - 1))
      firstUsableLba := 34
      lastUsableLba := w32 (lba + (2 ^ 32 - 34))
      diskGuid := guid
      partitionEntryLba := 2
      numPartitionEntries := 128
      sizeofPartitionEntry := 128
      partitionEntryArrayCrc32 := 0 })

def basicDataGuid : List UInt8 :=
  [0xa2, 0xa0, 0xd0, 0xeb, 0xe5, 0xb9, 0x33, 0x44, 0x87, 0xc0, 0x68, 0xb6, 0xb7, 0x26, 0x99, 0xc7]

/-- The bytes of an entry: type, identifier, first and last block, attributes and name. -/
def fillPte (starting ending : Nat) (uuid : Buf) (p : PartSpec) : Buf := fun i =>
  if i < 16 then basicDataGuid.getD i 0
  else if i < 32 then uuid (i - 16)
  else if i < 40 then leByte starting (i - 32)
  else if i < 48 then leByte ending (i - 40)
  else if i < 56 then if i = 48 ∧ p.bootable then 4 else 0
  else if i % 2 = 0 ∧ i < 56 + 2 * 32 then p.name ((i - 56) / 2)
  else 0

/-- What `gpt_fill_pte` comes to: it writes behind the 128 entries that were allocated, it reports an error,
or it leaves these entries. -/
inductive Filled
  | overrun
  | error
  | ok (entries : List Buf)

def Filled.cons (pte : Buf) : Filled → Filled
  | .ok entries => .ok (pte :: entries)
  | other => other

def PartSpec.startFrom (p : PartSpec) (offset : Nat) : Nat := if p.start ≠ 0 then p.start else offset

/-- `gpt_fill_pte` from partition `i` on. -/
def gptFillPte (lastUsable : Nat) : Nat → Nat → List PartSpec → Filled
  | _, _, [] => .ok []
  | i, offset, p :: rest =>
    if p.start ≠ 0 ∧ p.start < offset then .error
    else if 128 ≤ i then .overrun
    else
      let next := w32 (p.startFrom offset + p.size)
      if next > w32 (lastUsable + 1) then .error
      else
        -- The last partition is extended if it has no size.
        let ending := if rest.isEmpty ∧ p.size = 0 then lastUsable else w32 (next + (2 ^ 32 - 1))
        match uuidStrToBin p.uuid .std with
        | none => .error
        | some uuid => (gptFillPte lastUsable (i + 1) next rest).cons (fillPte (p.startFrom offset) ending uuid p)

/-- The array of entries; those that were not filled are cleared. -/
def entryArray (entries : List Buf) : Buf := fun a => (entries.getD (a / 128) zeros) (a % 128)

/-- `blk_dwrite` to a device of `lba` blocks; `none` if it fails. -/
def blkDwrite (lba : Nat) (disk : Buf) (blk cnt : Nat) (data : Buf) : Option Buf :=
  if blk + cnt ≤ lba then some (overlay disk (512 * blk) (512 * cnt) data) else none

def setProtectiveMbr (lba : Nat) (disk : Buf) : Option Buf :=
  let mbr₁ := overlay disk 450 1 (fun _ => 0xee)
  let mbr₂ := putLe32 (putLe32 mbr₁ 454 1) 458 (w32 (lba + (2 ^ 32 - 1)))
  blkDwrite lba disk 0 1 (putLe16 mbr₂ 510 0xaa55)

/-- `header_crc32` filled in. -/
def GptHeader.seal (h : GptHeader) : GptHeader := { h with headerCrc32 := crc32 h.encode h.headerSize }

def prepareBackupGptHeader (h : GptHeader) : GptHeader :=
  { h with
    myLba := h.alternateLba
    alternateLba := h.myLba
    partitionEntryLba := h.lastUsableLba + 1
    headerCrc32 := 0 }.seal

/-- `write_gpt_table`; `none` if it fails. -/
def writeGptTable (lba : Nat) (disk : Buf) (gptH : GptHeader) (gptE : Buf) : Option Buf := do
  let pteBlkCnt := blockCnt (w32 (gptH.numPartitionEntries * 128))
  let disk ← setProtectiveMbr lba disk
  let h := { gptH with
    partitionEntryArrayCrc32 := crc32 gptE (w32 (gptH.numPartitionEntries * gptH.sizeofPartitionEntry)) }.seal
  let disk ← blkDwrite lba disk 1 1 h.encode
  let disk ← blkDwrite lba disk 2 pteBlkCnt gptE
  let backup := prepareBackupGptHeader h
  let disk ← blkDwrite lba disk (w32 (backup.lastUsableLba + 1)) pteBlkCnt gptE
  blkDwrite lba disk (w32 backup.myLba) 1 backup.encode

/-- What `gpt_restore` comes to. -/
inductive Restored
  | overrun
  | error
  | ok (disk : Buf)

/-- `gpt_restore`, with memory for the table. -/
def gptRestore (lba : Nat) (disk : Buf) (strDiskGuid : CStr) (partitions : List PartSpec) : Restored :=
  match gptFillHeader lba strDiskGuid with
  | none => .error
  | some h =>
    match gptFillPte h.lastUsableLba 0 h.firstUsableLba partitions with
    | .overrun => .overrun
    | .error => .error
    | .ok entries =>
      match writeGptTable lba disk h (entryArray entries) with
      | none => .error
      | some disk => .ok disk

/-- `gpt_convert_efi_name_to_char` into an array of 37 characters. -/
def efiNameToChar (pte : Buf) : CStr := textAt (fun j => pte (56 + 2 * j)) 0 37

/-- The loop of `gpt_verify_partitions` from entry `i` on. -/
def verifyLoop (num : Nat) (gptE : Buf) : Nat → List PartSpec → Bool
  | _, [] => true
  | i, p :: rest =>
    let pte := tail gptE (i * 128)
    let size := (endingLba pte + (2 ^ 64 - startingLba pte) + 1) % 2 ^ 64
    if i = num then false
    else if (efiNameToChar pte).take 32 ≠ p.text then false
    else if size ≠ p.size then
      -- The size of an extended partition is not checked, and neither is its start then.
      if rest.isEmpty ∧ p.size = 0 then verifyLoop num gptE (i + 1) rest else false
    else if p.start ≠ 0 ∧ startingLba pte ≠ p.start then false
    else verifyLoop num gptE (i + 1) rest

/-- `gpt_verify_partitions`; both tables have to be valid, and the entries are those of the backup. -/
def EfiDev.gptVerifyPartitions (d : EfiDev) (partitions : List PartSpec) : Bool :=
  d.isGptValid 1 && d.isGptValid d.lastBlock &&
    verifyLoop (numPartitionEntries (d.header d.lastBlock)) (d.entries (d.header d.lastBlock)) 0 partitions

/-- The partitions in the table with its header in block `blk`: those that are not empty lie in the usable
blocks, one behind the other. -/
structure EfiDev.Disjoint (d : EfiDev) (blk count : Nat) : Prop where
  inside : ∀ k < count, startingLba (d.pte (d.header blk) (k + 1)) ≤ endingLba (d.pte (d.header blk) (k + 1)) →
    firstUsableLba (d.header blk) ≤ startingLba (d.pte (d.header blk) (k + 1)) ∧
      endingLba (d.pte (d.header blk) (k + 1)) ≤ lastUsableLba (d.header blk)
  ordered : ∀ j k, j < k → k < count →
    startingLba (d.pte (d.header blk) (j + 1)) ≤ endingLba (d.pte (d.header blk) (j + 1)) →
    startingLba (d.pte (d.header blk) (k + 1)) ≤ endingLba (d.pte (d.header blk) (k + 1)) →
    endingLba (d.pte (d.header blk) (j + 1)) < startingLba (d.pte (d.header blk) (k + 1))

/-- The device holds the partitions: they are disjoint in both tables, the tables are accepted for the list,
and they give back what was asked for. -/
structure EfiDev.Holds (d : EfiDev) (partitions : List PartSpec) : Prop where
  primary : d.Disjoint 1 partitions.length
  backup : d.Disjoint d.lastBlock partitions.length
  verified : d.gptVerifyPartitions partitions = true
  info : ∀ k p, partitions[k]? = some p → ∃ i, d.partGetInfoEfi (k + 1) = some i ∧
    (p.start ≠ 0 → i.start = p.start) ∧
    (if k + 1 = partitions.length ∧ p.size = 0 then i.start + i.size = lastUsableLba (d.header 1) + 1 else i.size = p.size) ∧
    i.name = p.text ∧ i.bootable = p.bootable ∧ i.uuid = p.uuid

/-- What `gpt_restore` has to do. -/
structure EfiDev.RestoreRight (d : EfiDev) (strDiskGuid : CStr) (partitions : List PartSpec) : Prop where
  defined : gptRestore d.lba d.disk strDiskGuid partitions ≠ .overrun
  holds : ∀ disk, gptRestore d.lba d.disk strDiskGuid partitions = .ok disk → { d with disk := disk }.Holds partitions

/-- Every partition, placed behind the one before it or where it is asked for, ends in front of block 2^32. -/
def LayoutFits : Nat → List PartSpec → Prop
  | _, [] => True
  | offset, p :: rest => p.startFrom offset + p.size < 2 ^ 32 ∧ LayoutFits (p.startFrom offset + p.size) rest

/-- The text fields of a partition come back as they are: the name has no character that is printed as a dot,
and the identifier is the same in both formats. -/
structure PartSpec.Plain (p : PartSpec) : Prop where
  name : ∀ c ∈ p.text, isprint c = true
  lower : LowerCase p.uuid
  mirrored : Mirrored p.uuid

end UuuFastboot.Gpt
