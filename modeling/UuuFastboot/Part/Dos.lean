import UuuFastboot.Lib.Bytes
import UuuFastboot.Lib.Radix

namespace UuuFastboot.Dos

open Word Bytes CString Radix

/-- `dev_desc->if_type`, as far as the names of partitions depend on it. -/
inductive IfType
  | ide | sata | atapi | scsi | usb | doc | mmc | sd | other

/-- A block device. `read` is what `blk_dread` of one block gives, `none` if it does not return 1; there
are no blocks behind the last one. -/
structure BlkDesc where
  ifType : IfType
  devnum : Nat
  lba : Nat
  read : Nat → Option Buf
  lba_lt : lba < 2 ^ 32
  read_lt : ∀ sector buffer, read sector = some buffer → sector < lba

/-- `disk_partition_t` -/
structure DiskPartition where
  start : Nat
  size : Nat
  blksz : Nat
  name : CStr
  type : CStr
  bootable : Bool
  uuid : CStr
  sysInd : UInt8

def IfType.devtype : IfType → CStr
  | .ide | .sata | .atapi => cstr "hd"
  | .scsi => cstr "sd"
  | .usb => cstr "usbd"
  | .doc => cstr "docd"
  | .mmc | .sd => cstr "mmcsd"
  | .other => cstr "xx"

def partSetGenericName (dev : BlkDesc) (partNum : Nat) : CStr :=
  dev.ifType.devtype ++ [UInt8.ofNat (97 + dev.devnum)] ++ decText partNum

/-! The fields of `dos_partition_t`. -/

def bootInd (pt : Buf) : UInt8 := pt 0

def sysInd (pt : Buf) : UInt8 := pt 4

def start4 (pt : Buf) : Nat := getLe32 pt 8

def size4 (pt : Buf) : Nat := getLe32 pt 12

def entries (buffer : Buf) : List Buf := (List.range 4).map (fun i => tail buffer (0x1be + 16 * i))

/-- `is_extended(pt->sys_ind)` -/
def isExtended (pt : Buf) : Bool := sysInd pt == 0x5 || sysInd pt == 0xf || sysInd pt == 0x85

def isBootable (pt : Buf) : Bool := bootInd pt == 0x80

/-- The signature at `DOS_PART_MAGIC_OFFSET`. -/
def hasMagic (buffer : Buf) : Bool := buffer 0x1fe == 0x55 && buffer 0x1ff == 0xaa

inductive BlockType
  | mbr | pbr
deriving DecidableEq

/-- `test_block_type`; `none` for -1. The loop over the slots looks at the first entry each time. -/
def testBlockType (buffer : Buf) : Option BlockType :=
  let p := tail buffer 0x1be
  if !hasMagic buffer then none
  else if bootInd p ≠ 0 ∧ bootInd p ≠ 0x80 then
    if startsWith buffer 0x36 (cstr "FAT") || startsWith buffer 0x52 (cstr "FAT32") then some .pbr else none
  else some .mbr

/-- An entry that the numbers count: in the MBR each, and behind it those that are in use and not extended. -/
def counts (sector : Nat) (pt : Buf) : Bool := sector == 0 || (sysInd pt != 0 && !isExtended pt)

/-- The first loop of `part_get_info_extended`: the entry with the number `whichPart`, or the number that comes
behind the last entry. -/
def findEntry (sector : Nat) (whichPart : Int) : List Buf → Nat → Buf ⊕ Nat
  | [], partNum => .inr partNum
  | pt :: rest, partNum =>
    if bootInd pt &&& ~~~0x80 = 0 ∧ sysInd pt ≠ 0 ∧ (partNum : Int) = whichPart ∧ isExtended pt = false then .inl pt
    else findEntry sector whichPart rest (if counts sector pt then partNum + 1 else partNum)

/-- What `part_get_info_extended` stores for an entry that it has found. -/
def entryInfo (dev : BlkDesc) (sector disksig : Nat) (whichPart : Int) (pt : Buf) : DiskPartition where
  start := w32 (sector + start4 pt)
  size := size4 pt
  blksz := 512
  name := partSetGenericName dev whichPart.toNat
  type := cstr "U-Boot"
  bootable := isBootable pt
  uuid := hexText8 disksig ++ [45] ++ hexText2 whichPart.toNat
  sysInd := sysInd pt

/-- Where the record lies that an extended entry leads to, and what its own links are relative to. -/
def follow (sector relative : Nat) (pt : Buf) : Nat × Nat :=
  let lbaStart := w32 (start4 pt + relative)
  (lbaStart, if sector = 0 then lbaStart else relative)

/-- `part_get_info_extended`: false for -1. The code puts no bound on the depth of its recursion; `none` is for a
call that goes deeper than `depth`. -/
def partGetInfoExtended (dev : BlkDesc) (whichPart : Int) :
    Nat → Nat × Nat → Nat → DiskPartition → Nat → Option (Bool × DiskPartition)
  | 0, _, _, _, _ => none
  | depth + 1, (sector, relative), partNum, info, disksig =>
    match dev.read sector with
    | none => some (false, info)
    | some buffer =>
      if !hasMagic buffer then some (false, info)
      else
        let disksig := if sector = 0 then getLe32 buffer 0x1b8 else disksig
        match findEntry sector whichPart (entries buffer) partNum with
        | .inl pt => some (true, entryInfo dev sector disksig whichPart pt)
        | .inr partNum =>
          match (entries buffer).find? isExtended with
          | some pt => partGetInfoExtended dev whichPart depth (follow sector relative pt) partNum info disksig
          | none =>
            if testBlockType buffer = some .pbr then
              some (true, { info with
                start := 0, size := dev.lba, blksz := 512, bootable := false, type := cstr "U-Boot", uuid := [] })
            else some (false, info)

def partGetInfoDos (dev : BlkDesc) (depth : Nat) (part : Int) (info : DiskPartition) : Option (Bool × DiskPartition) :=
  partGetInfoExtended dev part depth (0, 0) 1 info 0

/-- A line of output, by the arguments of its `printf`. -/
inductive Line
  | part (partNum lbaStart lbaSize disksig : Nat) (sysInd : UInt8) (extd boot : Bool)
  | cantRead (devnum sector : Nat)
  | badSignature (first second : UInt8)

def printOnePart (pt : Buf) (extPartSector partNum disksig : Nat) : Line :=
  .part partNum (w32 (extPartSector + start4 pt)) (size4 pt) disksig (sysInd pt) (isExtended pt) (isBootable pt)

/-- The first loop of `print_partition_extended`. -/
def printEntries (sector disksig : Nat) : List Buf → Nat → List Line × Nat
  | [], partNum => ([], partNum)
  | pt :: rest, partNum =>
    let shown := sysInd pt ≠ 0 ∧ (sector = 0 ∨ isExtended pt = false)
    let (lines, last) := printEntries sector disksig rest (if counts sector pt then partNum + 1 else partNum)
    ((if shown then [printOnePart pt sector partNum disksig] else []) ++ lines, last)

/-- `print_partition_extended`, to a depth as above. -/
def printPartitionExtended (dev : BlkDesc) : Nat → Nat × Nat → Nat → Nat → Option (List Line)
  | 0, _, _, _ => none
  | depth + 1, (sector, relative), partNum, disksig =>
    match dev.read sector with
    | none => some [.cantRead dev.devnum sector]
    | some buffer =>
      if testBlockType buffer ≠ some .mbr then some [.badSignature (buffer 0x1fe) (buffer 0x1ff)]
      else do
        let disksig := if sector = 0 then getLe32 buffer 0x1b8 else disksig
        let (lines, partNum) := printEntries sector disksig (entries buffer) partNum
        let further ← ((entries buffer).filter isExtended).mapM
          (fun pt => printPartitionExtended dev depth (follow sector relative pt) partNum disksig)
        pure (lines ++ further.flatten)

/-- The listing of `part_print_dos`. -/
def partPrintDos (dev : BlkDesc) (depth : Nat) : Option (List Line) := printPartitionExtended dev depth (0, 0) 1 0

end UuuFastboot.Dos
