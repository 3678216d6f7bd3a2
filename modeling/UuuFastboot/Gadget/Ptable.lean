import UuuFastboot.Gadget.Env

namespace UuuFastboot

open Word CString

/-- `fastboot_devinfo.type`; `unset` is its initial 0xff. -/
inductive DevType where
  | sata
  | mmc
  | unset
  deriving DecidableEq, Repr

structure DevInfo where
  type : DevType
  devId : Nat
  deriving DecidableEq, Repr

/-- `struct fastboot_ptentry` without the file system type and the uuid,
which only `getvar` shows. No partition id is FASTBOOT_MMC_NONE_PARTITION_ID. -/
structure PtEntry where
  name : CStr
  start : Nat
  length : Nat
  flags : Nat
  partitionId : Option Nat
  partitionIndex : Nat
  deriving DecidableEq, Repr

def flagWriteEnv : Nat := 0x400

def flagUneraseable : Nat := 0x800

def maxPtn : Nat := 32

def fastbootFlashFindPtn (ptable : List PtEntry) (name : CStr) : Option PtEntry :=
  ptable.find? (fun ptn => ptn.name == name)

/-- `_fastboot_setup_dev`: the device that the environment names, if it
names one. `dev_id` is an unsigned char. -/
def fastbootSetupDev (env : Env) : Option DevInfo :=
  match env (cstr "fastboot_dev") with
  | none => none
  | some dev =>
    if dev = cstr "sata" then some ⟨.sata, 0⟩
    else if (cstr "mmc").isPrefixOf dev then
      match env (cstr "mmcdev") with
      | none => some ⟨.mmc, 1⟩
      | some mmcdev => some ⟨.mmc, simpleStrtoul mmcdev 0 % 2 ^ 8⟩
    else none

/-- `disk_partition_t` as far as the table uses it. -/
structure DiskPartition where
  name : CStr
  start : Nat
  size : Nat
  deriving DecidableEq, Repr

/-- The fixed entries of the table, in front of those of the disk: GPT,
Trusty OS, the whole device and the boot loader, for 512-byte blocks. -/
def fixedEntries (emmc : Bool) (lba : Nat) : List PtEntry :=
  let bootPartition := if emmc then some 1 else none
  let userPartition := if emmc then some 0 else none
  [⟨cstr "gpt", 0, 0x100000 / 512, flagUneraseable, userPartition, 0⟩,
   ⟨cstr "tos", 0, 0x7FF, 0, some 2, 0⟩,
   ⟨cstr "all", 0, lba, 0, userPartition, 0⟩,
   ⟨cstr "bootloader", 0x400 / 512, 0x1FFC00 / 512, flagUneraseable, bootPartition, 0⟩]

/-- `_fastboot_parts_add_ptable_entry`; the name field holds 19 bytes. -/
def diskEntry (emmc : Bool) (index : Nat) (info : DiskPartition) : PtEntry :=
  ⟨info.name.take 19, info.start, info.size, 0, if emmc then some 0 else none, index⟩

/-- The entries of the disk from partition `index` on, up to the first
partition that is not there, and as long as the table has room. -/
def diskEntries (emmc : Bool) (partGetInfo : Nat → Option DiskPartition) : Nat → Nat → List PtEntry
  | 0, _ => []
  | room + 1, index =>
    match partGetInfo index with
    | none => []
    | some info => diskEntry emmc index info :: diskEntries emmc partGetInfo room (index + 1)

/-- The table that `_fastboot_parts_load_from_ptable` adds for a card. -/
def ptableOf (emmc : Bool) (lba : Nat) (partGetInfo : Nat → Option DiskPartition) : List PtEntry :=
  fixedEntries emmc lba ++ diskEntries emmc partGetInfo (maxPtn - 4) 1

end UuuFastboot
