import UuuFastboot.Mmc.Card
import UuuFastboot.Sparse.Reference
import UuuFastboot.Gadget.Session

namespace UuuFastboot

open Word CString

/-- `part_get_info` on the user area of a card. -/
abbrev PartReader := Card → Nat → Option DiskPartition

/-- The parts of a flash command that can fail. -/
inductive FlashStep where
  | targetInit
  | saveEnv
  | cardInit
  | blkDev
  | partInfo
  | sparseWrite
  | sparseImage
  | deviceSelect
  | mmcWrite
  | backupGpt
  | rescan
  deriving DecidableEq, Repr

/-- How a call of `mmc_sparse_write` goes. A buffer off the cache line is
written in pieces, and after a piece that fails the next ones are still
written: any blocks may be stored, and `reported` are counted. -/
structure SparseWriteOutcome where
  write : WriteOutcome
  reported : Nat

/-- How the parts of one flash command go, as far as they depend on the
hardware and on the heap. `saveenv_to_ptn` is taken as a whole, with its error. -/
structure FlashOutcome where
  targetInit : InitOutcome
  saveEnv : Storage → Option CStr × Storage
  cardInit : InitOutcome
  blkDev : SelectOutcome
  sparseWrite : Nat → SparseWriteOutcome
  alloc : Nat → Bool
  deviceSelect : SelectOutcome
  mmcWrite : MmcWriteOutcome
  backupDev : SelectOutcome
  backupMbr : WriteOutcome
  backupEntries : WriteOutcome
  backupHeader : WriteOutcome
  rescan : SelectOutcome

/-- A flash command on its way: the storage, the response so far, `none` once
the command can no longer answer, and the parts done so far. -/
structure FlashRun where
  storage : Storage
  response : Option CStr
  steps : List (FlashStep × Bool)

def fastbootFail (reason : CStr) : CStr := cstr "FAIL" ++ reason

def fastbootOkay : CStr := cstr "OKAY"

/-- A part of the command, with its effect on the storage. -/
def FlashRun.perform (r : FlashRun) (part : FlashStep) (op : Storage → Bool × Storage) : Bool × FlashRun :=
  let out := op r.storage
  (out.1, { r with storage := out.2, steps := r.steps ++ [(part, out.1)] })

def FlashRun.answer (r : FlashRun) (ok : Bool) (reason : String) : FlashRun :=
  { r with response := some (if ok then fastbootOkay else fastbootFail (cstr reason)) }

def isRawPartition (ptn : PtEntry) : Bool :=
  (cstr "bootloader").isPrefixOf ptn.name || (cstr "boot").isPrefixOf ptn.name ||
    (cstr "misc").isPrefixOf ptn.name

/-- `strncmp(ptn->name, "gpt", 3) == 0` -/
def isGpt (ptn : PtEntry) : Bool := (cstr "gpt").isPrefixOf ptn.name

/-- `strncmp(ptn->name, FASTBOOT_PARTITION_ALL, strlen(..)) == 0` -/
def isAll (ptn : PtEntry) : Bool := (cstr "all").isPrefixOf ptn.name

/-- `bootloader_gpt_overlay`: the boot loader always starts in front of the
end of the GPT. -/
def bootloaderGptOverlay (ptable : List PtEntry) : Bool :=
  ptable[0]?.map PtEntry.partitionId == ptable[3]?.map PtEntry.partitionId

/-- The value of `target_ubootdev`, which counts for the boot loader only. -/
def targetUbootdev (env : Env) (ptn : PtEntry) : Option CStr :=
  if ptn.name = cstr "bootloader" then env (cstr "target_ubootdev") else none

def getFastbootTargetDev (o : FlashOutcome) (q : FlashRequest) (ptn : PtEntry) (r : FlashRun) :
    Option MmcDev × FlashRun :=
  match targetUbootdev q.env ptn with
  | none => (some ⟨q.devinfo.devId, ptn.partitionId⟩, r)
  | some text =>
    let dev := simpleStrtoul text 10
    let init := r.perform .targetInit (fun st => st.withCard dev (Card.mmcInit o.targetInit))
    if init.1 then
      (some ⟨dev, if ((r.storage.card dev).map Card.emmc).getD false then some 1 else none⟩, init.2)
    else (none, init.2)

/-- The card that a sparse image is written to, with the outcomes of the
calls to come and the results of those done. -/
structure SparseTarget where
  card : Card
  results : List Bool

def mmcSparseWrite (o : Nat → SparseWriteOutcome) (t : SparseTarget) (blk cnt : Nat) (src : Nat → Cell) :
    Nat × SparseTarget :=
  let call := o t.results.length
  if cnt = 0 ∨ (call.write.ok ∧ blk + cnt ≤ t.card.lba t.card.hwpart) then
    (cnt, ⟨t.card.store blk cnt (fun _ => true) src, t.results ++ [true]⟩)
  else (min call.reported (cnt - 1), ⟨t.card.store blk cnt call.write.stored src, t.results ++ [false]⟩)

/-- The `struct sparse_storage` of a partition of a card. -/
def sparseStorage (o : Nat → SparseWriteOutcome) (start size : Nat) : SparseStorage SparseTarget where
  blksz := 512
  start := w32 start
  size := w32 size
  blksz_lt := sector_lt_word
  start_lt := w32_lt _
  size_lt := w32_lt _
  write := mmcSparseWrite o
  reserve := mmcSparseReserve

def FlashRequest.image (q : FlashRequest) : Mem := fun i => q.mem (w32 (q.transferBuffer + i))

/-- More rounds than a FILL loop over 512-byte blocks ever needs. -/
def sparseFuel : Nat := 2 ^ 32

/-- The partition that a sparse image is written to: the whole device, or
what the partition table on the device says now. -/
def sparseRange (reader : PartReader) (ptn : PtEntry) (c : Card) : Option (Nat × Nat) :=
  if isAll ptn then some (0, c.lba c.hwpart)
  else (reader c ptn.partitionIndex).map (fun info => (info.start, info.size))

def sparseImageRun (o : FlashOutcome) (q : FlashRequest) (range : Nat × Nat) (c : Card) :
    SparseCursor SparseTarget × SparseEnd :=
  writeSparseImage (sparseStorage o.sparseWrite range.1 range.2) q.image o.alloc sparseFuel ⟨c, []⟩

/-- What `write_sparse_image` leaves in the response. -/
def sparseResponse : SparseEnd → Option CStr
  | .okay => some fastbootOkay
  | .stopped (.fail reason) => some (fastbootFail (cstr reason))
  | .stopped _ => none

/-- `write_sparse_image` on the card `dev`. -/
def writeSparse (o : FlashOutcome) (q : FlashRequest) (dev : Nat) (range : Nat × Nat) (c : Card) (r : FlashRun) :
    FlashRun :=
  let out := sparseImageRun o q range c
  { storage := r.storage.put dev out.1.dev.card
    response := sparseResponse out.2
    steps := r.steps ++ out.1.dev.results.map (fun ok => (.sparseWrite, ok)) ++ [(.sparseImage, out.2 == .okay)] }

/-- The sparse branch of `process_flash_mmc`. The first `mmc_init` may fail:
`blk_get_dev` tries again. -/
def flashSparse (reader : PartReader) (o : FlashOutcome) (q : FlashRequest) (ptn : PtEntry) (r : FlashRun) :
    FlashRun :=
  let dev := q.devinfo.devId
  let init := r.perform .cardInit (fun st => st.withCard dev (Card.mmcInit o.cardInit))
  let blk := init.2.perform .blkDev (fun st => st.blkGetDev o.blkDev dev)
  match blk.1, blk.2.storage.card dev with
  | true, some c =>
    match sparseRange reader ptn c with
    | none => { blk.2 with steps := blk.2.steps ++ [(.partInfo, false)] }
    | some range => writeSparse o q dev range c { blk.2 with steps := blk.2.steps ++ [(.partInfo, true)] }
  | _, _ => blk.2

/-- Device select and `mmc write`, each with its own response. -/
def flashBlocks (o : FlashOutcome) (q : FlashRequest) (ptn : PtEntry) (target : MmcDev) (cnt : Nat) (r : FlashRun) :
    FlashRun :=
  let select := r.perform .deviceSelect (fun st => st.mmcDev o.deviceSelect target)
  let r := select.2.answer select.1 "Init of MMC card failed"
  let write := r.perform .mmcWrite (fun st => st.mmcWrite o.mmcWrite ptn.start cnt (fun i => some (q.image i)))
  write.2.answer write.1 "Write partition failed"

/-- `ANDROID_GPT_END` in blocks. -/
def androidGptBlocks : Nat := (0x4400 + 512 - 1) / 512

/-- What is known of the GPT image in the buffer: whether it is valid for the
device, and the entries and the header of the backup made from it. -/
structure GptImage where
  valid : Bool
  entryBlocks : Nat
  entries : Nat → Cell
  header : Nat → Cell

/-- `write_backup_gpt_partitions`: the protective MBR, the entries 33 blocks
in front of the end, and the header in the last block. -/
def writeBackupGptPartitions (o : FlashOutcome) (g : GptImage) (mbr : Nat → Cell) (c : Card) : Bool × Card :=
  let lba := c.lba c.hwpart
  if !g.valid then (false, c)
  else
    let first := c.blkDwrite o.backupMbr 0 1 mbr
    if first.1 ≠ 1 then (false, first.2)
    else
      let entries := first.2.blkDwrite o.backupEntries (w32 (lba + (2 ^ 32 - 33))) g.entryBlocks g.entries
      if entries.1 ≠ g.entryBlocks then (false, entries.2)
      else
        let header := entries.2.blkDwrite o.backupHeader (w32 (lba + (2 ^ 32 - 1))) 1 g.header
        (header.1 == 1, header.2)

/-- `write_backup_gpt`. A failure of `blk_get_dev` is not looked at: the null
pointer is used, and nothing is known of what follows. -/
def writeBackupGpt (gpt : Mem → Card → GptImage) (o : FlashOutcome) (q : FlashRequest) (st : Storage) :
    Option (Bool × Storage) :=
  let dev := q.devinfo.devId
  match st.card dev with
  | none => some (false, st)
  | some _ =>
    let blk := st.blkGetDev o.backupDev dev
    if blk.1 then
      some (blk.2.withCard dev (fun c =>
        writeBackupGptPartitions o (gpt q.image c) (fun i => some (q.image i)) c))
    else none

/-- The backup GPT with its response, and the scan of the device after it. -/
def flashBackupGpt (gpt : Mem → Card → GptImage) (o : FlashOutcome) (q : FlashRequest) (target : MmcDev)
    (r : FlashRun) : FlashRun :=
  match writeBackupGpt gpt o q r.storage with
  | none => { r with response := none, steps := r.steps ++ [(.backupGpt, false)] }
  | some out =>
    let backup := r.perform .backupGpt (fun _ => out)
    let r := backup.2.answer backup.1 "write backup GPT image fail"
    (r.perform .rescan (fun st => st.mmcDev o.rescan target)).2

/-- The raw branch of `process_flash_mmc`. -/
def flashRaw (gpt : Mem → Card → GptImage) (o : FlashOutcome) (q : FlashRequest) (ptn : PtEntry) (target : MmcDev)
    (r : FlashRun) : FlashRun :=
  if isGpt ptn then
    flashBackupGpt gpt o q target
      (if bootloaderGptOverlay q.ptable then r else flashBlocks o q ptn target androidGptBlocks r)
  else flashBlocks o q ptn target ((q.downloadBytes + 512 - 1) / 512) r

/-- The image goes to the partition `ptn`. -/
def flashPartition (reader : PartReader) (gpt : Mem → Card → GptImage) (o : FlashOutcome) (q : FlashRequest)
    (ptn : PtEntry) (r : FlashRun) : FlashRun :=
  let target := getFastbootTargetDev o q ptn r
  match target.1 with
  | none => target.2
  | some dev =>
    if !isRawPartition ptn && isSparseImage q.image then flashSparse reader o q ptn target.2
    else flashRaw gpt o q ptn dev target.2

def hasFlag (ptn : PtEntry) (flag : Nat) : Bool := ptn.flags &&& flag != 0

def processFlashMmc (reader : PartReader) (gpt : Mem → Card → GptImage) (o : FlashOutcome) (q : FlashRequest)
    (r : FlashRun) : FlashRun :=
  if q.downloadBytes = 0 then r.answer false "no image downloaded"
  else
    match fastbootFlashFindPtn q.ptable q.cmd with
    | none => r.answer false "partition does not exist"
    | some ptn =>
      if w32 (ptn.length * 512) < q.downloadBytes ∧ !hasFlag ptn flagWriteEnv then
        r.answer false "image too large for partition"
      else if hasFlag ptn flagWriteEnv then
        let out := o.saveEnv r.storage
        { storage := out.2
          response := some ((out.1.map fastbootFail).getD fastbootOkay)
          steps := r.steps ++ [(.saveEnv, out.1.isNone)] }
      else flashPartition reader gpt o q ptn r

/-- The response that `cb_flash` starts with. -/
def flashStart (st : Storage) : FlashRun := ⟨st, some (fastbootFail (cstr "no flash device defined")), []⟩

/-- `cb_flash` behind its argument check, with `rx_process_flash`. -/
def flashCommand (reader : PartReader) (gpt : Mem → Card → GptImage) (o : FlashOutcome) (q : FlashRequest)
    (st : Storage) : FlashRun :=
  match q.devinfo.type with
  | .mmc => processFlashMmc reader gpt o q (flashStart st)
  | _ => (flashStart st).answer false "failed to flash device"

end UuuFastboot
