import UuuFastboot.Gadget.TransferBuffer
import UuuFastboot.Flash.Response

namespace UuuFastboot

open Word CString Relation

section

variable {σ : Type}

/-- The table that `_fastboot_load_partitions` would build now. -/
def loadedTable (b : Board σ) (d : DevInfo) (st : σ) : List PtEntry :=
  if (b.load d st).1 then b.tableOf d st else []

/-- The table in memory is the one that the device would give now. -/
def TableCurrent (b : Board σ) (s : Session σ) : Prop := s.ptable = loadedTable b s.devinfo s.world.storage

/-- What the packet at hand flashes or erases, as it leaves the storage. -/
def storedBy (b : Board σ) (s : Session σ) (e : Event) : Option σ :=
  match calledCb s e with
  | some (.flash, s₁) => (splitArg s₁.reqBuf).1.map (fun cmd => (b.flash (flashRequest s₁ cmd) s₁.world.storage).2)
  | some (.erase, s₁) => (splitArg s₁.reqBuf).1.map (fun cmd => (b.erase (flashRequest s₁ cmd) s₁.world.storage).2)
  | _ => none

/-- The other device that `fastboot_setup` switches to. -/
def switchedTo (b : Board σ) (d : DevInfo) (env : Env) : Option DevInfo :=
  (fastbootSetupDev (boardFastbootSetup b env)).filter (· ≠ d)

def Repeatable (b : Board σ) (d : DevInfo) (st : σ) : Prop :=
  loadedTable b d (b.load d st).2 = loadedTable b d st

def SameTable (b : Board σ) (d : DevInfo) (st st' : σ) : Prop := loadedTable b d st' = loadedTable b d st

/-- A direct command keeps the table of the device, unless it switches to
another one, whose table can then be read. -/
def DirectKeeps (b : Board σ) (s : Session σ) (cmd : CStr) : Prop :=
  let out := b.runCommand cmd s.world
  match if out.1 then switchedTo b s.devinfo out.2.env else none with
  | some d => Repeatable b d out.2.storage
  | none => SameTable b s.devinfo s.world.storage out.2.storage

/-- What an event does keeps the table of the device in use. -/
structure TableKept (b : Board σ) (x : Session σ × Transfer) (e : Event) : Prop where
  direct : ∀ cmd, directCommand x.1 e = some cmd → DirectKeeps b x.1 cmd
  deferred : ∀ cmd, deferredCommand x.1 e = some cmd →
    SameTable b x.1.devinfo x.1.world.storage (b.runCommand cmd x.1.world).2.storage
  stored : ∀ st, storedBy b x.1 e = some st → SameTable b x.1.devinfo x.1.world.storage st

theorem TableCurrent.of_same {b : Board σ} {s s' : Session σ} (current : TableCurrent b s)
    (devinfo : s'.devinfo = s.devinfo) (ptable : s'.ptable = s.ptable)
    (table : SameTable b s.devinfo s.world.storage s'.world.storage) : TableCurrent b s' := by
  unfold TableCurrent
  rw [ptable, devinfo, table]
  exact current

theorem SameSetting.tableCurrent {b : Board σ} {s s' : Session σ} (same : SameSetting s s')
    (current : TableCurrent b s) : TableCurrent b s' := by
  refine current.of_same same.devinfo same.ptable ?_
  rw [SameTable, same.world]

theorem fastbootSetup_table (b : Board σ) (s : Session σ) :
    (switchedTo b s.devinfo s.world.env = none ∧ (fastbootSetup b s).devinfo = s.devinfo ∧
        (fastbootSetup b s).ptable = s.ptable ∧ (fastbootSetup b s).world.storage = s.world.storage) ∨
      ∃ d, switchedTo b s.devinfo s.world.env = some d ∧ (fastbootSetup b s).devinfo = d ∧
        (fastbootSetup b s).ptable = loadedTable b d s.world.storage ∧
        (fastbootSetup b s).world.storage = (b.load d s.world.storage).2 := by
  unfold fastbootSetup switchedTo
  dsimp only
  generalize fastbootSetupDev (boardFastbootSetup b s.world.env) = named
  cases named with
  | none => exact Or.inl ⟨rfl, rfl, rfl, rfl⟩
  | some d =>
    by_cases same : d = s.devinfo
    · exact Or.inl (by simp [same])
    · exact Or.inr ⟨d, by simp [same, fastbootLoadPartitions, loadedTable]⟩

theorem cbRunUbootCmd_tableCurrent {b : Board σ} {s : Session σ} (current : TableCurrent b s)
    (keeps : ∀ cmd, (splitArg s.reqBuf).1 = some cmd → DirectKeeps b s cmd) : TableCurrent b (cbRunUbootCmd b s) := by
  unfold cbRunUbootCmd
  dsimp only
  split
  · refine current.of_same ?_ ?_ ?_ <;> simp only [SameTable, txWriteStr_eq]
  · rename_i cmd given
    have kept := keeps cmd given
    unfold DirectKeeps at kept
    dsimp only at kept
    split
    · rename_i success
      rw [if_pos success] at kept
      have setup := fastbootSetup_table b
        (txWriteStr b { s with reqBuf := (splitArg s.reqBuf).2, world := (b.runCommand cmd s.world).2 } (cstr "OKAY"))
      simp only [txWriteStr_eq] at setup
      rcases setup with ⟨stays, devinfo, ptable, storage⟩ | ⟨d, switched, devinfo, ptable, storage⟩
      · rw [stays] at kept
        refine current.of_same ?_ ?_ ?_
        · simpa only [txWriteStr_eq] using devinfo
        · simpa only [txWriteStr_eq] using ptable
        · simp only [txWriteStr_eq, storage]
          exact kept
      · rw [switched] at kept
        unfold TableCurrent
        simp only [txWriteStr_eq, devinfo, ptable, storage]
        exact kept.symm
    · rename_i failed
      rw [if_neg failed] at kept
      refine current.of_same ?_ ?_ ?_
      · simp only [txWriteStr_eq]
      · simp only [txWriteStr_eq]
      · simp only [txWriteStr_eq]
        exact kept

theorem cbStorage_tableCurrent {b : Board σ} {op : FlashRequest → σ → CStr × σ} {s : Session σ}
    (current : TableCurrent b s)
    (keeps : ∀ cmd, (splitArg s.reqBuf).1 = some cmd →
      SameTable b s.devinfo s.world.storage (op (flashRequest s cmd) s.world.storage).2) :
    TableCurrent b (cbStorage b op s) := by
  unfold cbStorage
  dsimp only
  split
  · refine current.of_same ?_ ?_ ?_ <;> simp only [SameTable, txWriteStr_eq]
  · rename_i cmd given
    refine current.of_same ?_ ?_ ?_
    · simp only [txWriteStr_eq]
    · simp only [txWriteStr_eq]
    · simp only [txWriteStr_eq]
      exact keeps cmd given

theorem runCb_sameTable (b : Board σ) (s : Session σ) {cb : CmdCb} (noCommand : cb ≠ .runUbootCmd)
    (noFlash : cb ≠ .flash) (noErase : cb ≠ .erase) :
    (runCb b s cb).devinfo = s.devinfo ∧ (runCb b s cb).ptable = s.ptable ∧
      (runCb b s cb).world.storage = s.world.storage := by
  cases cb with
  | runUbootCmd => exact absurd rfl noCommand
  | flash => exact absurd rfl noFlash
  | erase => exact absurd rfl noErase
  | upload =>
    simp only [runCb, cbUpload]
    split
    · simp only [txWriteStr_eq, and_self]
    · split <;> simp only [txWriteStr_eq, and_self]
  | download =>
    simp only [runCb, cbDownload]
    split
    · simp only [txWriteStr_eq, and_self]
    · split <;> simp only [txWriteStr_eq, and_self]
  | runUbootAcmd =>
    simp only [runCb, cbRunUbootAcmd]
    split
    · simp only [txWriteStr_eq, and_self]
    · split <;> simp only [txWriteStr_eq, and_self]
  | _ => simp only [runCb, cbDeferred, cbGetvar, txWriteStr_eq, and_self]

theorem rxHandlerDlImage_sameTable (b : Board σ) (s : Session σ) (ok : Bool) (actual : Nat) :
    (rxHandlerDlImage b s ok actual).devinfo = s.devinfo ∧ (rxHandlerDlImage b s ok actual).ptable = s.ptable ∧
      (rxHandlerDlImage b s ok actual).world.storage = s.world.storage := by
  unfold rxHandlerDlImage
  dsimp only
  split
  · exact ⟨rfl, rfl, rfl⟩
  · generalize (if actual < w32 (s.downloadSize + (2 ^ 32 - s.downloadBytes)) then actual
      else w32 (s.downloadSize + (2 ^ 32 - s.downloadBytes))) = transferSize
    split
    · simp only [txWriteStr_eq, and_self]
    · exact ⟨rfl, rfl, rfl⟩

theorem TableCurrent.next {b : Board σ} {x y : Session σ × Transfer} (current : TableCurrent b x.1)
    (next : Next b (TableKept b) x y) : TableCurrent b y.1 := by
  obtain ⟨e, kept, run, -⟩ := next
  rcases step_cases run with same | ⟨cb, s₁, called, after⟩ | ⟨ok, packet, -, -, result⟩ | ⟨cmd, given, after⟩
  · exact same.tableCurrent current
  · have setting := calledCb_setting called
    have before : TableCurrent b s₁ := setting.tableCurrent current
    refine after.tableCurrent ?_
    have direct : cb = .runUbootCmd → ∀ cmd, (splitArg s₁.reqBuf).1 = some cmd → DirectKeeps b s₁ cmd := by
      rintro rfl cmd given
      have keeps := kept.direct cmd (by rw [directCommand, called]; exact given)
      unfold DirectKeeps at keeps ⊢
      rw [setting.world, setting.devinfo]
      exact keeps
    have stored : ∀ st, storedBy b x.1 e = some st → SameTable b s₁.devinfo s₁.world.storage st := by
      intro st result
      rw [setting.world, setting.devinfo]
      exact kept.stored st result
    unfold storedBy at stored
    rw [called] at stored
    by_cases command : cb = .runUbootCmd
    · subst command
      exact cbRunUbootCmd_tableCurrent before (direct rfl)
    by_cases flash : cb = .flash
    · subst flash
      exact cbStorage_tableCurrent before (fun cmd given => stored _ (by simp only [given, Option.map_some]))
    by_cases erase : cb = .erase
    · subst erase
      exact cbStorage_tableCurrent before (fun cmd given => stored _ (by simp only [given, Option.map_some]))
    obtain ⟨devinfo, ptable, storage⟩ := runCb_sameTable b s₁ command flash erase
    exact before.of_same devinfo ptable (by rw [SameTable, storage])
  · obtain ⟨devinfo, ptable, storage⟩ := rxHandlerDlImage_sameTable b
      { x.1 with reqBuf := receive x.1.reqBuf packet, outQueued := false } ok packet.length
    rw [result]
    exact current.of_same devinfo ptable (by rw [SameTable, storage])
  · exact current.of_same after.devinfo after.ptable (by rw [SameTable, after.world]; exact kept.deferred cmd given)

theorem initial_tableCurrent {b : Board σ} {world : World σ} (unset : ∀ st, (b.load ⟨.unset, 0xff⟩ st).1 = false)
    (startup : ∀ d, Repeatable b d world.storage) : TableCurrent b (initial b world) := by
  unfold initial fastbootSetAlt
  rcases fastbootSetup_table b (powerOn world) with ⟨-, devinfo, ptable, -⟩ | ⟨d, -, devinfo, ptable, storage⟩
  · unfold TableCurrent loadedTable
    dsimp only
    rw [devinfo, ptable]
    simp only [powerOn, unset, Bool.false_eq_true, if_false]
  · unfold TableCurrent
    dsimp only
    rw [devinfo, ptable, storage]
    exact (startup d).symm

/-- In every run in which no command, flash or erase changes the partition
table of the device in use, and in which the table of a device can be read
when it comes into use, the table in memory is the one on the device. -/
theorem ptable_current (b : Board σ) (world : World σ) (x : Session σ × Transfer)
    (unset : ∀ st, (b.load ⟨.unset, 0xff⟩ st).1 = false) (startup : ∀ d, Repeatable b d world.storage)
    (reach : Reaches b world (TableKept b) x) :
    x.1.ptable = loadedTable b x.1.devinfo x.1.world.storage :=
  reach.invariant (I := fun x => TableCurrent b x.1) (initial_tableCurrent unset startup)
    (fun _ _ current next => current.next next)

end

/-- The small board with commands that do nothing and one SD card. -/
def tableBoard : Board Unit :=
  { quietBoard with
    tableOf := fun _ _ => ptableOf false 8192 (fun _ => none)
    load := fun d s => (d.type == .mmc, s) }

def mmcEnv : Env := setenv (fun _ => none) (cstr "fastboot_dev") (cstr "mmc")

theorem ptable_current_flash :
    (runEvents tableBoard (initial tableBoard ⟨mmcEnv, fun _ => 0, ()⟩, ⟨[], []⟩)
      [.out true (cstr "flash:all")]).1.ptable = ptableOf false 8192 (fun _ => none) := by
  have reach : Reaches tableBoard ⟨mmcEnv, fun _ => 0, ()⟩ (TableKept tableBoard)
      (runEvents tableBoard (initial tableBoard ⟨mmcEnv, fun _ => 0, ()⟩, ⟨[], []⟩) [.out true (cstr "flash:all")]) := by
    refine reaches_runEvents _ (fun x e _ => ⟨fun cmd _ => ?_, fun _ _ => rfl, fun _ _ => rfl⟩)
    unfold DirectKeeps
    dsimp only
    split <;> rfl
  exact ptable_current tableBoard ⟨mmcEnv, fun _ => 0, ()⟩ _ (fun _ => rfl) (fun _ => rfl) reach

/-- A load of the partitions: the card starts over, whether it can or not,
and is opened. -/
def mmcLoad (init : InitOutcome) (blkDev : SelectOutcome) (d : DevInfo) (st : Storage) : Bool × Storage :=
  match d.type with
  | .mmc =>
    let started := (st.withCard d.devId (fun c => Card.mmcInit init { c with hasInit := false })).2
    started.blkGetDev blkDev d.devId
  | _ => (false, st)

def mmcTableOf (reader : PartReader) (d : DevInfo) (st : Storage) : List PtEntry :=
  match st.card d.devId with
  | some c => ptableOf c.emmc (c.lba 0) (reader c)
  | none => []

/-- A board with MMC cards that do all they are asked for. -/
def mmcBoard (reader : PartReader) (gpt : Mem → Card → GptImage) (erase : FlashRequest → Storage → CStr × Storage)
    (runCommand : CStr → World Storage → Bool × World Storage) : Board Storage where
  maxpacket := 512
  runCommand := runCommand
  tableOf := mmcTableOf reader
  load := mmcLoad noFailure.cardInit noFailure.blkDev
  flash q st :=
    let r := flashCommand reader gpt noFailure q st
    (r.response.getD [], r.storage)
  erase := erase
  getvar _ _ := cstr "OKAY"
  boardDefaults := []
  nullText := []
  maxpacket_mem := Board.highSpeed_mem
  boardDefaults_ne := Board.noDefaults_ne

/-- A little-endian word of the user area. -/
def Card.word (c : Card) (a : Nat) : Nat :=
  ((c.contents 0 a).getD 0).toNat + 2 ^ 8 * ((c.contents 0 (a + 1)).getD 0).toNat +
    2 ^ 16 * ((c.contents 0 (a + 2)).getD 0).toNat + 2 ^ 24 * ((c.contents 0 (a + 3)).getD 0).toNat

/-- `part_get_info_dos` on device 1, for a disk without extended partitions. -/
def primaryPartGetInfo (c : Card) (part : Nat) : Option DiskPartition :=
  let entry := 0x1be + 16 * (part - 1)
  if c.contents 0 510 = some 0x55 ∧ c.contents 0 511 = some 0xaa ∧ 1 ≤ part ∧ part ≤ 4 ∧
      c.contents 0 (entry + 4) ≠ some 0 then
    some ⟨cstr "mmcsdb" ++ [48 + UInt8.ofNat part], c.word (entry + 8), c.word (entry + 12)⟩
  else none

def mbrBytes (start : UInt8) (a : Nat) : UInt8 :=
  if a = 0x1be + 4 then 0x83
  else if a = 0x1be + 8 then start
  else if a = 0x1be + 12 then 16
  else if a = 510 then 0x55
  else if a = 511 then 0xaa
  else 0

def mbrStorage : Storage where
  card dev := if dev = 1 then some { sdCard with contents := fun _ a => some (mbrBytes 100 a) } else none
  currDevice := 1

def mbrBoard : Board Storage :=
  mmcBoard primaryPartGetInfo (fun _ _ => ⟨false, 0, fun _ => none, fun _ => none⟩) (fun _ st => (cstr "OKAY", st))
    (fun _ w => (true, w))

/-- The download of an MBR that moves the partition to block 200, and
`flash:all`. -/
def moveEvents : List Event :=
  [.out true (cstr "download:00000200"), .out true ((List.range 512).map (mbrBytes 200)),
   .out true (cstr "flash:all")]

/-- After `flash:all` the table in memory still places the partition where it
was. -/
theorem ptable_stale :
    ∃ x, Reaches mbrBoard ⟨mmcEnv, fun _ => 0, mbrStorage⟩ (fun _ _ => True) x ∧
      x.1.ptable ≠ loadedTable mbrBoard x.1.devinfo x.1.world.storage ∧
      (fastbootFlashFindPtn x.1.ptable (cstr "mmcsdb1")).map PtEntry.start = some 100 ∧
      (fastbootFlashFindPtn (loadedTable mbrBoard x.1.devinfo x.1.world.storage) (cstr "mmcsdb1")).map
        PtEntry.start = some 200 := by
  refine ⟨_, reaches_runEvents moveEvents (fun _ _ _ => trivial), ?_⟩
  decide +kernel

end UuuFastboot
