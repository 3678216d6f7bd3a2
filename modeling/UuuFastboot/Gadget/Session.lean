import UuuFastboot.Gadget.Dispatch
import UuuFastboot.Gadget.Ptable

namespace UuuFastboot

open Word CString Radix Overlay

def epBufferSize : Nat := 4096

def fastbootBufAddr : Nat := 0x80200000

def fastbootBufSize : Nat := 0x7000000

/-- What U-Boot commands act on: the environment, memory, and storage of
some type `σ`. -/
structure World (σ : Type) where
  env : Env
  mem : Nat → UInt8
  storage : σ

/-- What `process_flash_mmc` and `process_erase_mmc` read. -/
structure FlashRequest where
  cmd : CStr
  env : Env
  mem : Nat → UInt8
  devinfo : DevInfo
  ptable : List PtEntry
  transferBuffer : Nat
  downloadBytes : Nat

/-- The parts of U-Boot around the gadget. `tableOf` is the table that the
contents of a device give, `load` says whether reading it succeeds; `nullText`
is the string found at address 0; `boardDefaults` are the variables that
`board_fastboot_setup` sets when they are missing. -/
structure Board (σ : Type) where
  maxpacket : Nat
  runCommand : CStr → World σ → Bool × World σ
  tableOf : DevInfo → σ → List PtEntry
  load : DevInfo → σ → Bool × σ
  flash : FlashRequest → σ → CStr × σ
  erase : FlashRequest → σ → CStr × σ
  getvar : CStr → World σ → CStr
  boardDefaults : List (CStr × CStr)
  nullText : CStr
  maxpacket_mem : maxpacket ∈ [64, 512, 1024]
  boardDefaults_ne : ∀ entry ∈ boardDefaults, entry.1 ≠ cstr "fastboot_buffer"

theorem Board.highSpeed_mem : 512 ∈ [64, 512, 1024] := by decide

theorem Board.noDefaults_ne : ∀ entry ∈ ([] : List (CStr × CStr)), entry.1 ≠ cstr "fastboot_buffer" := by decide

/-- The completion handler of the OUT request. -/
inductive RxHandler where
  | command
  | dlImage
  deriving DecidableEq, Repr

/-- The completion handler of the IN request. -/
inductive TxHandler where
  | fastbootComplete
  | doAcmdComplete
  | complDoReset
  | doBootmOnComplete
  | doExitOnComplete
  deriving DecidableEq, Repr

/-- The state of the gadget. A request is queued while the controller has
it. `alive` ends when the gadget detaches, resets or boots, and when a copy
runs over the end of its buffer. -/
structure Session (σ : Type) where
  world : World σ
  reqBuf : Nat → UInt8
  reqLength : Nat
  rxHandler : RxHandler
  outQueued : Bool
  txHandler : TxHandler
  inQueued : Bool
  response : CStr
  downloadSize : Nat
  downloadBytes : Nat
  aCmdBuff : CStr
  transferBuffer : Nat
  devinfo : DevInfo
  ptable : List PtEntry
  alive : Bool

variable {σ : Type}

/-- The download address that the environment gives. -/
def bufferAddr (env : Env) : Nat := getenvUlong env (cstr "fastboot_buffer") 16 fastbootBufAddr

def boardFastbootSetup (b : Board σ) (env : Env) : Env :=
  b.boardDefaults.foldl (fun env entry => if (env entry.1).isSome then env else setenv env entry.1 entry.2) env

/-- `_fastboot_load_partitions` for the device `d`. -/
def fastbootLoadPartitions (b : Board σ) (d : DevInfo) (s : Session σ) : Session σ :=
  let out := b.load d s.world.storage
  { s with
    world := { s.world with storage := out.2 }
    ptable := if out.1 then b.tableOf d s.world.storage else [] }

/-- `fastboot_setup`: the table is read again only when the device changed. -/
def fastbootSetup (b : Board σ) (s : Session σ) : Session σ :=
  let env := boardFastbootSetup b s.world.env
  let s := { s with world := { s.world with env := env } }
  let s :=
    match fastbootSetupDev env with
    | none => s
    | some d => if d = s.devinfo then s else { fastbootLoadPartitions b d s with devinfo := d }
  { s with transferBuffer := bufferAddr env }

/-- The completion of the IN request. -/
def completeIn (b : Board σ) (s : Session σ) (ok : Bool) : Session σ :=
  let s := { s with inQueued := false }
  match s.txHandler with
  | .fastbootComplete => s
  | .doAcmdComplete => if ok then { s with world := (b.runCommand s.aCmdBuff s.world).2 } else s
  | .complDoReset => { s with alive := false }
  | .doBootmOnComplete => { s with alive := false }
  | .doExitOnComplete => { s with alive := false }

/-- `fastboot_tx_write_str`: a response still queued is taken back, which
completes it with an error. -/
def txWriteStr (b : Board σ) (s : Session σ) (text : CStr) : Session σ :=
  let s := if s.inQueued then completeIn b s false else s
  { s with response := text, inQueued := true }

/-- `rx_bytes_expected`, where `rx_remain` is an `int`. -/
def rxBytesExpected (maxpacket size bytes : Nat) : Nat :=
  let remain := w32 (size + (2 ^ 32 - bytes))
  if remain = 0 ∨ 2 ^ 31 ≤ remain then 0
  else if epBufferSize < remain then epBufferSize
  else
    let rem := remain % maxpacket
    if 0 < rem then remain + (maxpacket - rem) else remain

/-- `memcpy` to an address of the 32-bit address space. -/
def memcpy (mem : Nat → UInt8) (dst len : Nat) (src : Nat → UInt8) : Nat → UInt8 :=
  fun a => if w32 (a + (2 ^ 32 - w32 dst)) < len then src (w32 (a + (2 ^ 32 - w32 dst))) else mem a

/-- `strsep(&cmd, ":")` on the request buffer: the argument behind the colon
if there is one, and the buffer with the colon cut out. -/
def splitArg (buf : Nat → UInt8) : Option CStr × (Nat → UInt8) :=
  let text := textAt buf 0 epBufferSize
  match strsep 58 text with
  | none => (none, buf)
  | some behind => (some (text.drop behind), Function.update buf (behind - 1) 0)

def cbDownload (b : Board σ) (s : Session σ) : Session σ :=
  let split := splitArg s.reqBuf
  let size := simpleStrtoul (split.1.getD b.nullText) 16
  let s := { s with reqBuf := split.2, downloadSize := size, downloadBytes := 0 }
  if size = 0 then txWriteStr b s (cstr "FAILdata invalid size")
  else if fastbootBufSize < size then txWriteStr b { s with downloadSize := 0 } (cstr "FAILdata too large")
  else
    txWriteStr b { s with rxHandler := .dlImage, reqLength := rxBytesExpected b.maxpacket size 0 }
      (cstr "DATA" ++ hexText8 size)

/-- `cb_upload`; `in_req->buf` has EP_BUFFER_SIZE bytes. -/
def cbUpload (b : Board σ) (s : Session σ) : Session σ :=
  if s.downloadBytes = 0 ∨ epBufferSize * 32 < s.downloadBytes then txWriteStr b s (cstr "FAIL")
  else
    let data := (List.range s.downloadBytes).map (fun i => s.world.mem (w32 (s.transferBuffer + i)))
    let s := txWriteStr b s data
    if epBufferSize < s.downloadBytes then { s with alive := false } else s

def flashRequest (s : Session σ) (cmd : CStr) : FlashRequest where
  cmd := cmd
  env := s.world.env
  mem := s.world.mem
  devinfo := s.devinfo
  ptable := s.ptable
  transferBuffer := s.transferBuffer
  downloadBytes := s.downloadBytes

/-- `cb_flash` and `cb_erase`, which differ in what they do to the storage. -/
def cbStorage (b : Board σ) (op : FlashRequest → σ → CStr × σ) (s : Session σ) : Session σ :=
  let split := splitArg s.reqBuf
  let s := { s with reqBuf := split.2 }
  match split.1 with
  | none => txWriteStr b s (cstr "FAILmissing partition name")
  | some cmd =>
    let out := op (flashRequest s cmd) s.world.storage
    txWriteStr b { s with world := { s.world with storage := out.2 } } out.1

def cbFlash (b : Board σ) (s : Session σ) : Session σ := cbStorage b b.flash s

def cbErase (b : Board σ) (s : Session σ) : Session σ := cbStorage b b.erase s

def cbRunUbootCmd (b : Board σ) (s : Session σ) : Session σ :=
  let split := splitArg s.reqBuf
  let s := { s with reqBuf := split.2 }
  match split.1 with
  | none => txWriteStr b s (cstr "FAILmissing command")
  | some cmd =>
    let out := b.runCommand cmd s.world
    let s := { s with world := out.2 }
    if out.1 then fastbootSetup b (txWriteStr b s (cstr "OKAY")) else txWriteStr b s (cstr "FAIL")

/-- `cb_run_uboot_acmd`; `g_a_cmd_buff` has 64 bytes. -/
def cbRunUbootAcmd (b : Board σ) (s : Session σ) : Session σ :=
  let split := splitArg s.reqBuf
  let s := { s with reqBuf := split.2 }
  match split.1 with
  | none => txWriteStr b s (cstr "FAILmissing command")
  | some cmd =>
    let s := txWriteStr b { s with aCmdBuff := cmd, txHandler := .doAcmdComplete } (cstr "OKAY")
    if cmd.length < 64 then s else { s with alive := false }

def cbGetvar (b : Board σ) (s : Session σ) : Session σ :=
  let split := splitArg s.reqBuf
  txWriteStr b { s with reqBuf := split.2 } (b.getvar (split.1.getD []) s.world)

/-- `cb_reboot`, `cb_reboot_bootloader`, `cb_boot` and `cb_continue` install
their handler and answer. The test of `cb_reboot` for `reboot-bootloader`
never succeeds: that name has an entry of its own, searched first. -/
def cbDeferred (b : Board σ) (handler : TxHandler) (s : Session σ) : Session σ :=
  txWriteStr b { s with txHandler := handler } (cstr "OKAY")

def runCb (b : Board σ) (s : Session σ) : CmdCb → Session σ
  | .rebootBootloader => cbDeferred b .complDoReset s
  | .reboot => cbDeferred b .complDoReset s
  | .getvar => cbGetvar b s
  | .upload => cbUpload b s
  | .download => cbDownload b s
  | .boot => cbDeferred b .doBootmOnComplete s
  | .cont => cbDeferred b .doExitOnComplete s
  | .flash => cbFlash b s
  | .erase => cbErase b s
  | .runUbootCmd => cbRunUbootCmd b s
  | .runUbootAcmd => cbRunUbootAcmd b s

/-- `rx_handler_command` for a request of which `actual` bytes arrived. -/
def rxHandlerCommand (b : Board σ) (s : Session σ) (ok : Bool) (actual : Nat) : Session σ :=
  if ok = false ∨ s.reqLength = 0 then s
  else
    let s :=
      match findCmd s.reqBuf with
      | none => txWriteStr b s (cstr "FAILunknown command")
      | some entry =>
        if actual < s.reqLength then runCb b { s with reqBuf := Function.update s.reqBuf actual 0 } entry.cb
        else txWriteStr b s (cstr "FAILbuffer overflow")
    { s with reqBuf := Function.update s.reqBuf 0 0, outQueued := true }

def rxHandlerDlImage (b : Board σ) (s : Session σ) (ok : Bool) (actual : Nat) : Session σ :=
  let base := bufferAddr s.world.env
  let s := { s with world := { s.world with env := setenvHex s.world.env (cstr "fastboot_buffer") base } }
  if ok = false then s
  else
    let left := w32 (s.downloadSize + (2 ^ 32 - s.downloadBytes))
    let transferSize := if actual < left then actual else left
    let mem := memcpy s.world.mem (base + s.downloadBytes) transferSize s.reqBuf
    let bytes := w32 (s.downloadBytes + transferSize)
    let s := { s with world := { s.world with mem := mem }, downloadBytes := bytes }
    let s :=
      if s.downloadSize ≤ bytes then
        let s := txWriteStr b { s with downloadSize := 0, rxHandler := .command, reqLength := epBufferSize }
          (cstr "OKAY")
        { s with world := { s.world with env := setenvHex s.world.env (cstr "fastboot_bytes") bytes } }
      else { s with reqLength := rxBytesExpected b.maxpacket s.downloadSize bytes }
    { s with outQueued := true }

/-- What the USB controller reports: the OUT request is done, with or
without an error, and the bytes that came in; the IN request is done; or
the host set the interface up anew. -/
inductive Event where
  | out (ok : Bool) (packet : List UInt8)
  | inDone (ok : Bool)
  | setAlt

/-- `fastboot_disable` and `fastboot_set_alt`: fresh requests. -/
def fastbootSetAlt (s : Session σ) : Session σ :=
  { s with
    reqBuf := fun _ => 0
    reqLength := epBufferSize
    rxHandler := .command
    outQueued := true
    txHandler := .fastbootComplete
    inQueued := false }

/-- The gadget's reaction to an event that can happen. -/
def step (b : Board σ) (s : Session σ) : Event → Option (Session σ)
  | .out ok packet =>
    if s.alive && s.outQueued && packet.length ≤ epBufferSize then
      let s := { s with reqBuf := receive s.reqBuf packet, outQueued := false }
      match s.rxHandler with
      | .command => some (rxHandlerCommand b s ok packet.length)
      | .dlImage => some (rxHandlerDlImage b s ok packet.length)
    else none
  | .inDone ok => if s.alive && s.inQueued then some (completeIn b s ok) else none
  | .setAlt => if s.alive then some (fastbootSetAlt s) else none

/-- The variables of the gadget before anything ran. -/
def powerOn (world : World σ) : Session σ where
  world := world
  reqBuf := fun _ => 0
  reqLength := epBufferSize
  rxHandler := .command
  outQueued := false
  txHandler := .fastbootComplete
  inQueued := false
  response := []
  downloadSize := 0
  downloadBytes := 0
  aCmdBuff := []
  transferBuffer := fastbootBufAddr
  devinfo := ⟨.unset, 0xff⟩
  ptable := []
  alive := true

/-- The state in which the board starts the gadget: `fastboot_setup` has run
and the interface is set up. -/
def initial (b : Board σ) (world : World σ) : Session σ := fastbootSetAlt (fastbootSetup b (powerOn world))

end UuuFastboot
