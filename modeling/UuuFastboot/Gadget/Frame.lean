import UuuFastboot.Gadget.Session

namespace UuuFastboot

open Word CString Radix Overlay

variable {σ : Type}

def worldAfterIn (b : Board σ) (s : Session σ) (ok : Bool) : World σ :=
  if s.txHandler = .doAcmdComplete ∧ ok = true then (b.runCommand s.aCmdBuff s.world).2 else s.world

def aliveAfterIn (s : Session σ) : Bool :=
  match s.txHandler with
  | .fastbootComplete => s.alive
  | .doAcmdComplete => s.alive
  | _ => false

theorem completeIn_eq (b : Board σ) (s : Session σ) (ok : Bool) :
    completeIn b s ok =
      { s with inQueued := false, world := worldAfterIn b s ok, alive := aliveAfterIn s } := by
  unfold completeIn worldAfterIn aliveAfterIn
  cases s.txHandler <;> cases ok <;> simp

theorem txWriteStr_eq (b : Board σ) (s : Session σ) (text : CStr) :
    txWriteStr b s text =
      { s with response := text, inQueued := true, alive := if s.inQueued then aliveAfterIn s else s.alive } := by
  unfold txWriteStr
  by_cases queued : s.inQueued = true
  · simp only [queued, if_true, completeIn_eq, worldAfterIn, Bool.false_eq_true, and_false, if_false]
  · simp only [queued, Bool.false_eq_true, if_false]

theorem bufferAddr_lt (env : Env) : bufferAddr env < 2 ^ 32 := getenvUlong_lt (by decide)

theorem bufferAddr_setenvHex_self {env : Env} {value : Nat} (word : value < 2 ^ 32) :
    bufferAddr (setenvHex env (cstr "fastboot_buffer") value) = value := getenvUlong_setenvHex word

theorem bufferAddr_setenv_of_ne {env : Env} {name value : CStr} (differ : name ≠ cstr "fastboot_buffer") :
    bufferAddr (setenv env name value) = bufferAddr env := getenvUlong_setenv_of_ne differ.symm

section

variable (b : Board σ)
include b

theorem bufferAddr_boardFastbootSetup (env : Env) :
    bufferAddr (boardFastbootSetup b env) = bufferAddr env := by
  unfold boardFastbootSetup
  have names := b.boardDefaults_ne
  generalize b.boardDefaults = defaults at names
  induction defaults generalizing env with
  | nil => rfl
  | cons entry rest ih =>
    rw [List.foldl_cons, ih _ (fun e member => names e (List.mem_cons_of_mem _ member))]
    split
    · rfl
    · exact bufferAddr_setenv_of_ne (names entry (List.mem_cons_self ..))

theorem fastbootSetup_eq (s : Session σ) :
    ∃ storage devinfo ptable, fastbootSetup b s =
      { s with
        world := { s.world with env := boardFastbootSetup b s.world.env, storage := storage }
        devinfo := devinfo
        ptable := ptable
        transferBuffer := bufferAddr s.world.env } := by
  unfold fastbootSetup
  dsimp only
  rw [bufferAddr_boardFastbootSetup]
  split
  · exact ⟨s.world.storage, s.devinfo, s.ptable, rfl⟩
  · split
    · exact ⟨s.world.storage, s.devinfo, s.ptable, rfl⟩
    · rename_i d _ _
      exact ⟨(b.load d s.world.storage).2, d, if (b.load d s.world.storage).1 then b.tableOf d s.world.storage else [],
        rfl⟩

/-- The part of the state that the download machine owns. -/
structure SameTransfer (s s' : Session σ) : Prop where
  rxHandler : s'.rxHandler = s.rxHandler
  reqLength : s'.reqLength = s.reqLength
  downloadSize : s'.downloadSize = s.downloadSize
  downloadBytes : s'.downloadBytes = s.downloadBytes

structure Accepted (b : Board σ) (s' : Session σ) (size : Nat) : Prop where
  positive : 0 < size
  bounded : size ≤ fastbootBufSize
  rxHandler : s'.rxHandler = .dlImage
  reqLength : s'.reqLength = rxBytesExpected b.maxpacket size 0
  downloadSize : s'.downloadSize = size
  downloadBytes : s'.downloadBytes = 0
  response : s'.response = cstr "DATA" ++ hexText8 size

theorem cbDownload_cases (s : Session σ) :
    (∃ size, Accepted b (cbDownload b s) size) ∨
      (cbDownload b s).rxHandler = s.rxHandler ∧ (cbDownload b s).reqLength = s.reqLength := by
  unfold cbDownload
  dsimp only
  generalize simpleStrtoul ((splitArg s.reqBuf).1.getD b.nullText) 16 = size
  split
  · exact Or.inr (by simp only [txWriteStr_eq, and_self])
  · split
    · exact Or.inr (by simp only [txWriteStr_eq, and_self])
    · refine Or.inl ⟨size, by omega, by omega, ?_, ?_, ?_, ?_, ?_⟩ <;> simp only [txWriteStr_eq]

theorem cbStorage_sameTransfer (op : FlashRequest → σ → CStr × σ) (s : Session σ) :
    SameTransfer s (cbStorage b op s) := by
  unfold cbStorage
  dsimp only
  split <;> constructor <;> simp only [txWriteStr_eq]

theorem cbRunUbootCmd_sameTransfer (s : Session σ) : SameTransfer s (cbRunUbootCmd b s) := by
  unfold cbRunUbootCmd
  dsimp only
  split
  · constructor <;> simp only [txWriteStr_eq]
  · split
    · obtain ⟨storage, devinfo, ptable, same⟩ := fastbootSetup_eq b
        (txWriteStr b { s with reqBuf := (splitArg s.reqBuf).2, world := (b.runCommand _ s.world).2 } (cstr "OKAY"))
      rw [same]
      constructor <;> simp only [txWriteStr_eq]
    · constructor <;> simp only [txWriteStr_eq]

theorem cbRunUbootAcmd_sameTransfer (s : Session σ) : SameTransfer s (cbRunUbootAcmd b s) := by
  unfold cbRunUbootAcmd
  dsimp only
  split
  · constructor <;> simp only [txWriteStr_eq]
  · split <;> constructor <;> simp only [txWriteStr_eq]

theorem cbUpload_sameTransfer (s : Session σ) : SameTransfer s (cbUpload b s) := by
  unfold cbUpload
  dsimp only
  split
  · constructor <;> simp only [txWriteStr_eq]
  · split <;> constructor <;> simp only [txWriteStr_eq]

theorem runCb_sameTransfer (s : Session σ) {cb : CmdCb} (other : cb ≠ .download) :
    SameTransfer s (runCb b s cb) := by
  cases cb with
  | download => exact absurd rfl other
  | upload => exact cbUpload_sameTransfer b s
  | flash => exact cbStorage_sameTransfer b b.flash s
  | erase => exact cbStorage_sameTransfer b b.erase s
  | runUbootCmd => exact cbRunUbootCmd_sameTransfer b s
  | runUbootAcmd => exact cbRunUbootAcmd_sameTransfer b s
  | _ => constructor <;> simp only [runCb, cbDeferred, cbGetvar, txWriteStr_eq]

theorem rxHandlerCommand_cases (s : Session σ) (ok : Bool) (actual : Nat) :
    ((rxHandlerCommand b s ok actual).rxHandler = s.rxHandler ∧
        (rxHandlerCommand b s ok actual).reqLength = s.reqLength) ∨
      ∃ size, Accepted b (rxHandlerCommand b s ok actual) size := by
  unfold rxHandlerCommand
  split
  · exact Or.inl ⟨rfl, rfl⟩
  · dsimp only
    split
    · exact Or.inl (by simp only [txWriteStr_eq, and_self])
    · rename_i entry _
      split
      · by_cases download : entry.cb = .download
        · rw [download]
          rcases cbDownload_cases b { s with reqBuf := Function.update s.reqBuf actual 0 } with
            ⟨size, accepted⟩ | idle
          · exact Or.inr ⟨size, accepted.positive, accepted.bounded, accepted.rxHandler, accepted.reqLength,
              accepted.downloadSize, accepted.downloadBytes, accepted.response⟩
          · exact Or.inl idle
        · have same := runCb_sameTransfer b { s with reqBuf := Function.update s.reqBuf actual 0 } download
          exact Or.inl ⟨same.rxHandler, same.reqLength⟩
      · exact Or.inl (by simp only [txWriteStr_eq, and_self])

end

end UuuFastboot
