import UuuFastboot.Flash.Target
import UuuFastboot.Flash.TableCache

namespace UuuFastboot

open Word CString Radix Relation

section

variable {σ : Type} {b : Board σ} {x y z : Session σ × Transfer} {s s' s₁ : Session σ} {cb : CmdCb} {world : World σ}
  {image : List UInt8}

/-- The event neither writes to a device nor runs a command line. -/
def Harmless (x : Session σ × Transfer) (e : Event) : Prop :=
  (∀ c ∈ calledCb x.1 e, c.1 ∉ [CmdCb.runUbootCmd, .flash, .erase]) ∧ deferredCommand x.1 e = none

theorem runCb_sameSetting (b : Board σ) (s : Session σ) (harmless : cb ∉ [CmdCb.runUbootCmd, .flash, .erase]) :
    SameSetting s (runCb b s cb) := by
  cases cb with
  | runUbootCmd => simp at harmless
  | flash => simp at harmless
  | erase => simp at harmless
  | upload =>
    simp only [runCb, cbUpload]
    split_ifs <;> constructor <;> simp only [txWriteStr_eq]
  | download =>
    simp only [runCb, cbDownload]
    split_ifs <;> constructor <;> simp only [txWriteStr_eq]
  | runUbootAcmd =>
    simp only [runCb, cbRunUbootAcmd]
    split
    · constructor <;> simp only [txWriteStr_eq]
    · split_ifs <;> constructor <;> simp only [txWriteStr_eq]
  | _ => constructor <;> simp only [runCb, cbDeferred, cbGetvar, txWriteStr_eq]

theorem SameSetting.trans {s'' : Session σ} (first : SameSetting s s') (second : SameSetting s' s'') :
    SameSetting s s'' where
  world := second.world.trans first.world
  transferBuffer := second.transferBuffer.trans first.transferBuffer
  devinfo := second.devinfo.trans first.devinfo
  ptable := second.ptable.trans first.ptable

/-- Outside of a download, a harmless event leaves the setting alone. -/
theorem Harmless.step {e : Event} (harmless : Harmless x e) (run : step b x.1 e = some s') :
    SameSetting x.1 s' ∨ ∃ ok packet, e = .out ok packet ∧ x.1.rxHandler = .dlImage ∧
      s' = rxHandlerDlImage b { x.1 with reqBuf := receive x.1.reqBuf packet, outQueued := false } ok packet.length := by
  obtain ⟨calls, deferred⟩ := harmless
  rcases step_cases run with same | ⟨cb, s₁, called, after⟩ | received | ⟨cmd, given, -⟩
  · exact Or.inl same
  · exact Or.inl ((calledCb_setting called).trans ((runCb_sameSetting b s₁ (calls _ called)).trans after))
  · exact Or.inr received
  · rw [deferred] at given
    cases given

/-- What a download may change: its two variables, without moving the
buffer, and the bytes of the buffer. -/
structure Confined (s s' : Session σ) : Prop where
  storage : s'.world.storage = s.world.storage
  env : ∀ name, name ≠ cstr "fastboot_buffer" → name ≠ cstr "fastboot_bytes" → s'.world.env name = s.world.env name
  addr : bufferAddr s'.world.env = bufferAddr s.world.env
  mem : ∀ a < 2 ^ 32, s'.world.mem a ≠ s.world.mem a → ∃ i < fastbootBufSize, a = w32 (bufferAddr s.world.env + i)

theorem SameSetting.confined (same : SameSetting s s') : Confined s s' where
  storage := by rw [same.world]
  env _ _ _ := by rw [same.world]
  addr := by rw [same.world]
  mem _ _ changed := absurd (by rw [same.world]) changed

theorem Confined.trans {s'' : Session σ} (first : Confined s s') (second : Confined s' s'') : Confined s s'' where
  storage := second.storage.trans first.storage
  env name buffer bytes := (second.env name buffer bytes).trans (first.env name buffer bytes)
  addr := second.addr.trans first.addr
  mem a address changed := by
    by_cases early : s'.world.mem a = s.world.mem a
    · rw [← early] at changed
      obtain ⟨i, below, place⟩ := second.mem a address changed
      exact ⟨i, below, by rw [place, first.addr]⟩
    · exact first.mem a address early

theorem rxHandlerDlImage_env (b : Board σ) (s : Session σ) (ok : Bool) (actual : Nat) {name : CStr}
    (buffer : name ≠ cstr "fastboot_buffer") (bytes : name ≠ cstr "fastboot_bytes") :
    (rxHandlerDlImage b s ok actual).world.env name = s.world.env name := by
  unfold rxHandlerDlImage
  dsimp only
  split
  · exact setenv_of_ne buffer
  · generalize (if actual < w32 (s.downloadSize + (2 ^ 32 - s.downloadBytes)) then actual
      else w32 (s.downloadSize + (2 ^ 32 - s.downloadBytes))) = transferSize
    split
    · simp only [txWriteStr_eq, setenvHex]
      rw [setenv_of_ne bytes, setenv_of_ne buffer]
    · exact setenv_of_ne buffer

theorem Confined.next (inv : DownloadInv b x) (next : Next b Harmless x y) : Confined x.1 y.1 := by
  obtain ⟨e, harmless, run, -⟩ := next
  rcases harmless.step run with same | ⟨ok, packet, rfl, handler, result⟩
  · exact same.confined
  · refine ⟨?_, fun name buffer bytes => ?_, ?_, fun a address changed => ?_⟩
    · rw [result]
      exact (rxHandlerDlImage_sameTable b _ ok packet.length).2.2
    · rw [result]
      exact rxHandlerDlImage_env b _ ok packet.length buffer bytes
    · rw [result]
      exact (rxHandlerDlImage_addr b _ ok packet.length).2
    · obtain ⟨i, below, place⟩ := inv.stores handler run address changed
      exact ⟨i, below.trans_le (inv.bounded handler), place⟩

/-- A command packet runs a callback or does nothing to the download. -/
theorem step_command {ok : Bool} {packet : List UInt8} (handler : s.rxHandler = .command)
    (run : step b s (.out ok packet) = some s') :
    (calledCb s (.out ok packet) = none ∧ SameTransfer s s') ∨
      ∃ cb s₁, calledCb s (.out ok packet) = some (cb, s₁) ∧ SameTransfer s s₁ ∧
        s' = { runCb b s₁ cb with reqBuf := Function.update (runCb b s₁ cb).reqBuf 0 0, outQueued := true } := by
  rcases (step_out run).2 with ⟨-, result⟩ | ⟨active, -⟩
  · subst result
    cases ok with
    | false => exact Or.inl ⟨rfl, rfl, rfl, rfl, rfl⟩
    | true =>
      unfold rxHandlerCommand calledCb
      simp only [handler, Bool.true_eq_false, false_or]
      cases findCmd (receive s.reqBuf packet) with
      | none =>
        refine Or.inl ⟨rfl, ?_⟩
        split <;> constructor <;> simp only [txWriteStr_eq, handler]
      | some entry =>
        by_cases short : packet.length < s.reqLength
        · rw [if_neg (by omega)]
          simp only [short, if_true]
          exact Or.inr ⟨entry.cb, _, rfl, ⟨handler.symm, rfl, rfl, rfl⟩, rfl⟩
        · refine Or.inl ⟨if_neg short, ?_⟩
          split <;> constructor <;> simp only [txWriteStr_eq, handler]
  · rw [handler] at active
    cases active

/-- The event starts no download either. -/
def Quiet (x : Session σ × Transfer) (e : Event) : Prop :=
  Harmless x e ∧ ∀ c ∈ calledCb x.1 e, c.1 ≠ .download

/-- The image lies in the transfer buffer, ready for `flash` and `upload`. -/
structure Staged (image : List UInt8) (s : Session σ) : Prop where
  nonempty : 0 < image.length
  rxHandler : s.rxHandler = .command
  bytes : s.downloadBytes = image.length
  mem : ∀ i < image.length, s.world.mem (w32 (s.transferBuffer + i)) = image.getD i 0

theorem Quiet.sameBytes {e : Event} (quiet : Quiet x e) (handler : x.1.rxHandler = .command)
    (run : step b x.1 e = some s') : s'.rxHandler = .command ∧ s'.downloadBytes = x.1.downloadBytes := by
  cases e with
  | out ok packet =>
    rcases step_command handler run with ⟨-, same⟩ | ⟨cb, s₁, called, before, result⟩
    · exact ⟨same.rxHandler.trans handler, same.downloadBytes⟩
    · have same := runCb_sameTransfer b s₁ (quiet.2 _ called)
      rw [result]
      exact ⟨same.rxHandler.trans (before.rxHandler.trans handler), same.downloadBytes.trans before.downloadBytes⟩
  | inDone ok =>
    rw [step_inDone run, completeIn_eq]
    exact ⟨handler, rfl⟩
  | setAlt =>
    rw [step_setAlt run]
    exact ⟨rfl, rfl⟩

theorem Staged.next (staged : Staged image x.1) (next : Next b Quiet x y) : Staged image y.1 := by
  obtain ⟨e, quiet, run, -⟩ := next
  obtain ⟨handler, bytes⟩ := quiet.sameBytes staged.rxHandler run
  refine ⟨staged.nonempty, handler, bytes.trans staged.bytes, ?_⟩
  rcases quiet.1.step run with same | ⟨-, -, -, active, -⟩
  · rw [same.world, same.transferBuffer]
    exact staged.mem
  · rw [staged.rxHandler] at active
    cases active

/-- The last packet of a download of `image` has arrived, in a run in which
deferred commands leave downloads alone and the transfer buffer follows the
download address. -/
def Downloaded (b : Board σ) (world : World σ) (image : List UInt8) (y : Session σ × Transfer) : Prop :=
  ∃ x packet, Reaches b world (fun x e => LeavesDownload b x e ∧ Refreshed b x e) x ∧ x.1.rxHandler = .dlImage ∧
    Next b (fun _ e => e = .out true packet) x y ∧ y.1.rxHandler = .command ∧
    image = (x.2.payload ++ packet).take x.1.downloadSize

theorem Downloaded.staged (downloaded : Downloaded b world image y) : Staged image y.1 := by
  obtain ⟨x, packet, reach, handler, ⟨e, rfl, run, -⟩, done, rfl⟩ := downloaded
  have leaves : Reaches b world (LeavesDownload b) x :=
    ReflTransGen.mono (fun _ _ next => Next.mono (fun _ _ both => both.1) next) _ _ reach
  have current : Current x := Reaches.invariant (initial_current b world)
    (fun _ _ current next => current.next (next.mono (fun _ _ both => both.2))) reach
  have inv := leaves.downloadInv
  have more := inv.more handler
  obtain ⟨t, received, total⟩ := inv.answer handler run done
  have transfer : t = min packet.length (x.1.downloadSize - x.1.downloadBytes) := received.transfer
  have bytes : y.1.downloadBytes = x.1.downloadBytes + t := received.bytes
  have size : ((x.2.payload ++ packet).take x.1.downloadSize).length = x.1.downloadSize := by
    rw [List.length_take, List.length_append, inv.received handler]
    omega
  have buffer : y.1.transferBuffer = bufferAddr y.1.world.env := by
    rcases (step_out run).2 with ⟨command, -⟩ | ⟨-, result⟩
    · rw [handler] at command
      cases command
    · have addr := rxHandlerDlImage_addr b { x.1 with reqBuf := receive x.1.reqBuf packet, outQueued := false } true
        packet.length
      rw [← result] at addr
      exact addr.1.trans (current.trans addr.2.symm)
  refine ⟨by omega, done, by omega, fun i below => ?_⟩
  rw [size] at below
  rw [buffer, leaves.stored.packet inv handler received (by omega), List.getD_eq_getElem?_getD,
    List.getD_eq_getElem?_getD, List.getElem?_take_of_lt below]

/-- The image is still there when a callback is called after a quiet run. -/
theorem Downloaded.called {request : List UInt8} (downloaded : Downloaded b world image y)
    (quiet : ReflTransGen (Next b Quiet) y z) (called : calledCb z.1 (.out true request) = some (cb, s₁))
    (run : step b z.1 (.out true request) = some s') :
    Staged image z.1 ∧ SameTransfer z.1 s₁ ∧
      s' = { runCb b s₁ cb with reqBuf := Function.update (runCb b s₁ cb).reqBuf 0 0, outQueued := true } := by
  have staged : Staged image z.1 := by
    clear called run
    induction quiet with
    | refl => exact downloaded.staged
    | tail _ next ih => exact ih.next next
  rcases step_command staged.rxHandler run with ⟨idle, -⟩ | ⟨cb, s₂, given, before, result⟩
  · exact absurd (called.symm.trans idle) (Option.some_ne_none _)
  · obtain ⟨rfl, rfl⟩ := Prod.mk.inj (Option.some.inj (called.symm.trans given))
    exact ⟨staged, before, result⟩

end

/-- The board with the MBR after the download of four bytes. -/
def fourBytes : Session Storage × Transfer :=
  runEvents mbrBoard (initial mbrBoard ⟨mmcEnv, fun _ => 0, mbrStorage⟩, ⟨[], []⟩)
    [.out true (cstr "download:00000004"), .out true [1, 2, 3, 4]]

theorem downloaded_fourBytes : Downloaded mbrBoard ⟨mmcEnv, fun _ => 0, mbrStorage⟩ [1, 2, 3, 4] fourBytes :=
  ⟨_, [1, 2, 3, 4], reaches_runEvents [.out true (cstr "download:00000004")]
    (fun _ _ _ => ⟨by simp_all [LeavesDownload], fun _ _ => rfl, fun _ _ _ => rfl⟩), by decide, ⟨_, rfl, rfl, rfl⟩,
    by decide, by decide⟩

section

variable {reader : PartReader} {gpt : Mem → Card → GptImage} {o : FlashOutcome} {q : FlashRequest} {st : Storage}
  {p : PtEntry}

/-- A raw write to an entry of the device in use, which can be selected. -/
structure RawTarget (o : FlashOutcome) (q : FlashRequest) (st : Storage) (p : PtEntry) : Prop where
  found : fastbootFlashFindPtn q.ptable q.cmd = some p
  raw : isRawFlash q p = true
  gpt : isGpt p = false
  env : hasFlag p flagWriteEnv = false
  own : targetUbootdev q.env p = none
  number : q.devinfo.devId < 10
  part : p.partitionId.getD 0 < 10
  selected : selectOk o ⟨q.devinfo.devId, p.partitionId⟩ st = true

/-- The blocks that an image of the request's size takes. -/
def imageArea (q : FlashRequest) (p : PtEntry) : Set CellAddr :=
  {x | x.1 = q.devinfo.devId ∧ x.2 ∈ blockArea (p.partitionId.getD 0) p.start ((q.downloadBytes + 512 - 1) / 512)}

theorem RawTarget.flashCommand_eq (target : RawTarget o q st p)
    (okay : (flashCommand reader gpt o q st).response = some fastbootOkay) :
    flashCommand reader gpt o q st =
      flashBlocks o q p ⟨q.devinfo.devId, p.partitionId⟩ ((q.downloadBytes + 512 - 1) / 512) (flashStart st) := by
  have refused : ∀ reason, ((flashStart st).answer false reason).response ≠ some fastbootOkay := by
    intro reason same
    exact fastbootFail_ne_okay _ (Option.some.inj same)
  unfold flashCommand at okay ⊢
  split at okay
  · unfold processFlashMmc at okay ⊢
    simp only [target.found, target.env, Bool.not_false, and_true, Bool.false_eq_true, if_false] at okay ⊢
    split at okay
    · exact absurd okay (refused _)
    · rename_i image
      split at okay
      · exact absurd okay (refused _)
      · rename_i fits
        rw [if_neg image, if_neg fits]
        have raw : (!isRawPartition p && isSparseImage q.image) = false := by
          have raw := target.raw
          unfold isRawFlash at raw
          revert raw
          cases isRawPartition p <;> cases isSparseImage q.image <;> simp
        simp only [flashPartition, getFastbootTargetDev, target.own, raw, flashRaw, target.gpt, Bool.false_eq_true, if_false]
  · exact absurd okay (refused _)

theorem Card.mmcWrite_contents {o : MmcWriteOutcome} {c : Card} {blk cnt i : Nat} {src : Nat → Cell}
    (ready : c.hasInit = true) (written : (c.mmcWrite o blk cnt src).1 = true) (below : i < 512 * cnt) :
    (c.mmcWrite o blk cnt src).2.contents c.hwpart (512 * blk + i) = src i := by
  have init : c.mmcInit o.init = (true, c) := if_pos ready
  unfold mmcWrite at written ⊢
  rw [init] at written ⊢
  dsimp only at written ⊢
  split at written
  · rename_i open_
    rw [if_pos open_]
    unfold blkDwrite at written ⊢
    split at written
    · rename_i fits
      rw [if_pos fits]
      change Function.update c.contents c.hwpart _ c.hwpart _ = _
      rw [Function.update_self, if_pos ⟨by omega, by omega, by omega, rfl⟩, Nat.add_sub_cancel_left]
    · have none : 0 = cnt := by simpa using written
      omega
  · cases written

/-- A raw flash that is answered with OKAY stores the image from the first
block of the entry on, and changes no other block. -/
theorem RawTarget.stores (target : RawTarget o q st p)
    (okay : (flashCommand reader gpt o q st).response = some fastbootOkay) :
    (∀ i < q.downloadBytes, (flashCommand reader gpt o q st).storage.cell
        (q.devinfo.devId, p.partitionId.getD 0, 512 * p.start + i) = some (some (q.image i))) ∧
      st.ChangedWithin (imageArea q p) (flashCommand reader gpt o q st).storage := by
  have run := target.flashCommand_eq okay
  rw [run] at okay ⊢
  have number := reparse_of_lt _ target.number
  have part : (p.partitionId.map reparse).getD 0 = p.partitionId.getD 0 := by
    have small := target.part
    cases id : p.partitionId with
    | none => rfl
    | some n => exact reparse_of_lt n (by simpa [id] using small)
  have selected : (st.mmcDev o.deviceSelect ⟨q.devinfo.devId, p.partitionId⟩).1 = true := target.selected
  refine ⟨fun i below => ?_, ?_⟩
  · obtain ⟨current, c, present, ready, hwpart⟩ := Storage.mmcDev_ok selected
    have written := (flashBlocks_okay_iff o q p _ _ _).mp okay
    change (Storage.mmcWrite _ (st.mmcDev _ _).2 _ _ _).1 = true at written
    change (Storage.mmcWrite _ (st.mmcDev _ _).2 _ _ _).2.cell _ = _
    unfold Storage.mmcWrite at written ⊢
    rw [current, Storage.withCard_some _ present] at written
    unfold Storage.cell
    rw [current, Storage.withCard_some _ present, number, Storage.put_card_self, Option.map_some, ← part, ← hwpart,
      Card.mmcWrite_contents ready written (by omega)]
  · have changed : (flashStart st).storage.ChangedWithin _
        (flashBlocks o q p _ ((q.downloadBytes + 512 - 1) / 512) (flashStart st)).storage :=
      flashBlocks_changedWithin selected
    dsimp only at changed
    rw [number, part] at changed
    exact changed

/-- A download followed by a raw flash, from the host to the card: whatever
happens between the two, short of flashing, erasing, another download and
command lines, a flash that is answered with OKAY leaves the bytes that the
host sent in the blocks of the partition, and changes no other block. -/
theorem flash_stores_download (b : Board Storage) (world : World Storage) (image request name : List UInt8)
    (y z : Session Storage × Transfer) (s₁ s' : Session Storage) (r : FlashRun) (p : PtEntry)
    (ran : r = flashCommand reader gpt o (flashRequest s₁ name) s₁.world.storage)
    (flash : b.flash (flashRequest s₁ name) s₁.world.storage = (r.response.getD [], r.storage))
    (downloaded : Downloaded b world image y) (quiet : ReflTransGen (Next b Quiet) y z)
    (called : calledCb z.1 (.out true request) = some (.flash, s₁)) (arg : (splitArg s₁.reqBuf).1 = some name)
    (target : RawTarget o (flashRequest s₁ name) s₁.world.storage p)
    (run : step b z.1 (.out true request) = some s') (okay : s'.response = fastbootOkay) :
    (∀ i < image.length, s'.world.storage.cell (z.1.devinfo.devId, p.partitionId.getD 0, 512 * p.start + i) =
        some (some (image.getD i 0))) ∧
      z.1.world.storage.ChangedWithin
        {x | x.1 = z.1.devinfo.devId ∧
          x.2 ∈ blockArea (p.partitionId.getD 0) p.start ((image.length + 512 - 1) / 512)} s'.world.storage := by
  obtain ⟨staged, before, result⟩ := downloaded.called quiet called run
  have setting := calledCb_setting called
  have length : s₁.downloadBytes = image.length := before.downloadBytes.trans staged.bytes
  have cb : runCb b s₁ .flash = txWriteStr b
      { s₁ with reqBuf := (splitArg s₁.reqBuf).2, world := { s₁.world with storage := r.storage } }
      (r.response.getD []) := by
    simp only [runCb, cbFlash, cbStorage, arg]
    change txWriteStr b { s₁ with reqBuf := _, world := { s₁.world with storage := (b.flash (flashRequest s₁ name) _).2 } }
      (b.flash (flashRequest s₁ name) _).1 = _
    rw [flash]
  rw [result, cb] at okay ⊢
  simp only [txWriteStr_eq] at okay ⊢
  have answered : r.response = some fastbootOkay := by
    cases text : r.response with
    | none =>
      rw [text] at okay
      cases okay
    | some _ =>
      rw [text] at okay
      exact congrArg some okay
  subst ran
  obtain ⟨stored, changed⟩ := target.stores answered
  have devId : (flashRequest s₁ name).devinfo.devId = z.1.devinfo.devId := congrArg DevInfo.devId setting.devinfo
  refine ⟨fun i below => ?_, ?_⟩
  · rw [← devId, stored i (below.trans_eq length.symm), ← staged.mem i below, ← setting.world, ← setting.transferBuffer]
    rfl
  · rw [imageArea, devId] at changed
    rw [← length, ← setting.world]
    exact changed

end

theorem flash_stores_download_fourBytes :
    ∃ s', step mbrBoard fourBytes.1 (.out true (cstr "flash:mmcsdb1")) = some s' ∧
      s'.world.storage.cell (1, 0, 51203) = some (some 4) := by
  refine ⟨_, rfl, (flash_stores_download mbrBoard _ [1, 2, 3, 4] (cstr "flash:mmcsdb1") (cstr "mmcsdb1") fourBytes
    fourBytes _ _ _ (diskEntry false 1 ⟨cstr "mmcsdb1", 100, 16⟩) rfl rfl downloaded_fourBytes .refl rfl ?_ ?_ rfl ?_).1 3 (by decide)⟩
  · decide +kernel
  · constructor <;> decide +kernel
  · decide +kernel

end UuuFastboot
