import UuuFastboot.Gadget.Download

namespace UuuFastboot

open Word CString Radix Relation

variable {σ : Type}

/-- The command line that a `UCmd:` packet runs. -/
def directCommand (s : Session σ) (e : Event) : Option CStr :=
  match calledCb s e with
  | some (.runUbootCmd, s₁) => (splitArg s₁.reqBuf).1
  | _ => none

def KeepsAddr (b : Board σ) (s : Session σ) (cmd : CStr) : Prop :=
  bufferAddr (b.runCommand cmd s.world).2.env = bufferAddr s.world.env

theorem runCb_sameAddr (b : Board σ) (s : Session σ) {cb : CmdCb} (other : cb ≠ .runUbootCmd) :
    (runCb b s cb).transferBuffer = s.transferBuffer ∧ (runCb b s cb).world.env = s.world.env := by
  cases cb with
  | runUbootCmd => exact absurd rfl other
  | upload =>
    simp only [runCb, cbUpload]
    split
    · simp only [txWriteStr_eq, and_self]
    · split <;> simp only [txWriteStr_eq, and_self]
  | download =>
    simp only [runCb, cbDownload]
    split
    · simp only [txWriteStr_eq, and_self]
    · split <;> simp only [txWriteStr_eq, and_self]
  | flash =>
    simp only [runCb, cbFlash, cbStorage]
    split <;> simp only [txWriteStr_eq, and_self]
  | erase =>
    simp only [runCb, cbErase, cbStorage]
    split <;> simp only [txWriteStr_eq, and_self]
  | runUbootAcmd =>
    simp only [runCb, cbRunUbootAcmd]
    split
    · simp only [txWriteStr_eq, and_self]
    · split <;> simp only [txWriteStr_eq, and_self]
  | _ => simp only [runCb, cbDeferred, cbGetvar, txWriteStr_eq, and_self]

theorem cbRunUbootCmd_addr (b : Board σ) (s : Session σ) :
    ((splitArg s.reqBuf).1 = none ∧ (cbRunUbootCmd b s).transferBuffer = s.transferBuffer ∧
        (cbRunUbootCmd b s).world.env = s.world.env) ∨
      ∃ cmd, (splitArg s.reqBuf).1 = some cmd ∧
        bufferAddr (cbRunUbootCmd b s).world.env = bufferAddr (b.runCommand cmd s.world).2.env ∧
        (cbRunUbootCmd b s).transferBuffer =
          if (b.runCommand cmd s.world).1 then bufferAddr (b.runCommand cmd s.world).2.env else s.transferBuffer := by
  unfold cbRunUbootCmd
  dsimp only
  split
  · rename_i missing
    exact Or.inl ⟨missing, by simp only [txWriteStr_eq, and_self]⟩
  · rename_i cmd given
    refine Or.inr ⟨cmd, given, ?_⟩
    split
    · rename_i success
      obtain ⟨storage, devinfo, ptable, same⟩ := fastbootSetup_eq b
        (txWriteStr b { s with reqBuf := (splitArg s.reqBuf).2, world := (b.runCommand cmd s.world).2 } (cstr "OKAY"))
      rw [same]
      simp only [txWriteStr_eq]
      exact ⟨bufferAddr_boardFastbootSetup b _, trivial⟩
    · simp only [txWriteStr_eq, and_self]

theorem rxHandlerDlImage_addr (b : Board σ) (s : Session σ) (ok : Bool) (actual : Nat) :
    (rxHandlerDlImage b s ok actual).transferBuffer = s.transferBuffer ∧
      bufferAddr (rxHandlerDlImage b s ok actual).world.env = bufferAddr s.world.env := by
  have addr : bufferAddr (setenvHex s.world.env (cstr "fastboot_buffer") (bufferAddr s.world.env)) =
      bufferAddr s.world.env := bufferAddr_setenvHex_self (bufferAddr_lt _)
  unfold rxHandlerDlImage
  dsimp only
  split
  · exact ⟨rfl, addr⟩
  · generalize (if actual < w32 (s.downloadSize + (2 ^ 32 - s.downloadBytes)) then actual
      else w32 (s.downloadSize + (2 ^ 32 - s.downloadBytes))) = transferSize
    split
    · simp only [txWriteStr_eq, true_and]
      rw [setenvHex, bufferAddr_setenv_of_ne (by decide)]
      exact addr
    · exact ⟨rfl, addr⟩

/-- What a step does to the two addresses: nothing, unless it runs a
command; and only a direct command that succeeds refreshes the second. -/
theorem step_addr {b : Board σ} {s s' : Session σ} {e : Event} (run : step b s e = some s') :
    (s'.transferBuffer = s.transferBuffer ∧ bufferAddr s'.world.env = bufferAddr s.world.env) ∨
      (∃ cmd, directCommand s e = some cmd ∧
        bufferAddr s'.world.env = bufferAddr (b.runCommand cmd s.world).2.env ∧
        s'.transferBuffer =
          if (b.runCommand cmd s.world).1 then bufferAddr (b.runCommand cmd s.world).2.env else s.transferBuffer) ∨
      ∃ cmd, deferredCommand s e = some cmd ∧ s'.transferBuffer = s.transferBuffer ∧
        bufferAddr s'.world.env = bufferAddr (b.runCommand cmd s.world).2.env := by
  rcases step_cases run with same | ⟨cb, s₁, called, after⟩ | ⟨ok, packet, -, -, result⟩ | ⟨cmd, given, after⟩
  · exact Or.inl ⟨same.transferBuffer, congrArg (fun w => bufferAddr w.env) same.world⟩
  · have before := calledCb_setting called
    by_cases direct : cb = .runUbootCmd
    · subst direct
      rcases cbRunUbootCmd_addr b s₁ with ⟨-, sameBuffer, sameEnv⟩ | ⟨cmd, given, addr, buffer⟩
      · refine Or.inl ⟨(after.transferBuffer.trans sameBuffer).trans before.transferBuffer, ?_⟩
        rw [after.world]
        exact congrArg bufferAddr (sameEnv.trans (congrArg World.env before.world))
      · rw [before.world] at addr buffer
        rw [before.transferBuffer] at buffer
        refine Or.inr (Or.inl ⟨cmd, ?_, ?_, after.transferBuffer.trans buffer⟩)
        · rw [directCommand, called]
          exact given
        · rw [after.world]
          exact addr
    · obtain ⟨sameBuffer, sameEnv⟩ := runCb_sameAddr b s₁ direct
      refine Or.inl ⟨(after.transferBuffer.trans sameBuffer).trans before.transferBuffer, ?_⟩
      rw [after.world]
      exact congrArg bufferAddr (sameEnv.trans (congrArg World.env before.world))
  · subst result
    exact Or.inl (rxHandlerDlImage_addr b _ ok packet.length)
  · exact Or.inr (Or.inr ⟨cmd, given, after.transferBuffer, congrArg (fun w => bufferAddr w.env) after.world⟩)

/-- Commands that are not followed by a refresh leave the download address
as it is: those that fail, and those that run after their response. -/
def Refreshed (b : Board σ) (x : Session σ × Transfer) (e : Event) : Prop :=
  (∀ cmd, deferredCommand x.1 e = some cmd → KeepsAddr b x.1 cmd) ∧
    ∀ cmd, directCommand x.1 e = some cmd → (b.runCommand cmd x.1.world).1 = false → KeepsAddr b x.1 cmd

def Unmoved (b : Board σ) (x : Session σ × Transfer) (e : Event) : Prop :=
  (∀ cmd, deferredCommand x.1 e = some cmd → KeepsAddr b x.1 cmd) ∧
    ∀ cmd, directCommand x.1 e = some cmd → KeepsAddr b x.1 cmd

def Current (x : Session σ × Transfer) : Prop := x.1.transferBuffer = bufferAddr x.1.world.env

theorem Current.next {b : Board σ} {x y : Session σ × Transfer} (current : Current x)
    (next : Next b (Refreshed b) x y) : Current y := by
  obtain ⟨e, ⟨deferred, direct⟩, run, -⟩ := next
  rcases step_addr run with ⟨sameBuffer, sameAddr⟩ | ⟨cmd, given, addr, buffer⟩ | ⟨cmd, given, sameBuffer, addr⟩
  · exact sameBuffer.trans (current.trans sameAddr.symm)
  · unfold Current
    rw [addr, buffer]
    split
    · rfl
    · rename_i failed
      rw [direct cmd given (by simpa using failed)]
      exact current
  · unfold Current
    rw [addr, sameBuffer, deferred cmd given]
    exact current

theorem initial_current (b : Board σ) (world : World σ) : Current (initial b world, (⟨[], []⟩ : Transfer)) := by
  unfold Current initial fastbootSetAlt
  dsimp only
  obtain ⟨storage, devinfo, ptable, same⟩ := fastbootSetup_eq b (powerOn world)
  rw [same]
  exact (bufferAddr_boardFastbootSetup b _).symm

theorem Next.mono {b : Board σ} {allowed wider : Session σ × Transfer → Event → Prop} {x y : Session σ × Transfer}
    (imp : ∀ x e, allowed x e → wider x e) (next : Next b allowed x y) : Next b wider x y := by
  obtain ⟨e, fine, run, observed⟩ := next
  exact ⟨e, imp x e fine, run, observed⟩

theorem bufferAddr_unmoved {b : Board σ} {x y : Session σ × Transfer} (run : ReflTransGen (Next b (Unmoved b)) x y) :
    bufferAddr y.1.world.env = bufferAddr x.1.world.env := by
  induction run with
  | refl => rfl
  | tail _ next ih =>
    obtain ⟨e, ⟨deferred, direct⟩, taken, -⟩ := next
    rw [← ih]
    rcases step_addr taken with ⟨-, sameAddr⟩ | ⟨cmd, given, addr, -⟩ | ⟨cmd, given, -, addr⟩
    · exact sameAddr
    · exact addr.trans (direct cmd given)
    · exact addr.trans (deferred cmd given)

/-- In every run in which the commands without a refresh leave the download
address alone, `flash` and `upload` read where the environment says; and
that is where the last completed download was stored, as long as no command
changed the address since then. -/
theorem transferBuffer_current (b : Board σ) (world : World σ) (x : Session σ × Transfer)
    (reach : Reaches b world (Refreshed b) x) :
    x.1.transferBuffer = bufferAddr x.1.world.env ∧
      ∀ packet y z, x.1.rxHandler = .dlImage → Next b (fun _ e => e = .out true packet) x y →
        y.1.rxHandler = .command → ReflTransGen (Next b (Unmoved b)) y z →
        z.1.transferBuffer = bufferAddr x.1.world.env := by
  have current : Current x := reach.invariant (initial_current b world) (fun _ _ current next => current.next next)
  refine ⟨current, fun packet y z handler last _ later => ?_⟩
  obtain ⟨e, rfl, run, observed⟩ := last
  have atEnd : y.1.transferBuffer = x.1.transferBuffer ∧ bufferAddr y.1.world.env = bufferAddr x.1.world.env := by
    rcases (step_out run).2 with ⟨command, -⟩ | ⟨-, result⟩
    · simp [handler] at command
    · rw [result]
      exact rxHandlerDlImage_addr b _ true packet.length
  have currentY : Current y := atEnd.1.trans (current.trans atEnd.2.symm)
  have currentZ : Current z := by
    induction later with
    | refl => exact currentY
    | tail _ next ih =>
      exact ih.next (next.mono (fun _ _ unmoved => ⟨unmoved.1, fun cmd given _ => unmoved.2 cmd given⟩))
  exact currentZ.trans ((bufferAddr_unmoved later).trans atEnd.2)

def quietBoard : Board Unit := { smallBoard with runCommand := fun _ w => (true, w) }

theorem transferBuffer_current_twoPackets :
    (step quietBoard (runEvents quietBoard (initial quietBoard emptyWorld, ⟨[], []⟩) twoPackets).1
      (.out true (List.replicate 16 18))).map Session.transferBuffer = some fastbootBufAddr := by
  have reach : Reaches quietBoard emptyWorld (Refreshed quietBoard)
      (runEvents quietBoard (initial quietBoard emptyWorld, ⟨[], []⟩) twoPackets) :=
    reaches_runEvents twoPackets (fun _ _ _ => ⟨fun _ _ => rfl, fun _ _ _ => rfl⟩)
  obtain ⟨-, later⟩ := transferBuffer_current quietBoard emptyWorld _ reach
  generalize stepEq : step quietBoard _ _ = outcome
  cases outcome with
  | none => exact absurd (congrArg Option.isSome stepEq) (by decide)
  | some s' =>
    have done : s'.rxHandler = .command := by
      have handler : (step quietBoard (runEvents quietBoard (initial quietBoard emptyWorld, ⟨[], []⟩) twoPackets).1
        (.out true (List.replicate 16 18))).map Session.rxHandler = some .command := by decide
      rw [stepEq] at handler
      exact Option.some.inj handler
    have same := later (List.replicate 16 18) (s', _) (s', _) (by decide) ⟨_, rfl, stepEq, rfl⟩ done .refl
    exact congrArg some same

/-- A `UCmd:` that succeeds moves the transfer buffer away from a download
that was completed before it. -/
theorem transferBuffer_moved :
    ∃ x y z, Reaches smallBoard emptyWorld (fun _ _ => True) x ∧ x.1.rxHandler = .dlImage ∧
      Next smallBoard (fun _ e => e = .out true (List.replicate 16 18)) x y ∧ y.1.rxHandler = .command ∧
      Next smallBoard (fun _ e => e = .out true (cstr "UCmd:setenv fastboot_buffer 81000000")) y z ∧
      z.1.transferBuffer ≠ bufferAddr x.1.world.env := by
  refine ⟨_, (_, _), (_, _), reaches_runEvents twoPackets (fun _ _ _ => trivial), by decide, ⟨_, rfl, rfl, rfl⟩,
    by decide, ⟨_, rfl, rfl, rfl⟩, by decide⟩

end UuuFastboot
