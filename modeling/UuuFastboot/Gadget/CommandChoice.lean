import UuuFastboot.Gadget.Download

namespace UuuFastboot

open CString

variable {σ : Type}

/-- The gadget after a packet for which the table search gave `choice`: the
callback has run on the terminated packet, or an unknown command has been
reported. -/
def actOn (b : Board σ) (s : Session σ) (packet : List UInt8) (choice : Option CmdDispatchInfo) : Session σ :=
  let buf := receive s.reqBuf packet
  let s :=
    match choice with
    | none => txWriteStr b { s with reqBuf := buf, outQueued := false } (cstr "FAILunknown command")
    | some entry => runCb b { s with reqBuf := Function.update buf packet.length 0, outQueued := false } entry.cb
  { s with reqBuf := Function.update s.reqBuf 0 0, outQueued := true }

variable {packet : List UInt8} {entry : CmdDispatchInfo}

theorem step_actOn {b : Board σ} {x : Session σ × Transfer} (inv : DownloadInv b x)
    (handler : x.1.rxHandler = .command) (alive : x.1.alive = true) (queued : x.1.outQueued = true)
    (short : packet.length < epBufferSize) :
    step b x.1 (.out true packet) = some (actOn b x.1 packet (findCmd (receive x.1.reqBuf packet))) := by
  have length := inv.idle handler
  have fits : packet.length ≤ epBufferSize := short.le
  simp only [step, alive, queued, fits, decide_true, Bool.and_self, if_true, handler, rxHandlerCommand, actOn,
    Bool.true_eq_false, length, short]
  cases findCmd (receive x.1.reqBuf packet) <;> rfl

/-- The packet is the beginning, but not the whole, of the name of the entry. -/
def Begins (packet : List UInt8) (entry : CmdDispatchInfo) : Prop :=
  packet.length < entry.cmd.length ∧ packet.isPrefixOf entry.cmd = true

theorem completed_of_begins (begins : Begins packet entry) :
    Completed (fun i => entry.cmd.getD i 0) packet entry :=
  ⟨begins.1, begins.2, fun _ _ _ => rfl⟩

theorem not_completed_zero (member : entry ∈ cmdDispatchInfo) :
    ¬ Completed (fun _ => 0) packet entry := by
  rintro ⟨long, -, stale⟩
  have zero := stale (entry.cmd.length - 1) (by omega) (by omega)
  have last : entry.cmd.length - 1 < entry.cmd.length := by omega
  have value : entry.cmd.getD (entry.cmd.length - 1) 0 = entry.cmd[entry.cmd.length - 1] := by
    simp [List.getD, last]
  rw [value] at zero
  exact cmdDispatchInfo_nonzero entry member _ (List.getElem_mem last) zero.symm

theorem mem_of_entriesBefore (member : entry ∈ entriesBefore packet) :
    entry ∈ cmdDispatchInfo := ( List.takeWhile_prefix _).subset member

theorem findCmd_independent_iff (packet : List UInt8) :
    (∀ buf buf', findCmd (receive buf packet) = findCmd (receive buf' packet)) ↔
      ∀ entry ∈ entriesBefore packet, ¬ Begins packet entry := by
  constructor
  · intro same entry member begins
    have zero : findCmd (receive (fun _ => 0) packet) = wantedCmd packet :=
      (findCmd_receive_iff _ packet).mpr (fun e before => not_completed_zero (mem_of_entriesBefore before))
    have wanted := (same (fun i => entry.cmd.getD i 0) (fun _ => 0)).trans zero
    exact (findCmd_receive_iff _ packet).mp wanted entry member (completed_of_begins begins)
  · intro none_begins buf buf'
    have wanted : ∀ buf, findCmd (receive buf packet) = wantedCmd packet := fun buf =>
      (findCmd_receive_iff buf packet).mpr (fun e before completed => none_begins e before ⟨completed.1, completed.2.1⟩)
    rw [wanted buf, wanted buf']

/-- In every state that a session reaches, and for every packet that ends
in front of the end of the buffer: the gadget acts on the entry that the
search finds; this is the entry that the packet asks for exactly when no
entry in front of it is completed by bytes left behind; and it does not
depend on such bytes exactly when the packet begins none of those entries. -/
theorem command_choice_iff (b : Board σ) (world : World σ) (x : Session σ × Transfer) (packet : List UInt8)
    (reach : Reaches b world (fun _ _ => True) x) (handler : x.1.rxHandler = .command) (alive : x.1.alive = true)
    (queued : x.1.outQueued = true) (short : packet.length < epBufferSize) :
    step b x.1 (.out true packet) = some (actOn b x.1 packet (findCmd (receive x.1.reqBuf packet))) ∧
      (findCmd (receive x.1.reqBuf packet) = wantedCmd packet ↔
        ∀ entry ∈ entriesBefore packet, ¬ Completed x.1.reqBuf packet entry) ∧
      ((∀ buf buf', findCmd (receive buf packet) = findCmd (receive buf' packet)) ↔
        ∀ entry ∈ entriesBefore packet, ¬ Begins packet entry) :=
  ⟨step_actOn reach.downloadInv handler alive queued short, findCmd_receive_iff _ _, findCmd_independent_iff _⟩

theorem command_choice_iff_erase :
    findCmd (receive (initial smallBoard emptyWorld).reqBuf (cstr "erase:data")) = wantedCmd (cstr "erase:data") := by
  have choice := command_choice_iff smallBoard emptyWorld (initial smallBoard emptyWorld, ⟨[], []⟩)
    (cstr "erase:data") .refl (by decide) (by decide) (by decide) (by decide)
  exact choice.2.1.mpr (by decide)

/-- An unknown packet `xxxt` leaves a `t` behind, and `boo` boots. -/
theorem boo_boots :
    ∃ x, Reaches smallBoard emptyWorld (fun _ _ => True) x ∧ x.1.rxHandler = .command ∧ x.1.alive = true ∧
      x.1.outQueued = true ∧ wantedCmd (cstr "boo") = none ∧
      (findCmd (receive x.1.reqBuf (cstr "boo"))).map CmdDispatchInfo.cb = some .boot := by
  refine ⟨_, reaches_runEvents [.out true (cstr "xxxt")] (fun _ _ _ => trivial), ?_⟩
  decide

end UuuFastboot
