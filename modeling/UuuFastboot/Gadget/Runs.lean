import UuuFastboot.Gadget.Frame
import Mathlib.Logic.Relation

namespace UuuFastboot

open Word CString Relation

variable {σ : Type}

/-- What an observer of the bus notes of the running download: the response
that announced it and the bytes received for it. -/
structure Transfer where
  announced : CStr
  payload : List UInt8

def Transfer.observe (r : Transfer) (s : Session σ) (e : Event) (s' : Session σ) : Transfer :=
  match s.rxHandler, e with
  | .dlImage, .out true packet => { r with payload := r.payload ++ packet }
  | .dlImage, _ => r
  | .command, _ => if s'.rxHandler = .dlImage then ⟨s'.response, []⟩ else r

variable {r : Transfer} {s s' : Session σ} {e : Event} {b : Board σ}

theorem Transfer.observe_packet {packet : List UInt8} (handler : s.rxHandler = .dlImage) :
    r.observe s (.out true packet) s' = { r with payload := r.payload ++ packet } := by
  simp only [observe, handler]

theorem Transfer.observe_start (handler : s.rxHandler = .command)
    (started : s'.rxHandler = .dlImage) :
    r.observe s e s' = ⟨s'.response, []⟩ := by
  simp only [observe, handler, if_pos started]

theorem Transfer.observe_idle (handler : s.rxHandler = .command)
    (idle : s'.rxHandler = .command) : r.observe s e s' = r := by
  simp only [observe, handler, idle, reduceCtorEq, if_false]

theorem Transfer.observe_dlImage (handler : s.rxHandler = .dlImage)
    (other : ∀ packet, e ≠ .out true packet) : r.observe s e s' = r := by
  unfold observe
  rw [handler]
  split
  · rename_i packet _
    exact absurd rfl (other packet)
  · rfl
  · rename_i impossible
    cases impossible

/-- One event of a run in which only the `allowed` events happen. -/
def Next (b : Board σ) (allowed : Session σ × Transfer → Event → Prop) (x y : Session σ × Transfer) : Prop :=
  ∃ e, allowed x e ∧ step b x.1 e = some y.1 ∧ y.2 = x.2.observe x.1 e y.1

/-- The states of the runs that start when the board starts the gadget. -/
def Reaches (b : Board σ) (world : World σ) (allowed : Session σ × Transfer → Event → Prop)
    (x : Session σ × Transfer) : Prop :=
  ReflTransGen (Next b allowed) (initial b world, ⟨[], []⟩) x

theorem Reaches.invariant {world : World σ} {allowed : Session σ × Transfer → Event → Prop}
    {I : Session σ × Transfer → Prop} (start : I (initial b world, ⟨[], []⟩))
    (keeps : ∀ x y, I x → Next b allowed x y → I y) {x : Session σ × Transfer}
    (reach : Reaches b world allowed x) : I x := by
  induction reach with
  | refl => exact start
  | tail _ next ih => exact keeps _ _ ih next

theorem step_out {ok : Bool} {packet : List UInt8}
    (run : step b s (.out ok packet) = some s') :
    packet.length ≤ epBufferSize ∧
      ((s.rxHandler = .command ∧
          s' = rxHandlerCommand b { s with reqBuf := receive s.reqBuf packet, outQueued := false } ok packet.length) ∨
        (s.rxHandler = .dlImage ∧
          s' = rxHandlerDlImage b { s with reqBuf := receive s.reqBuf packet, outQueued := false } ok packet.length)) := by
  simp only [step] at run
  split at run
  · rename_i possible
    simp only [Bool.and_eq_true, decide_eq_true_eq] at possible
    refine ⟨possible.2, ?_⟩
    split at run
    · rename_i handler
      exact Or.inl ⟨handler, (Option.some.inj run).symm⟩
    · rename_i handler
      exact Or.inr ⟨handler, (Option.some.inj run).symm⟩
  · cases run

theorem step_inDone {ok : Bool} (run : step b s (.inDone ok) = some s') :
    s' = completeIn b s ok := by
  simp only [step] at run
  split at run
  · exact (Option.some.inj run).symm
  · cases run

theorem step_setAlt (run : step b s .setAlt = some s') :
    s' = fastbootSetAlt s := by
  simp only [step] at run
  split at run
  · exact (Option.some.inj run).symm
  · cases run

/-- The callback that a packet runs, and the state it starts in. -/
def calledCb (s : Session σ) : Event → Option (CmdCb × Session σ)
  | .out true packet =>
    match s.rxHandler, findCmd (receive s.reqBuf packet) with
    | .command, some entry =>
      if packet.length < s.reqLength then
        some (entry.cb, { s with
          reqBuf := Function.update (receive s.reqBuf packet) packet.length 0
          outQueued := false })
      else none
    | _, _ => none
  | _ => none

/-- The command line of the last `ACmd:`, which every response that reaches
the host runs from then on. -/
def deferredCommand (s : Session σ) : Event → Option CStr
  | .inDone true => if s.txHandler = .doAcmdComplete then some s.aCmdBuff else none
  | _ => none

/-- The part of the state that only commands touch. -/
structure SameSetting (s s' : Session σ) : Prop where
  world : s'.world = s.world
  transferBuffer : s'.transferBuffer = s.transferBuffer
  devinfo : s'.devinfo = s.devinfo
  ptable : s'.ptable = s.ptable

theorem calledCb_setting {s₁ : Session σ} {cb : CmdCb} (called : calledCb s e = some (cb, s₁)) :
    SameSetting s s₁ := by
  unfold calledCb at called
  split at called
  · split at called
    · split at called
      · obtain ⟨-, rfl⟩ := Prod.mk.inj (Option.some.inj called)
        exact ⟨rfl, rfl, rfl, rfl⟩
      · cases called
    · cases called
  · cases called

theorem step_cases (run : step b s e = some s') :
    SameSetting s s' ∨
      (∃ cb s₁, calledCb s e = some (cb, s₁) ∧ SameSetting (runCb b s₁ cb) s') ∨
      (∃ ok packet, e = .out ok packet ∧ s.rxHandler = .dlImage ∧
        s' = rxHandlerDlImage b { s with reqBuf := receive s.reqBuf packet, outQueued := false } ok packet.length) ∨
      ∃ cmd, deferredCommand s e = some cmd ∧
        SameSetting { s with world := (b.runCommand cmd s.world).2 } s' := by
  cases e with
  | out ok packet =>
    rcases (step_out run).2 with ⟨handler, result⟩ | ⟨handler, result⟩
    · subst result
      unfold rxHandlerCommand
      split
      · exact Or.inl ⟨rfl, rfl, rfl, rfl⟩
      · rename_i accepted
        obtain rfl : ok = true := by
          cases ok
          · simp at accepted
          · rfl
        dsimp only
        split
        · refine Or.inl ?_
          constructor <;> simp only [txWriteStr_eq]
        · rename_i entry found
          split
          · rename_i short
            refine Or.inr (Or.inl ⟨entry.cb, _, ?_, ⟨rfl, rfl, rfl, rfl⟩⟩)
            simp only [calledCb, handler, found, short, if_true]
          · refine Or.inl ?_
            constructor <;> simp only [txWriteStr_eq]
    · exact Or.inr (Or.inr (Or.inl ⟨ok, packet, rfl, handler, result⟩))
  | inDone ok =>
    rw [step_inDone run, completeIn_eq]
    by_cases deferred : s.txHandler = .doAcmdComplete ∧ ok = true
    · refine Or.inr (Or.inr (Or.inr ⟨s.aCmdBuff, ?_, ?_⟩))
      · rw [deferred.2]
        exact if_pos deferred.1
      · constructor <;> simp only [worldAfterIn, if_pos deferred]
    · refine Or.inl ?_
      constructor <;> simp only [worldAfterIn, if_neg deferred]
  | setAlt =>
    rw [step_setAlt run]
    exact Or.inl ⟨rfl, rfl, rfl, rfl⟩

/-- A run along a list of events; those that cannot happen are skipped. -/
def runEvents (b : Board σ) (x : Session σ × Transfer) : List Event → Session σ × Transfer
  | [] => x
  | e :: rest =>
    match step b x.1 e with
    | some s' => runEvents b (s', x.2.observe x.1 e s') rest
    | none => runEvents b x rest

theorem reaches_runEvents {world : World σ} {allowed : Session σ × Transfer → Event → Prop}
    (events : List Event) (all : ∀ x, ∀ e ∈ events, allowed x e) :
    Reaches b world allowed (runEvents b (initial b world, ⟨[], []⟩) events) := by
  have run : ∀ x, Reaches b world allowed x → Reaches b world allowed (runEvents b x events) := by
    induction events with
    | nil => exact fun x reach => reach
    | cons e rest ih =>
      intro x reach
      have later := ih (fun x e member => all x e (List.mem_cons_of_mem _ member))
      rw [runEvents]
      split
      · rename_i s' possible
        exact later _ (.tail reach ⟨e, all x e (List.mem_cons_self ..), possible, rfl⟩)
      · exact later x reach
  exact run _ .refl

/-- `setenv NAME VALUE`, the one command of a small board. -/
def setenvCommand (cmd : CStr) (w : World σ) : Bool × World σ :=
  match cmd.splitOnP (· == 32) with
  | [verb, name, value] =>
    if verb = cstr "setenv" then (true, { w with env := setenv w.env name value }) else (false, w)
  | _ => (false, w)

def smallBoard : Board Unit where
  maxpacket := 512
  runCommand := setenvCommand
  tableOf _ _ := []
  load _ s := (true, s)
  flash _ s := (cstr "OKAY", s)
  erase _ s := (cstr "OKAY", s)
  getvar _ _ := cstr "OKAY"
  boardDefaults := []
  nullText := []
  maxpacket_mem := Board.highSpeed_mem
  boardDefaults_ne := Board.noDefaults_ne

def emptyWorld : World Unit := ⟨fun _ => none, fun _ => 0, ()⟩

end UuuFastboot
