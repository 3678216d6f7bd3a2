import UuuFastboot.Gadget.Runs

namespace UuuFastboot

open Word CString Relation

variable {σ : Type}

/-- The two builds of the gadget; `androidThings` is CONFIG_ANDROID_THINGS_SUPPORT. -/
inductive Build where
  | plain
  | androidThings
  deriving DecidableEq, Repr

/-- The bytes that `fastboot_set_alt` allocates for `in_req->buf`. -/
def Build.inReqSize : Build → Nat
  | .plain => epBufferSize
  | .androidThings => epBufferSize * 32

/-- `sizeof(g_a_cmd_buff)` -/
def aCmdBuffSize : Nat := 64

/-- A copy into a buffer: how many bytes are copied, and how many there is room for. -/
structure Copy where
  length : Nat
  room : Nat
  deriving DecidableEq, Repr

def Copy.Fits (c : Copy) : Prop := c.length ≤ c.room

instance Copy.decidableFits (c : Copy) : Decidable c.Fits := inferInstanceAs (Decidable (_ ≤ _))

/-- The copies of a callback whose length the host decides: the `strcpy` of `cb_run_uboot_acmd` and the `memcpy` of
`fastboot_tx_write` for an upload. The texts of all other responses come from arrays of 65 bytes. -/
def cbCopies (build : Build) (s : Session σ) : CmdCb → List Copy
  | .runUbootAcmd =>
    match (splitArg s.reqBuf).1 with
    | none => []
    | some cmd => [⟨cmd.length + 1, aCmdBuffSize⟩]
  | .upload =>
    if s.downloadBytes = 0 ∨ epBufferSize * 32 < s.downloadBytes then []
    else [⟨s.downloadBytes, build.inReqSize⟩]
  | _ => []

/-- The copies that `rx_handler_command` makes for a packet. -/
def commandCopies (build : Build) (s : Session σ) (packet : List UInt8) : List Copy :=
  match calledCb s (.out true packet) with
  | none => []
  | some (cb, s₁) => cbCopies build s₁ cb

/-- The argument of a command: what stands behind its first colon. -/
def argOf (text : CStr) : Option CStr := (strsep 58 text).map text.drop

/-- The session ends where a copy runs over the end of its buffer. -/
theorem runCb_alive_of_overrun (b : Board σ) (s : Session σ) {cb : CmdCb} {c : Copy} (made : c ∈ cbCopies .plain s cb)
    (overrun : ¬ c.Fits) : (runCb b s cb).alive = false := by
  cases cb with
  | runUbootAcmd =>
    simp only [cbCopies] at made
    simp only [runCb, cbRunUbootAcmd]
    split at made
    · cases made
    · next cmd arg =>
      obtain rfl := List.mem_singleton.mp made
      have long : ¬ cmd.length < 64 := fun short => overrun short
      simp only [arg, if_neg long]
  | upload =>
    simp only [cbCopies] at made
    simp only [runCb, cbUpload]
    split at made
    · cases made
    · next admitted =>
      obtain rfl := List.mem_singleton.mp made
      have long : epBufferSize < s.downloadBytes := Nat.lt_of_not_le overrun
      rw [if_neg admitted]
      simp only [txWriteStr_eq, if_pos long]
  | _ => cases made

theorem textAt_eq_takeWhile {m : Nat → UInt8} {off bound : Nat} {l : List UInt8}
    (bytes : ∀ i, ∀ below : i < l.length, m (off + i) = l[i]) (ends : m (off + l.length) = 0) (room : l.length < bound) :
    textAt m off bound = l.takeWhile (· ≠ 0) := by
  induction l generalizing off bound with
  | nil =>
    obtain ⟨bound, rfl⟩ : ∃ n, bound = n + 1 := ⟨bound - 1, by simp at room; omega⟩
    rw [textAt, if_pos (by simpa using ends)]
    rfl
  | cons c rest ih =>
    obtain ⟨bound, rfl⟩ : ∃ n, bound = n + 1 := ⟨bound - 1, by simp at room; omega⟩
    have head : m off = c := bytes 0 (by simp)
    rw [textAt, head]
    by_cases zero : c = 0
    · rw [if_pos zero, List.takeWhile_cons_of_neg (by simp [zero])]
    · rw [if_neg zero, List.takeWhile_cons_of_pos (by simp [zero]), ih]
      · intro i below
        have byte := bytes (i + 1) (by simpa using below)
        rw [show off + 1 + i = off + (i + 1) by omega, byte]
        rfl
      · rw [show off + 1 + rest.length = off + (rest.length + 1) by omega]
        exact ends
      · simpa using room

theorem splitArg_receive (buf : Nat → UInt8) {packet : List UInt8} (short : packet.length < epBufferSize) :
    (splitArg (Function.update (receive buf packet) packet.length 0)).1 = argOf (packetText packet) := by
  have text : textAt (Function.update (receive buf packet) packet.length 0) 0 epBufferSize = packetText packet := by
    refine textAt_eq_takeWhile (fun i below => ?_) ?_ short
    · rw [Nat.zero_add, Function.update_of_ne (by omega), receive_of_lt buf below]
    · rw [Nat.zero_add, Function.update_self]
  rw [splitArg, text, argOf]
  split
  · next none => rw [none]; rfl
  · next behind some => rw [some]; rfl

def foundCb (s : Session σ) (packet : List UInt8) : Option CmdCb :=
  (findCmd (receive s.reqBuf packet)).map CmdDispatchInfo.cb

theorem commandCopies_eq (build : Build) {s : Session σ} {packet : List UInt8} (command : s.rxHandler = .command)
    (admitted : packet.length < s.reqLength) :
    commandCopies build s packet =
      match foundCb s packet with
      | none => []
      | some cb => cbCopies build { s with
          reqBuf := Function.update (receive s.reqBuf packet) packet.length 0
          outQueued := false } cb := by
  cases found : findCmd (receive s.reqBuf packet) with
  | none => simp only [commandCopies, calledCb, foundCb, command, found, Option.map_none]
  | some entry => simp only [commandCopies, calledCb, foundCb, command, found, if_pos admitted, Option.map_some]

/-- Every copy that a packet leads to fits into its buffer exactly when the packet is not an `ACmd:` with a command
of 64 bytes or more, and in the plain build not an upload of more than EP_BUFFER_SIZE bytes. -/
theorem commandCopies_fit_iff (build : Build) (s : Session σ) (packet : List UInt8) (command : s.rxHandler = .command)
    (length : s.reqLength = epBufferSize) (admitted : packet.length < epBufferSize) :
    (∀ c ∈ commandCopies build s packet, c.Fits) ↔
      (foundCb s packet = some .runUbootAcmd → ∀ text, argOf (packetText packet) = some text →
          text.length < aCmdBuffSize) ∧
        (foundCb s packet = some .upload → build = .androidThings ∨ s.downloadBytes ≤ epBufferSize ∨
          epBufferSize * 32 < s.downloadBytes) := by
  rw [commandCopies_eq build command (by omega)]
  cases found : foundCb s packet with
  | none => simp
  | some cb =>
    dsimp only
    cases cb with
    | runUbootAcmd =>
      simp only [cbCopies, splitArg_receive s.reqBuf admitted, reduceCtorEq, Option.some.injEq, false_imp_iff, and_true,
        true_imp_iff]
      cases argOf (packetText packet) with
      | none => simp
      | some text => simp [Copy.Fits]
    | upload =>
      simp only [cbCopies, reduceCtorEq, Option.some.injEq, false_imp_iff, true_and, true_imp_iff]
      split
      · next refused =>
        refine ⟨fun _ => Or.inr ?_, fun _ c made => absurd made List.not_mem_nil⟩
        omega
      · next taken =>
        simp only [List.mem_singleton, forall_eq, Copy.Fits]
        cases build with
        | plain => simp only [Build.inReqSize, reduceCtorEq, false_or]; omega
        | androidThings => simp only [Build.inReqSize, true_or, iff_true]; omega
    | _ => simp [cbCopies]

def freshSession : Session Unit := initial smallBoard emptyWorld

theorem acmd_fits :
    commandCopies .plain freshSession (cstr "ACmd:reset") = [⟨6, 64⟩] ∧
      ∀ c ∈ commandCopies .plain freshSession (cstr "ACmd:reset"), c.Fits := by
  refine ⟨by decide +kernel, (commandCopies_fit_iff .plain freshSession (cstr "ACmd:reset") rfl rfl (by decide)).mpr
    ⟨fun _ text arg => ?_, fun upload => absurd upload (by decide +kernel)⟩⟩
  have reset : argOf (packetText (cstr "ACmd:reset")) = some (cstr "reset") := by decide +kernel
  rw [reset] at arg
  cases arg
  decide

def longDownload : List Event :=
  [.out true (cstr "download:00001001"), .out true (List.replicate 4096 0), .out true [0]]

/-- A command of 64 bytes for `ACmd:` overruns its buffer by the NUL, and in the plain build an upload of 4097 bytes
overruns that of the IN request. -/
theorem copies_overrun :
    (∃ x, Reaches smallBoard emptyWorld (fun _ _ => True) x ∧
      ∃ c ∈ commandCopies .plain x.1 (cstr "ACmd:" ++ List.replicate 64 97), ¬ c.Fits) ∧
    ∃ x, Reaches smallBoard emptyWorld (fun _ _ => True) x ∧
      ∃ c ∈ commandCopies .plain x.1 (cstr "upload"), ¬ c.Fits := by
  refine ⟨⟨_, .refl, ⟨65, 64⟩, by decide +kernel, by decide⟩, _,
    reaches_runEvents longDownload (fun _ _ _ => trivial), ⟨4097, 4096⟩, by decide +kernel, by decide⟩

end UuuFastboot
