import UuuFastboot.Lib.CString
import UuuFastboot.Lib.Overlay

namespace UuuFastboot

open CString Overlay

/-- The callbacks that `cmd_dispatch_info` names on this target. -/
inductive CmdCb where
  | rebootBootloader
  | reboot
  | getvar
  | upload
  | download
  | boot
  | cont
  | flash
  | erase
  | runUbootCmd
  | runUbootAcmd
  deriving DecidableEq, Repr

structure CmdDispatchInfo where
  cmd : CStr
  cb : CmdCb
  deriving DecidableEq, Repr

def cmdDispatchInfo : List CmdDispatchInfo :=
  [⟨cstr "reboot-bootloader", .rebootBootloader⟩,
   ⟨cstr "reboot", .reboot⟩,
   ⟨cstr "getvar:", .getvar⟩,
   ⟨cstr "upload", .upload⟩,
   ⟨cstr "get_staged", .upload⟩,
   ⟨cstr "download:", .download⟩,
   ⟨cstr "boot", .boot⟩,
   ⟨cstr "continue", .cont⟩,
   ⟨cstr "flash", .flash⟩,
   ⟨cstr "erase", .erase⟩,
   ⟨cstr "UCmd:", .runUbootCmd⟩,
   ⟨cstr "ACmd:", .runUbootAcmd⟩]

/-- The table search of `rx_handler_command`, over the bytes of the request
buffer as they are: the terminator is not there yet. -/
def findCmd (cmdbuf : Nat → UInt8) : Option CmdDispatchInfo :=
  cmdDispatchInfo.find? (fun entry => startsWith cmdbuf 0 entry.cmd)

/-- The request buffer after the controller put a packet into it. -/
def receive (buf : Nat → UInt8) (packet : List UInt8) : Nat → UInt8 :=
  overlay buf 0 packet.length (fun i => packet.getD i 0)

def packetText (packet : List UInt8) : CStr := packet.takeWhile (· ≠ 0)

/-- What the search should give: the first entry whose name the text of the
packet begins with. -/
def wantedCmd (packet : List UInt8) : Option CmdDispatchInfo :=
  cmdDispatchInfo.find? (fun entry => entry.cmd.isPrefixOf (packetText packet))

/-- The name of `entry` begins with the packet and goes on in the bytes that
an earlier packet left behind. -/
def Completed (buf : Nat → UInt8) (packet : List UInt8) (entry : CmdDispatchInfo) : Prop :=
  packet.length < entry.cmd.length ∧ packet.isPrefixOf entry.cmd = true ∧
    ∀ i < entry.cmd.length, packet.length ≤ i → buf i = entry.cmd.getD i 0

instance (buf : Nat → UInt8) (packet : List UInt8) (entry : CmdDispatchInfo) :
    Decidable (Completed buf packet entry) :=
  inferInstanceAs (Decidable (_ ∧ _ ∧ _))

/-- The entries that come before the one the packet asks for, or all of
them when it asks for none. -/
def entriesBefore (packet : List UInt8) : List CmdDispatchInfo :=
  cmdDispatchInfo.takeWhile (fun entry => !entry.cmd.isPrefixOf (packetText packet))

theorem cmdDispatchInfo_nonzero : ∀ entry ∈ cmdDispatchInfo, ∀ c ∈ entry.cmd, c ≠ 0 := by
  decide +kernel

theorem receive_of_lt (buf : Nat → UInt8) {packet : List UInt8} {i : Nat} (below : i < packet.length) :
    receive buf packet i = packet[i] := by
  rw [receive, overlay_of_mem (Nat.zero_le _) (by omega), Nat.sub_zero]
  simp [List.getD, below]

theorem receive_of_ge {buf : Nat → UInt8} {packet : List UInt8} {i : Nat} (beyond : packet.length ≤ i) :
    receive buf packet i = buf i := overlay_of_ge (by omega)

theorem isPrefix_takeWhile_iff {α : Type} {p : α → Bool} {s l : List α} (good : ∀ c ∈ s, p c = true) :
    s <+: l.takeWhile p ↔ s <+: l := by
  constructor
  · exact fun pre => pre.trans (List.takeWhile_prefix p)
  · intro pre
    induction s generalizing l with
    | nil => exact List.nil_prefix
    | cons c rest ih =>
      obtain ⟨tail, rfl⟩ := pre
      rw [List.cons_append, List.takeWhile_cons_of_pos (good c (List.mem_cons_self ..)), List.cons_prefix_cons]
      exact ⟨rfl, ih (fun c member => good c (List.mem_cons_of_mem _ member)) (List.prefix_append _ _)⟩

theorem isPrefix_iff_getElem {α : Type} {s l : List α} (short : s.length ≤ l.length) :
    s <+: l ↔ ∀ i, ∀ below : i < s.length, l[i] = s[i] := by
  rw [List.prefix_iff_getElem]
  exact ⟨fun ⟨_, all⟩ i below => (all i below).symm, fun all => ⟨short, fun i below => (all i below).symm⟩⟩

theorem startsWith_receive {buf : Nat → UInt8} {packet : List UInt8} {entry : CmdDispatchInfo}
    (member : entry ∈ cmdDispatchInfo) :
    startsWith (receive buf packet) 0 entry.cmd = true ↔
      entry.cmd.isPrefixOf (packetText packet) = true ∨ Completed buf packet entry := by
  have nonzero : ∀ c ∈ entry.cmd, decide (c ≠ 0) = true := by
    simpa using cmdDispatchInfo_nonzero entry member
  rw [startsWith_iff, List.isPrefixOf_iff_prefix, packetText, isPrefix_takeWhile_iff nonzero]
  by_cases short : entry.cmd.length ≤ packet.length
  · rw [isPrefix_iff_getElem short]
    constructor
    · intro all
      refine Or.inl fun i below => ?_
      rw [← receive_of_lt buf (by omega : i < packet.length)]
      simpa using all i below
    · rintro (all | ⟨long, -⟩) i below
      · rw [Nat.zero_add, receive_of_lt buf (by omega)]
        exact all i below
      · omega
  · constructor
    · intro all
      refine Or.inr ⟨by omega, ?_, fun i below beyond => ?_⟩
      · rw [List.isPrefixOf_iff_prefix, isPrefix_iff_getElem (by omega)]
        intro i below
        rw [← receive_of_lt buf below, ← all i (by omega), Nat.zero_add]
      · have same := all i below
        rw [Nat.zero_add, receive_of_ge beyond] at same
        simpa [List.getD, below] using same
    · rintro (pre | ⟨-, pre, stale⟩) i below
      · exact absurd pre.length_le short
      · rw [Nat.zero_add]
        by_cases inside : i < packet.length
        · rw [List.isPrefixOf_iff_prefix, isPrefix_iff_getElem (by omega)] at pre
          rw [receive_of_lt buf inside, pre i inside]
        · rw [receive_of_ge (by omega), stale i below (by omega)]
          simp [List.getD, below]

theorem find?_eq_find?_iff {α : Type} {wanted found : α → Bool} {extra : α → Prop} {l : List α}
    (either : ∀ x ∈ l, found x = true ↔ wanted x = true ∨ extra x) :
    l.find? found = l.find? wanted ↔ ∀ x ∈ l.takeWhile (fun x => !wanted x), ¬ extra x := by
  induction l with
  | nil => simp
  | cons x rest ih =>
    have rest_either := ih (fun y member => either y (List.mem_cons_of_mem _ member))
    have here := either x (List.mem_cons_self ..)
    by_cases want : wanted x = true
    · rw [List.find?_cons_of_pos (here.mpr (Or.inl want)), List.find?_cons_of_pos want]
      simp [want]
    · rw [List.find?_cons_of_neg want, List.takeWhile_cons_of_pos (by simp [want])]
      by_cases more : extra x
      · rw [List.find?_cons_of_pos (here.mpr (Or.inr more))]
        constructor
        · intro same
          exact absurd (List.find?_some same.symm) want
        · intro none_extra
          exact absurd more (none_extra x (List.mem_cons_self ..))
      · have miss : ¬ found x = true := fun hit => (here.mp hit).elim want more
        rw [List.find?_cons_of_neg miss, rest_either]
        simp [more]

/-- The search finds the entry the packet asks for exactly when no entry in
front of it is completed by bytes left in the buffer. -/
theorem findCmd_receive_iff (buf : Nat → UInt8) (packet : List UInt8) :
    findCmd (receive buf packet) = wantedCmd packet ↔
      ∀ entry ∈ entriesBefore packet, ¬ Completed buf packet entry :=
  find?_eq_find?_iff fun _ member => startsWith_receive member

end UuuFastboot
