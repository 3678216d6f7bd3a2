import UuuFastboot.Gadget.Runs

namespace UuuFastboot

open Word CString Radix Overlay

variable {σ : Type}

variable {mem src : Nat → UInt8} {len i : Nat} {b : Board σ} {x y : Session σ × Transfer}
  {s' : Session σ}

theorem memcpy_inside {dst : Nat} (below : i < len) (word : len ≤ 2 ^ 32) :
    memcpy mem dst len src (w32 (dst + i)) = src i := by
  have offset : w32 (w32 (dst + i) + (2 ^ 32 - w32 dst)) = i := by
    unfold w32
    omega
  rw [memcpy, offset, if_pos below]

theorem memcpy_changed {dst a : Nat} (address : a < 2 ^ 32)
    (changed : memcpy mem dst len src a ≠ mem a) : ∃ i < len, a = w32 (dst + i) := by
  by_cases inside : w32 (a + (2 ^ 32 - w32 dst)) < len
  · refine ⟨_, inside, ?_⟩
    unfold w32
    omega
  · exact absurd (if_neg inside) changed

theorem memcpy_before {base start : Nat} (before : i < start)
    (word : start + len ≤ 2 ^ 32) : memcpy mem (base + start) len src (w32 (base + i)) = mem (w32 (base + i)) := by
  refine if_neg ?_
  unfold w32
  omega

theorem rxBytesExpected_spec {maxpacket size bytes : Nat} (packets : maxpacket ∈ [64, 512, 1024])
    (more : bytes < size) (bounded : size ≤ fastbootBufSize) :
    0 < rxBytesExpected maxpacket size bytes ∧ maxpacket ∣ rxBytesExpected maxpacket size bytes ∧
      rxBytesExpected maxpacket size bytes ≤ epBufferSize := by
  have limit : fastbootBufSize = 0x7000000 := rfl
  have remain : w32 (size + (2 ^ 32 - bytes)) = size - bytes := by
    unfold w32
    omega
  have packet : maxpacket = 64 ∨ maxpacket = 512 ∨ maxpacket = 1024 := by simpa using packets
  have buffer : epBufferSize = 4096 := rfl
  unfold rxBytesExpected
  rw [remain, if_neg (by omega)]
  have positive : 0 < size - bytes := by omega
  generalize size - bytes = left at positive ⊢
  by_cases large : epBufferSize < left
  · rw [if_pos large, buffer]
    rcases packet with rfl | rfl | rfl <;> decide
  · rw [if_neg large]
    dsimp only
    by_cases padded : 0 < left % maxpacket
    · rw [if_pos padded]
      rcases packet with rfl | rfl | rfl <;> omega
    · rw [if_neg padded]
      rcases packet with rfl | rfl | rfl <;> omega

/-- A packet that leaves the download unfinished, or that finishes it. -/
structure DlImageStep (b : Board σ) (s s' : Session σ) (actual transferSize : Nat) : Prop where
  transfer : transferSize = min actual (s.downloadSize - s.downloadBytes)
  mem : s'.world.mem = memcpy s.world.mem (bufferAddr s.world.env + s.downloadBytes) transferSize s.reqBuf
  addr : bufferAddr s'.world.env = bufferAddr s.world.env
  bytes : s'.downloadBytes = s.downloadBytes + transferSize
  outQueued : s'.outQueued = true
  unfinished : s.downloadBytes + transferSize < s.downloadSize →
    s'.rxHandler = s.rxHandler ∧ s'.downloadSize = s.downloadSize ∧
      s'.reqLength = rxBytesExpected b.maxpacket s.downloadSize s'.downloadBytes
  finished : ¬ s.downloadBytes + transferSize < s.downloadSize →
    s'.rxHandler = .command ∧ s'.reqLength = epBufferSize ∧ s'.response = cstr "OKAY" ∧
      s'.world.env (cstr "fastboot_bytes") = some (hexText s'.downloadBytes)

theorem rxHandlerDlImage_ok (b : Board σ) (s : Session σ) (actual : Nat) (more : s.downloadBytes < s.downloadSize)
    (bounded : s.downloadSize ≤ fastbootBufSize) :
    ∃ transferSize, DlImageStep b s (rxHandlerDlImage b s true actual) actual transferSize := by
  have limit : fastbootBufSize = 0x7000000 := rfl
  have left : w32 (s.downloadSize + (2 ^ 32 - s.downloadBytes)) = s.downloadSize - s.downloadBytes := by
    unfold w32
    omega
  refine ⟨min actual (s.downloadSize - s.downloadBytes), ?_⟩
  have transfer : (if actual < s.downloadSize - s.downloadBytes then actual else s.downloadSize - s.downloadBytes) =
      min actual (s.downloadSize - s.downloadBytes) := by
    split <;> omega
  unfold rxHandlerDlImage
  dsimp only
  rw [left, transfer]
  generalize sizeEq : min actual (s.downloadSize - s.downloadBytes) = t
  have exact : w32 (s.downloadBytes + t) = s.downloadBytes + t := w32_of_lt (by omega)
  rw [exact, if_neg (by decide)]
  have addr : bufferAddr (setenvHex s.world.env (cstr "fastboot_buffer") (bufferAddr s.world.env)) =
      bufferAddr s.world.env := bufferAddr_setenvHex_self (bufferAddr_lt _)
  by_cases done : s.downloadSize ≤ s.downloadBytes + t
  · rw [if_pos done, txWriteStr_eq]
    dsimp only
    refine ⟨sizeEq.symm, rfl, ?_, rfl, rfl, fun unfinished => absurd unfinished (by omega), fun _ => ?_⟩
    · rw [setenvHex, bufferAddr_setenv_of_ne (by decide)]
      exact addr
    · exact ⟨rfl, rfl, rfl, by simp only [setenvHex, setenv_self]⟩
  · rw [if_neg done]
    exact ⟨sizeEq.symm, rfl, addr, rfl, rfl, fun _ => ⟨rfl, rfl, rfl⟩, fun finished => absurd finished (by omega)⟩

structure DownloadInv (b : Board σ) (x : Session σ × Transfer) : Prop where
  idle : x.1.rxHandler = .command → x.1.reqLength = epBufferSize
  more : x.1.rxHandler = .dlImage → x.1.downloadBytes < x.1.downloadSize
  bounded : x.1.rxHandler = .dlImage → x.1.downloadSize ≤ fastbootBufSize
  request : x.1.rxHandler = .dlImage →
    x.1.reqLength = rxBytesExpected b.maxpacket x.1.downloadSize x.1.downloadBytes
  announced : x.1.rxHandler = .dlImage → x.2.announced = cstr "DATA" ++ hexText8 x.1.downloadSize
  received : x.1.rxHandler = .dlImage → x.2.payload.length = x.1.downloadBytes

theorem DownloadInv.of_command (handler : x.1.rxHandler = .command)
    (length : x.1.reqLength = epBufferSize) : DownloadInv b x where
  idle _ := length
  more active := by simp [handler] at active
  bounded active := by simp [handler] at active
  request active := by simp [handler] at active
  announced active := by simp [handler] at active
  received active := by simp [handler] at active

theorem DownloadInv.of_accepted {size : Nat} (accepted : Accepted b x.1 size)
    (announced : x.2.announced = x.1.response) (payload : x.2.payload = []) : DownloadInv b x where
  idle handler := by simp [accepted.rxHandler] at handler
  more _ := by rw [accepted.downloadBytes, accepted.downloadSize]; exact accepted.positive
  bounded _ := by rw [accepted.downloadSize]; exact accepted.bounded
  request _ := by rw [accepted.reqLength, accepted.downloadSize, accepted.downloadBytes]
  announced _ := by rw [announced, accepted.response, accepted.downloadSize]
  received _ := by rw [payload, accepted.downloadBytes]; rfl

theorem DownloadInv.of_same (inv : DownloadInv b x)
    (same : SameTransfer x.1 y.1) (observed : y.2 = x.2) : DownloadInv b y where
  idle handler := by rw [same.reqLength]; exact inv.idle (same.rxHandler ▸ handler)
  more active := by
    rw [same.downloadBytes, same.downloadSize]
    exact inv.more (same.rxHandler ▸ active)
  bounded active := by rw [same.downloadSize]; exact inv.bounded (same.rxHandler ▸ active)
  request active := by
    rw [same.reqLength, same.downloadBytes, same.downloadSize]
    exact inv.request (same.rxHandler ▸ active)
  announced active := by
    rw [observed, same.downloadSize]
    exact inv.announced (same.rxHandler ▸ active)
  received active := by
    rw [observed, same.downloadBytes]
    exact inv.received (same.rxHandler ▸ active)

theorem DownloadInv.packet {packet : List UInt8} {t : Nat}
    (inv : DownloadInv b x) (handler : x.1.rxHandler = .dlImage)
    (received : DlImageStep b { x.1 with reqBuf := receive x.1.reqBuf packet, outQueued := false } y.1 packet.length t)
    (observed : y.2 = x.2.observe x.1 (.out true packet) y.1) : DownloadInv b y := by
  have transfer : t = min packet.length (x.1.downloadSize - x.1.downloadBytes) := received.transfer
  have bytes : y.1.downloadBytes = x.1.downloadBytes + t := received.bytes
  by_cases unfinished : x.1.downloadBytes + t < x.1.downloadSize
  · obtain ⟨sameHandler, size, request⟩ := received.unfinished unfinished
    have active : y.1.rxHandler = .dlImage := sameHandler.trans handler
    have size' : y.1.downloadSize = x.1.downloadSize := size
    rw [Transfer.observe_packet handler] at observed
    refine ⟨fun idle => by simp [active] at idle, fun _ => by omega, fun _ => ?_, fun _ => ?_, fun _ => ?_, fun _ => ?_⟩
    · rw [size']
      exact inv.bounded handler
    · rw [size']
      exact request
    · rw [observed, size']
      exact inv.announced handler
    · rw [observed, List.length_append, inv.received handler]
      omega
  · obtain ⟨idle, length, -, -⟩ := received.finished unfinished
    exact .of_command idle length

theorem DownloadInv.next {allowed : Session σ × Transfer → Event → Prop}
    (inv : DownloadInv b x) (next : Next b allowed x y) : DownloadInv b y := by
  obtain ⟨e, -, run, observed⟩ := next
  cases e with
  | out ok packet =>
    rcases (step_out run).2 with ⟨handler, result⟩ | ⟨handler, result⟩
    · rcases rxHandlerCommand_cases b { x.1 with reqBuf := receive x.1.reqBuf packet, outQueued := false } ok
        packet.length with ⟨sameHandler, sameLength⟩ | ⟨size, accepted⟩
      · rw [← result] at sameHandler sameLength
        exact .of_command (sameHandler.trans handler) (sameLength.trans (inv.idle handler))
      · rw [← result] at accepted
        rw [Transfer.observe_start handler accepted.rxHandler] at observed
        exact .of_accepted accepted (by rw [observed]) (by rw [observed])
    · cases ok with
      | true =>
        obtain ⟨t, received⟩ := rxHandlerDlImage_ok b
          { x.1 with reqBuf := receive x.1.reqBuf packet, outQueued := false } packet.length (inv.more handler)
          (inv.bounded handler)
        rw [← result] at received
        exact inv.packet handler received observed
      | false =>
        rw [Transfer.observe_dlImage handler (by simp)] at observed
        exact inv.of_same (by rw [result]; exact ⟨rfl, rfl, rfl, rfl⟩) observed
  | inDone ok =>
    have result := step_inDone run
    rw [completeIn_eq] at result
    have same : SameTransfer x.1 y.1 := by rw [result]; exact ⟨rfl, rfl, rfl, rfl⟩
    refine inv.of_same same ?_
    cases handler : x.1.rxHandler with
    | command => rw [observed, Transfer.observe_idle handler (same.rxHandler.trans handler)]
    | dlImage => rw [observed, Transfer.observe_dlImage handler (by simp)]
  | setAlt =>
    have result := step_setAlt run
    exact .of_command (by rw [result]; rfl) (by rw [result]; rfl)

theorem Reaches.downloadInv {world : World σ} {allowed : Session σ × Transfer → Event → Prop}
    (reach : Reaches b world allowed x) : DownloadInv b x :=
  reach.invariant (.of_command rfl rfl) (fun _ _ inv next => inv.next next)

/-- What C callers see of the download machine in a state: its counters and
requests are in bounds, a packet is stored inside the announced size, and
the last one is answered with the size that was announced. -/
structure DownloadSafe (b : Board σ) (x : Session σ × Transfer) : Prop where
  inProgress : x.1.rxHandler = .dlImage →
    x.1.downloadBytes ≤ x.1.downloadSize ∧ x.1.downloadSize ≤ fastbootBufSize
  requests : x.1.outQueued = true →
    0 < x.1.reqLength ∧ b.maxpacket ∣ x.1.reqLength ∧ x.1.reqLength ≤ epBufferSize
  stores : ∀ ok packet s', x.1.rxHandler = .dlImage → step b x.1 (.out ok packet) = some s' →
    ∀ a < 2 ^ 32, s'.world.mem a ≠ x.1.world.mem a →
      ∃ i < x.1.downloadSize, a = w32 (bufferAddr x.1.world.env + i)
  answer : ∀ packet s', x.1.rxHandler = .dlImage → step b x.1 (.out true packet) = some s' →
    s'.rxHandler = .command → s'.response = cstr "OKAY" ∧
      x.2.announced = cstr "DATA" ++ hexText8 x.1.downloadSize ∧
      s'.world.env (cstr "fastboot_bytes") = some (hexText x.1.downloadSize)

theorem epBufferSize_spec {maxpacket : Nat} (packets : maxpacket ∈ [64, 512, 1024]) :
    0 < epBufferSize ∧ maxpacket ∣ epBufferSize ∧ epBufferSize ≤ epBufferSize := by
  have packet : maxpacket = 64 ∨ maxpacket = 512 ∨ maxpacket = 1024 := by simpa using packets
  rcases packet with rfl | rfl | rfl <;> decide

theorem DownloadInv.packet_step {packet : List UInt8}
    (inv : DownloadInv b x) (handler : x.1.rxHandler = .dlImage) (run : step b x.1 (.out true packet) = some s') :
    ∃ t, DlImageStep b { x.1 with reqBuf := receive x.1.reqBuf packet, outQueued := false } s' packet.length t := by
  rcases (step_out run).2 with ⟨command, -⟩ | ⟨-, result⟩
  · simp [handler] at command
  · obtain ⟨t, received⟩ := rxHandlerDlImage_ok b
      { x.1 with reqBuf := receive x.1.reqBuf packet, outQueued := false } packet.length (inv.more handler)
      (inv.bounded handler)
    exact ⟨t, result ▸ received⟩

theorem DownloadInv.stores {packet : List UInt8} {ok : Bool}
    (inv : DownloadInv b x) (handler : x.1.rxHandler = .dlImage) (run : step b x.1 (.out ok packet) = some s')
    {a : Nat} (address : a < 2 ^ 32) (changed : s'.world.mem a ≠ x.1.world.mem a) :
    ∃ i < x.1.downloadSize, a = w32 (bufferAddr x.1.world.env + i) := by
  cases ok with
  | false =>
    rcases (step_out run).2 with ⟨command, -⟩ | ⟨-, result⟩
    · simp [handler] at command
    · rw [result] at changed
      exact absurd rfl changed
  | true =>
    obtain ⟨t, received⟩ := inv.packet_step handler run
    have more := inv.more handler
    have transfer : t = min packet.length (x.1.downloadSize - x.1.downloadBytes) := received.transfer
    rw [received.mem] at changed
    obtain ⟨i, below, place⟩ := memcpy_changed address changed
    refine ⟨x.1.downloadBytes + i, by omega, ?_⟩
    rw [place, ← Nat.add_assoc]

theorem DownloadInv.answer {packet : List UInt8}
    (inv : DownloadInv b x) (handler : x.1.rxHandler = .dlImage) (run : step b x.1 (.out true packet) = some s')
    (done : s'.rxHandler = .command) :
    ∃ t, DlImageStep b { x.1 with reqBuf := receive x.1.reqBuf packet, outQueued := false } s' packet.length t ∧
      x.1.downloadBytes + t = x.1.downloadSize := by
  obtain ⟨t, received⟩ := inv.packet_step handler run
  have more := inv.more handler
  have transfer : t = min packet.length (x.1.downloadSize - x.1.downloadBytes) := received.transfer
  refine ⟨t, received, ?_⟩
  by_cases unfinished : x.1.downloadBytes + t < x.1.downloadSize
  · have active := (received.unfinished unfinished).1
    rw [done] at active
    rw [handler] at active
    cases active
  · omega

theorem DownloadInv.safe (inv : DownloadInv b x) : DownloadSafe b x where
  inProgress handler := ⟨(inv.more handler).le, inv.bounded handler⟩
  requests _ := by
    cases handler : x.1.rxHandler with
    | command =>
      rw [inv.idle handler]
      exact epBufferSize_spec b.maxpacket_mem
    | dlImage =>
      rw [inv.request handler]
      exact rxBytesExpected_spec b.maxpacket_mem (inv.more handler) (inv.bounded handler)
  stores _ _ _ handler run _ address changed := inv.stores handler run address changed
  answer packet s' handler run done := by
    obtain ⟨t, received, total⟩ := inv.answer handler run done
    have bytes : s'.downloadBytes = x.1.downloadSize := received.bytes.trans total
    obtain ⟨-, -, okay, stored⟩ := received.finished (by simp only; omega)
    exact ⟨okay, inv.announced handler, by rw [stored, bytes]⟩

/-- A deferred command that runs in the middle of a download neither moves
the download address nor touches the bytes already stored. -/
def LeavesDownload (b : Board σ) (x : Session σ × Transfer) (e : Event) : Prop :=
  e = .inDone true → x.1.rxHandler = .dlImage → x.1.txHandler = .doAcmdComplete →
    bufferAddr (b.runCommand x.1.aCmdBuff x.1.world).2.env = bufferAddr x.1.world.env ∧
      ∀ i < x.1.downloadBytes,
        (b.runCommand x.1.aCmdBuff x.1.world).2.mem (w32 (bufferAddr x.1.world.env + i)) =
          x.1.world.mem (w32 (bufferAddr x.1.world.env + i))

/-- The bytes received so far are in memory, one after the other. -/
def Stored (x : Session σ × Transfer) : Prop :=
  x.1.rxHandler = .dlImage →
    ∀ i < x.1.downloadBytes, x.1.world.mem (w32 (bufferAddr x.1.world.env + i)) = x.2.payload.getD i 0

theorem Stored.packet {packet : List UInt8} {t : Nat}
    (stored : Stored x) (inv : DownloadInv b x) (handler : x.1.rxHandler = .dlImage)
    (received : DlImageStep b { x.1 with reqBuf := receive x.1.reqBuf packet, outQueued := false } s' packet.length t)
    (below : i < x.1.downloadBytes + t) :
    s'.world.mem (w32 (bufferAddr s'.world.env + i)) = (x.2.payload ++ packet).getD i 0 := by
  have addr : bufferAddr s'.world.env = bufferAddr x.1.world.env := received.addr
  have mem : s'.world.mem = memcpy x.1.world.mem (bufferAddr x.1.world.env + x.1.downloadBytes) t
    (receive x.1.reqBuf packet) := received.mem
  have transfer : t = min packet.length (x.1.downloadSize - x.1.downloadBytes) := received.transfer
  have length := inv.received handler
  have more := inv.more handler
  have bounded := inv.bounded handler
  have limit : fastbootBufSize = 0x7000000 := rfl
  rw [addr, mem, List.getD_eq_getElem?_getD]
  by_cases old : i < x.1.downloadBytes
  · rw [memcpy_before old (by omega), stored handler i old, List.getElem?_append_left (by omega),
      List.getD_eq_getElem?_getD]
  · rw [List.getElem?_append_right (by omega), length,
      show bufferAddr x.1.world.env + i = bufferAddr x.1.world.env + x.1.downloadBytes + (i - x.1.downloadBytes) by omega,
      memcpy_inside (by omega) (by omega), receive_of_lt x.1.reqBuf (by omega)]
    simp [show i - x.1.downloadBytes < packet.length by omega]

theorem Stored.next (stored : Stored x) (inv : DownloadInv b x)
    (next : Next b (LeavesDownload b) x y) : Stored y := by
  obtain ⟨e, leaves, run, observed⟩ := next
  intro active
  cases e with
  | out ok packet =>
    rcases (step_out run).2 with ⟨handler, result⟩ | ⟨handler, result⟩
    · rcases rxHandlerCommand_cases b { x.1 with reqBuf := receive x.1.reqBuf packet, outQueued := false } ok
        packet.length with ⟨sameHandler, -⟩ | ⟨size, accepted⟩
      · rw [← result, active] at sameHandler
        rw [handler] at sameHandler
        cases sameHandler
      · rw [← result] at accepted
        intro i below
        rw [accepted.downloadBytes] at below
        omega
    · cases ok with
      | true =>
        obtain ⟨t, received⟩ := inv.packet_step handler run
        have bytes : y.1.downloadBytes = x.1.downloadBytes + t := received.bytes
        intro i below
        rw [observed, Transfer.observe_packet handler]
        exact stored.packet inv handler received (by omega)
      | false =>
        rw [Transfer.observe_dlImage handler (by simp)] at observed
        rw [observed, result]
        intro i below
        change x.1.world.mem (w32 (bufferAddr (setenvHex _ _ _) + i)) = _
        rw [bufferAddr_setenvHex_self (bufferAddr_lt _)]
        exact stored handler i below
  | inDone ok =>
    have result := step_inDone run
    rw [completeIn_eq] at result
    have handler : x.1.rxHandler = .dlImage := by rw [result] at active; exact active
    rw [observed, Transfer.observe_dlImage handler (by simp), result]
    intro i below
    change (worldAfterIn b x.1 ok).mem (w32 (bufferAddr (worldAfterIn b x.1 ok).env + i)) = _
    unfold worldAfterIn
    split
    · rename_i deferred
      obtain ⟨addr, kept⟩ := leaves (by rw [deferred.2]) handler deferred.1
      rw [addr, kept i below]
      exact stored handler i below
    · exact stored handler i below
  | setAlt =>
    rw [step_setAlt run] at active
    cases active

def DownloadExact (b : Board σ) (x : Session σ × Transfer) : Prop :=
  ∀ packet s', x.1.rxHandler = .dlImage → step b x.1 (.out true packet) = some s' → s'.rxHandler = .command →
    x.1.downloadSize ≤ (x.2.payload ++ packet).length ∧
      ∀ i < x.1.downloadSize,
        s'.world.mem (w32 (bufferAddr s'.world.env + i)) = (x.2.payload ++ packet).getD i 0

theorem Reaches.stored {world : World σ}
    (reach : Reaches b world (LeavesDownload b) x) : Stored x := by
  have both := reach.invariant (I := fun x => DownloadInv b x ∧ Stored x)
    ⟨.of_command rfl rfl, fun active => by cases active⟩
    (fun _ _ inv next => ⟨inv.1.next next, inv.2.next inv.1 next⟩)
  exact both.2

/-- The download machine is safe in every run; and in every run in which
no deferred command moves or touches a running download, the bytes that the
last packet completes are the bytes received. -/
theorem download_machine (b : Board σ) (world : World σ) :
    (∀ x, Reaches b world (fun _ _ => True) x → DownloadSafe b x) ∧
      ∀ x, Reaches b world (LeavesDownload b) x → DownloadSafe b x ∧ DownloadExact b x := by
  refine ⟨fun x reach => reach.downloadInv.safe, fun x reach => ⟨reach.downloadInv.safe, ?_⟩⟩
  intro packet s' handler run done
  have inv := reach.downloadInv
  obtain ⟨t, received, total⟩ := inv.answer handler run done
  have transfer : t = min packet.length (x.1.downloadSize - x.1.downloadBytes) := received.transfer
  have length := inv.received handler
  refine ⟨by rw [List.length_append]; omega, fun i below => ?_⟩
  exact reach.stored.packet inv handler received (by omega)

def twoPackets : List Event :=
  [.out true (cstr "download:00000050"), .out true (List.replicate 64 17)]

theorem download_machine_twoPackets :
    DownloadExact smallBoard (runEvents smallBoard (initial smallBoard emptyWorld, ⟨[], []⟩) twoPackets) ∧
      (∃ s', step smallBoard (runEvents smallBoard (initial smallBoard emptyWorld, ⟨[], []⟩) twoPackets).1
        (.out true (List.replicate 16 18)) = some s' ∧ s'.rxHandler = .command) := by
  refine ⟨((download_machine smallBoard emptyWorld).2 _ (reaches_runEvents twoPackets ?_)).2, ?_⟩
  · intro x e member done
    subst done
    simp [twoPackets] at member
  · refine ⟨_, rfl, ?_⟩
    decide

/-- A deferred `setenv` of the download address, and a download of which the
first packet arrives before the response that announced it was fetched. -/
def movedDownload : List Event :=
  [.out true (cstr "ACmd:setenv fastboot_buffer 81000000"), .out true (cstr "download:00000050"),
   .out true (List.replicate 64 17), .inDone true]

/-- The first packet stays at the old address. -/
theorem movedDownload_not_exact :
    ∃ x, Reaches smallBoard emptyWorld (fun _ _ => True) x ∧ ¬ DownloadExact smallBoard x := by
  refine ⟨_, reaches_runEvents movedDownload (fun _ _ _ => trivial), fun exact => ?_⟩
  obtain ⟨-, stored⟩ := exact (List.replicate 16 18) _ (by decide) rfl (by decide)
  have first := stored 0 (by decide)
  revert first
  decide

end UuuFastboot
