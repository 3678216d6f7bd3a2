import UuuFastboot.Lib.Bytes
import UuuFastboot.Lib.CString

namespace UuuFastboot.Lock

open Bytes CString

inductive FbLockState where
  | unlock
  | lock
  | error
  deriving DecidableEq, Repr

inductive FbLockEnableResult where
  | disable
  | enable
  | error
  deriving DecidableEq, Repr

/-- `encrypt_lock_store` and `decrypt_lock_store`: how a lock status is kept in a
sector. The number stands for what else enters the sector, such as the time. -/
structure LockStore where
  encrypt : FbLockState → Nat → Option Buf
  decrypt : Buf → FbLockState
  decrypt_encrypt : ∀ {status salt bdata}, encrypt status salt = some bdata → decrypt bdata = status

/-- The variant without encryption. -/
def decryptLockStore (bdata : Buf) : FbLockState :=
  if startsWith bdata 0 (cstr "locked") then .lock
  else if startsWith bdata 0 (cstr "unlocked") then .unlock
  else .error

def encryptLockStore : FbLockState → Option Buf
  | .lock => some (fun i => (cstr "locked").getD i 0)
  | .unlock => some (fun i => (cstr "unlocked").getD i 0)
  | .error => none

def plainStore : LockStore where
  encrypt status _ := encryptLockStore status
  decrypt := decryptLockStore
  decrypt_encrypt {status _ bdata} stored := by
    cases status with
    | unlock => cases stored; decide
    | lock => cases stored; decide
    | error => cases stored

/-- What is kept on the device: the sector of `fbmisc` with the lock status, the
byte of `presistdata` that permits unlocking, and which blocks of the data partition
hold user data that was written while the device was locked. -/
structure LockDisk where
  fbmisc : Buf
  enable : UInt8
  secret : Nat → Bool

/-- How the steps of one access to a partition go: the allocation of the buffer,
the partition table, the partition, and the block transfer. -/
structure Access where
  alloc : Bool
  index : Bool
  part : Bool
  io : Bool

def Access.found (o : Access) : Bool := o.index && o.part

inductive DiskWrite where
  | clearEnable
  | store (bdata : Buf)
  | erase (blocks : Nat → Bool)

def DiskWrite.apply (d : LockDisk) : DiskWrite → LockDisk
  | .clearEnable => { d with enable := 0 }
  | .store bdata => { d with fbmisc := bdata }
  | .erase blocks => { d with secret := fun i => d.secret i && !blocks i }

/-- How an unlock or lock request goes. A status write may reach the device or
not, whatever is reported; the wipe erases stretch after stretch. -/
structure LockOutcome where
  disable : Access
  enable : Access
  get : Access
  set : Access
  salt : Nat
  stored : Bool
  wipe : Access
  erased : List (Nat → Bool)

def lockEnableParse (byte : UInt8) : FbLockEnableResult :=
  if byte = 0 then .disable else if byte = 1 then .enable else .error

def fastbootLockEnable (o : Access) (d : LockDisk) : FbLockEnableResult :=
  if o.alloc && o.found && o.io then lockEnableParse d.enable else .error

/-- `set_fastboot_lock_disable` as the writes it makes. -/
def setFastbootLockDisable (o : Access) : List DiskWrite :=
  if o.alloc && o.found && o.io then [.clearEnable] else []

def fastbootGetLockStat (store : LockStore) (o : Access) (gLockstat : FbLockState) (d : LockDisk) : FbLockState :=
  if !o.alloc || !o.found then gLockstat
  else if !o.io then .error
  else store.decrypt d.fbmisc

/-- `fastboot_set_lock_stat`: whether it reports success, `g_lockstat` and the
writes it makes. -/
def fastbootSetLockStat (store : LockStore) (o : LockOutcome) (status gLockstat : FbLockState) :
    Bool × FbLockState × List DiskWrite :=
  if !o.set.alloc then (true, status, [])
  else if !o.set.found then (false, gLockstat, [])
  else
    match store.encrypt status o.salt with
    | none => (false, gLockstat, [])
    | some bdata => (o.set.io, gLockstat, if o.stored then [.store bdata] else [])

/-- `fastboot_wipe_data_partition` as the writes it makes; nobody looks at its
status. -/
def fastbootWipeDataPartition (o : LockOutcome) : List DiskWrite :=
  if o.wipe.found then o.erased.map .erase else []

/-- The part that unlocking and locking share: store the status, then wipe. -/
def storeAndWipe (store : LockStore) (o : LockOutcome) (status gLockstat : FbLockState) :
    FbLockState × FbLockState × List DiskWrite :=
  let set := fastbootSetLockStat store o status gLockstat
  if set.1 then (status, set.2.1, set.2.2 ++ fastbootWipeDataPartition o)
  else (.error, set.2.1, set.2.2)

/-- The write that a forced unlock starts with. -/
def revoke (force : Bool) (o : LockOutcome) : List DiskWrite := if force then setFastbootLockDisable o.disable else []

/-- `do_fastboot_unlock`: its result, `g_lockstat`, and the writes it makes. -/
def doFastbootUnlock (store : LockStore) (force : Bool) (o : LockOutcome) (gLockstat : FbLockState) (d : LockDisk) :
    FbLockState × FbLockState × List DiskWrite :=
  let d := (revoke force o).foldl DiskWrite.apply d
  if fastbootLockEnable o.enable d = .enable ∨ force = true then
    if fastbootGetLockStat store o.get gLockstat d = .unlock then (.unlock, gLockstat, revoke force o)
    else
      let out := storeAndWipe store o .unlock gLockstat
      (out.1, out.2.1, revoke force o ++ out.2.2)
  else (.error, gLockstat, revoke force o)

def doFastbootLock (store : LockStore) (o : LockOutcome) (gLockstat : FbLockState) (d : LockDisk) :
    FbLockState × FbLockState × List DiskWrite :=
  if fastbootGetLockStat store o.get gLockstat d = .lock then (.lock, gLockstat, [])
  else storeAndWipe store o .lock gLockstat

/-- What happens to a device: a request, after `cut` of whose writes the power goes
where it is given; user data that is written; a restart. A flash or erase command
that finds no status stores the locked one. -/
inductive LockEvent where
  | unlock (force : Bool) (o : LockOutcome) (cut : Option Nat)
  | lock (o : LockOutcome) (cut : Option Nat)
  | lockError (o : LockOutcome)
  | userWrite (blocks : Nat → Bool)
  | restart

/-- A device: what is on it, and `g_lockstat`. -/
structure LockDevice where
  disk : LockDisk
  gLockstat : FbLockState

/-- User data that is written is data to protect while the device is locked. -/
def writeUserData (store : LockStore) (blocks : Nat → Bool) (d : LockDisk) : LockDisk :=
  { d with
    secret := fun i => if store.decrypt d.fbmisc = .lock then d.secret i || blocks i else d.secret i && !blocks i }

/-- The writes of an event that reach the device, and `g_lockstat` after it: its
initial value after the power was off. -/
def LockEvent.effect (store : LockStore) (s : LockDevice) : LockEvent → List DiskWrite × FbLockState
  | .unlock force o cut =>
    let out := doFastbootUnlock store force o s.gLockstat s.disk
    match cut with
    | none => (out.2.2, out.2.1)
    | some n => (out.2.2.take n, .unlock)
  | .lock o cut =>
    let out := doFastbootLock store o s.gLockstat s.disk
    match cut with
    | none => (out.2.2, out.2.1)
    | some n => (out.2.2.take n, .unlock)
  | .lockError o =>
    let out := fastbootSetLockStat store o .lock s.gLockstat
    (out.2.2, out.2.1)
  | .userWrite _ => ([], s.gLockstat)
  | .restart => ([], .unlock)

/-- The states of the disk that some writes pass through, the first one and the
last one among them. -/
def trail : LockDisk → List DiskWrite → List LockDisk
  | d, [] => [d]
  | d, w :: rest => d :: trail (w.apply d) rest

/-- The states of the disk that an event passes through, the last one at the end. -/
def LockEvent.passes (store : LockStore) (s : LockDevice) : LockEvent → List LockDisk
  | .userWrite blocks => [writeUserData store blocks s.disk]
  | e => trail s.disk (e.effect store s).1

def LockEvent.next (store : LockStore) (s : LockDevice) (e : LockEvent) : LockDevice where
  disk := (e.passes store s).getLastD s.disk
  gLockstat := (e.effect store s).2

/-- All states of the disk in a run. -/
def runPasses (store : LockStore) : LockDevice → List LockEvent → List LockDisk
  | s, [] => [s.disk]
  | s, e :: rest => e.passes store s ++ runPasses store (e.next store s) rest

/-- A device that is unlocked holds no data that was written while it was locked. -/
def LockDisk.Secure (store : LockStore) (d : LockDisk) : Prop :=
  store.decrypt d.fbmisc = .unlock → ∀ i, d.secret i = false

/-- The unlocked status is stored: unlocking is permitted or forced, the device is
not unlocked yet, and the write of the status is made and gets to the device before
the power goes. -/
def LockEvent.StoresUnlocked (store : LockStore) (s : LockDevice) : LockEvent → Prop
  | .unlock force o cut =>
    let d := (revoke force o).foldl DiskWrite.apply s.disk
    (fastbootLockEnable o.enable d = .enable ∨ force = true) ∧
      fastbootGetLockStat store o.get s.gLockstat d ≠ .unlock ∧
      o.set.alloc = true ∧ o.set.found = true ∧ (store.encrypt .unlock o.salt).isSome = true ∧ o.stored = true ∧
      ∀ n, cut = some n → (revoke force o).length < n
  | _ => False

/-- In a run every unlocked status is stored on a device without data that was
written while it was locked. -/
def WipedBefore (store : LockStore) : LockDevice → List LockEvent → Prop
  | _, [] => True
  | s, e :: rest =>
    (e.StoresUnlocked store s → ∀ i, s.disk.secret i = false) ∧ WipedBefore store (e.next store s) rest

/-! The writes of a request. -/

section

variable {store : LockStore} {d : LockDisk}
variable {o : LockOutcome} {status : FbLockState} {bdata : Buf}

theorem trail_append (d : LockDisk) (first rest : List DiskWrite) :
    first.foldl DiskWrite.apply d ∈ trail d (first ++ rest) := by
  induction first generalizing d with
  | nil => cases rest <;> exact List.mem_cons_self
  | cons w first ih => exact List.mem_cons_of_mem _ (ih (w.apply d))

theorem trail_ne_nil (d : LockDisk) (writes : List DiskWrite) : trail d writes ≠ [] := by
  cases writes <;> exact List.cons_ne_nil _ _

theorem secure_of_wiped {writes : List DiskWrite} (wiped : ∀ i, d.secret i = false) :
    ∀ d' ∈ trail d writes, d'.Secure store := by
  induction writes generalizing d with
  | nil =>
    intro d' member
    rw [List.mem_singleton.mp member]
    exact fun _ => wiped
  | cons w writes ih =>
    intro d' member
    rcases List.mem_cons.mp member with rfl | member
    · exact fun _ => wiped
    · refine ih (fun i => ?_) d' member
      cases w with
      | clearEnable => exact wiped i
      | store bdata => exact wiped i
      | erase blocks => simp [DiskWrite.apply, wiped i]

theorem secure_of_not_stored {writes : List DiskWrite} (secure : d.Secure store)
    (locked : ∀ bdata, DiskWrite.store bdata ∈ writes → store.decrypt bdata ≠ .unlock) :
    ∀ d' ∈ trail d writes, d'.Secure store := by
  induction writes generalizing d with
  | nil =>
    intro d' member
    rw [List.mem_singleton.mp member]
    exact secure
  | cons w writes ih =>
    intro d' member
    rcases List.mem_cons.mp member with rfl | member
    · exact secure
    · refine ih ?_ (fun bdata later => locked bdata (List.mem_cons_of_mem _ later)) d' member
      cases w with
      | clearEnable => exact secure
      | store bdata => exact fun unlocked => absurd unlocked (locked bdata List.mem_cons_self)
      | erase blocks =>
        intro unlocked i
        simp [DiskWrite.apply, secure unlocked i]

theorem wipe_not_stores (o : LockOutcome) (bdata : Buf) : DiskWrite.store bdata ∉ fastbootWipeDataPartition o := by
  unfold fastbootWipeDataPartition
  split_ifs <;> simp

theorem fastbootSetLockStat_stores {g : FbLockState}
    (member : DiskWrite.store bdata ∈ (fastbootSetLockStat store o status g).2.2) :
    o.set.alloc = true ∧ o.set.found = true ∧ store.encrypt status o.salt = some bdata ∧ o.stored = true := by
  unfold fastbootSetLockStat at member
  split at member
  · cases member
  rename_i allocated
  split at member
  · cases member
  rename_i found
  split at member
  · cases member
  rename_i encrypted
  split_ifs at member with stored
  · cases List.mem_singleton.mp member
    exact ⟨by simpa using allocated, by simpa using found, encrypted, stored⟩
  · cases member

theorem storeAndWipe_stores {g : FbLockState}
    (member : DiskWrite.store bdata ∈ (storeAndWipe store o status g).2.2) :
    o.set.alloc = true ∧ o.set.found = true ∧ store.encrypt status o.salt = some bdata ∧ o.stored = true := by
  unfold storeAndWipe at member
  dsimp only at member
  split_ifs at member
  · rcases List.mem_append.mp member with set | wipe
    · exact fastbootSetLockStat_stores set
    · exact absurd wipe (wipe_not_stores o bdata)
  · exact fastbootSetLockStat_stores member

theorem storeAndWipe_first (g : FbLockState)
    (allocated : o.set.alloc = true) (found : o.set.found = true)
    (encrypted : store.encrypt status o.salt = some bdata) (stored : o.stored = true) :
    ∃ rest, (storeAndWipe store o status g).2.2 = .store bdata :: rest := by
  have set : fastbootSetLockStat store o status g = (o.set.io, g, [.store bdata]) := by
    simp [fastbootSetLockStat, allocated, found, encrypted, stored]
  unfold storeAndWipe
  dsimp only
  rw [set]
  split_ifs
  · exact ⟨_, rfl⟩
  · exact ⟨_, rfl⟩

theorem revoke_not_stores (force : Bool) (o : LockOutcome) (bdata : Buf) : DiskWrite.store bdata ∉ revoke force o := by
  unfold revoke setFastbootLockDisable
  split_ifs <;> simp

variable {s : LockDevice}

theorem revoke_secret (force : Bool) (o : LockOutcome) (d : LockDisk) :
    ((revoke force o).foldl DiskWrite.apply d).secret = d.secret := by
  unfold revoke setFastbootLockDisable
  split_ifs <;> rfl

theorem doFastbootUnlock_writes (store : LockStore) (force : Bool) (o : LockOutcome) (g : FbLockState) (d : LockDisk) :
    (doFastbootUnlock store force o g d).2.2 =
      if (fastbootLockEnable o.enable ((revoke force o).foldl DiskWrite.apply d) = .enable ∨ force = true) ∧
          fastbootGetLockStat store o.get g ((revoke force o).foldl DiskWrite.apply d) ≠ .unlock then
        revoke force o ++ (storeAndWipe store o .unlock g).2.2
      else revoke force o := by
  unfold doFastbootUnlock
  dsimp only
  split_ifs with able unlocked both both both
  · exact absurd unlocked both.2
  · rfl
  · rfl
  · exact absurd ⟨able, unlocked⟩ both
  · exact absurd both.1 able
  · rfl

theorem LockEvent.effect_unlock (force : Bool) (o : LockOutcome) (cut : Option Nat) :
    (LockEvent.effect store s (.unlock force o cut)).1 =
      (doFastbootUnlock store force o s.gLockstat s.disk).2.2.take
        (cut.getD (doFastbootUnlock store force o s.gLockstat s.disk).2.2.length) := by
  cases cut with
  | none => simp [effect]
  | some n => rfl

section

variable (secure : s.disk.Secure store)
include secure

/-- An unlock request from a secure state passes through secure states exactly if
the status is not stored or there is no data left. -/
theorem secure_unlock_iff {force : Bool} {cut : Option Nat} :
    (∀ d ∈ LockEvent.passes store s (.unlock force o cut), d.Secure store) ↔
      (LockEvent.StoresUnlocked store s (.unlock force o cut) → ∀ i, s.disk.secret i = false) := by
  simp only [LockEvent.passes, LockEvent.effect_unlock, doFastbootUnlock_writes]
  constructor
  · rintro all ⟨able, locked, allocated, found, encrypted, stored, inTime⟩
    obtain ⟨bdata, encrypted⟩ := Option.isSome_iff_exists.mp encrypted
    obtain ⟨rest, writes⟩ := storeAndWipe_first s.gLockstat allocated found encrypted stored
    rw [if_pos ⟨able, locked⟩, writes] at all
    have long : (revoke force o).length < cut.getD (revoke force o ++ DiskWrite.store bdata :: rest).length := by
      cases cut with
      | none => simp
      | some n => exact inTime n rfl
    obtain ⟨more, count⟩ := Nat.exists_eq_add_of_lt long
    rw [count, Nat.add_assoc, List.take_length_add_append, List.take_succ_cons, ← List.singleton_append,
      ← List.append_assoc] at all
    have after := all _ (trail_append s.disk (revoke force o ++ [.store bdata]) _)
    rw [List.foldl_append] at after
    intro i
    have clean := after (store.decrypt_encrypt encrypted) i
    simp only [List.foldl_cons, List.foldl_nil, DiskWrite.apply, revoke_secret] at clean
    exact clean
  · intro wiped
    by_cases stores : LockEvent.StoresUnlocked store s (.unlock force o cut)
    · exact secure_of_wiped (wiped stores)
    · refine secure_of_not_stored secure (fun bdata member => absurd ?_ stores)
      have inTime : ∀ n, cut = some n → (revoke force o).length < n := by
        rintro n rfl
        by_contra short
        rw [Option.getD_some] at member
        split_ifs at member
        · rw [List.take_append_of_le_length (Nat.le_of_not_lt short)] at member
          exact revoke_not_stores force o bdata (List.mem_of_mem_take member)
        · exact revoke_not_stores force o bdata (List.mem_of_mem_take member)
      have inside := List.mem_of_mem_take member
      split_ifs at inside with able
      · rcases List.mem_append.mp inside with revoked | stored
        · exact absurd revoked (revoke_not_stores force o bdata)
        · obtain ⟨allocated, found, encrypted, reached⟩ := storeAndWipe_stores stored
          exact ⟨able.1, able.2, allocated, found, by rw [encrypted]; rfl, reached, inTime⟩
      · exact absurd inside (revoke_not_stores force o bdata)

theorem secure_lock {cut : Option Nat} :
    ∀ d ∈ LockEvent.passes store s (.lock o cut), d.Secure store := by
  have stored : ∀ bdata, DiskWrite.store bdata ∈ (doFastbootLock store o s.gLockstat s.disk).2.2 →
      store.decrypt bdata ≠ .unlock := by
    intro bdata member
    unfold doFastbootLock at member
    split_ifs at member
    · cases member
    · obtain ⟨_, _, encrypted, _⟩ := storeAndWipe_stores member
      rw [store.decrypt_encrypt encrypted]
      decide
  refine secure_of_not_stored secure (fun bdata member => stored bdata ?_)
  cases cut with
  | none => exact member
  | some n => exact List.mem_of_mem_take member

theorem secure_lockError :
    ∀ d ∈ LockEvent.passes store s (.lockError o), d.Secure store := by
  refine secure_of_not_stored secure (fun bdata member => ?_)
  obtain ⟨_, _, encrypted, _⟩ := fastbootSetLockStat_stores member
  rw [store.decrypt_encrypt encrypted]
  decide

theorem secure_userWrite {blocks : Nat → Bool} :
    (writeUserData store blocks s.disk).Secure store := by
  intro unlocked i
  have clean := secure unlocked i
  have status : store.decrypt s.disk.fbmisc ≠ .lock := by
    intro locked
    exact absurd (locked.symm.trans unlocked) (by decide)
  simp only [writeUserData, if_neg status, clean, Bool.false_and]

theorem secure_event_iff (e : LockEvent) :
    (∀ d ∈ e.passes store s, d.Secure store) ↔ (e.StoresUnlocked store s → ∀ i, s.disk.secret i = false) := by
  cases e with
  | unlock force o cut => exact secure_unlock_iff secure
  | lock o cut => exact ⟨fun _ none => none.elim, fun _ => secure_lock secure⟩
  | lockError o => exact ⟨fun _ none => none.elim, fun _ => secure_lockError secure⟩
  | userWrite blocks =>
    refine ⟨fun _ none => none.elim, fun _ d member => ?_⟩
    rw [List.mem_singleton.mp member]
    exact secure_userWrite secure
  | restart =>
    refine ⟨fun _ none => none.elim, fun _ d member => ?_⟩
    rw [List.mem_singleton.mp member]
    exact secure

end

theorem LockEvent.passes_ne_nil (e : LockEvent) : e.passes store s ≠ [] := by
  cases e with
  | userWrite blocks => exact List.cons_ne_nil _ _
  | _ => exact trail_ne_nil _ _

theorem LockEvent.next_mem (e : LockEvent) : (e.next store s).disk ∈ e.passes store s := by
  have some_state : e.passes store s ≠ [] := e.passes_ne_nil
  rw [LockEvent.next]
  dsimp only
  rw [List.getLastD_eq_getLast?, List.getLast?_eq_some_getLast some_state]
  exact List.getLast_mem some_state

/-- In a run from a secure device no state is unlocked and has data that was written
while it was locked, exactly if each unlocked status is stored on a device that was
wiped before. -/
theorem runPasses_secure_iff (store : LockStore) {s : LockDevice} (secure : s.disk.Secure store)
    (events : List LockEvent) :
    (∀ d ∈ runPasses store s events, d.Secure store) ↔ WipedBefore store s events := by
  induction events generalizing s with
  | nil =>
    refine ⟨fun _ => trivial, fun _ d member => ?_⟩
    rw [List.mem_singleton.mp member]
    exact secure
  | cons e rest ih =>
    simp only [runPasses, List.mem_append, WipedBefore]
    constructor
    · intro all
      have here := fun d member => all d (Or.inl member)
      exact ⟨(secure_event_iff secure e).mp here, (ih (here _ e.next_mem)).mp (fun d later => all d (Or.inr later))⟩
    · rintro ⟨stores, further⟩ d member
      have here := (secure_event_iff secure e).mpr stores
      rcases member with now | later
      · exact here d now
      · exact (ih (here _ e.next_mem)).mpr further d later

end

/-- A locked device that may be unlocked, with user data on some blocks. -/
def lockedDevice (secret : Nat → Bool) : LockDevice where
  disk := ⟨fun i => (cstr "locked").getD i 0, 1, secret⟩
  gLockstat := .unlock

/-- A request that meets no failure, but for a wipe that erases `erased` only. -/
def wipeOutcome (erased : List (Nat → Bool)) : LockOutcome where
  disable := ⟨true, true, true, true⟩
  enable := ⟨true, true, true, true⟩
  get := ⟨true, true, true, true⟩
  set := ⟨true, true, true, true⟩
  salt := 0
  stored := true
  wipe := ⟨true, true, true, true⟩
  erased := erased

theorem wipedDevice_secure :
    (lockedDevice (fun _ => false)).disk.Secure plainStore ∧
      ∀ d ∈ runPasses plainStore (lockedDevice (fun _ => false)) [.unlock false (wipeOutcome [fun _ => true]) none],
        d.Secure plainStore :=
  ⟨fun _ _ => rfl, (runPasses_secure_iff plainStore (fun _ _ => rfl) _).mpr ⟨fun _ _ => rfl, trivial⟩⟩

/-- The power goes between the two writes, or the wipe erases nothing: the device
is unlocked and has the data. -/
theorem lockedDevice_exposed :
    (lockedDevice (fun _ => true)).disk.Secure plainStore ∧
      ¬ ((LockEvent.unlock false (wipeOutcome [fun _ => true]) (some 1)).next plainStore
        (lockedDevice (fun _ => true))).disk.Secure plainStore ∧
      (doFastbootUnlock plainStore false (wipeOutcome []) .unlock (lockedDevice (fun _ => true)).disk).1 = .unlock ∧
      ¬ ((LockEvent.unlock false (wipeOutcome []) none).next plainStore
        (lockedDevice (fun _ => true))).disk.Secure plainStore := by
  refine ⟨fun unlocked => absurd unlocked (by decide), fun secure => ?_, by decide, fun secure => ?_⟩
  · exact absurd (secure (by decide) 0) (by decide)
  · exact absurd (secure (by decide) 0) (by decide)

end UuuFastboot.Lock
