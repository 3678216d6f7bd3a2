import UuuFastboot.Avb.ReadPartition

namespace UuuFastboot.Avb

/-- `AvbABSlotData` -/
structure SlotData where
  priority : Nat
  triesRemaining : Nat
  successfulBoot : Nat
deriving DecidableEq

/-- `AvbABData`, of which only the slots change; slot `false` is `_a`. -/
abbrev AbData := Bool → SlotData

/-- `fsl_slot_set_unbootable` -/
def unbootable : SlotData := ⟨0, 0, 0⟩

def fslSlotNormalize (slot : SlotData) : SlotData :=
  if 0 < slot.priority then
    let slot := if slot.triesRemaining = 0 ∧ slot.successfulBoot = 0 then unbootable else slot
    if 0 < slot.triesRemaining ∧ slot.successfulBoot ≠ 0 then unbootable else slot
  else unbootable

/-- `fsl_slot_is_bootable` -/
def SlotData.Bootable (slot : SlotData) : Prop := 0 < slot.priority ∧ (slot.successfulBoot ≠ 0 ∨ 0 < slot.triesRemaining)

instance (slot : SlotData) : Decidable slot.Bootable := inferInstanceAs (Decidable (_ ∧ _))

def AbData.targetSlot (ab : AbData) : Bool := decide ((ab false).priority < (ab true).priority)

/-- The last try is used up when a slot is booted that has not been successful. -/
def SlotData.tried (slot : SlotData) : SlotData :=
  if slot.successfulBoot = 0 ∧ 0 < slot.triesRemaining then { slot with triesRemaining := slot.triesRemaining - 1 } else slot

/-- `AvbSlotVerifyResult` -/
inductive VerifyResult
  | ok | errorOom | errorIo | errorVerification | errorRollbackIndex | errorPublicKeyRejected | errorInvalidMetadata
  | errorUnsupportedVersion | errorInvalidArgument
deriving DecidableEq

/-- The errors of `AvbABFlowResult`. -/
inductive FlowError
  | oom | io | noBootableSlots | invalidArgument
deriving DecidableEq

/-- `AvbABFlowResult`, and a failed assertion. -/
inductive FlowResult
  | ok | okWithVerificationError | error (e : FlowError) | aborted
deriving DecidableEq

/-- Rollback indexes for AVB_MAX_NUMBER_OF_ROLLBACK_INDEX_LOCATIONS locations. -/
abbrev Indexes := Fin 32 → Nat

/-- The images of a slot: what verifying them gives apart from the rollback indexes, and the indexes for the locations that
they use. -/
structure Image where
  result : VerifyResult
  index : Fin 32 → Option Nat

/-- `rollback_indexes` of the slot data. -/
def Image.indexes (image : Image) : Indexes := fun n => (image.index n).getD 0

def Image.Accepted (image : Image) (stored : Indexes) : Prop :=
  image.result = .ok ∧ ∀ n, ∀ i ∈ image.index n, stored n ≤ i

instance (image : Image) (stored : Indexes) : Decidable (image.Accepted stored) := inferInstanceAs (Decidable (_ ∧ _))

/-- `avb_slot_verify`; slot data comes with `ok` only. -/
def avbSlotVerify (image : Image) (stored : Indexes) : VerifyResult :=
  if image.Accepted stored then .ok else if image.result = .ok then .errorRollbackIndex else image.result

/-- What the flow works on: the metadata on the disk, the images, whether verification errors are allowed, and the results
of the operations. The two copies of the metadata are not initialised if it cannot be read. -/
structure FlowEnv where
  readMetadata : AvbIOResult
  metadata : AbData
  uninit : AbData × AbData
  image : Bool → Image
  allow : Bool
  readIndex : Fin 32 → AvbIOResult
  writeIndex : Fin 32 → AvbIOResult
  writeMetadata : AvbIOResult

/-- How the loop over the slots ends; the last has the slot to boot, whether its error was allowed, and the slot data. -/
inductive Chosen
  | stop (e : FlowError) (ab : AbData)
  | boot (target allowed : Bool) (ab : AbData) (slotData : Bool → Option Indexes)

/-- The loop over the slots. -/
def chooseLoop (env : FlowEnv) (stored : Indexes) (slotData : Bool → Option Indexes) : Nat → Bool → AbData → Chosen
  | 0, _, ab => .stop .noBootableSlots ab
  | left + 1, target, ab =>
    let next := chooseLoop env stored slotData left (!target)
    if (ab target).Bootable then
      match avbSlotVerify (env.image target) stored with
      | .errorOom => .stop .oom ab
      | .errorIo => .stop .io ab
      | .ok => .boot target false ab (Function.update slotData target (some (env.image target).indexes))
      | .errorInvalidMetadata | .errorUnsupportedVersion => next (Function.update ab target unbootable)
      | .errorVerification | .errorRollbackIndex | .errorPublicKeyRejected =>
        if env.allow then .boot target true ab slotData else next (Function.update ab target unbootable)
      | .errorInvalidArgument => .stop .invalidArgument ab
    else next ab

/-- `rollback_index_value` -/
def rollbackValue (slotData : Bool → Option Indexes) (n : Fin 32) : Nat :=
  match slotData false, slotData true with
  | some a, some b => if a n < b n then a n else b n
  | some a, none => a n
  | none, some b => b n
  | none, none => 0

/-- The loop over the locations; an error ends it. -/
def updateLoop (env : FlowEnv) (slotData : Bool → Option Indexes) : List (Fin 32) → Indexes → Option FlowError × Indexes
  | [], stored => (none, stored)
  | n :: rest, stored =>
    let value := rollbackValue slotData n
    if value = 0 then updateLoop env slotData rest stored
    else
      match env.readIndex n with
      | .ok =>
        if stored n = value then updateLoop env slotData rest stored
        else
          match env.writeIndex n with
          | .ok => updateLoop env slotData rest (Function.update stored n value)
          | .errorOom => (some .oom, stored)
          | _ => (some .io, stored)
      | .errorOom => (some .oom, stored)
      | _ => (some .io, stored)

/-- What the flow leaves: its result, the stored indexes, and the metadata on the disk. -/
structure FlowOut where
  ret : FlowResult
  stored : Indexes
  metadata : AbData

/-- `fsl_save_metadata_if_changed` at the end. -/
def FlowEnv.finish (env : FlowEnv) (ret : FlowResult) (stored : Indexes) (ab orig : AbData) : FlowOut :=
  if ab = orig then ⟨ret, stored, env.metadata⟩
  else
    match env.writeMetadata with
    | .ok => ⟨ret, stored, ab⟩
    | .errorOom => ⟨.error .oom, stored, env.metadata⟩
    | _ => ⟨.error .io, stored, env.metadata⟩

/-- The metadata as `fsl_load_metadata` gives it. -/
def FlowEnv.loaded (env : FlowEnv) : AbData := fun slot => fslSlotNormalize (env.metadata slot)

def avbAbFlowFast (env : FlowEnv) (stored : Indexes) : FlowOut :=
  match env.readMetadata with
  | .ok =>
    match chooseLoop env stored (fun _ => none) 2 (AbData.targetSlot env.loaded) env.loaded with
    | .stop e ab => env.finish (.error e) stored ab env.metadata
    | .boot target allowed ab slotData =>
      match updateLoop env slotData (List.finRange 32) stored with
      | (some e, stored) => env.finish (.error e) stored ab env.metadata
      | (none, stored) =>
        if (slotData target).isSome then
          env.finish (if allowed then .okWithVerificationError else .ok) stored
            (Function.update ab target (ab target).tried) env.metadata
        else ⟨.aborted, stored, env.metadata⟩
  | .errorOom => env.finish (.error .oom) stored env.uninit.1 env.uninit.2
  | _ => env.finish (.error .io) stored env.uninit.1 env.uninit.2

/-- A slot that is bootable in the metadata afterwards and was accepted before is accepted afterwards. -/
def FlowEnv.KeepsSlots (env : FlowEnv) (stored : Indexes) : Prop :=
  ∀ slot, ((avbAbFlowFast env stored).metadata slot).Bootable → (env.image slot).Accepted stored →
    (env.image slot).Accepted (avbAbFlowFast env stored).stored

/-- Where both slots could be booted, the indexes of the first one are not above those of the second. -/
def FlowEnv.Ordered (env : FlowEnv) (stored : Indexes) : Prop :=
  (∀ slot, (env.loaded slot).Bootable ∧ (env.image slot).Accepted stored) →
    ∀ n, ∀ i ∈ (env.image !(AbData.targetSlot env.loaded)).index n,
      (env.image (AbData.targetSlot env.loaded)).indexes n ≤ i

section Flow

variable {env : FlowEnv} {stored : Indexes}

theorem avbSlotVerify_ok {image : Image} : avbSlotVerify image stored = .ok ↔ image.Accepted stored := by
  unfold avbSlotVerify
  split_ifs with accepted whole
  · exact ⟨fun _ => accepted, fun _ => rfl⟩
  · exact ⟨nofun, fun no => absurd no accepted⟩
  · exact ⟨fun no => absurd no whole, fun no => absurd no accepted⟩

theorem chooseLoop_boot {slotData slotData' : Bool → Option Indexes} {left : Nat} {target slot : Bool} {ab ab' : AbData}
    (run : chooseLoop env stored slotData (left + 1) target ab = .boot slot false ab' slotData') :
    ((env.image target).Accepted stored ∧ (ab target).Bootable ∧ slot = target ∧ ab' = ab ∧
      slotData' = Function.update slotData target (some (env.image target).indexes)) ∨
    (¬ ((ab target).Bootable ∧ (env.image target).Accepted stored) ∧ ∃ slot', ¬ slot'.Bootable ∧
      chooseLoop env stored slotData left (!target) (Function.update ab target slot') = .boot slot false ab' slotData') := by
  rw [chooseLoop] at run
  by_cases bootable : (ab target).Bootable
  · rw [if_pos bootable] at run
    by_cases accepted : (env.image target).Accepted stored
    · rw [avbSlotVerify_ok.mpr accepted] at run
      cases run
      exact Or.inl ⟨accepted, bootable, rfl, rfl, rfl⟩
    · refine Or.inr ⟨fun both => accepted both.2, unbootable, by decide, ?_⟩
      cases result : avbSlotVerify (env.image target) stored <;> rw [result] at run
      case ok => exact absurd (avbSlotVerify_ok.mp result) accepted
      case errorInvalidMetadata | errorUnsupportedVersion => exact run
      case errorVerification | errorRollbackIndex | errorPublicKeyRejected =>
        dsimp only at run
        split_ifs at run
        · cases run
        · exact run
      all_goals cases run
  · rw [if_neg bootable] at run
    refine Or.inr ⟨fun both => bootable both.1, ab target, bootable, ?_⟩
    rwa [Function.update_eq_self]

theorem updateLoop_stored {slotData : Bool → Option Indexes} {ns : List (Fin 32)} {stored' : Indexes}
    (run : updateLoop env slotData ns stored = (none, stored')) (n : Fin 32) :
    stored' n = if n ∈ ns ∧ rollbackValue slotData n ≠ 0 then rollbackValue slotData n else stored n := by
  induction ns generalizing stored with
  | nil =>
    cases run
    simp
  | cons m ns ih =>
    rw [updateLoop] at run
    by_cases zero : rollbackValue slotData m = 0
    · rw [if_pos zero] at run
      rw [ih run]
      by_cases here : n = m
      · simp [here, zero]
      · simp [here]
    · rw [if_neg zero] at run
      split at run
      · split_ifs at run with same
        · rw [ih run]
          by_cases here : n = m
          · simp [here, zero, same]
          · simp [here]
        · split at run
          · rw [ih run]
            by_cases here : n = m
            · simp [here, zero]
            · simp [here]
          all_goals cases run
      all_goals cases run

theorem rollbackValue_single (slot : Bool) (indexes : Indexes) (n : Fin 32) :
    rollbackValue (Function.update (fun _ => none) slot (some indexes)) n = indexes n := by
  cases slot <;> rfl

theorem finish_ok {ret : FlowResult} {ab orig : AbData} (ok : (env.finish ret stored ab orig).ret = .ok) :
    ret = .ok ∧ (env.finish ret stored ab orig).stored = stored ∧
      (orig = env.metadata → (env.finish ret stored ab orig).metadata = ab) := by
  unfold FlowEnv.finish at ok ⊢
  split_ifs at ok ⊢ with same
  · exact ⟨ok, rfl, fun disk => (same.trans disk).symm⟩
  · split at ok
    · exact ⟨ok, rfl, fun _ => rfl⟩
    all_goals cases ok

theorem flow_ok (ok : (avbAbFlowFast env stored).ret = .ok) : ∃ slot ab,
    (env.image slot).Accepted stored ∧
    (∀ n, (avbAbFlowFast env stored).stored n =
      if (env.image slot).indexes n ≠ 0 then (env.image slot).indexes n else stored n) ∧
    (avbAbFlowFast env stored).metadata = Function.update ab slot (ab slot).tried ∧
    (slot = AbData.targetSlot env.loaded ∧ ab = env.loaded ∧ (env.loaded slot).Bootable ∨
      (!slot) = AbData.targetSlot env.loaded ∧ ¬ (ab !slot).Bootable ∧
        ¬ ((env.loaded !slot).Bootable ∧ (env.image !slot).Accepted stored)) := by
  unfold avbAbFlowFast at ok ⊢
  cases read : env.readMetadata with
  | ok =>
    simp only [read] at ok ⊢
    obtain ⟨first, target⟩ : ∃ first, first = AbData.targetSlot env.loaded := ⟨_, rfl⟩
    rw [← target] at ok ⊢
    cases chosen : chooseLoop env stored (fun _ => none) 2 first env.loaded with
    | stop e ab =>
      simp only [chosen] at ok
      cases (finish_ok ok).1
    | boot slot allowed ab slotData =>
      simp only [chosen] at ok ⊢
      cases updated : updateLoop env slotData (List.finRange 32) stored with
      | mk error stored' =>
        simp only [updated] at ok ⊢
        cases error with
        | some e => cases (finish_ok ok).1
        | none =>
          dsimp only at ok ⊢
          by_cases booted : (slotData slot).isSome = true
          · rw [if_pos booted] at ok ⊢
            obtain ⟨ret, kept, disk⟩ := finish_ok ok
            obtain rfl : allowed = false := by
              cases allowed with
              | false => rfl
              | true => cases ret
            rw [kept, disk rfl]
            have indexes := updateLoop_stored updated
            have all (n : Fin 32) := List.mem_finRange n
            obtain ⟨accepted, bootable, rfl, rfl, rfl⟩ | ⟨no, other, empty, next⟩ := chooseLoop_boot chosen
            · refine ⟨slot, env.loaded, accepted, fun n => ?_, rfl, Or.inl ⟨rfl, rfl, bootable⟩⟩
              rw [indexes n, rollbackValue_single, if_congr (and_iff_right (all n)) rfl rfl]
            · obtain ⟨accepted, -, rfl, rfl, rfl⟩ | ⟨-, _, -, last⟩ := chooseLoop_boot next
              · refine ⟨!first, _, accepted, fun n => ?_, rfl, Or.inr ⟨Bool.not_not first, ?_, ?_⟩⟩
                · rw [indexes n, rollbackValue_single, if_congr (and_iff_right (all n)) rfl rfl]
                · rw [Bool.not_not, Function.update_self]
                  exact empty
                · rw [Bool.not_not]
                  exact no
              · cases last
          · rw [if_neg booted] at ok
            cases ok
  | errorOom =>
    simp only [read] at ok
    cases (finish_ok ok).1
  | errorIo | errorNoSuchPartition | errorRangeOutsidePartition =>
    simp only [read] at ok
    cases (finish_ok ok).1

theorem accepted_of_stored {image : Image} {stored' : Indexes} (accepted : image.Accepted stored)
    (same : ∀ n, stored' n = if image.indexes n ≠ 0 then image.indexes n else stored n) :
    image.Accepted stored' ∧ ∀ n, stored n ≤ stored' n := by
  refine ⟨⟨accepted.1, fun n i used => ?_⟩, fun n => ?_⟩
  · have value : image.indexes n = i := by rw [Image.indexes, Option.mem_def.mp used, Option.getD_some]
    rw [same n, value]
    split
    · exact le_rfl
    · exact accepted.2 n i used
  · rw [same n]
    split
    · next some_ =>
      cases used : image.index n with
      | none => exact absurd (by rw [Image.indexes, used]; rfl) some_
      | some i =>
        rw [Image.indexes, used, Option.getD_some]
        exact accepted.2 n i used
    · exact le_rfl

end Flow

/-- When the flow ends with `ok`, the stored indexes have not decreased; the slots that are left are still accepted exactly
if the indexes of the first slot are not above those of the second where both could have been booted. -/
theorem flow_keepsSlots_iff {env : FlowEnv} {stored : Indexes} (ok : (avbAbFlowFast env stored).ret = .ok) :
    (∀ n, stored n ≤ (avbAbFlowFast env stored).stored n) ∧ (env.KeepsSlots stored ↔ env.Ordered stored) := by
  obtain ⟨slot, ab, accepted, indexes, metadata, order⟩ := flow_ok ok
  obtain ⟨still, more⟩ := accepted_of_stored accepted indexes
  refine ⟨more, ?_⟩
  unfold FlowEnv.KeepsSlots FlowEnv.Ordered
  rw [metadata]
  have own (other : Bool) (is : other = slot) : (env.image other).Accepted (avbAbFlowFast env stored).stored := is ▸ still
  rcases order with ⟨first, loaded, bootable⟩ | ⟨first, empty, no⟩
  · rw [← first, loaded]
    -- The other slot is as it was, so it counts if it could have been booted.
    have untouched : Function.update env.loaded slot (env.loaded slot).tried (!slot) = env.loaded (!slot) :=
      Function.update_of_ne (by simp) _ _
    constructor
    · intro keeps both n i used
      have after := (keeps (!slot) (untouched ▸ (both (!slot)).1) (both (!slot)).2).2 n i used
      rw [indexes n] at after
      by_cases zero : (env.image slot).indexes n = 0
      · omega
      · rwa [if_pos zero] at after
    · intro ordered other bootableNow before
      by_cases is : other = slot
      · exact own other is
      · obtain rfl : other = !slot := by revert is; cases other <;> cases slot <;> decide
        rw [untouched] at bootableNow
        have both (other : Bool) : (env.loaded other).Bootable ∧ (env.image other).Accepted stored := by
          by_cases is : other = slot
          · exact is ▸ ⟨bootable, accepted⟩
          · obtain rfl : other = !slot := by revert is; cases other <;> cases slot <;> decide
            exact ⟨bootableNow, before⟩
        refine ⟨before.1, fun n i used => ?_⟩
        rw [indexes n]
        split
        · exact ordered both n i used
        · exact before.2 n i used
  · -- The first slot is not bootable any more, so only the booted one counts.
    constructor
    · intro _ both
      exact absurd (both (!slot)) no
    · intro _ other bootableNow _
      by_cases is : other = slot
      · exact own other is
      · obtain rfl : other = !slot := by revert is; cases other <;> cases slot <;> decide
        rw [Function.update_of_ne (by simp)] at bootableNow
        exact absurd bootableNow empty

/-- Two slots that have booted, with index 5 in the first and `i` in the second. -/
def twoSlots (i : Nat) : FlowEnv where
  readMetadata := .ok
  metadata slot := if slot then ⟨14, 0, 1⟩ else ⟨15, 0, 1⟩
  uninit := (fun _ => unbootable, fun _ => unbootable)
  image slot := ⟨.ok, fun n => if n = 0 then some (if slot then i else 5) else none⟩
  allow := false
  readIndex _ := .ok
  writeIndex _ := .ok
  writeMetadata := .ok

theorem twoSlots_kept : (twoSlots 7).KeepsSlots (fun _ => 3) :=
  (@flow_keepsSlots_iff (twoSlots 7) (fun _ => 3) (by decide +kernel)).2.mpr (by
    unfold FlowEnv.Ordered
    decide +kernel)

/-- The index of the slot that is booted locks out the other one. -/
theorem twoSlots_lockedOut : (avbAbFlowFast (twoSlots 3) (fun _ => 3)).ret = .ok ∧
    ¬ (twoSlots 3).KeepsSlots (fun _ => 3) := by
  refine ⟨by decide +kernel, fun keeps => ?_⟩
  have still := keeps true (by decide +kernel) (by decide +kernel)
  exact absurd still (by decide +kernel)

end UuuFastboot.Avb
