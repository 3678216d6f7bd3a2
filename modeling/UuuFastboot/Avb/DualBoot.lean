import UuuFastboot.Avb.AbFlow

namespace UuuFastboot.Avb

/-- `AvbABData` as it is compared: the slots and the other bytes. -/
structure Metadata where
  slots : AbData
  rest : Nat
deriving DecidableEq

/-- Where the contents of `ab_data` come from. -/
inductive Origin
  | uninit | read | fresh
deriving DecidableEq

/-- The slots of `fsl_avb_ab_data_init`. -/
def initSlots : AbData := fun slot => if slot then ⟨14, 7, 0⟩ else ⟨15, 7, 0⟩

/-- What the loader meets: whether the table of partitions and the partition misc are found, whether the metadata can be
read, and the metadata; for each slot whether its partition is found, its first block can be read and has a FIT, and what
`spl_load_simple_fit` returns; whether the writes succeed; and what is in `ab_data` and `ab_data_orig` at first. -/
structure DualEnv where
  gpt : Bool
  misc : Bool
  readOk : Bool
  disk : Metadata
  valid : Metadata → Bool
  initRest : Nat
  uninit : Metadata × Metadata
  partition : Bool → Bool
  header : Bool → Bool
  fit : Bool → Bool
  load : Bool → Int
  writeInit : Bool
  writeEnd : Bool

/-- The metadata after `fsl_load_metadata_dual_uboot`, what has been written, and what is on the disk. -/
structure LoadOut where
  ok : Bool
  ab : Metadata
  orig : Metadata
  origin : Origin
  writes : List Origin
  disk : Metadata

def Metadata.normalized (data : Metadata) : Metadata := { data with slots := fun slot => fslSlotNormalize (data.slots slot) }

/-- `fsl_load_metadata_dual_uboot`. The metadata is in one block, so it is read or `num_bytes` is compared without having
been set: `none`. -/
def fslLoadMetadataDualUboot (env : DualEnv) : Option LoadOut :=
  if env.misc then
    if env.readOk then
      if env.valid env.disk then some ⟨true, env.disk.normalized, env.disk, .read, [], env.disk⟩
      else
        let ab : Metadata := ⟨initSlots, env.initRest⟩
        some ⟨env.writeInit, ab, env.uninit.2, .fresh, [.fresh], if env.writeInit then ab else env.disk⟩
    else none
  else some ⟨false, env.uninit.1, env.uninit.2, .uninit, [], env.disk⟩

/-- What comes of trying a slot; without its partition `ret` is left as it was. -/
inductive Attempt
  | noPartition | ioError | result (ret : Int)
deriving DecidableEq

def DualEnv.attempt (env : DualEnv) (slot : Bool) : Attempt :=
  if env.partition slot then
    if env.header slot then .result (if env.fit slot then env.load slot else -1) else .ioError
  else .noPartition

/-- What the loop over the slots leaves: the slot to boot, the slots, and those whose image `spl_load_simple_fit` has
loaded. -/
structure LoopOut where
  boot : Option Bool
  slots : AbData
  loaded : List Bool

/-- The loop over the slots. -/
def bootLoop (env : DualEnv) : Nat → Bool → Int → AbData → LoopOut
  | 0, _, _, ab => ⟨none, ab, []⟩
  | left + 1, target, ret, ab =>
    if (ab target).Bootable then
      match env.attempt target with
      | .ioError => ⟨none, ab, []⟩
      | .noPartition =>
        if ret ≠ 0 then bootLoop env left (!target) ret (Function.update ab target unbootable)
        else ⟨some target, ab, []⟩
      | .result ret =>
        if ret ≠ 0 then bootLoop env left (!target) ret (Function.update ab target unbootable)
        else ⟨some target, ab, [target]⟩
    else bootLoop env left (!target) ret ab

structure DualOut where
  ret : Int
  boot : Option Bool
  loaded : List Bool
  writes : List Origin
  disk : Metadata

/-- The end: `fsl_save_metadata_if_changed_dual_uboot`, and the result. -/
def DualEnv.finish (env : DualEnv) (failed : Bool) (loop : LoopOut) (out : LoadOut) (ab : Metadata) : DualOut :=
  if ab = out.orig then ⟨if failed then -1 else 0, loop.boot, loop.loaded, out.writes, out.disk⟩
  else if env.misc then
    ⟨if failed || !env.writeEnd then -1 else 0, loop.boot, loop.loaded, out.writes ++ [out.origin],
      if env.writeEnd then ab else out.disk⟩
  else ⟨-1, loop.boot, loop.loaded, out.writes, out.disk⟩

/-- `mmc_load_image_raw_sector_dual_uboot`; `none` where an undefined value decides. -/
def mmcLoadImageRawSectorDualUboot (env : DualEnv) : Option DualOut :=
  if env.gpt then
    (fslLoadMetadataDualUboot env).map (fun out =>
      if out.ok then
        let loop := bootLoop env 2 (AbData.targetSlot out.ab.slots) 0 out.ab.slots
        match loop.boot with
        | none => env.finish true loop out { out.ab with slots := loop.slots }
        | some slot => env.finish false loop out
            { out.ab with slots := Function.update loop.slots slot (loop.slots slot).tried }
      else env.finish true ⟨none, out.ab.slots, []⟩ out out.ab)
  else
    some (env.finish true ⟨none, env.uninit.1.slots, []⟩ ⟨false, env.uninit.1, env.uninit.2, .uninit, [], env.disk⟩
      env.uninit.1)

/-- The metadata to start from: what was read, or what is set up if that is not valid. -/
def DualEnv.start (env : DualEnv) : Metadata :=
  if env.valid env.disk then env.disk.normalized else ⟨initSlots, env.initRest⟩

def DualEnv.loop (env : DualEnv) : LoopOut := bootLoop env 2 (AbData.targetSlot env.start.slots) 0 env.start.slots

def DualEnv.orig (env : DualEnv) : Metadata := if env.valid env.disk then env.disk else env.uninit.2

/-- Success is reported for a bootable slot whose image has been loaded; a slot that was tried before it was not, and is
saved as not bootable. What is written does not come from uninitialised memory. -/
def DualEnv.Right (env : DualEnv) : Prop :=
  ∃ out, mmcLoadImageRawSectorDualUboot env = some out ∧
    (out.ret = 0 → ∃ slot ∈ out.boot, slot ∈ out.loaded ∧ (env.start.slots slot).Bootable ∧
      (AbData.targetSlot env.start.slots = (!slot) → (env.start.slots !slot).Bootable →
        (!slot) ∉ out.loaded ∧ ¬ (out.disk.slots !slot).Bootable)) ∧
    .uninit ∉ out.writes

def DualEnv.Tried (env : DualEnv) (slot : Bool) : Prop :=
  (env.start.slots slot).Bootable ∧
    (AbData.targetSlot env.start.slots = slot ∨ ¬ (env.start.slots !slot).Bootable)

def DualEnv.booted (env : DualEnv) (slot : Bool) : Metadata :=
  { env.start with slots := Function.update env.start.slots slot (env.start.slots slot).tried }

/-- The new metadata when the first slot has failed and the second is booted. -/
def DualEnv.second (env : DualEnv) : Metadata := ⟨fun slot => if slot then ⟨14, 6, 0⟩ else unbootable, env.initRest⟩

structure DualEnv.Sound (env : DualEnv) : Prop where
  table : env.gpt = false → env.misc = true → env.uninit.1 = env.uninit.2
  read : env.gpt = true → env.misc = true → env.readOk = true
  found : env.gpt = true → env.misc = true → env.valid env.disk = true ∨ env.writeInit = true → ∀ slot, env.Tried slot →
    env.partition slot = true ∨ env.writeEnd = false ∧ env.booted slot ≠ env.orig
  saved : env.gpt = true → env.misc = true → env.valid env.disk = false → env.writeInit = true →
    ∀ ret ≠ 0, env.attempt false = .result ret → env.attempt true = .result 0 → env.uninit.2 ≠ env.second

section Loop

variable {env : DualEnv} {target : Bool} {ab : AbData}

theorem bootLoop_skip {ret : Int} (left : Nat) (no : ¬ (ab target).Bootable) :
    bootLoop env (left + 1) target ret ab = bootLoop env left (!target) ret ab := by
  rw [bootLoop, if_neg no]

theorem bootLoop_failed {ret ret' : Int} (left : Nat) (bootable : (ab target).Bootable) (nonzero : ret' ≠ 0)
    (attempt : env.attempt target = .result ret') : bootLoop env (left + 1) target ret ab =
      bootLoop env left (!target) ret' (Function.update ab target unbootable) := by
  rw [bootLoop, if_pos bootable, attempt]
  exact if_pos nonzero

theorem bootLoop_loaded {ret : Int} (left : Nat) (bootable : (ab target).Bootable)
    (attempt : env.attempt target = .result 0) : bootLoop env (left + 1) target ret ab = ⟨some target, ab, [target]⟩ := by
  rw [bootLoop, if_pos bootable, attempt]
  rfl

theorem bootLoop_missing (left : Nat) (bootable : (ab target).Bootable) (attempt : env.attempt target = .noPartition) :
    bootLoop env (left + 1) target 0 ab = ⟨some target, ab, []⟩ := by
  rw [bootLoop, if_pos bootable, attempt]
  rfl

theorem bootLoop_tried {slot : Bool} (bootable : (ab slot).Bootable) (first : target = slot ∨ ¬ (ab !slot).Bootable)
    (attempt : env.attempt slot = .noPartition) : bootLoop env 2 target 0 ab = ⟨some slot, ab, []⟩ := by
  by_cases same : target = slot
  · rw [same, bootLoop_missing 1 bootable attempt]
  · obtain rfl : target = !slot := by revert same; cases target <;> cases slot <;> decide
    rw [bootLoop_skip 1 (first.resolve_left same), Bool.not_not, bootLoop_missing 0 bootable attempt]

theorem bootLoop_last {ret : Int} (nonzero : ret ≠ 0) {slot : Bool} (boot : (bootLoop env 1 target ret ab).boot = some slot) :
    slot = target ∧ (ab target).Bootable ∧ env.attempt target = .result 0 := by
  by_cases bootable : (ab target).Bootable
  · rw [bootLoop, if_pos bootable] at boot
    cases attempt : env.attempt target with
    | ioError =>
      rw [attempt] at boot
      cases boot
    | noPartition =>
      rw [attempt] at boot
      simp only [if_pos nonzero] at boot
      cases boot
    | result ret' =>
      rw [attempt] at boot
      by_cases zero : ret' = 0
      · simp only [zero, ne_eq, not_true_eq_false, if_false] at boot
        exact ⟨(Option.some.inj boot).symm, bootable, by rw [zero]⟩
      · simp only [if_pos zero] at boot
        cases boot
  · rw [bootLoop_skip _ bootable] at boot
    cases boot

theorem bootLoop_boot {slot : Bool} (boot : (bootLoop env 2 target 0 ab).boot = some slot) :
    ((ab slot).Bootable ∧ (target = slot ∨ ¬ (ab !slot).Bootable) ∧
      (env.attempt slot = .noPartition ∧ bootLoop env 2 target 0 ab = ⟨some slot, ab, []⟩ ∨
        bootLoop env 2 target 0 ab = ⟨some slot, ab, [slot]⟩)) ∨
    (target = (!slot) ∧ (ab slot).Bootable ∧ (∃ ret ≠ 0, env.attempt (!slot) = .result ret) ∧
      env.attempt slot = .result 0 ∧
      bootLoop env 2 target 0 ab = ⟨some slot, Function.update ab (!slot) unbootable, [slot]⟩) := by
  -- The first slot that is tried, with `left` more rounds behind it.
  have first {left : Nat} {slot' : Bool} (bootable : (ab slot').Bootable)
      (boot : (bootLoop env (left + 1) slot' 0 ab).boot = some slot) :
      (slot' = slot ∧ (env.attempt slot = .noPartition ∧ bootLoop env (left + 1) slot' 0 ab = ⟨some slot, ab, []⟩ ∨
        bootLoop env (left + 1) slot' 0 ab = ⟨some slot, ab, [slot]⟩)) ∨
      ∃ ret ≠ 0, env.attempt slot' = .result ret ∧ bootLoop env (left + 1) slot' 0 ab =
        bootLoop env left (!slot') ret (Function.update ab slot' unbootable) := by
    cases attempt : env.attempt slot' with
    | ioError =>
      rw [bootLoop, if_pos bootable, attempt] at boot
      cases boot
    | noPartition =>
      have run := bootLoop_missing left bootable attempt
      rw [run] at boot ⊢
      cases boot
      exact Or.inl ⟨rfl, Or.inl ⟨attempt, rfl⟩⟩
    | result ret =>
      by_cases zero : ret = 0
      · have run := @bootLoop_loaded env slot' ab 0 left bootable (zero ▸ attempt)
        rw [run] at boot ⊢
        cases boot
        exact Or.inl ⟨rfl, Or.inr rfl⟩
      · exact Or.inr ⟨ret, zero, rfl, bootLoop_failed left bootable zero attempt⟩
  by_cases bootable : (ab target).Bootable
  · obtain ⟨rfl, run⟩ | ⟨ret, nonzero, failed, run⟩ := first bootable boot
    · exact Or.inl ⟨bootable, Or.inl rfl, run⟩
    · rw [run] at boot ⊢
      obtain ⟨rfl, able, attempt⟩ := bootLoop_last nonzero boot
      rw [bootLoop_loaded 0 able attempt, Bool.not_not]
      rw [Function.update_of_ne (by simp)] at able
      exact Or.inr ⟨rfl, able, ⟨ret, nonzero, failed⟩, attempt, rfl⟩
  · rw [bootLoop_skip 1 bootable] at boot ⊢
    by_cases able : (ab !target).Bootable
    · obtain ⟨rfl, run⟩ | ⟨ret, nonzero, failed, run⟩ := first able boot
      · exact Or.inl ⟨able, Or.inr (by rwa [Bool.not_not]), run⟩
      · rw [run] at boot
        cases boot
    · rw [bootLoop_skip 0 able] at boot
      cases boot

end Loop

section Right

variable {env : DualEnv}

theorem dual_eq (gpt : env.gpt = true) (misc : env.misc = true) (read : env.readOk = true)
    (there : env.valid env.disk = true ∨ env.writeInit = true) :
    ∃ out, out.orig = env.orig ∧ out.origin ≠ .uninit ∧ .uninit ∉ out.writes ∧
      (if env.valid env.disk then out.disk = env.orig else out.disk = env.start) ∧
      mmcLoadImageRawSectorDualUboot env = some (
        match env.loop.boot with
        | none => env.finish true env.loop out { env.start with slots := env.loop.slots }
        | some slot => env.finish false env.loop out
            { env.start with slots := Function.update env.loop.slots slot (env.loop.slots slot).tried }) := by
  unfold mmcLoadImageRawSectorDualUboot fslLoadMetadataDualUboot DualEnv.loop DualEnv.start DualEnv.orig
  rw [if_pos gpt, if_pos misc, if_pos read]
  by_cases valid : env.valid env.disk = true
  · rw [if_pos valid, if_pos valid, if_pos valid]
    exact ⟨_, rfl, by simp, List.not_mem_nil, by rw [if_pos valid], rfl⟩
  · obtain written := there.resolve_left valid
    rw [if_neg valid, if_neg valid, if_neg valid, written]
    exact ⟨_, rfl, by simp, by simp, by rw [if_neg valid]; rfl, rfl⟩

theorem finish_ret {loop : LoopOut} {out : LoadOut} {ab : Metadata} (misc : env.misc = true) {failed : Bool} :
    (env.finish failed loop out ab).ret = 0 ↔ failed = false ∧ (ab = out.orig ∨ env.writeEnd = true) := by
  unfold DualEnv.finish
  split_ifs <;> simp_all

theorem finish_writes {failed : Bool} {loop : LoopOut} {out : LoadOut} {ab : Metadata} (before : .uninit ∉ out.writes)
    (known : env.misc = true → ab ≠ out.orig → out.origin ≠ .uninit) : .uninit ∉ (env.finish failed loop out ab).writes := by
  unfold DualEnv.finish
  by_cases same : ab = out.orig
  · rw [if_pos same]
    exact before
  · rw [if_neg same]
    by_cases misc : env.misc = true
    · rw [if_pos misc]
      simp [before, Ne.symm (known misc same)]
    · rw [if_neg misc]
      exact before

theorem right_of_failed {loop : LoopOut} {out : LoadOut} {ab : Metadata}
    (run : mmcLoadImageRawSectorDualUboot env = some (env.finish true loop out ab)) (before : .uninit ∉ out.writes)
    (known : env.misc = true → ab ≠ out.orig → out.origin ≠ .uninit) : env.Right := by
  refine ⟨_, run, fun done => absurd done ?_, finish_writes before known⟩
  unfold DualEnv.finish
  split_ifs <;> simp_all

theorem finish_boot {failed : Bool} {loop : LoopOut} {out : LoadOut} {ab : Metadata} :
    (env.finish failed loop out ab).boot = loop.boot ∧ (env.finish failed loop out ab).loaded = loop.loaded := by
  unfold DualEnv.finish
  split_ifs <;> exact ⟨rfl, rfl⟩

theorem finish_disk {loop : LoopOut} {out : LoadOut} {ab : Metadata} (misc : env.misc = true)
    (done : (env.finish false loop out ab).ret = 0) :
    (env.finish false loop out ab).disk = if ab = out.orig then out.disk else ab := by
  have saved := ((finish_ret misc).mp done).2
  unfold DualEnv.finish
  split_ifs <;> simp_all

theorem second_eq : Metadata.mk (Function.update (Function.update initSlots false unbootable) true ⟨14, 6, 0⟩) env.initRest =
    env.second := by
  rw [DualEnv.second]
  congr 1
  funext slot
  cases slot <;> rfl

theorem attempt_noPartition {slot : Bool} : env.attempt slot = .noPartition ↔ env.partition slot = false := by
  unfold DualEnv.attempt
  split_ifs <;> simp_all

/-- Where the slot to boot is the first one tried: right if its partition is there, or if saving fails. -/
theorem right_of_loaded (gpt : env.gpt = true) (misc : env.misc = true) (read : env.readOk = true)
    (there : env.valid env.disk = true ∨ env.writeInit = true)
    (found : ∀ slot, env.Tried slot → env.partition slot = true ∨ env.writeEnd = false ∧ env.booted slot ≠ env.orig)
    (saved : env.valid env.disk = false → ∀ ret ≠ 0, env.attempt false = .result ret → env.attempt true = .result 0 →
      env.uninit.2 ≠ env.second) : env.Right := by
  obtain ⟨out, orig, known, before, disk, run⟩ := dual_eq gpt misc read there
  cases boot : env.loop.boot with
  | none =>
    rw [boot] at run
    exact right_of_failed run before (fun _ _ => known)
  | some slot =>
    rw [boot] at run
    refine ⟨_, run, fun done => ⟨slot, finish_boot.1.trans boot, ?_⟩, finish_writes before (fun _ _ => known)⟩
    have saves := ((finish_ret misc).mp done).2
    have after := finish_disk misc done
    rw [finish_boot.2]
    rw [orig] at saves after
    rw [after]
    obtain ⟨bootable, first, run⟩ | ⟨first, bootable, ⟨ret, nonzero, failed⟩, loaded, run⟩ := bootLoop_boot boot
    · have loaded : slot ∈ env.loop.loaded := by
        obtain ⟨missing, run⟩ | run := run
        · rw [DualEnv.loop, run] at saves
          obtain there | ⟨fails, changed⟩ := found slot ⟨bootable, first⟩
          · rw [attempt_noPartition.mp missing] at there
            cases there
          · exact (saves.elim changed (fun no => by rw [fails] at no; cases no)).elim
        · rw [DualEnv.loop, run]
          exact List.mem_singleton_self slot
      refine ⟨loaded, bootable, fun other able => ?_⟩
      obtain same | no := first
      · rw [same] at other
        exact absurd other (by cases slot <;> decide)
      · exact absurd able no
    · rw [DualEnv.loop, run]
      refine ⟨List.mem_singleton_self slot, bootable, fun _ _ => ⟨by simp, ?_⟩⟩
      have unbooted : ¬ (Function.update (Function.update env.start.slots (!slot) unbootable) slot
          (Function.update env.start.slots (!slot) unbootable slot).tried !slot).Bootable := by
        rw [Function.update_of_ne (by simp), Function.update_self]
        decide
      split_ifs with same
      · by_cases valid : env.valid env.disk = true
        · rw [if_pos valid] at disk
          rw [disk, ← same]
          exact unbooted
        · -- New metadata: what is in `ab_data_orig` cannot be the same by chance.
          have new : env.start = ⟨initSlots, env.initRest⟩ := if_neg valid
          rw [new] at first same
          obtain rfl : slot = true := by
            have target : AbData.targetSlot initSlots = false := by decide
            rw [target] at first
            cases slot with
            | true => rfl
            | false => cases first
          refine absurd ?_ (saved (by simpa using valid) ret nonzero failed loaded)
          have kept : env.orig = env.uninit.2 := if_neg valid
          rw [← kept, ← same]
          exact second_eq
      · exact unbooted

end Right

/-- The loader does what it promises exactly if: without a table of partitions nothing is found to be written; the metadata
can be read; the partition of the first slot that is tried is there, or saving fails; and new metadata is not taken for
what it was by chance. -/
theorem DualEnv.right_iff (env : DualEnv) : env.Right ↔ env.Sound := by
  constructor
  · rintro ⟨out, run, right, writes⟩
    have readable (gpt : env.gpt = true) (misc : env.misc = true) : env.readOk = true := by
      by_contra no
      simp [mmcLoadImageRawSectorDualUboot, fslLoadMetadataDualUboot, gpt, misc, no] at run
    refine ⟨fun gpt misc => ?_, readable, fun gpt misc there slot tried => ?_,
      fun gpt misc valid written ret nonzero failed loaded same => ?_⟩
    · by_contra changed
      rw [mmcLoadImageRawSectorDualUboot, gpt] at run
      cases run
      simp [DualEnv.finish, changed, misc] at writes
    · by_contra bad
      obtain ⟨missing, saves⟩ := not_or.mp bad
      obtain ⟨load, orig, -, -, -, run'⟩ := dual_eq gpt misc (readable gpt misc) there
      have loop : env.loop = _ := bootLoop_tried tried.1 tried.2 (attempt_noPartition.mpr (by simpa using missing))
      rw [loop] at run'
      obtain rfl := Option.some.inj (run.symm.trans run')
      obtain ⟨_, -, loaded, -⟩ := right ((finish_ret misc).mpr ⟨rfl, by
        rw [orig]
        by_contra no
        obtain ⟨changed, unwritten⟩ := not_or.mp no
        exact saves ⟨by simpa using unwritten, changed⟩⟩)
      rw [finish_boot.2] at loaded
      cases loaded
    · obtain ⟨load, orig, -, -, disk, run'⟩ := dual_eq gpt misc (readable gpt misc) (Or.inr written)
      have start : env.start = ⟨initSlots, env.initRest⟩ := if_neg (by simp [valid])
      have kept : env.orig = env.uninit.2 := if_neg (by simp [valid])
      have loop : env.loop = ⟨some true, Function.update initSlots false unbootable, [true]⟩ := by
        rw [DualEnv.loop, start]
        change bootLoop env 2 false 0 initSlots = _
        exact (bootLoop_failed 1 (by decide) nonzero failed).trans (bootLoop_loaded 0 (by decide) loaded)
      have metadata : Metadata.mk (Function.update env.loop.slots true (env.loop.slots true).tried) env.start.rest =
          load.orig := by
        rw [orig, kept, same, loop, start]
        exact second_eq
      have boots : env.loop.boot = some true := by rw [loop]
      rw [boots] at run'
      obtain rfl := Option.some.inj (run.symm.trans run')
      have done := (@finish_ret env env.loop load _ misc false).mpr ⟨rfl, Or.inl metadata⟩
      obtain ⟨slot, boot, -, -, other⟩ := right done
      obtain rfl : true = slot := Option.some.inj ((finish_boot.1.trans boots).symm.trans boot)
      rw [if_neg (by simp [valid])] at disk
      rw [finish_disk misc done, if_pos metadata, disk, start] at other
      exact (other rfl (show SlotData.Bootable ⟨15, 7, 0⟩ by decide)).2 (show SlotData.Bootable ⟨15, 7, 0⟩ by decide)
  · intro sound
    by_cases gpt : env.gpt = true
    · by_cases misc : env.misc = true
      · have read := sound.read gpt misc
        by_cases there : env.valid env.disk = true ∨ env.writeInit = true
        · exact right_of_loaded gpt misc read there (sound.found gpt misc there) (fun valid =>
            sound.saved gpt misc valid (there.resolve_left (by simp [valid])))
        · obtain ⟨invalid, unwritten⟩ := not_or.mp there
          have run : mmcLoadImageRawSectorDualUboot env = some (env.finish true ⟨none, initSlots, []⟩
              ⟨env.writeInit, ⟨initSlots, env.initRest⟩, env.uninit.2, .fresh, [.fresh], env.disk⟩
              ⟨initSlots, env.initRest⟩) := by
            simp [mmcLoadImageRawSectorDualUboot, fslLoadMetadataDualUboot, gpt, misc, read, invalid, unwritten]
          exact right_of_failed run (by simp) (fun _ _ => by simp)
      · have run : mmcLoadImageRawSectorDualUboot env = some (env.finish true ⟨none, env.uninit.1.slots, []⟩
            ⟨false, env.uninit.1, env.uninit.2, .uninit, [], env.disk⟩ env.uninit.1) := by
          simp [mmcLoadImageRawSectorDualUboot, fslLoadMetadataDualUboot, gpt, misc]
        exact right_of_failed run List.not_mem_nil (fun no => absurd no misc)
    · have run : mmcLoadImageRawSectorDualUboot env = some (env.finish true ⟨none, env.uninit.1.slots, []⟩
          ⟨false, env.uninit.1, env.uninit.2, .uninit, [], env.disk⟩ env.uninit.1) := by
        simp [mmcLoadImageRawSectorDualUboot, gpt]
      exact right_of_failed run List.not_mem_nil (fun misc changed => absurd (sound.table (by simpa using gpt) misc) changed)

def onlyB : DualEnv where
  gpt := true
  misc := true
  readOk := true
  disk := ⟨initSlots, 0⟩
  valid := fun _ => true
  initRest := 0
  uninit := (⟨initSlots, 0⟩, ⟨initSlots, 0⟩)
  partition := fun slot => slot
  header := fun _ => true
  fit := fun _ => true
  load := fun _ => 0
  writeInit := true
  writeEnd := true

/-- The first slot is reported to be booted, and nothing has been loaded. -/
theorem onlyB_unloaded : (mmcLoadImageRawSectorDualUboot onlyB).map (fun out => (out.ret, out.boot, out.loaded)) =
    some (0, some false, []) ∧ ¬ onlyB.Right := by
  have run : (mmcLoadImageRawSectorDualUboot onlyB).map (fun out => (out.ret, out.boot, out.loaded)) =
      some (0, some false, []) := by decide
  refine ⟨run, ?_⟩
  rintro ⟨out, eq, right, -⟩
  rw [eq] at run
  obtain ⟨ret, -, loaded⟩ : out.ret = 0 ∧ out.boot = some false ∧ out.loaded = [] := by simpa using run
  obtain ⟨_, -, mem, -⟩ := right ret
  rw [loaded] at mem
  cases mem

end UuuFastboot.Avb
