import UuuFastboot.Avb.AbFlow

namespace UuuFastboot.Avb

variable {env : FlowEnv} {stored : Indexes} {ab : AbData} {slot slot' : SlotData}

/-- What the loop over the slots can come to from the metadata `ab`: a slot is left as it was or given up, the slot to
boot is bootable, and no index of the slot data is below the stored one. -/
inductive Chosen.Sound (stored : Indexes) (ab : AbData) : Chosen → Prop
  | stop (e : FlowError) (ab' : AbData) (kept : ∀ s, ab' s = ab s ∨ ab' s = unbootable) : Sound stored ab (.stop e ab')
  | boot (target allowed : Bool) (ab' : AbData) (slotData : Bool → Option Indexes)
      (kept : ∀ s, ab' s = ab s ∨ ab' s = unbootable) (bootable : (ab' target).Bootable)
      (fresh : ∀ n, rollbackValue slotData n = 0 ∨ stored n ≤ rollbackValue slotData n) :
      Sound stored ab (.boot target allowed ab' slotData)

theorem chooseLoop_sound (env : FlowEnv) (stored : Indexes) (left : Nat) (target : Bool) {ab' : AbData}
    (kept : ∀ s, ab' s = ab s ∨ ab' s = unbootable) : (chooseLoop env stored (fun _ => none) left target ab').Sound stored ab := by
  induction left generalizing target ab' with
  | zero => exact .stop _ _ kept
  | succ left ih =>
    have skipped (s : Bool) : Function.update ab' target unbootable s = ab s ∨
        Function.update ab' target unbootable s = unbootable := by
      by_cases here : s = target
      · exact Or.inr (by rw [here, Function.update_self])
      · rw [Function.update_of_ne here]
        exact kept s
    rw [chooseLoop]
    by_cases bootable : (ab' target).Bootable
    · rw [if_pos bootable]
      cases result : avbSlotVerify (env.image target) stored with
      | ok =>
        refine .boot target false ab' _ kept bootable (fun n => ?_)
        rw [rollbackValue_single, Image.indexes]
        cases used : (env.image target).index n with
        | none => exact Or.inl rfl
        | some i => exact Or.inr ((avbSlotVerify_ok.mp result).2 n i used)
      | errorInvalidMetadata | errorUnsupportedVersion => exact ih _ skipped
      | errorVerification | errorRollbackIndex | errorPublicKeyRejected =>
        dsimp only
        split_ifs
        · exact .boot target true ab' _ kept bootable (fun _ => Or.inl rfl)
        · exact ih _ skipped
      | _ => exact .stop _ _ kept
    · rw [if_neg bootable]
      exact ih _ kept

theorem updateLoop_mono (env : FlowEnv) {slotData : Bool → Option Indexes} (ns : List (Fin 32))
    (fresh : ∀ n, rollbackValue slotData n = 0 ∨ stored n ≤ rollbackValue slotData n) (n : Fin 32) :
    stored n ≤ (updateLoop env slotData ns stored).2 n := by
  induction ns generalizing stored with
  | nil => exact le_rfl
  | cons m ns ih =>
    rw [updateLoop]
    split
    · exact ih fresh
    rename_i zero
    split
    · split
      · exact ih fresh
      · split
        · have higher (k : Fin 32) : stored k ≤ Function.update stored m (rollbackValue slotData m) k := by
            by_cases here : k = m
            · rw [here, Function.update_self]
              exact (fresh m).resolve_left zero
            · rw [Function.update_of_ne here]
          refine (higher n).trans (ih (fun k => ?_))
          by_cases here : k = m
          · rw [here, Function.update_self]
            exact Or.inr le_rfl
          · rw [Function.update_of_ne here]
            exact fresh k
        all_goals exact le_rfl
    all_goals exact le_rfl

/-- No more tries, and no success that was not there. -/
def SlotData.Spent (slot slot' : SlotData) : Prop :=
  slot'.triesRemaining ≤ slot.triesRemaining ∧ (slot.successfulBoot = 0 → slot'.successfulBoot = 0)

theorem SlotData.Spent.unbootable : slot.Spent unbootable := ⟨Nat.zero_le _, fun _ => rfl⟩

theorem SlotData.Spent.normalize (slot : SlotData) : slot.Spent (fslSlotNormalize slot) := by
  unfold fslSlotNormalize
  dsimp only
  split_ifs <;> first | exact .unbootable | exact ⟨le_rfl, id⟩

theorem SlotData.Spent.tried (spent : slot.Spent slot') : slot.Spent slot'.tried := by
  unfold SlotData.tried
  split_ifs
  · exact ⟨(Nat.sub_le _ _).trans spent.1, spent.2⟩
  · exact spent

/-- What one call leaves, however it ends: a boot uses up a try of a slot that has not been successful. -/
structure FlowOut.Left (env : FlowEnv) (stored : Indexes) (out : FlowOut) : Prop where
  stored : ∀ n, stored n ≤ out.stored n
  spent : env.readMetadata = .ok → ∀ s, (env.metadata s).Spent (out.metadata s)
  tried : env.readMetadata = .ok → out.ret = .ok → (∀ s, (env.metadata s).successfulBoot = 0) →
    ∃ s, (out.metadata s).triesRemaining < (env.metadata s).triesRemaining

theorem finish_left {ret : FlowResult} {stored' : Indexes} (mono : ∀ n, stored n ≤ stored' n)
    (spent : ∀ s, (env.metadata s).Spent (ab s))
    (tried : ret = .ok → (∀ s, (env.metadata s).successfulBoot = 0) →
      ∃ s, (ab s).triesRemaining < (env.metadata s).triesRemaining) :
    (env.finish ret stored' ab env.metadata).Left env stored := by
  unfold FlowEnv.finish
  split
  · rename_i same
    exact ⟨mono, fun _ _ => ⟨le_rfl, id⟩, fun _ => same ▸ tried⟩
  · split
    · exact ⟨mono, fun _ => spent, fun _ => tried⟩
    all_goals exact ⟨mono, fun _ _ => ⟨le_rfl, id⟩, fun _ ok => by cases ok⟩

theorem flow_left (env : FlowEnv) (stored : Indexes) : (avbAbFlowFast env stored).Left env stored := by
  unfold avbAbFlowFast
  split
  · have sound := chooseLoop_sound env stored 2 (AbData.targetSlot env.loaded) (fun s => Or.inl (rfl : env.loaded s = _))
    generalize chooseLoop env stored (fun _ => none) 2 _ env.loaded = chosen at sound ⊢
    have spent {ab' : AbData} (kept : ∀ s, ab' s = env.loaded s ∨ ab' s = unbootable) (s : Bool) :
        (env.metadata s).Spent (ab' s) := by
      rcases kept s with same | given
      · exact same ▸ .normalize _
      · exact given ▸ .unbootable
    cases sound with
    | stop e ab' kept => exact finish_left (fun _ => le_rfl) (spent kept) (fun ok => by cases ok)
    | boot target allowed ab' slotData kept bootable fresh =>
      have mono := updateLoop_mono env (List.finRange 32) fresh
      dsimp only
      generalize updateLoop env slotData (List.finRange 32) stored = updated at mono ⊢
      obtain ⟨_ | e, stored'⟩ := updated
      · dsimp only
        split
        · refine finish_left mono (fun s => ?_) (fun _ fails => ⟨target, ?_⟩)
          · by_cases here : s = target
            · rw [here, Function.update_self]
              exact (spent kept target).tried
            · rw [Function.update_of_ne here]
              exact spent kept s
          · -- The slot is bootable without having been successful, so it has a try left.
            have unmarked := (spent kept target).2 (fails target)
            have left := bootable.2.resolve_left (fun no => no unmarked)
            rw [Function.update_self, SlotData.tried, if_pos ⟨unmarked, left⟩]
            exact (Nat.sub_lt left Nat.one_pos).trans_le (spent kept target).1
        · exact ⟨mono, fun _ _ => ⟨le_rfl, id⟩, fun _ ok => by cases ok⟩
      · exact finish_left mono (spent kept) (fun ok => by cases ok)
  all_goals
    refine ⟨fun n => ?_, fun read => ?_, fun read => ?_⟩
    · unfold FlowEnv.finish
      split
      · exact le_rfl
      · split <;> exact le_rfl
    all_goals simp_all

/-- One start of the board, and what the system that runs then does to the metadata. -/
structure BootRound where
  env : FlowEnv
  os : AbData → AbData

/-- What the flow leaves at each start of a series. -/
def bootSeries : List BootRound → Indexes → AbData → List FlowOut
  | [], _, _ => []
  | round :: rest, stored, ab =>
    let out := avbAbFlowFast { round.env with metadata := ab } stored
    out :: bootSeries rest out.stored (round.os out.metadata)

end UuuFastboot.Avb
