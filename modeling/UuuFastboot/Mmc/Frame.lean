import UuuFastboot.Mmc.Card

namespace UuuFastboot

/-- A byte of the storage, named by device, hardware partition and address. -/
abbrev CellAddr := Nat × Nat × Nat

def Storage.cell (st : Storage) (x : CellAddr) : Option Cell := (st.card x.1).map (fun c => c.contents x.2.1 x.2.2)

def Card.data (c : Card) : (Nat → Nat) × Bool × (Nat → Nat → Cell) := (c.lba, c.emmc, c.contents)

def Storage.SameData (st st' : Storage) : Prop :=
  ∀ dev, (st'.card dev).map Card.data = (st.card dev).map Card.data

variable {st st' : Storage} {dev : Nat} {c' c : Card} {o : SelectOutcome} {area : Set (Nat × Nat)}

theorem Storage.SameData.refl (st : Storage) : st.SameData st := fun _ => rfl

theorem Storage.SameData.trans {st'' : Storage} (first : st.SameData st') (second : st'.SameData st'') :
    st.SameData st'' := fun dev => (second dev).trans (first dev)

theorem Storage.SameData.cell (same : st.SameData st') : st'.cell = st.cell := by
  funext x
  have data := congrArg (Option.map (fun d : (Nat → Nat) × Bool × (Nat → Nat → Cell) => d.2.2 x.2.1 x.2.2)) (same x.1)
  simp only [Option.map_map, Function.comp_def, Card.data] at data
  exact data

theorem Storage.SameData.card (same : st.SameData st')
    (present : st'.card dev = some c') :
    ∃ c, st.card dev = some c ∧ c'.lba = c.lba ∧ c'.emmc = c.emmc ∧ c'.contents = c.contents := by
  have data := same dev
  rw [present, Option.map_some] at data
  obtain ⟨c, before, eq⟩ := Option.map_eq_some_iff.mp data.symm
  have lba : c.lba = c'.lba := congrArg Prod.fst eq
  have emmc : c.emmc = c'.emmc := congrArg (fun d => d.2.1) eq
  have contents : c.contents = c'.contents := congrArg (fun d => d.2.2) eq
  exact ⟨c, before, lba.symm, emmc.symm, contents.symm⟩

theorem Storage.put_card_self (st : Storage) (dev : Nat) (c : Card) : (st.put dev c).card dev = some c :=
  Function.update_self ..

theorem Storage.put_card_of_ne (st : Storage) {other : Nat} (c : Card) (differ : other ≠ dev) :
    (st.put dev c).card other = st.card other := Function.update_of_ne differ ..

theorem Storage.withCard_none (op : Card → Bool × Card) (missing : st.card dev = none) :
    st.withCard dev op = (false, st) := by
  unfold withCard
  rw [missing]

theorem Storage.withCard_some (op : Card → Bool × Card)
    (present : st.card dev = some c) : st.withCard dev op = ((op c).1, st.put dev (op c).2) := by
  unfold withCard
  rw [present]

theorem Storage.withCard_sameData {op : Card → Bool × Card} (keeps : ∀ c, (op c).2.data = c.data) (st : Storage)
    (dev : Nat) : st.SameData (st.withCard dev op).2 := by
  intro other
  cases present : st.card dev with
  | none => rw [st.withCard_none op present]
  | some c =>
    rw [st.withCard_some op present]
    by_cases same : other = dev
    · rw [same, st.put_card_self, present, Option.map_some, Option.map_some, keeps c]
    · rw [st.put_card_of_ne _ same]

theorem Card.mmcInit_data (o : InitOutcome) (c : Card) : (c.mmcInit o).2.data = c.data := by
  unfold mmcInit
  split
  · rfl
  · split <;> rfl

theorem Card.selectHwpart_data (switch : Bool) (part : Nat) (c : Card) :
    (c.selectHwpart switch part).2.data = c.data := by
  unfold selectHwpart
  split
  · rfl
  · split <;> rfl

theorem Card.attach_data (o : SelectOutcome) (part : Nat) (c : Card) : (c.attach o part).2.data = c.data := by
  unfold attach
  dsimp only
  split
  · exact ((c.mmcInit o.init).2.selectHwpart_data o.switch part).trans (c.mmcInit_data o.init)
  · exact c.mmcInit_data o.init

theorem Storage.blkGetDev_sameData (o : SelectOutcome) (st : Storage) (dev : Nat) :
    st.SameData (st.blkGetDev o dev).2 := st.withCard_sameData (Card.attach_data o 0) dev

theorem Storage.mmcDev_sameData (o : SelectOutcome) (st : Storage) (target : MmcDev) :
    st.SameData (st.mmcDev o target).2 := by
  unfold mmcDev
  dsimp only
  split
  · exact SameData.refl st
  · have keeps := st.withCard_sameData (fun c => Card.attach_data o ((target.part.map reparse).getD 0)
      { c with hasInit := false }) (reparse target.dev)
    split
    · exact keeps
    · exact keeps

theorem Card.attach_ok {part : Nat} (ok : (c.attach o part).1 = true) :
    (c.attach o part).2.hasInit = true ∧ (c.attach o part).2.hwpart = part := by
  have initialised : (c.mmcInit o.init).1 = true → (c.mmcInit o.init).2.hasInit = true := by
    unfold mmcInit
    split
    · rename_i already
      exact fun _ => already
    · split
      · exact fun _ => rfl
      · exact fun impossible => by cases impossible
  unfold attach at ok ⊢
  dsimp only at ok ⊢
  split
  · rename_i init
    rw [if_pos init] at ok
    have ready := initialised init
    unfold selectHwpart at ok ⊢
    split
    · rename_i same
      exact ⟨ready, same⟩
    · rename_i differ
      rw [if_neg differ] at ok
      split
      · exact ⟨ready, rfl⟩
      · rename_i refused
        rw [if_neg refused] at ok
        cases ok
  · rename_i failed
    rw [if_neg failed] at ok
    exact absurd ok failed

theorem Storage.blkGetDev_ok
    (ok : (st.blkGetDev o dev).1 = true) (present : (st.blkGetDev o dev).2.card dev = some c) : c.hwpart = 0 := by
  unfold blkGetDev at ok present
  cases before : st.card dev with
  | none =>
    rw [st.withCard_none _ before] at ok
    cases ok
  | some c₀ =>
    rw [st.withCard_some _ before] at ok present
    rw [st.put_card_self] at present
    obtain rfl := Option.some.inj present
    exact (Card.attach_ok ok).2

theorem Card.attach_forced {part : Nat} (ready : o.init.ok = true)
    (has : part = 0 ∨ (c.emmc = true ∧ o.switch = true)) :
    (Card.attach o part { c with hasInit := false }).1 = true := by
  unfold attach mmcInit
  simp only [ready, if_true, Bool.false_eq_true, if_false]
  unfold selectHwpart
  dsimp only
  rcases has with rfl | ⟨emmc, switch⟩
  · simp
  · split
    · rfl
    · simp [emmc, switch]

theorem Storage.mmcDev_ok {target : MmcDev}
    (ok : (st.mmcDev o target).1 = true) :
    (st.mmcDev o target).2.currDevice = reparse target.dev ∧
      ∃ c, (st.mmcDev o target).2.card (reparse target.dev) = some c ∧ c.hasInit = true ∧
        c.hwpart = (target.part.map reparse).getD 0 := by
  unfold mmcDev at ok ⊢
  dsimp only at ok ⊢
  split
  · rename_i large
    rw [if_pos large] at ok
    cases ok
  · rename_i small
    rw [if_neg small] at ok
    cases present : st.card (reparse target.dev) with
    | none =>
      rw [st.withCard_none _ present] at ok
      cases ok
    | some c =>
      rw [st.withCard_some _ present] at ok ⊢
      dsimp only at ok ⊢
      split
      · rename_i attached
        exact ⟨rfl, _, Function.update_self .., Card.attach_ok attached⟩
      · rename_i failed
        rw [if_neg failed] at ok
        exact absurd ok failed

/-- The bytes of the blocks `[blk, blk + cnt)` of the hardware partition `part`. -/
def blockArea (part blk cnt : Nat) : Set (Nat × Nat) :=
  {x | x.1 = part ∧ blk ≤ x.2 / 512 ∧ x.2 / 512 < blk + cnt}

/-- Two cards of the same size and selection that differ in `area` only. -/
structure Card.ChangedWithin (area : Set (Nat × Nat)) (c c' : Card) : Prop where
  lba : c'.lba = c.lba
  hwpart : c'.hwpart = c.hwpart
  outside : ∀ x ∉ area, c'.contents x.1 x.2 = c.contents x.1 x.2

theorem Card.ChangedWithin.refl (area : Set (Nat × Nat)) (c : Card) : c.ChangedWithin area c :=
  ⟨rfl, rfl, fun _ _ => rfl⟩

theorem Card.ChangedWithin.trans {c'' : Card} (first : c.ChangedWithin area c')
    (second : c'.ChangedWithin area c'') : c.ChangedWithin area c'' :=
  ⟨second.lba.trans first.lba, second.hwpart.trans first.hwpart,
    fun x out => (second.outside x out).trans (first.outside x out)⟩

theorem Card.ChangedWithin.mono {wider : Set (Nat × Nat)} (changed : c.ChangedWithin area c')
    (sub : area ⊆ wider) : c.ChangedWithin wider c' :=
  ⟨changed.lba, changed.hwpart, fun x out => changed.outside x (fun member => out (sub member))⟩

theorem Card.store_changedWithin (c : Card) (blk cnt : Nat) (stored : Nat → Bool) (src : Nat → Cell) :
    c.ChangedWithin (blockArea c.hwpart blk cnt ∩ {x | x.2 / 512 < c.lba c.hwpart}) (c.store blk cnt stored src) := by
  refine ⟨rfl, rfl, fun x out => ?_⟩
  change Function.update c.contents c.hwpart _ x.1 x.2 = _
  by_cases selected : x.1 = c.hwpart
  · rw [selected, Function.update_self]
    refine if_neg (fun inside => out ⟨⟨selected, ?_, ?_⟩, ?_⟩)
    · omega
    · omega
    · have capacity := inside.2.2.1
      change x.2 / 512 < c.lba c.hwpart
      omega
  · rw [Function.update_of_ne selected]

theorem Card.blkDwrite_changedWithin (o : WriteOutcome) (c : Card) (blk cnt : Nat) (src : Nat → Cell) :
    c.ChangedWithin (blockArea c.hwpart blk cnt ∩ {x | x.2 / 512 < c.lba c.hwpart}) (c.blkDwrite o blk cnt src).2 := by
  unfold blkDwrite
  split
  · exact c.store_changedWithin blk cnt (fun _ => true) src
  · exact c.store_changedWithin blk cnt o.stored src

theorem Card.mmcWrite_changedWithin (o : MmcWriteOutcome) (ready : c.hasInit = true) (blk cnt : Nat)
    (src : Nat → Cell) : c.ChangedWithin (blockArea c.hwpart blk cnt) (c.mmcWrite o blk cnt src).2 := by
  have init : c.mmcInit o.init = (true, c) := if_pos ready
  unfold mmcWrite
  rw [init]
  dsimp only
  split
  · exact (c.blkDwrite_changedWithin o.write blk cnt src).mono Set.inter_subset_left
  · exact .refl _ c

/-- Cards of the same sizes that differ in `area` only. -/
structure Storage.ChangedWithin (area : Set CellAddr) (st st' : Storage) : Prop where
  size : ∀ dev, (st'.card dev).map Card.lba = (st.card dev).map Card.lba
  outside : Set.EqOn st'.cell st.cell areaᶜ

theorem Storage.ChangedWithin.trans {area : Set CellAddr} {st'' : Storage} (first : st.ChangedWithin area st')
    (second : st'.ChangedWithin area st'') : st.ChangedWithin area st'' :=
  ⟨fun dev => (second.size dev).trans (first.size dev), second.outside.trans first.outside⟩

theorem Storage.ChangedWithin.mono {area wider : Set CellAddr} (changed : st.ChangedWithin area st')
    (sub : area ⊆ wider) : st.ChangedWithin wider st' :=
  ⟨changed.size, changed.outside.mono (Set.compl_subset_compl.mpr sub)⟩

theorem Storage.SameData.changedWithin (same : st.SameData st') (area : Set CellAddr) :
    st.ChangedWithin area st' := by
  refine ⟨fun dev => ?_, fun x _ => congrFun same.cell x⟩
  have data := congrArg (Option.map Prod.fst) (same dev)
  simp only [Option.map_map, Function.comp_def, Card.data] at data
  exact data

theorem Storage.put_changedWithin
    (present : st.card dev = some c) (changed : c.ChangedWithin area c') :
    st.ChangedWithin {x | x.1 = dev ∧ x.2 ∈ area} (st.put dev c') := by
  refine ⟨fun other => ?_, fun x out => ?_⟩
  · by_cases same : other = dev
    · rw [same, st.put_card_self, present, Option.map_some, Option.map_some, changed.lba]
    · rw [st.put_card_of_ne _ same]
  · unfold Storage.cell
    by_cases same : x.1 = dev
    · rw [same, st.put_card_self, present, Option.map_some, Option.map_some,
        changed.outside x.2 (fun member => out ⟨same, member⟩)]
    · rw [st.put_card_of_ne _ same]

end UuuFastboot
