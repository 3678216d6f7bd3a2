import UuuFastboot.Fat.Chain
import UuuFastboot.Fat.TableRun

namespace UuuFastboot.Fat

open Word Overlay Bytes Partial

/-- `find_empty_cluster`: the search of `determine_fatent`, from the entry 3 on. -/
def findEmptyCluster (env : Env) : Run Nat := determineLoop env (env.fatsize.reserved + 1) 3

/-- `check_overflow`; false for -1 -/
def checkOverflow (env : Env) (clustnum size : Nat) : Bool :=
  let sectNum := w32 (if size % env.sectSize = 0 then size / env.sectSize else size / env.sectSize + 1)
  w32 (startsect env clustnum + sectNum) ≤ w32 (env.partStart + env.totalSector)

/-- The first cluster that `do_fat_write` takes for a file; none for an error. -/
def startCluster (env : Env) (size : Nat) : Run (Option Nat) := do
  let cluster ← findEmptyCluster env
  if cluster < 2 ^ 31 ∧ checkOverflow env cluster size then pure (some cluster) else pure none

/-- The mark that `flush_dir_table` gives to a new cluster. -/
def FatSize.dirMark : FatSize → Nat
  | fat12 => 0xff8
  | fat16 => 0xfff8
  | fat32 => 0xffffff8

/-- What `flush_dir_table` does for a new cluster of a directory, and whether the table is written. -/
def extendDirectory (env : Env) (dirCurclust : Nat) : Run (Nat × Bool) := do
  let dirNewclust ← findEmptyCluster env
  let _ ← setFatentValue env dirCurclust dirNewclust
  let _ ← setFatentValue env dirNewclust env.fatsize.dirMark
  let flushed ← flushDirtyFatBuffer env
  pure (dirNewclust, flushed)

def St.FreeLeft (env : Env) (last : Nat) (st : St) : Prop := ∃ c, 2 ≤ c ∧ c ≤ last ∧ env.value st c = 0

/-- The entries that differ are those of clusters, and they name clusters or are marks. -/
def St.LinksInside (env : Env) (last : Nat) (st st' : St) : Prop :=
  ∀ e, env.Exists e → env.value st' e ≠ env.value st e →
    2 ≤ e ∧ e ≤ last ∧ (2 ≤ env.value st' e ∧ env.value st' e ≤ last ∨ env.value st' e = env.fatsize.dirMark)

/-- A run finds the cluster that is taken from its result: it is free and in the volume, and nothing else is linked; or
there is an error as no cluster is left. -/
def St.FindsCluster {α : Type} (env : Env) (last : Nat) (st : St) (search : Run α) (cluster : α → Option Nat) : Prop :=
  ∃ result st', search st = some (result, st') ∧ st.LinksInside env last st' ∧
    match cluster result with
    | none => ¬ st.FreeLeft env last
    | some c => 2 ≤ c ∧ c ≤ last ∧ env.value st c = 0

theorem freeAfter_eq_cons {T : Nat → Nat} {last c e : Nat} (behind : c < e) (inside : e ≤ last) (free : T e = 0) :
    ∃ f fs, freeAfter T last c = f :: fs := by
  refine List.exists_cons_of_ne_nil (List.ne_nil_of_mem (a := e) (List.mem_filter.mpr ⟨?_, decide_eq_true free⟩))
  rw [List.mem_range'_1]
  omega

theorem FatSize.reserved_lt (fatsize : FatSize) : fatsize.reserved < 2 ^ 31 := by cases fatsize <;> decide

theorem determineLoop_ge {env : Env} {fuel next r : Nat} {st st' : St} (bound : next ≤ env.fatsize.reserved)
    (run : determineLoop env fuel next st = some (r, st')) : next ≤ r ∧ r ≤ env.fatsize.reserved := by
  induction fuel generalizing next st with
  | zero => cases run
  | succ fuel ih =>
    obtain ⟨v, st₁, call, rest⟩ := bind_eq_some.mp run
    rw [run_ite] at rest
    split at rest
    · cases rest
      exact ⟨le_refl _, bound⟩
    · next used =>
      have below : next < env.fatsize.reserved := by
        refine lt_of_le_of_ne bound (fun same => used ?_)
        have refused : checkClust next env.fatsize = true := decide_eq_true (.inr (le_of_eq same.symm))
        rw [getFatent, run_ite, if_pos refused] at call
        cases call
        rfl
      have small := env.fatsize.reserved_lt
      rw [w32_of_lt (by omega)] at rest
      exact (ih below rest).imp_left (fun behind => by omega)

section Area

variable {env : Env} {last : Nat} (area : env.Area last)
include area

theorem findEmptyCluster_run {f : Nat} {fs : List Nat} {st : St} (ready : st.Ready env)
    (free : freeAfter (env.value st) last 2 = f :: fs) :
    ∃ st', findEmptyCluster env st = some (f, st') ∧ st.Keeps env st' := by
  obtain ⟨order, inside, zero, used, -⟩ := freeAfter_cons free
  have valid := area.valid
  exact determineLoop_run area.toFits _ ready (show 2 ≤ 3 by decide) order (area.exists_ inside) (by omega) zero used
    (by omega)

theorem extendDirectory_run {c f : Nat} {fs : List Nat} {st : St} (ready : st.Ready env) (inside : c ≤ last)
    (free : freeAfter (env.value st) last 2 = f :: fs) :
    ∃ st', extendDirectory env c st = some ((f, true), st') ∧ st'.Ready env ∧ st'.fatDirty = false ∧
      (∀ e, env.Exists e →
        env.value st' e = if e = f then env.fatsize.dirMark else if e = c then f else env.value st e) ∧
      ∀ a, env.Outside a → st'.card a = st.card a := by
  obtain ⟨order, below, -⟩ := freeAfter_cons free
  obtain ⟨st₁, search, keeps₁⟩ := findEmptyCluster_run area ready free
  obtain ⟨st₂, link, sets₂⟩ := setFatentValue_run area.toFits keeps₁.ready (area.exists_ inside) f
  obtain ⟨st₃, mark, sets₃⟩ := setFatentValue_run area.toFits sets₂.ready (area.exists_ below) env.fatsize.dirMark
  obtain ⟨st₄, flush, keeps₄, clean, -⟩ := flushDirtyFatBuffer_run area.toFits sets₃.ready
  refine ⟨st₄, ?_, keeps₄.ready, clean, fun e there => ?_, fun a away => ?_⟩
  · rw [extendDirectory, bind_of_run search, bind_of_run link, bind_of_run mark, run_bind, flush]
    rfl
  · have valid := area.valid
    have small : f % 2 ^ env.fatsize.bits = f := by
      refine Nat.mod_eq_of_lt (lt_trans (lt_of_le_of_lt below valid) ?_)
      cases env.fatsize <;> decide
    have marked : env.fatsize.dirMark % 2 ^ env.fatsize.bits = env.fatsize.dirMark := by cases env.fatsize <;> rfl
    rw [keeps₄.value there, sets₃.value there, sets₂.value there, keeps₁.value there, small, marked]
  · rw [keeps₄.outside a away, sets₃.outside a away, sets₂.outside a away, keeps₁.outside a away]

section Sites

variable {st : St} (ready : st.Ready env)
include ready

theorem determineFatent_finds_iff {c : Nat} (two : 2 ≤ c) (inside : c ≤ last) :
    st.FindsCluster env last (determineFatent env c) some ↔ ∃ e, c < e ∧ e ≤ last ∧ env.value st e = 0 := by
  have valid := area.valid
  have small := env.fatsize.reserved_lt
  constructor
  · rintro ⟨r, st', run, -, -, below, free⟩
    obtain ⟨next, st₁, search, link⟩ := bind_eq_some.mp run
    obtain ⟨-, st₂, -, rest⟩ := bind_eq_some.mp link
    cases rest
    rw [w32_of_lt (by omega)] at search
    exact ⟨r, (determineLoop_ge (by omega) search).1, below, free⟩
  · rintro ⟨e, behind, below, zero⟩
    obtain ⟨f, fs, free⟩ := freeAfter_eq_cons behind below zero
    obtain ⟨order, upper, zero', -⟩ := freeAfter_cons free
    obtain ⟨st', run, -, values, -⟩ := determineFatent_run area ready two free
    refine ⟨f, st', run, fun e there other => ?_, show 2 ≤ f by omega, upper, zero'⟩
    have here : e = c := by
      by_contra away
      exact other (by rw [values e there, if_neg away])
    rw [values e there, if_pos here]
    exact ⟨by omega, by omega, .inl ⟨by omega, upper⟩⟩

theorem extendDirectory_finds_iff {c : Nat} (two : 2 ≤ c) (inside : c ≤ last) :
    st.FindsCluster env last (extendDirectory env c) (fun result => some result.1) ↔
      ∃ e, 3 ≤ e ∧ e ≤ last ∧ env.value st e = 0 := by
  have small := env.fatsize.reserved_lt
  constructor
  · rintro ⟨r, st', run, -, -, below, free⟩
    obtain ⟨next, st₁, search, link⟩ := bind_eq_some.mp run
    obtain ⟨-, st₂, -, mark⟩ := bind_eq_some.mp link
    obtain ⟨-, st₃, -, flush⟩ := bind_eq_some.mp mark
    obtain ⟨flushed, st₄, -, rest⟩ := bind_eq_some.mp flush
    cases rest
    exact ⟨next, (determineLoop_ge (by cases env.fatsize <;> decide) search).1, below, free⟩
  · rintro ⟨e, behind, below, zero⟩
    obtain ⟨f, fs, free⟩ := freeAfter_eq_cons (show 2 < e from behind) below zero
    obtain ⟨order, upper, zero', -⟩ := freeAfter_cons free
    obtain ⟨st', run, -, -, values, -⟩ := extendDirectory_run area ready inside free
    refine ⟨(f, true), st', run, fun e there other => ?_, show 2 ≤ f by omega, upper, zero'⟩
    rw [values e there]
    by_cases new : e = f
    · rw [if_pos new]
      exact ⟨by omega, by omega, .inr rfl⟩
    · have here : e = c := by
        by_contra away
        exact other (by rw [values e there, if_neg new, if_neg away])
      rw [if_neg new, if_pos here]
      exact ⟨by omega, by omega, .inl ⟨by omega, upper⟩⟩

omit ready in
theorem checkOverflow_cluster {c size : Nat} (two : 2 ≤ c) (inside : c ≤ last) (few : size ≤ env.clusterBytes) :
    checkOverflow env c size = true := by
  have positive := area.positive
  have ends := area.ends
  have addressed := area.addressed
  obtain ⟨k, rfl⟩ : ∃ k, c = 2 + k := ⟨c - 2, by omega⟩
  have before := Nat.mul_le_mul_right env.clustSize (show k + 1 ≤ last - 1 by omega)
  rw [Nat.succ_mul] at before
  have sectors : (if size % env.sectSize = 0 then size / env.sectSize else size / env.sectSize + 1) ≤ env.clustSize := by
    have whole := Nat.div_add_mod size env.sectSize
    unfold Env.clusterBytes at few
    rw [Nat.mul_comm] at whole
    split
    · exact Nat.le_of_mul_le_mul_right (show _ ≤ env.clustSize * env.sectSize by omega) positive
    · exact Nat.lt_of_mul_lt_mul_right (show _ < env.clustSize * env.sectSize by omega)
  rw [checkOverflow]
  simp only [decide_eq_true_eq, area.startsect_eq two inside, Nat.add_sub_cancel_left]
  generalize (if size % env.sectSize = 0 then size / env.sectSize else size / env.sectSize + 1) = sectNum at sectors ⊢
  rw [w32_of_lt (show sectNum < 2 ^ 32 by omega), w32_of_lt (by omega), w32_of_lt addressed]
  omega

/-- The search for the first cluster of a file, with the check that `do_fat_write` makes. -/
theorem startCluster_finds_iff {size : Nat} (few : size ≤ env.clusterBytes) (left : st.FreeLeft env last) :
    st.FindsCluster env last (startCluster env size) id ↔ ∃ e, 3 ≤ e ∧ e ≤ last ∧ env.value st e = 0 := by
  have valid := area.valid
  have small := env.fatsize.reserved_lt
  constructor
  · rintro ⟨result, st', run, -, found⟩
    obtain ⟨r, st₁, search, rest⟩ := bind_eq_some.mp run
    rw [run_ite] at rest
    split at rest
    · cases rest
      obtain ⟨-, below, free⟩ := found
      exact ⟨r, (determineLoop_ge (by cases env.fatsize <;> decide) search).1, below, free⟩
    · cases rest
      exact absurd left found
  · rintro ⟨e, behind, below, zero⟩
    obtain ⟨f, fs, free⟩ := freeAfter_eq_cons (show 2 < e from behind) below zero
    obtain ⟨order, upper, zero', -⟩ := freeAfter_cons free
    obtain ⟨st', run, keeps⟩ := findEmptyCluster_run area ready free
    refine ⟨some f, st', ?_, fun e there other => absurd (keeps.value there) other, show 2 ≤ f by omega, upper, zero'⟩
    rw [startCluster, bind_of_run run, run_ite,
      if_pos ⟨by omega, checkOverflow_cluster area (by omega) upper few⟩]
    rfl

/-- On a full volume the entry behind those of the clusters is taken for one of them; an error depends on the check. -/
theorem startCluster_full_iff (size : Nat) (full : ¬ st.FreeLeft env last) (two : 2 ≤ last) (there : env.Exists (last + 1))
    (valid : last + 1 < env.fatsize.reserved) (spare : env.value st (last + 1) = 0) :
    st.FindsCluster env last (startCluster env size) id ↔ checkOverflow env (last + 1) size = false := by
  have small := env.fatsize.reserved_lt
  obtain ⟨st₁, search, keeps⟩ := determineLoop_run area.toFits (env.fatsize.reserved + 1) ready (show 2 ≤ 3 by decide)
    (show 3 ≤ last + 1 by omega) there valid spare
    (fun e lower upper zero => full ⟨e, by omega, by omega, zero⟩) (by omega)
  have run : startCluster env size st =
      some (if checkOverflow env (last + 1) size then some (last + 1) else none, st₁) := by
    rw [startCluster, run_bind, findEmptyCluster, search, Option.bind_some, run_ite]
    by_cases room : checkOverflow env (last + 1) size = true
    · rw [if_pos ⟨by omega, room⟩, if_pos room]
      rfl
    · rw [if_neg (fun both => room both.2), if_neg room]
      rfl
  constructor
  · rintro ⟨result, st', run', -, found⟩
    rw [run] at run'
    cases run'
    by_contra room
    rw [Bool.not_eq_false] at room
    rw [if_pos room] at found
    exact absurd found.2.1 (Nat.not_succ_le_self last)
  · intro refused
    rw [refused, if_neg Bool.false_ne_true] at run
    exact ⟨none, st₁, run, fun e there other => absurd (keeps.value there) other, full⟩

end Sites

end Area

def fullVolume : Env := { smallVolume with totalSector := 24 }

theorem fullVolume_area : fullVolume.Area 21 := ⟨⟨by constructor <;> decide, rfl⟩, by decide, by decide, by decide,
  by decide, by decide, ⟨by decide, by decide⟩, by decide⟩

def fullBut (free : Nat) : St :=
  let table := putEntry (fun i => if i < 33 then 0xff else 0) free 0 .fat12
  ⟨overlay (overlay zeros (9 * 512) 512 table) (10 * 512) 512 table, zeros, false, none⟩

theorem fullBut_ready (free : Nat) : (fullBut free).Ready fullVolume := St.Fresh.ready ⟨rfl, rfl⟩

end UuuFastboot.Fat
