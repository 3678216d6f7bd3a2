import Mathlib.Data.Set.Finite.Lemmas
import Mathlib.Order.Filter.AtTopBot.Basic
import Mathlib.Order.Filter.Finite
import Mathlib.Logic.Relation

/-! The orbit of a partial function. -/

namespace Orbit

open Relation

variable {α : Type*} {f : α → Option α} {s t : α}

def orbit (f : α → Option α) : Nat → α → Option α
  | 0, s => some s
  | n + 1, s => (f s).bind (orbit f n)

def Leads (f : α → Option α) (s t : α) : Prop := f s = some t

theorem orbit_add (m n : Nat) (s : α) : orbit f (m + n) s = (orbit f m s).bind (orbit f n) := by
  induction m generalizing s with
  | zero => rw [Nat.zero_add]; rfl
  | succ m ih =>
    rw [Nat.succ_add, orbit, orbit]
    cases step : f s with
    | none => rfl
    | some t => exact ih t

theorem orbit_one (s : α) : orbit f 1 s = f s := by
  cases step : f s <;> simp [orbit, step]

theorem orbit_of_cycle (cycle : TransGen (Leads f) s s) (n : Nat) : orbit f n s ≠ none := by
  induction n generalizing s with
  | zero => exact Option.some_ne_none s
  | succ n ih =>
    obtain ⟨t, step, back⟩ := TransGen.head'_iff.mp cycle
    rw [orbit, step]
    exact ih (TransGen.tail' back step)

/-! Relations in place of functions: there are several ways to go on. -/

variable {R : α → α → Prop}

theorem not_cycle_of_acc (ends : Acc (Function.swap R) s) : ¬ TransGen R s s := by
  induction ends with
  | intro s _ ih =>
    intro cycle
    obtain ⟨t, step, back⟩ := TransGen.head'_iff.mp cycle
    exact ih t step (TransGen.tail' back step)

/-- Where only finitely many points can be reached, every path ends exactly if none comes to a cycle. -/
theorem acc_iff (finite : {t | ReflTransGen R s t}.Finite) :
    Acc (Function.swap R) s ↔ ∀ t, ReflTransGen R s t → ¬ TransGen R t t := by
  constructor
  · intro ends t reaches
    refine not_cycle_of_acc ?_
    induction reaches with
    | refl => exact ends
    | tail _ step ih => exact ih.inv step
  · intro acyclic
    have : Finite {t // ReflTransGen R s t} := finite.to_subtype
    let Behind (a b : {t // ReflTransGen R s t}) : Prop := TransGen R b.1 a.1
    have : IsTrans _ Behind := ⟨fun _ _ _ ab bc => bc.trans ab⟩
    have : Std.Irrefl Behind := ⟨fun a => acyclic a.1 a.2⟩
    have wellFounded : WellFounded Behind := Finite.wellFounded_of_trans_of_irrefl Behind
    have all (a : {t // ReflTransGen R s t}) : Acc (Function.swap R) a.1 := by
      induction a using wellFounded.induction with
      | _ a ih => exact .intro _ (fun u step => ih ⟨u, a.2.tail step⟩ (.single step))
    exact all ⟨s, .refl⟩

theorem finite_reaches {S : Set α} (finite : S.Finite) (closed : ∀ s t, R s t → t ∈ S) (s : α) :
    {t | ReflTransGen R s t}.Finite := by
  refine (finite.insert s).subset (fun t reaches => ?_)
  rcases ReflTransGen.cases_tail reaches with rfl | ⟨u, -, step⟩
  · exact Set.mem_insert _ _
  · exact Set.mem_insert_of_mem _ (closed u t step)

def Within (R : α → α → Prop) : Nat → α → Prop
  | 0, _ => False
  | depth + 1, s => ∀ t, R s t → Within R depth t

theorem Within.mono {depth more : Nat} (within : Within R depth s) (le : depth ≤ more) : Within R more s := by
  induction depth generalizing s more with
  | zero => exact within.elim
  | succ depth ih =>
    obtain ⟨more, rfl⟩ : ∃ m, more = m + 1 := ⟨more - 1, by omega⟩
    exact fun t step => ih (within t step) (by omega)

theorem Within.acc {depth : Nat} (within : Within R depth s) : Acc (Function.swap R) s := by
  induction depth generalizing s with
  | zero => exact within.elim
  | succ depth ih => exact .intro s (fun t step => ih (within t step))

theorem within_iff_acc (finite : ∀ s, {t | R s t}.Finite) : (∃ depth, Within R depth s) ↔ Acc (Function.swap R) s := by
  constructor
  · rintro ⟨depth, within⟩
    exact within.acc
  · intro ends
    induction ends with
    | intro s _ ih =>
      have later : ∀ t ∈ {t | R s t}, ∀ᶠ depth in Filter.atTop, Within R depth t := by
        intro t step
        obtain ⟨depth, within⟩ := ih t step
        exact Filter.eventually_atTop.mpr ⟨depth, fun more le => within.mono le⟩
      obtain ⟨depth, all⟩ := ((Filter.eventually_all_finite (finite s)).mpr later).exists
      exact ⟨depth + 1, all⟩

/-! The orbit is the only path. -/

theorem ends_iff_acc : (∃ n, orbit f n s = none) ↔ Acc (Function.swap (Leads f)) s := by
  constructor
  · rintro ⟨n, ends⟩
    induction n generalizing s with
    | zero => cases ends
    | succ n ih =>
      refine .intro s (fun t step => ih ?_)
      rw [orbit, show f s = some t from step] at ends
      exact ends
  · intro ends
    induction ends with
    | intro s _ ih =>
      cases step : f s with
      | none => exact ⟨1, by rw [orbit, step]; rfl⟩
      | some t =>
        obtain ⟨n, rest⟩ := ih t step
        exact ⟨n + 1, by rw [orbit, step]; exact rest⟩

theorem ends_iff (finite : {t | ReflTransGen (Leads f) s t}.Finite) :
    (∃ n, orbit f n s = none) ↔ ∀ t, ReflTransGen (Leads f) s t → ¬ TransGen (Leads f) t t :=
  ends_iff_acc.trans (acc_iff finite)

end Orbit
