import Mathlib.Tactic.Common

/-! Programs over a state that may have no result: how they run. -/

namespace Partial

variable {σ α β : Type} {x : StateT σ Option α} {f : α → StateT σ Option β} {s : σ}

@[simp] theorem run_bind : (x >>= f) s = (x s).bind (fun r => f r.1 r.2) := rfl

theorem bind_eq_some {r : β × σ} : (x >>= f) s = some r ↔ ∃ a s', x s = some (a, s') ∧ f a s' = some r := by
  rw [run_bind, Option.bind_eq_some_iff]
  exact Prod.exists

@[simp] theorem run_pure (a : α) : (pure a : StateT σ Option α) s = some (a, s) := rfl

@[simp] theorem run_get : (get : StateT σ Option σ) s = some (s, s) := rfl

@[simp] theorem run_set (t : σ) : (set t : StateT σ Option PUnit) s = some (⟨⟩, t) := rfl

@[simp] theorem run_modify (g : σ → σ) : (modify g : StateT σ Option PUnit) s = some (⟨⟩, g s) := rfl

theorem bind_of_run {a : α} {s' : σ} (first : x s = some (a, s')) : (x >>= f) s = f a s' := by
  rw [run_bind, first]
  rfl

theorem get_bind {k : σ → StateT σ Option β} : (get >>= k) s = k s s := rfl

theorem modify_bind {g : σ → σ} {k : PUnit → StateT σ Option β} : (modify g >>= k) s = k ⟨⟩ (g s) := rfl

@[simp] theorem run_ite {c : Prop} [Decidable c] (y z : StateT σ Option α) :
    (if c then y else z) s = if c then y s else z s := by
  split <;> rfl

end Partial
