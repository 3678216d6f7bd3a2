import Mathlib.Data.List.Induction
import Mathlib.Tactic.Common

/-! A redo log: transactions that hold copies of the values of keys, and keys of which earlier copies
are not to be used any more. -/

namespace RedoLog

variable {κ δ : Type} [DecidableEq κ]

structure Transaction (κ δ : Type) where
  copies : List (κ × δ)
  revoked : List κ

def Revokes (ts : List (Transaction κ δ)) (k : κ) : Prop := ∃ t ∈ ts, k ∈ t.revoked

instance (ts : List (Transaction κ δ)) (k : κ) : Decidable (Revokes ts k) :=
  inferInstanceAs (Decidable (∃ t ∈ ts, k ∈ t.revoked))

/-- The copies that the same and all later transactions leave valid, in their order. -/
def valid : List (Transaction κ δ) → List (κ × δ)
  | [] => []
  | t :: later => t.copies.filter (fun c => ¬ Revokes (t :: later) c.1) ++ valid later

def lastOf (ws : List (κ × δ)) (k : κ) : Option δ := ((ws.filter (fun w => w.1 = k)).getLast?).map Prod.snd

theorem lastOf_concat (ws : List (κ × δ)) (w : κ × δ) (k : κ) :
    lastOf (ws ++ [w]) k = if w.1 = k then some w.2 else lastOf ws k := by
  unfold lastOf
  rw [List.filter_append]
  split
  · next same =>
    rw [List.filter_cons_of_pos (by simpa using same), List.filter_nil, List.getLast?_append]
    simp
  · next other =>
    rw [List.filter_cons_of_neg (by simpa using other), List.filter_nil, List.append_nil]

theorem lastOf_map {ε : Type} (h : δ → ε) (ws : List (κ × δ)) (k : κ) :
    lastOf (ws.map (Prod.map id h)) k = (lastOf ws k).map h := by
  induction ws using List.reverseRecOn with
  | nil => rfl
  | append_singleton ws w ih =>
    rw [List.map_append, List.map_cons, List.map_nil, lastOf_concat, lastOf_concat, ih, Prod.map_fst, id]
    split <;> rfl

end RedoLog
