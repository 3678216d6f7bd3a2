import Mathlib.Tactic.Common
import Mathlib.Data.List.Basic

/-! Singly linked lists in a heap that maps the address of a node to its contents. -/

namespace Linked

variable {α ν : Type} {next : ν → Option α}

/-- The nodes met from an address on, up to the first null link. -/
inductive Chain (next : ν → Option α) (heap : α → Option ν) : Option α → List α → Prop
  | nil : Chain next heap none []
  | cons {a n q} : heap a = some n → Chain next heap (next n) q → Chain next heap (some a) (a :: q)

variable {heap : α → Option ν} {q : List α} {p : Option α} {a : α}

theorem Chain.eq_nil (chain : Chain next heap none q) : q = [] := by
  cases chain
  rfl

theorem Chain.head? (chain : Chain next heap p q) : p = q.head? := by
  cases chain <;> rfl

theorem Chain.uncons (chain : Chain next heap p (a :: q)) :
    ∃ n, p = some a ∧ heap a = some n ∧ Chain next heap (next n) q := by
  cases chain with
  | cons here rest => exact ⟨_, rfl, here, rest⟩

theorem Chain.live (chain : Chain next heap p q)
    (member : a ∈ q) : ∃ n, heap a = some n := by
  induction chain with
  | nil => cases member
  | cons here _ ih =>
    rcases List.mem_cons.mp member with rfl | later
    · exact ⟨_, here⟩
    · exact ih later

theorem Chain.congr {heap' : α → Option ν} (chain : Chain next heap p q)
    (same : ∀ a ∈ q, heap' a = heap a) : Chain next heap' p q := by
  induction chain with
  | nil => exact .nil
  | cons here _ ih =>
    exact .cons ((same _ List.mem_cons_self).trans here) (ih fun a member => same a (List.mem_cons_of_mem _ member))

theorem Chain.snoc {heap' : α → Option ν} {r : α} {last new : ν}
    (chain : Chain next heap p (q ++ [r])) (same : ∀ x ∈ q, heap' x = heap x) (hung : heap' r = some last)
    (link : next last = some a) (there : heap' a = some new) (ends : next new = none) :
    Chain next heap' p (q ++ [r] ++ [a]) := by
  induction q generalizing p with
  | nil =>
    cases chain with
    | cons _ _ =>
      refine .cons hung ?_
      rw [link]
      refine .cons there ?_
      rw [ends]
      exact .nil
  | cons x q ih =>
    cases chain with
    | cons here rest =>
      exact .cons ((same x List.mem_cons_self).trans here) (ih rest fun y member => same y (List.mem_cons_of_mem _ member))

end Linked
