import Mathlib.Tactic

namespace Overlay

variable {α : Type}

/-- The store `f` after `len` cells from `pos` on were replaced by the
first `len` values of `src`. -/
def overlay (f : Nat → α) (pos len : Nat) (src : Nat → α) : Nat → α :=
  fun a => if pos ≤ a ∧ a < pos + len then src (a - pos) else f a

theorem overlay_of_mem {f src : Nat → α} {pos len a : Nat} (lower : pos ≤ a) (upper : a < pos + len) :
    overlay f pos len src a = src (a - pos) := if_pos ⟨lower, upper⟩

theorem overlay_of_lt {f src : Nat → α} {pos len a : Nat} (before : a < pos) :
    overlay f pos len src a = f a := if_neg (by omega)

theorem overlay_of_ge {f src : Nat → α} {pos len a : Nat} (after : pos + len ≤ a) :
    overlay f pos len src a = f a := if_neg (by omega)

@[simp] theorem overlay_zero (f src : Nat → α) (pos : Nat) : overlay f pos 0 src = f := by
  funext a
  exact if_neg (by omega)

theorem overlay_congr {f src src' : Nat → α} {pos len : Nat} (same : ∀ i < len, src i = src' i) :
    overlay f pos len src = overlay f pos len src' := by
  funext a
  unfold overlay
  split
  · exact same _ (by omega)
  · rfl

theorem overlay_append (f src next : Nat → α) (pos len more : Nat) :
    overlay (overlay f pos len src) (pos + len) more next =
      overlay f pos (len + more) (fun i => if i < len then src i else next (i - len)) := by
  funext a
  by_cases before : a < pos + len
  · rw [overlay_of_lt before]
    by_cases inside : pos ≤ a
    · rw [overlay_of_mem inside before, overlay_of_mem inside (by omega), if_pos (by omega)]
    · rw [overlay_of_lt (by omega), overlay_of_lt (by omega)]
  · by_cases inside : a < pos + len + more
    · rw [overlay_of_mem (by omega) inside, overlay_of_mem (by omega) (by omega), if_neg (by omega)]
      congr 1
      omega
    · rw [overlay_of_ge (by omega), overlay_of_ge (by omega), overlay_of_ge (by omega)]

end Overlay
