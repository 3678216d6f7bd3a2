import Mathlib.Tactic

namespace Word

/-- A value kept in a 32-bit unsigned variable. -/
def w32 (n : Nat) : Nat := n % 2 ^ 32

theorem zero_lt_word : 0 < 2 ^ 32 := by decide

theorem sector_lt_word : 512 < 2 ^ 32 := by decide

theorem w32_lt (n : Nat) : w32 n < 2 ^ 32 := Nat.mod_lt _ (by decide)

theorem w32_of_lt {n : Nat} (small : n < 2 ^ 32) : w32 n = n := Nat.mod_eq_of_lt small

theorem w32_le (n : Nat) : w32 n ≤ n := Nat.mod_le _ _

@[simp] theorem w32_w32 (n : Nat) : w32 (w32 n) = w32 n := Nat.mod_mod _ _

theorem w32_add_right (a b : Nat) : w32 (a + w32 b) = w32 (a + b) := by
  unfold w32
  omega

theorem w32_add_congr {a b : Nat} (same : w32 a = w32 b) (c : Nat) : w32 (a + c) = w32 (b + c) := by
  unfold w32 at *
  omega

theorem w32_add_cancel {a b c : Nat} (same : w32 (a + b) = w32 (a + c)) : w32 b = w32 c := by
  unfold w32 at *
  omega

/-- A wrapped quotient is the exact one only when nothing was cut off: the
quotient determines a multiple of the divisor, and the wrapped value is below it. -/
theorem w32_div_eq_iff {n d : Nat} (dvd : d ∣ n) :
    w32 n / d = n / d ↔ n < 2 ^ 32 := by
  constructor
  · intro equal
    by_contra large
    have split := Nat.div_add_mod n (2 ^ 32)
    have quot : 1 ≤ n / 2 ^ 32 := Nat.one_le_div_iff (by decide) |>.mpr (by omega)
    have cut : w32 n + 2 ^ 32 ≤ n := by unfold w32; omega
    have exact : d * (n / d) = n := Nat.mul_div_cancel' dvd
    have below : d * (w32 n / d) ≤ w32 n := Nat.mul_div_le _ _
    rw [equal, exact] at below
    omega
  · intro fits
    rw [w32_of_lt fits]

theorem testBit_sub_two_pow {x b : Nat} (set_ : x.testBit b = true) (k : Nat) :
    (x - 2 ^ b).testBit k = (decide (k ≠ b) && x.testBit k) := by
  have odd : x / 2 ^ b % 2 = 1 := by simpa [Nat.testBit_eq_decide_div_mod_eq] using set_
  have below := Nat.mod_lt x (Nat.two_pow_pos b)
  have whole := Nat.div_add_mod x (2 ^ b)
  obtain ⟨h, half⟩ : ∃ h, x / 2 ^ b = 2 * h + 1 := ⟨x / 2 ^ b / 2, by omega⟩
  have less : x - 2 ^ b = 2 ^ b * (2 * h) + x % 2 ^ b := by
    rw [half, Nat.mul_add, Nat.mul_one] at whole
    omega
  rw [less]
  conv_rhs => rw [← whole, half]
  rw [Nat.testBit_two_pow_mul_add _ below, Nat.testBit_two_pow_mul_add _ below]
  split
  · next low => simp [Nat.ne_of_lt low]
  · next high =>
    rcases Nat.eq_or_lt_of_le (Nat.le_of_not_lt high) with here | above
    · simp [← here]
    · obtain ⟨j, further⟩ : ∃ j, k - b = j + 1 := ⟨k - b - 1, by omega⟩
      rw [further, Nat.testBit_succ, Nat.testBit_succ, decide_eq_true (by omega), Bool.true_and]
      congr 1
      omega

theorem toNat_and_not (x m : BitVec 32) : (x &&& ~~~m).toNat = x.toNat - (x.toNat &&& m.toNat) := by
  have disjoint : (x &&& ~~~m) &&& (x &&& m) = 0#32 := by
    ext i
    simp only [BitVec.getElem_and, BitVec.getElem_not, BitVec.getElem_zero]
    cases x[i] <;> cases m[i] <;> rfl
  have whole : (x &&& ~~~m) ||| (x &&& m) = x := by
    ext i
    simp only [BitVec.getElem_or, BitVec.getElem_and, BitVec.getElem_not]
    cases x[i] <;> cases m[i] <;> rfl
  have sum := BitVec.toNat_add_of_and_eq_zero disjoint
  rw [BitVec.add_eq_or_of_and_eq_zero _ _ disjoint, whole, BitVec.toNat_and x m] at sum
  omega

end Word
