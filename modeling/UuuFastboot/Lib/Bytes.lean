import UuuFastboot.Lib.Overlay

namespace Bytes

open Overlay

/-- A block of memory from a pointer on. -/
abbrev Buf := Nat → UInt8

/-- Memory as `memset(p, 0, n)` leaves it. -/
def zeros : Buf := fun _ => 0

def tail (b : Buf) (off : Nat) : Buf := fun i => b (off + i)

variable {b c : Buf} {o p v a : Nat}

@[simp] theorem tail_apply (b : Buf) (off i : Nat) : tail b off i = b (off + i) := rfl

theorem tail_tail (b : Buf) (m n : Nat) : tail (tail b m) n = tail b (m + n) := by
  funext i
  simp only [tail_apply, Nat.add_assoc]

/-- `len` bytes of memory, and zeros behind them. -/
def clip (len : Nat) (b : Buf) : Buf := fun i => if i < len then b i else 0

theorem clip_of_lt {len i : Nat} (below : i < len) : clip len b i = b i := if_pos below

def getLe16 (b : Buf) (o : Nat) : Nat := (b o).toNat + 2 ^ 8 * (b (o + 1)).toNat

def getLe32 (b : Buf) (o : Nat) : Nat := getLe16 b o + 2 ^ 16 * getLe16 b (o + 2)

def getLe64 (b : Buf) (o : Nat) : Nat := getLe32 b o + 2 ^ 32 * getLe32 b (o + 4)

def getBe32 (b : Buf) (o : Nat) : Nat :=
  2 ^ 24 * (b o).toNat + 2 ^ 16 * (b (o + 1)).toNat + 2 ^ 8 * (b (o + 2)).toNat + (b (o + 3)).toNat

def leByte (v i : Nat) : UInt8 := UInt8.ofNat (v / 256 ^ i)

def putLe16 (b : Buf) (o v : Nat) : Buf := overlay b o 2 (leByte v)

def putLe32 (b : Buf) (o v : Nat) : Buf := overlay b o 4 (leByte v)

def putLe64 (b : Buf) (o v : Nat) : Buf := overlay b o 8 (leByte v)

def putBe32 (b : Buf) (o v : Nat) : Buf := overlay b o 4 (fun i => leByte v (3 - i))

theorem getLe16_lt (b : Buf) (o : Nat) : getLe16 b o < 2 ^ 16 := by
  have low := (b o).toNat_lt
  have high := (b (o + 1)).toNat_lt
  unfold getLe16
  omega

theorem getLe32_lt (b : Buf) (o : Nat) : getLe32 b o < 2 ^ 32 := by
  have low := getLe16_lt b o
  have high := getLe16_lt b (o + 2)
  unfold getLe32
  omega

theorem getLe16_congr (same : ∀ i < 2, b (o + i) = c (p + i)) :
    getLe16 b o = getLe16 c p := by
  have first := same 0 (by omega)
  have second := same 1 (by omega)
  simp only [Nat.add_zero] at first
  unfold getLe16
  rw [first, second]

theorem getLe32_congr (same : ∀ i < 4, b (o + i) = c (p + i)) :
    getLe32 b o = getLe32 c p := by
  have low : getLe16 b o = getLe16 c p := getLe16_congr (fun i below => same i (by omega))
  have high : getLe16 b (o + 2) = getLe16 c (p + 2) := getLe16_congr (fun i below => by
    have byte := same (2 + i) (by omega)
    rwa [← Nat.add_assoc, ← Nat.add_assoc] at byte)
  unfold getLe32
  rw [low, high]

theorem getLe64_congr (same : ∀ i < 8, b (o + i) = c (p + i)) :
    getLe64 b o = getLe64 c p := by
  have low : getLe32 b o = getLe32 c p := getLe32_congr (fun i below => same i (by omega))
  have high : getLe32 b (o + 4) = getLe32 c (p + 4) := getLe32_congr (fun i below => by
    have byte := same (4 + i) (by omega)
    rwa [← Nat.add_assoc, ← Nat.add_assoc] at byte)
  unfold getLe64
  rw [low, high]

@[simp] theorem getLe32_zeros (o : Nat) : getLe32 zeros o = 0 := rfl

theorem getLe16_leByte (v : Nat) : getLe16 (leByte v) 0 = v % 2 ^ 16 := by
  simp only [getLe16, leByte, UInt8.toNat_ofNat']
  omega

theorem getLe32_leByte (v : Nat) : getLe32 (leByte v) 0 = v % 2 ^ 32 := by
  simp only [getLe32, getLe16, leByte, UInt8.toNat_ofNat']
  omega

theorem getLe64_leByte (v : Nat) : getLe64 (leByte v) 0 = v % 2 ^ 64 := by
  simp only [getLe64, getLe32, getLe16, leByte, UInt8.toNat_ofNat']
  omega

theorem getLe16_putLe16 (b : Buf) (o v : Nat) : getLe16 (putLe16 b o v) o = v % 2 ^ 16 := by
  rw [← getLe16_leByte]
  refine getLe16_congr (fun i below => ?_)
  rw [putLe16, overlay_of_mem (by omega) (by omega)]
  congr 1
  omega

theorem getLe32_putLe32 (b : Buf) (o v : Nat) : getLe32 (putLe32 b o v) o = v % 2 ^ 32 := by
  rw [← getLe32_leByte]
  refine getLe32_congr (fun i below => ?_)
  rw [putLe32, overlay_of_mem (by omega) (by omega)]
  congr 1
  omega

theorem getLe32_of_bytes (small : v < 2 ^ 32) (bytes : ∀ i < 4, b (o + i) = leByte v i) :
    getLe32 b o = v := by
  have value := getLe32_leByte v
  rw [Nat.mod_eq_of_lt small] at value
  rw [← value]
  exact getLe32_congr (fun i below => by rw [bytes i below, Nat.zero_add])

theorem getLe64_of_bytes (small : v < 2 ^ 64) (bytes : ∀ i < 8, b (o + i) = leByte v i) :
    getLe64 b o = v := by
  have value := getLe64_leByte v
  rw [Nat.mod_eq_of_lt small] at value
  rw [← value]
  exact getLe64_congr (fun i below => by rw [bytes i below, Nat.zero_add])

theorem getLe64_putLe64 (small : v < 2 ^ 64) : getLe64 (putLe64 b o v) o = v :=
  getLe64_of_bytes small (fun i below => by
    rw [putLe64, overlay_of_mem (by omega) (by omega), Nat.add_sub_cancel_left])

theorem getBe32_congr (same : ∀ i < 4, b (o + i) = c (p + i)) : getBe32 b o = getBe32 c p := by
  have first := same 0 (by omega)
  rw [Nat.add_zero, Nat.add_zero] at first
  unfold getBe32
  rw [first, same 1 (by omega), same 2 (by omega), same 3 (by omega)]

theorem getBe32_putBe32 (b : Buf) (o v : Nat) : getBe32 (putBe32 b o v) o = v % 2 ^ 32 := by
  have stored : getBe32 (putBe32 b o v) o = getBe32 (fun i => leByte v (3 - i)) 0 :=
    getBe32_congr (fun i below => by
      rw [putBe32, overlay_of_mem (by omega) (by omega), Nat.add_sub_cancel_left, Nat.zero_add])
  rw [stored]
  simp only [getBe32, leByte, UInt8.toNat_ofNat']
  omega

theorem getBe32_putBe32_of_ne (apart : p + 4 ≤ o ∨ o + 4 ≤ p) :
    getBe32 (putBe32 b o v) p = getBe32 b p :=
  getBe32_congr (fun i below => by
    rw [putBe32, overlay, if_neg (by omega)])

theorem leByte_getLe32 (b : Buf) (o : Nat) {i : Nat} (below : i < 4) : leByte (getLe32 b o) i = b (o + i) := by
  have byte (j : Nat) : (b (o + j)).toNat < 256 := (b (o + j)).toNat_lt
  have first := byte 0
  have second := byte 1
  have third := byte 2
  have fourth := byte 3
  apply UInt8.toNat_inj.mp
  rw [leByte, UInt8.toNat_ofNat']
  simp only [getLe32, getLe16, Nat.add_zero, Nat.add_assoc] at *
  obtain rfl | rfl | rfl | rfl : i = 0 ∨ i = 1 ∨ i = 2 ∨ i = 3 := by omega
  all_goals
    simp only [Nat.add_zero, Nat.reduceAdd]
    omega

theorem putLe32_getLe32 (b : Buf) (o : Nat) : putLe32 b o (getLe32 b o) = b := by
  funext a
  unfold putLe32 overlay
  split
  · rw [leByte_getLe32 b o (by omega)]
    congr 1
    omega
  · rfl

theorem putLe16_of_lt (before : a < o) : putLe16 b o v a = b a := overlay_of_lt before

theorem putLe16_of_ge (after : o + 2 ≤ a) : putLe16 b o v a = b a := overlay_of_ge after

theorem putLe32_of_lt (before : a < o) : putLe32 b o v a = b a := overlay_of_lt before

theorem putLe32_of_ge (after : o + 4 ≤ a) : putLe32 b o v a = b a := overlay_of_ge after

end Bytes
