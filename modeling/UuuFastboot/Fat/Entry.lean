import UuuFastboot.Lib.Word
import UuuFastboot.Lib.Bytes

namespace UuuFastboot.Fat

open Word Overlay Bytes

/-- `fatsize`: the width of an entry of the table in bits. -/
inductive FatSize where
  | fat12
  | fat16
  | fat32
deriving DecidableEq

namespace FatSize

def bits : FatSize → Nat
  | fat12 => 12
  | fat16 => 16
  | fat32 => 32

/-- The first number that `CHECK_CLUST` refuses for a cluster. -/
def reserved : FatSize → Nat
  | fat12 => 0xff0
  | fat16 => 0xfff0
  | fat32 => 0xffffff0

/-- `FAT12BUFSIZE`, `FAT16BUFSIZE` and `FAT32BUFSIZE`: the entries in a window of the table. -/
def bufsize (sectSize : Nat) : FatSize → Nat
  | fat12 => sectSize * 6 * 2 / 3
  | fat16 => sectSize * 6 / 2
  | fat32 => sectSize * 6 / 4

def start (entry : Nat) : FatSize → Nat
  | fat12 => entry * 3 / 2
  | fat16 => 2 * entry
  | fat32 => 4 * entry

def width : FatSize → Nat
  | fat12 => 2
  | fat16 => 2
  | fat32 => 4

end FatSize

def checkClust (x : Nat) (fatsize : FatSize) : Bool := decide (x ≤ 1 ∨ fatsize.reserved ≤ x)

/-- The entry at an offset into the buffer, as `get_fatent` takes it out. -/
def getEntry (buf : Buf) (offset : Nat) : FatSize → Nat
  | .fat32 => getLe32 buf (4 * offset)
  | .fat16 => getLe16 buf (2 * offset)
  | .fat12 =>
    let off8 := offset * 3 / 2
    let ret := (buf off8).toNat + 2 ^ 8 * (buf (off8 + 1)).toNat
    (if offset % 2 = 1 then ret / 2 ^ 4 else ret) % 2 ^ 12

/-- A 16-bit word with `n` bits from bit `low` on replaced by those of `v`. -/
def putBits (word low n v : Nat) : Nat := word % 2 ^ low + 2 ^ low * (v % 2 ^ n) + 2 ^ (low + n) * (word / 2 ^ (low + n))

/-- The bits of a word of the buffer are replaced in place, `buf[i] &= ~mask; buf[i] |= v << low`. -/
def putBitsAt (buf : Buf) (i low n v : Nat) : Buf := putLe16 buf (2 * i) (putBits (getLe16 buf (2 * i)) low n v)

/-- The entry at an offset into the buffer is replaced, as `set_fatent_value` does it. -/
def putEntry (buf : Buf) (offset entryValue : Nat) : FatSize → Buf
  | .fat32 => putLe32 buf (4 * offset) entryValue
  | .fat16 => putLe16 buf (2 * offset) entryValue
  | .fat12 =>
    let off16 := offset * 3 / 4
    match offset % 4 with
    | 0 => putBitsAt buf off16 0 12 entryValue
    | 1 => putBitsAt (putBitsAt buf off16 12 4 entryValue) (off16 + 1) 0 8 (entryValue / 2 ^ 4)
    | 2 => putBitsAt (putBitsAt buf off16 8 8 entryValue) (off16 + 1) 0 4 (entryValue / 2 ^ 8)
    | _ => putBitsAt buf off16 4 12 entryValue

section Packed

variable {buf : Buf} {i low n v a : Nat}

theorem toNat_putBitsAt : (putBitsAt buf i low n v a).toNat =
    if a = 2 * i then putBits (getLe16 buf (2 * i)) low n v % 2 ^ 8
    else if a = 2 * i + 1 then putBits (getLe16 buf (2 * i)) low n v / 2 ^ 8 % 2 ^ 8
    else (buf a).toNat := by
  rw [putBitsAt, putLe16]
  split_ifs with first second
  · rw [first, overlay_of_mem (le_refl _) (by omega), Nat.sub_self, leByte, UInt8.toNat_ofNat', Nat.pow_zero, Nat.div_one]
  · rw [second, overlay_of_mem (by omega) (by omega), Nat.add_sub_cancel_left, leByte, UInt8.toNat_ofNat', Nat.pow_one]
    rfl
  · rw [overlay, if_neg (by omega)]

section Halves

variable {b₀ b₁ : Nat} (byte₀ : b₀ < 2 ^ 8) (byte₁ : b₁ < 2 ^ 8) (v : Nat)
include byte₀ byte₁

omit byte₁ in
theorem putBits_0_12 : putBits (b₀ + 2 ^ 8 * b₁) 0 12 v % 2 ^ 8 = v % 2 ^ 8 ∧
    putBits (b₀ + 2 ^ 8 * b₁) 0 12 v / 2 ^ 8 % 2 ^ 8 = (b₁ / 2 ^ 4 * 2 ^ 4 + v / 2 ^ 8 % 2 ^ 4) % 2 ^ 8 := by
  unfold putBits
  omega

theorem putBits_12_4 : putBits (b₀ + 2 ^ 8 * b₁) 12 4 v % 2 ^ 8 = b₀ ∧
    putBits (b₀ + 2 ^ 8 * b₁) 12 4 v / 2 ^ 8 % 2 ^ 8 = (b₁ % 2 ^ 4 + 2 ^ 4 * v) % 2 ^ 8 := by
  unfold putBits
  omega

theorem putBits_0_8 : putBits (b₀ + 2 ^ 8 * b₁) 0 8 v % 2 ^ 8 = v % 2 ^ 8 ∧
    putBits (b₀ + 2 ^ 8 * b₁) 0 8 v / 2 ^ 8 % 2 ^ 8 = b₁ := by
  unfold putBits
  omega

theorem putBits_8_8 : putBits (b₀ + 2 ^ 8 * b₁) 8 8 v % 2 ^ 8 = b₀ ∧
    putBits (b₀ + 2 ^ 8 * b₁) 8 8 v / 2 ^ 8 % 2 ^ 8 = v % 2 ^ 8 := by
  unfold putBits
  omega

theorem putBits_0_4 : putBits (b₀ + 2 ^ 8 * b₁) 0 4 v % 2 ^ 8 = (b₀ / 2 ^ 4 * 2 ^ 4 + v % 2 ^ 4) % 2 ^ 8 ∧
    putBits (b₀ + 2 ^ 8 * b₁) 0 4 v / 2 ^ 8 % 2 ^ 8 = b₁ := by
  unfold putBits
  omega

theorem putBits_4_12 : putBits (b₀ + 2 ^ 8 * b₁) 4 12 v % 2 ^ 8 = (b₀ % 2 ^ 4 + 2 ^ 4 * v) % 2 ^ 8 ∧
    putBits (b₀ + 2 ^ 8 * b₁) 4 12 v / 2 ^ 8 % 2 ^ 8 = v / 2 ^ 4 % 2 ^ 8 := by
  unfold putBits
  omega

end Halves

/-- The bytes of a 12-bit entry with the value `v`: the half that belongs to its neighbour is kept. -/
def packed (entry v : Nat) (old : Buf) (i : Nat) : UInt8 :=
  if i = 0 then UInt8.ofNat (if entry % 2 = 0 then v else (old 0).toNat % 2 ^ 4 + 2 ^ 4 * v)
  else UInt8.ofNat (if entry % 2 = 0 then (old 1).toNat / 2 ^ 4 * 2 ^ 4 + v / 2 ^ 8 % 2 ^ 4 else v / 2 ^ 4)

theorem toNat_packed (entry s : Nat) : (overlay buf s 2 (packed entry v (tail buf s)) a).toNat =
    if a = s then (if entry % 2 = 0 then v else (buf s).toNat % 2 ^ 4 + 2 ^ 4 * v) % 2 ^ 8
    else if a = s + 1 then
      (if entry % 2 = 0 then (buf (s + 1)).toNat / 2 ^ 4 * 2 ^ 4 + v / 2 ^ 8 % 2 ^ 4 else v / 2 ^ 4) % 2 ^ 8
    else (buf a).toNat := by
  by_cases first : a = s
  · rw [if_pos first, first, overlay_of_mem (le_refl _) (by omega), Nat.sub_self, packed, if_pos rfl, UInt8.toNat_ofNat',
      tail_apply, Nat.add_zero]
  · rw [if_neg first]
    by_cases second : a = s + 1
    · rw [if_pos second, second, overlay_of_mem (by omega) (by omega), Nat.add_sub_cancel_left, packed,
        if_neg (by decide), UInt8.toNat_ofNat', tail_apply]
    · rw [if_neg second, overlay, if_neg (by omega)]

/-- Stored as words in four phases, a 12-bit entry is the two bytes that the reader takes it from. -/
theorem putEntry_fat12 (buf : Buf) (entry v : Nat) :
    putEntry buf entry v .fat12 = overlay buf (entry * 3 / 2) 2 (packed entry v (tail buf (entry * 3 / 2))) := by
  obtain ⟨k, j, phase, rfl⟩ : ∃ k j, j < 4 ∧ entry = 4 * k + j := ⟨entry / 4, entry % 4, by omega, by omega⟩
  have kept {i o : Nat} (behind : 2 * i + 2 ≤ o) (low n v : Nat) : getLe16 (putBitsAt buf i low n v) o = getLe16 buf o :=
    getLe16_congr (fun d below => UInt8.toNat_inj.mp (by rw [toNat_putBitsAt, if_neg (by omega), if_neg (by omega)]))
  have word (i : Nat) : getLe16 buf i = (buf i).toNat + 2 ^ 8 * (buf (i + 1)).toNat := rfl
  have byte (i : Nat) : (buf i).toNat < 2 ^ 8 := (buf i).toNat_lt
  -- the words of the group of four entries
  have first : 2 * (3 * k) = 6 * k := by omega
  have second : 2 * (3 * k + 1) = 6 * k + 2 := by omega
  have third : 2 * (3 * k + 2) = 6 * k + 4 := by omega
  funext a
  apply UInt8.toNat_inj.mp
  rw [toNat_packed]
  obtain rfl | rfl | rfl | rfl : j = 0 ∨ j = 1 ∨ j = 2 ∨ j = 3 := by omega
  · rw [putEntry, show (4 * k + 0) % 4 = 0 by omega, show (4 * k + 0) * 3 / 4 = 3 * k by omega,
      show (4 * k + 0) * 3 / 2 = 6 * k by omega, show (4 * k + 0) % 2 = 0 by omega]
    simp only [toNat_putBitsAt, first, word, putBits_0_12 (byte _), if_true]
  · rw [putEntry, show (4 * k + 1) % 4 = 1 by omega, show (4 * k + 1) * 3 / 4 = 3 * k by omega,
      show (4 * k + 1) * 3 / 2 = 6 * k + 1 by omega, show (4 * k + 1) % 2 = 1 by omega]
    simp only [toNat_putBitsAt, first, second, kept (show 2 * (3 * k) + 2 ≤ 6 * k + 2 by omega), word,
      putBits_12_4 (byte _) (byte _), putBits_0_8 (byte _) (byte _), one_ne_zero, if_false, Nat.add_assoc, Nat.reduceAdd]
    split_ifs <;> first | omega | simp_all
  · rw [putEntry, show (4 * k + 2) % 4 = 2 by omega, show (4 * k + 2) * 3 / 4 = 3 * k + 1 by omega,
      show (4 * k + 2) * 3 / 2 = 6 * k + 3 by omega, show (4 * k + 2) % 2 = 0 by omega]
    simp only [toNat_putBitsAt, second, third, kept (show 2 * (3 * k + 1) + 2 ≤ 6 * k + 4 by omega), word,
      putBits_8_8 (byte _) (byte _), putBits_0_4 (byte _) (byte _), if_true, Nat.add_assoc, Nat.reduceAdd]
    split_ifs <;> first | omega | simp_all
  · rw [putEntry, show (4 * k + 3) % 4 = 3 by omega, show (4 * k + 3) * 3 / 4 = 3 * k + 2 by omega,
      show (4 * k + 3) * 3 / 2 = 6 * k + 4 by omega, show (4 * k + 3) % 2 = 1 by omega]
    simp only [toNat_putBitsAt, third, word, putBits_4_12 (byte _) (byte _), one_ne_zero, if_false]

end Packed

section Entries

variable {b c : Buf} {e v a : Nat} {s : FatSize}

theorem getEntry_congr {off : Nat} (same : ∀ i < s.width, b (s.start off + i) = c (s.start e + i))
    (alike : off % 2 = e % 2) : getEntry b off s = getEntry c e s := by
  cases s with
  | fat32 => exact getLe32_congr same
  | fat16 => exact getLe16_congr same
  | fat12 =>
    have low := same 0 (by decide)
    have high := same 1 (by decide)
    simp only [FatSize.start, Nat.add_zero] at low high
    simp only [getEntry, low, high, alike]

theorem putEntry_outside (outside : a < s.start e ∨ s.start e + s.width ≤ a) : putEntry b e v s a = b a := by
  cases s with
  | fat32 => exact if_neg (by simp only [FatSize.start, FatSize.width] at outside; omega)
  | fat16 => exact if_neg (by simp only [FatSize.start, FatSize.width] at outside; omega)
  | fat12 =>
    rw [putEntry_fat12]
    exact if_neg (by simp only [FatSize.start, FatSize.width] at outside; omega)

theorem putEntry_shift {off base : Nat} (place : s.start e = base + s.start off) (alike : off % 2 = e % 2)
    (same : b a = c (base + a)) : putEntry b off v s a = putEntry c e v s (base + a) := by
  have wide {f : Nat → UInt8} {p q w : Nat} (moved : q = base + p) :
      overlay b p w f a = overlay c q w f (base + a) := by
    unfold overlay
    by_cases inside : p ≤ a ∧ a < p + w
    · rw [if_pos inside, if_pos (by omega), show base + a - q = a - p by omega]
    · rw [if_neg inside, if_neg (by omega), same]
  cases s with
  | fat32 => exact wide place
  | fat16 => exact wide place
  | fat12 =>
    apply UInt8.toNat_inj.mp
    simp only [FatSize.start] at place
    rw [putEntry_fat12, putEntry_fat12, toNat_packed, toNat_packed, alike, place]
    generalize off * 3 / 2 = q
    rcases eq_or_ne a q with rfl | first
    · rw [if_pos rfl, if_pos rfl, same]
    · rcases eq_or_ne a (q + 1) with rfl | second
      · have behind : ¬ base + (q + 1) = base + q := by omega
        have place : base + (q + 1) = base + q + 1 := rfl
        rw [if_neg first, if_pos rfl, if_neg behind, if_pos place, same, Nat.add_assoc]
      · have elsewhere : ¬ base + a = base + q := by omega
        have elsewhere' : ¬ base + a = base + q + 1 := by omega
        rw [if_neg first, if_neg second, if_neg elsewhere, if_neg elsewhere', same]

theorem getEntry_putEntry (b : Buf) (e e' v : Nat) (s : FatSize) :
    getEntry (putEntry b e v s) e' s = if e' = e then v % 2 ^ s.bits else getEntry b e' s := by
  split
  · next same =>
    subst same
    cases s with
    | fat32 => exact getLe32_putLe32 b (4 * e') v
    | fat16 => exact getLe16_putLe16 b (2 * e') v
    | fat12 =>
      have low : (b (e' * 3 / 2)).toNat < 2 ^ 8 := (b (e' * 3 / 2)).toNat_lt
      have high : (b (e' * 3 / 2 + 1)).toNat < 2 ^ 8 := (b (e' * 3 / 2 + 1)).toNat_lt
      simp only [getEntry, putEntry_fat12, toNat_packed, if_true, if_neg (Nat.succ_ne_self _), FatSize.bits]
      rcases Nat.mod_two_eq_zero_or_one e' with even | odd
      · simp only [even, if_true, zero_ne_one, if_false]
        omega
      · simp only [odd, one_ne_zero, if_true, if_false]
        omega
  · next other =>
    cases s with
    | fat32 =>
      refine getEntry_congr (fun i below => putEntry_outside ?_) rfl
      simp only [FatSize.start, FatSize.width] at below ⊢
      omega
    | fat16 =>
      refine getEntry_congr (fun i below => putEntry_outside ?_) rfl
      simp only [FatSize.start, FatSize.width] at below ⊢
      omega
    | fat12 =>
      by_cases next : e' = e + 1 ∧ e % 2 = 0
      · -- the two share a byte
        obtain ⟨rfl, even⟩ := next
        have start : (e + 1) * 3 / 2 = e * 3 / 2 + 1 := by omega
        have odd : (e + 1) % 2 = 1 := by omega
        have byte : (b (e * 3 / 2 + 1)).toNat < 2 ^ 8 := (b (e * 3 / 2 + 1)).toNat_lt
        simp only [getEntry, putEntry_fat12, toNat_packed, start, odd, even, if_true, if_neg (Nat.succ_ne_self _)]
        rw [if_neg (by omega)]
        omega
      · by_cases last : e = e' + 1 ∧ e' % 2 = 0
        · obtain ⟨rfl, even⟩ := last
          have start : (e' + 1) * 3 / 2 = e' * 3 / 2 + 1 := by omega
          have odd : (e' + 1) % 2 = 1 := by omega
          have byte : (b (e' * 3 / 2 + 1)).toNat < 2 ^ 8 := (b (e' * 3 / 2 + 1)).toNat_lt
          simp only [getEntry, putEntry_fat12, toNat_packed, start, odd, even, if_true, one_ne_zero, zero_ne_one,
            if_false]
          rw [if_neg (by omega), if_neg (by omega)]
          omega
        · refine getEntry_congr (fun i below => putEntry_outside ?_) rfl
          simp only [FatSize.start, FatSize.width] at below ⊢
          omega

end Entries

section Window

variable {sect : Nat} (four : 4 ∣ sect) (s : FatSize)
include four

theorem FatSize.bufsize_even : 2 ∣ s.bufsize sect := by
  obtain ⟨h, rfl⟩ := four
  cases s <;> simp only [FatSize.bufsize] <;> omega

theorem FatSize.start_bufsize : s.start (s.bufsize sect) = sect * 6 := by
  obtain ⟨h, rfl⟩ := four
  cases s <;> simp only [FatSize.bufsize, FatSize.start] <;> omega

theorem FatSize.sect_le_bufsize : sect ≤ s.bufsize sect := by
  obtain ⟨h, rfl⟩ := four
  cases s <;> simp only [FatSize.bufsize] <;> omega

theorem FatSize.start_lt {off : Nat} (inside : off < s.bufsize sect) : s.start off + s.width ≤ sect * 6 := by
  obtain ⟨h, rfl⟩ := four
  cases s <;> simp only [FatSize.bufsize, FatSize.start, FatSize.width] at inside ⊢ <;> omega

theorem FatSize.window_alike (n off : Nat) : off % 2 = (n * s.bufsize sect + off) % 2 := by
  obtain ⟨k, even⟩ := FatSize.bufsize_even four s
  rw [even, Nat.mul_left_comm, Nat.mul_add_mod]

theorem FatSize.start_window (n off : Nat) : s.start (n * s.bufsize sect + off) = n * (sect * 6) + s.start off := by
  rw [← FatSize.start_bufsize four s]
  obtain ⟨k, even⟩ := FatSize.bufsize_even four s
  rw [even, show n * (2 * k) = 2 * (n * k) by ring]
  cases s with
  | fat12 =>
    simp only [FatSize.start]
    rw [show n * (2 * k * 3 / 2) = 3 * (n * k) by rw [show 2 * k * 3 / 2 = 3 * k by omega]; ring]
    omega
  | fat16 =>
    simp only [FatSize.start]
    ring
  | fat32 =>
    simp only [FatSize.start]
    ring

end Window

end UuuFastboot.Fat
