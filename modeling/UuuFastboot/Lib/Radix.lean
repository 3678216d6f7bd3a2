import UuuFastboot.Lib.Word
import UuuFastboot.Lib.CString

namespace Radix

open Word CString

/-- The digit character of a value below sixteen. -/
def hexDigit (v : Nat) : UInt8 := if v < 10 then UInt8.ofNat (48 + v) else UInt8.ofNat (87 + v)

/-- The value of a hexadecimal digit character of either case. -/
def digitValue (c : UInt8) : Option Nat :=
  if 48 ≤ c ∧ c ≤ 57 then some (c.toNat - 48)
  else if 97 ≤ c ∧ c ≤ 102 then some (c.toNat - 87)
  else if 65 ≤ c ∧ c ≤ 70 then some (c.toNat - 55)
  else none

/-- Reads digits below `base` for as long as there are any, in a 32-bit
accumulator. -/
def readDigits (base : Nat) (acc : Nat) : CStr → Nat
  | [] => acc
  | c :: rest =>
    match digitValue c with
    | none => acc
    | some v => if v < base then readDigits base (w32 (acc * base + v)) rest else acc

def readDigitsIn (bits base acc : Nat) : CStr → Nat
  | [] => acc
  | c :: rest =>
    match digitValue c with
    | none => acc
    | some v => if v < base then readDigitsIn bits base ((acc * base + v) % 2 ^ bits) rest else acc

def hexNumber (digits : CStr) : Nat := digits.foldl (fun acc c => acc * 16 + (digitValue c).getD 0) 0

/-- The digits of a number of at most `width + 1` hexadecimal digits,
without leading zeros. -/
def hexDigits : Nat → Nat → CStr
  | 0, n => [hexDigit (n % 16)]
  | width + 1, n => if n < 16 then [hexDigit n] else hexDigits width (n / 16) ++ [hexDigit (n % 16)]

/-- `%x` of a 32-bit value. -/
def hexText (n : Nat) : CStr := hexDigits 7 n

/-- `%08x` of a 32-bit value. -/
def hexText8 (n : Nat) : CStr := [7, 6, 5, 4, 3, 2, 1, 0].map (fun i => hexDigit (n / 16 ^ i % 16))

/-- `%02x` -/
def hexText2 (n : Nat) : CStr := if n < 16 then [48, hexDigit n] else hexText n

/-- `%d` of a number that is not negative. -/
def decText (n : Nat) : CStr := (Nat.toDigits 10 n).map (fun c => UInt8.ofNat c.toNat)

theorem digitValue_hexDigit {v : Nat} (small : v < 16) : digitValue (hexDigit v) = some v := by
  interval_cases v <;> rfl

theorem readDigits_append_digit {acc v : Nat} {s : CStr} (small : v < 16)
    (digits : ∀ c ∈ s, ∃ u < 16, c = hexDigit u) :
    readDigits 16 acc (s ++ [hexDigit v]) = w32 (readDigits 16 acc s * 16 + v) := by
  induction s generalizing acc with
  | nil => simp [readDigits, digitValue_hexDigit small, small]
  | cons c rest ih =>
    obtain ⟨u, smallU, rfl⟩ := digits c (List.mem_cons_self ..)
    simp only [List.cons_append, readDigits, digitValue_hexDigit smallU, if_pos smallU]
    exact ih (fun c member => digits c (List.mem_cons_of_mem _ member))

theorem hexDigits_digits {width n : Nat} : ∀ c ∈ hexDigits width n, ∃ u < 16, c = hexDigit u := by
  induction width generalizing n with
  | zero =>
    intro c member
    exact ⟨n % 16, Nat.mod_lt _ (by decide), List.mem_singleton.mp member⟩
  | succ width ih =>
    intro c member
    rw [hexDigits] at member
    split at member
    · rename_i small
      exact ⟨n, small, List.mem_singleton.mp member⟩
    · rcases List.mem_append.mp member with high | low
      · exact ih c high
      · exact ⟨n % 16, Nat.mod_lt _ (by decide), List.mem_singleton.mp low⟩

theorem readDigits_hexDigits {width n : Nat} (fits : n < 16 ^ (width + 1)) (word : n < 2 ^ 32) :
    readDigits 16 0 (hexDigits width n) = n := by
  induction width generalizing n with
  | zero =>
    have small : n < 16 := fits
    rw [hexDigits, Nat.mod_eq_of_lt small]
    simp [readDigits, digitValue_hexDigit small, small, w32_of_lt word]
  | succ width ih =>
    rw [hexDigits]
    split
    · rename_i small
      simp [readDigits, digitValue_hexDigit small, small, w32_of_lt word]
    · have high : n / 16 < 16 ^ (width + 1) := by
        rw [Nat.pow_succ] at fits
        omega
      rw [readDigits_append_digit (Nat.mod_lt _ (by decide)) hexDigits_digits, ih high (by omega),
        show n / 16 * 16 + n % 16 = n by omega, w32_of_lt word]

theorem hexDigits_head {width n : Nat} (positive : 0 < n) (fits : n < 16 ^ (width + 1)) :
    ∃ v rest, 0 < v ∧ v < 16 ∧ hexDigits width n = hexDigit v :: rest := by
  induction width generalizing n with
  | zero =>
    have small : n < 16 := fits
    exact ⟨n, [], positive, small, by rw [hexDigits, Nat.mod_eq_of_lt small]⟩
  | succ width ih =>
    rw [hexDigits]
    split
    · rename_i small
      exact ⟨n, [], positive, small, rfl⟩
    · have high : n / 16 < 16 ^ (width + 1) := by
        rw [Nat.pow_succ] at fits
        omega
      obtain ⟨v, rest, positive', small, same⟩ := ih (by omega) high
      exact ⟨v, rest ++ [hexDigit (n % 16)], positive', small, by rw [same]; rfl⟩

theorem readDigits_eq (base acc : Nat) (s : CStr) : readDigits base acc s = readDigitsIn 32 base acc s := by
  induction s generalizing acc with
  | nil => rfl
  | cons c rest ih =>
    simp only [readDigits, readDigitsIn, ih]
    rfl

theorem digitValue_lt {c : UInt8} {v : Nat} (digit : digitValue c = some v) : v < 16 := by
  unfold digitValue at digit
  split at digit
  · next range =>
    obtain rfl := Option.some.inj digit
    have upper : c.toNat ≤ 57 := range.2
    omega
  · split at digit
    · next range =>
      obtain rfl := Option.some.inj digit
      have upper : c.toNat ≤ 102 := range.2
      omega
    · split at digit
      · next range =>
        obtain rfl := Option.some.inj digit
        have upper : c.toNat ≤ 70 := range.2
        omega
      · cases digit

theorem foldl_hexNumber (acc : Nat) (digits : CStr) :
    digits.foldl (fun acc c => acc * 16 + (digitValue c).getD 0) acc = acc * 16 ^ digits.length + hexNumber digits := by
  induction digits generalizing acc with
  | nil => simp [hexNumber]
  | cons c rest ih =>
    rw [hexNumber, List.foldl_cons, List.foldl_cons, ih, ih, List.length_cons, Nat.pow_succ]
    ring

theorem hexNumber_append (high low : CStr) : hexNumber (high ++ low) = hexNumber high * 16 ^ low.length + hexNumber low := by
  rw [hexNumber, List.foldl_append, foldl_hexNumber]
  rfl

theorem hexNumber_lt (digits : CStr) : hexNumber digits < 16 ^ digits.length := by
  induction digits using List.reverseRecOn with
  | nil => decide
  | append_singleton rest c ih =>
    have digit : (digitValue c).getD 0 < 16 := by
      cases value : digitValue c with
      | none => decide
      | some v => exact digitValue_lt value
    rw [hexNumber_append, List.length_append, Nat.pow_add]
    have one : hexNumber [c] = (digitValue c).getD 0 := by simp [hexNumber]
    rw [one, List.length_singleton]
    omega

theorem readDigitsIn_append {bits acc : Nat} {digits rest : CStr} (hex : ∀ c ∈ digits, (digitValue c).isSome)
    (stop : ∀ c, rest.head? = some c → digitValue c = none)
    (room : acc * 16 ^ digits.length + hexNumber digits < 2 ^ bits) :
    readDigitsIn bits 16 acc (digits ++ rest) = acc * 16 ^ digits.length + hexNumber digits := by
  induction digits generalizing acc with
  | nil =>
    cases rest with
    | nil => simp [readDigitsIn, hexNumber]
    | cons c rest => simp [readDigitsIn, hexNumber, stop c rfl]
  | cons c digits ih =>
    obtain ⟨v, value⟩ := Option.isSome_iff_exists.mp (hex c (List.mem_cons_self ..))
    have cut : hexNumber (c :: digits) = v * 16 ^ digits.length + hexNumber digits := by
      rw [hexNumber, List.foldl_cons, foldl_hexNumber, value]
      simp
    have sum : acc * 16 ^ (c :: digits).length + hexNumber (c :: digits) =
        (acc * 16 + v) * 16 ^ digits.length + hexNumber digits := by
      rw [cut, List.length_cons, Nat.pow_succ]
      ring
    rw [sum] at room ⊢
    have positive : 0 < 16 ^ digits.length := Nat.pow_pos (by decide)
    have small : acc * 16 + v < 2 ^ bits := by
      have step : acc * 16 + v ≤ (acc * 16 + v) * 16 ^ digits.length := Nat.le_mul_of_pos_right _ positive
      omega
    simp only [List.cons_append, readDigitsIn, value, if_pos (digitValue_lt value), Nat.mod_eq_of_lt small]
    exact ih (fun c member => hex c (List.mem_cons_of_mem _ member)) room

theorem hexNumber_byte (high low : CStr) (a b : UInt8) (k : Nat) (length : low.length = 2 * k) :
    hexNumber (high ++ a :: b :: low) / 256 ^ k % 256 = hexNumber [a, b] := by
  have split_ : high ++ a :: b :: low = (high ++ [a, b]) ++ low := by simp
  have below := hexNumber_lt low
  have pair := hexNumber_lt [a, b]
  rw [length, Nat.pow_mul] at below
  rw [split_, hexNumber_append, length, Nat.pow_mul, hexNumber_append]
  rw [show (16 : Nat) ^ 2 = 256 from rfl] at below ⊢
  rw [Nat.add_comm, Nat.add_mul_div_right _ _ (Nat.pow_pos (by decide)), Nat.div_eq_of_lt below, Nat.zero_add]
  change _ < 256 at pair
  change (hexNumber high * 256 + hexNumber [a, b]) % 256 = _
  omega

theorem hexDigit_digitValue {c : UInt8} {v : Nat} (digit : digitValue c = some v) :
    hexDigit v = c ↔ ¬ (65 ≤ c ∧ c ≤ 70) := by
  have all : ∀ n < 256, ∀ v < 16, digitValue (UInt8.ofNat n) = some v →
      (hexDigit v = UInt8.ofNat n ↔ ¬ (65 ≤ UInt8.ofNat n ∧ UInt8.ofNat n ≤ 70)) := by decide +kernel
  have at_c := all c.toNat c.toNat_lt v (digitValue_lt digit)
  rw [UInt8.ofNat_toNat] at at_c
  exact at_c digit

theorem hexText2_eq {n : Nat} (small : n < 256) : hexText2 n = [hexDigit (n / 16), hexDigit (n % 16)] := by
  have all : ∀ n < 256, hexText2 n = [hexDigit (n / 16), hexDigit (n % 16)] := by decide +kernel
  exact all n small

end Radix
