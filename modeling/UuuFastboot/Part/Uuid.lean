import UuuFastboot.Lib.Bytes
import UuuFastboot.Gadget.Env
import Mathlib.Data.List.GetD

namespace UuuFastboot.Uuid

open Word Bytes CString Radix

/-- The two ways in which the bytes of an identifier are written. -/
inductive StrFormat
  | std | guid
deriving DecidableEq

/-- `uuid_char_order` and `guid_char_order` -/
def charOrder : StrFormat → Nat → Nat
  | .std, i => i
  | .guid, i => [3, 2, 1, 0, 5, 4, 7, 6].getD i i

def separator (i : Nat) : CStr := if i = 3 ∨ i = 5 ∨ i = 7 ∨ i = 9 then cstr "-" else []

def uuidBinToStr (bin : Buf) (format : StrFormat) : CStr :=
  (List.range 16).flatMap (fun i => hexText2 (bin (charOrder format i)).toNat ++ separator i)

def uuidStrValid (uuid : CStr) : Bool :=
  uuid.length == 36 && (List.range 36).all (fun i =>
    if i = 8 ∨ i = 13 ∨ i = 18 ∨ i = 23 then uuid.getD i 0 == 45 else (digitValue (uuid.getD i 0)).isSome)

/-- `simple_strtoull` of base 16. -/
def simpleStrtoull (text : CStr) : Nat :=
  match text with
  | 48 :: 120 :: d :: rest => if (digitValue d).isSome then readDigitsIn 64 16 0 (d :: rest) else 0
  | 48 :: rest => readDigitsIn 64 16 0 rest
  | _ => readDigitsIn 64 16 0 text

/-- `uuid_str_to_bin`; only the first three fields depend on the format. -/
def uuidStrToBin (uuidStr : CStr) (format : StrFormat) : Option Buf :=
  if uuidStrValid uuidStr then
    let timeLow := simpleStrtoul uuidStr 16
    let timeMid := simpleStrtoul (uuidStr.drop 9) 16
    let timeHi := simpleStrtoul (uuidStr.drop 14) 16
    let clockSeq := simpleStrtoul (uuidStr.drop 19) 16
    let node := simpleStrtoull (uuidStr.drop 24)
    some (fun i =>
      if i < 4 then leByte timeLow (if format = .std then 3 - i else i)
      else if i < 6 then leByte timeMid (if format = .std then 5 - i else i - 4)
      else if i < 8 then leByte timeHi (if format = .std then 7 - i else i - 6)
      else if i < 10 then leByte clockSeq (9 - i)
      else leByte node (15 - i))
  else none

def digitPos (i : Nat) : Nat := if i < 4 then 2 * i else if i < 6 then 2 * i + 1 else if i < 8 then 2 * i + 2
  else if i < 10 then 2 * i + 3 else 2 * i + 4

def digitPair (uuid : CStr) (i : Nat) : CStr := [uuid.getD (digitPos i) 0, uuid.getD (digitPos i + 1) 0]

theorem leByte_hexNumber {digits : CStr} {m i : Nat} (length : digits.length = 2 * m) (below : i < m) :
    leByte (hexNumber digits) (m - 1 - i) =
      UInt8.ofNat (hexNumber [digits.getD (2 * i) 0, digits.getD (2 * i + 1) 0]) := by
  have split_ : digits = digits.take (2 * i) ++ digits.getD (2 * i) 0 :: digits.getD (2 * i + 1) 0 ::
      digits.drop (2 * i + 2) := by
    rw [List.getD_eq_getElem _ _ (by omega), List.getD_eq_getElem _ _ (by omega), ← List.drop_eq_getElem_cons,
      ← List.drop_eq_getElem_cons, List.take_append_drop]
  have byte := hexNumber_byte (digits.take (2 * i)) (digits.drop (2 * i + 2)) (digits.getD (2 * i) 0)
    (digits.getD (2 * i + 1) 0) (m - 1 - i) (by rw [List.length_drop]; omega)
  rw [← split_] at byte
  rw [← byte, leByte]
  apply UInt8.toNat_inj.mp
  rw [UInt8.toNat_ofNat', UInt8.toNat_ofNat', Nat.mod_mod]

section Valid

variable {uuid : CStr} (valid : uuidStrValid uuid = true)
include valid

theorem length_of_valid : uuid.length = 36 := by
  unfold uuidStrValid at valid
  exact beq_iff_eq.mp (Bool.and_eq_true_iff.mp valid).1

theorem char_of_valid {i : Nat} (below : i < 36) :
    if i = 8 ∨ i = 13 ∨ i = 18 ∨ i = 23 then uuid.getD i 0 = 45 else (digitValue (uuid.getD i 0)).isSome := by
  unfold uuidStrValid at valid
  have char := List.all_eq_true.mp (Bool.and_eq_true_iff.mp valid).2 i (List.mem_range.mpr below)
  split at char
  · next dash => rw [if_pos dash]; exact beq_iff_eq.mp char
  · next digit => rw [if_neg digit]; exact char

theorem digit_of_valid {i : Nat} (below : i < 36) (digit : ¬ (i = 8 ∨ i = 13 ∨ i = 18 ∨ i = 23)) :
    (digitValue (uuid.getD i 0)).isSome := by
  have char := char_of_valid valid below
  rwa [if_neg digit] at char

theorem second_of_valid {p : Nat} (below : p + 1 < 36) (digit : ¬ (p + 1 = 8 ∨ p + 1 = 13 ∨ p + 1 = 18 ∨ p + 1 = 23)) :
    ∀ a rest, uuid.drop p ≠ a :: 120 :: rest := by
  intro a rest same
  have char := digit_of_valid valid below digit
  have second : uuid.getD (p + 1) 0 = 120 := by
    rw [List.getD_eq_getElem?_getD, ← List.getElem?_drop, same]
    rfl
  rw [second] at char
  exact absurd char (by decide)

theorem readDigitsIn_field (bits : Nat) {p n : Nat} (inside : p + n ≤ 36) (room : 16 ^ n ≤ 2 ^ bits)
    (digits : ∀ i, p ≤ i → i < p + n → ¬ (i = 8 ∨ i = 13 ∨ i = 18 ∨ i = 23))
    (stop : p + n = 36 ∨ p + n = 8 ∨ p + n = 13 ∨ p + n = 18 ∨ p + n = 23) :
    readDigitsIn bits 16 0 (uuid.drop p) = hexNumber ((uuid.drop p).take n) := by
  have length := length_of_valid valid
  have count : ((uuid.drop p).take n).length = n := by
    rw [List.length_take, List.length_drop]
    omega
  have below := hexNumber_lt ((uuid.drop p).take n)
  rw [count] at below
  have read : readDigitsIn bits 16 0 ((uuid.drop p).take n ++ (uuid.drop p).drop n) =
      0 * 16 ^ ((uuid.drop p).take n).length + hexNumber ((uuid.drop p).take n) := by
    refine readDigitsIn_append ?_ ?_ (by rw [Nat.zero_mul, Nat.zero_add]; omega)
    · intro c member
      obtain ⟨k, small, rfl⟩ := List.mem_iff_getElem.mp member
      rw [count] at small
      have char := digit_of_valid valid (show p + k < 36 by omega) (digits (p + k) (by omega) (by omega))
      rw [List.getD_eq_getElem _ _ (by omega)] at char
      rw [List.getElem_take, List.getElem_drop]
      exact char
    · intro c first
      rw [List.drop_drop, List.head?_drop] at first
      have present : p + n < 36 := by
        by_contra outside
        rw [List.getElem?_eq_none (by omega)] at first
        cases first
      have char := char_of_valid valid present
      rw [if_pos (by omega), List.getD_eq_getElem?_getD, first] at char
      rw [show c = 45 from char]
      rfl
  rw [List.take_append_drop, Nat.zero_mul, Nat.zero_add] at read
  exact read

theorem simpleStrtoul_field {p n : Nat} (inside : p + n ≤ 36) (some_digits : 2 ≤ n) (room : n ≤ 8)
    (digits : ∀ i, p ≤ i → i < p + n → ¬ (i = 8 ∨ i = 13 ∨ i = 18 ∨ i = 23))
    (stop : p + n = 36 ∨ p + n = 8 ∨ p + n = 13 ∨ p + n = 18 ∨ p + n = 23) :
    simpleStrtoul (uuid.drop p) 16 = hexNumber ((uuid.drop p).take n) := by
  have read := readDigitsIn_field valid 32 inside (Nat.pow_le_pow_right (by decide) room) digits stop
  have second := second_of_valid valid (show p + 1 < 36 by omega) (digits (p + 1) (by omega) (by omega))
  rw [← read, ← readDigits_eq]
  unfold simpleStrtoul
  split
  · next d rest same => exact absurd same (second _ _)
  · next rest _ same => rw [same]; simp [readDigits, digitValue, w32]
  · rfl

theorem simpleStrtoull_field : simpleStrtoull (uuid.drop 24) = hexNumber ((uuid.drop 24).take 12) := by
  have read := readDigitsIn_field valid 64 (show 24 + 12 ≤ 36 by decide) (by decide)
    (fun i lower upper => by omega) (Or.inl rfl)
  have second := second_of_valid valid (show 24 + 1 < 36 by decide) (by decide)
  rw [← read]
  unfold simpleStrtoull
  split
  · next d rest same => exact absurd same (second _ _)
  · next rest _ same => rw [same]; simp [readDigitsIn, digitValue]
  · rfl

theorem leByte_field {p m j : Nat} (inside : p + 2 * m ≤ 36) (below : j < m) :
    leByte (hexNumber ((uuid.drop p).take (2 * m))) (m - 1 - j) =
      UInt8.ofNat (hexNumber [uuid.getD (p + 2 * j) 0, uuid.getD (p + 2 * j + 1) 0]) := by
  have length := length_of_valid valid
  have char (k : Nat) (small : k < 2 * m) : ((uuid.drop p).take (2 * m)).getD k 0 = uuid.getD (p + k) 0 := by
    rw [List.getD_eq_getElem?_getD, List.getElem?_take_of_lt small, List.getElem?_drop, ← List.getD_eq_getElem?_getD]
  rw [leByte_hexNumber (by rw [List.length_take, List.length_drop]; omega) below, char _ (by omega), char _ (by omega),
    Nat.add_assoc]

theorem uuidStrToBin_std :
    ∃ bin, uuidStrToBin uuid .std = some bin ∧ ∀ i < 16, bin i = UInt8.ofNat (hexNumber (digitPair uuid i)) := by
  have timeLow := simpleStrtoul_field valid (show 0 + 8 ≤ 36 by decide) (by decide) (by decide)
    (fun i lower upper => by omega) (by decide)
  have timeMid := simpleStrtoul_field valid (show 9 + 4 ≤ 36 by decide) (by decide) (by decide)
    (fun i lower upper => by omega) (by decide)
  have timeHi := simpleStrtoul_field valid (show 14 + 4 ≤ 36 by decide) (by decide) (by decide)
    (fun i lower upper => by omega) (by decide)
  have clockSeq := simpleStrtoul_field valid (show 19 + 4 ≤ 36 by decide) (by decide) (by decide)
    (fun i lower upper => by omega) (by decide)
  have node := simpleStrtoull_field valid
  rw [List.drop_zero] at timeLow
  refine ⟨_, if_pos valid, fun i below => ?_⟩
  simp only [if_true, timeLow, timeMid, timeHi, clockSeq, node]
  unfold digitPair digitPos
  by_cases first : i < 4
  · have byte := leByte_field valid (show 0 + 2 * 4 ≤ 36 by decide) first
    simp only [if_pos first]
    simpa only [List.drop_zero, Nat.zero_add] using byte
  by_cases second : i < 6
  · have byte := leByte_field valid (show 9 + 2 * 2 ≤ 36 by decide) (show i - 4 < 2 by omega)
    rw [show 2 - 1 - (i - 4) = 5 - i by omega, show 9 + 2 * (i - 4) = 2 * i + 1 by omega] at byte
    simp only [if_neg first, if_pos second]
    exact byte
  by_cases third : i < 8
  · have byte := leByte_field valid (show 14 + 2 * 2 ≤ 36 by decide) (show i - 6 < 2 by omega)
    rw [show 2 - 1 - (i - 6) = 7 - i by omega, show 14 + 2 * (i - 6) = 2 * i + 2 by omega] at byte
    simp only [if_neg first, if_neg second, if_pos third]
    exact byte
  by_cases fourth : i < 10
  · have byte := leByte_field valid (show 19 + 2 * 2 ≤ 36 by decide) (show i - 8 < 2 by omega)
    rw [show 2 - 1 - (i - 8) = 9 - i by omega, show 19 + 2 * (i - 8) = 2 * i + 3 by omega] at byte
    simp only [if_neg first, if_neg second, if_neg third, if_pos fourth]
    exact byte
  · have byte := leByte_field valid (show 24 + 2 * 6 ≤ 36 by decide) (show i - 10 < 6 by omega)
    rw [show 6 - 1 - (i - 10) = 15 - i by omega, show 24 + 2 * (i - 10) = 2 * i + 4 by omega] at byte
    simp only [if_neg first, if_neg second, if_neg third, if_neg fourth]
    exact byte

theorem eq_flatMap_digitPair : uuid = (List.range 16).flatMap (fun i => digitPair uuid i ++ separator i) := by
  have length := length_of_valid valid
  have dash (i : Nat) (at_dash : i = 8 ∨ i = 13 ∨ i = 18 ∨ i = 23) : uuid.getD i 0 = 45 := by
    have char := char_of_valid valid (show i < 36 by omega)
    rwa [if_pos at_dash] at char
  have chars : uuid = (List.range 36).map (fun i => uuid.getD i 0) := by
    apply List.ext_getElem (by rw [List.length_map, List.length_range, length])
    intro i small _
    rw [List.getElem_map, List.getElem_range, List.getD_eq_getElem _ _ small]
  have shape : (List.range 16).flatMap (fun i => digitPair uuid i ++ separator i) =
      (List.range 36).map (fun i => if i = 8 ∨ i = 13 ∨ i = 18 ∨ i = 23 then 45 else uuid.getD i 0) := rfl
  rw [shape]
  refine chars.trans (List.map_congr_left (fun i member => ?_))
  split
  · next at_dash => exact dash i at_dash
  · rfl

theorem hexText2_digitPair {i : Nat} (below : i < 16) :
    ∃ a b v w, digitPair uuid i = [a, b] ∧ digitValue a = some v ∧ digitValue b = some w ∧
      hexText2 (UInt8.ofNat (hexNumber (digitPair uuid i))).toNat = [hexDigit v, hexDigit w] := by
  have place : digitPos i + 1 < 36 ∧ ¬ (digitPos i = 8 ∨ digitPos i = 13 ∨ digitPos i = 18 ∨ digitPos i = 23) ∧
      ¬ (digitPos i + 1 = 8 ∨ digitPos i + 1 = 13 ∨ digitPos i + 1 = 18 ∨ digitPos i + 1 = 23) := by
    unfold digitPos
    split_ifs <;> omega
  obtain ⟨v, first⟩ := Option.isSome_iff_exists.mp (digit_of_valid valid (show digitPos i < 36 by omega) place.2.1)
  obtain ⟨w, second⟩ := Option.isSome_iff_exists.mp (digit_of_valid valid place.1 place.2.2)
  have value : hexNumber (digitPair uuid i) = v * 16 + w := by
    simp only [hexNumber, digitPair, List.foldl_cons, List.foldl_nil, first, second, Option.getD_some]
    omega
  have high := digitValue_lt first
  have low := digitValue_lt second
  refine ⟨_, _, v, w, rfl, first, second, ?_⟩
  rw [value, UInt8.toNat_ofNat', Nat.mod_eq_of_lt (by omega), hexText2_eq (by omega), show (v * 16 + w) / 16 = v by omega,
    show (v * 16 + w) % 16 = w by omega]

end Valid

def LowerCase (uuid : CStr) : Prop := ∀ c ∈ uuid, ¬ (65 ≤ c ∧ c ≤ 70)

/-- The bytes of each of the first three fields read the same in both directions. -/
def Mirrored (uuid : CStr) : Prop :=
  digitPair uuid 0 = digitPair uuid 3 ∧ digitPair uuid 1 = digitPair uuid 2 ∧ digitPair uuid 4 = digitPair uuid 5 ∧
    digitPair uuid 6 = digitPair uuid 7

theorem flatMap_inj_of_length {l : List Nat} {f g : Nat → CStr} (length : ∀ i ∈ l, (f i).length = (g i).length) :
    l.flatMap f = l.flatMap g ↔ ∀ i ∈ l, f i = g i := by
  induction l with
  | nil => simp
  | cons i rest ih =>
    have tail := ih (fun j member => length j (List.mem_cons_of_mem _ member))
    rw [List.flatMap_cons, List.flatMap_cons, List.forall_mem_cons, ← tail]
    constructor
    · intro same
      exact List.append_inj same (length i (List.mem_cons_self ..))
    · rintro ⟨head, rest⟩
      rw [head, rest]

/-- Written in the standard format and printed in the other one, a text stays as it is exactly if it is
written in lower case and its first three fields are mirrored. -/
theorem uuidBinToStr_guid_iff {uuid : CStr} {bin : Buf} (valid : uuidStrValid uuid = true)
    (bytes : ∀ i < 16, bin i = UInt8.ofNat (hexNumber (digitPair uuid i))) :
    uuidBinToStr bin .guid = uuid ↔ LowerCase uuid ∧ Mirrored uuid := by
  have order : ∀ i ∈ List.range 16, charOrder .guid i < 16 := by decide
  have printed (i : Nat) (below : i < 16) : hexText2 (bin i).toNat = digitPair uuid i ↔
      ∀ c ∈ digitPair uuid i, ¬ (65 ≤ c ∧ c ≤ 70) := by
    obtain ⟨a, b, v, w, pair, first, second, text⟩ := hexText2_digitPair valid below
    rw [bytes i below, text, pair]
    simp only [List.cons.injEq, and_true, hexDigit_digitValue first, hexDigit_digitValue second, List.forall_mem_cons,
      List.not_mem_nil, false_imp_iff, implies_true]
  have lower (i : Nat) (below : i < 16) : ∀ c ∈ hexText2 (bin i).toNat, ¬ (65 ≤ c ∧ c ≤ 70) := by
    obtain ⟨a, b, v, w, -, first, second, text⟩ := hexText2_digitPair valid below
    have digit : ∀ v < 16, ¬ (65 ≤ hexDigit v ∧ hexDigit v ≤ 70) := by decide
    rw [bytes i below, text]
    simp only [List.forall_mem_cons, List.not_mem_nil, false_imp_iff, implies_true, and_true]
    exact ⟨digit v (digitValue_lt first), digit w (digitValue_lt second)⟩
  have pieces : uuidBinToStr bin .guid = (List.range 16).flatMap (fun i => digitPair uuid i ++ separator i) ↔
      ∀ i ∈ List.range 16, hexText2 (bin (charOrder .guid i)).toNat = digitPair uuid i := by
    rw [uuidBinToStr, flatMap_inj_of_length]
    · exact forall₂_congr (fun i _ => List.append_left_inj _)
    · intro i member
      obtain ⟨a, b, v, w, -, -, -, text⟩ := hexText2_digitPair valid (order i member)
      rw [bytes _ (order i member), text]
      rfl
  have inText {i : Nat} (below : i < 16) {c : UInt8} (member : c ∈ digitPair uuid i) : c ∈ uuid := by
    rw [eq_flatMap_digitPair valid]
    exact List.mem_flatMap.mpr ⟨i, List.mem_range.mpr below, List.mem_append_left _ member⟩
  rw [← eq_flatMap_digitPair valid] at pieces
  rw [pieces]
  constructor
  · intro same
    have small : ∀ i < 16, ∀ c ∈ digitPair uuid i, ¬ (65 ≤ c ∧ c ≤ 70) := by
      intro i below c member
      rw [← same i (List.mem_range.mpr below)] at member
      exact lower _ (order i (List.mem_range.mpr below)) c member
    have swapped (i : Nat) (below : i < 16) : digitPair uuid i = digitPair uuid (charOrder .guid i) := by
      have inside := order i (List.mem_range.mpr below)
      rw [← same i (List.mem_range.mpr below)]
      exact (printed _ inside).mpr (small _ inside)
    refine ⟨?_, swapped 0 (by decide), swapped 1 (by decide), swapped 4 (by decide), swapped 6 (by decide)⟩
    intro c member
    rw [eq_flatMap_digitPair valid] at member
    obtain ⟨i, inRange, place⟩ := List.mem_flatMap.mp member
    rcases List.mem_append.mp place with digit | separating
    · exact small i (List.mem_range.mp inRange) c digit
    · unfold separator at separating
      split at separating
      · rw [List.mem_singleton.mp separating]
        decide
      · cases separating
  · rintro ⟨lowerCase, first, second, third, fourth⟩ i member
    have swapped : digitPair uuid (charOrder .guid i) = digitPair uuid i := by
      have below := List.mem_range.mp member
      interval_cases i
      exacts [first.symm, second.symm, second, first, third.symm, third, fourth.symm, fourth, rfl, rfl, rfl, rfl, rfl,
        rfl, rfl, rfl]
    rw [← swapped]
    exact (printed _ (order i member)).mpr (fun c inPair => lowerCase c (inText (order i member) inPair))

/-- Any sixteen bytes come back when they are printed and read in the standard format. -/
theorem uuidStrToBin_uuidBinToStr (bin : Buf) :
    ∃ bin', uuidStrToBin (uuidBinToStr bin .std) .std = some bin' ∧ ∀ i < 16, bin' i = bin i := by
  have pairs (i : Nat) : hexText2 (bin i).toNat = [hexDigit ((bin i).toNat / 16), hexDigit ((bin i).toNat % 16)] :=
    hexText2_eq (bin i).toNat_lt
  have text : uuidBinToStr bin .std = (List.range 16).flatMap (fun i =>
      [hexDigit ((bin i).toNat / 16), hexDigit ((bin i).toNat % 16)] ++ separator i) :=
    List.flatMap_congr (fun i _ => by rw [← pairs]; rfl)
  have high (b : UInt8) : b.toNat / 16 < 16 := Nat.div_lt_of_lt_mul b.toNat_lt
  have valid : uuidStrValid (uuidBinToStr bin .std) = true := by
    rw [text]
    simp [uuidStrValid, List.range, List.range.loop, separator, cstr, digitValue_hexDigit, high, Nat.mod_lt]
  obtain ⟨bin', run, bytes⟩ := uuidStrToBin_std valid
  refine ⟨bin', run, fun i below => ?_⟩
  have pair : digitPair (uuidBinToStr bin .std) i = hexText2 (bin i).toNat := by
    rw [text, pairs]
    interval_cases i <;> rfl
  rw [bytes i below, pair, pairs]
  simp [hexNumber, digitValue_hexDigit, high, Nat.mod_lt, Nat.div_add_mod']

end UuuFastboot.Uuid
