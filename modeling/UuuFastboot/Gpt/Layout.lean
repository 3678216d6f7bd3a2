import UuuFastboot.Gpt.Written

namespace UuuFastboot.Gpt

open Word Overlay Bytes Crc32 CString Uuid

variable {lastUsable offset : Nat} {parts : List PartSpec}

theorem takeWhile_map_range {α : Type*} {f : Nat → α} {q : α → Bool} {len n : Nat} (front : ∀ i < len, q (f i) = true)
    (stop : q (f len) = false) (room : len < n) : ((List.range n).map f).takeWhile q = (List.range len).map f := by
  obtain ⟨rest, rfl⟩ : ∃ m, n = len + (m + 1) := ⟨n - len - 1, by omega⟩
  rw [List.range_add, List.map_append, List.takeWhile_append_of_pos, List.range_succ_eq_map, List.map_cons, List.map_cons,
    Nat.add_zero, List.takeWhile_cons_of_neg (by rw [stop]; decide), List.append_nil]
  intro a member
  obtain ⟨i, inRange, rfl⟩ := List.mem_map.mp member
  exact front i (List.mem_range.mp inRange)

section Entry

variable {pte uuid : Buf} {starting ending : Nat} {p : PartSpec}
  (same : ∀ i < 128, pte i = fillPte starting ending uuid p i)
include same

theorem startingLba_of_fill (small : starting < 2 ^ 32) : startingLba pte = starting :=
  getLe64_of_bytes (by omega) (fun i below => by
    rw [same _ (by omega), fillPte, if_neg (by omega), if_neg (by omega), if_pos (by omega), Nat.add_sub_cancel_left])

theorem endingLba_of_fill (small : ending < 2 ^ 32) : endingLba pte = ending :=
  getLe64_of_bytes (by omega) (fun i below => by
    rw [same _ (by omega), fillPte, if_neg (by omega), if_neg (by omega), if_neg (by omega), if_pos (by omega),
      Nat.add_sub_cancel_left])

theorem isPteValid_of_fill : isPteValid pte = true := by
  refine List.any_eq_true.mpr ⟨0, by decide, ?_⟩
  rw [same 0 (by decide)]
  rfl

theorem isBootable_of_fill : isBootable pte = p.bootable := by
  have type : (List.range 16).map pte = basicDataGuid := by
    rw [show basicDataGuid = (List.range 16).map (fun i => basicDataGuid.getD i 0) from rfl]
    refine List.map_congr_left (fun i member => ?_)
    have below := List.mem_range.mp member
    rw [same i (by omega), fillPte, if_pos below]
  have attributes : pte 48 = if p.bootable then 4 else 0 := by
    rw [same 48 (by decide), fillPte]
    simp
  rw [isBootable, type, attributes, show (basicDataGuid == systemGuid) = false from rfl, Bool.or_false]
  cases p.bootable <;> rfl

theorem uuid_of_fill : uuidBinToStr (tail pte 16) .guid = uuidBinToStr uuid .guid := by
  unfold uuidBinToStr
  rw [List.flatMap_congr]
  intro i member
  have order : ∀ i ∈ List.range 16, charOrder .guid i < 16 := by decide
  have below := order i member
  rw [tail_apply, same _ (by omega), fillPte, if_neg (by omega), if_pos (by omega), Nat.add_sub_cancel_left]

theorem name_of_fill {i : Nat} (below : i < 32) : pte (56 + 2 * i) = p.name i := by
  rw [same _ (by omega), fillPte, if_neg (by omega), if_neg (by omega), if_neg (by omega), if_neg (by omega),
    if_neg (by omega), if_pos (by omega)]
  congr 1
  omega

theorem efiNameToChar_of_fill : (efiNameToChar pte).take 32 = p.text := by
  obtain ⟨len, -, short, ends, chars⟩ := p.name_ends
  have name : efiNameToChar pte = (List.range len).map (fun i => p.name (0 + i)) := by
    rw [efiNameToChar, textAt_eq_map (by rw [Nat.zero_add, name_of_fill same (by omega)]; exact ends)
      (fun i below => by rw [Nat.zero_add, name_of_fill same (by omega)]; exact chars i below)
      (show len < 37 by omega)]
    refine List.map_congr_left (fun i member => ?_)
    have below := List.mem_range.mp member
    simp only [Nat.zero_add]
    exact name_of_fill same (by omega)
  rw [name, PartSpec.text, textAt_eq_map (by rw [Nat.zero_add]; exact ends)
    (fun i below => by rw [Nat.zero_add]; exact chars i below) (show len < 32 by omega)]
  exact List.take_of_length_le (by simp only [List.length_map, List.length_range]; omega)

/-- The name comes back as it is exactly if each of its characters is printed as it is. -/
theorem nameText_of_fill_iff : nameText pte = p.text ↔ ∀ c ∈ p.text, isprint c = true := by
  obtain ⟨len, -, short, ends, chars⟩ := p.name_ends
  have text : p.text = (List.range len).map p.name := by
    rw [PartSpec.text, textAt_eq_map (by rw [Nat.zero_add]; exact ends)
      (fun i below => by rw [Nat.zero_add]; exact chars i below) (show len < 32 by omega)]
    simp only [Nat.zero_add]
  have byte (i : Nat) (below : i < 32) : (if pte (56 + 2 * i) ≠ 0 ∧ !isprint (pte (56 + 2 * i)) then 46
      else pte (56 + 2 * i)) = if p.name i ≠ 0 ∧ !isprint (p.name i) then 46 else p.name i := by
    rw [name_of_fill same below]
  have printed : nameText pte = (List.range len).map (fun i => if isprint (p.name i) then p.name i else 46) := by
    have front (i : Nat) (below : i < len) : decide ((if pte (56 + 2 * i) ≠ 0 ∧ !isprint (pte (56 + 2 * i)) then 46
        else pte (56 + 2 * i)) ≠ 0) = true := by
      rw [byte i (by omega)]
      split
      · rfl
      · exact decide_eq_true (chars i below)
    have stop : decide ((if pte (56 + 2 * len) ≠ 0 ∧ !isprint (pte (56 + 2 * len)) then 46
        else pte (56 + 2 * len)) ≠ 0) = false := by
      rw [byte len (by omega), ends]
      rfl
    rw [nameText, printEfiname, takeWhile_map_range front stop (show len < 36 by omega)]
    refine List.map_congr_left (fun i member => ?_)
    have below := List.mem_range.mp member
    rw [byte i (by omega)]
    cases isprint (p.name i) <;> simp [chars i below]
  rw [printed, text, List.map_inj_left]
  simp only [List.forall_mem_map, List.mem_range]
  refine forall₂_congr (fun i _ => ?_)
  split
  · next shown => exact iff_of_true rfl shown
  · next hidden =>
    refine iff_of_false (fun dot => hidden ?_) hidden
    rw [← dot]
    rfl

end Entry

def spans (lastUsable : Nat) : Nat → List PartSpec → List (Nat × Nat)
  | _, [] => []
  | offset, p :: rest =>
    (p.startFrom offset, if rest.isEmpty ∧ p.size = 0 then lastUsable
      else w32 (w32 (p.startFrom offset + p.size) + (2 ^ 32 - 1))) ::
      spans lastUsable (w32 (p.startFrom offset + p.size)) rest

def Checked (lastUsable : Nat) : Nat → List PartSpec → Prop
  | _, [] => True
  | offset, p :: rest => offset ≤ p.startFrom offset ∧ w32 (p.startFrom offset + p.size) ≤ w32 (lastUsable + 1) ∧
    uuidStrValid p.uuid = true ∧ Checked lastUsable (w32 (p.startFrom offset + p.size)) rest

def entryOf (p : PartSpec) (span : Nat × Nat) : Buf :=
  fillPte span.1 span.2 ((uuidStrToBin p.uuid .std).getD zeros) p

theorem Filled.cons_eq_ok {pte : Buf} {f : Filled} {entries : List Buf} (ok : f.cons pte = .ok entries) :
    ∃ rest, f = .ok rest ∧ entries = pte :: rest := by
  cases f with
  | overrun => cases ok
  | error => cases ok
  | ok rest =>
    cases ok
    exact ⟨rest, rfl, rfl⟩

theorem Filled.cons_eq_overrun {pte : Buf} {f : Filled} (overrun : f.cons pte = .overrun) : f = .overrun := by
  cases f with
  | overrun => rfl
  | error => cases overrun
  | ok rest => cases overrun

theorem gptFillPte_eq_ok {i : Nat} {entries : List Buf} (bound : i ≤ 128)
    (ok : gptFillPte lastUsable i offset parts = .ok entries) :
    i + parts.length ≤ 128 ∧ Checked lastUsable offset parts ∧
      entries = List.zipWith entryOf parts (spans lastUsable offset parts) := by
  induction parts generalizing i offset entries with
  | nil =>
    cases ok
    exact ⟨bound, trivial, rfl⟩
  | cons p rest ih =>
    rw [gptFillPte] at ok
    split at ok
    · cases ok
    next behind =>
    split at ok
    · cases ok
    next room =>
    simp only at ok
    split at ok
    · cases ok
    next inside =>
    cases bin : uuidStrToBin p.uuid .std with
    | none =>
      rw [bin] at ok
      cases ok
    | some uuid =>
      rw [bin] at ok
      obtain ⟨tail, filled, rfl⟩ := Filled.cons_eq_ok ok
      obtain ⟨length, checked, rfl⟩ := ih (by omega) filled
      have valid : uuidStrValid p.uuid = true := by
        by_contra invalid
        rw [uuidStrToBin, if_neg invalid] at bin
        cases bin
      have order : offset ≤ p.startFrom offset := by
        unfold PartSpec.startFrom
        split
        · next given => exact Nat.le_of_not_lt (fun early => behind ⟨given, early⟩)
        · exact le_rfl
      refine ⟨by rw [List.length_cons]; omega, ⟨order, by omega, valid, checked⟩, ?_⟩
      rw [spans, List.zipWith_cons_cons, entryOf, bin, Option.getD_some]

theorem gptFillPte_ne_overrun {i : Nat} (room : i + parts.length ≤ 128) :
    gptFillPte lastUsable i offset parts ≠ .overrun := by
  induction parts generalizing i offset with
  | nil => exact fun overrun => nomatch overrun
  | cons p rest ih =>
    rw [List.length_cons] at room
    intro overrun
    rw [gptFillPte, if_neg (show ¬ 128 ≤ i by omega)] at overrun
    split at overrun
    · cases overrun
    simp only at overrun
    split at overrun
    · cases overrun
    split at overrun
    · cases overrun
    · exact ih (by omega) (Filled.cons_eq_overrun overrun)

theorem layoutFits_iff (lastUsable : Nat) :
    LayoutFits offset parts ↔ ∀ (k : Nat) (p : PartSpec) (span : Nat × Nat), parts[k]? = some p → (spans lastUsable offset parts)[k]? = some span →
      span.1 + p.size < 2 ^ 32 := by
  induction parts generalizing offset with
  | nil => simp [LayoutFits]
  | cons p rest ih =>
    rw [LayoutFits, spans]
    constructor
    · rintro ⟨fits, tail⟩ k q span atK spanK
      cases k with
      | zero =>
        cases atK
        cases spanK
        exact fits
      | succ k =>
        rw [w32_of_lt fits] at spanK
        exact ih.mp tail k q span atK spanK
    · intro all
      have fits := all 0 p _ rfl rfl
      rw [w32_of_lt fits] at all
      exact ⟨fits, ih.mpr (fun k q span atK spanK => all (k + 1) q span atK spanK)⟩

theorem spans_length (lastUsable offset : Nat) (parts : List PartSpec) :
    (spans lastUsable offset parts).length = parts.length := by
  induction parts generalizing offset with
  | nil => rfl
  | cons p rest ih => rw [spans, List.length_cons, List.length_cons, ih]

structure Placed (lastUsable offset : Nat) (p : PartSpec) (isLast : Prop) (span : Nat × Nat) : Prop where
  behind : offset ≤ span.1
  given : p.start ≠ 0 → span.1 = p.start
  inside : span.1 ≤ lastUsable + 1 ∧ span.2 ≤ lastUsable
  extended : isLast → p.size = 0 → span.2 = lastUsable
  sized : ¬ (isLast ∧ p.size = 0) → span.2 + 1 = span.1 + p.size

theorem spans_placed (word : lastUsable + 1 < 2 ^ 32)
    (positive : 0 < offset) (checked : Checked lastUsable offset parts) (fits : LayoutFits offset parts) :
    (∀ (k : Nat) (p : PartSpec) (span : Nat × Nat), parts[k]? = some p →
      (spans lastUsable offset parts)[k]? = some span → Placed lastUsable offset p (k + 1 = parts.length) span) ∧
    ∀ j k : Nat, j < k → ∀ first second : Nat × Nat, (spans lastUsable offset parts)[j]? = some first →
      (spans lastUsable offset parts)[k]? = some second → first.2 < second.1 := by
  induction parts generalizing offset with
  | nil => simp [spans]
  | cons p rest ih =>
    obtain ⟨behind, inside, -, checkedRest⟩ := checked
    obtain ⟨small, fitsRest⟩ := fits
    rw [w32_of_lt small] at inside checkedRest
    rw [w32_of_lt word] at inside
    obtain ⟨placed, ordered⟩ := ih (by omega) checkedRest fitsRest
    have minus : w32 (p.startFrom offset + p.size + (2 ^ 32 - 1)) + 1 = p.startFrom offset + p.size := by
      unfold w32
      omega
    have lastIff : rest.isEmpty = true ↔ 0 + 1 = (p :: rest).length := by
      cases rest <;> simp
    simp only [spans, w32_of_lt small]
    have head : Placed lastUsable offset p (0 + 1 = (p :: rest).length) (p.startFrom offset,
        if rest.isEmpty ∧ p.size = 0 then lastUsable else w32 (p.startFrom offset + p.size + (2 ^ 32 - 1))) := by
      refine ⟨behind, fun given => if_pos given, ⟨by dsimp only; omega, ?_⟩, fun isLast none => ?_, fun sized => ?_⟩
      · dsimp only
        split
        · exact le_rfl
        · omega
      · exact if_pos ⟨lastIff.mpr isLast, none⟩
      · rw [← lastIff] at sized
        dsimp only
        rw [if_neg sized]
        exact minus
    constructor
    · intro k q span atK spanK
      cases k with
      | zero =>
        cases atK
        cases spanK
        exact head
      | succ k =>
        obtain ⟨behind', given, bounds, extended, sized⟩ := placed k q span atK spanK
        refine ⟨by omega, given, bounds, fun isLast => extended ?_, fun other => sized (fun both => other ⟨?_, both.2⟩)⟩
        · rw [List.length_cons] at isLast
          omega
        · rw [List.length_cons]
          omega
    · intro j k before first second atJ atK
      obtain ⟨k, rfl⟩ : ∃ n, k = n + 1 := ⟨k - 1, by omega⟩
      cases j with
      | zero =>
        cases atJ
        obtain ⟨q, atQ⟩ : ∃ q, rest[k]? = some q := by
          have length := spans_length lastUsable (p.startFrom offset + p.size) rest
          have below := (List.getElem?_eq_some_iff.mp atK).1
          rw [List.length_cons, length] at below
          exact ⟨_, List.getElem?_eq_getElem (show k < rest.length by omega)⟩
        have later := (placed k q second atQ atK).behind
        have nonempty : ¬ rest.isEmpty = true := by
          rintro empty
          rw [List.isEmpty_iff.mp empty] at atQ
          cases atQ
        dsimp only
        rw [if_neg (fun both => nonempty both.1)]
        omega
      | succ j => exact ordered j k (by omega) first second atJ atK

end UuuFastboot.Gpt
