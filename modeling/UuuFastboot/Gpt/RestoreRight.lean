import UuuFastboot.Gpt.Layout

namespace UuuFastboot.Gpt

open Word Overlay Bytes Crc32 CString Uuid

/-- What `gpt_verify_partitions` wants of an entry. -/
def Verified (pte : Buf) (p : PartSpec) (isLast : Prop) : Prop :=
  (efiNameToChar pte).take 32 = p.text ∧
    (((endingLba pte + (2 ^ 64 - startingLba pte) + 1) % 2 ^ 64 = p.size ∧ (p.start ≠ 0 → startingLba pte = p.start)) ∨
      ((endingLba pte + (2 ^ 64 - startingLba pte) + 1) % 2 ^ 64 ≠ p.size ∧ isLast ∧ p.size = 0))

variable {parts : List PartSpec} {d : EfiDev} {lastUsable offset k blk : Nat} {p : PartSpec} {span : Nat × Nat}
  {pte : Buf}

theorem verifyLoop_iff {num i : Nat} {e : Buf} :
    verifyLoop num e i parts = true ↔ ∀ (k : Nat) (p : PartSpec), parts[k]? = some p →
      i + k ≠ num ∧ Verified (tail e ((i + k) * 128)) p (k + 1 = parts.length) := by
  induction parts generalizing i with
  | nil => simp [verifyLoop]
  | cons p rest ih =>
    have lastIff : rest.isEmpty = true ↔ 0 + 1 = (p :: rest).length := by
      cases rest <;> simp
    have split_ : (∀ (k : Nat) (q : PartSpec), (p :: rest)[k]? = some q →
          i + k ≠ num ∧ Verified (tail e ((i + k) * 128)) q (k + 1 = (p :: rest).length)) ↔
        (i ≠ num ∧ Verified (tail e (i * 128)) p (rest.isEmpty = true)) ∧
          verifyLoop num e (i + 1) rest = true := by
      rw [ih]
      constructor
      · intro all
        refine ⟨?_, fun k q atK => ?_⟩
        · have head := all 0 p rfl
          rwa [Nat.add_zero, ← lastIff] at head
        · have later := all (k + 1) q atK
          rwa [show i + (k + 1) = i + 1 + k by omega, List.length_cons, Nat.add_right_cancel_iff] at later
      · rintro ⟨head, tail⟩ k q atK
        cases k with
        | zero =>
          cases atK
          rwa [Nat.add_zero, ← lastIff]
        | succ k =>
          rw [show i + (k + 1) = i + 1 + k by omega, List.length_cons, Nat.add_right_cancel_iff]
          exact tail k q atK
    rw [split_, verifyLoop]
    simp only [Verified]
    by_cases full : i = num
    · simp [full]
    by_cases name : (efiNameToChar (tail e (i * 128))).take 32 = p.text
    swap
    · simp [full, name]
    simp only [full, name, if_false, ne_eq, not_true_eq_false, not_false_eq_true, true_and]
    by_cases size : (endingLba (tail e (i * 128)) + (2 ^ 64 - startingLba (tail e (i * 128))) + 1) % 2 ^ 64 = p.size
    · simp only [size, not_true_eq_false, if_false, true_and, false_and, or_false]
      by_cases start : ¬ p.start = 0 ∧ ¬ startingLba (tail e (i * 128)) = p.start
      · rw [if_pos start]
        exact iff_of_false (by decide) (fun all => start.2 (all.1 start.1))
      · rw [if_neg start]
        exact ⟨fun rest => ⟨fun given => by_contra (fun other => start ⟨given, other⟩), rest⟩, fun all => all.2⟩
    · simp only [size, not_false_eq_true, if_true, false_and, true_and, false_or]
      split
      · next extended => exact ⟨fun rest => ⟨extended, rest⟩, fun all => all.2⟩
      · next other => exact iff_of_false (by decide) (fun all => other all.1)

theorem gptRestore_eq_ok {guid : CStr} {disk' : Buf}
    (run : gptRestore d.lba d.disk guid parts = .ok disk') :
    ∃ h, gptFillHeader d.lba guid = some h ∧ 34 ≤ d.lba ∧ parts.length ≤ 128 ∧ Checked (d.lba - 34) 34 parts ∧
      writeGptTable d.lba d.disk h
        (entryArray (List.zipWith entryOf parts (spans (d.lba - 34) 34 parts))) = some disk' := by
  unfold gptRestore at run
  split at run
  · cases run
  next h filled =>
  split at run
  · cases run
  · cases run
  next entries ok =>
  split at run
  · cases run
  next disk written =>
  cases run
  obtain ⟨bin, -, header⟩ := Option.map_eq_some_iff.mp filled
  obtain ⟨room, last, -⟩ := writeGptTable_filled filled written
  rw [last, show h.firstUsableLba = 34 by rw [← header]] at ok
  obtain ⟨length, checked, rfl⟩ := gptFillPte_eq_ok (by decide) ok
  exact ⟨h, filled, room, by omega, checked, written⟩

theorem entryArray_eq {i : Nat}
    (atK : parts[k]? = some p) (spanK : (spans lastUsable offset parts)[k]? = some span) (below : i < 128) :
    entryArray (List.zipWith entryOf parts (spans lastUsable offset parts)) (128 * k + i) = entryOf p span i := by
  rw [entryArray, show (128 * k + i) / 128 = k by omega, show (128 * k + i) % 128 = i by omega,
    List.getD_eq_getElem?_getD, List.getElem?_zipWith, atK, spanK]
  rfl

theorem exists_span (atK : parts[k]? = some p) :
    ∃ span : Nat × Nat, (spans lastUsable offset parts)[k]? = some span := by
  have below := (List.getElem?_eq_some_iff.mp atK).1
  rw [← spans_length lastUsable offset parts] at below
  exact ⟨_, List.getElem?_eq_getElem below⟩

theorem entryOf_eq {bin : Buf} (bytes : uuidStrToBin p.uuid .std = some bin) :
    entryOf p span = fillPte span.1 span.2 bin p := by
  rw [entryOf, bytes, Option.getD_some]

theorem Checked.valid
    (checked : Checked lastUsable offset parts) (atK : parts[k]? = some p) : uuidStrValid p.uuid = true := by
  induction parts generalizing offset k with
  | nil => cases atK
  | cons q rest ih =>
    cases k with
    | zero =>
      cases atK
      exact checked.2.2.1
    | succ k => exact ih checked.2.2.2 atK

theorem PartSpec.startFrom_lt (p : PartSpec) (small : offset < 2 ^ 32) : p.startFrom offset < 2 ^ 32 := by
  unfold PartSpec.startFrom
  split
  · exact p.start_lt
  · exact small

theorem spans_lt (word : lastUsable < 2 ^ 32)
    (small : offset < 2 ^ 32) (spanK : (spans lastUsable offset parts)[k]? = some span) :
    span.1 < 2 ^ 32 ∧ span.2 < 2 ^ 32 := by
  induction parts generalizing offset k with
  | nil => cases spanK
  | cons p rest ih =>
    cases k with
    | zero =>
      cases spanK
      refine ⟨p.startFrom_lt small, ?_⟩
      dsimp only
      split
      · exact word
      · exact w32_lt _
    | succ k => exact ih (w32_lt _) spanK

theorem EfiDev.HasTable.entry_eq {h : GptHeader}
        (table : d.HasTable blk h (entryArray (List.zipWith entryOf parts (spans lastUsable 34 parts))))
    (count : parts.length ≤ 128) (atK : parts[k]? = some p) (spanK : (spans lastUsable 34 parts)[k]? = some span) :
    ∀ i < 128, d.pte (d.header blk) (k + 1) i = entryOf p span i := by
  have below := (List.getElem?_eq_some_iff.mp atK).1
  intro i small
  rw [table.pte_eq (by omega) small, entryArray_eq atK spanK small]

theorem spans_ending
    (atK : parts[k]? = some p) (spanK : (spans lastUsable offset parts)[k]? = some span) (sized : p.size ≠ 0) :
    span.2 = w32 (w32 (span.1 + p.size) + (2 ^ 32 - 1)) := by
  induction parts generalizing offset k with
  | nil => cases atK
  | cons q rest ih =>
    cases k with
    | zero =>
      cases atK
      cases spanK
      exact if_neg (fun extended => sized extended.2)
    | succ k => exact ih atK spanK

theorem EfiDev.signature_of_valid (valid : d.isGptValid blk = true) :
    signature (d.header blk) = gptHeaderSignature := by
  have checked : validateGptHeader (d.header blk) blk d.lba = true :=
    validateGptHeader_of_isGptValid rfl (Bool.and_eq_true_iff.mp valid).1
  simp only [validateGptHeader, Bool.and_eq_true, beq_iff_eq] at checked
  exact checked.1.1.1.1

theorem lastBlock_eq (room : 34 ≤ d.lba) : d.lastBlock = d.lba - 1 := by
  have small := d.lba_lt
  unfold EfiDev.lastBlock w32
  omega

theorem verified_of_placed {isLast : Prop}
    (same : ∀ i < 128, pte i = entryOf p span i) (small : span.1 < 2 ^ 32 ∧ span.2 < 2 ^ 32)
    (placed : Placed lastUsable offset p isLast span) : Verified pte p isLast := by
  have size := p.size_lt
  refine ⟨efiNameToChar_of_fill same, ?_⟩
  rw [startingLba_of_fill same small.1, endingLba_of_fill same small.2]
  by_cases extended : isLast ∧ p.size = 0
  · by_cases none : (span.2 + (2 ^ 64 - span.1) + 1) % 2 ^ 64 = p.size
    · exact Or.inl ⟨none, placed.given⟩
    · exact Or.inr ⟨none, extended⟩
  · have sized := placed.sized extended
    exact Or.inl ⟨by omega, placed.given⟩

theorem entryInfo_of_placed {isLast : Prop} [Decidable isLast]
    (same : ∀ i < 128, pte i = entryOf p span i)
    (small : span.1 < 2 ^ 32 ∧ span.2 < 2 ^ 32) (word : lastUsable + 1 < 2 ^ 32)
    (placed : Placed lastUsable offset p isLast span) :
    (p.start ≠ 0 → (entryInfo pte).start = p.start) ∧
      (if isLast ∧ p.size = 0 then (entryInfo pte).start + (entryInfo pte).size = lastUsable + 1
        else (entryInfo pte).size = p.size) := by
  have size := p.size_lt
  obtain ⟨upper, -⟩ := placed.inside
  simp only [entryInfo, startingLba_of_fill same small.1, endingLba_of_fill same small.2, w32_of_lt small.1,
    w32_of_lt small.2]
  refine ⟨placed.given, ?_⟩
  split
  · next extended =>
    have last := placed.extended extended.1 extended.2
    unfold w32
    omega
  · next other =>
    have sized := placed.sized other
    unfold w32
    omega

theorem texts_iff (same : ∀ i < 128, pte i = entryOf p span i)
    (valid : uuidStrValid p.uuid = true) :
    (entryInfo pte).name = p.text ∧ (entryInfo pte).uuid = p.uuid ↔ p.Plain := by
  obtain ⟨bin, converted, bytes⟩ := uuidStrToBin_std valid
  rw [entryOf_eq converted] at same
  have uuid : (entryInfo pte).uuid = p.uuid ↔ LowerCase p.uuid ∧ Mirrored p.uuid := by
    rw [entryInfo, uuid_of_fill same]
    exact uuidBinToStr_guid_iff valid bytes
  rw [uuid]
  exact ⟨fun all => ⟨(nameText_of_fill_iff same).mp all.1, all.2.1, all.2.2⟩,
    fun plain => ⟨(nameText_of_fill_iff same).mpr plain.name, plain.lower, plain.mirrored⟩⟩

theorem EfiDev.HasTable.disjoint {lba : Nat} {h : GptHeader}
    (table : d.HasTable blk h (entryArray (List.zipWith entryOf parts (spans (lba - 34) 34 parts))))
    (count : parts.length ≤ 128) (first : h.firstUsableLba = 34) (last : h.lastUsableLba = lba - 34)
    (word : lba - 34 + 1 < 2 ^ 32) (checked : Checked (lba - 34) 34 parts) (fits : LayoutFits 34 parts) :
    d.Disjoint blk parts.length := by
  have entry (k : Nat) (below : k < parts.length) : ∃ p span, parts[k]? = some p ∧
      (spans (lba - 34) 34 parts)[k]? = some span ∧
      startingLba (d.pte (d.header blk) (k + 1)) = span.1 ∧ endingLba (d.pte (d.header blk) (k + 1)) = span.2 := by
    have atK := List.getElem?_eq_getElem below
    obtain ⟨span, spanK⟩ := exists_span atK
    have same := table.entry_eq count atK spanK
    have bounds := spans_lt (show lba - 34 < 2 ^ 32 by omega) (show 34 < 2 ^ 32 by decide) spanK
    exact ⟨_, span, atK, spanK, startingLba_of_fill same bounds.1, endingLba_of_fill same bounds.2⟩
  obtain ⟨placed, ordered⟩ := spans_placed word (by decide) checked fits
  constructor
  case inside =>
    intro k below _
    obtain ⟨p, span, atK, spanK, start, ends⟩ := entry k below
    have place := placed k p span atK spanK
    rw [start, ends, table.first_eq, table.last_eq, first, last]
    exact ⟨place.behind, place.inside.2⟩
  case ordered =>
    intro j k before below _ _
    obtain ⟨-, first, -, firstJ, -, ends⟩ := entry j (by omega)
    obtain ⟨-, second, -, secondK, start, -⟩ := entry k below
    rw [ends, start]
    exact ordered j k before first second firstJ secondK

section Restore

variable {d : EfiDev} {guid : CStr} {h : GptHeader} {parts : List PartSpec} {disk' : Buf}
  (memory : d.memalign 16384 = true) (filled : gptFillHeader d.lba guid = some h) (room : 34 ≤ d.lba)
  (count : parts.length ≤ 128) (checked : Checked (d.lba - 34) 34 parts)
  (written : writeGptTable d.lba d.disk h
    (entryArray (List.zipWith entryOf parts (spans (d.lba - 34) 34 parts))) = some disk')
include memory filled room count checked written

theorem holds_of_plain (apart : 67 ≤ d.lba ∨ 35 ≤ d.lba ∧ parts = []) (fits : LayoutFits 34 parts)
    (plain : ∀ p ∈ parts, p.Plain) : { d with disk := disk' }.Holds parts := by
  have small := d.lba_lt
  have backup := hasTable_backup filled written
  have primary := hasTable_primary filled written (apart.imp_right (fun ⟨low, empty⟩ => ⟨low, fun a => by
    rw [empty]
    rfl⟩))
  obtain ⟨-, last, -⟩ := writeGptTable_filled filled written
  obtain ⟨bin, -, header⟩ := Option.map_eq_some_iff.mp filled
  have first : h.firstUsableLba = 34 := by rw [← header]
  have valid := primary.valid memory
  have lastBlock := lastBlock_eq (d := { d with disk := disk' }) room
  obtain ⟨placed, ordered⟩ := spans_placed (show d.lba - 34 + 1 < 2 ^ 32 by omega) (by decide) checked fits
  have bounds {k : Nat} {span : Nat × Nat} (spanK : (spans (d.lba - 34) 34 parts)[k]? = some span) :
      span.1 < 2 ^ 32 ∧ span.2 < 2 ^ 32 :=
    spans_lt (show d.lba - 34 < 2 ^ 32 by omega) (show 34 < 2 ^ 32 by decide) spanK
  refine ⟨primary.disjoint count first last (by omega) checked fits, ?_, ?_, ?_⟩
  · rw [lastBlock]
    exact backup.disjoint count first last (by omega) checked fits
  · rw [EfiDev.gptVerifyPartitions, lastBlock, valid, backup.valid memory, Bool.true_and, Bool.true_and, backup.num_eq,
      verifyLoop_iff]
    intro k p atK
    have below := (List.getElem?_eq_some_iff.mp atK).1
    obtain ⟨span, spanK⟩ := exists_span atK
    rw [Nat.zero_add]
    exact ⟨by omega, verified_of_placed (backup.entry_eq count atK spanK) (bounds spanK) (placed k p span atK spanK)⟩
  · intro k p atK
    have below := (List.getElem?_eq_some_iff.mp atK).1
    obtain ⟨span, spanK⟩ := exists_span atK
    have same := primary.entry_eq count atK spanK
    obtain ⟨start, size⟩ := entryInfo_of_placed same (bounds spanK) (by omega) (placed k p span atK spanK)
    obtain ⟨name, uuid⟩ := (texts_iff same (checked.valid atK)).mpr (plain p (List.mem_of_getElem? atK))
    have lastUsable : lastUsableLba (({ d with disk := disk' } : EfiDev).header 1) = d.lba - 34 :=
      primary.last_eq.trans last
    refine ⟨_, (EfiDev.partGetInfoEfi_eq_some_iff (by omega)).mpr ⟨1, EfiDev.usedTable_eq_some_iff.mpr
      ⟨valid, Or.inl rfl⟩, by rw [primary.num_eq]; omega, isPteValid_of_fill same, rfl⟩, start, ?_, name,
      isBootable_of_fill same, uuid⟩
    rw [lastUsable]
    exact size

omit memory count checked in
theorem lba_of_valid (valid : ({ d with disk := disk' } : EfiDev).isGptValid 1 = true) : 35 ≤ d.lba := by
  by_contra tiny
  have signed := EfiDev.signature_of_valid valid
  have spoiled := header_spoiled filled written (by omega) 0 (by decide)
  have byte : (({ d with disk := disk' } : EfiDev).header 1 0).toNat = 0x45 := by
    have low : signature (({ d with disk := disk' } : EfiDev).header 1) % 256 =
        (({ d with disk := disk' } : EfiDev).header 1 0).toNat := by
      have lt := (({ d with disk := disk' } : EfiDev).header 1 0).toNat_lt
      unfold signature getLe64 getLe32 getLe16
      omega
    rw [← low, signed]
    rfl
  rw [show ({ d with disk := disk' } : EfiDev).header 1 0 = disk' (512 + 0) from rfl, spoiled] at byte
  cases parts with
  | nil => exact absurd (show (0 : Nat) = 0x45 from byte) (by decide)
  | cons p rest =>
    rw [show (0 : Nat) = 128 * 0 + 0 from rfl, entryArray_eq rfl rfl (by decide)] at byte
    exact absurd (show (0xa2 : Nat) = 0x45 from byte) (by decide)

omit memory in
theorem plain_of_holds (holds : { d with disk := disk' }.Holds parts) :
    35 ≤ d.lba ∧ LayoutFits 34 parts ∧ ∀ p ∈ parts, p.Plain := by
  have small := d.lba_lt
  have backup := hasTable_backup filled written
  have primaryTable := hasTable_primary filled written
  have wideOf := lba_of_valid filled room written
  obtain ⟨-, last, -⟩ := writeGptTable_filled filled written
  have lastBlock : ({ d with disk := disk' } : EfiDev).lastBlock = d.lba - 1 := lastBlock_eq room
  generalize ({ d with disk := disk' } : EfiDev) = d' at holds backup primaryTable wideOf lastBlock
  have verified := holds.verified
  rw [EfiDev.gptVerifyPartitions, Bool.and_eq_true, Bool.and_eq_true, lastBlock, verifyLoop_iff] at verified
  obtain ⟨⟨validPrimary, -⟩, entries⟩ := verified
  have wide := wideOf validPrimary
  -- A partition that wraps either has the wrong size or ends behind the usable blocks.
  have fits : LayoutFits 34 parts := by
    rw [layoutFits_iff (d.lba - 34)]
    intro k p span atK spanK
    have below := (List.getElem?_eq_some_iff.mp atK).1
    have sizeLt := p.size_lt
    have bounds := spans_lt (show d.lba - 34 < 2 ^ 32 by omega) (show 34 < 2 ^ 32 by decide) spanK
    have same := backup.entry_eq count atK spanK
    have start := startingLba_of_fill same bounds.1
    have ends := endingLba_of_fill same bounds.2
    by_contra wraps
    have ending := spans_ending atK spanK (by omega)
    have checkedEntry := (entries k p atK).2.2
    have inside := holds.backup.inside k below
    have lastUsable : lastUsableLba (d'.header (d.lba - 1)) = d.lba - 34 := backup.last_eq.trans last
    rw [lastBlock, lastUsable, start, ends] at inside
    rw [Nat.zero_add, show tail (d'.entries (d'.header (d.lba - 1))) (k * 128) = d'.pte (d'.header (d.lba - 1)) (k + 1)
      from rfl, start, ends] at checkedEntry
    unfold w32 at ending
    omega
  refine ⟨wide, fits, fun p member => ?_⟩
  obtain ⟨k, atK⟩ := List.mem_iff_getElem?.mp member
  have below := (List.getElem?_eq_some_iff.mp atK).1
  obtain ⟨span, spanK⟩ := exists_span atK
  obtain ⟨placed, -⟩ := spans_placed (show d.lba - 34 + 1 < 2 ^ 32 by omega) (by decide) checked fits
  have place := placed k p span atK spanK
  have behind := place.behind
  have inside := place.inside.1
  have primary := primaryTable (Or.inl (by omega))
  have same := primary.entry_eq count atK spanK
  obtain ⟨i, run, -, -, name, -, uuid⟩ := holds.info k p atK
  obtain ⟨blk, used, -, -, rfl⟩ := (EfiDev.partGetInfoEfi_eq_some_iff (by omega)).mp run
  obtain rfl := Option.some.inj (used.symm.trans (EfiDev.usedTable_eq_some_iff.mpr ⟨validPrimary, Or.inl rfl⟩))
  exact (texts_iff same (checked.valid atK)).mp ⟨name, uuid⟩

end Restore

/-- A list of partitions that `gpt_restore` accepts is written as it should be exactly if it has at most 128
entries on a device of at least 35 blocks, no partition ends behind block 2^32 - 1, and all text fields are
plain. -/
theorem restoreRight_iff (d : EfiDev) (guid : CStr) (parts : List PartSpec) (memory : d.memalign 16384 = true)
    (accepted : gptRestore d.lba d.disk guid parts ≠ .error) :
    d.RestoreRight guid parts ↔
      parts.length ≤ 128 ∧ 35 ≤ d.lba ∧ LayoutFits 34 parts ∧ ∀ p ∈ parts, p.Plain := by
  constructor
  · rintro ⟨defined, holds⟩
    cases run : gptRestore d.lba d.disk guid parts with
    | overrun => exact absurd run defined
    | error => exact absurd run accepted
    | ok disk' =>
      obtain ⟨h, filled, room, count, checked, written⟩ := gptRestore_eq_ok run
      exact ⟨count, plain_of_holds filled room count checked written (holds disk' run)⟩
  · rintro ⟨count, wide, fits, plain⟩
    constructor
    · intro overrun
      unfold gptRestore at overrun
      split at overrun
      · cases overrun
      split at overrun
      · next filled => exact gptFillPte_ne_overrun (by omega) filled
      · cases overrun
      · split at overrun
        · cases overrun
        · cases overrun
    · intro disk' run
      obtain ⟨h, filled, room, -, checked, written⟩ := gptRestore_eq_ok run
      refine holds_of_plain memory filled room count checked written ?_ fits plain
      cases parts with
      | nil => exact Or.inr ⟨wide, rfl⟩
      | cons p rest =>
        have small := d.lba_lt
        have place := (spans_placed (show d.lba - 34 + 1 < 2 ^ 32 by omega) (by decide) checked fits).1 0 p _ rfl rfl
        have behind := place.behind
        have inside := place.inside.1
        exact Or.inl (by omega)

def emptyDev : EfiDev where
  lba := 100
  disk := zeros
  behind := zeros
  heap := zeros
  memalign := fun _ => true
  lba_lt := by decide

def tenBlocks (uuid : CStr) : PartSpec where
  start := 0
  size := 10
  name := fun i => if i = 0 then 97 else 0
  bootable := true
  uuid := uuid
  start_lt := zero_lt_word
  size_lt := by decide
  name_ends := ⟨1, by decide, by decide, by decide, by decide⟩

def diskGuid : CStr := cstr "00000000-0000-0000-0000-000000000000"

def Restored.isError : Restored → Bool
  | .error => true
  | _ => false

theorem Restored.ne_error {r : Restored} (fine : r.isError = false) : r ≠ .error := by
  rintro rfl
  cases fine

theorem tenBlocks_right :
    gptRestore emptyDev.lba emptyDev.disk diskGuid [tenBlocks (cstr "12343412-1212-3434-0102-030405060708")] ≠ .error ∧
      emptyDev.RestoreRight diskGuid [tenBlocks (cstr "12343412-1212-3434-0102-030405060708")] := by
  have accepted : gptRestore emptyDev.lba emptyDev.disk diskGuid
      [tenBlocks (cstr "12343412-1212-3434-0102-030405060708")] ≠ .error := Restored.ne_error (by decide +kernel)
  refine ⟨accepted, (restoreRight_iff _ _ _ rfl accepted).mpr ⟨by decide, by decide, ⟨by decide, trivial⟩, ?_⟩⟩
  intro p member
  obtain rfl := List.mem_singleton.mp member
  exact ⟨by decide +kernel, by unfold LowerCase; decide +kernel, by unfold Mirrored; decide +kernel⟩

/-- The identifier of a partition comes back with the bytes of its first three fields reversed. -/
theorem tenBlocks_swapped :
    gptRestore emptyDev.lba emptyDev.disk diskGuid [tenBlocks (cstr "12345678-1212-3434-0102-030405060708")] ≠ .error ∧
      ¬ emptyDev.RestoreRight diskGuid [tenBlocks (cstr "12345678-1212-3434-0102-030405060708")] := by
  have accepted : gptRestore emptyDev.lba emptyDev.disk diskGuid
      [tenBlocks (cstr "12345678-1212-3434-0102-030405060708")] ≠ .error := Restored.ne_error (by decide +kernel)
  refine ⟨accepted, fun right => ?_⟩
  cases run : gptRestore emptyDev.lba emptyDev.disk diskGuid [tenBlocks (cstr "12345678-1212-3434-0102-030405060708")] with
  | overrun => exact right.defined run
  | error => exact accepted run
  | ok disk' =>
    obtain ⟨h, filled, room, count, checked, written⟩ := gptRestore_eq_ok run
    obtain ⟨-, -, plain⟩ := plain_of_holds filled room count checked written (right.holds disk' run)
    have mirrored := (plain _ (List.mem_singleton_self _)).mirrored
    unfold Mirrored at mirrored
    exact absurd mirrored (by decide +kernel)

end UuuFastboot.Gpt
