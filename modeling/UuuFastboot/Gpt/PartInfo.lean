import UuuFastboot.Gpt.Table
import UuuFastboot.Part.Uuid

namespace UuuFastboot.Gpt

open Word Overlay Bytes Crc32 CString Uuid

/-- A block device with blocks of 512 bytes, and the memory around the buffers of a call: `behind` is what
follows the header buffer, `heap` what follows the blocks of entries that were read. `memalign` is whether
there is memory for so many bytes. -/
structure EfiDev where
  lba : Nat
  disk : Nat → UInt8
  behind : Buf
  heap : Buf
  memalign : Nat → Bool
  lba_lt : lba < 2 ^ 32

def startingLba (pte : Buf) : Nat := getLe64 pte 32

def isprint (c : UInt8) : Bool := (32 ≤ c && c ≤ 126) || 160 ≤ c

/-- `print_efiname`: the low bytes of the characters. -/
def printEfiname (pte : Buf) : CStr :=
  (List.range 36).map (fun i => if pte (56 + 2 * i) ≠ 0 ∧ !isprint (pte (56 + 2 * i)) then 46 else pte (56 + 2 * i))

/-- What `sprintf` writes of it, up to the first byte that is 0. -/
def nameText (pte : Buf) : CStr := (printEfiname pte).takeWhile (· ≠ 0)

def systemGuid : List UInt8 :=
  [0x28, 0x73, 0x2a, 0xc1, 0x1f, 0xf8, 0xd2, 0x11, 0xba, 0x4b, 0x00, 0xa0, 0xc9, 0x3e, 0xc9, 0x3b]

def isBootable (pte : Buf) : Bool := pte 48 &&& 4 != 0 || (List.range 16).map pte == systemGuid

/-- What `part_get_info_efi` fills in. -/
structure PartitionInfo where
  start : Nat
  size : Nat
  blksz : Nat
  name : CStr
  type : CStr
  bootable : Bool
  uuid : CStr
deriving DecidableEq

/-- The fields as they are computed from an entry, in `lbaint_t`. -/
def entryInfo (pte : Buf) : PartitionInfo where
  start := w32 (startingLba pte)
  size := w32 (w32 (endingLba pte) + 1 + (2 ^ 32 - w32 (startingLba pte)))
  blksz := 512
  name := nameText pte
  type := cstr "U-Boot"
  bootable := isBootable pte
  uuid := uuidBinToStr (tail pte 16) .guid

/-- The bytes that are allocated for the entries, `PAD_TO_BLOCKSIZE` of their length. -/
def allocated (h : Buf) : Nat := w32 (blockCnt (entryBytes h) * 512)

/-- The byte of the device from which entry `n` is taken; `gpt_pte` points to entries of 128 bytes. -/
def entryPlace (h : Buf) (n : Nat) : Nat := 512 * w32 (partitionEntryLba h) + (n - 1) * 128

namespace EfiDev

variable (d : EfiDev)

/-- The header buffer after the block `blk` was read. -/
def header (blk : Nat) : Buf := fun i => if i < 512 then d.disk (512 * blk + i) else d.behind i

/-- `is_gpt_valid`, where there may be no memory for the entries. -/
def isGptValid (blk : Nat) : Bool :=
  Gpt.isGptValid d.lba d.disk d.behind blk && d.memalign (allocated (d.header blk))

/-- The block of the backup header, `dev_desc->lba - 1`. -/
def lastBlock : Nat := w32 (d.lba + (2 ^ 32 - 1))

/-- The header that is used, the primary one if it is valid. -/
def usedTable : Option Nat :=
  if d.isGptValid 1 then some 1 else if d.isGptValid d.lastBlock then some d.lastBlock else none

def entries (h : Buf) : Buf := fun i =>
  if i < blockCnt (entryBytes h) * 512 then d.disk (512 * w32 (partitionEntryLba h) + i) else d.heap i

/-- `gpt_pte[part - 1]` -/
def pte (h : Buf) (part : Nat) : Buf := tail (d.entries h) ((part - 1) * 128)

/-- `part_get_info_efi`; `none` if it fails. -/
def partGetInfoEfi (part : Nat) : Option PartitionInfo :=
  if part < 1 then none
  else d.usedTable.bind (fun blk =>
    if part > numPartitionEntries (d.header blk) ∨ !isPteValid (d.pte (d.header blk) part) then none
    else some (entryInfo (d.pte (d.header blk) part)))

end EfiDev

/-- An access to the bytes of a buffer of `size` bytes in front of `extent`. -/
structure Access where
  extent : Nat
  size : Nat

namespace EfiDev

variable (d : EfiDev)

/-- The accesses of `is_gpt_valid`: the signature, the bytes under the checksum of the header, the blocks of
entries that are read into their buffer and the bytes under the checksum of the entries. -/
def tableAccesses (blk : Nat) : List Access :=
  let h := d.header blk
  if ¬ blk < d.lba then []
  else if signature h ≠ gptHeaderSignature then [⟨8, 512⟩]
  else ⟨92, 512⟩ :: ⟨headerSize h, 512⟩ ::
    if validateGptHeader h blk d.lba ∧ entryBytes h ≠ 0 ∧ d.memalign (allocated h) ∧
        w32 (partitionEntryLba h) + blockCnt (entryBytes h) ≤ d.lba then
      [⟨blockCnt (entryBytes h) * 512, allocated h⟩, ⟨entryBytes h, allocated h⟩]
    else []

/-- The accesses to the entry and to `info->name`, which is written with its terminator. -/
def entryAccesses (h : Buf) (part : Nat) : List Access :=
  if part > numPartitionEntries h then []
  else ⟨(part - 1) * 128 + 16, allocated h⟩ ::
    if isPteValid (d.pte h part) then [⟨(part - 1) * 128 + 128, allocated h⟩, ⟨(nameText (d.pte h part)).length + 1, 32⟩]
    else []

def examined : List Nat := if d.isGptValid 1 then [1] else [1, d.lastBlock]

/-- The accesses of a call of `part_get_info_efi`. -/
def accesses (part : Nat) : List Access :=
  d.examined.flatMap d.tableAccesses ++ (d.usedTable.toList.flatMap (fun blk => d.entryAccesses (d.header blk) part))

/-- Entry `part` of the table with the header `h`, where the layout of the table has it. -/
def exactEntry (h : Buf) (part : Nat) : Buf :=
  tail d.disk (512 * partitionEntryLba h + (part - 1) * sizeofPartitionEntry h)

/-- What a call has to do: it stays inside of its buffers, and what it returns is read from a table that was
checked as a whole, the primary one if that is valid, from the place of the entry, without a change. -/
structure RightInfo (part : Nat) : Prop where
  inside : ∀ a ∈ d.accesses part, a.extent ≤ a.size
  info : ∀ i, d.partGetInfoEfi part = some i → ∃ blk,
    d.isGptValid blk = true ∧ (blk = 1 ∨ (blk = d.lastBlock ∧ d.isGptValid 1 = false)) ∧
    part ≤ numPartitionEntries (d.header blk) ∧
    entryBytes (d.header blk) = numPartitionEntries (d.header blk) * sizeofPartitionEntry (d.header blk) ∧
    entryPlace (d.header blk) part =
      512 * partitionEntryLba (d.header blk) + (part - 1) * sizeofPartitionEntry (d.header blk) ∧
    i.start = startingLba (d.exactEntry (d.header blk) part) ∧
    (i.size : Int) = endingLba (d.exactEntry (d.header blk) part) + 1 - startingLba (d.exactEntry (d.header blk) part) ∧
    i.name = nameText (d.exactEntry (d.header blk) part) ∧
    i.bootable = isBootable (d.exactEntry (d.header blk) part) ∧
    i.uuid = uuidBinToStr (tail (d.exactEntry (d.header blk) part) 16) .guid

/-- The table gives the length and the place of its entries without a carry, and entry `part` is where an array
of 128-byte entries has it. -/
structure Plain (h : Buf) (part : Nat) : Prop where
  product : numPartitionEntries h * sizeofPartitionEntry h < 2 ^ 32
  lba : partitionEntryLba h < 2 ^ 32
  stride : part = 1 ∨ sizeofPartitionEntry h = 128

/-- The blocks of an entry are numbered in 32 bits, and its name has at most 31 characters. -/
structure Narrow (pte : Buf) : Prop where
  start : startingLba pte < 2 ^ 32
  order : startingLba pte ≤ endingLba pte + 1
  count : endingLba pte + 1 < startingLba pte + 2 ^ 32
  name : (nameText pte).length < 32

/-- The condition under which a call does what it has to. -/
structure Sound (part : Nat) : Prop where
  header : ∀ blk ∈ d.examined, blk < d.lba → signature (d.header blk) = gptHeaderSignature →
    headerSize (d.header blk) ≤ 512
  memory : ∀ blk ∈ d.examined, blk < d.lba → validateGptHeader (d.header blk) blk d.lba = true →
    w32 (partitionEntryLba (d.header blk)) + blockCnt (entryBytes (d.header blk)) ≤ d.lba →
    d.memalign (allocated (d.header blk)) = true → entryBytes (d.header blk) ≤ 2 ^ 32 - 512
  entry : ∀ blk, d.usedTable = some blk → part ≤ numPartitionEntries (d.header blk) →
    part * 128 ≤ allocated (d.header blk) ∧
      (isPteValid (d.pte (d.header blk) part) = true → Plain (d.header blk) part ∧ Narrow (d.pte (d.header blk) part))

end EfiDev

theorem fields_congr {p q : Buf} (same : ∀ i < 128, p i = q i) :
    startingLba p = startingLba q ∧ endingLba p = endingLba q ∧ nameText p = nameText q ∧
      isBootable p = isBootable q ∧ uuidBinToStr (tail p 16) .guid = uuidBinToStr (tail q 16) .guid := by
  have names : printEfiname p = printEfiname q := List.map_congr_left (fun i member => by
    have below := List.mem_range.mp member
    rw [same (56 + 2 * i) (by omega)])
  have guid : (List.range 16).map p = (List.range 16).map q := List.map_congr_left (fun i member => by
    have below := List.mem_range.mp member
    exact same i (by omega))
  refine ⟨getLe64_congr (fun i below => same _ (by omega)), getLe64_congr (fun i below => same _ (by omega)), ?_, ?_, ?_⟩
  · rw [nameText, nameText, names]
  · rw [isBootable, isBootable, guid, same 48 (by omega)]
  · unfold uuidBinToStr
    rw [List.flatMap_congr]
    intro i member
    have order : ∀ i ∈ List.range 16, charOrder .guid i < 16 := by decide
    have below := order i member
    rw [tail_apply, tail_apply, same _ (by omega)]

theorem entryInfo_exact_iff (pte : Buf) :
    (entryInfo pte).start = startingLba pte ∧
        ((entryInfo pte).size : Int) = endingLba pte + 1 - startingLba pte ↔
      startingLba pte < 2 ^ 32 ∧ startingLba pte ≤ endingLba pte + 1 ∧ endingLba pte + 1 < startingLba pte + 2 ^ 32 := by
  simp only [entryInfo, w32]
  omega

theorem blockCnt_eq {size : Nat} (positive : 0 < size) (word : size < 2 ^ 32) : blockCnt size = (size - 1) / 512 + 1 := by
  have before : w32 (size + (2 ^ 32 - 1)) = size - 1 := by
    unfold w32
    omega
  rw [blockCnt, before]

theorem blocks_fit_iff {h : Buf} (positive : entryBytes h ≠ 0) :
    blockCnt (entryBytes h) * 512 ≤ allocated h ↔ entryBytes h ≤ 2 ^ 32 - 512 := by
  have word : entryBytes h < 2 ^ 32 := w32_lt _
  rw [allocated, blockCnt_eq (by omega) word]
  unfold w32
  omega

theorem entryBytes_le_blocks {h : Buf} (positive : entryBytes h ≠ 0) : entryBytes h ≤ blockCnt (entryBytes h) * 512 := by
  have word : entryBytes h < 2 ^ 32 := w32_lt _
  rw [blockCnt_eq (by omega) word]
  omega

/-- The buffer consists of blocks, so that an entry of 128 bytes lies in it if its first bytes do. -/
theorem first_bytes_fit_iff (h : Buf) {part : Nat} (first : 1 ≤ part) :
    (part - 1) * 128 + 16 ≤ allocated h ↔ part * 128 ≤ allocated h := by
  unfold allocated w32
  omega

/-- The place of an entry is the one that the layout of the table has exactly if the table is plain there. -/
theorem entryPlace_iff {h : Buf} {part : Nat} (first : 1 ≤ part) (below : part ≤ numPartitionEntries h) :
    entryPlace h part = 512 * partitionEntryLba h + (part - 1) * sizeofPartitionEntry h ↔
      partitionEntryLba h < 2 ^ 32 ∧ (part = 1 ∨ sizeofPartitionEntry h = 128) := by
  have count := getLe32_lt h 80
  unfold numPartitionEntries at below
  unfold entryPlace w32
  obtain ⟨k, rfl⟩ : ∃ k, part = k + 1 := ⟨part - 1, by omega⟩
  simp only [Nat.add_sub_cancel]
  constructor
  · intro same
    -- A carry in the block number is more than all of the 128-byte entries together.
    have low : partitionEntryLba h < 2 ^ 32 := by
      by_contra large
      have carry : partitionEntryLba h % 2 ^ 32 + 2 ^ 32 ≤ partitionEntryLba h := by omega
      have entries : k * 128 < 2 ^ 32 * 128 := by omega
      omega
    rw [Nat.mod_eq_of_lt low] at same
    have strides : k * 128 = k * sizeofPartitionEntry h := by omega
    refine ⟨low, ?_⟩
    rcases Nat.eq_zero_or_pos k with zero | positive
    · exact Or.inl (by omega)
    · exact Or.inr (Nat.eq_of_mul_eq_mul_left positive strides).symm
  · rintro ⟨low, zero | stride⟩
    · obtain rfl : k = 0 := by omega
      rw [Nat.mod_eq_of_lt low, Nat.zero_mul, Nat.zero_mul]
    · rw [Nat.mod_eq_of_lt low, stride]

namespace EfiDev

variable {d : EfiDev}

theorem usedTable_eq_some_iff {blk : Nat} :
    d.usedTable = some blk ↔
      d.isGptValid blk = true ∧ (blk = 1 ∨ (blk = d.lastBlock ∧ d.isGptValid 1 = false)) := by
  unfold usedTable
  cases primary : d.isGptValid 1 with
  | true =>
    rw [if_pos rfl, Option.some.injEq]
    exact ⟨fun same => same ▸ ⟨primary, Or.inl rfl⟩, fun h => (h.2.resolve_right (fun backup => nomatch backup.2)).symm⟩
  | false =>
    rw [if_neg (by decide)]
    cases backup : d.isGptValid d.lastBlock with
    | true =>
      rw [if_pos rfl, Option.some.injEq]
      constructor
      · rintro rfl
        exact ⟨backup, Or.inr ⟨rfl, rfl⟩⟩
      · rintro ⟨valid, rfl | ⟨last, -⟩⟩
        · exact nomatch valid.symm.trans primary
        · exact last.symm
    | false =>
      rw [if_neg (by decide)]
      refine ⟨fun none => (nomatch none), ?_⟩
      rintro ⟨valid, rfl | ⟨last, -⟩⟩
      · exact nomatch valid.symm.trans primary
      · rw [last, backup] at valid
        cases valid

theorem partGetInfoEfi_eq_some_iff {part : Nat} (first : 1 ≤ part) {i : PartitionInfo} :
    d.partGetInfoEfi part = some i ↔ ∃ blk, d.usedTable = some blk ∧ part ≤ numPartitionEntries (d.header blk) ∧
      isPteValid (d.pte (d.header blk) part) = true ∧ entryInfo (d.pte (d.header blk) part) = i := by
  unfold partGetInfoEfi
  rw [if_neg (by omega), Option.bind_eq_some_iff]
  refine exists_congr (fun blk => and_congr_right (fun _ => ?_))
  by_cases below : part ≤ numPartitionEntries (d.header blk)
  · cases inUse : isPteValid (d.pte (d.header blk) part) <;> simp [below]
  · simp [below, Nat.lt_of_not_le below]

theorem pte_eq {h : Buf} {part : Nat} (first : 1 ≤ part) (inside : part * 128 ≤ allocated h) :
    ∀ i < 128, d.pte h part i = d.disk (entryPlace h part + i) := by
  intro i below
  have blocks : allocated h ≤ blockCnt (entryBytes h) * 512 := w32_le _
  rw [pte, tail_apply, entries, if_pos (by omega), entryPlace, Nat.add_assoc]

theorem mem_accesses {part : Nat} {a : Access} :
    a ∈ d.accesses part ↔ (∃ blk ∈ d.examined, a ∈ d.tableAccesses blk) ∨
      ∃ blk, d.usedTable = some blk ∧ a ∈ d.entryAccesses (d.header blk) part := by
  simp only [accesses, List.mem_append, List.mem_flatMap, Option.mem_toList]

theorem tableAccesses_inside_iff (blk : Nat) :
    (∀ a ∈ d.tableAccesses blk, a.extent ≤ a.size) ↔
      (blk < d.lba → signature (d.header blk) = gptHeaderSignature → headerSize (d.header blk) ≤ 512) ∧
      (blk < d.lba → validateGptHeader (d.header blk) blk d.lba = true →
        w32 (partitionEntryLba (d.header blk)) + blockCnt (entryBytes (d.header blk)) ≤ d.lba →
        d.memalign (allocated (d.header blk)) = true → entryBytes (d.header blk) ≤ 2 ^ 32 - 512) := by
  unfold tableAccesses
  by_cases onDevice : blk < d.lba
  swap
  · simp [onDevice]
  by_cases signed : signature (d.header blk) = gptHeaderSignature
  swap
  · have invalid : validateGptHeader (d.header blk) blk d.lba = false := by
      simp [validateGptHeader, signed]
    simp [onDevice, signed, invalid]
  simp only [onDevice, signed, not_true_eq_false, if_false, ne_eq, List.forall_mem_cons, forall_const]
  by_cases loaded : validateGptHeader (d.header blk) blk d.lba = true ∧ entryBytes (d.header blk) ≠ 0 ∧
      d.memalign (allocated (d.header blk)) = true ∧
      w32 (partitionEntryLba (d.header blk)) + blockCnt (entryBytes (d.header blk)) ≤ d.lba
  · obtain ⟨valid, positive, memory, room⟩ := loaded
    have fit := blocks_fit_iff positive
    have under := entryBytes_le_blocks positive
    rw [if_pos ⟨valid, positive, memory, room⟩]
    simp only [List.forall_mem_cons, List.not_mem_nil, false_imp_iff, implies_true, and_true, valid, memory, room, forall_const]
    omega
  · rw [if_neg loaded]
    refine ⟨fun inside => ⟨inside.2.1, fun valid room memory => ?_⟩, fun h => ⟨by decide, h.1, by simp⟩⟩
    by_contra large
    exact loaded ⟨valid, by omega, memory, room⟩

theorem entryAccesses_inside_iff {h : Buf} {part : Nat} (first : 1 ≤ part) :
    (∀ a ∈ d.entryAccesses h part, a.extent ≤ a.size) ↔ (part ≤ numPartitionEntries h → part * 128 ≤ allocated h ∧
      (isPteValid (d.pte h part) = true → (nameText (d.pte h part)).length < 32)) := by
  unfold entryAccesses
  by_cases below : part ≤ numPartitionEntries h
  swap
  · simp [below, Nat.lt_of_not_le below]
  have whole := first_bytes_fit_iff h first
  rw [if_neg (by omega)]
  simp only [List.forall_mem_cons, below, forall_const]
  cases inUse : isPteValid (d.pte h part) with
  | false => simp [whole]
  | true =>
    simp only [if_true, List.forall_mem_cons, List.not_mem_nil, false_imp_iff, implies_true, and_true, forall_const]
    omega

theorem inside_iff {part : Nat} (first : 1 ≤ part) :
    (∀ a ∈ d.accesses part, a.extent ≤ a.size) ↔
      (∀ blk ∈ d.examined, ∀ a ∈ d.tableAccesses blk, a.extent ≤ a.size) ∧
      ∀ blk, d.usedTable = some blk → part ≤ numPartitionEntries (d.header blk) →
        part * 128 ≤ allocated (d.header blk) ∧
        (isPteValid (d.pte (d.header blk) part) = true → (nameText (d.pte (d.header blk) part)).length < 32) := by
  simp only [mem_accesses, ← entryAccesses_inside_iff first]
  constructor
  · intro inside
    exact ⟨fun blk looked a member => inside a (Or.inl ⟨blk, looked, member⟩),
      fun blk used a member => inside a (Or.inr ⟨blk, used, member⟩)⟩
  · rintro ⟨tables, entry⟩ a (⟨blk, looked, member⟩ | ⟨blk, used, member⟩)
    · exact tables blk looked a member
    · exact entry blk used a member

theorem exact_iff {blk part : Nat} (first : 1 ≤ part) (below : part ≤ numPartitionEntries (d.header blk))
    (inside : part * 128 ≤ allocated (d.header blk)) (name : (nameText (d.pte (d.header blk) part)).length < 32) :
    (entryBytes (d.header blk) = numPartitionEntries (d.header blk) * sizeofPartitionEntry (d.header blk) ∧
      entryPlace (d.header blk) part =
        512 * partitionEntryLba (d.header blk) + (part - 1) * sizeofPartitionEntry (d.header blk) ∧
      (entryInfo (d.pte (d.header blk) part)).start = startingLba (d.exactEntry (d.header blk) part) ∧
      ((entryInfo (d.pte (d.header blk) part)).size : Int) =
        endingLba (d.exactEntry (d.header blk) part) + 1 - startingLba (d.exactEntry (d.header blk) part) ∧
      (entryInfo (d.pte (d.header blk) part)).name = nameText (d.exactEntry (d.header blk) part) ∧
      (entryInfo (d.pte (d.header blk) part)).bootable = isBootable (d.exactEntry (d.header blk) part) ∧
      (entryInfo (d.pte (d.header blk) part)).uuid =
        uuidBinToStr (tail (d.exactEntry (d.header blk) part) 16) .guid) ↔
    Plain (d.header blk) part ∧ Narrow (d.pte (d.header blk) part) := by
  have product : entryBytes (d.header blk) = numPartitionEntries (d.header blk) * sizeofPartitionEntry (d.header blk) ↔
      numPartitionEntries (d.header blk) * sizeofPartitionEntry (d.header blk) < 2 ^ 32 :=
    ⟨fun same => same ▸ w32_lt _, fun small => w32_of_lt small⟩
  rw [product]
  -- Where the place is the right one, the entry in memory is that of the table.
  have fields (place : entryPlace (d.header blk) part =
      512 * partitionEntryLba (d.header blk) + (part - 1) * sizeofPartitionEntry (d.header blk)) :=
    fields_congr (fun i small => (d.pte_eq first inside i small).trans
      (show _ = d.exactEntry (d.header blk) part i by rw [place, exactEntry, tail_apply]))
  constructor
  · rintro ⟨small, place, start, size, -⟩
    obtain ⟨sameStart, sameEnd, -⟩ := fields place
    obtain ⟨lba, stride⟩ := (entryPlace_iff first below).mp place
    rw [← sameStart] at start size
    rw [← sameEnd] at size
    obtain ⟨narrow, order, count⟩ := (entryInfo_exact_iff _).mp ⟨start, size⟩
    exact ⟨⟨small, lba, stride⟩, ⟨narrow, order, count, name⟩⟩
  · rintro ⟨⟨small, lba, stride⟩, ⟨narrow, order, count, -⟩⟩
    have place := (entryPlace_iff first below).mpr ⟨lba, stride⟩
    obtain ⟨sameStart, sameEnd, sameName, sameBoot, sameUuid⟩ := fields place
    obtain ⟨start, size⟩ := (entryInfo_exact_iff _).mpr ⟨narrow, order, count⟩
    rw [sameStart] at start size
    rw [sameEnd] at size
    exact ⟨small, place, start, size, sameName, sameBoot, sameUuid⟩

theorem rightInfo_iff_sound (d : EfiDev) {part : Nat} (first : 1 ≤ part) : d.RightInfo part ↔ d.Sound part := by
  constructor
  · rintro ⟨inside, info⟩
    obtain ⟨tables, entry⟩ := (inside_iff first).mp inside
    refine ⟨fun blk looked => ((tableAccesses_inside_iff blk).mp (tables blk looked)).1,
      fun blk looked => ((tableAccesses_inside_iff blk).mp (tables blk looked)).2, fun blk used below => ?_⟩
    obtain ⟨whole, name⟩ := entry blk used below
    refine ⟨whole, fun inUse => (exact_iff first below whole (name inUse)).mp ?_⟩
    obtain ⟨blk', valid, primary, -, exactFields⟩ :=
      info _ ((partGetInfoEfi_eq_some_iff first).mpr ⟨blk, used, below, inUse, rfl⟩)
    obtain rfl := Option.some.inj (used.symm.trans (usedTable_eq_some_iff.mpr ⟨valid, primary⟩))
    exact exactFields
  · rintro ⟨header, memory, entry⟩
    refine ⟨(inside_iff first).mpr ⟨fun blk looked =>
      (tableAccesses_inside_iff blk).mpr ⟨header blk looked, memory blk looked⟩, fun blk used below => ?_⟩, ?_⟩
    · obtain ⟨whole, rest⟩ := entry blk used below
      exact ⟨whole, fun inUse => (rest inUse).2.name⟩
    · intro i run
      obtain ⟨blk, used, below, inUse, rfl⟩ := (partGetInfoEfi_eq_some_iff first).mp run
      obtain ⟨whole, rest⟩ := entry blk used below
      obtain ⟨valid, primary⟩ := usedTable_eq_some_iff.mp used
      exact ⟨blk, valid, primary, below, (exact_iff first below whole (rest inUse).2.name).mpr (rest inUse)⟩

end EfiDev

/-- An entry for the blocks from 3 to 5 with a name of `len` letters. -/
def sampleEntry (len : Nat) : Buf := fun i =>
  if i < 16 then 1 else if i = 32 then 3 else if i = 40 then 5 else if 56 ≤ i ∧ i < 56 + 2 * len ∧ i % 2 = 0 then 65 else 0

def sampleHeader (arrayCrc headerCrc : Nat) : Buf :=
  let h₁ := putLe64 zeros 0 gptHeaderSignature
  let h₂ := putLe32 (putLe32 h₁ 12 92) 16 headerCrc
  let h₃ := putLe64 (putLe64 (putLe64 h₂ 24 1) 32 6) 40 3
  let h₄ := putLe64 (putLe64 h₃ 48 5) 72 2
  putLe32 (putLe32 (putLe32 h₄ 80 1) 84 128) 88 arrayCrc

def sampleDev (len arrayCrc headerCrc : Nat) : EfiDev where
  lba := 7
  disk := overlay (overlay zeros 512 512 (sampleHeader arrayCrc headerCrc)) 1024 512 (sampleEntry len)
  behind := zeros
  heap := zeros
  memalign := fun _ => true
  lba_lt := by decide

set_option maxRecDepth 20000 in
theorem sampleDev_sound : (sampleDev 4 3572858532 133867527).Sound 1 where
  header := by
    rw [show (sampleDev 4 3572858532 133867527).examined = [1] by decide +kernel]
    decide +kernel
  memory := by
    rw [show (sampleDev 4 3572858532 133867527).examined = [1] by decide +kernel]
    decide +kernel
  entry := by
    rw [show (sampleDev 4 3572858532 133867527).usedTable = some 1 by decide +kernel]
    rintro blk ⟨⟩ -
    exact ⟨by decide +kernel, fun _ => ⟨⟨by decide +kernel, by decide +kernel, Or.inl rfl⟩,
      ⟨by decide +kernel, by decide +kernel, by decide +kernel, by decide +kernel⟩⟩⟩

set_option maxRecDepth 20000 in
theorem sampleDev_info :
    (sampleDev 4 3572858532 133867527).RightInfo 1 ∧ (sampleDev 4 3572858532 133867527).partGetInfoEfi 1 =
      some ⟨3, 3, 512, cstr "AAAA", cstr "U-Boot", false, cstr "00000000-0000-0000-0000-000000000000"⟩ :=
  ⟨(EfiDev.rightInfo_iff_sound _ (by decide)).mpr sampleDev_sound, by decide +kernel⟩

set_option maxRecDepth 20000 in
/-- A name of 36 characters, which a table may have, is written over the end of `info->name`. -/
theorem sampleDev_overrun : ¬ (sampleDev 36 1213470826 2476201063).RightInfo 1 := by
  intro right
  have member : ⟨37, 32⟩ ∈ (sampleDev 36 1213470826 2476201063).accesses 1 := by
    refine EfiDev.mem_accesses.mpr (Or.inr ⟨1, by decide +kernel, ?_⟩)
    have below : ¬ 1 > numPartitionEntries ((sampleDev 36 1213470826 2476201063).header 1) := by decide +kernel
    have inUse : isPteValid ((sampleDev 36 1213470826 2476201063).pte
        ((sampleDev 36 1213470826 2476201063).header 1) 1) = true := by decide +kernel
    have name : (nameText ((sampleDev 36 1213470826 2476201063).pte
        ((sampleDev 36 1213470826 2476201063).header 1) 1)).length = 36 := by decide +kernel
    rw [EfiDev.entryAccesses, if_neg below, if_pos inUse, name]
    simp
  exact absurd (right.inside _ member) (by decide)

end UuuFastboot.Gpt
