import UuuFastboot.Avb.ReadPartition

namespace UuuFastboot.Avb

open Word Overlay Bytes CString

/-- A device of `blocks` blocks, which all can be read and written; `lbaint_t` has 32 bits. -/
structure WriteDev where
  blksz : Nat
  blocks : Nat
  blocks_lt : blocks < 2 ^ 32

/-- The loop of `fsl_write_to_partition` for at most `rounds` rounds; what is left on the card comes with the result. The
data and what lies behind it in memory is `data`, of which `inBuf` bytes have been copied. -/
def writeLoop (dev : WriteDev) (data : Buf) (numBytes : Nat) : Nat → Nat → Nat → Nat → Nat → Buf →
    Option (AvbIOResult × Buf)
  | 0, _, _, _, _, _ => none
  | rounds + 1, bs, s, numWrite, inBuf, card =>
    if numWrite < numBytes then
      if bs < dev.blocks then
        let cnt := copyCount dev.blksz s numWrite numBytes
        let bdata := if s = 0 ∨ cnt ≠ dev.blksz then tail card (bs * dev.blksz) else zeros
        writeLoop dev data numBytes rounds (bs + 1) 0 (w32 (numWrite + cnt)) (inBuf + cnt)
          (overlay card (bs * dev.blksz) dev.blksz (overlay bdata s cnt (tail data inBuf)))
      else some (.errorIo, card)
    else some (.ok, card)

def fslWriteToPartition (mmc : Option WriteDev) (ptable : List PtEntry) (memory : Bool) (rounds : Nat) (partition : CStr)
    (offset : Int) (numBytes : Nat) (data card : Buf) : Option (AvbIOResult × Buf) :=
  match mmc, fastbootFlashFindPtn ptable partition with
  | some dev, some pte =>
    let partEnd := w32 (pte.start + pte.length + (2 ^ 32 - 1))
    match getMarginPos pte.start partEnd dev.blksz offset numBytes false with
    | none => some (.errorRangeOutsidePartition, card)
    | some margin =>
      if memory then writeLoop dev data numBytes rounds (w32 margin.blkStart) margin.start 0 0 card
      else some (.errorOom, card)
  | _, _ => some (.errorNoSuchPartition, card)

theorem overlay_block (card src : Buf) {pos size s cnt : Nat} (fits : s + cnt ≤ size) :
    overlay card pos size (overlay (tail card pos) s cnt src) = overlay card (pos + s) cnt src := by
  funext a
  unfold overlay
  split_ifs <;> first | omega | rfl | skip
  · congr 1
    omega
  · rw [tail_apply]
    congr 1
    omega

theorem writeLoop_inRange {dev : WriteDev} {data : Buf} {n : Nat} (rounds : Nat) {bs s numWrite inBuf : Nat}
    {card card' : Buf} : writeLoop dev data n rounds bs s numWrite inBuf card ≠ some (.errorRangeOutsidePartition, card') := by
  induction rounds generalizing bs s numWrite inBuf card with
  | zero => nofun
  | succ rounds ih =>
    rw [writeLoop]
    split_ifs
    · exact ih
    all_goals nofun

section Loop

variable {dev : WriteDev} {data : Buf} {n pos e : Nat} (size : 0 < dev.blksz ∧ dev.blksz < 2 ^ 32) (small : n < 2 ^ 32)
include size small

theorem writeLoop_step (rounds : Nat) {bs s numWrite : Nat} (inBuf : Nat) (card : Buf) (below : s < dev.blksz)
    (more : numWrite < n) (onDevice : bs < dev.blocks) :
    ∃ cnt, cnt = (if numWrite + (dev.blksz - s) < 2 ^ 32 then min (dev.blksz - s) (n - numWrite) else dev.blksz - s) ∧
      writeLoop dev data n (rounds + 1) bs s numWrite inBuf card =
        writeLoop dev data n rounds (bs + 1) 0 (w32 (numWrite + cnt)) (inBuf + cnt)
          (overlay card (bs * dev.blksz + s) cnt (tail data inBuf)) := by
  refine ⟨_, rfl, ?_⟩
  have count := copyCount_eq below more small size.2
  have fits : s + copyCount dev.blksz s numWrite n ≤ dev.blksz := by
    rw [count]
    split <;> omega
  -- A part of a block is never as long as the block, so the block is always read.
  have read : s = 0 ∨ copyCount dev.blksz s numWrite n ≠ dev.blksz := by omega
  rw [writeLoop, if_pos more, if_pos onDevice]
  dsimp only
  rw [if_pos read, overlay_block card _ fits, count]

/-- As long as no sum wraps, the bytes are written in order. The last one lies in front of block `e`. -/
theorem writeLoop_run (rounds : Nat) {bs s numWrite : Nat} (card : Buf) (ends : pos + n ≤ e * dev.blksz)
    (short : e * dev.blksz - pos < 2 ^ 32) (place : bs * dev.blksz + s = pos + numWrite) (below : s < dev.blksz)
    (sofar : numWrite ≤ n) :
    writeLoop dev data n rounds bs s numWrite numWrite (overlay card pos numWrite data) =
        some (.ok, overlay card pos n data) ∨
      (dev.blocks < e ∧ ∃ card', writeLoop dev data n rounds bs s numWrite numWrite (overlay card pos numWrite data) =
        some (.errorIo, card')) ∨
      (rounds ≤ n - numWrite ∧
        writeLoop dev data n rounds bs s numWrite numWrite (overlay card pos numWrite data) = none) := by
  induction rounds generalizing bs s numWrite with
  | zero => exact Or.inr (Or.inr ⟨Nat.zero_le _, rfl⟩)
  | succ rounds ih =>
    rcases Nat.lt_or_ge numWrite n with more | done
    · have before : bs < e := Nat.lt_of_mul_lt_mul_right (show bs * dev.blksz < e * dev.blksz by omega)
      rcases Nat.lt_or_ge bs dev.blocks with onDevice | behind
      · have blockEnd : (bs + 1) * dev.blksz ≤ e * dev.blksz := Nat.mul_le_mul_right _ before
        obtain ⟨cnt, count, step⟩ := writeLoop_step size small rounds numWrite (overlay card pos numWrite data) below more
          onDevice
        rw [Nat.add_mul, Nat.one_mul] at blockEnd
        rw [if_pos (by omega)] at count
        have joined : overlay (overlay card pos numWrite data) (bs * dev.blksz + s) cnt (tail data numWrite) =
            overlay card pos (numWrite + cnt) data := by
          rw [place, overlay_append]
          refine overlay_congr (fun i _ => ?_)
          split
          · rfl
          · rw [tail_apply, Nat.add_sub_cancel' (by omega)]
        rw [step, joined, w32_of_lt (by omega)]
        by_cases last : numWrite + cnt = n
        · -- Nothing is left, so the place does not matter.
          rw [last]
          cases rounds with
          | zero => exact Or.inr (Or.inr ⟨by omega, rfl⟩)
          | succ rounds => exact Or.inl (if_neg (Nat.lt_irrefl n))
        · obtain ok | io | ⟨few, none_⟩ := @ih (bs + 1) 0 (numWrite + cnt) (by rw [Nat.add_mul]; omega) size.1 (by omega)
          · exact Or.inl ok
          · exact Or.inr (Or.inl io)
          · exact Or.inr (Or.inr ⟨by omega, none_⟩)
      · exact Or.inr (Or.inl ⟨by omega, _, (if_pos more).trans (if_neg (by omega))⟩)
    · obtain rfl : numWrite = n := by omega
      exact Or.inl (if_neg (Nat.lt_irrefl _))

/-- With blocks whose size divides 2^32 the count comes back to where it was when it wraps, and the loop does not end
well. -/
theorem writeLoop_never (dvd : dev.blksz ∣ 2 ^ 32) (least : e * dev.blksz < pos + n + dev.blksz)
    (long : 2 ^ 32 ≤ e * dev.blksz - pos) (rounds : Nat) {j bs s numWrite inBuf : Nat} {card card' : Buf}
    (place : j * dev.blksz + s = pos + numWrite) (below : s < dev.blksz) (more : numWrite < n) :
    writeLoop dev data n rounds bs s numWrite inBuf card ≠ some (.ok, card') := by
  induction rounds generalizing j bs s numWrite inBuf card with
  | zero => nofun
  | succ rounds ih =>
    rcases Nat.lt_or_ge bs dev.blocks with onDevice | behind
    · obtain ⟨cnt, count, step⟩ := writeLoop_step size small rounds inBuf card below more onDevice
      rw [step]
      have next : (j + 1) * dev.blksz = j * dev.blksz + dev.blksz := Nat.succ_mul j dev.blksz
      split at count
      · next fits =>
        -- The end of this block is not the end of the last one.
        have front : j + 1 < e := Nat.lt_of_mul_lt_mul_right (show (j + 1) * dev.blksz < e * dev.blksz by omega)
        have blocks : (j + 1 + 1) * dev.blksz ≤ e * dev.blksz := Nat.mul_le_mul_right _ front
        rw [Nat.succ_mul (j + 1)] at blocks
        rw [w32_of_lt (by omega)]
        exact ih (j := j + 1) (by omega) size.1 (by omega)
      · next wraps =>
        obtain ⟨m, eq⟩ := dvd
        have wrapped : w32 (numWrite + cnt) = numWrite + cnt - 2 ^ 32 := by
          unfold w32
          omega
        rw [wrapped]
        have back : (j + 1 - m) * dev.blksz = (j + 1) * dev.blksz - 2 ^ 32 := by
          rw [Nat.sub_mul, eq, Nat.mul_comm m]
        exact ih (j := j + 1 - m) (by omega) size.1 (by omega)
    · rw [writeLoop, if_pos more, if_neg (by omega)]
      nofun

end Loop

/-- The partition as its entry has it. An offset from its start is refused if the data does not fit, and otherwise names
the first byte. -/
theorem fslWriteToPartition_eq {r : Request} (nonneg : 0 ≤ r.offset) {dev : WriteDev} {ptable : List PtEntry} {name : CStr}
    {pte : PtEntry} (size : dev.blksz = r.blksz) (found : fastbootFlashFindPtn ptable name = some pte)
    (start : pte.start = r.part.first) (length : pte.length = r.part.last - r.part.first + 1) (memory : Bool) (rounds : Nat)
    (data card : Buf) :
    fslWriteToPartition (some dev) ptable memory rounds name r.offset r.numBytes data card =
      if r.Inside false then
        if memory then writeLoop dev data r.numBytes rounds (r.part.first + r.offset.toNat / r.blksz)
          (r.offset.toNat % r.blksz) 0 0 card
        else some (.errorOom, card)
      else some (.errorRangeOutsidePartition, card) := by
  have ordered := r.part.ordered
  have small := r.part.last_lt
  have last : w32 (pte.start + pte.length + (2 ^ 32 - 1)) = r.part.last := by
    unfold w32
    omega
  have right := @marginRight_of_nonneg r false nonneg
  unfold Request.MarginRight at right
  unfold fslWriteToPartition
  simp only [found, last, size]
  rw [start]
  cases margin : getMarginPos r.part.first r.part.last r.blksz r.offset r.numBytes false with
  | none =>
    rw [margin] at right
    rw [if_neg right]
  | some m =>
    rw [margin] at right
    obtain ⟨inside, blkStart, position, -⟩ := right
    have first : r.firstByte = (r.offset.toNat : Int) := by
      rw [Request.firstByte, if_neg (by omega)]
      omega
    rw [first] at blkStart position
    have low := (r.div_le_iff r.offset.toNat).mpr (by have upper := inside.2.1; omega)
    have blockEq : m.blkStart = r.part.first + r.offset.toNat / r.blksz := by exact_mod_cast blkStart
    have startEq : m.start = r.offset.toNat % r.blksz := by exact_mod_cast position
    rw [if_pos inside]
    dsimp only
    rw [blockEq, startEq, w32_of_lt (by omega)]

theorem sector_pos : 0 < 512 := by decide

theorem sixteen_lt : 16 < 2 ^ 32 := by decide

def miscRequest : Request :=
  ⟨⟨8, 11, by decide, by decide⟩, 512, 100, 600, sector_pos, sector_lt_word, by decide, by decide, by decide, by decide⟩

def smallCard : WriteDev := ⟨512, 16, sixteen_lt⟩

def largeBlocks : WriteDev := ⟨5 * 2 ^ 29, 3, by decide⟩

end UuuFastboot.Avb
