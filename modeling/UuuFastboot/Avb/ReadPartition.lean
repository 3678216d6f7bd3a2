import UuuFastboot.Avb.Margin

namespace UuuFastboot.Avb

open Word Overlay Bytes CString

inductive AvbIOResult
  | ok | errorOom | errorIo | errorNoSuchPartition | errorRangeOutsidePartition
deriving DecidableEq

/-- A block device; `blockRead` is `block_read` of one block, `none` if it returns 0. -/
structure BlockDev where
  blksz : Nat
  blockRead : Nat → Option Buf

/-- What a read leaves: its result, what is stored for `out_num_read`, and the buffer. -/
structure ReadResult where
  result : AvbIOResult
  outNumRead : Option Nat
  buffer : Buf

def copyCount (blksz s numRead numBytes : Nat) : Nat :=
  let cnt := w32 (blksz + 2 ^ 32 - s)
  if numBytes < w32 (numRead + cnt) then w32 (numBytes + 2 ^ 32 - numRead) else cnt

/-- The loop of `fsl_read_from_partition`, with `left` blocks to go. `behind` is what lies behind the buffer for one
block. -/
def readLoop (dev : BlockDev) (behind : Buf) (numBytes : Nat) : Nat → Nat → Nat → Nat → Buf → ReadResult
  | 0, _, _, numRead, buffer => ⟨.ok, some numRead, buffer⟩
  | left + 1, bs, s, numRead, buffer =>
    match dev.blockRead bs with
    | none => ⟨.errorIo, none, buffer⟩
    | some data =>
      let bdata : Buf := fun i => if i < dev.blksz then data i else behind i
      let cnt := copyCount dev.blksz s numRead numBytes
      readLoop dev behind numBytes left (bs + 1) 0 (w32 (numRead + cnt)) (overlay buffer numRead cnt (tail bdata s))

def fslReadFromPartition (mmc : Option BlockDev) (ptable : List PtEntry) (memory : Bool) (behind : Buf) (partition : CStr)
    (offset : Int) (numBytes : Nat) (buffer : Buf) : ReadResult :=
  match mmc, fastbootFlashFindPtn ptable partition with
  | some dev, some pte =>
    let partEnd := w32 (pte.start + pte.length + (2 ^ 32 - 1))
    match getMarginPos pte.start partEnd dev.blksz offset numBytes true with
    | none => ⟨.errorRangeOutsidePartition, none, buffer⟩
    | some margin =>
      let bs := w32 margin.blkStart
      let be := w32 margin.blkEnd
      if memory then readLoop dev behind numBytes (be + 1 - bs) bs margin.start 0 buffer else ⟨.errorOom, none, buffer⟩
  | _, _ => ⟨.errorNoSuchPartition, none, buffer⟩

/-- The blocks of the partition can be read, and hold the bytes `src`. -/
structure Holds (r : Request) (dev : BlockDev) (src : Nat → UInt8) : Prop where
  blksz : dev.blksz = r.blksz
  block : ∀ k ≤ r.part.last - r.part.first, ∃ data, dev.blockRead (r.part.first + k) = some data ∧
    ∀ i < r.blksz, data i = src (k * r.blksz + i)

instance (r : Request) (allowPartial : Bool) : Decidable (r.Inside allowPartial) :=
  inferInstanceAs (Decidable (_ ∧ _ ∧ _))

/-- A partition is read right, whatever it holds: the bytes that are asked for and lie in it are in the buffer. -/
def Request.ReadsRight (r : Request) : Prop :=
  ∀ dev src ptable name pte behind buffer, Holds r dev src → fastbootFlashFindPtn ptable name = some pte →
    pte.start = r.part.first → pte.length = r.part.last - r.part.first + 1 →
    fslReadFromPartition (some dev) ptable true behind name r.offset r.numBytes buffer =
      if r.Inside true then
        let count := (r.lastByte - r.firstByte + 1).toNat
        ⟨.ok, some count, overlay buffer 0 count (fun i => src (r.firstByte.toNat + i))⟩
      else ⟨.errorRangeOutsidePartition, none, buffer⟩

/-- The bytes from the first one to the end of the block of the last one. -/
def Request.wholeBytes (r : Request) : Int := (r.lastByte / r.blksz + 1) * r.blksz - r.firstByte

variable {r : Request}

theorem copyCount_eq {blksz s numRead numBytes : Nat} (below : s < blksz) (more : numRead < numBytes)
    (small : numBytes < 2 ^ 32) (blkSmall : blksz < 2 ^ 32) : copyCount blksz s numRead numBytes =
      if numRead + (blksz - s) < 2 ^ 32 then min (blksz - s) (numBytes - numRead) else blksz - s := by
  have cnt : w32 (blksz + 2 ^ 32 - s) = blksz - s := by
    unfold w32
    omega
  have rest : w32 (numBytes + 2 ^ 32 - numRead) = numBytes - numRead := by
    unfold w32
    omega
  simp only [copyCount, cnt, rest]
  by_cases fits : numRead + (blksz - s) < 2 ^ 32
  · rw [w32_of_lt fits, if_pos fits]
    split <;> omega
  · have wrapped : w32 (numRead + (blksz - s)) = numRead + (blksz - s) - 2 ^ 32 := by
      unfold w32
      omega
    rw [wrapped, if_neg (by omega), if_neg fits]

section Loop

variable {r : Request} {dev : BlockDev} {src : Nat → UInt8} (holds : Holds r dev src) (behind buffer : Buf)
variable {s numRead k f l : Nat}
include holds

omit holds in
theorem copyCount_whole (below : s < r.blksz) (room : numRead + (r.blksz - s) ≤ r.numBytes) :
    copyCount r.blksz s numRead r.numBytes = r.blksz - s := by
  have small := r.numBytes_lt
  have cnt : w32 (r.blksz + 2 ^ 32 - s) = r.blksz - s := by
    unfold w32
    omega
  simp only [copyCount, cnt]
  rw [w32_of_lt (by omega), if_neg (by omega)]

theorem copied_whole {data : Buf} (numRead : Nat) (bytes : ∀ i < r.blksz, data i = src (k * r.blksz + i)) :
    overlay buffer numRead (r.blksz - s) (tail (fun i => if i < dev.blksz then data i else behind i) s) =
      overlay buffer numRead (r.blksz - s) (fun i => src (k * r.blksz + s + i)) := by
  refine overlay_congr (fun i low => ?_)
  rw [tail_apply, holds.blksz, if_pos (by omega), bytes _ (by omega), Nat.add_assoc]

theorem readLoop_whole (left : Nat) (inside : k ≤ r.part.last - r.part.first) (below : s < r.blksz)
    (room : numRead + (r.blksz - s) ≤ r.numBytes) :
    readLoop dev behind r.numBytes (left + 1) (r.part.first + k) s numRead buffer =
      readLoop dev behind r.numBytes left (r.part.first + (k + 1)) 0 (numRead + (r.blksz - s))
        (overlay buffer numRead (r.blksz - s) (fun i => src (k * r.blksz + s + i))) := by
  obtain ⟨data, read, bytes⟩ := holds.block k inside
  have small := r.numBytes_lt
  have count : copyCount dev.blksz s numRead r.numBytes = r.blksz - s := by
    rw [holds.blksz, copyCount_whole below room]
  rw [readLoop, read]
  simp only [count]
  rw [w32_of_lt (by omega), Nat.add_assoc, copied_whole holds behind buffer numRead bytes]

theorem readLoop_toLast {d : Nat} (numRead : Nat) (inside : l < r.partBytes) (last : k + d = l / r.blksz)
    (place : f + numRead = k * r.blksz + s) (below : s < r.blksz) (before : f + numRead ≤ l)
    (room : l + 1 ≤ f + r.numBytes) :
    ∃ s' more, f + (numRead + more) = l / r.blksz * r.blksz + s' ∧ s' < r.blksz ∧ f + (numRead + more) ≤ l ∧
      readLoop dev behind r.numBytes (d + 1) (r.part.first + k) s numRead buffer =
        readLoop dev behind r.numBytes 1 (r.part.first + l / r.blksz) s' (numRead + more)
          (overlay buffer numRead more (fun i => src (f + numRead + i))) := by
  induction d generalizing k s numRead buffer with
  | zero =>
    obtain rfl : k = l / r.blksz := last
    exact ⟨s, 0, place, below, before, by rw [overlay_zero]; rfl⟩
  | succ d ih =>
    have product : (k + 1) * r.blksz ≤ l / r.blksz * r.blksz := Nat.mul_le_mul_right _ (by omega)
    have whole := Nat.div_mul_le_self l r.blksz
    rw [Nat.add_mul, Nat.one_mul] at product
    have blocks := (r.div_le_iff l).mpr inside
    have step := readLoop_whole holds behind buffer (d + 1)
      (show k ≤ r.part.last - r.part.first by omega) below (show numRead + (r.blksz - s) ≤ r.numBytes by omega)
    have next : f + (numRead + (r.blksz - s)) = (k + 1) * r.blksz + 0 := by
      rw [Nat.add_mul, Nat.one_mul]
      omega
    obtain ⟨s', more, place', below', before', run⟩ :=
      ih _ _ (by omega) next r.blksz_pos (by omega)
    refine ⟨s', r.blksz - s + more, by omega, below', by omega, ?_⟩
    have joined : overlay (overlay buffer numRead (r.blksz - s) (fun i => src (k * r.blksz + s + i)))
        (numRead + (r.blksz - s)) more (fun i => src (f + (numRead + (r.blksz - s)) + i)) =
        overlay buffer numRead (r.blksz - s + more) (fun i => src (f + numRead + i)) := by
      rw [overlay_append]
      refine overlay_congr (fun i _ => ?_)
      split
      · rw [place]
      · congr 1
        omega
    rw [step, run, joined, Nat.add_assoc]

theorem readLoop_last (inside : k ≤ r.part.last - r.part.first) (below : s < r.blksz)
    (some_byte : numRead < r.numBytes) :
    readLoop dev behind r.numBytes 1 (r.part.first + k) s numRead buffer =
      if numRead + (r.blksz - s) < 2 ^ 32 then
        let cnt := min (r.blksz - s) (r.numBytes - numRead)
        ⟨.ok, some (numRead + cnt), overlay buffer numRead cnt (fun i => src (k * r.blksz + s + i))⟩
      else ⟨.ok, some (numRead + (r.blksz - s) - 2 ^ 32),
        overlay buffer numRead (r.blksz - s) (fun i => src (k * r.blksz + s + i))⟩ := by
  obtain ⟨data, read, bytes⟩ := holds.block k inside
  have small := r.numBytes_lt
  have blkSmall := r.blksz_lt
  have copied (cnt : Nat) (le : cnt ≤ r.blksz - s) : overlay buffer numRead cnt
      (tail (fun i => if i < dev.blksz then data i else behind i) s) =
      overlay buffer numRead cnt (fun i => src (k * r.blksz + s + i)) := by
    refine overlay_congr (fun i low => ?_)
    rw [tail_apply, holds.blksz, if_pos (by omega), bytes _ (by omega), Nat.add_assoc]
  rw [readLoop, read]
  simp only [readLoop, holds.blksz, copyCount_eq below some_byte small blkSmall]
  rw [holds.blksz] at copied
  split
  · rw [copied _ (Nat.min_le_left _ _), w32_of_lt (by omega)]
  · next wraps =>
    have wrapped : w32 (numRead + (r.blksz - s)) = numRead + (r.blksz - s) - 2 ^ 32 := by
      unfold w32
      omega
    rw [copied _ (Nat.le_refl _), wrapped]

/-- Going on in the middle: byte `f + numRead` lies in block `k`, and byte `l` is the last that is asked for or the last
of the partition. The bytes up to the end of its block are `whole`. -/
theorem readLoop_from {whole : Nat} (place : f + numRead = k * r.blksz + s) (below : s < r.blksz)
    (before : f + numRead ≤ l) (inside : l < r.partBytes) (room : l + 1 ≤ f + r.numBytes)
    (last : l + 1 = f + r.numBytes ∨ l + 1 = r.partBytes) (bytes : whole = (l / r.blksz + 1) * r.blksz - f) :
    readLoop dev behind r.numBytes (l / r.blksz + 1 - k) (r.part.first + k) s numRead buffer =
      if whole < 2 ^ 32 then
        ⟨.ok, some (l + 1 - f), overlay buffer numRead (l + 1 - f - numRead) (fun i => src (f + numRead + i))⟩
      else ⟨.ok, some (whole - 2 ^ 32), overlay buffer numRead (whole - numRead) (fun i => src (f + numRead + i))⟩ := by
  have quotient : k ≤ l / r.blksz := (Nat.le_div_iff_mul_le r.blksz_pos).mpr (by omega)
  have blocks := (r.div_le_iff l).mpr inside
  have split := Nat.div_add_mod' l r.blksz
  have rest := Nat.mod_lt l r.blksz_pos
  obtain ⟨s', more, place', below', before', run⟩ := readLoop_toLast holds behind buffer numRead inside
    (show k + (l / r.blksz - k) = l / r.blksz by omega) place below before room
  have final := readLoop_last holds behind (overlay buffer numRead more (fun i => src (f + numRead + i)))
    (show l / r.blksz ≤ r.part.last - r.part.first by omega) below' (show numRead + more < r.numBytes by omega)
  have sum : whole = numRead + more + (r.blksz - s') := by
    rw [bytes, Nat.add_mul, Nat.one_mul]
    omega
  have joined (cnt : Nat) : overlay (overlay buffer numRead more (fun i => src (f + numRead + i))) (numRead + more) cnt
      (fun i => src (l / r.blksz * r.blksz + s' + i)) =
      overlay buffer numRead (more + cnt) (fun i => src (f + numRead + i)) := by
    rw [overlay_append]
    refine overlay_congr (fun i _ => ?_)
    split
    · rfl
    · congr 1
      omega
  rw [show l / r.blksz + 1 - k = l / r.blksz - k + 1 by omega, run, final, sum]
  have count : numRead + more + min (r.blksz - s') (r.numBytes - (numRead + more)) = l + 1 - f := by
    rcases last with asked | whole
    · omega
    · have position := r.last_div.2
      rw [show r.partBytes - 1 = l by omega] at position
      omega
  simp only [joined]
  rw [count, show more + min (r.blksz - s') (r.numBytes - (numRead + more)) = l + 1 - f - numRead by omega,
    show numRead + more + (r.blksz - s') - numRead = more + (r.blksz - s') by omega]

theorem readLoop_run (order : f ≤ l) (inside : l < r.partBytes) (room : l + 1 ≤ f + r.numBytes)
    (last : l + 1 = f + r.numBytes ∨ l + 1 = r.partBytes) :
    ∃ numRead buffer', readLoop dev behind r.numBytes (l / r.blksz + 1 - f / r.blksz) (r.part.first + f / r.blksz)
        (f % r.blksz) 0 buffer = ⟨.ok, some numRead, buffer'⟩ ∧
      if (l / r.blksz + 1) * r.blksz - f < 2 ^ 32 then
        numRead = l + 1 - f ∧ buffer' = overlay buffer 0 (l + 1 - f) (fun i => src (f + i))
      else numRead ≠ l + 1 - f := by
  have run := readLoop_from holds behind buffer (show f + 0 = f / r.blksz * r.blksz + f % r.blksz by
    rw [Nat.div_add_mod']; rfl) (Nat.mod_lt _ r.blksz_pos) order inside room last rfl
  have blocks := Nat.div_add_mod' l r.blksz
  have rest := Nat.mod_lt l r.blksz_pos
  have blkSmall := r.blksz_lt
  rw [run]
  split
  · exact ⟨_, _, rfl, rfl, rfl⟩
  · refine ⟨_, _, rfl, ?_⟩
    rw [Nat.add_mul, Nat.one_mul]
    omega

end Loop

theorem fslReadFromPartition_eq {dev : BlockDev} {src : Nat → UInt8} {ptable : List PtEntry} {name : CStr}
    {pte : PtEntry} (holds : Holds r dev src) (found : fastbootFlashFindPtn ptable name = some pte)
    (start : pte.start = r.part.first) (length : pte.length = r.part.last - r.part.first + 1) (behind buffer : Buf) :
    fslReadFromPartition (some dev) ptable true behind name r.offset r.numBytes buffer =
      match getMarginPos r.part.first r.part.last r.blksz r.offset r.numBytes true with
      | none => ⟨.errorRangeOutsidePartition, none, buffer⟩
      | some margin => readLoop dev behind r.numBytes (w32 margin.blkEnd + 1 - w32 margin.blkStart) (w32 margin.blkStart)
          margin.start 0 buffer := by
  have ordered := r.part.ordered
  have small := r.part.last_lt
  have last : w32 (pte.start + pte.length + (2 ^ 32 - 1)) = r.part.last := by
    unfold w32
    omega
  unfold fslReadFromPartition
  simp only [found, last, holds.blksz, if_true]
  rw [start]

theorem exists_holds (r : Request) (src : Nat → UInt8) : ∃ dev ptable name pte, Holds r dev src ∧
    fastbootFlashFindPtn ptable name = some pte ∧ pte.start = r.part.first ∧
    pte.length = r.part.last - r.part.first + 1 := by
  refine ⟨⟨r.blksz, fun b => some (fun i => src ((b - r.part.first) * r.blksz + i))⟩,
    [⟨[], r.part.first, r.part.last - r.part.first + 1, 0, none, 0⟩], [], _, ⟨rfl, fun k _ => ⟨_, rfl, fun i _ => ?_⟩⟩,
    rfl, rfl, rfl⟩
  rw [Nat.add_sub_cancel_left]

theorem Request.Inside.bytes (inside : r.Inside true) :
    ∃ f l : Nat, r.firstByte = f ∧ r.lastByte = l ∧ f ≤ l ∧ l < r.partBytes ∧ l + 1 ≤ f + r.numBytes ∧
      (l + 1 = f + r.numBytes ∨ l + 1 = r.partBytes) := by
  obtain ⟨lower, upper, -⟩ := inside
  have numPos := r.numBytes_pos
  refine ⟨r.firstByte.toNat, r.lastByte.toNat, by omega, ?_⟩
  unfold Request.lastByte
  omega

theorem readsRight_of_margin (right : r.MarginRight true) (inside : r.Inside true) {dev : BlockDev}
    {src : Nat → UInt8} {ptable : List PtEntry} {name : CStr} {pte : PtEntry} (holds : Holds r dev src)
    (found : fastbootFlashFindPtn ptable name = some pte) (start : pte.start = r.part.first)
    (length : pte.length = r.part.last - r.part.first + 1) (behind buffer : Buf) :
    ∃ numRead buffer', fslReadFromPartition (some dev) ptable true behind name r.offset r.numBytes buffer =
        ⟨.ok, some numRead, buffer'⟩ ∧
      if r.wholeBytes < 2 ^ 32 then
        numRead = (r.lastByte - r.firstByte + 1).toNat ∧
          buffer' = overlay buffer 0 (r.lastByte - r.firstByte + 1).toNat (fun i => src (r.firstByte.toNat + i))
      else numRead ≠ (r.lastByte - r.firstByte + 1).toNat := by
  obtain ⟨f, l, first, last, order, below, room, ends⟩ := inside.bytes
  rw [fslReadFromPartition_eq holds found start length]
  unfold Request.MarginRight at right
  cases margin : getMarginPos r.part.first r.part.last r.blksz r.offset r.numBytes true with
  | none =>
    rw [margin] at right
    exact absurd inside right
  | some m =>
    rw [margin] at right
    obtain ⟨-, blkStart, startPos, blkEnd, -⟩ := right
    rw [first] at blkStart startPos
    rw [last] at blkEnd
    have blocks := (r.div_le_iff l).mpr below
    have quotient : f / r.blksz ≤ l / r.blksz := Nat.div_le_div_right order
    have lastSmall := r.part.last_lt
    have startEq : m.blkStart = r.part.first + f / r.blksz := by exact_mod_cast blkStart
    have endEq : m.blkEnd = r.part.first + l / r.blksz := by exact_mod_cast blkEnd
    have posEq : m.start = f % r.blksz := by exact_mod_cast startPos
    dsimp only
    rw [startEq, endEq, posEq, w32_of_lt (by omega), w32_of_lt (by omega),
      show r.part.first + l / r.blksz + 1 - (r.part.first + f / r.blksz) = l / r.blksz + 1 - f / r.blksz by omega]
    obtain ⟨numRead, buffer', run, result⟩ := readLoop_run holds behind buffer order below room ends
    refine ⟨numRead, buffer', run, ?_⟩
    have whole : r.wholeBytes < 2 ^ 32 ↔ (l / r.blksz + 1) * r.blksz - f < 2 ^ 32 := by
      have product : (r.wholeBytes : Int) = ((l / r.blksz + 1) * r.blksz : Nat) - f := by
        rw [Request.wholeBytes, first, last]
        push_cast
        rfl
      omega
    have count : (r.lastByte - r.firstByte + 1).toNat = l + 1 - f := by omega
    rw [count]
    simp only [whole, first, Int.toNat_natCast]
    exact result

/-- For blocks of several bytes an offset from the end leads astray: a byte of the last block that is not the last one
is copied, or the request is refused. -/
theorem not_readsRight_of_neg (neg : r.offset < 0) (several : r.blksz ≠ 1) (inside : r.Inside true) :
    ¬ r.ReadsRight := by
  intro right
  have ordered := r.part.ordered
  have positive := r.blksz_pos
  -- only the last byte of the partition is not zero
  obtain ⟨dev, ptable, name, pte, holds, found, start, length⟩ :=
    exists_holds r (fun i => if i + 1 = r.partBytes then 1 else 0)
  have run := right dev _ ptable name pte zeros zeros holds found start length
  rw [if_pos inside, fslReadFromPartition_eq holds found start length] at run
  by_cases last : r.offset = -1
  · have first : r.firstByte = (r.partBytes - 1 : Nat) := by
      have whole : 0 < r.partBytes := Nat.mul_pos (by omega) positive
      rw [Request.firstByte, if_pos neg]
      omega
    obtain ⟨f, l, firstEq, lastEq, order, below, -⟩ := inside.bytes
    obtain ⟨end_, multi, margin⟩ : ∃ end_ multi, getMarginPos r.part.first r.part.last r.blksz r.offset r.numBytes true =
        some ⟨r.part.last, r.part.last, lastStart r.blksz, end_, multi⟩ := by
      have inOrder : ¬ (r.part.last < r.part.last ∨ r.part.last < r.part.first) := by omega
      simp only [getMarginPos_of_last r last, marginChecked, if_neg inOrder]
      split <;> exact ⟨_, _, rfl⟩
    obtain ⟨data, read, bytes⟩ := holds.block (r.part.last - r.part.first) (Nat.le_refl _)
    rw [show r.part.first + (r.part.last - r.part.first) = r.part.last by omega] at read
    have lastSmall := r.part.last_lt
    have wrong := lastStart_ne (by omega) r.blksz_lt
    have copied : (if lastStart r.blksz < dev.blksz then data (lastStart r.blksz) else zeros (lastStart r.blksz)) = 0 := by
      split
      · next low =>
        rw [holds.blksz] at low
        have bytesEq : r.partBytes = (r.part.last - r.part.first) * r.blksz + r.blksz := by
          rw [Request.partBytes, Nat.add_mul, Nat.one_mul]
        rw [bytes _ low, if_neg (by omega)]
      · rfl
    have byte := congrArg (fun result => result.buffer 0) run
    simp only [margin, w32_of_lt (show r.part.last < 2 ^ 32 by omega), show r.part.last + 1 - r.part.last = 1 by omega,
      readLoop, read] at byte
    have expected : overlay zeros 0 (r.lastByte - r.firstByte + 1).toNat
        (fun i => if r.firstByte.toNat + i + 1 = r.partBytes then (1 : UInt8) else 0) 0 = 1 := by
      rw [overlay_of_mem (Nat.zero_le _) (by omega), if_pos (by omega)]
    rw [expected] at byte
    unfold overlay at byte
    split at byte
    · rw [tail_apply, Nat.sub_zero, Nat.add_zero, copied] at byte
      exact absurd byte (by decide)
    · exact absurd byte (by decide)
  · rw [getMarginPos_of_neg r several (by omega)] at run
    have refused : AvbIOResult.errorRangeOutsidePartition = .ok := congrArg ReadResult.result run
    cases refused

/-- Where a request is answered right: by `get_margin_pos`, and by `fsl_read_from_partition` for all contents. -/
theorem request_right_iff (r : Request) :
    (∀ allowPartial, r.MarginRight allowPartial ↔ 0 ≤ r.offset ∨ r.blksz = 1 ∨ ¬ r.Inside allowPartial) ∧
    (r.ReadsRight ↔ (0 ≤ r.offset ∨ r.blksz = 1 ∨ ¬ r.Inside true) ∧ (r.Inside true → r.wholeBytes < 2 ^ 32)) := by
  refine ⟨fun allowPartial => marginRight_iff r, ⟨fun right => ⟨?_, fun inside => ?_⟩, ?_⟩⟩
  · by_contra none_
    rw [not_or, not_or, not_not] at none_
    exact not_readsRight_of_neg (by omega) none_.2.1 none_.2.2 right
  · have margin : r.MarginRight true := by
      refine (marginRight_iff r).mpr ?_
      by_contra none_
      rw [not_or, not_or, not_not] at none_
      exact not_readsRight_of_neg (by omega) none_.2.1 none_.2.2 right
    obtain ⟨dev, ptable, name, pte, holds, found, start, length⟩ := exists_holds r (fun _ => 0)
    obtain ⟨numRead, buffer', run, result⟩ := readsRight_of_margin margin inside holds found start length zeros zeros
    have expected := right dev _ ptable name pte zeros zeros holds found start length
    rw [run, if_pos inside] at expected
    by_contra long
    rw [if_neg long] at result
    exact result (Option.some.inj (congrArg ReadResult.outNumRead expected))
  · rintro ⟨margin, whole⟩ dev src ptable name pte behind buffer holds found start length
    have right := (marginRight_iff r).mpr margin
    by_cases inside : r.Inside true
    · obtain ⟨numRead, buffer', run, result⟩ := readsRight_of_margin right inside holds found start length behind buffer
      rw [if_pos (whole inside)] at result
      rw [if_pos inside, run, result.1, result.2]
    · rw [if_neg inside, fslReadFromPartition_eq holds found start length]
      unfold Request.MarginRight at right
      cases margin : getMarginPos r.part.first r.part.last r.blksz r.offset r.numBytes true with
      | none => rfl
      | some m =>
        rw [margin] at right
        exact absurd right.1 inside

def lastByteRequest : Request where
  part := ⟨0, 0, Nat.le_refl 0, by decide⟩
  blksz := 512
  offset := -1
  numBytes := 1
  blksz_pos := by decide
  blksz_lt := by decide
  offset_ge := by decide
  offset_lt := by decide
  numBytes_pos := by decide
  numBytes_lt := by decide

/-- The byte is looked for behind the block. -/
theorem lastByteRequest_wrong : lastByteRequest.Inside true ∧ lastByteRequest.firstByte % lastByteRequest.blksz = 511 ∧
    (getMarginPos 0 0 512 (-1) 1 true).map MarginPos.start = some 1023 ∧ ¬ lastByteRequest.MarginRight true ∧
    ¬ lastByteRequest.ReadsRight := by
  have inside : lastByteRequest.Inside true := by decide
  refine ⟨inside, by decide, by decide, fun right => ?_, not_readsRight_of_neg (by decide) (by decide) inside⟩
  rcases (marginRight_iff lastByteRequest).mp right with nonneg | bytes | outside
  · exact absurd nonneg (by decide)
  · exact absurd bytes (by decide)
  · exact outside inside

end UuuFastboot.Avb
