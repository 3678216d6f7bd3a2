import UuuFastboot.Ext4.Device

namespace UuuFastboot.Ext4

open Word Overlay Bytes

/-- A partition on a device of `lba` sectors. -/
structure PartDev where
  env : Env
  /-- `dev_desc->lba`, an `lbaint_t` -/
  lba : Nat
  inside : env.partStart + env.partSize ≤ lba
  lba_lt : lba < 2 ^ 32

namespace PartDev

def bytes (d : PartDev) : Nat := d.env.partSize * d.env.devBlksz

/-- What a sector buffer holds after `blk_dread` of one sector was asked to
fill it; `junk` is what it held before. -/
def blkDread (d : PartDev) (junk card : Buf) (start : Nat) : Buf :=
  if w32 start + 1 ≤ d.lba then tail card (w32 start * d.env.devBlksz) else junk

/-- `blk_dwrite`, which leaves the card alone if it is asked for a sector behind the end. -/
def blkDwrite (d : PartDev) (card : Buf) (start blkcnt : Nat) (buf : Buf) : Buf :=
  if w32 start + blkcnt ≤ d.lba then overlay card (w32 start * d.env.devBlksz) (blkcnt * d.env.devBlksz) buf else card

/-- A sector is read, changed from `remainder` on and written back; `none`
if the copy runs over the end of `sec_buf`. -/
def putSector (d : PartDev) (junk card : Buf) (startblock remainder : Nat) (buf : Buf) (size : Nat) : Option Buf :=
  if d.env.devBlksz < remainder + size then none
  else some (d.blkDwrite card startblock 1 (overlay (d.blkDread junk card startblock) remainder size buf))

/-- `put_ext4` for any offset and size: whether it goes past its test, and the
card afterwards. The sectors are counted in 64 bits. -/
def putExt4Run (d : PartDev) (junk card : Buf) (off : Nat) (buf : Buf) (size : Nat) : Option (Bool × Buf) :=
  let startblock := (off / d.env.devBlksz + d.env.partStart) % 2 ^ 64
  let remainder := off % d.env.devBlksz
  if d.env.partStart + d.env.partSize < (startblock + size / d.env.devBlksz) % 2 ^ 64 then some (false, card)
  else if remainder ≠ 0 then (d.putSector junk card startblock remainder buf size).map (true, ·)
  else if size / d.env.devBlksz ≠ 0 then some (true, d.blkDwrite card startblock (size / d.env.devBlksz) buf)
  else (d.putSector junk card startblock 0 buf size).map (true, ·)

/-- The request is turned down exactly if it leaves the partition, and
otherwise it changes the bytes it names and no other byte of the device. -/
def PutsExactly (d : PartDev) (off size : Nat) : Prop :=
  ∀ junk card buf, ∃ accepted card', d.putExt4Run junk card off buf size = some (accepted, card') ∧
    (accepted = false ↔ d.bytes < off + size) ∧
    card' = if accepted then overlay card (d.env.partStart * d.env.devBlksz + off) size buf else card

variable {d : PartDev} {off size startblock remainder : Nat} {junk card buf : Buf}

theorem putSector_eq (fits : remainder + size ≤ d.env.devBlksz) (small : startblock < 2 ^ 32)
    (onto : startblock < d.lba ∨ size = 0) :
    d.putSector junk card startblock remainder buf size =
      some (overlay card (startblock * d.env.devBlksz + remainder) size buf) := by
  have sector : (startblock + 1) * d.env.devBlksz = startblock * d.env.devBlksz + d.env.devBlksz := Nat.succ_mul _ _
  rw [putSector, if_neg (Nat.not_lt.mpr fits), blkDwrite, blkDread, w32_of_lt small]
  congr 1
  split_ifs with there
  · funext a
    simp only [overlay, tail_apply, one_mul]
    split_ifs <;> first | rfl | omega | (congr 1; omega)
  · obtain rfl : size = 0 := by omega
    rw [overlay_zero]

theorem putExt4Run_inside (within : off + size ≤ d.bytes) :
    d.putExt4Run junk card off buf size =
      if off % d.env.devBlksz ≠ 0 ∨ size / d.env.devBlksz = 0 then
        (d.putSector junk card (off / d.env.devBlksz + d.env.partStart) (off % d.env.devBlksz) buf size).map (true, ·)
      else some (true, overlay card (d.env.partStart * d.env.devBlksz + off)
        (size / d.env.devBlksz * d.env.devBlksz) buf) := by
  have sum : off / d.env.devBlksz + size / d.env.devBlksz ≤ (off + size) / d.env.devBlksz := Nat.div_add_div_le_add_div ..
  have below : (off + size) / d.env.devBlksz ≤ d.env.partSize :=
    Nat.div_le_of_le_mul (by rw [Nat.mul_comm]; exact within)
  have offset := Nat.div_add_mod' off d.env.devBlksz
  have inside := d.inside
  have lba := d.lba_lt
  unfold putExt4Run blkDwrite
  generalize size / d.env.devBlksz = count at *
  generalize off / d.env.devBlksz = first at *
  rw [Nat.mod_eq_of_lt (by omega : first + d.env.partStart < 2 ^ 64)]
  dsimp only
  rw [if_neg (by rw [Nat.mod_eq_of_lt (by omega)]; omega), w32_of_lt (by omega)]
  by_cases aligned : off % d.env.devBlksz = 0
  · by_cases short : count = 0
    · rw [if_neg (not_not.mpr aligned), if_neg (not_not.mpr short), if_pos (.inr short), aligned]
    · have there : first + d.env.partStart + count ≤ d.lba := by omega
      rw [if_neg (not_not.mpr aligned), if_pos short, if_pos there, if_neg (by tauto), Nat.add_mul,
        show first * d.env.devBlksz = off by omega, Nat.add_comm off]
  · rw [if_pos aligned, if_pos (.inl aligned)]

/-- A request inside the partition changes what it names if it does not leave
its sector, or if it is made of whole sectors. -/
theorem putExt4Run_exact (within : off + size ≤ d.bytes)
    (shape : off % d.env.devBlksz + size ≤ d.env.devBlksz ∨ d.env.devBlksz ∣ off ∧ d.env.devBlksz ∣ size) :
    d.putExt4Run junk card off buf size =
      some (true, overlay card (d.env.partStart * d.env.devBlksz + off) size buf) := by
  have offset := Nat.div_add_mod' off d.env.devBlksz
  have positive := d.env.devBlksz_pos
  have inside := d.inside
  have lba := d.lba_lt
  rw [putExt4Run_inside within]
  split_ifs with part
  · have fits : off % d.env.devBlksz + size ≤ d.env.devBlksz := by
      rcases shape with fits | ⟨aligned, whole⟩
      · exact fits
      · have none : size / d.env.devBlksz = 0 := part.resolve_left (not_not.mpr (Nat.mod_eq_zero_of_dvd aligned))
        rw [Nat.eq_zero_of_dvd_of_div_eq_zero whole none, Nat.mod_eq_zero_of_dvd aligned]
        omega
    have first : off / d.env.devBlksz < d.env.partSize ∨ off / d.env.devBlksz = d.env.partSize ∧ size = 0 := by
      by_contra beyond
      have least : d.env.partSize * d.env.devBlksz ≤ off / d.env.devBlksz * d.env.devBlksz :=
        Nat.mul_le_mul_right _ (by omega)
      have : off / d.env.devBlksz ≤ d.env.partSize :=
        Nat.div_le_of_le_mul (by rw [Nat.mul_comm]; exact Nat.le_trans (Nat.le_add_right off size) within)
      unfold bytes at within
      omega
    rw [putSector_eq fits (by omega) (by omega), Option.map_some, Nat.add_mul, Nat.add_right_comm, offset, Nat.add_comm off]
  · have whole : d.env.devBlksz ∣ size := by
      rcases shape with fits | ⟨-, whole⟩
      · have most : size / d.env.devBlksz * d.env.devBlksz ≤ size := Nat.div_mul_le_self _ _
        have least : 1 * d.env.devBlksz ≤ size / d.env.devBlksz * d.env.devBlksz :=
          Nat.mul_le_mul_right _ (Nat.pos_of_ne_zero fun none => part (.inr none))
        rw [show size = d.env.devBlksz by omega]
      · exact whole
    rw [Nat.div_mul_cancel whole]

/-- `put_ext4` is exact for the requests that its test sees through, and that
lie in one sector or are made of whole ones. -/
theorem putsExactly_iff (d : PartDev) (off size : Nat) :
    d.PutsExactly off size ↔
      (d.bytes < off + size → d.env.partStart + d.env.partSize <
        ((off / d.env.devBlksz + d.env.partStart) % 2 ^ 64 + size / d.env.devBlksz) % 2 ^ 64) ∧
      (off + size ≤ d.bytes →
        off % d.env.devBlksz + size ≤ d.env.devBlksz ∨ d.env.devBlksz ∣ off ∧ d.env.devBlksz ∣ size) := by
  constructor
  · refine fun exactly => ⟨fun beyond => ?_, fun within => ?_⟩
    · obtain ⟨accepted, card', run, rejected, -⟩ := exactly zeros zeros zeros
      rw [rejected.mpr beyond] at run
      by_contra passed
      unfold putExt4Run at run
      dsimp only at run
      rw [if_neg passed] at run
      split_ifs at run <;> simp [Option.map_eq_some_iff] at run
    · by_contra shape
      obtain ⟨accepted, card', run, rejected, stored⟩ := exactly zeros zeros (fun _ => 1)
      obtain rfl : accepted = true := by
        rw [← Bool.not_eq_false, rejected]
        omega
      rw [putExt4Run_inside within] at run
      split_ifs at run with part
      · rw [putSector, if_pos (by omega)] at run
        cases run
      · -- the bytes behind the last whole sector stay as they were
        have split := Nat.div_add_mod' size d.env.devBlksz
        have rest : size % d.env.devBlksz ≠ 0 := fun whole =>
          shape (.inr ⟨Nat.dvd_of_mod_eq_zero (by omega), Nat.dvd_of_mod_eq_zero whole⟩)
        rw [stored] at run
        have byte := congrFun (congrArg Prod.snd (Option.some.inj run))
          (d.env.partStart * d.env.devBlksz + off + size / d.env.devBlksz * d.env.devBlksz)
        dsimp only at byte
        rw [overlay_of_ge (Nat.le_refl _), if_pos rfl, overlay_of_mem (by omega) (by omega)] at byte
        exact absurd (show (0 : UInt8) = 1 from byte) (by decide)
  · rintro ⟨seen, shape⟩ junk card buf
    by_cases within : off + size ≤ d.bytes
    · exact ⟨true, _, putExt4Run_exact within (shape within), by simp [within], by simp⟩
    · refine ⟨false, card, ?_, by simp; omega, by simp⟩
      unfold putExt4Run
      exact if_pos (seen (by omega))

def twoSectors : PartDev where
  env := { log2blksz := 9, partStart := 8, partSize := 2, beyond := fun _ => 0, levels := 5, rounds := 0,
           crc16 := fun _ _ _ => 0 }
  lba := 16
  inside := by decide
  lba_lt := by decide

/-- Four bytes behind the end of the partition are accepted, and the first
sector of the next partition is changed. -/
theorem twoSectors_overrun :
    ((twoSectors.putExt4Run zeros zeros 1024 (fun _ => 1) 4).map fun out => (out.1, out.2 (10 * 512))) = some (true, 1) ∧
      ¬ twoSectors.PutsExactly 1024 4 := by
  have run : ((twoSectors.putExt4Run zeros zeros 1024 (fun _ => 1) 4).map fun out => (out.1, out.2 (10 * 512))) =
      some (true, 1) := by decide +kernel
  refine ⟨run, fun exactly => ?_⟩
  obtain ⟨accepted, card', result, rejected, -⟩ := exactly zeros zeros (fun _ => 1)
  rw [result, rejected.mpr (by decide)] at run
  simp at run

theorem putExt4Run_aligned (aligned : d.env.devBlksz ∣ off) (whole : d.env.devBlksz ∣ size)
    (within : off + size ≤ d.bytes) (junk card buf : Buf) :
    ∃ card', d.putExt4Run junk card off buf size = some (true, card') ∧
      d.env.volume card' = d.env.volume (putExt4 d.env card off buf size) := by
  refine ⟨_, putExt4Run_exact within (.inr ⟨aligned, whole⟩), ?_⟩
  rw [Nat.add_comm, volume_overlay, volume_putExt4 card buf aligned whole within]

end PartDev

/-! Reads of any stretch, with any outcome of the device reads they are made of. -/

/-- A call of `fs_devread` for at least one byte. -/
structure DevRead where
  sector : Nat
  byteOffset : Nat
  byteLen : Nat
  sector_lt : sector < 2 ^ 32
  byteOffset_lt : byteOffset < 2 ^ 31
  byteLen_pos : 0 < byteLen
  byteLen_lt : byteLen < 2 ^ 31

/-- The device reads of a stretch that starts with a sector: first sector and
number of sectors. -/
def alignedReads (env : Env) (sector byteLen : Nat) : List (Nat × Nat) :=
  (if byteLen / env.devBlksz = 0 then [] else [(sector, byteLen / env.devBlksz)]) ++
    if byteLen % env.devBlksz = 0 then [] else [(sector + byteLen / env.devBlksz, 1)]

/-- Those of them whose status is looked at: a stretch of less than a sector is
taken from whatever the buffer holds. -/
def alignedChecked (env : Env) (sector byteLen : Nat) : List (Nat × Nat) :=
  if byteLen / env.devBlksz = 0 then [] else alignedReads env sector byteLen

namespace DevRead

/-- The read of the first sector where the request starts inside it, and what
`aligned` gives for the part behind. -/
def split (env : Env) (q : DevRead) (aligned : Nat → Nat → List (Nat × Nat)) : List (Nat × Nat) :=
  let first := q.sector + q.byteOffset / env.devBlksz
  let start := q.byteOffset % env.devBlksz
  if start = 0 then aligned first q.byteLen
  else (first, 1) :: aligned (first + 1) (q.byteLen - min (env.devBlksz - start) q.byteLen)

def reads (env : Env) (q : DevRead) : List (Nat × Nat) := q.split env (alignedReads env)

def checked (env : Env) (q : DevRead) : List (Nat × Nat) := q.split env (alignedChecked env)

def Inside (env : Env) (q : DevRead) : Prop :=
  q.sector * env.devBlksz + q.byteOffset + q.byteLen ≤ env.partSize * env.devBlksz

end DevRead

section

variable {env : Env} {card buf : Buf} {faults : Faults}

theorem readAlignedOn_eq_none {sector byteLen pos : Nat} :
    readAlignedOn env card faults sector byteLen pos buf = none ↔
      ∃ r ∈ alignedChecked env sector byteLen, faults.fails r.1 r.2 = true := by
  have whole : byteLen - byteLen % env.devBlksz = byteLen / env.devBlksz * env.devBlksz := by
    have := Nat.div_add_mod' byteLen env.devBlksz
    omega
  have positive := env.devBlksz_pos
  have below := Nat.mod_le byteLen env.devBlksz
  have rest : byteLen - byteLen / env.devBlksz * env.devBlksz = byteLen % env.devBlksz := by omega
  simp only [readAlignedOn, alignedChecked, alignedReads, whole, Nat.mul_div_cancel _ positive, rest,
    Nat.mul_eq_zero, positive.ne', or_false]
  by_cases short : byteLen / env.devBlksz = 0
  · simp [short]
  · by_cases exact : byteLen % env.devBlksz = 0 <;>
      cases failing : faults.fails sector (byteLen / env.devBlksz) <;> simp [short, exact, failing]

variable {q : DevRead}

theorem fsDevreadOn_eq_none :
    fsDevreadOn env card faults q.sector q.byteOffset q.byteLen = none ↔
      env.partSize ≤ lastSector env q.sector q.byteOffset q.byteLen ∨
        ∃ r ∈ q.checked env, faults.fails r.1 r.2 = true := by
  have some := q.byteLen_pos
  simp only [fsDevreadOn, DevRead.checked, DevRead.split]
  by_cases outside : env.partSize ≤ lastSector env q.sector q.byteOffset q.byteLen
  · simp [outside]
  by_cases aligned : q.byteOffset % env.devBlksz = 0
  · simp only [outside, aligned, some.ne', if_true, if_false, false_or, readAlignedOn_eq_none]
  · cases failing : faults.fails (q.sector + q.byteOffset / env.devBlksz) 1
    · by_cases last : q.byteLen - min (env.devBlksz - q.byteOffset % env.devBlksz) q.byteLen = 0
      · simp [outside, aligned, failing, last, alignedChecked]
      · simp [outside, aligned, failing, last, readAlignedOn_eq_none]
    · simp [outside, aligned, failing]

theorem pred_div_of_rest {a b n : Nat} (positive : 0 < b) (rest : n % b ≠ 0) : (a * b + n - 1) / b = a + n / b := by
  have split := Nat.div_add_mod' n b
  have below := Nat.mod_lt n positive
  rw [show a * b + n - 1 = n % b - 1 + (a + n / b) * b by rw [Nat.add_mul]; omega,
    Nat.add_mul_div_right _ _ positive, Nat.div_eq_of_lt (by omega), Nat.zero_add]

theorem DevRead.last_mem_reads (inner : ¬ env.devBlksz ∣ q.byteOffset + q.byteLen) :
    (q.sector + (q.byteOffset + q.byteLen - 1) / env.devBlksz, 1) ∈ q.reads env := by
  have positive := env.devBlksz_pos
  have offset := Nat.div_add_mod' q.byteOffset env.devBlksz
  have below := Nat.mod_lt q.byteOffset positive
  have some := q.byteLen_pos
  -- the part behind `front` sectors ends inside a sector as well
  have tailRead {front rest : Nat} (split : q.byteOffset + q.byteLen = front * env.devBlksz + rest) :
      (q.sector + (q.byteOffset + q.byteLen - 1) / env.devBlksz, 1) ∈ alignedReads env (q.sector + front) rest := by
    have cut : rest % env.devBlksz ≠ 0 := fun whole =>
      inner (split ▸ Nat.dvd_add (Nat.dvd_mul_left _ _) (Nat.dvd_of_mod_eq_zero whole))
    rw [split, pred_div_of_rest positive cut, ← Nat.add_assoc, alignedReads, if_neg cut]
    exact List.mem_append_right _ (List.mem_singleton_self _)
  unfold DevRead.reads DevRead.split
  dsimp only
  split_ifs with aligned
  · exact tailRead (by omega)
  · by_cases short : q.byteOffset % env.devBlksz + q.byteLen ≤ env.devBlksz
    · refine List.mem_cons.mpr (.inl ?_)
      rw [show q.byteOffset + q.byteLen - 1 =
        q.byteOffset % env.devBlksz + q.byteLen - 1 + q.byteOffset / env.devBlksz * env.devBlksz by omega,
        Nat.add_mul_div_right _ _ positive, Nat.div_eq_of_lt (by omega), Nat.zero_add]
    · have sector : (q.byteOffset / env.devBlksz + 1) * env.devBlksz =
        q.byteOffset / env.devBlksz * env.devBlksz + env.devBlksz := Nat.succ_mul _ _
      exact List.mem_cons_of_mem _ (@tailRead (q.byteOffset / env.devBlksz + 1) _ (by omega))

end

namespace PartDev

/-- Whether `blk_dread` of sectors of the device gives them all. -/
def readable (d : PartDev) (ok : Nat → Nat → Bool) (start blkcnt : Nat) : Bool :=
  ok start blkcnt && decide (start + blkcnt ≤ d.lba)

/-- The reads of a run that fail. The sectors are counted in 32 bits. -/
def faults (d : PartDev) (ok : Nat → Nat → Bool) (junk : Buf) : Faults where
  fails sector blkcnt := !(d.readable ok (w32 (d.env.partStart + sector)) blkcnt)
  junk := junk

def wrapped (d : PartDev) (card : Buf) : Buf := fun a => card (a % (2 ^ 32 * d.env.devBlksz))

/-- `fs_devread` with any outcome `ok` of the device reads; `none` if the
sum of offset and length is no `int`. -/
def fsDevreadRun (d : PartDev) (ok : Nat → Nat → Bool) (junk card : Buf) (q : DevRead) : Option (Option Buf) :=
  if 2 ^ 31 ≤ q.byteOffset + q.byteLen then none
  else some (fsDevreadOn d.env (d.wrapped card) (d.faults ok junk) q.sector q.byteOffset q.byteLen)

/-- The read gives the bytes it was asked for or fails, and it fails if one of
its device reads does or if it leaves the partition. -/
def ReadsExactly (d : PartDev) (ok : Nat → Nat → Bool) (q : DevRead) : Prop :=
  ∀ junk card, ∃ result, d.fsDevreadRun ok junk card q = some result ∧
    (∀ buf, result = some buf → q.Inside d.env ∧
      ∀ i < q.byteLen, buf i = d.env.volume card (q.sector * d.env.devBlksz + q.byteOffset + i)) ∧
    ((∃ r ∈ q.reads d.env, d.readable ok (w32 (d.env.partStart + r.1)) r.2 = false) ∨ ¬ q.Inside d.env → result = none)

variable {d : PartDev} {ok : Nat → Nat → Bool} {q : DevRead}

theorem volume_wrapped (card : Buf) {a : Nat} (inside : a < d.bytes) :
    d.env.volume (d.wrapped card) a = d.env.volume card a := by
  have sum := Nat.mul_le_mul_right d.env.devBlksz (Nat.le_trans d.inside d.lba_lt.le)
  rw [Nat.add_mul] at sum
  unfold bytes at inside
  simp only [Env.volume, tail_apply, wrapped]
  rw [Nat.mod_eq_of_lt (by omega)]

/-- `fs_devread` is exact where the sum of offset and length is an `int`, and
an accepted request lies in the partition without a failing read, or one
fails whose status is looked at. -/
theorem readsExactly_iff (d : PartDev) (ok : Nat → Nat → Bool) (q : DevRead) :
    d.ReadsExactly ok q ↔ q.byteOffset + q.byteLen < 2 ^ 31 ∧
      (lastSector d.env q.sector q.byteOffset q.byteLen < d.env.partSize →
        (∃ r ∈ q.checked d.env, d.readable ok (w32 (d.env.partStart + r.1)) r.2 = false) ∨
        q.Inside d.env ∧ ∀ r ∈ q.reads d.env, d.readable ok (w32 (d.env.partStart + r.1)) r.2 = true) := by
  have stops (junk card : Buf) := @fsDevreadOn_eq_none d.env (d.wrapped card) (d.faults ok junk) q
  simp only [faults, Bool.not_eq_true'] at stops
  constructor
  · intro exactly
    obtain ⟨result, run, right, fails⟩ := exactly zeros zeros
    have small : ¬ 2 ^ 31 ≤ q.byteOffset + q.byteLen := fun large => by
      rw [fsDevreadRun, if_pos large] at run
      cases run
    rw [fsDevreadRun, if_neg small] at run
    refine ⟨by omega, fun accepted => or_iff_not_imp_left.mpr fun passed => ?_⟩
    have given : result ≠ none := fun none => by
      rcases (stops zeros zeros).mp ((Option.some.inj run).trans none) with outside | failed
      · omega
      · exact passed failed
    obtain ⟨buf, got⟩ := Option.ne_none_iff_exists'.mp given
    refine ⟨(right buf got).1, fun r member => ?_⟩
    by_contra failing
    exact given (fails (.inl ⟨r, member, Bool.eq_false_iff.mpr failing⟩))
  · rintro ⟨small, sound⟩ junk card
    refine ⟨_, if_neg (by omega), ?_⟩
    by_cases none : fsDevreadOn d.env (d.wrapped card) (d.faults ok junk) q.sector q.byteOffset q.byteLen = none
    · exact ⟨fun buf got => (nomatch none.symm.trans got), fun _ => none⟩
    obtain ⟨passed, noneFails⟩ := not_or.mp (fun either => none ((stops junk card).mpr either))
    obtain ⟨inside, clean⟩ := (sound (by omega)).resolve_left noneFails
    refine ⟨fun buf got => ⟨inside, fun i below => ?_⟩, ?_⟩
    · have read := fsDevreadOn_sound got (or_iff_not_imp_left.mpr fun inner => by
        simp only [faults, clean _ (q.last_mem_reads inner), Bool.not_true])
      rw [fsDevread_eq, if_neg passed] at read
      rw [← Option.some.inj read, clip_of_lt below, tail_apply]
      refine volume_wrapped card ?_
      unfold DevRead.Inside at inside
      unfold bytes
      omega
    · rintro (⟨r, member, failing⟩ | outside)
      · rw [clean r member] at failing
        cases failing
      · exact absurd inside outside

def fourBytes : DevRead where
  sector := 0
  byteOffset := 0
  byteLen := 4
  sector_lt := by decide
  byteOffset_lt := by decide
  byteLen_pos := by decide
  byteLen_lt := by decide

/-- The one read of a short request fails, and the request succeeds with
what lay on the stack. -/
theorem fourBytes_junk :
    ((twoSectors.fsDevreadRun (fun _ _ => false) (fun _ => 1) zeros fourBytes).map fun r => r.map fun buf => buf 0) =
        some (some 1) ∧
      ¬ twoSectors.ReadsExactly (fun _ _ => false) fourBytes := by
  have run : ((twoSectors.fsDevreadRun (fun _ _ => false) (fun _ => 1) zeros fourBytes).map fun r =>
      r.map fun buf => buf 0) = some (some 1) := by decide +kernel
  refine ⟨run, fun exactly => ?_⟩
  obtain ⟨result, given, -, fails⟩ := exactly (fun _ => 1) zeros
  rw [given, fails (.inl ⟨(0, 1), by decide, rfl⟩)] at run
  cases run

end PartDev

end UuuFastboot.Ext4
