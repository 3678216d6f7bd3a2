import UuuFastboot.Lib.Word
import UuuFastboot.Lib.Bytes

namespace UuuFastboot.Ext4

open Word Overlay Bytes

/-- What the file system driver is given: the block device and the
partition that the volume lies in, and what C leaves open where the code
reads behind one of its own buffers. -/
structure Env where
  /-- `dev_desc->log2blksz` -/
  log2blksz : Nat
  /-- `part_info->start`, also kept in `part_offset` -/
  partStart : Nat
  /-- `part_info->size`, which is `total_sect` as well: the partition is
  counted in blocks of the device. -/
  partSize : Nat
  /-- The words behind the end of an indirect-block buffer. -/
  beyond : Nat → Nat
  /-- How many levels of an extent tree are followed before the lookup counts
  as one that does not return; the loop of the code has no bound. -/
  levels : Nat
  /-- How many blocks of the journal its scan looks at before it counts as one
  that does not return; that loop has no bound either. -/
  rounds : Nat
  /-- `ext2fs_crc16(crc, p, len)` -/
  crc16 : Nat → Buf → Nat → Nat

/-- `dev_desc->blksz` -/
def Env.devBlksz (env : Env) : Nat := 2 ^ env.log2blksz

theorem Env.devBlksz_pos (env : Env) : 0 < env.devBlksz := Nat.two_pow_pos _

def sectorOf (env : Env) (card : Buf) (sector : Nat) : Buf := tail card ((env.partStart + sector) * env.devBlksz)

/-- The last sector a request of `fs_devread` reaches; a request of no byte
at offset zero counts back by one. -/
def lastSector (env : Env) (sector byteOffset byteLen : Nat) : Nat :=
  if byteOffset + byteLen = 0 then w32 (sector + 2 ^ 32 - 1)
  else w32 (sector + (byteOffset + byteLen - 1) / env.devBlksz)

/-- The part of a request from a sector boundary on, put into `buf` at `pos`. -/
def readAligned (env : Env) (card : Buf) (sector byteLen pos : Nat) (buf : Buf) : Buf :=
  let blockLen := byteLen - byteLen % env.devBlksz
  if blockLen = 0 then overlay buf pos byteLen (sectorOf env card sector)
  else
    let buf := overlay buf pos blockLen (sectorOf env card sector)
    let rest := byteLen - blockLen
    if rest = 0 then buf
    else overlay buf (pos + blockLen) rest (sectorOf env card (sector + blockLen / env.devBlksz))

/-- `fs_devread`, on a device whose block reads succeed; `none` for a return
value of 0. -/
def fsDevread (env : Env) (card : Buf) (sector byteOffset byteLen : Nat) : Option Buf :=
  if env.partSize ≤ lastSector env sector byteOffset byteLen then none
  else
    let sector := sector + byteOffset / env.devBlksz
    let byteOffset := byteOffset % env.devBlksz
    if byteOffset = 0 then
      if byteLen = 0 then some zeros else some (readAligned env card sector byteLen 0 zeros)
    else
      -- the first part, which is not aligned with the start of a sector
      let readlen := min (env.devBlksz - byteOffset) byteLen
      let buf := overlay zeros 0 readlen (tail (sectorOf env card sector) byteOffset)
      if byteLen - readlen = 0 then some buf
      else some (readAligned env card (sector + 1) (byteLen - readlen) readlen buf)

/-- The requests of `blk_dread` that fail, by their first sector in the
partition and the number of sectors, and what a buffer on the stack holds that
was not filled. -/
structure Faults where
  fails : Nat → Nat → Bool
  junk : Buf

/-- As `readAligned`, on a device whose block reads may fail. The status of a
read that is to give less than a sector is not looked at. -/
def readAlignedOn (env : Env) (card : Buf) (faults : Faults) (sector byteLen pos : Nat) (buf : Buf) : Option Buf :=
  let blockLen := byteLen - byteLen % env.devBlksz
  if blockLen = 0 then
    some (overlay buf pos byteLen (if faults.fails sector 1 then faults.junk else sectorOf env card sector))
  else if faults.fails sector (blockLen / env.devBlksz) then none
  else
    let buf := overlay buf pos blockLen (sectorOf env card sector)
    let rest := byteLen - blockLen
    if rest = 0 then some buf
    else if faults.fails (sector + blockLen / env.devBlksz) 1 then none
    else some (overlay buf (pos + blockLen) rest (sectorOf env card (sector + blockLen / env.devBlksz)))

/-- `fs_devread`, on a device whose block reads may fail. -/
def fsDevreadOn (env : Env) (card : Buf) (faults : Faults) (sector byteOffset byteLen : Nat) : Option Buf :=
  if env.partSize ≤ lastSector env sector byteOffset byteLen then none
  else
    let sector := sector + byteOffset / env.devBlksz
    let byteOffset := byteOffset % env.devBlksz
    if byteOffset = 0 then
      if byteLen = 0 then some zeros else readAlignedOn env card faults sector byteLen 0 zeros
    else if faults.fails sector 1 then none
    else
      let readlen := min (env.devBlksz - byteOffset) byteLen
      let buf := overlay zeros 0 readlen (tail (sectorOf env card sector) byteOffset)
      if byteLen - readlen = 0 then some buf
      else readAlignedOn env card faults (sector + 1) (byteLen - readlen) readlen buf

/-- `put_ext4`, on a device whose block writes succeed: the whole card
afterwards. A request that starts inside a sector is one sector long, since
`sec_buf` has room for no more. -/
def putExt4 (env : Env) (card : Buf) (off : Nat) (buf : Buf) (size : Nat) : Buf :=
  let startblock := off / env.devBlksz + env.partStart
  let remainder := off % env.devBlksz
  if env.partStart + env.partSize < startblock + size / env.devBlksz then card
  else if remainder ≠ 0 then
    overlay card (startblock * env.devBlksz + remainder) (min size (env.devBlksz - remainder)) buf
  else if size / env.devBlksz ≠ 0 then
    overlay card (startblock * env.devBlksz) (size / env.devBlksz * env.devBlksz) buf
  else overlay card (startblock * env.devBlksz) size buf

def Env.volume (env : Env) (card : Buf) : Buf := tail card (env.partStart * env.devBlksz)

theorem sectorOf_apply (env : Env) (card : Buf) (sector i : Nat) :
    sectorOf env card sector i = env.volume card (sector * env.devBlksz + i) := by
  simp only [sectorOf, Env.volume, tail_apply]
  congr 1
  ring

theorem sectorOf_add (env : Env) (card : Buf) (sector n i : Nat) :
    sectorOf env card (sector + n) i = sectorOf env card sector (n * env.devBlksz + i) := by
  rw [sectorOf_apply, sectorOf_apply]
  congr 1
  ring

theorem readAligned_eq (env : Env) (card : Buf) (sector byteLen pos : Nat) (buf : Buf) :
    readAligned env card sector byteLen pos buf = overlay buf pos byteLen (sectorOf env card sector) := by
  have split := Nat.div_add_mod' byteLen env.devBlksz
  have whole : byteLen - byteLen % env.devBlksz = byteLen / env.devBlksz * env.devBlksz := by omega
  simp only [readAligned]
  split_ifs with none exact
  · rfl
  · rw [show byteLen - byteLen % env.devBlksz = byteLen by omega]
  · rw [overlay_append, show byteLen - byteLen % env.devBlksz + (byteLen - (byteLen - byteLen % env.devBlksz)) =
      byteLen by omega]
    refine overlay_congr (fun i below => ?_)
    split_ifs with inside
    · rfl
    · rw [whole, Nat.mul_div_cancel _ env.devBlksz_pos, sectorOf_add]
      congr 1
      omega

theorem fsDevread_eq (env : Env) (card : Buf) (sector byteOffset byteLen : Nat) :
    fsDevread env card sector byteOffset byteLen =
      if env.partSize ≤ lastSector env sector byteOffset byteLen then none
      else some (clip byteLen (tail (env.volume card) (sector * env.devBlksz + byteOffset))) := by
  have offset := Nat.div_add_mod' byteOffset env.devBlksz
  have below := Nat.mod_lt byteOffset env.devBlksz_pos
  have onto : ∀ (src : Buf), overlay zeros 0 byteLen src = clip byteLen src := by
    intro src
    funext i
    by_cases inside : i < byteLen
    · rw [overlay_of_mem (Nat.zero_le _) (by omega), clip_of_lt inside, Nat.sub_zero]
    · rw [overlay_of_ge (by omega), clip, if_neg inside]
      rfl
  have moved : ∀ i, sectorOf env card (sector + byteOffset / env.devBlksz) (byteOffset % env.devBlksz + i) =
      tail (env.volume card) (sector * env.devBlksz + byteOffset) i := by
    intro i
    rw [sectorOf_apply, tail_apply]
    congr 1
    rw [Nat.add_mul]
    omega
  simp only [fsDevread]
  split_ifs with outside aligned empty short
  · rfl
  · congr 1
    funext i
    rw [empty, clip, if_neg (by omega)]
    rfl
  · rw [readAligned_eq, onto]
    congr 2
    funext i
    rw [← moved i, aligned, Nat.zero_add]
  · congr 1
    rw [show min (env.devBlksz - byteOffset % env.devBlksz) byteLen = byteLen by omega, onto]
    congr 1
    funext i
    rw [tail_apply, moved]
  · rw [readAligned_eq]
    have append := overlay_append zeros (tail (sectorOf env card (sector + byteOffset / env.devBlksz))
      (byteOffset % env.devBlksz)) (sectorOf env card (sector + byteOffset / env.devBlksz + 1)) 0
      (min (env.devBlksz - byteOffset % env.devBlksz) byteLen)
      (byteLen - min (env.devBlksz - byteOffset % env.devBlksz) byteLen)
    rw [Nat.zero_add] at append
    rw [append, show min (env.devBlksz - byteOffset % env.devBlksz) byteLen +
      (byteLen - min (env.devBlksz - byteOffset % env.devBlksz) byteLen) = byteLen by omega, onto]
    congr 2
    funext i
    rw [← moved i]
    split_ifs with inside
    · rfl
    · rw [sectorOf_add]
      congr 1
      omega

theorem readAlignedOn_sound {env : Env} {card : Buf} {faults : Faults} {sector byteLen pos : Nat} {buf result : Buf}
    (more : 0 < byteLen) (read : readAlignedOn env card faults sector byteLen pos buf = some result)
    (sound : env.devBlksz ∣ byteLen ∨ faults.fails (sector + (byteLen - 1) / env.devBlksz) 1 = false) :
    readAligned env card sector byteLen pos buf = result := by
  have positive := env.devBlksz_pos
  simp only [readAlignedOn] at read
  simp only [readAligned]
  split_ifs at read ⊢ with short fails <;> try exact Option.some.inj read
  -- less than a sector, which cannot be read
  have small : byteLen < env.devBlksz := by
    have := Nat.mod_lt byteLen positive
    omega
  rcases sound with whole | fine
  · exact absurd (Nat.le_of_dvd more whole) (Nat.not_le_of_lt small)
  · rw [Nat.div_eq_of_lt (by omega), Nat.add_zero] at fine
    rw [fails] at fine
    cases fine

/-- What `fs_devread` returns with success is what the device has, if it ends
with a whole sector or the last sector can be read. -/
theorem fsDevreadOn_sound {env : Env} {card : Buf} {faults : Faults} {sector byteOffset byteLen : Nat} {buf : Buf}
    (read : fsDevreadOn env card faults sector byteOffset byteLen = some buf)
    (sound : env.devBlksz ∣ byteOffset + byteLen ∨
      faults.fails (sector + (byteOffset + byteLen - 1) / env.devBlksz) 1 = false) :
    fsDevread env card sector byteOffset byteLen = some buf := by
  have positive := env.devBlksz_pos
  have offset := Nat.div_add_mod' byteOffset env.devBlksz
  have below := Nat.mod_lt byteOffset positive
  -- the sectors in front of the aligned part
  have moved {front rest : Nat} (split : byteOffset + byteLen = front * env.devBlksz + rest) (more : 0 < rest) :
      env.devBlksz ∣ rest ∨ faults.fails (sector + front + (rest - 1) / env.devBlksz) 1 = false := by
    rcases sound with whole | fine
    · rw [split] at whole
      exact .inl ((Nat.dvd_add_right (Nat.dvd_mul_left _ _)).mp whole)
    · have last : (byteOffset + byteLen - 1) / env.devBlksz = front + (rest - 1) / env.devBlksz := by
        rw [split, Nat.add_sub_assoc more, Nat.add_comm, Nat.add_mul_div_right _ _ positive, Nat.add_comm]
      rw [last, ← Nat.add_assoc] at fine
      exact .inr fine
  simp only [fsDevreadOn] at read
  simp only [fsDevread]
  split_ifs at read ⊢ with outside aligned empty fails short
  · exact read
  · exact congrArg some (readAlignedOn_sound (by omega) read (moved (by omega) (by omega)))
  · exact read
  · refine congrArg some (readAlignedOn_sound (by omega) read ?_)
    have front : (byteOffset / env.devBlksz + 1) * env.devBlksz = byteOffset / env.devBlksz * env.devBlksz + env.devBlksz :=
      Nat.succ_mul _ _
    exact @moved (byteOffset / env.devBlksz + 1) _ (by omega) (by omega)

theorem volume_overlay (env : Env) (card : Buf) (off len : Nat) (buf : Buf) :
    env.volume (overlay card ((off + env.partStart * env.devBlksz)) len buf) = overlay (env.volume card) off len buf := by
  funext a
  simp only [Env.volume, tail_apply, overlay]
  by_cases inside : off ≤ a ∧ a < off + len
  · rw [if_pos (by omega), if_pos inside]
    congr 1
    omega
  · rw [if_neg (by omega), if_neg inside]

theorem volume_putExt4 {env : Env} {off size : Nat} (card buf : Buf) (aligned : env.devBlksz ∣ off)
    (whole : env.devBlksz ∣ size) (inside : off + size ≤ env.partSize * env.devBlksz) :
    env.volume (putExt4 env card off buf size) = overlay (env.volume card) off size buf := by
  obtain ⟨o, rfl⟩ := aligned
  obtain ⟨n, rfl⟩ := whole
  have positive := env.devBlksz_pos
  have fits : o + n ≤ env.partSize := by
    refine Nat.le_of_mul_le_mul_left ?_ positive
    rw [Nat.mul_add, Nat.mul_comm env.devBlksz env.partSize]
    exact inside
  have place : (o + env.partStart) * env.devBlksz = env.devBlksz * o + env.partStart * env.devBlksz := by ring
  simp only [putExt4, Nat.mul_div_cancel_left _ positive, Nat.mul_mod_right, place]
  rw [if_neg (by omega), if_neg (by simp)]
  split_ifs with some
  · rw [Nat.mul_comm n, volume_overlay]
  · rw [volume_overlay]

theorem volume_putExt4_outside {env : Env} {off size a : Nat} (card buf : Buf) (aligned : env.devBlksz ∣ off)
    (whole : env.devBlksz ∣ size) (outside : a < off ∨ off + size ≤ a) :
    env.volume (putExt4 env card off buf size) a = env.volume card a := by
  by_cases inside : off + size ≤ env.partSize * env.devBlksz
  · rw [volume_putExt4 card buf aligned whole inside]
    exact if_neg (by omega)
  · obtain ⟨o, rfl⟩ := aligned
    obtain ⟨n, rfl⟩ := whole
    have beyond : env.partSize < o + n := by
      by_contra fits
      refine inside ?_
      rw [← Nat.mul_add, Nat.mul_comm env.partSize]
      exact Nat.mul_le_mul_left _ (by omega)
    simp only [putExt4, Nat.mul_div_cancel_left _ env.devBlksz_pos]
    rw [if_pos (by omega)]

end UuuFastboot.Ext4
