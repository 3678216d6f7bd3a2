import UuuFastboot.Ext4.ReadSpec
import UuuFastboot.Ext4.IndirectRun

namespace UuuFastboot.Ext4

open Word Overlay Bytes

section Devices

variable {env : Env} {g : Geometry} {root : Root} {x off len : Nat} (fits : g.Fits env)
  (log2 : root.log2BlockSize = g.log2bs)
include fits log2

theorem blockSector_add (below : x < g.totalBlocks) (more : 0 < len) :
    blockSector env root x + (off + len - 1) / env.devBlksz = (x * g.bs + off + len - 1) / env.devBlksz := by
  have bytes : x * g.bs + off + len - 1 = off + len - 1 + blockSector env root x * env.devBlksz := by
    rw [blockSector_mul fits log2 below.le]
    omega
  rw [bytes, Nat.add_mul_div_right _ _ env.devBlksz_pos, Nat.add_comm]

theorem lastSector_eq (below : x < g.totalBlocks) (more : 0 < len)
    (room : x * g.bs + off + len ≤ (g.totalBlocks + 1) * g.bs) :
    lastSector env (blockSector env root x) off len = (x * g.bs + off + len - 1) / env.devBlksz := by
  have size := fits.bs_eq
  have sectors := fits.sectors_le
  have addressed := fits.addressed
  -- the block behind the volume still has sector numbers of 32 bits, since the number of sectors is a multiple
  have whole : (g.totalBlocks + 1) * 2 ^ (g.log2bs - env.log2blksz) ≤ 2 ^ 32 := by
    have small : g.log2bs - env.log2blksz < 32 := by
      refine (Nat.pow_lt_pow_iff_right (by decide : 1 < 2)).mp ?_
      have := Nat.le_mul_of_pos_left (2 ^ (g.log2bs - env.log2blksz)) (Nat.zero_lt_of_lt below)
      omega
    have split : 2 ^ 32 = 2 ^ (32 - (g.log2bs - env.log2blksz)) * 2 ^ (g.log2bs - env.log2blksz) := by
      rw [← Nat.pow_add, Nat.sub_add_cancel small.le]
    have less : g.totalBlocks * 2 ^ (g.log2bs - env.log2blksz) < 2 ^ 32 := by omega
    rw [split] at less ⊢
    exact Nat.mul_le_mul_right _ (Nat.lt_of_mul_lt_mul_right less)
  rw [lastSector, if_neg (by omega), blockSector_add fits log2 below more, w32_of_lt]
  refine Nat.div_lt_of_lt_mul ?_
  have bytes := Nat.mul_le_mul_right env.devBlksz whole
  rw [Nat.mul_assoc, ← size] at bytes
  omega

theorem fsDevread_honest (card : Buf) :
    g.Honest env root (env.volume card) (fsDevread env card) (fun _ _ _ => True) := by
  intro x off len buf below more room _ read
  rw [fsDevread_eq, lastSector_eq fits log2 below more room, blockSector_mul fits log2 below.le] at read
  split at read
  · cases read
  · next inside =>
    rw [Nat.le_div_iff_mul_le env.devBlksz_pos] at inside
    exact ⟨by omega, (Option.some.inj read).symm⟩

theorem fsDevread_isSome (card : Buf) (below : x < g.totalBlocks) (more : 0 < len)
    (inside : x * g.bs + off + len ≤ env.partSize * env.devBlksz) :
    (fsDevread env card (blockSector env root x) off len).isSome := by
  have addressed := fits.addressed
  have less : (x * g.bs + off + len - 1) / env.devBlksz < env.partSize :=
    Nat.div_lt_of_lt_mul (by rw [Nat.mul_comm env.devBlksz]; omega)
  rw [fsDevread_eq, lastSector, if_neg (by omega : ¬ off + len = 0), blockSector_add fits log2 below more, w32_of_lt (by omega), if_neg (by omega)]
  rfl

/-- With failing block reads, the requests that end with a sector, or whose last sector can be read, are honest. -/
theorem fsDevreadOn_honest (card : Buf) (faults : Faults) :
    g.Honest env root (env.volume card) (fsDevreadOn env card faults) (fun x off len =>
      env.devBlksz ∣ off + len ∨ faults.fails ((x * g.bs + off + len - 1) / env.devBlksz) 1 = false) := by
  intro x off len buf below more room sound read
  exact fsDevread_honest fits log2 card below more room trivial (fsDevreadOn_sound read (by rwa [blockSector_add fits log2 below more]))

end Devices

/-- Number of bytes that a read of `len` bytes from `pos` on gives. -/
def readLength (inode : Buf) (pos len : Nat) : Nat := min (pos + len) (Inode.size inode) - pos

/-- A call of `ext4fs_read_file` for a file whose block `i` is block `B i` of the volume, or a hole. The sum of `pos`
and `len` is a `loff_t`, and the number of bytes of a request to the device is an `int`. -/
structure ReadCall (g : Geometry) (lookup : Nat → ExtCache → Caches → Option (Nat × ExtCache × Caches)) (inode : Buf)
    (B : Nat → Nat) (pos len : Nat) (c c' : Caches) : Prop where
  sum : pos + len < 2 ^ 63
  extent : pos % g.bs + readLength inode pos len < 2 ^ 31
  below : ∀ i, pos / g.bs ≤ i → i * g.bs < pos + readLength inode pos len → B i < g.totalBlocks
  answers : LooksUp lookup B ((readLength inode pos len + pos + g.bs - 1) / g.bs - pos / g.bs) (pos / g.bs) none c c'

/-- If the call succeeds, the buffer holds the bytes of the file and is else as it was before. -/
def ReadsRight (g : Geometry) (V : Buf) (B : Nat → Nat) (pos n : Nat) (out : Buf)
    (result : Option (Option (Buf × Nat) × Caches)) : Prop :=
  ∀ done actread c, result = some (some (done, actread), c) →
    actread = n ∧ done = overlay out 0 n (tail (g.fileBytes V B) pos)

/-- The bytes that are read in place of those of the file are the same, or they lie behind the partition. -/
def Geometry.SlipHarmless (g : Geometry) (env : Env) (V : Buf) (B : Nat → Nat) (pos n : Nat) : Prop :=
  (∀ t < n, g.readFrom env B pos n ((pos + t) / g.bs) ≠ 0 →
      g.place (g.readFrom env B pos n) (pos + t) < env.partSize * env.devBlksz) →
    ∀ t < n, g.fileBytes V (g.readFrom env B pos n) (pos + t) = g.fileBytes V B (pos + t)

section File

variable {env : Env} {g : Geometry} {root : Root} {lookup : Nat → ExtCache → Caches → Option (Nat × ExtCache × Caches)}
  {inode : Buf} {B : Nat → Nat} {pos len : Nat} {c c' : Caches} {read : Nat → Nat → Nat → Option Buf}
  {trusted : Nat → Nat → Nat → Prop} {V : Buf}

theorem ReadCall.result (fits : g.Fits env) (log2 : root.log2BlockSize = g.log2bs)
    (call : ReadCall g lookup inode B pos len c c') (positive : 0 < readLength inode pos len)
    (honest : g.Honest env root V read trusted)
    (aligned : ∀ {x off len : Nat}, env.devBlksz ∣ off + len → trusted x off len)
    (last : ∀ {x off m : Nat}, 0 < m → x * g.bs + off + m =
      g.place (g.readFrom env B pos (readLength inode pos len)) (pos + readLength inode pos len - 1) + 1 →
        trusted x off m) (out : Buf) :
    ∃ result c'', ext4fsReadFileWith env root read lookup inode pos len out c =
        some (result.map (fun done => (done, readLength inode pos len)), c'') ∧
      (result = none ∧ ¬ g.AllReadable env root read (g.readFrom env B pos (readLength inode pos len)) pos
          (readLength inode pos len) ∨
        result = some (overlay out 0 (readLength inode pos len)
            (tail (g.fileBytes V (g.readFrom env B pos (readLength inode pos len))) pos)) ∧ c'' = c' ∧
          ∀ t < readLength inode pos len, g.readFrom env B pos (readLength inode pos len) ((pos + t) / g.bs) ≠ 0 →
            g.place (g.readFrom env B pos (readLength inode pos len)) (pos + t) < env.partSize * env.devBlksz) := by
  have clamp : (if Inode.size inode < len + pos then Inode.size inode - pos else len) = readLength inode pos len := by
    unfold readLength
    split <;> omega
  have below := call.below
  have answers := call.answers
  simp only [ext4fsReadFileWith, clamp, blockSize_of_log2 log2, if_neg (Nat.ne_of_gt positive)]
  generalize readLength inode pos len = n at *
  have front : pos / g.bs * g.bs ≤ pos := Nat.div_mul_le_self pos g.bs
  have count : pos / g.bs + ((n + pos + g.bs - 1) / g.bs - pos / g.bs) = (n + pos + g.bs - 1) / g.bs :=
    Nat.add_sub_cancel' (Nat.div_le_div_right (by omega))
  have begins : Reading env g root V B pos n out (pos / g.bs) ⟨0, none, out, none, c⟩ := by
    refine ⟨?_, 0, (overlay_zero _ _ _).symm, fun t none => absurd none (Nat.not_lt_zero t), .inl ⟨rfl, ?_, .inl rfl⟩⟩
    · exact (Nat.sub_eq_zero_of_le front).symm
    · unfold Geometry.filled
      omega
  obtain ⟨result, c'', run, outcome⟩ :=
    begins.loop fits honest aligned last below log2 positive inode le_rfl count answers
  exact ⟨result, c'', by rw [run]; rfl, outcome⟩

theorem ReadsRight.of_empty (none : readLength inode pos len = 0) (out : Buf) :
    ReadsRight g V B pos 0 out (ext4fsReadFileWith env root read lookup inode pos len out c) := by
  have clamp : (if Inode.size inode < len + pos then Inode.size inode - pos else len) = 0 := by
    unfold readLength at none
    split <;> omega
  intro done actread c₁ run
  simp only [ext4fsReadFileWith, clamp, if_true] at run
  cases run

/-- For every file, with any map of its blocks, and every part of it: on a device whose block reads may fail, a call
that succeeds gives the bytes of the file if it does not slip and the sector with the last byte can be read. On a device
whose block reads succeed it does so exactly if a slip is harmless. -/
theorem readFile_right_iff (fits : g.Fits env) (log2 : root.log2BlockSize = g.log2bs)
    (call : ReadCall g lookup inode B pos len c c') (card out : Buf) :
    (∀ faults : Faults, ¬ g.Slips env B pos (readLength inode pos len) →
        faults.fails (g.place B (pos + readLength inode pos len - 1) / env.devBlksz) 1 = false →
        ReadsRight g (env.volume card) B pos (readLength inode pos len) out
          (ext4fsReadFileWith env root (fsDevreadOn env card faults) lookup inode pos len out c)) ∧
      (ReadsRight g (env.volume card) B pos (readLength inode pos len) out
          (ext4fsReadFileWith env root (fsDevread env card) lookup inode pos len out c) ↔
        g.SlipHarmless env (env.volume card) B pos (readLength inode pos len)) := by
  rcases Nat.eq_zero_or_pos (readLength inode pos len) with none | positive
  · rw [none]
    exact ⟨fun _ _ _ => .of_empty none out, fun _ _ t small => absurd small (Nat.not_lt_zero t),
      fun _ => .of_empty none out⟩
  · refine ⟨fun faults straight lastFine => ?_, ?_⟩
    · obtain ⟨result, c'', run, outcome⟩ := call.result fits log2 positive (fsDevreadOn_honest fits log2 card faults)
        .inl (fun {x off m} _ ends => .inr (by
          rw [ends, Geometry.readFrom_of_not_slips straight]
          exact lastFine)) out
      rw [run]
      intro done actread c₁ same
      rcases outcome with ⟨rfl, -⟩ | ⟨rfl, -, -⟩
      · cases same
      · cases same
        rw [Geometry.readFrom_of_not_slips straight]
        exact ⟨rfl, rfl⟩
    · obtain ⟨result, c'', run, outcome⟩ := call.result fits log2 positive (fsDevread_honest fits log2 card)
        (fun _ => trivial) (fun _ _ => trivial) out
      rw [run]
      constructor
      · intro right inside t small
        rcases outcome with ⟨-, unreadable⟩ | ⟨rfl, -, -⟩
        · exact absurd ⟨fun below more within => fsDevread_isSome fits log2 card below more within, inside⟩ unreadable
        · have same := congrFun (right _ _ _ rfl).2 t
          rw [overlay_of_mem (Nat.zero_le t) (by omega), overlay_of_mem (Nat.zero_le t) (by omega), Nat.sub_zero] at same
          exact same
      · intro harmless done actread c₁ same
        rcases outcome with ⟨rfl, -⟩ | ⟨rfl, -, inside⟩
        · cases same
        · cases same
          exact ⟨rfl, overlay_congr (fun t small => harmless inside t small)⟩

end File

def holedInode : Buf := putLe32 (putLe32 (putLe32 zeros 4 3000) 40 20) 48 30

def holedMap (i : Nat) : Nat := if i = 0 then 20 else if i = 2 then 30 else 0

theorem holedInode_call : ReadCall pointerGeometry (readAllocatedBlock pointerEnv pointerCard pointerRoot holedInode)
    holedInode holedMap 100 5000 ext4fsReinitGlobal ext4fsReinitGlobal where
  sum := by decide
  extent := by decide
  below i _ _ := by
    unfold holedMap
    split_ifs <;> decide
  answers := ⟨none, _, rfl, none, _, rfl, none, _, rfl, rfl⟩

/-- The rest of the file from byte 100 on. -/
theorem holedInode_right :
    readLength holedInode 100 5000 = 2900 ∧
      ReadsRight pointerGeometry (pointerEnv.volume pointerCard) holedMap 100 (readLength holedInode 100 5000) zeros
        (ext4fsReadFile pointerEnv pointerCard pointerRoot holedInode 100 5000 zeros ext4fsReinitGlobal) := by
  have fits : pointerGeometry.Fits pointerEnv := ⟨by decide, by decide, by decide, by decide⟩
  refine ⟨by decide +kernel, ((readFile_right_iff fits rfl holedInode_call pointerCard zeros).2).mpr (fun _ t small => ?_)⟩
  have straight : ¬ pointerGeometry.Slips pointerEnv holedMap 100 (readLength holedInode 100 5000) := by decide +kernel
  rw [Geometry.readFrom_of_not_slips straight]

def doubledInode : Buf := putLe32 (putLe32 (putLe32 zeros 4 2048) 40 20) 44 20

/-- The two bytes around the end of the first block: in place of the first byte of block 20 the code gives that of
block 21. And a byte that the device fails to read is given as it stands in a buffer on the stack. -/
theorem doubledInode_wrong :
    ReadCall pointerGeometry (readAllocatedBlock pointerEnv pointerCard pointerRoot doubledInode) doubledInode
        (fun _ => 20) 1023 2 ext4fsReinitGlobal ext4fsReinitGlobal ∧
      pointerGeometry.fileBytes pointerCard (fun _ => 20) 1024 = 50 ∧
      (ext4fsReadFile pointerEnv pointerCard pointerRoot doubledInode 1023 2 zeros ext4fsReinitGlobal).map
        (fun r => r.1.map (fun read => (read.2, read.1 1))) = some (some (2, 60)) ∧
      (ext4fsReadFileWith pointerEnv pointerRoot (fsDevreadOn pointerEnv pointerCard ⟨fun _ _ => true, fun _ => 7⟩)
        (readAllocatedBlock pointerEnv pointerCard pointerRoot doubledInode) doubledInode 1024 1 zeros
        ext4fsReinitGlobal).map (fun r => r.1.map (fun read => (read.2, read.1 0))) = some (some (1, 7)) := by
  refine ⟨⟨by decide, by decide, fun _ _ _ => by decide, ⟨none, _, rfl, none, _, rfl, rfl⟩⟩, ?_⟩
  decide +kernel

end UuuFastboot.Ext4
