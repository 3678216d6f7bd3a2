import UuuFastboot.Ext4.Layout

namespace UuuFastboot.Ext4

open Word Overlay Bytes

/-- The sizes that a volume is laid out by. -/
structure Geometry where
  log2bs : Nat
  firstDataBlock : Nat
  totalBlocks : Nat
  blocksPerGroup : Nat
  inodesPerGroup : Nat
  inodesz : Nat
  gdsize : Nat

namespace Geometry

variable (g : Geometry)

def bs : Nat := 2 ^ g.log2bs

def ipb : Nat := g.bs / g.inodesz

def groups : Nat := (g.totalBlocks - g.firstDataBlock + g.blocksPerGroup - 1) / g.blocksPerGroup

def gdtBlk : Nat := g.firstDataBlock + 1

def gdtBlocks : Nat := (g.groups * g.gdsize + g.bs - 1) / g.bs

def itableBlocks : Nat := g.inodesPerGroup / g.ipb

def inodes : Nat := g.groups * g.inodesPerGroup

/-- Descriptor of a group on the volume `V`. -/
def desc (V : Buf) (grp : Nat) : Buf := tail V (g.gdtBlk * g.bs + grp * g.gdsize)

def bbm (V : Buf) (grp : Nat) : Nat := Desc.blockId g.gdsize (g.desc V grp)

def ibm (V : Buf) (grp : Nat) : Nat := Desc.inodeId g.gdsize (g.desc V grp)

def itab (V : Buf) (grp : Nat) : Nat := Desc.inodeTableId g.gdsize (g.desc V grp)

def blk (V : Buf) (b : Nat) : Buf := tail V (b * g.bs)

def inodeBlk (V : Buf) (ino : Nat) : Nat :=
  g.itab V ((ino - 1) / g.inodesPerGroup) + (ino - 1) % g.inodesPerGroup / g.ipb

def inodeOff (ino : Nat) : Nat := (ino - 1) % g.ipb * g.inodesz

/-- The inode as a program reads it that knows the first 128 bytes. -/
def inodeAt (V : Buf) (ino : Nat) : Buf := clip sizeofInode (tail (g.blk V (g.inodeBlk V ino)) (g.inodeOff ino))

/-- What a volume that the driver is made for looks like: sectors of at most
512 bytes, blocks of 1 to 4 KiB, as many of them in a group as a bitmap block has bits, and inode tables that
fill their blocks. -/
structure Valid (env : Env) : Prop where
  sector : env.log2blksz ≤ 9
  log2 : 10 ≤ g.log2bs ∧ g.log2bs ≤ 12
  first : g.firstDataBlock = if g.log2bs = 10 then 1 else 0
  perGroup : g.blocksPerGroup = 8 * g.bs
  descriptor : g.gdsize = 32 ∨ g.gdsize = 64
  inode : ∃ k, 7 ≤ k ∧ k ≤ g.log2bs ∧ g.inodesz = 2 ^ k
  inodes : 0 < g.inodesPerGroup ∧ g.ipb ∣ g.inodesPerGroup
  inodeCount : g.inodes < 2 ^ 31
  nonempty : g.firstDataBlock < g.totalBlocks
  inside : g.totalBlocks * g.bs ≤ env.partSize * env.devBlksz
  addressed : env.partSize < 2 ^ 32
  table : g.gdtBlk + g.gdtBlocks ≤ g.totalBlocks

/-- The blocks are larger than the sectors of the device, and they lie in the partition, whose sectors are counted in 32
bits. -/
structure Fits (env : Env) : Prop where
  sector : env.log2blksz ≤ 9
  log2 : 10 ≤ g.log2bs
  inside : g.totalBlocks * g.bs ≤ env.partSize * env.devBlksz
  addressed : env.partSize < 2 ^ 32

/-- Blocks of 1 to 4 KiB, of whole sectors, on a partition whose sectors are counted in 32 bits. -/
structure Sized (env : Env) : Prop where
  log2 : 10 ≤ g.log2bs ∧ g.log2bs ≤ 12
  sector : env.log2blksz ≤ g.log2bs
  addressed : env.partSize < 2 ^ 32

variable {g} {env : Env}

theorem Sized.devBlksz_dvd (sized : g.Sized env) : env.devBlksz ∣ g.bs := Nat.pow_dvd_pow 2 sized.sector

theorem bs_pos : 0 < g.bs := Nat.two_pow_pos _

namespace Fits

variable (fits : g.Fits env)
include fits

theorem bs_eq : g.bs = 2 ^ (g.log2bs - env.log2blksz) * env.devBlksz := by
  have sector := fits.sector
  have log2 := fits.log2
  rw [bs, Env.devBlksz, ← Nat.pow_add]
  congr 1
  omega

theorem sectors_le : g.totalBlocks * 2 ^ (g.log2bs - env.log2blksz) ≤ env.partSize := by
  refine Nat.le_of_mul_le_mul_right ?_ env.devBlksz_pos
  rw [Nat.mul_assoc, ← fits.bs_eq]
  exact fits.inside

theorem total_lt : g.totalBlocks < 2 ^ 31 := by
  have sectors := fits.sectors_le
  have addressed := fits.addressed
  have two : 2 ≤ 2 ^ (g.log2bs - env.log2blksz) := by
    have sector := fits.sector
    have log2 := fits.log2
    calc 2 = 2 ^ 1 := rfl
      _ ≤ _ := Nat.pow_le_pow_right (by omega) (by omega)
  have twice : g.totalBlocks * 2 ≤ g.totalBlocks * 2 ^ (g.log2bs - env.log2blksz) := Nat.mul_le_mul_left _ two
  omega

end Fits

namespace Valid

variable (valid : g.Valid env)
include valid

theorem fits : g.Fits env := ⟨valid.sector, valid.log2.1, valid.inside, valid.addressed⟩

theorem bs_eq : g.bs = 2 ^ (g.log2bs - env.log2blksz) * env.devBlksz := valid.fits.bs_eq

theorem devBlksz_dvd_bs : env.devBlksz ∣ g.bs := ⟨_, (valid.bs_eq).trans (Nat.mul_comm _ _)⟩

theorem bs_cases : g.bs = 1024 ∨ g.bs = 2048 ∨ g.bs = 4096 := by
  obtain ⟨low, high⟩ := valid.log2
  have : g.log2bs = 10 ∨ g.log2bs = 11 ∨ g.log2bs = 12 := by omega
  rcases this with e | e | e <;> simp [bs, e]

theorem bs_ge : 1024 ≤ g.bs := by
  rcases valid.bs_cases with e | e | e <;> omega

theorem bs_le : g.bs ≤ 4096 := by
  rcases valid.bs_cases with e | e | e <;> omega

theorem bs_eq_1024 : g.bs = 1024 ↔ g.log2bs = 10 := by
  obtain ⟨low, high⟩ := valid.log2
  have : g.log2bs = 10 ∨ g.log2bs = 11 ∨ g.log2bs = 12 := by omega
  rcases this with e | e | e <;> simp [bs, e]

theorem first_eq : g.firstDataBlock = if g.bs = 1024 then 1 else 0 := by
  rw [valid.first]
  exact if_congr valid.bs_eq_1024.symm rfl rfl

theorem first_le : g.firstDataBlock ≤ 1 := by
  rw [valid.first]
  split <;> omega

theorem inodesz_pos : 0 < g.inodesz := by
  obtain ⟨k, _, _, e⟩ := valid.inode
  rw [e]
  exact Nat.two_pow_pos _

theorem inodesz_ge : sizeofInode ≤ g.inodesz := by
  obtain ⟨k, low, _, e⟩ := valid.inode
  rw [e, show sizeofInode = 2 ^ 7 from rfl]
  exact Nat.pow_le_pow_right (by omega) low

theorem ipb_mul : g.ipb * g.inodesz = g.bs := by
  obtain ⟨k, _, high, e⟩ := valid.inode
  refine Nat.div_mul_cancel ?_
  rw [e, bs]
  exact Nat.pow_dvd_pow 2 high

theorem ipb_pos : 0 < g.ipb := by
  rcases Nat.eq_zero_or_pos g.ipb with zero | positive
  · have whole := valid.ipb_mul
    rw [zero, Nat.zero_mul] at whole
    exact absurd whole.symm bs_pos.ne'
  · exact positive

theorem inodeOff_le (ino : Nat) : g.inodeOff ino + sizeofInode ≤ g.bs := by
  calc g.inodeOff ino + sizeofInode ≤ (ino - 1) % g.ipb * g.inodesz + g.inodesz :=
        Nat.add_le_add_left valid.inodesz_ge _
    _ = ((ino - 1) % g.ipb + 1) * g.inodesz := by ring
    _ ≤ g.ipb * g.inodesz := Nat.mul_le_mul_right _ (Nat.mod_lt _ valid.ipb_pos)
    _ = g.bs := valid.ipb_mul

theorem gdsize_dvd : g.gdsize ∣ g.bs := by
  rcases valid.bs_cases with e | e | e <;> rcases valid.descriptor with d | d <;> rw [e, d] <;> decide

theorem gdsize_pos : 0 < g.gdsize := by
  rcases valid.descriptor with d | d <;> omega

theorem perGroup_pos : 0 < g.blocksPerGroup := by
  rw [valid.perGroup]
  have := @bs_pos g
  omega

theorem groups_pos : 0 < g.groups := by
  have nonempty := valid.nonempty
  have positive := valid.perGroup_pos
  exact Nat.div_pos (by omega) positive

omit valid in
theorem table_bytes : g.groups * g.gdsize ≤ g.gdtBlocks * g.bs := by
  have key : g.groups * g.gdsize + g.bs - 1 < (g.gdtBlocks + 1) * g.bs := by
    rw [gdtBlocks, Nat.add_mul, Nat.one_mul]
    exact Nat.lt_div_mul_add bs_pos
  rw [Nat.add_mul, Nat.one_mul] at key
  have := @bs_pos g
  omega

omit valid in
theorem desc_le {grp : Nat} (below : grp < g.groups) : grp * g.gdsize + g.gdsize ≤ g.gdtBlocks * g.bs := by
  calc grp * g.gdsize + g.gdsize = (grp + 1) * g.gdsize := by ring
    _ ≤ g.groups * g.gdsize := Nat.mul_le_mul_right _ below
    _ ≤ _ := table_bytes

theorem total_lt : g.totalBlocks < 2 ^ 31 := valid.fits.total_lt

end Valid

end Geometry

structure Root.Has (root : Root) (g : Geometry) : Prop where
  log2 : root.log2BlockSize = g.log2bs
  first : Sblock.firstDataBlock root.sblock = g.firstDataBlock
  total : Sblock.totalBlocks root.sblock = g.totalBlocks
  perGroup : Sblock.blocksPerGroup root.sblock = g.blocksPerGroup
  inodes : root.inodesPerGroup = g.inodesPerGroup
  inodesz : root.inodesz = g.inodesz
  gdsize : root.gdsize = g.gdsize

theorem getLe32_clip {len o : Nat} {b : Buf} (inside : o + 4 ≤ len) : getLe32 (clip len b) o = getLe32 b o :=
  getLe32_congr (fun _ below => clip_of_lt (by omega))

theorem Desc.wide32_clip {gdsize low high : Nat} (gd : Buf) (size : 32 ≤ gdsize) (lower : low + 4 ≤ 32)
    (upper : high + 4 ≤ 64) : Desc.wide32 gdsize (clip gdsize gd) low high = Desc.wide32 gdsize gd low high := by
  unfold Desc.wide32
  rw [getLe32_clip (by omega)]
  by_cases long : gdsize = 64
  · rw [if_pos long, if_pos long, getLe32_clip (by omega)]
  · rw [if_neg long, if_neg long]

theorem w32_pred {n : Nat} (one : 1 ≤ n) (word : n < 2 ^ 32) : w32 (n + minusOne) = n - 1 := by
  unfold w32 minusOne
  omega

section Sectors

variable {env : Env} {g : Geometry} {root : Root} (fits : g.Fits env) (log2 : root.log2BlockSize = g.log2bs)
include log2

theorem blockSize_of_log2 : root.blockSize = g.bs := by rw [Root.blockSize, log2, Geometry.bs]

include fits

theorem blockSector_mul {b : Nat} (below : b ≤ g.totalBlocks) : blockSector env root b * env.devBlksz = b * g.bs := by
  have bound : b * 2 ^ (g.log2bs - env.log2blksz) ≤ env.partSize :=
    (Nat.mul_le_mul_right _ below).trans fits.sectors_le
  have addressed := fits.addressed
  rw [blockSector, log2FsBlocksize, log2, w32_of_lt (by omega), Nat.mul_assoc, ← fits.bs_eq]

theorem fsDevread_block {b off len : Nat} (card : Buf) (some : 0 < len)
    (inside : b * g.bs + off + len ≤ g.totalBlocks * g.bs) :
    fsDevread env card (blockSector env root b) off len =
      .some (clip len (tail (env.volume card) (b * g.bs + off))) := by
  have below : b ≤ g.totalBlocks := Nat.le_of_mul_le_mul_right (by omega) (Geometry.bs_pos (g := g))
  have sector := blockSector_mul fits log2 below
  have reach : blockSector env root b + (off + len - 1) / env.devBlksz < env.partSize := by
    rw [Nat.add_comm, ← Nat.add_mul_div_right _ _ env.devBlksz_pos, sector]
    refine Nat.div_lt_of_lt_mul ?_
    have limit := fits.inside
    rw [Nat.mul_comm env.devBlksz]
    omega
  rw [fsDevread_eq, if_neg, sector]
  have addressed := fits.addressed
  rw [lastSector, if_neg (by omega), w32_of_lt (by omega)]
  omega

end Sectors

section Reading

variable {env : Env} {g : Geometry} {root : Root} (valid : g.Valid env) (has : root.Has g)
include has

theorem Root.Has.blockSize : root.blockSize = g.bs := blockSize_of_log2 has.log2

include valid

theorem ext4fsBlockgroup_eq {grp : Nat} (card : Buf) (below : grp < g.groups) :
    ext4fsBlockgroup env card root grp = .some (clip g.gdsize (g.desc (env.volume card) grp)) := by
  have positive := valid.gdsize_pos
  have split := Nat.div_add_mod' grp (g.bs / g.gdsize)
  have whole : g.bs / g.gdsize * g.gdsize = g.bs := Nat.div_mul_cancel valid.gdsize_dvd
  have perBlock : 0 < g.bs / g.gdsize := Nat.div_pos (Nat.le_of_dvd Geometry.bs_pos valid.gdsize_dvd) positive
  have place : (g.firstDataBlock + 1 + grp / (g.bs / g.gdsize)) * g.bs + grp % (g.bs / g.gdsize) * g.gdsize =
      g.gdtBlk * g.bs + grp * g.gdsize := by
    calc (g.firstDataBlock + 1 + grp / (g.bs / g.gdsize)) * g.bs + grp % (g.bs / g.gdsize) * g.gdsize
        = g.gdtBlk * g.bs + (grp / (g.bs / g.gdsize) * g.bs + grp % (g.bs / g.gdsize) * g.gdsize) := by
          rw [Geometry.gdtBlk]; ring
      _ = g.gdtBlk * g.bs + (grp / (g.bs / g.gdsize) * (g.bs / g.gdsize) + grp % (g.bs / g.gdsize)) * g.gdsize := by
          rw [Nat.add_mul, Nat.mul_assoc, whole]
      _ = _ := by rw [split]
  have inTable := Geometry.Valid.desc_le below
  have inside : g.gdtBlk * g.bs + g.gdtBlocks * g.bs ≤ g.totalBlocks * g.bs := by
    rw [← Nat.add_mul]
    exact Nat.mul_le_mul_right _ valid.table
  simp only [ext4fsBlockgroup, has.blockSize, has.gdsize, has.first]
  rw [if_neg (by omega), fsDevread_block valid.fits has.log2 card positive (by omega), place]
  rfl

theorem ext4fsReadInode_eq {ino : Nat} (card : Buf) (one : 1 ≤ ino) (bound : ino ≤ g.inodes)
    (inside : g.inodeBlk (env.volume card) ino < g.totalBlocks) :
    ext4fsReadInode env card root ino = .some (g.inodeAt (env.volume card) ino) := by
  have count := valid.inodeCount
  obtain ⟨perGroup, _⟩ := valid.inodes
  have size := valid.inodesz_pos
  have perBlock := valid.ipb_pos
  have grp : (ino - 1) / g.inodesPerGroup < g.groups := by
    refine Nat.div_lt_of_lt_mul ?_
    rw [Nat.mul_comm]
    exact Nat.lt_of_lt_of_le (by omega) bound
  have table : Desc.inodeTableId g.gdsize (clip g.gdsize (g.desc (env.volume card) ((ino - 1) / g.inodesPerGroup))) =
      g.itab (env.volume card) ((ino - 1) / g.inodesPerGroup) :=
    Desc.wide32_clip _ (by rcases valid.descriptor with d | d <;> omega) (by omega) (by omega)
  have slot := valid.inodeOff_le ino
  have last : (g.inodeBlk (env.volume card) ino + 1) * g.bs ≤ g.totalBlocks * g.bs := Nat.mul_le_mul_right _ inside
  simp only [ext4fsReadInode, has.inodes, has.inodesz, has.blockSize, has.gdsize, w32_pred one (by omega)]
  rw [if_neg (by omega), ext4fsBlockgroup_eq valid has card grp]
  simp only [Option.bind_eq_bind, Option.bind_some, table]
  rw [if_neg (by rw [← Geometry.ipb]; omega)]
  rw [Nat.add_mul, Nat.one_mul] at last
  have read : fsDevread env card (blockSector env root (g.inodeBlk (env.volume card) ino)) (g.inodeOff ino) sizeofInode =
      .some (clip sizeofInode (tail (env.volume card) (g.inodeBlk (env.volume card) ino * g.bs + g.inodeOff ino))) :=
    fsDevread_block valid.fits has.log2 card (by decide) (by omega)
  rw [← tail_tail] at read
  exact read

end Reading

end UuuFastboot.Ext4
