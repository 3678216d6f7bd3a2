import UuuFastboot.Ext4.WriteSpec

namespace UuuFastboot.Ext4

open Word Overlay Bytes Partial

/-- Number of inodes in a block of the inode table, as the driver computes it. -/
def Fs.inodesPerBlock (fs : Fs) : Nat := fs.blksz / fs.root.inodesz

def Fs.inodeGroup (fs : Fs) (n : Nat) : Nat := (n - 1) / fs.root.inodesPerGroup

def Fs.inodeSlot (fs : Fs) (n : Nat) : Nat := (n - 1) % fs.root.inodesPerGroup

/-- The bits behind that of the last inode of the group, in the same byte, are set. -/
def LastBitsSet (inodesPerGroup : Nat) (bmap : Buf) : Prop :=
  ∀ m, inodesPerGroup ≤ m → m < 8 * ((inodesPerGroup + 7) / 8) → testBmap bmap (m / 8) (m % 8) = true

/-- All that handles the inode `n` does so in its group and its slot: `ext4fs_read_inode` reads it there, `ext4fs_write` and
`ext4fs_delete_file` store it there, both searches of `ext4fs_get_new_inode_no` take its bit, and `ext4fs_delete_file`
gives that bit back. -/
structure Fs.InodeInPlace (fs : Fs) (n : Nat) : Prop where
  read : ∀ env card, ext4fsReadInode env card fs.root n =
    (ext4fsBlockgroup env card fs.root (fs.inodeGroup n)).bind (fun gd =>
      fsDevread env card
        (blockSector env fs.root (Desc.inodeTableId fs.root.gdsize gd + fs.inodeSlot n / fs.inodesPerBlock))
        (fs.inodeSlot n % fs.inodesPerBlock * fs.root.inodesz) sizeofInode)
  stored : inodePlace n fs = some (⟨fs.inodeGroup n,
    w32 (Desc.inodeTableId fs.root.gdsize (fs.groupDescriptor (fs.inodeGroup n)) + fs.inodeSlot n / fs.inodesPerBlock),
    fs.inodeSlot n % fs.inodesPerBlock * fs.root.inodesz⟩, fs)
  firstSearch : ∀ i bmap bmap' no, LastBitsSet fs.root.inodesPerGroup bmap →
    getNewInodeNo fs.root.inodesPerGroup bmap = some (no, bmap') → no + i * fs.root.inodesPerGroup = n →
    i = fs.inodeGroup n ∧ testBmap bmap (fs.inodeSlot n / 8) (fs.inodeSlot n % 8) = false ∧
      bmap' = setBmap bmap (fs.inodeSlot n / 8) (fs.inodeSlot n % 8)
  bitmap : n / fs.root.inodesPerGroup = fs.inodeGroup n
  bit : inodeBit fs.root.inodesPerGroup n (n / fs.root.inodesPerGroup) =
    some (fs.inodeSlot n / 8, fs.inodeSlot n % 8)

section Place

variable {fs : Fs} {n : Nat} (some_inode : 0 < fs.root.inodesPerGroup) (one : 1 ≤ n)
include some_inode one

omit some_inode in
/-- The group is computed from the number before it is made to count from zero. -/
theorem div_eq_inodeGroup_iff : n / fs.root.inodesPerGroup = fs.inodeGroup n ↔ ¬ fs.root.inodesPerGroup ∣ n := by
  obtain ⟨m, rfl⟩ : ∃ m, n = m + 1 := ⟨n - 1, by omega⟩
  rw [Fs.inodeGroup, Nat.add_sub_cancel, Nat.succ_div]
  split
  · next divides => exact ⟨fun same => by omega, fun not => absurd divides not⟩
  · next not => exact ⟨fun _ => not, fun _ => Nat.add_zero _⟩

omit some_inode in
theorem inodeBit_eq (notLast : ¬ fs.root.inodesPerGroup ∣ n) :
    inodeBit fs.root.inodesPerGroup n (n / fs.root.inodesPerGroup) =
      some (fs.inodeSlot n / 8, fs.inodeSlot n % 8) := by
  have group := (div_eq_inodeGroup_iff one).mpr notLast
  have whole := Nat.div_add_mod (n - 1) fs.root.inodesPerGroup
  obtain ⟨s, slot⟩ : ∃ s, s = fs.inodeSlot n := ⟨_, rfl⟩
  have number : n - n / fs.root.inodesPerGroup * fs.root.inodesPerGroup = s + 1 := by
    rw [group, Nat.mul_comm, slot]
    unfold Fs.inodeGroup Fs.inodeSlot
    omega
  rw [← slot]
  unfold inodeBit
  simp only [number]
  split
  · rw [if_neg (Nat.succ_ne_zero s), Option.some.injEq, Prod.mk.injEq]
    omega
  · rw [Option.some.injEq, Prod.mk.injEq]
    omega

omit one in
theorem getNewInodeNo_slot {i no : Nat} {bmap bmap' : Buf} (padded : LastBitsSet fs.root.inodesPerGroup bmap)
    (taken : getNewInodeNo fs.root.inodesPerGroup bmap = some (no, bmap'))
    (number : no + i * fs.root.inodesPerGroup = n) :
    i = fs.inodeGroup n ∧ testBmap bmap (fs.inodeSlot n / 8) (fs.inodeSlot n % 8) = false ∧
      bmap' = setBmap bmap (fs.inodeSlot n / 8) (fs.inodeSlot n % 8) := by
  obtain ⟨byte, first, taken⟩ := Option.bind_eq_some_iff.mp taken
  split at taken
  · cases taken
  · next inside =>
    obtain ⟨bit, second, taken⟩ := Option.bind_eq_some_iff.mp taken
    cases taken
    obtain ⟨small, clear⟩ := clearBit_some second
    have byte_eq : (8 * byte + bit) / 8 = byte := by omega
    have bit_eq : (8 * byte + bit) % 8 = bit := by omega
    have below : 8 * byte + bit < fs.root.inodesPerGroup := by
      by_contra behind
      have set_ := padded (8 * byte + bit) (Nat.le_of_not_lt behind) (by omega)
      rw [byte_eq, bit_eq, clear] at set_
      cases set_
    have before : n - 1 = 8 * byte + bit + i * fs.root.inodesPerGroup := by omega
    have slot : fs.inodeSlot n = 8 * byte + bit := by
      rw [Fs.inodeSlot, before, Nat.add_mul_mod_self_right, Nat.mod_eq_of_lt below]
    refine ⟨?_, ?_, ?_⟩
    · rw [Fs.inodeGroup, before, Nat.add_mul_div_right _ _ some_inode, Nat.div_eq_of_lt below, Nat.zero_add]
    · rw [slot, byte_eq, bit_eq, clear]
    · rw [slot, byte_eq, bit_eq]

/-- An inode is handled in its place throughout exactly if it is not the last one of its group, and the number of it in
its block can be told from its own number, as where the groups fill the blocks of their inode tables. -/
theorem inodeInPlace_iff (perBlock : 0 < fs.inodesPerBlock) (blksz : fs.blksz = fs.root.blockSize) (word : n < 2 ^ 32)
    (table : (fs.inodeGroup n + 1) * fs.root.gdsize ≤ fs.blksz * fs.noBlkPergdt) :
    fs.InodeInPlace n ↔
      ¬ fs.root.inodesPerGroup ∣ n ∧ (n - 1) % fs.inodesPerBlock = fs.inodeSlot n % fs.inodesPerBlock := by
  have size : fs.root.inodesz ≠ 0 := fun zero => by
    rw [Fs.inodesPerBlock, zero, Nat.div_zero] at perBlock
    exact absurd perBlock (Nat.lt_irrefl 0)
  have before : w32 (n + minusOne) = n - 1 := by
    unfold w32 minusOne
    omega
  constructor
  · intro placed
    have notLast := (div_eq_inodeGroup_iff one).mp placed.bitmap
    refine ⟨notLast, ?_⟩
    have stored := placed.stored
    rw [inodePlace, get_bind] at stored
    simp only [run_ite, placed.bitmap, if_neg (Nat.not_lt.mpr table), run_pure, before, Option.some.injEq, Prod.mk.injEq,
      InodePlace.mk.injEq] at stored
    exact Nat.eq_of_mul_eq_mul_right (Nat.pos_of_ne_zero size) stored.1.2.2
  · rintro ⟨notLast, same⟩
    have group := (div_eq_inodeGroup_iff one).mpr notLast
    refine ⟨fun env card => ?_, ?_, fun i bmap bmap' no => getNewInodeNo_slot some_inode, group, inodeBit_eq one notLast⟩
    · have block : fs.root.blockSize / fs.root.inodesz = fs.inodesPerBlock := by rw [Fs.inodesPerBlock, blksz]
      rw [ext4fsReadInode, before]
      simp only [block, same]
      rw [if_neg (fun none => none.elim some_inode.ne' size)]
      refine Option.bind_congr (fun gd _ => ?_)
      rw [if_neg perBlock.ne']
      rfl
    · rw [inodePlace, get_bind]
      simp only [run_ite, group, if_neg (Nat.not_lt.mpr table), run_pure, before]
      rw [← same]
      rfl

end Place

/-- The first file of the small volume. -/
theorem sampleFs_file_inPlace : ¬ sampleFs.root.inodesPerGroup ∣ 12 ∧ sampleFs.InodeInPlace 12 := by
  have notLast : ¬ sampleFs.root.inodesPerGroup ∣ 12 := by decide +kernel
  exact ⟨notLast, (inodeInPlace_iff (by decide +kernel) (by decide) (by decide +kernel) (by decide +kernel) (by decide)
    (by decide +kernel)).mpr ⟨notLast, by decide +kernel⟩⟩

/-- The last inode of the small volume is looked for in a group that it does not have, and its bit before the bitmap. -/
theorem sampleFs_last_misplaced :
    sampleGeometry.inodesPerGroup * sampleGeometry.groups = 16 ∧ ¬ sampleFs.InodeInPlace 16 ∧
      16 / sampleFs.root.inodesPerGroup = 1 ∧ inodeBit sampleFs.root.inodesPerGroup 16 1 = none := by
  refine ⟨rfl, fun placed => absurd placed.bitmap ?_, ?_, ?_⟩ <;> decide +kernel

end UuuFastboot.Ext4
