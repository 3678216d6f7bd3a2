import UuuFastboot.Ext4.Reader
import UuuFastboot.Ext4.CachedLookup

namespace UuuFastboot.Ext4

open Word Overlay Bytes

namespace Geometry

variable (g : Geometry)

/-- Place on the volume of a byte of a file whose block `k` is block `B k`. -/
def place (B : Nat → Nat) (t : Nat) : Nat := B (t / g.bs) * g.bs + t % g.bs

/-- The bytes of a file as its blocks define them; block 0 stands for a hole. -/
def fileBytes (V : Buf) (B : Nat → Nat) : Buf := fun t => if B (t / g.bs) = 0 then 0 else V (g.place B t)

/-- A read begins in the last sector of a block, goes on, and the next block of the file is the same block of the
volume. The next sector that is expected is then that of the block itself. -/
structure Slips (env : Env) (B : Nat → Nat) (pos n : Nat) : Prop where
  lastSector : g.bs < pos % g.bs + env.devBlksz
  further : (pos / g.bs + 1) * g.bs < pos + n
  there : B (pos / g.bs) ≠ 0
  same : B (pos / g.bs + 1) = B (pos / g.bs)

theorem slips_iff {env : Env} {B : Nat → Nat} {pos n : Nat} :
    g.Slips env B pos n ↔ g.bs < pos % g.bs + env.devBlksz ∧ (pos / g.bs + 1) * g.bs < pos + n ∧ B (pos / g.bs) ≠ 0 ∧
      B (pos / g.bs + 1) = B (pos / g.bs) :=
  ⟨fun h => ⟨h.1, h.2, h.3, h.4⟩, fun h => ⟨h.1, h.2.1, h.2.2.1, h.2.2.2⟩⟩

instance (env : Env) (B : Nat → Nat) (pos n : Nat) : Decidable (g.Slips env B pos n) :=
  decidable_of_iff _ g.slips_iff.symm

/-- The blocks from the second one up to block `k` that follow the first one, one block too late. -/
def Shifted (B : Nat → Nat) (pos k : Nat) : Prop :=
  pos / g.bs < k ∧ ∀ i < k - pos / g.bs, B (pos / g.bs + 1 + i) = B (pos / g.bs) + i

instance (B : Nat → Nat) (pos k : Nat) : Decidable (g.Shifted B pos k) := inferInstanceAs (Decidable (_ ∧ _))

def readFrom (env : Env) (B : Nat → Nat) (pos n k : Nat) : Nat :=
  if g.Slips env B pos n ∧ g.Shifted B pos k then B (pos / g.bs) + (k - pos / g.bs) else B k

def skipOf (pos k : Nat) : Nat := if k = pos / g.bs then pos % g.bs else 0

/-- The sector of block `k` is the one that is expected behind the block before it. -/
def Joins (env : Env) (B : Nat → Nat) (pos k : Nat) : Prop :=
  if k = pos / g.bs + 1 ∧ pos % g.bs ≠ 0 then g.bs < pos % g.bs + env.devBlksz ∧ B k = B (pos / g.bs)
  else B k = B (k - 1) + 1

variable {g} {env : Env} {B : Nat → Nat} {pos n k : Nat}

theorem readFrom_of_not_slips (straight : ¬ g.Slips env B pos n) : g.readFrom env B pos n = B := by
  funext k
  rw [readFrom, if_neg (fun both => straight both.1)]

theorem readFrom_first : g.readFrom env B pos n (pos / g.bs) = B (pos / g.bs) := by
  rw [readFrom, if_neg (fun both => absurd both.2.1 (Nat.lt_irrefl _))]

theorem Shifted.value {j : Nat} (shifted : g.Shifted B pos (pos / g.bs + 1 + j)) :
    B (pos / g.bs + 1 + j) = B (pos / g.bs) + j := shifted.2 j (by omega)

theorem shifted_succ {j : Nat} : g.Shifted B pos (pos / g.bs + 1 + (j + 1)) ↔
    g.Shifted B pos (pos / g.bs + 1 + j) ∧ B (pos / g.bs + 1 + (j + 1)) = B (pos / g.bs + 1 + j) + 1 := by
  constructor
  · intro shifted
    have before : g.Shifted B pos (pos / g.bs + 1 + j) := ⟨by omega, fun i less => shifted.2 i (by omega)⟩
    refine ⟨before, ?_⟩
    rw [shifted.value, before.value]
    omega
  · rintro ⟨before, step⟩
    refine ⟨by omega, fun i less => ?_⟩
    rcases Nat.lt_or_eq_of_le (by omega : i ≤ j + 1) with less' | rfl
    · exact before.2 i (by omega)
    · rw [step, before.value]
      omega

theorem readFrom_eq_zero : g.readFrom env B pos n k = 0 ↔ B k = 0 := by
  unfold readFrom
  split
  · next both =>
    have there := both.1.there
    obtain ⟨j, rfl⟩ : ∃ j, k = pos / g.bs + 1 + j := ⟨k - (pos / g.bs + 1), by have := both.2.1; omega⟩
    rw [both.2.value]
    omega
  · exact Iff.rfl

theorem readFrom_shifted {j : Nat} (slips : g.Slips env B pos n) (shifted : g.Shifted B pos (pos / g.bs + 1 + j)) :
    g.readFrom env B pos n (pos / g.bs + 1 + j) = B (pos / g.bs) + (1 + j) := by
  rw [readFrom, if_pos ⟨slips, shifted⟩]
  omega

/-- A block that is joined to the read is the one behind the block before it, and of the others each is read from where
it is. -/
theorem readFrom_step (sector : env.devBlksz ≤ g.bs) (after : pos / g.bs < k) (more : k * g.bs < pos + n) (there : B (k - 1) ≠ 0) :
    (g.Joins env B pos k → g.readFrom env B pos n k = g.readFrom env B pos n (k - 1) + 1) ∧
      (¬ g.Joins env B pos k → g.readFrom env B pos n k = B k) := by
  obtain ⟨j, rfl⟩ : ∃ j, k = pos / g.bs + 1 + j := ⟨k - (pos / g.bs + 1), by omega⟩
  cases j with
  | zero =>
    rw [Nat.add_zero, Nat.add_sub_cancel, readFrom_first] at *
    by_cases slips : g.Slips env B pos n
    · have shifted : g.Shifted B pos (pos / g.bs + 1 + 0) := by
        refine ⟨by omega, fun i less => ?_⟩
        rw [show i = 0 by omega]
        exact slips.same
      have skipped : pos % g.bs ≠ 0 := by
        have := slips.lastSector
        omega
      refine ⟨fun _ => readFrom_shifted slips shifted, fun not => absurd ?_ not⟩
      rw [Joins, if_pos ⟨rfl, skipped⟩]
      exact ⟨slips.lastSector, slips.same⟩
    · rw [readFrom_of_not_slips slips]
      refine ⟨fun joins => ?_, fun _ => rfl⟩
      unfold Joins at joins
      split at joins
      · exact absurd ⟨joins.1, more, there, joins.2⟩ slips
      · simpa using joins
  | succ j =>
    have before : pos / g.bs + 1 + (j + 1) - 1 = pos / g.bs + 1 + j := rfl
    have joins : g.Joins env B pos (pos / g.bs + 1 + (j + 1)) ↔
        B (pos / g.bs + 1 + (j + 1)) = B (pos / g.bs + 1 + j) + 1 := by
      rw [Joins, if_neg (by omega), before]
    rw [joins, before]
    by_cases both : g.Slips env B pos n ∧ g.Shifted B pos (pos / g.bs + 1 + j)
    · refine ⟨fun step => ?_, fun not => ?_⟩
      · rw [readFrom_shifted both.1 (shifted_succ.mpr ⟨both.2, step⟩), readFrom_shifted both.1 both.2]
        omega
      · rw [readFrom, if_neg (fun both' => not (shifted_succ.mp both'.2).2)]
    · have straight : g.readFrom env B pos n (pos / g.bs + 1 + (j + 1)) = B (pos / g.bs + 1 + (j + 1)) := by
        rw [readFrom, if_neg (fun both' => both ⟨both'.1, (shifted_succ.mp both'.2).1⟩)]
      refine ⟨fun step => ?_, fun _ => straight⟩
      rw [straight, step, readFrom, if_neg both]

theorem readFrom_of_hole (after : pos / g.bs < k) (hole : B (k - 1) = 0) : g.readFrom env B pos n k = B k := by
  rw [readFrom, if_neg]
  rintro ⟨slips, shifted⟩
  have there := slips.there
  obtain ⟨j, rfl⟩ : ∃ j, k = pos / g.bs + 1 + j := ⟨k - (pos / g.bs + 1), by omega⟩
  cases j with
  | zero => exact there hole
  | succ j =>
    have before := (shifted_succ.mp shifted).1.value
    rw [show pos / g.bs + 1 + (j + 1) - 1 = pos / g.bs + 1 + j from rfl] at hole
    omega

theorem readFrom_le (below : B k < g.totalBlocks) : g.readFrom env B pos n k ≤ g.totalBlocks := by
  unfold readFrom
  split
  · next both =>
    obtain ⟨j, rfl⟩ : ∃ j, k = pos / g.bs + 1 + j := ⟨k - (pos / g.bs + 1), by have := both.2.1; omega⟩
    rw [both.2.value] at below
    omega
  · exact below.le

theorem place_of_lt {t : Nat} (below : t < g.bs) : g.place B (k * g.bs + t) = B k * g.bs + t := by
  rw [place, Nat.add_comm (k * g.bs), Nat.add_mul_div_right _ _ bs_pos, Nat.div_eq_of_lt below,
    Nat.add_mul_mod_self_right, Nat.mod_eq_of_lt below, Nat.zero_add]

theorem block_of_lt {t : Nat} (below : t < g.bs) : (k * g.bs + t) / g.bs = k := by
  rw [Nat.add_comm, Nat.add_mul_div_right _ _ bs_pos, Nat.div_eq_of_lt below, Nat.zero_add]

def filled (g : Geometry) (pos n k : Nat) : Nat := min (k * g.bs) (pos + n) - pos

def wanted (g : Geometry) (pos n k : Nat) : Nat := min (k * g.bs + g.bs) (pos + n) - k * g.bs - g.skipOf pos k

section Parts

variable (positive : 0 < n) (more : k * g.bs < pos + n)
include positive more

omit positive in
theorem filled_eq (start : pos / g.bs ≤ k) : pos + g.filled pos n k = k * g.bs + g.skipOf pos k := by
  have split := Nat.div_add_mod' pos g.bs
  have rest := Nat.mod_lt pos (bs_pos (g := g))
  unfold filled skipOf
  split_ifs with first
  · rw [first] at more ⊢
    omega
  · have later : (pos / g.bs + 1) * g.bs ≤ k * g.bs := Nat.mul_le_mul_right _ (by omega)
    rw [Nat.succ_mul] at later
    omega

theorem skipOf_lt : g.skipOf pos k < g.bs ∧ k * g.bs + g.skipOf pos k < pos + n := by
  have split := Nat.div_add_mod' pos g.bs
  have rest := Nat.mod_lt pos (bs_pos (g := g))
  unfold skipOf
  split_ifs with first
  · rw [first]
    omega
  · exact ⟨bs_pos, by omega⟩

theorem wanted_le : g.skipOf pos k + g.wanted pos n k ≤ g.bs := by
  have := (skipOf_lt positive more).1
  unfold wanted
  omega

theorem filled_succ (start : pos / g.bs ≤ k) : g.filled pos n (k + 1) = g.filled pos n k + g.wanted pos n k := by
  have here := filled_eq more start
  have less := (skipOf_lt positive more).2
  have := (skipOf_lt positive more).1
  unfold wanted
  rw [filled, Nat.succ_mul]
  omega

theorem wanted_pos : 0 < g.wanted pos n k := by
  have := skipOf_lt positive more
  unfold wanted
  omega

theorem part_eq (inode : Buf) : ReadRequest.part ⟨inode, pos, n, g.bs, (n + pos + g.bs - 1) / g.bs⟩ k =
    (g.skipOf pos k, g.wanted pos n k) := by
  have count : k + 1 = (n + pos + g.bs - 1) / g.bs ↔ pos + n ≤ k * g.bs + g.bs := by
    constructor
    · intro last
      have order := Nat.div_add_mod' (n + pos + g.bs - 1) g.bs
      have rest := Nat.mod_lt (n + pos + g.bs - 1) (bs_pos (g := g))
      rw [← last, Nat.succ_mul] at order
      omega
    · intro last
      refine (Nat.div_eq_of_lt_le ?_ ?_).symm
      · rw [Nat.succ_mul]
        omega
      · rw [Nat.succ_mul, Nat.succ_mul]
        omega
  have skip : (if k = pos / g.bs then pos - k * g.bs else 0) = g.skipOf pos k := by
    unfold skipOf
    split
    · next first => rw [first, Nat.mod_eq_sub_mul_div, Nat.mul_comm]
    · rfl
  simp only [ReadRequest.part, Nat.mul_comm g.bs k, skip, Prod.mk.injEq, true_and, wanted]
  by_cases last : pos + n ≤ k * g.bs + g.bs
  · rw [if_pos (count.mpr last), if_neg (by omega)]
    omega
  · rw [if_neg (fun same => last (count.mp same))]
    omega

end Parts

theorem joins_iff {root : Root} (fits : g.Fits env) (log2 : root.log2BlockSize = g.log2bs) (after : pos / g.bs < k)
    (before : B (k - 1) < g.totalBlocks) (below : B k < g.totalBlocks) :
    blockSector env root (B (k - 1)) + (g.bs - g.skipOf pos (k - 1)) / env.devBlksz = blockSector env root (B k) ↔
      g.Joins env B pos k := by
  have size := fits.bs_eq
  have positive := env.devBlksz_pos
  have sectors : 0 < 2 ^ (g.log2bs - env.log2blksz) := Nat.two_pow_pos _
  have sector {x : Nat} (below : x < g.totalBlocks) : blockSector env root x = x * 2 ^ (g.log2bs - env.log2blksz) := by
    refine Nat.eq_of_mul_eq_mul_right positive ?_
    rw [blockSector_mul fits log2 below.le, size, Nat.mul_assoc]
  rw [sector before, sector below]
  generalize 2 ^ (g.log2bs - env.log2blksz) = m at size sectors
  unfold Joins
  split
  · next here =>
    obtain ⟨rfl, skips⟩ := here
    have rest := Nat.mod_lt pos (bs_pos (g := g))
    rw [Nat.add_sub_cancel, skipOf, if_pos rfl]
    have less : (g.bs - pos % g.bs) / env.devBlksz < m := by
      refine Nat.div_lt_of_lt_mul ?_
      rw [Nat.mul_comm, ← size]
      omega
    have none : (g.bs - pos % g.bs) / env.devBlksz = 0 ↔ g.bs < pos % g.bs + env.devBlksz := by
      rw [Nat.div_eq_zero_iff]
      omega
    rw [← none]
    constructor
    · intro same
      have zero : (g.bs - pos % g.bs) / env.devBlksz = 0 := by
        have rests := congrArg (· % m) same
        simp only [Nat.mul_add_mod_self_right, Nat.mul_mod_left, Nat.mod_eq_of_lt less] at rests
        exact rests
      rw [zero, Nat.add_zero] at same
      exact ⟨zero, (Nat.eq_of_mul_eq_mul_right sectors same).symm⟩
    · rintro ⟨zero, same⟩
      rw [zero, same, Nat.add_zero]
  · next here =>
    have skip : g.skipOf pos (k - 1) = 0 := by
      unfold skipOf
      split
      · next first =>
        by_contra skips
        exact here ⟨by omega, skips⟩
      · rfl
    rw [skip, Nat.sub_zero, size, Nat.mul_div_cancel _ positive, ← Nat.succ_mul]
    exact ⟨fun same => (Nat.eq_of_mul_eq_mul_right sectors same).symm, fun same => by rw [same]⟩

end Geometry

theorem blockSector_ne_zero {env : Env} {g : Geometry} {root : Root} (fits : g.Fits env)
    (log2 : root.log2BlockSize = g.log2bs) {b : Nat} (there : b ≠ 0) (below : b < g.totalBlocks) :
    blockSector env root b ≠ 0 := by
  intro zero
  have mul := blockSector_mul fits log2 below.le
  rw [zero, Nat.zero_mul] at mul
  rcases Nat.mul_eq_zero.mp mul.symm with z | z
  · exact there z
  · exact Geometry.bs_pos.ne' z

theorem isNeg_of_lt {env : Env} {g : Geometry} (fits : g.Fits env) {b : Nat} (below : b < g.totalBlocks) :
    isNeg b = false := by
  have bound := fits.total_lt
  exact decide_eq_false (by omega)

/-- Looking up `left` blocks from block `i` on gives the blocks that `B` has, and leaves the buffers as `c'`. -/
def LooksUp (lookup : Nat → ExtCache → Caches → Option (Nat × ExtCache × Caches)) (B : Nat → Nat) :
    Nat → Nat → ExtCache → Caches → Caches → Prop
  | 0, _, _, c, c' => c' = c
  | left + 1, i, cache, c, c' => ∃ cache₁ c₁, lookup i cache c = some (B i, cache₁, c₁) ∧
      LooksUp lookup B left (i + 1) cache₁ c₁ c'

/-- A device reads what it has: a request for part of the volume, or of the block behind it, that is trusted and
succeeds lies in the partition and gives its bytes. -/
def Geometry.Honest (g : Geometry) (env : Env) (root : Root) (V : Buf) (read : Nat → Nat → Nat → Option Buf)
    (trusted : Nat → Nat → Nat → Prop) : Prop :=
  ∀ {x off len : Nat} {buf : Buf}, x < g.totalBlocks → 0 < len → x * g.bs + off + len ≤ (g.totalBlocks + 1) * g.bs →
    trusted x off len → read (blockSector env root x) off len = some buf →
      x * g.bs + off + len ≤ env.partSize * env.devBlksz ∧ buf = clip len (tail V (x * g.bs + off))

/-- The requests inside the partition succeed, and the bytes that are read lie in it. -/
structure Geometry.AllReadable (g : Geometry) (env : Env) (root : Root) (read : Nat → Nat → Nat → Option Buf)
    (R : Nat → Nat) (pos n : Nat) : Prop where
  total : ∀ {x off len : Nat}, x < g.totalBlocks → 0 < len → x * g.bs + off + len ≤ env.partSize * env.devBlksz →
    (read (blockSector env root x) off len).isSome
  inside : ∀ t < n, R ((pos + t) / g.bs) ≠ 0 → g.place R (pos + t) < env.partSize * env.devBlksz

/-- The state of the loop in front of block `k`: the bytes before it are in the buffer, or in the read that was put off,
which is one stretch of the volume. -/
structure Reading (env : Env) (g : Geometry) (root : Root) (V : Buf) (B : Nat → Nat) (pos n : Nat) (out : Buf) (k : Nat)
    (s : ReadState) : Prop where
  buf : s.buf = k * g.bs - pos
  pending : ∃ done, s.out = overlay out 0 done (tail (g.fileBytes V (g.readFrom env B pos n)) pos) ∧
    (∀ t < done, g.readFrom env B pos n ((pos + t) / g.bs) ≠ 0 →
      g.place (g.readFrom env B pos n) (pos + t) < env.partSize * env.devBlksz) ∧
    (s.delayed = none ∧ done = g.filled pos n k ∧ (k = pos / g.bs ∨ B (k - 1) = 0) ∨
      ∃ d x, s.delayed = some d ∧ x < g.totalBlocks ∧ d.start = blockSector env root x ∧ d.buf = done ∧ 0 < d.extent ∧
        done + d.extent = g.filled pos n k ∧ pos / g.bs < k ∧ B (k - 1) ≠ 0 ∧
        (∀ t < d.extent, g.readFrom env B pos n ((pos + done + t) / g.bs) ≠ 0 ∧
          g.place (g.readFrom env B pos n) (pos + done + t) = x * g.bs + d.skipfirst + t) ∧
        (k * g.bs < pos + n → d.next = blockSector env root (B (k - 1)) +
          (g.bs - g.skipOf pos (k - 1)) / env.devBlksz))

theorem overlay_stretch {out file src : Buf} {done len : Nat} (same : ∀ t < len, src t = file (done + t)) :
    overlay (overlay out 0 done file) done len src = overlay out 0 (done + len) file := by
  have append := overlay_append out file src 0 done len
  rw [Nat.zero_add] at append
  rw [append]
  refine overlay_congr (fun t small => ?_)
  split_ifs with before
  · rfl
  · rw [same _ (by omega)]
    congr 1
    omega

section Loop

variable {env : Env} {g : Geometry} {root : Root} {V : Buf} {read : Nat → Nat → Nat → Option Buf}
  {trusted : Nat → Nat → Nat → Prop} {B : Nat → Nat} {pos n k : Nat} {out : Buf} {s : ReadState}

theorem stretch_end {x skip extent done : Nat} (after : pos / g.bs < k) (inner : k * g.bs ≤ pos + n) (more : 0 < extent)
    (reach : done + extent = g.filled pos n k)
    (run : ∀ t < extent, g.place (g.readFrom env B pos n) (pos + done + t) = x * g.bs + skip + t) :
    x * g.bs + skip + extent = (g.readFrom env B pos n (k - 1) + 1) * g.bs := by
  have positive := Geometry.bs_pos (g := g)
  have passed : pos < k * g.bs := Nat.lt_mul_of_div_lt after positive
  obtain ⟨j, rfl⟩ := Nat.exists_eq_succ_of_ne_zero (Nat.ne_of_gt (Nat.zero_lt_of_lt after))
  rw [Nat.succ_mul] at inner passed
  have final : pos + done + (extent - 1) = j * g.bs + (g.bs - 1) := by
    rw [Geometry.filled, Nat.succ_mul] at reach
    omega
  have last := run (extent - 1) (by omega)
  rw [final, Geometry.place_of_lt (Nat.sub_lt positive Nat.one_pos)] at last
  rw [Nat.succ_sub_one, Nat.succ_mul]
  omega

theorem Reading.fresh {done : Buf} (buf : s.buf = k * g.bs - pos) (positive : 0 < n) (start : pos / g.bs ≤ k)
    (more : k * g.bs < pos + n) (there : B k ≠ 0) (low : B k < g.totalBlocks)
    (same : g.readFrom env B pos n k = B k)
    (written : done = overlay out 0 (g.filled pos n k) (tail (g.fileBytes V (g.readFrom env B pos n)) pos))
    (inside : ∀ t < g.filled pos n k, g.readFrom env B pos n ((pos + t) / g.bs) ≠ 0 →
      g.place (g.readFrom env B pos n) (pos + t) < env.partSize * env.devBlksz) (cache : ExtCache) (c : Caches) :
    Reading env g root V B pos n out (k + 1) ⟨s.buf + (g.bs - g.skipOf pos k),
      some ⟨blockSector env root (B k), g.wanted pos n k, g.skipOf pos k, s.buf,
        blockSector env root (B k) + g.wanted pos n k / env.devBlksz⟩, done, cache, c⟩ := by
  have skip := (Geometry.skipOf_lt positive more).1
  have here := Geometry.filled_eq more start
  have le := Geometry.wanted_le positive more
  refine ⟨?_, g.filled pos n k, written, inside, .inr ⟨_, B k, rfl, low, rfl, ?_, Geometry.wanted_pos positive more,
    (Geometry.filled_succ positive more start).symm, Nat.lt_succ_of_le start, there, fun t less => ?_, fun further => ?_⟩⟩
  · simp only [buf, Nat.succ_mul]
    unfold Geometry.filled at here
    omega
  · simp only [buf, Geometry.filled]
    omega
  · simp only at less ⊢
    rw [here, Nat.add_assoc (k * g.bs), Geometry.block_of_lt (by omega), Geometry.place_of_lt (by omega), same]
    exact ⟨there, by omega⟩
  · rw [Nat.succ_mul] at further
    have whole : g.wanted pos n k = g.bs - g.skipOf pos k := by
      unfold Geometry.wanted
      omega
    rw [whole, Nat.add_sub_cancel]

theorem Reading.joined {done x : Nat} {d : Delayed} (buf : s.buf = k * g.bs - pos) (positive : 0 < n)
    (after : pos / g.bs < k) (more : k * g.bs < pos + n) (there : B k ≠ 0)
    (same : g.readFrom env B pos n k = g.readFrom env B pos n (k - 1) + 1)
    (written : s.out = overlay out 0 done (tail (g.fileBytes V (g.readFrom env B pos n)) pos))
    (inside : ∀ t < done, g.readFrom env B pos n ((pos + t) / g.bs) ≠ 0 →
      g.place (g.readFrom env B pos n) (pos + t) < env.partSize * env.devBlksz)
    (low : x < g.totalBlocks) (start : d.start = blockSector env root x) (place : d.buf = done) (extent : 0 < d.extent)
    (reach : done + d.extent = g.filled pos n k)
    (run : ∀ t < d.extent, g.readFrom env B pos n ((pos + done + t) / g.bs) ≠ 0 ∧
      g.place (g.readFrom env B pos n) (pos + done + t) = x * g.bs + d.skipfirst + t)
    (next : d.next = blockSector env root (B k)) (cache : ExtCache) (c : Caches) :
    Reading env g root V B pos n out (k + 1) ⟨s.buf + (g.bs - g.skipOf pos k),
      some { d with extent := d.extent + g.wanted pos n k, next := d.next + g.wanted pos n k / env.devBlksz }, s.out,
        cache, c⟩ := by
  have noSkip : g.skipOf pos k = 0 := if_neg (Nat.ne_of_gt after)
  have here := Geometry.filled_eq more after.le
  have le := Geometry.wanted_le positive more
  have stretch := stretch_end after more.le extent reach (fun t less => (run t less).2)
  rw [noSkip] at here le ⊢
  refine ⟨?_, done, written, inside, .inr ⟨_, x, rfl, low, start, place, by simp only; omega, ?_, Nat.lt_succ_of_lt after,
    there, fun t less => ?_, fun further => ?_⟩⟩
  · simp only [buf, Nat.succ_mul]
    unfold Geometry.filled at here
    omega
  · rw [Geometry.filled_succ positive more after.le, ← reach]
    simp only
    omega
  · simp only at less ⊢
    by_cases old : t < d.extent
    · exact run t old
    · rw [show pos + done + t = k * g.bs + (t - d.extent) by omega, Geometry.block_of_lt (by omega),
        Geometry.place_of_lt (by omega), same]
      exact ⟨Nat.succ_ne_zero _, by omega⟩
  · rw [Nat.succ_mul] at further
    have whole : g.wanted pos n k = g.bs := by
      rw [Geometry.wanted, noSkip]
      omega
    simp only [next, whole, Nat.add_sub_cancel, noSkip, Nat.sub_zero]

theorem Reading.hole (buf : s.buf = k * g.bs - pos) (positive : 0 < n) (start : pos / g.bs ≤ k)
    (more : k * g.bs < pos + n) (hole : B k = 0)
    (inside : ∀ t < g.filled pos n k, g.readFrom env B pos n ((pos + t) / g.bs) ≠ 0 →
      g.place (g.readFrom env B pos n) (pos + t) < env.partSize * env.devBlksz) (cache : ExtCache) (c : Caches) :
    Reading env g root V B pos n out (k + 1) ⟨s.buf + (g.bs - g.skipOf pos k), none,
      overlay (overlay out 0 (g.filled pos n k) (tail (g.fileBytes V (g.readFrom env B pos n)) pos)) s.buf
        (min (g.bs - g.skipOf pos k) (n - s.buf)) zeros, cache, c⟩ := by
  have skip := (Geometry.skipOf_lt positive more).1
  have le := Geometry.wanted_le positive more
  have here := Geometry.filled_eq more start
  have place : s.buf = g.filled pos n k := by
    rw [buf, Geometry.filled]
    omega
  have size : min (g.bs - g.skipOf pos k) (n - g.filled pos n k) = g.wanted pos n k := by
    rw [Geometry.wanted]
    omega
  have zero : ∀ t < g.wanted pos n k, g.readFrom env B pos n ((pos + (g.filled pos n k + t)) / g.bs) = 0 := by
    intro t less
    rw [← Nat.add_assoc, here, Nat.add_assoc, Geometry.block_of_lt (by omega)]
    exact Geometry.readFrom_eq_zero.mpr hole
  refine ⟨?_, g.filled pos n (k + 1), ?_, ?_, .inl ⟨rfl, rfl, .inr hole⟩⟩
  · simp only [buf, Nat.succ_mul]
    unfold Geometry.filled at here
    omega
  · rw [place, size, Geometry.filled_succ positive more start]
    refine overlay_stretch (fun t less => ?_)
    rw [tail_apply, Geometry.fileBytes, if_pos (zero t less)]
    rfl
  · intro t less there
    rw [Geometry.filled_succ positive more start] at less
    by_cases old : t < g.filled pos n k
    · exact inside t old there
    · have none := zero (t - g.filled pos n k) (by omega)
      rw [show pos + (g.filled pos n k + (t - g.filled pos n k)) = pos + t by omega] at none
      exact absurd none there

variable (fits : g.Fits env) (honest : g.Honest env root V read trusted)
  (aligned : ∀ {x off len : Nat}, env.devBlksz ∣ off + len → trusted x off len)
  (last : ∀ {x off len : Nat}, 0 < len → x * g.bs + off + len = g.place (g.readFrom env B pos n) (pos + n - 1) + 1 →
    trusted x off len)
  (below : ∀ i, pos / g.bs ≤ i → i * g.bs < pos + n → B i < g.totalBlocks)
include fits honest aligned last below

theorem Reading.spill (reading : Reading env g root V B pos n out k s) :
    UuuFastboot.Ext4.spill read s.delayed s.out = none ∧
        ¬ g.AllReadable env root read (g.readFrom env B pos n) pos n ∨
      UuuFastboot.Ext4.spill read s.delayed s.out =
          some (overlay out 0 (g.filled pos n k) (tail (g.fileBytes V (g.readFrom env B pos n)) pos)) ∧
        ∀ t < g.filled pos n k, g.readFrom env B pos n ((pos + t) / g.bs) ≠ 0 →
          g.place (g.readFrom env B pos n) (pos + t) < env.partSize * env.devBlksz := by
  obtain ⟨done, written, inside, ⟨none, all, -⟩ | ⟨d, x, delayed, low, start, buf, extent, reach, after, -, run, -⟩⟩ :=
    reading.pending
  · subst all
    rw [none, written]
    exact .inr ⟨rfl, inside⟩
  · have withinN : g.filled pos n k ≤ n := by
      unfold Geometry.filled
      omega
    -- the last byte of the stretch
    obtain ⟨there, end_⟩ := run (d.extent - 1) (by omega)
    have position : pos + done + (d.extent - 1) = pos + g.filled pos n k - 1 := by omega
    rw [position] at there end_
    have ends : x * g.bs + d.skipfirst + d.extent =
        g.place (g.readFrom env B pos n) (pos + g.filled pos n k - 1) + 1 := by omega
    have passed : pos < k * g.bs := Nat.lt_mul_of_div_lt after Geometry.bs_pos
    have trust : trusted x d.skipfirst d.extent := by
      by_cases inner : k * g.bs ≤ pos + n
      · have whole := stretch_end after inner extent reach (fun t less => (run t less).2)
        rw [Nat.add_assoc] at whole
        have sectors : env.devBlksz ∣ g.bs := ⟨_, fits.bs_eq.trans (Nat.mul_comm _ _)⟩
        refine aligned ((Nat.dvd_add_right (Dvd.dvd.mul_left sectors x)).mp ?_)
        rw [whole]
        exact Dvd.dvd.mul_left sectors _
      · refine last extent ?_
        rw [ends, show g.filled pos n k = n by unfold Geometry.filled; omega]
    have room : x * g.bs + d.skipfirst + d.extent ≤ (g.totalBlocks + 1) * g.bs := by
      have order := Nat.div_add_mod' (pos + g.filled pos n k - 1) g.bs
      have rest := Nat.mod_lt (pos + g.filled pos n k - 1) (Geometry.bs_pos (g := g))
      have le : g.readFrom env B pos n ((pos + g.filled pos n k - 1) / g.bs) ≤ g.totalBlocks :=
        Geometry.readFrom_le (below _ (Nat.div_le_div_right (by omega)) (by omega))
      have := Nat.mul_le_mul_right g.bs le
      rw [ends, Geometry.place, Nat.succ_mul]
      omega
    rw [delayed, written, UuuFastboot.Ext4.spill]
    simp only [start, buf]
    cases device : read (blockSector env root x) d.skipfirst d.extent with
    | none =>
      refine .inl ⟨rfl, fun readable => ?_⟩
      have far := readable.inside (g.filled pos n k - 1) (by omega)
      rw [← Nat.add_sub_assoc (by omega)] at far
      have within : x * g.bs + d.skipfirst + d.extent ≤ env.partSize * env.devBlksz := by
        have := far there
        omega
      have succeeds := readable.total low extent within
      rw [device] at succeeds
      cases succeeds
    | some bytes =>
      obtain ⟨fits', same⟩ := honest low extent room trust device
      refine .inr ⟨?_, fun t less there => ?_⟩
      · rw [Option.map_some, overlay_stretch, reach]
        intro t less
        obtain ⟨there, place⟩ := run t less
        rw [same, clip_of_lt less, tail_apply, tail_apply, Geometry.fileBytes, ← Nat.add_assoc, if_neg there, place]
      · by_cases old : t < done
        · exact inside t old there
        · obtain ⟨-, place⟩ := run (t - done) (by omega)
          rw [show pos + done + (t - done) = pos + t by omega] at place
          omega

theorem Reading.round (log2 : root.log2BlockSize = g.log2bs) (positive : 0 < n) (start : pos / g.bs ≤ k)
    (more : k * g.bs < pos + n) (inode : Buf) (reading : Reading env g root V B pos n out k s) :
    readRound env root read ⟨inode, pos, n, g.bs, (n + pos + g.bs - 1) / g.bs⟩ k (B k) s = none ∧
        ¬ g.AllReadable env root read (g.readFrom env B pos n) pos n ∨
      ∃ delayed done, readRound env root read ⟨inode, pos, n, g.bs, (n + pos + g.bs - 1) / g.bs⟩ k (B k) s =
          some (delayed, done) ∧ ∀ cache c,
        Reading env g root V B pos n out (k + 1) ⟨s.buf + (g.bs - g.skipOf pos k), delayed, done, cache, c⟩ := by
  have spilled := reading.spill fits honest aligned last below
  have buf := reading.buf
  simp only [readRound, Geometry.part_eq positive more inode]
  by_cases hole : B k = 0
  · -- the buffer is complete up to the hole, and the hole is filled with zeros
    have sector : blockSector env root (B k) = 0 := by
      rw [hole, blockSector, Nat.zero_mul]
      rfl
    rw [if_neg (not_not.mpr sector)]
    rcases spilled with ⟨fails, unreadable⟩ | ⟨carried, inside⟩
    · rw [fails]
      exact .inl ⟨rfl, unreadable⟩
    · rw [carried]
      exact .inr ⟨none, _, rfl, Reading.hole buf positive start more hole inside⟩
  · have sector : blockSector env root (B k) ≠ 0 := blockSector_ne_zero fits log2 hole (below k start more)
    rw [if_pos sector, addBlock]
    obtain ⟨done, written, inside,
      ⟨none, all, front⟩ | ⟨d, x, delayed, low, begins, place, extent, reach, after, there, run, next⟩⟩ :=
        reading.pending
    · subst all
      simp only [none]
      refine .inr ⟨_, _, rfl, Reading.fresh buf positive start more hole (below k start more) ?_ written inside⟩
      rcases front with rfl | before
      · exact Geometry.readFrom_first
      · rcases Nat.lt_or_eq_of_le start with after | rfl
        · exact Geometry.readFrom_of_hole after before
        · exact Geometry.readFrom_first
    · have before : (k - 1) * g.bs < pos + n := (Nat.mul_le_mul_right _ (Nat.sub_le k 1)).trans_lt more
      have expected : d.next = blockSector env root (B k) ↔ g.Joins env B pos k := by
        rw [next more]
        exact Geometry.joins_iff fits log2 after (below _ (Nat.le_sub_one_of_lt after) before) (below k start more)
      have smaller : env.devBlksz ≤ g.bs := Nat.le_of_dvd Geometry.bs_pos ⟨_, fits.bs_eq.trans (Nat.mul_comm _ _)⟩
      have step := Geometry.readFrom_step smaller after more there
      rw [delayed] at spilled ⊢
      dsimp only
      by_cases joins : d.next = blockSector env root (B k)
      · rw [if_pos joins]
        exact .inr ⟨_, _, rfl, Reading.joined buf positive after more hole (step.1 (expected.mp joins)) written inside
          low begins place extent reach run joins⟩
      · rw [if_neg joins]
        rcases spilled with ⟨fails, unreadable⟩ | ⟨carried, inside⟩
        · rw [fails]
          exact .inl ⟨rfl, unreadable⟩
        · rw [carried]
          exact .inr ⟨_, _, rfl, Reading.fresh buf positive start more hole (below k start more) (step.2 (joins ∘ expected.mpr)) rfl inside⟩

theorem Reading.loop (log2 : root.log2BlockSize = g.log2bs) (positive : 0 < n)
    {lookup : Nat → ExtCache → Caches → Option (Nat × ExtCache × Caches)} {c' : Caches} (inode : Buf) {left : Nat}
    (start : pos / g.bs ≤ k) (count : k + left = (n + pos + g.bs - 1) / g.bs)
    (answers : LooksUp lookup B left k s.cache s.caches c') (reading : Reading env g root V B pos n out k s) :
    ∃ result c'', readLoop env root read lookup ⟨inode, pos, n, g.bs, (n + pos + g.bs - 1) / g.bs⟩ left k s =
        some (result, c'') ∧
      (result = none ∧ ¬ g.AllReadable env root read (g.readFrom env B pos n) pos n ∨
        result = some (overlay out 0 n (tail (g.fileBytes V (g.readFrom env B pos n)) pos)) ∧ c'' = c' ∧
          ∀ t < n, g.readFrom env B pos n ((pos + t) / g.bs) ≠ 0 →
            g.place (g.readFrom env B pos n) (pos + t) < env.partSize * env.devBlksz) := by
  induction left generalizing k s with
  | zero =>
    have all : g.filled pos n k = n := by
      have order := Nat.lt_div_mul_add (a := n + pos + g.bs - 1) (Geometry.bs_pos (g := g))
      rw [← count, Nat.add_zero] at order
      unfold Geometry.filled
      omega
    have spilled := reading.spill fits honest aligned last below
    rw [all] at spilled
    refine ⟨_, _, rfl, ?_⟩
    rcases spilled with fails | ⟨carried, inside⟩
    · exact .inl fails
    · exact .inr ⟨carried, answers.symm, inside⟩
  | succ left ih =>
    obtain ⟨cache, c, answer, answers⟩ := answers
    have more : k * g.bs < pos + n := by
      have order : (k + 1) * g.bs ≤ n + pos + g.bs - 1 :=
        (Nat.mul_le_mul_right _ (by omega)).trans (Nat.div_mul_le_self (n + pos + g.bs - 1) g.bs)
      rw [Nat.succ_mul] at order
      omega
    have notNeg := isNeg_of_lt fits (below k start more)
    simp only [readLoop, answer, notNeg, Bool.false_eq_true, if_false]
    rcases reading.round fits honest aligned last below log2 positive start more inode with
      ⟨fails, unreadable⟩ | ⟨delayed, done, round, further⟩
    · rw [fails]
      exact ⟨none, c, rfl, .inl ⟨rfl, unreadable⟩⟩
    · rw [round]
      simp only [Geometry.part_eq positive more inode]
      exact ih (Nat.le_succ_of_le start) (by omega) answers (further cache c)

end Loop

end UuuFastboot.Ext4
