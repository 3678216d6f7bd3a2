import UuuFastboot.Ext4.BlockMap
import UuuFastboot.Ext4.Geometry

namespace UuuFastboot.Ext4

open Word Overlay Bytes

namespace Geometry

variable (g : Geometry)

def perblock : Nat := g.bs / 4

def word (V : Buf) (b i : Nat) : Nat := getLe32 (g.blk V b) (4 * i)

def SameBlock (V V' : Buf) (b : Nat) : Prop := ∀ i < g.bs, V (b * g.bs + i) = V' (b * g.bs + i)

/-- Follow pointers from block `b` on: what the last one names, and the blocks
of pointers on the way. A pointer that is zero leads to no block. -/
def follow (V : Buf) : Nat → List Nat → Option (Nat × List Nat)
  | b, [] => some (b, [])
  | b, i :: is =>
    if b = 0 then some (0, [])
    else if g.totalBlocks ≤ b then none
    else (follow V (g.word V b i) is).map (fun r => (r.1, b :: r.2))

/-- Where the search for a block of a file with indirect blocks starts, and
the indices it follows. -/
def pointers (inode : Buf) (k : Nat) : Option (Nat × List Nat) :=
  let p := g.perblock
  if k < indirectBlocks then some (getLe32 inode (Inode.dirBlocks + 4 * k), [])
  else if k < indirectBlocks + p then some (Inode.indirBlock inode, [k - indirectBlocks])
  else if k < indirectBlocks + p + p * p then
    let r := k - (indirectBlocks + p)
    some (Inode.doubleIndirBlock inode, [r / p, r % p])
  else if k < indirectBlocks + p + p * p + p * p * p then
    let r := k - (indirectBlocks + p + p * p)
    some (Inode.tripleIndirBlock inode, [r / (p * p), r / p % p, r % p])
  else none

/-- The block that pointers from `b` on lead to, and the blocks of pointers on the way. A zero pointer is a hole. -/
def chase (V : Buf) : Nat → List Nat → Nat × List Nat
  | b, [] => (b, [])
  | b, i :: is => if b = 0 then (0, []) else ((chase V (g.word V b i) is).1, b :: (chase V (g.word V b i) is).2)

/-- The block map of an inode: 12 direct pointers, then trees of one, two and three levels. -/
def blockMap (V inode : Buf) (k : Nat) : Nat × List Nat :=
  match g.pointers inode k with
  | some (b, is) => g.chase V b is
  | none => (0, [])

/-- The leaf of an extent tree that a block of the file belongs to, and the
blocks of the tree on the way. -/
def extentLeaf (V : Buf) (k : Nat) : Nat → Buf → Option (Buf × List Nat)
  | 0, _ => none
  | levels + 1, block =>
    if getLe16 block 0 ≠ extMagic then none
    else if getLe16 block 6 = 0 then some (block, [])
    else
      let i := indexScan block k (getLe16 block 2) 0 - 1
      let child := 2 ^ 32 * getLe16 block (12 + 12 * i + 8) + getLe32 block (12 + 12 * i + 4)
      if g.totalBlocks ≤ child then none
      else (extentLeaf V k levels (clip g.bs (g.blk V child))).map (fun r => (r.1, child :: r.2))

/-- The block map of an inode: the block of the volume that holds block `k` of
the file, 0 for a hole, with the blocks of the map that lead to it. -/
def lookup (levels : Nat) (V inode : Buf) (k : Nat) : Option (Nat × List Nat) :=
  if Inode.usesExtents inode then
    (g.extentLeaf V k levels (tail inode Inode.dirBlocks)).map
      (fun r => (extentScan r.1 k (getLe16 r.1 2) 0, r.2))
  else (g.pointers inode k).bind (fun r => g.follow V r.1 r.2)

/-- How many blocks of pointers stand in front of block `k` of a file. -/
def depth (k : Nat) : Nat :=
  let p := g.perblock
  if k < indirectBlocks then 0
  else if k < indirectBlocks + p then 1
  else if k < indirectBlocks + p + p * p then 2
  else 3

def Complete (inode : Buf) (k : Nat) (via : List Nat) : Prop :=
  Inode.usesExtents inode = true ∨ via.length = g.depth k

/-- The first block of a file that the driver looks up through a second parent
in the triple-indirect tree; from there on it tests its third buffer behind the
end of the second one. -/
def limit : Nat := indirectBlocks + g.perblock + g.perblock * g.perblock + g.perblock * g.perblock

variable {g}

variable {V V' inode : Buf} {b r k levels : Nat} {is via : List Nat}

theorem Sized.perblock_pos {env : Env} (sized : g.Sized env) : 0 < g.perblock := by
  have large : 2 ^ 10 ≤ g.bs := Nat.pow_le_pow_right (by decide) sized.log2.1
  exact Nat.div_pos (by omega) (by decide)

theorem SameBlock.clip_eq (same : g.SameBlock V V' b) :
    clip g.bs (g.blk V b) = clip g.bs (g.blk V' b) := by
  funext i
  unfold clip
  split
  · exact same i ‹_›
  · rfl

theorem SameBlock.symm (same : g.SameBlock V V' b) : g.SameBlock V' V b :=
  fun i below => (same i below).symm

theorem SameBlock.trans {V'' : Buf} (first : g.SameBlock V V' b) (second : g.SameBlock V' V'' b) :
    g.SameBlock V V'' b := fun i below => (first i below).trans (second i below)

theorem SameBlock.refl (V : Buf) (b : Nat) : g.SameBlock V V b := fun _ _ => rfl

theorem SameBlock.word {i : Nat} (same : g.SameBlock V V' b) (below : i < g.perblock) :
    g.word V b i = g.word V' b i := by
  unfold perblock at below
  exact getLe32_congr (fun j small => same _ (by omega))

theorem follow_congr (small : ∀ i ∈ is, i < g.perblock)
    (found : g.follow V b is = some (r, via)) (same : ∀ x ∈ via, g.SameBlock V V' x) :
    g.follow V' b is = some (r, via) := by
  induction is generalizing b r via with
  | nil => exact found
  | cons i is ih =>
    simp only [follow] at found ⊢
    split_ifs at found ⊢ with zero outside
    · exact found
    · obtain ⟨⟨r', via'⟩, further, e⟩ := Option.map_eq_some_iff.mp found
      cases e
      have here := (same b List.mem_cons_self).word (small i List.mem_cons_self)
      rw [← here, ih (fun j member => small j (List.mem_cons_of_mem _ member)) further
        (fun x member => same x (List.mem_cons_of_mem _ member))]
      rfl

theorem chase_congr (small : ∀ i ∈ is, i < g.perblock)
    (same : ∀ x ∈ (g.chase V b is).2, g.SameBlock V V' x) : g.chase V' b is = g.chase V b is := by
  induction is generalizing b with
  | nil => rfl
  | cons i is ih =>
    simp only [chase] at same ⊢
    by_cases hole : b = 0
    · rw [if_pos hole, if_pos hole]
    · rw [if_neg hole] at same
      rw [if_neg hole, if_neg hole, ← (same b List.mem_cons_self).word (small i List.mem_cons_self),
        ih (fun j member => small j (List.mem_cons_of_mem _ member))
          (fun x member => same x (List.mem_cons_of_mem _ member))]

theorem chase_zero (V : Buf) (is : List Nat) : g.chase V 0 is = (0, []) := by
  cases is <;> simp [chase]

theorem follow_length
    (found : g.follow V b is = some (r, via)) (there : r ≠ 0) : via.length = is.length := by
  induction is generalizing b r via with
  | nil =>
    cases found
    rfl
  | cons i is ih =>
    simp only [follow] at found
    split_ifs at found with zero outside
    · cases found
      exact absurd rfl there
    · obtain ⟨⟨r', via'⟩, further, e⟩ := Option.map_eq_some_iff.mp found
      cases e
      simp only [List.length_cons, ih further there]

theorem follow_cons {i : Nat}
    (found : g.follow V b (i :: is) = some (r, via)) (full : via.length = is.length + 1) :
    b ≠ 0 ∧ b < g.totalBlocks ∧
      ∃ rest, via = b :: rest ∧ g.follow V (g.word V b i) is = some (r, rest) ∧ rest.length = is.length := by
  simp only [follow] at found
  split_ifs at found with zero outside
  · cases found
    simp at full
  · obtain ⟨⟨r', rest⟩, further, e⟩ := Option.map_eq_some_iff.mp found
    cases e
    simp only [List.length_cons, Nat.add_right_cancel_iff] at full
    exact ⟨zero, by omega, rest, rfl, further, full⟩

theorem pointers_small (start : g.pointers inode k = some (b, is)) :
    (∀ i ∈ is, i < g.perblock) ∧ is.length = g.depth k := by
  simp only [pointers] at start
  simp only [depth]
  split_ifs at start ⊢ with direct single double triple
  · cases start
    simp
  · cases start
    simpa using (by omega : k - indirectBlocks < g.perblock)
  · have positive : 0 < g.perblock := by
      by_contra zero
      rw [Nat.eq_zero_of_not_pos zero] at single double
      omega
    have second := Nat.mod_lt (k - (indirectBlocks + g.perblock)) positive
    have first : (k - (indirectBlocks + g.perblock)) / g.perblock < g.perblock := Nat.div_lt_of_lt_mul (by omega)
    cases start
    simpa using ⟨first, second⟩
  · have positive : 0 < g.perblock := by
      by_contra zero
      rw [Nat.eq_zero_of_not_pos zero] at single double triple
      omega
    have third := Nat.mod_lt (k - (indirectBlocks + g.perblock + g.perblock * g.perblock)) positive
    have second := Nat.mod_lt ((k - (indirectBlocks + g.perblock + g.perblock * g.perblock)) / g.perblock) positive
    have first : (k - (indirectBlocks + g.perblock + g.perblock * g.perblock)) / (g.perblock * g.perblock) <
        g.perblock := Nat.div_lt_of_lt_mul (by omega)
    cases start
    simpa using ⟨first, second, third⟩

theorem extentLeaf_congr {block leaf : Buf}
    (found : g.extentLeaf V k levels block = some (leaf, via)) (same : ∀ x ∈ via, g.SameBlock V V' x) :
    g.extentLeaf V' k levels block = some (leaf, via) := by
  induction levels generalizing block leaf via with
  | zero => cases found
  | succ levels ih =>
    simp only [extentLeaf] at found ⊢
    split_ifs at found ⊢ with magic flat outside
    · exact found
    · obtain ⟨⟨leaf', via'⟩, further, e⟩ := Option.map_eq_some_iff.mp found
      cases e
      rw [← (same _ List.mem_cons_self).clip_eq, ih further (fun x member => same x (List.mem_cons_of_mem _ member))]
      rfl

theorem lookup_congr
    (found : g.lookup levels V inode k = some (b, via)) (same : ∀ x ∈ via, g.SameBlock V V' x) :
    g.lookup levels V' inode k = some (b, via) := by
  unfold lookup at found ⊢
  split_ifs at found ⊢ with extents
  · obtain ⟨⟨leaf, via'⟩, leafAt, e⟩ := Option.map_eq_some_iff.mp found
    cases e
    rw [extentLeaf_congr leafAt same]
    rfl
  · obtain ⟨⟨start, is⟩, at_, followed⟩ := Option.bind_eq_some_iff.mp found
    rw [at_, Option.bind_some]
    exact follow_congr (pointers_small at_).1 followed same

theorem lookup_complete
    (found : g.lookup levels V inode k = some (b, via)) (there : b ≠ 0) : g.Complete inode k via := by
  unfold lookup at found
  split_ifs at found with extents
  · exact Or.inl extents
  · obtain ⟨⟨start, is⟩, at_, followed⟩ := Option.bind_eq_some_iff.mp found
    exact Or.inr ((follow_length followed there).trans (pointers_small at_).2)

/-- Block `k` of a file is one that the driver looks up as the block map has
it: block `b`, or a hole for 0, reached through the blocks `via`. -/
structure Found (levels : Nat) (V inode : Buf) (k b : Nat) (via : List Nat) : Prop where
  lookup : g.lookup levels V inode k = some (b, via)
  complete : g.Complete inode k via
  range : Inode.usesExtents inode = true ∨ k < g.limit
  small : k < 2 ^ 31

theorem Found.congr
    (found : Found (g := g) levels V inode k b via) (same : ∀ x ∈ via, g.SameBlock V V' x) :
    Found (g := g) levels V' inode k b via :=
  ⟨lookup_congr found.lookup same, found.complete, found.range, found.small⟩

end Geometry

end UuuFastboot.Ext4
