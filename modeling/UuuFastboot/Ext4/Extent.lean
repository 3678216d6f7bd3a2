import UuuFastboot.Ext4.IndirectRun

namespace UuuFastboot.Ext4

open Word Overlay Bytes

/-- An entry of a leaf: `ee_block`, `ee_len` and the block of the volume that the two parts of `ee_start` name. -/
structure Extent where
  start : Nat
  rawLen : Nat
  phys : Nat
  deriving DecidableEq, Repr

namespace Extent

/-- The extent is initialised; otherwise its blocks are allocated and read as zeros. -/
def Written (e : Extent) : Prop := e.rawLen ≤ 32768

instance (e : Extent) : Decidable e.Written := inferInstanceAs (Decidable (_ ≤ _))

def len (e : Extent) : Nat := if e.Written then e.rawLen else e.rawLen - 32768

def stop (e : Extent) : Nat := e.start + e.len

def Covers (e : Extent) (k : Nat) : Prop := e.start ≤ k ∧ k < e.stop

instance (e : Extent) (k : Nat) : Decidable (e.Covers k) := inferInstanceAs (Decidable (_ ∧ _))

theorem len_le (e : Extent) : e.len ≤ e.rawLen := by
  unfold len
  split <;> omega

theorem len_of_written {e : Extent} (written : e.Written) : e.len = e.rawLen := if_pos written

end Extent

def extentAt (block : Buf) (i : Nat) : Extent :=
  ⟨getLe32 block (12 + 12 * i), getLe16 block (12 + 12 * i + 4),
    2 ^ 32 * getLe16 block (12 + 12 * i + 6) + getLe32 block (12 + 12 * i + 8)⟩

def leafExtents (block : Buf) : List Extent := (List.range (getLe16 block 2)).map (extentAt block)

/-- `ei_block` of an entry of an index block. -/
def indexKey (block : Buf) (i : Nat) : Nat := getLe32 block (12 + 12 * i)

/-- The block of the tree that an entry of an index block names. -/
def indexChild (block : Buf) (i : Nat) : Nat :=
  2 ^ 32 * getLe16 block (12 + 12 * i + 8) + getLe32 block (12 + 12 * i + 4)

/-- What the extents of a file say of a block: where it is, or 0 for a hole and for a block that was never written. -/
def mapped (es : List Extent) (k : Nat) : Nat :=
  match es.find? (fun e => e.Covers k) with
  | some e => if e.Written then e.phys + (k - e.start) else 0
  | none => 0

/-- An extent tree with its root in `block`, which has room for `room` entries, and with the given leaves. The keys
of an index block are the first blocks of the subtrees. -/
inductive Geometry.ExtentTree (g : Geometry) (V : Buf) : Nat → Nat → Buf → List (List Extent) → Prop
  | leaf {room : Nat} {block : Buf} :
    getLe16 block 0 = extMagic → getLe16 block 6 = 0 → getLe16 block 2 ≤ room →
      ExtentTree g V room 0 block [leafExtents block]
  | node {room depth : Nat} {block : Buf} {children : List (List (List Extent))} :
    getLe16 block 0 = extMagic → getLe16 block 6 = depth + 1 → getLe16 block 2 = children.length →
      children.length ≤ room → children ≠ [] →
      (∀ i leaves, children[i]? = some leaves → indexChild block i < g.totalBlocks) →
      (∀ i leaves, children[i]? = some leaves →
        ExtentTree g V ((g.bs - 12) / 12) depth (clip g.bs (g.blk V (indexChild block i))) leaves) →
      (∀ i leaves, children[i]? = some leaves → ∃ e rest more, leaves = (e :: rest) :: more ∧
        e.start = indexKey block i) →
      ExtentTree g V room (depth + 1) block children.flatten

/-- The extents of a file: in order and disjoint, none of them empty, on blocks of the volume. -/
structure Geometry.ExtentsValid (g : Geometry) (es : List Extent) : Prop where
  sorted : es.Pairwise (fun e e' => e.stop ≤ e'.start)
  some : ∀ e ∈ es, 0 < e.rawLen ∧ e.rawLen < 2 ^ 16
  numbered : ∀ e ∈ es, e.stop ≤ 2 ^ 32
  inside : ∀ e ∈ es, 0 < e.phys ∧ e.phys + e.len ≤ g.totalBlocks

variable {k : Nat} {e : Extent} {es : List Extent}

theorem indexScan_spec (block : Buf) (k left i : Nat) :
    i ≤ indexScan block k left i ∧ indexScan block k left i ≤ i + left ∧
      (∀ j, i ≤ j → j < indexScan block k left i → indexKey block j ≤ k) ∧
      (indexScan block k left i < i + left → k < indexKey block (indexScan block k left i)) := by
  induction left generalizing i with
  | zero =>
    rw [indexScan]
    exact ⟨le_rfl, le_rfl, fun j first last => by omega, fun less => by omega⟩
  | succ left ih =>
    rw [indexScan]
    split
    · next below =>
      obtain ⟨lower, upper, front, behind⟩ := ih (i + 1)
      refine ⟨by omega, by omega, fun j first last => ?_, fun less => behind (by omega)⟩
      rcases Nat.lt_or_eq_of_le first with later | rfl
      · exact front j later last
      · exact below
    · next above =>
      exact ⟨le_rfl, by omega, fun j first last => by omega, fun _ => Nat.lt_of_not_le above⟩

/-- A leaf among the leaves of a tree is the one for block `k`: it is the first, or begins at or before `k`, and the
ones behind it begin later. -/
structure LeafFor (leaves : List (List Extent)) (k : Nat) (before : List (List Extent)) (leaf : List Extent)
    (after : List (List Extent)) : Prop where
  split : leaves = before ++ leaf :: after
  begins : before ≠ [] → ∃ e ∈ leaf, e.start ≤ k
  ends : ∀ other ∈ after, ∀ e ∈ other, k < e.start

theorem LeafFor.unique {leaves before before' after after' : List (List Extent)} {leaf leaf' : List Extent}
    (one : LeafFor leaves k before leaf after) (two : LeafFor leaves k before' leaf' after') : leaf = leaf' := by
  have ordered {before before' after after' : List (List Extent)} {leaf leaf' : List Extent}
      (one : LeafFor leaves k before leaf after) (two : LeafFor leaves k before' leaf' after') :
      ¬ before.length < before'.length := by
    intro shorter
    have later : leaf' ∈ after := by
      have place : (before ++ leaf :: after)[before'.length]? = some leaf' := by
        rw [← one.split, two.split, List.getElem?_append_right le_rfl, Nat.sub_self]
        rfl
      rw [List.getElem?_append_right (by omega), List.getElem?_cons, if_neg (by omega)] at place
      exact List.mem_of_getElem? place
    obtain ⟨e, member, le⟩ := two.begins (fun none => by simp [none] at shorter)
    have := one.ends leaf' later e member
    omega
  have same : before.length = before'.length := by
    have := ordered one two
    have := ordered two one
    omega
  have here := (List.append_inj (one.split.symm.trans two.split) same).2
  exact (List.cons.inj here).1

section Descent

variable {g : Geometry} {V : Buf} {k : Nat}

theorem chosenChild {block : Buf} {children : List (List (List Extent))} (count : getLe16 block 2 = children.length)
    (some : children ≠ [])
    (keys : ∀ i leaves, children[i]? = .some leaves → ∃ e rest more, leaves = (e :: rest) :: more ∧
      e.start = indexKey block i)
    (sorted : children.flatten.flatten.Pairwise (fun e e' => e.stop ≤ e'.start)) :
    let j := indexScan block k (getLe16 block 2) 0 - 1
    ∃ front leaves back, children = front ++ leaves :: back ∧ children[j]? = .some leaves ∧
      (front ≠ [] → indexKey block j ≤ k) ∧ ∀ other ∈ back.flatten, ∀ e ∈ other, k < e.start := by
  intro j
  obtain ⟨-, upper, front, behind⟩ := indexScan_spec block k (getLe16 block 2) 0
  have positive : 0 < children.length := List.length_pos_iff.mpr some
  have below : j < children.length := by
    change indexScan block k (getLe16 block 2) 0 - 1 < children.length
    omega
  have split : children = children.take j ++ children[j] :: children.drop (j + 1) := by
    rw [← List.drop_eq_getElem_cons, List.take_append_drop]
  refine ⟨children.take j, children[j], children.drop (j + 1), split, List.getElem?_eq_getElem below, fun more => ?_,
    fun other member e inOther => ?_⟩
  · refine front j (Nat.zero_le j) ?_
    by_contra none
    have zero : j = 0 := by
      change indexScan block k (getLe16 block 2) 0 - 1 = 0
      omega
    rw [zero] at more
    exact more rfl
  · -- the entry at which the search stopped begins behind `k`, and so do all the extents from there on
    have less : indexScan block k (getLe16 block 2) 0 < children.length := by
      by_contra all
      have none : children.drop (j + 1) = [] := List.drop_eq_nil_of_le (by
        change children.length ≤ indexScan block k (getLe16 block 2) 0 - 1 + 1
        omega)
      simp [none] at member
    have beyond := behind (by omega)
    have reach : indexScan block k (getLe16 block 2) 0 ≤ j + 1 := by
      change _ ≤ indexScan block k (getLe16 block 2) 0 - 1 + 1
      omega
    generalize indexScan block k (getLe16 block 2) 0 = m at less beyond reach
    obtain ⟨e₀, rest, more, leaves, key⟩ := keys m children[m] (List.getElem?_eq_getElem less)
    have rear : (children.drop m).flatten.flatten = e₀ :: (rest ++ (more ++ (children.drop (m + 1)).flatten).flatten) := by
      rw [List.drop_eq_getElem_cons less, leaves]
      simp
    have ordered : ((children.drop m).flatten.flatten).Pairwise (fun e e' => e.stop ≤ e'.start) :=
      sorted.sublist (List.drop_sublist m children).flatten.flatten
    have within : e ∈ (children.drop m).flatten.flatten := by
      have sub : (children.drop (j + 1)).Sublist (children.drop m) := List.drop_sublist_drop_left children reach
      exact sub.flatten.flatten.subset (List.mem_flatten.mpr ⟨other, member, inOther⟩)
    rw [rear] at ordered within
    have far : e₀.start ≤ e.start := by
      rcases List.mem_cons.mp within with rfl | later
      · exact le_rfl
      · exact (Nat.le_add_right _ _).trans ((List.pairwise_cons.mp ordered).1 e later)
    omega

theorem Geometry.ExtentTree.leafFor {room depth levels : Nat} {block : Buf} {leaves : List (List Extent)}
    (tree : g.ExtentTree V room depth block leaves)
    (sorted : leaves.flatten.Pairwise (fun e e' => e.stop ≤ e'.start)) (enough : depth < levels) (k : Nat) :
    ∃ leaf via before after, g.extentLeaf V k levels block = some (leaf, via) ∧
      LeafFor leaves k before (leafExtents leaf) after := by
  induction tree generalizing levels with
  | @leaf room block magic flat _ =>
    obtain ⟨levels, rfl⟩ : ∃ n, levels = n + 1 := ⟨levels - 1, by omega⟩
    refine ⟨block, [], [], [], ?_, rfl, fun none => absurd rfl none, by simp⟩
    rw [Geometry.extentLeaf, if_neg (by simp [magic]), if_pos flat]
  | @node room depth block children magic deep count _ some inside trees keys ih =>
    obtain ⟨levels, rfl⟩ : ∃ n, levels = n + 1 := ⟨levels - 1, by omega⟩
    obtain ⟨front, chosen, back, split, here, low, high⟩ := chosenChild (k := k) count some keys sorted
    have part : chosen.flatten.Pairwise (fun e e' => e.stop ≤ e'.start) := by
      refine sorted.sublist ?_
      rw [split]
      simp
    obtain ⟨leaf, via, before, after, found, for_⟩ := ih _ chosen here part (by omega : depth < levels)
    refine ⟨leaf, indexChild block (indexScan block k (getLe16 block 2) 0 - 1) :: via, front.flatten ++ before,
      after ++ back.flatten, ?_, ?_, fun more => ?_, ?_⟩
    · rw [Geometry.extentLeaf, if_neg (by simp [magic]), if_neg (by omega)]
      have below := inside _ chosen here
      unfold indexChild at below found ⊢
      simp only [if_neg (Nat.not_le_of_lt below), found, Option.map_some]
    · rw [split, List.flatten_append, List.flatten_cons, for_.split]
      simp
    · cases before with
      | nil =>
        obtain ⟨e, rest, others, leaves, key⟩ := keys _ chosen here
        have first : leafExtents leaf = e :: rest := by
          have same := for_.split.symm.trans leaves
          exact (List.cons.inj same).1
        have begins := low (fun none => more (by simp [none]))
        exact ⟨e, by simp [first], by omega⟩
      | cons first others => exact for_.begins (by simp)
    · intro other member e inOther
      rcases List.mem_append.mp member with within | later
      · exact for_.ends other within e inOther
      · exact high other later e inOther

end Descent

def scanExtents (k : Nat) : List Extent → Nat
  | [] => 0
  | e :: rest =>
    if asInt k < asInt e.start then 0
    else if asInt k < asInt (w32 (e.start + e.rawLen)) then w32 (k + (2 ^ 32 - e.start) + e.phys)
    else scanExtents k rest

theorem extentScan_eq (leaf : Buf) (k left i : Nat) :
    extentScan leaf k left i = scanExtents k ((List.range' i left).map (extentAt leaf)) := by
  induction left generalizing i with
  | zero => rfl
  | succ left ih =>
    rw [List.range'_succ, List.map_cons, extentScan, scanExtents, ih]
    simp only [extentAt, Nat.add_assoc]

theorem extentScan_leaf (leaf : Buf) (k : Nat) :
    extentScan leaf k (getLe16 leaf 2) 0 = scanExtents k (leafExtents leaf) := by
  rw [extentScan_eq, leafExtents, List.range_eq_range']

namespace Extent

/-- The scan takes the extent for block `k`, which it has not found to lie in front of it. The end of the extent, with
the length as it is stored, is a signed number. -/
def Takes (e : Extent) (k : Nat) : Prop :=
  e.start + e.rawLen < 2 ^ 31 ∧ k < e.start + e.rawLen ∨ 2 ^ 31 ≤ e.start ∧ k + 2 ^ 32 < e.start + e.rawLen

instance (e : Extent) (k : Nat) : Decidable (e.Takes k) := inferInstanceAs (Decidable (_ ∨ _))

theorem takes_low {e : Extent} {k : Nat} (low : e.start < 2 ^ 31) :
    e.Takes k ↔ e.start + e.rawLen < 2 ^ 31 ∧ k < e.start + e.rawLen := by
  unfold Takes
  omega

theorem takes_high {e : Extent} {k : Nat} (high : 2 ^ 31 ≤ e.start) : e.Takes k ↔ k + 2 ^ 32 < e.start + e.rawLen := by
  unfold Takes
  omega

def reach (e : Extent) : Nat := if e.Written then e.stop else e.start

theorem start_le_reach (e : Extent) : e.start ≤ e.reach := by
  unfold reach stop
  split <;> omega

end Extent

theorem scanExtents_cons (rest : List Extent) (small : k < 2 ^ 31) (numbered : e.start < 2 ^ 32)
    (short : e.rawLen < 2 ^ 16) :
    scanExtents k (e :: rest) =
      if e.start < 2 ^ 31 ∧ k < e.start then 0
      else if e.Takes k then w32 (k + (2 ^ 32 - e.start) + e.phys) else scanExtents k rest := by
  have signed : asInt k = k := if_pos small
  rw [scanExtents, signed]
  by_cases low : e.start < 2 ^ 31
  · have start : asInt e.start = e.start := if_pos low
    have stop : w32 (e.start + e.rawLen) = e.start + e.rawLen := w32_of_lt (by omega)
    rw [start, stop]
    refine if_congr (by omega) rfl (if_congr ?_ rfl rfl)
    rw [Extent.takes_low low]
    unfold asInt
    split <;> omega
  · have start : asInt e.start = (e.start : Int) - 2 ^ 32 := if_neg low
    rw [start, if_neg (by omega : ¬ (k : Int) < e.start - 2 ^ 32),
      if_neg (fun both : e.start < 2 ^ 31 ∧ k < e.start => low both.1)]
    refine if_congr ?_ rfl rfl
    rw [Extent.takes_high (Nat.not_lt.mp low)]
    unfold asInt w32
    split <;> omega

theorem mapped_eq_zero (holes : ∀ e ∈ es, e.Covers k → ¬ e.Written) : mapped es k = 0 := by
  unfold mapped
  split
  · next e found =>
    have covers : e.Covers k := by simpa using List.find?_some found
    rw [if_neg (holes e (List.mem_of_find?_eq_some found) covers)]
  · rfl

theorem mapped_cons_of_covers (covers : e.Covers k) :
    mapped (e :: es) k = if e.Written then e.phys + (k - e.start) else 0 := by
  rw [mapped, List.find?_cons_of_pos (by simpa using covers)]

theorem mapped_cons_of_not_covers (not : ¬ e.Covers k) :
    mapped (e :: es) k = mapped es k := by
  rw [mapped, List.find?_cons_of_neg (by simpa using not), mapped]

theorem mapped_append_of_not_covers {front : List Extent} (not : ∀ e ∈ front, ¬ e.Covers k) :
    mapped (front ++ es) k = mapped es k := by
  induction front with
  | nil => rfl
  | cons e front ih =>
    rw [List.cons_append, mapped_cons_of_not_covers (not e List.mem_cons_self),
      ih (fun e' member => not e' (List.mem_cons_of_mem _ member))]

theorem mapped_append_left {back : List Extent} (not : ∀ e ∈ back, ¬ e.Covers k) :
    mapped (es ++ back) k = mapped es k := by
  induction es with
  | nil => exact mapped_eq_zero (fun e member covers => absurd covers (not e member))
  | cons e es ih =>
    rw [List.cons_append]
    by_cases covers : e.Covers k
    · rw [mapped_cons_of_covers covers, mapped_cons_of_covers covers]
    · rw [mapped_cons_of_not_covers covers, mapped_cons_of_not_covers covers, ih]

/-- What the extents of a leaf have to be like for the scan. `first` says that the leaf is the first of the tree. -/
structure LeafReads (first : Prop) (leaf : List Extent) : Prop where
  written : ∀ e ∈ leaf, e.start < 2 ^ 31 → e.Written → e.stop < 2 ^ 31
  unwritten : ∀ e ∈ leaf, e.start < 2 ^ 31 → ¬ e.Written → 2 ^ 31 ≤ e.start + e.rawLen
  wrapped : ∀ e ∈ leaf, 2 ^ 31 ≤ e.start → 2 ^ 32 < e.start + e.rawLen →
    (∃ e' ∈ leaf, e'.start < 2 ^ 31 ∧ e.start + e.rawLen ≤ 2 ^ 32 + e'.reach) ∨
      ¬ first ∧ ∀ e' ∈ leaf, 2 ^ 31 ≤ e'.start

section Scan

variable {g : Geometry} {k : Nat} {leaf : List Extent}
variable {es : List Extent} {e : Extent}

theorem Geometry.ExtentsValid.sublist {es' : List Extent} (valid : g.ExtentsValid es) (sub : es'.Sublist es) :
    g.ExtentsValid es' where
  sorted := valid.sorted.sublist sub
  some e member := valid.some e (sub.subset member)
  numbered e member := valid.numbered e (sub.subset member)
  inside e member := valid.inside e (sub.subset member)

theorem Geometry.ExtentsValid.start_lt (valid : g.ExtentsValid es) (member : e ∈ es) :
    e.start < e.stop ∧ e.start < 2 ^ 32 := by
  have some := (valid.some e member).1
  have numbered := valid.numbered e member
  have positive : 0 < e.len := by
    unfold Extent.len
    by_cases written : e.Written
    · rwa [if_pos written]
    · rw [if_neg written]
      unfold Extent.Written at written
      omega
  unfold Extent.stop at *
  omega

theorem Geometry.ExtentsValid.ordered (valid : g.ExtentsValid es) {e' : Extent} (member : e ∈ es)
    (member' : e' ∈ es) : e' = e ∨ e'.stop ≤ e.start ∨ e.stop ≤ e'.start := by
  obtain ⟨front, back, rfl⟩ := List.append_of_mem member
  obtain ⟨-, rear, across⟩ := List.pairwise_append.mp valid.sorted
  rcases List.mem_append.mp member' with inFront | inRear
  · exact .inr (.inl (across e' inFront e List.mem_cons_self))
  · rcases List.mem_cons.mp inRear with same | inBack
    · exact .inl same
    · exact .inr (.inr ((List.pairwise_cons.mp rear).1 e' inBack))

theorem w32_taken (small : g.totalBlocks < 2 ^ 31) (valid : g.ExtentsValid es)
    (member : e ∈ es) (covers : e.Covers k) : w32 (k + (2 ^ 32 - e.start) + e.phys) = e.phys + (k - e.start) := by
  have inside := valid.inside e member
  have numbered := (valid.start_lt member).2
  obtain ⟨lower, upper⟩ := covers
  unfold Extent.stop at upper
  unfold w32
  omega

theorem LeafReads.not_takes_high {first : Prop} (reads : LeafReads first leaf) {passed rest : List Extent}
    (valid : g.ExtentsValid (e :: rest)) (split : leaf = passed ++ e :: rest) (high : 2 ^ 31 ≤ e.start)
    (begins : ¬ first → ∃ e ∈ leaf, e.start < 2 ^ 31)
    (behind : ∀ e' ∈ passed, e'.start < 2 ^ 31 → e'.start ≤ k ∧ ¬ e'.Takes k) : ¬ e.Takes k := by
  intro takes
  rw [Extent.takes_high high] at takes
  rcases reads.wrapped e (by simp [split]) high (by omega) with ⟨e', inLeaf, low, guards⟩ | ⟨notFirst, allHigh⟩
  · have inPassed : e' ∈ passed := by
      have place := inLeaf
      rw [split] at place
      rcases List.mem_append.mp place with inPassed | inRest
      · exact inPassed
      · rcases List.mem_cons.mp inRest with rfl | inRest
        · omega
        · have := (List.pairwise_cons.mp valid.sorted).1 e' inRest
          unfold Extent.stop at this
          omega
    obtain ⟨le, pass⟩ := behind e' inPassed low
    have inside : k < e'.reach := by omega
    unfold Extent.reach at inside
    by_cases written : e'.Written
    · rw [if_pos written] at inside
      have near := reads.written e' inLeaf low written
      rw [Extent.stop, Extent.len_of_written written] at inside near
      exact pass ((Extent.takes_low low).mpr ⟨near, inside⟩)
    · rw [if_neg written] at inside
      omega
  · obtain ⟨e', inLeaf, less⟩ := begins notFirst
    have := allHigh e' inLeaf
    omega

theorem scanExtents_eq_mapped (total : g.totalBlocks < 2 ^ 31) (valid : g.ExtentsValid leaf) (small : k < 2 ^ 31)
    {first : Prop} (reads : LeafReads first leaf) (begins : ¬ first → ∃ e ∈ leaf, e.start < 2 ^ 31)
    {passed rest : List Extent} (split : leaf = passed ++ rest)
    (behind : ∀ e ∈ passed, e.start < 2 ^ 31 → e.start ≤ k ∧ ¬ e.Takes k) : scanExtents k rest = mapped rest k := by
  induction rest generalizing passed with
  | nil => rfl
  | cons e rest ih =>
    have member : e ∈ leaf := by simp [split]
    have short := (valid.some e member).2
    have restValid : g.ExtentsValid (e :: rest) := valid.sublist (by rw [split]; exact List.sublist_append_right _ _)
    have later : ∀ e' ∈ rest, e.stop ≤ e'.start := (List.pairwise_cons.mp restValid.sorted).1
    obtain ⟨proper, numbered⟩ := valid.start_lt member
    have passes (not : e.start < 2 ^ 31 → e.start ≤ k ∧ ¬ e.Takes k) : scanExtents k rest = mapped rest k := by
      have further : leaf = (passed ++ [e]) ++ rest := by simp [split]
      refine ih further (fun e' inPassed low => ?_)
      rcases List.mem_append.mp inPassed with old | new
      · exact behind e' old low
      · rw [List.mem_singleton.mp new] at low ⊢
        exact not low
    rw [scanExtents_cons rest small numbered short]
    by_cases low : e.start < 2 ^ 31
    · by_cases ahead : k < e.start
      · rw [if_pos ⟨low, ahead⟩]
        refine (mapped_eq_zero (fun e' inRest covers => ?_)).symm
        have := covers.1
        rcases List.mem_cons.mp inRest with rfl | inRest
        · omega
        · have := later e' inRest
          omega
      · rw [if_neg (fun both => ahead both.2)]
        by_cases written : e.Written
        · have near := reads.written e member low written
          have takes : e.Takes k ↔ k < e.stop := by
            rw [Extent.takes_low low, Extent.stop, Extent.len_of_written written]
            rw [Extent.stop, Extent.len_of_written written] at near
            exact and_iff_right near
          by_cases inside : k < e.stop
          · have covers : e.Covers k := ⟨Nat.not_lt.mp ahead, inside⟩
            rw [if_pos (takes.mpr inside), mapped_cons_of_covers covers, if_pos written,
              w32_taken total valid member covers]
          · rw [if_neg (inside ∘ takes.mp), mapped_cons_of_not_covers (fun covers => inside covers.2)]
            exact passes (fun _ => ⟨Nat.not_lt.mp ahead, inside ∘ takes.mp⟩)
        · -- the end of the extent is negative, and the scan goes on to what follows
          have far := reads.unwritten e member low written
          have never : ¬ e.Takes k := by
            rw [Extent.takes_low low]
            omega
          rw [if_neg never, passes (fun _ => ⟨Nat.not_lt.mp ahead, never⟩)]
          by_cases covers : e.Covers k
          · rw [mapped_cons_of_covers covers, if_neg written]
            refine mapped_eq_zero (fun e' inRest covers' => ?_)
            have := later e' inRest
            have := covers.2
            have := covers'.1
            omega
          · rw [mapped_cons_of_not_covers covers]
    · have high : 2 ^ 31 ≤ e.start := Nat.not_lt.mp low
      have never := reads.not_takes_high restValid split high begins behind
      rw [if_neg (fun both => low both.1), if_neg never, mapped_cons_of_not_covers (fun covers => by
        have := covers.1
        omega)]
      exact passes (fun below => absurd below low)

theorem scanExtents_ne_zero (total : g.totalBlocks < 2 ^ 31) (valid : g.ExtentsValid leaf) (small : k < 2 ^ 31)
    {front back : List Extent} (split : leaf = front ++ e :: back)
    (behind : ∀ e' ∈ front ++ [e], e'.start < 2 ^ 31 → e'.start ≤ k) (takes : e.Takes k) : scanExtents k leaf ≠ 0 := by
  have taken {e' : Extent} (member : e' ∈ leaf) (le : e'.start < 2 ^ 31 → e'.start ≤ k) (takes : e'.Takes k) :
      w32 (k + (2 ^ 32 - e'.start) + e'.phys) ≠ 0 := by
    have inside := valid.inside e' member
    have numbered := (valid.start_lt member).2
    have short := (valid.some e' member).2
    unfold Extent.Takes at takes
    unfold w32
    omega
  induction front generalizing leaf with
  | nil =>
    have member : e ∈ leaf := by simp [split]
    have le := behind e (by simp)
    rw [split, List.nil_append, scanExtents_cons _ small (valid.start_lt member).2 (valid.some e member).2,
      if_neg (fun both => absurd (le both.1) (Nat.not_le_of_lt both.2)), if_pos takes]
    exact taken member le takes
  | cons e' front ih =>
    have member : e' ∈ leaf := by simp [split]
    have le := behind e' (by simp)
    rw [split, List.cons_append, scanExtents_cons _ small (valid.start_lt member).2 (valid.some e' member).2,
      if_neg (fun both => absurd (le both.1) (Nat.not_le_of_lt both.2))]
    by_cases first : e'.Takes k
    · rw [if_pos first]
      exact taken member le first
    · rw [if_neg first]
      refine ih (valid.sublist (by rw [split]; exact List.sublist_cons_self _ _)) rfl
        (fun e'' inFront => behind e'' (List.mem_cons_of_mem _ inFront)) (fun inRest => taken ?_)
      rw [split]
      exact List.mem_cons_of_mem _ inRest

theorem scanExtents_eq_zero (valid : g.ExtentsValid leaf) (small : k < 2 ^ 31) (none : ∀ e ∈ leaf, ¬ e.Takes k) :
    scanExtents k leaf = 0 := by
  induction leaf with
  | nil => rfl
  | cons e rest ih =>
    rw [scanExtents_cons rest small (valid.start_lt List.mem_cons_self).2 (valid.some e List.mem_cons_self).2,
      if_neg (none e List.mem_cons_self),
      ih (valid.sublist (List.sublist_cons_self e rest)) (fun e' member => none e' (List.mem_cons_of_mem _ member)),
      ite_self]

theorem mapped_of_covers (valid : g.ExtentsValid es) (member : e ∈ es)
    (covers : e.Covers k) : mapped es k = if e.Written then e.phys + (k - e.start) else 0 := by
  obtain ⟨front, back, rfl⟩ := List.append_of_mem member
  have before : ∀ e' ∈ front, ¬ e'.Covers k := by
    intro e' inFront covers'
    have := (List.pairwise_append.mp valid.sorted).2.2 e' inFront e List.mem_cons_self
    have := covers'.2
    have := covers.1
    omega
  rw [mapped_append_of_not_covers before, mapped_cons_of_covers covers]

end Scan

section Tree

variable {g : Geometry} {leaves before after : List (List Extent)} {leaf : List Extent} {k : Nat}

theorem LeafFor.ends_lt (here : LeafFor leaves k before leaf after) {k' : Nat} (less : k' ≤ k) :
    ∀ other ∈ after, ∀ e ∈ other, k' < e.start :=
  fun other inAfter e member => less.trans_lt (here.ends other inAfter e member)

theorem LeafFor.mapped_eq (here : LeafFor leaves k before leaf after) (valid : g.ExtentsValid leaves.flatten) :
    mapped leaves.flatten k = mapped leaf k := by
  have sorted := valid.sorted
  rw [here.split, List.flatten_append, List.flatten_cons] at sorted ⊢
  have front : ∀ e ∈ before.flatten, ¬ e.Covers k := by
    intro e inBefore covers
    have more : before ≠ [] := by
      rintro rfl
      simp at inBefore
    obtain ⟨e', inLeaf, le⟩ := here.begins more
    have := (List.pairwise_append.mp sorted).2.2 e inBefore e' (List.mem_append_left _ inLeaf)
    have := covers.2
    omega
  have back : ∀ e ∈ after.flatten, ¬ e.Covers k := by
    intro e inAfter covers
    obtain ⟨other, inOther, member⟩ := List.mem_flatten.mp inAfter
    exact Nat.not_lt_of_le covers.1 (here.ends other inOther e member)
  rw [mapped_append_of_not_covers front, mapped_append_left back]

theorem leafFor_of_mem (valid : g.ExtentsValid leaves.flatten) (split : leaves = before ++ leaf :: after) {e e' : Extent}
    (first : e ∈ leaf) (le : e.start ≤ k) (last : e' ∈ leaf) (less : k < e'.stop) : LeafFor leaves k before leaf after where
  split := split
  begins _ := ⟨e, first, le⟩
  ends other inAfter e'' member := by
    have sorted := valid.sorted
    rw [split, List.flatten_append, List.flatten_cons] at sorted
    have rear := (List.pairwise_append.mp sorted).2.1
    have := (List.pairwise_append.mp rear).2.2 e' last e'' (List.mem_flatten.mpr ⟨other, inAfter, member⟩)
    omega

/-- A leaf in which the scan finds what the extents say, for all the blocks that it is scanned for. -/
theorem leafReads_of_scan (total : g.totalBlocks < 2 ^ 31) (valid : g.ExtentsValid leaves.flatten)
    (split : leaves = before ++ leaf :: after)
    (scans : ∀ k, k < 2 ^ 31 → LeafFor leaves k before leaf after → scanExtents k leaf = mapped leaf k) :
    LeafReads (before = []) leaf := by
  have leafValid : g.ExtentsValid leaf := valid.sublist (by
    rw [split, List.flatten_append, List.flatten_cons]
    exact (List.sublist_append_left _ _).trans (List.sublist_append_right _ _))
  -- what an extent begins before is in front of it
  have behind {e : Extent} {front back : List Extent} (at_ : leaf = front ++ e :: back) :
      ∀ e' ∈ front ++ [e], e'.start ≤ e.start := by
    intro e' inFront
    rcases List.mem_append.mp inFront with inFront | last
    · have sorted := leafValid.sorted
      rw [at_] at sorted
      exact (Nat.le_add_right _ _).trans ((List.pairwise_append.mp sorted).2.2 e' inFront e List.mem_cons_self)
    · exact (congrArg Extent.start (List.mem_singleton.mp last)).le
  have unwritten : ∀ e ∈ leaf, e.start < 2 ^ 31 → ¬ e.Written → 2 ^ 31 ≤ e.start + e.rawLen := by
    intro e member low unwritten
    by_contra near
    obtain ⟨front, back, at_⟩ := List.append_of_mem member
    have covers : e.Covers e.start := ⟨le_rfl, (leafValid.start_lt member).1⟩
    have hole := scans e.start low (leafFor_of_mem valid split member le_rfl member covers.2)
    rw [mapped_of_covers leafValid member covers, if_neg unwritten] at hole
    refine scanExtents_ne_zero total leafValid low at_ (fun e' inFront _ => behind at_ e' inFront) ?_ hole
    have := (leafValid.some e member).1
    exact (Extent.takes_low low).mpr ⟨by omega, by omega⟩
  refine ⟨?_, unwritten, ?_⟩
  · intro e member low written
    by_contra far
    have covers : e.Covers e.start := ⟨le_rfl, (leafValid.start_lt member).1⟩
    have found := scans e.start low (leafFor_of_mem valid split member le_rfl member covers.2)
    rw [mapped_of_covers leafValid member covers, if_pos written] at found
    have none : ∀ e' ∈ leaf, ¬ e'.Takes e.start := by
      intro e' inLeaf takes
      have short := (leafValid.some e member).2
      have len := e.len_le
      have short' := (leafValid.some e' inLeaf).2
      have numbered := (leafValid.start_lt inLeaf).2
      rw [Extent.stop] at far
      rcases leafValid.ordered member inLeaf with rfl | before | after
      · rw [Extent.takes_low low] at takes
        omega
      · have proper := (leafValid.start_lt inLeaf).1
        rw [Extent.takes_low (by omega)] at takes
        by_cases written' : e'.Written
        · rw [Extent.stop, Extent.len_of_written written'] at before
          omega
        · have := unwritten e' inLeaf (by omega) written'
          omega
      · rw [Extent.stop] at after
        rw [Extent.takes_high (by omega)] at takes
        omega
    rw [scanExtents_eq_zero leafValid low none] at found
    have := (leafValid.inside e member).1
    omega
  · intro e member high around
    by_contra unguarded
    rw [not_or] at unguarded
    obtain ⟨guard, used⟩ := unguarded
    -- the last block for which `e` is taken is behind the extents with low numbers
    obtain ⟨k, last⟩ : ∃ k, e.start + e.rawLen = 2 ^ 32 + k + 1 := ⟨e.start + e.rawLen - 2 ^ 32 - 1, by omega⟩
    have short := (leafValid.some e member).2
    have proper := leafValid.start_lt member
    have small : k < 2 ^ 31 := by omega
    have beyond : ∀ e' ∈ leaf, e'.start < 2 ^ 31 → e'.reach ≤ k := by
      intro e' inLeaf low
      by_contra more
      exact guard ⟨e', inLeaf, low, by omega⟩
    have here : LeafFor leaves k before leaf after := by
      refine ⟨split, fun more => ?_, (leafFor_of_mem valid split member le_rfl member proper.1).ends_lt (by omega)⟩
      by_contra late
      refine used ⟨more, fun e' inLeaf => ?_⟩
      by_contra low
      exact late ⟨e', inLeaf, e'.start_le_reach.trans (beyond e' inLeaf (by omega))⟩
    have hole : mapped leaf k = 0 := by
      refine mapped_eq_zero (fun e' inLeaf covers written => ?_)
      have le := covers.1
      have less := covers.2
      have within := beyond e' inLeaf (by omega)
      rw [Extent.reach, if_pos written] at within
      omega
    obtain ⟨front, back, at_⟩ := List.append_of_mem member
    refine scanExtents_ne_zero total leafValid small at_ (fun e' inFront low => ?_)
      ((Extent.takes_high high).mpr (by omega)) ((scans k small here).trans hole)
    have inLeaf : e' ∈ leaf := by
      rw [at_]
      rcases List.mem_append.mp inFront with inFront | last
      · exact List.mem_append_left _ inFront
      · simp [List.mem_singleton.mp last]
    exact e'.start_le_reach.trans (beyond e' inLeaf low)

end Tree

section Lookup

variable {env : Env} {root : Root} {g : Geometry} {card inode : Buf} {depth : Nat} {leaves : List (List Extent)}
  {cache : ExtCache}

theorem readAllocatedBlock_scans (fits : g.Fits env) (log2 : root.log2BlockSize = g.log2bs)
    (extents : Inode.usesExtents inode)
    {room : Nat} (tree : g.ExtentTree (env.volume card) room depth (tail inode Inode.dirBlocks) leaves)
    (sorted : leaves.flatten.Pairwise (fun e e' => e.stop ≤ e'.start)) (enough : depth < env.levels)
    (cacheOk : cache.Ok env g root (env.volume card)) (c : Caches) (k : Nat) :
    ∃ before leaf after, LeafFor leaves k before leaf after ∧
      (readAllocatedBlock env card root inode k cache c).map Prod.fst = some (scanExtents k leaf) := by
  obtain ⟨leaf, via, before, after, found, here⟩ := tree.leafFor sorted enough k
  obtain ⟨cache', run, -⟩ := ext4fsGetExtentBlock_eq fits log2 found cacheOk
  refine ⟨before, leafExtents leaf, after, here, ?_⟩
  rw [readAllocatedBlock, if_pos extents, readExtent, run, ← extentScan_leaf]
  rfl

/-- The driver reads the blocks of a file where its extents say that they are, and finds the holes, exactly where
unwritten extents and extents around block 2^31 are not in the way of the scans. -/
theorem readAllocatedBlock_extents_iff (fits : g.Fits env) (log2 : root.log2BlockSize = g.log2bs)
    (extents : Inode.usesExtents inode)
    (tree : g.ExtentTree (env.volume card) 4 depth (tail inode Inode.dirBlocks) leaves)
    (extentsValid : g.ExtentsValid leaves.flatten) (enough : depth < env.levels)
    (cacheOk : cache.Ok env g root (env.volume card)) (c : Caches) :
    (∀ k, k < 2 ^ 31 →
        (readAllocatedBlock env card root inode k cache c).map Prod.fst = some (mapped leaves.flatten k)) ↔
      ∀ before leaf after, leaves = before ++ leaf :: after → LeafReads (before = []) leaf := by
  have scans := readAllocatedBlock_scans fits log2 extents tree extentsValid.sorted enough cacheOk c
  constructor
  · intro reads before leaf after split
    refine leafReads_of_scan fits.total_lt extentsValid split (fun k small here => ?_)
    obtain ⟨before', leaf', after', here', found⟩ := scans k
    have := (reads k small).symm.trans found
    rw [here.mapped_eq extentsValid, ← here.unique here'] at this
    exact (Option.some.inj this).symm
  · intro reads k small
    obtain ⟨before, leaf, after, here, found⟩ := scans k
    have leafValid : g.ExtentsValid leaf := extentsValid.sublist (by
      rw [here.split, List.flatten_append, List.flatten_cons]
      exact (List.sublist_append_left _ _).trans (List.sublist_append_right _ _))
    have begins (more : before ≠ []) : ∃ e ∈ leaf, e.start < 2 ^ 31 := by
      obtain ⟨e, member, le⟩ := here.begins more
      exact ⟨e, member, by omega⟩
    rw [found, here.mapped_eq extentsValid, scanExtents_eq_mapped fits.total_lt leafValid small
      (reads before leaf after here.split) begins (List.nil_append leaf).symm (by simp)]

end Lookup

def treeEnv : Env := { pointerEnv with levels := 2 }

theorem pointerGeometry_fits : pointerGeometry.Fits treeEnv := ⟨by decide, by decide, by decide, by decide⟩

/-- The header of a block of a tree, and then the three words of its first entry. -/
def treeBlock (entries depth first second third : Nat) : Buf :=
  putLe32 (putLe32 (putLe32 (putLe16 (putLe16 (putLe16 zeros 0 extMagic) 2 entries) 6 depth) 12 first) 16 second) 20 third

def treeInode (root : Buf) : Buf := overlay (putLe32 zeros 32 (2 ^ 19)) Inode.dirBlocks 60 root

/-- Block 10 is a leaf: blocks 0 and 1 of the file are 20 and 21, and block 5 is 30. -/
def treeCard : Buf := overlay zeros 10240 1024 (putLe32 (putLe16 (putLe32 (treeBlock 2 0 0 2 20) 24 5) 28 1) 32 30)

def treeExtents : List Extent := [⟨0, 2, 20⟩, ⟨5, 1, 30⟩]

theorem treeCard_tree :
    pointerGeometry.ExtentTree (treeEnv.volume treeCard) 4 1
      (tail (treeInode (treeBlock 1 1 0 10 0)) Inode.dirBlocks) [treeExtents] := by
  have only : ∀ {i : Nat} {leaves : List (List Extent)}, [[treeExtents]][i]? = some leaves → i = 0 ∧ leaves = [treeExtents]
    | 0, _, here => ⟨rfl, (Option.some.inj here).symm⟩
    | _ + 1, _, here => by simp at here
  have child : indexChild (tail (treeInode (treeBlock 1 1 0 10 0)) Inode.dirBlocks) 0 = 10 := by decide +kernel
  have extents : treeExtents = leafExtents (clip pointerGeometry.bs (pointerGeometry.blk (treeEnv.volume treeCard) 10)) := by
    decide +kernel
  change pointerGeometry.ExtentTree _ 4 (0 + 1) _ [[treeExtents]].flatten
  refine .node (by decide +kernel) (by decide +kernel) (by decide +kernel) (by decide) (by simp)
    (fun i leaves here => ?_) (fun i leaves here => ?_) (fun i leaves here => ?_) <;> obtain ⟨rfl, rfl⟩ := only here
  · rw [child]
    decide
  · rw [child, extents]
    exact .leaf (by decide +kernel) (by decide +kernel) (by decide +kernel)
  · exact ⟨⟨0, 2, 20⟩, [⟨5, 1, 30⟩], [], rfl, by decide +kernel⟩

/-- A tree with an index in the inode and a leaf of written extents. -/
theorem treeCard_reads :
    mapped treeExtents 1 = 21 ∧ ∀ k, k < 2 ^ 31 →
      (readAllocatedBlock treeEnv treeCard pointerRoot (treeInode (treeBlock 1 1 0 10 0)) k none
        ext4fsReinitGlobal).map Prod.fst = some (mapped treeExtents k) := by
  refine ⟨by decide, (readAllocatedBlock_extents_iff pointerGeometry_fits rfl (by decide +kernel) treeCard_tree ?_
    (by decide) (Or.inl rfl) ext4fsReinitGlobal).mpr ?_⟩
  · exact ⟨by decide, by decide, by decide, by decide⟩
  · intro before leaf after split
    obtain ⟨rfl, rfl⟩ : before = [] ∧ leaf = treeExtents := by
      cases before with
      | nil => exact ⟨rfl, (List.cons.inj split).1.symm⟩
      | cons first others => simp at split
    exact ⟨by decide, by decide, by decide⟩

/-- The blocks of an unwritten extent are not found to be holes: block 0 of the file, where the extent has blocks that
were never written, is read from block 40. -/
theorem unwrittenExtent_read :
    ∃ leaf, leafExtents (tail (treeInode (treeBlock 1 0 0 32769 40)) Inode.dirBlocks) = leaf ∧
      pointerGeometry.ExtentTree (treeEnv.volume treeCard) 4 0
        (tail (treeInode (treeBlock 1 0 0 32769 40)) Inode.dirBlocks) [leaf] ∧
      pointerGeometry.ExtentsValid [leaf].flatten ∧ mapped [leaf].flatten 0 = 0 ∧
      (readAllocatedBlock treeEnv treeCard pointerRoot (treeInode (treeBlock 1 0 0 32769 40)) 0 none
        ext4fsReinitGlobal).map Prod.fst = some 40 := by
  have extents : leafExtents (tail (treeInode (treeBlock 1 0 0 32769 40)) Inode.dirBlocks) = [⟨0, 32769, 40⟩] := by
    decide +kernel
  refine ⟨_, rfl, .leaf (by decide +kernel) (by decide +kernel) (by decide +kernel), ?_, ?_, by decide +kernel⟩
  · rw [extents]
    exact ⟨by decide, by decide, by decide, by decide⟩
  · rw [extents]
    decide

end UuuFastboot.Ext4
