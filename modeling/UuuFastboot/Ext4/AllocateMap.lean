import Mathlib.Data.List.GetD
import UuuFastboot.Ext4.AllocateSpec
import UuuFastboot.Ext4.Recovery

namespace UuuFastboot.Ext4

open Word Overlay Bytes Partial

namespace Geometry

variable (g : Geometry)

def mapLimit : Nat := indirectBlocks + g.perblock + g.perblock * g.perblock + g.perblock ^ 3

/-- What `n` leaves cost that are dealt to trees of `size` leaves each. -/
def dealtCost (cost : Nat → Nat) (size n : Nat) : Nat :=
  n / size * cost size + if n % size = 0 then 0 else cost (n % size)

def treeBlocks : Nat → Nat → Nat
  | 0, _ => 0
  | depth + 1, n => 1 + dealtCost (treeBlocks depth) (g.perblock ^ depth) n

def stageBlocks (depth n : Nat) : Nat := if n = 0 then 0 else g.treeBlocks depth n

def mapBlocks (n : Nat) : Nat :=
  g.stageBlocks 1 (min (n - indirectBlocks) (g.perblock ^ 1)) +
    g.stageBlocks 2 (min (n - (indirectBlocks + g.perblock)) (g.perblock ^ 2)) +
    g.stageBlocks 3 (min (n - (indirectBlocks + g.perblock + g.perblock * g.perblock)) (g.perblock ^ 3))

variable {g}

theorem dealtCost_of_le {cost : Nat → Nat} {size n : Nat} (some : 0 < n) (le : n ≤ size) :
    dealtCost cost size n = cost n := by
  rcases Nat.lt_or_eq_of_le le with less | rfl
  · rw [dealtCost, Nat.div_eq_of_lt less, Nat.mod_eq_of_lt less, if_neg (by omega), Nat.zero_mul, Nat.zero_add]
  · rw [dealtCost, Nat.div_self some, Nat.mod_self, if_pos rfl, Nat.one_mul, Nat.add_zero]

theorem dealtCost_add {cost : Nat → Nat} {size : Nat} (n : Nat) (positive : 0 < size) :
    dealtCost cost size (size + n) = cost size + dealtCost cost size n := by
  rw [dealtCost, dealtCost, Nat.add_div_left _ positive, Nat.add_mod_left, Nat.succ_mul]
  omega

end Geometry

/-- The ways `path` lead to the leaves `D` through the blocks `Q`, and where `clean` holds the ways behind the last
leaf end at holes. -/
structure Maps (clean : Prop) (path : Nat → Nat × List Nat) (size : Nat) (D Q : List Nat) : Prop where
  leaf : ∀ j < size, j < D.length ∨ clean → (path j).1 = D.getD j 0
  via : ∀ j < size, j < D.length ∨ clean → (path j).2 ⊆ Q
  used : ∀ q ∈ Q, ∃ j < D.length, q ∈ (path j).2

namespace Maps

variable {clean : Prop} {path path' : Nat → Nat × List Nat} {size size' : Nat} {D D' Q Q' : List Nat}

theorem congr (maps : Maps clean path size D Q) (fits : D.length ≤ size)
    (same : ∀ j < size, j < D.length ∨ clean → path' j = path j) : Maps clean path' size D Q where
  leaf j below there := same j below there ▸ maps.leaf j below there
  via j below there := same j below there ▸ maps.via j below there
  used q member := by
    obtain ⟨j, below, passed⟩ := maps.used q member
    exact ⟨j, below, same j (by omega) (Or.inl below) ▸ passed⟩

theorem mono {clean' : Prop} (maps : Maps clean path size D Q) (stronger : clean' → clean) :
    Maps clean' path size D Q where
  leaf j below there := maps.leaf j below (there.imp_right stronger)
  via j below there := maps.via j below (there.imp_right stronger)
  used := maps.used

theorem holes (zero : clean → ∀ j < size, path j = (0, [])) : Maps clean path size [] [] where
  leaf j below there := by
    rw [zero (by simpa using there) j below]
    rfl
  via j below there := by
    rw [zero (by simpa using there) j below]
    exact List.nil_subset _
  used q member := absurd member List.not_mem_nil

theorem append (first : Maps clean path size D Q) (second : Maps clean path' size' D' Q') (fits : D.length ≤ size)
    (full : D' = [] ∨ D.length = size) (joined : Nat → Nat × List Nat) (low : ∀ j < size, joined j = path j)
    (high : ∀ j < size', joined (size + j) = path' j) (fits' : D'.length ≤ size') :
    Maps clean joined (size + size') (D ++ D') (Q ++ Q') := by
  have left {j : Nat} (below : j < size) (there : j < (D ++ D').length ∨ clean) : j < D.length ∨ clean := by
    rcases full with none | full
    · rwa [none, List.append_nil] at there
    · exact Or.inl (by omega)
  have right {j : Nat} (there : size + j < (D ++ D').length ∨ clean) : j < D'.length ∨ clean := by
    refine there.imp_left (fun below => ?_)
    rw [List.length_append] at below
    omega
  have split {j : Nat} (below : j < size + size') : j < size ∨ ∃ i < size', j = size + i := by
    by_cases lower : j < size
    · exact Or.inl lower
    · exact Or.inr ⟨j - size, by omega, by omega⟩
  have value {i : Nat} (below : i < size') : (D ++ D').getD (size + i) 0 = D'.getD i 0 := by
    rcases full with none | full
    · rw [none, List.append_nil, List.getD_eq_default _ _ (by omega)]
      rfl
    · rw [List.getD_append_right _ _ _ _ (by omega), full, Nat.add_sub_cancel_left]
  refine ⟨fun j below there => ?_, fun j below there => ?_, fun q member => ?_⟩
  · rcases split below with lower | ⟨i, upper, rfl⟩
    · rw [low j lower, first.leaf j lower (left lower there)]
      rcases full with none | full
      · rw [none, List.append_nil]
      · rw [List.getD_append _ _ _ _ (by omega)]
    · rw [high i upper, second.leaf i upper (right there), value upper]
  · rcases split below with lower | ⟨i, upper, rfl⟩
    · rw [low j lower]
      exact List.Subset.trans (first.via j lower (left lower there)) (List.subset_append_left _ _)
    · rw [high i upper]
      exact List.Subset.trans (second.via i upper (right there)) (List.subset_append_right _ _)
  · rcases List.mem_append.mp member with old | new
    · obtain ⟨j, below, passed⟩ := first.used q old
      refine ⟨j, by rw [List.length_append]; omega, ?_⟩
      rwa [low j (by omega)]
    · obtain ⟨j, below, passed⟩ := second.used q new
      rcases full with none | full
      · rw [none] at below
        exact absurd below (Nat.not_lt_zero _)
      · refine ⟨size + j, by rw [List.length_append]; omega, ?_⟩
        rwa [high j (by omega)]

theorem under (maps : Maps clean path size D Q) (b : Nat) (some : 0 < D.length) :
    Maps clean (fun j => ((path j).1, b :: (path j).2)) size D (b :: Q) where
  leaf := maps.leaf
  via j below there := List.cons_subset_cons _ (maps.via j below there)
  used q member := by
    rcases List.mem_cons.mp member with rfl | inner
    · exact ⟨0, some, List.mem_cons_self⟩
    · obtain ⟨j, below, passed⟩ := maps.used q inner
      exact ⟨j, below, List.mem_cons_of_mem _ passed⟩

end Maps

/-- The blocks `M` were handed out in this order, the leaves `D` and the blocks of pointers `Q`. -/
structure Dealt (M D Q : List Nat) : Prop where
  order : D.Sublist M
  all : M.Perm (D ++ Q)

theorem Dealt.nil : Dealt [] [] [] := ⟨List.Sublist.refl _, List.Perm.refl _⟩

theorem Dealt.append {M M' D D' Q Q' : List Nat} (first : Dealt M D Q) (second : Dealt M' D' Q') :
    Dealt (M ++ M') (D ++ D') (Q ++ Q') where
  order := first.order.append second.order
  all := by
    refine (first.all.append second.all).trans ?_
    rw [List.append_assoc, List.append_assoc]
    exact List.Perm.append_left D (List.perm_append_comm_assoc Q D' Q')

theorem Dealt.under {M D Q : List Nat} (dealt : Dealt M D Q) (b : Nat) : Dealt (b :: M) D (b :: Q) where
  order := dealt.order.cons b
  all := (dealt.all.cons b).trans List.perm_middle.symm

theorem Dealt.pointers {M D Q : List Nat} (dealt : Dealt M D Q) : Q ⊆ M := fun _ member =>
  dealt.all.mem_iff.mpr (List.mem_append_right _ member)

/-- An allocator that hands out different blocks of the partition, none of them block 0, and does not fail until it
has handed out `room` of them. `Holds N fs` says that it has handed out `N`. It leaves alone the blocks that it has
handed out, and is not disturbed by what is stored in them. -/
structure Allocator (env : Env) (g : Geometry) (newBlk : Run Nat) (room : Nat) (Holds : List Nat → Fs → Prop) :
    Prop where
  blksz : ∀ {N fs}, Holds N fs → fs.blksz = g.bs
  sectPerblk : ∀ {N fs}, Holds N fs → fs.sectPerblk * env.devBlksz = g.bs
  nodup : ∀ {N fs}, Holds N fs → N.Nodup
  block : ∀ {N fs b}, Holds N fs → b ∈ N → b ≠ 0 ∧ (b + 1) * g.bs ≤ env.partSize * env.devBlksz
  gives : ∀ {N fs}, Holds N fs → N.length < room → ∃ b fs', newBlk fs = some (b, fs') ∧ Holds (N ++ [b]) fs' ∧
    ∀ x ∈ N, g.SameBlock (env.volume fs.card) (env.volume fs'.card) x
  stored : ∀ {N fs b}, Holds N fs → b ∈ N → ∀ buf, Holds N (fs.write env ⟨b * fs.blksz, buf, fs.blksz⟩)

section Allocation

variable {env : Env} {g : Geometry} {newBlk : Run Nat} {room : Nat} {Holds : List Nat → Fs → Prop}
  (sized : g.Sized env) (alloc : Allocator env g newBlk room Holds)
variable {N D Q M : List Nat} {fs : Fs} {b depth n lo : Nat} {V inode : Buf} {clean : Prop} {source : EntrySource}
include sized alloc

theorem Allocator.small (holds : Holds N fs) (member : b ∈ N) :
    b < minusOne ∧ b < 2 ^ 32 := by
  have inside := (alloc.block holds member).2
  have sectors : env.devBlksz ≤ g.bs := Nat.le_of_dvd Geometry.bs_pos sized.devBlksz_dvd
  have counted : b + 1 ≤ env.partSize :=
    Nat.le_of_mul_le_mul_right (inside.trans (Nat.mul_le_mul_left _ sectors)) Geometry.bs_pos
  have addressed := sized.addressed
  have minus : minusOne = 2 ^ 32 - 1 := rfl
  omega

theorem Allocator.readBlock (holds : Holds N fs) (member : b ∈ N) :
    (fs.readBlock env b).isNone = false := by
  have inside := (alloc.block holds member).2
  have positive := env.devBlksz_pos
  have size := alloc.sectPerblk holds
  have addressed := sized.addressed
  have sectors : b * fs.sectPerblk + fs.sectPerblk ≤ env.partSize := by
    refine Nat.le_of_mul_le_mul_right ?_ positive
    calc (b * fs.sectPerblk + fs.sectPerblk) * env.devBlksz = (b + 1) * (fs.sectPerblk * env.devBlksz) := by ring
      _ ≤ env.partSize * env.devBlksz := by rwa [size]
  have some : 0 < g.bs := Geometry.bs_pos
  have last : (g.bs - 1) / env.devBlksz < fs.sectPerblk := by
    refine Nat.div_lt_of_lt_mul ?_
    rw [Nat.mul_comm, size]
    omega
  have sector : fs.sector b = b * fs.sectPerblk := w32_of_lt (by omega)
  have reached : lastSector env (fs.sector b) 0 g.bs < env.partSize := by
    rw [lastSector, if_neg (by omega), Nat.zero_add, sector, w32_of_lt (by omega)]
    omega
  rw [Fs.readBlock, fsDevread_eq, alloc.blksz holds, if_neg (by omega)]
  rfl

theorem Allocator.volume_write (holds : Holds N fs) (member : b ∈ N) (buf : Buf) :
    env.volume (fs.write env ⟨b * fs.blksz, buf, fs.blksz⟩).card =
      overlay (env.volume fs.card) (b * g.bs) g.bs buf := by
  have inside := (alloc.block holds member).2
  have dvd := sized.devBlksz_dvd
  rw [alloc.blksz holds]
  exact volume_putExt4 fs.card buf (dvd.mul_left b) dvd (by rwa [Nat.succ_mul] at inside)

abbrev Unspoilt (env : Env) (g : Geometry) (N : List Nat) (fs fs' : Fs) : Prop :=
  ∀ x ∈ N, g.SameBlock (env.volume fs.card) (env.volume fs'.card) x

/-- A source of entries that are the roots of trees: it takes as many leaves as remain to be allocated, or as many
as the tree can have. -/
def Source (env : Env) (g : Geometry) (room : Nat) (Holds : List Nat → Fs → Prop) (depth : Nat)
    (source : EntrySource) : Prop :=
  ∀ ⦃N : List Nat⦄ ⦃fs : Fs⦄ ⦃p : Progress⦄, Holds N fs → 0 < p.remaining →
    let n := min p.remaining (g.perblock ^ depth)
    N.length + (n + g.treeBlocks depth n) ≤ room →
    ∃ b M D Q fs', source p fs = some ((some b, ⟨p.remaining - n, p.reqd + Q.length⟩), fs') ∧
      Holds (N ++ M) fs' ∧ Unspoilt env g N fs fs' ∧ Dealt M D Q ∧ b ∈ M ∧ D.length = n ∧
      Q.length = g.treeBlocks depth n ∧
      Maps True (fun j => g.chase (env.volume fs'.card) b (g.digits depth j)) (g.perblock ^ depth) D Q

theorem dataEntryWith_source : Source env g room Holds 0 (dataEntryWith newBlk) := by
  intro N fs p holds remains n enough
  have one : n = 1 := by
    change min p.remaining (g.perblock ^ 0) = 1
    rw [Nat.pow_zero]
    omega
  obtain ⟨b, fs', call, holds', unspoilt⟩ := alloc.gives holds (by omega)
  have small := (alloc.small sized holds' (by simp : b ∈ N ++ [b])).1
  refine ⟨b, [b], [b], [], fs', ?_, holds', unspoilt, ⟨List.Sublist.refl _, List.Perm.refl _⟩, by simp, one.symm,
    rfl, ?_⟩
  · simp only [dataEntryWith, bind_of_run call, run_ite]
    rw [if_neg (by omega), one]
    rfl
  · refine ⟨fun j below _ => ?_, fun j below _ => List.nil_subset _, by simp⟩
    obtain rfl : j = 0 := by
      rw [Nat.pow_zero] at below
      omega
    rfl

omit sized alloc in
/-- Where entry `j / perblock ^ depth` of a block of pointers leads. -/
def Geometry.entryPath (g : Geometry) (V buf : Buf) (depth j : Nat) : Nat × List Nat :=
  g.chase V (getLe32 buf (4 * (j / g.perblock ^ depth))) (g.digits depth (j % g.perblock ^ depth))

omit alloc in
theorem entryPath_eq {buf : Buf} {i j : Nat} (below : j < g.perblock ^ depth) :
    g.entryPath V buf depth (i * g.perblock ^ depth + j) = g.chase V (getLe32 buf (4 * i)) (g.digits depth j) := by
  have positive := Nat.pow_pos (n := depth) sized.perblock_pos
  rw [Geometry.entryPath, Nat.mul_comm i, Nat.mul_add_div positive, Nat.div_eq_of_lt below, Nat.mul_add_mod,
    Nat.mod_eq_of_lt below, Nat.add_zero]

omit sized alloc in
theorem entryPath_blank {buf : Buf} {j : Nat} (blank : getLe32 buf (4 * (j / g.perblock ^ depth)) = 0) :
    g.entryPath V buf depth j = (0, []) := by
  rw [Geometry.entryPath, blank, Geometry.chase_zero]

omit sized alloc in
theorem Maps.unspoilt {V' : Buf}
    (maps : Maps clean (fun j => g.chase V b (g.digits depth j)) (g.perblock ^ depth) D Q)
    (fits : D.length ≤ g.perblock ^ depth) (same : ∀ x ∈ Q, g.SameBlock V V' x) :
    Maps clean (fun j => g.chase V' b (g.digits depth j)) (g.perblock ^ depth) D Q :=
  maps.congr fits (fun j below there => Geometry.chase_congr (Geometry.digits_lt below)
    (fun x member => same x (maps.via j below there member)))

theorem fillEntries_run (gives : Source env g room Holds depth source)
    (left i : Nat) (buf : Buf) {p : Progress} (holds : Holds N fs) (remains : 0 < p.remaining)
    (blank : ∀ e, i ≤ e → getLe32 buf (4 * e) = 0)
    (enough : N.length + (min p.remaining (left * g.perblock ^ depth) + Geometry.dealtCost (g.treeBlocks depth)
      (g.perblock ^ depth) (min p.remaining (left * g.perblock ^ depth))) ≤ room) :
    ∃ buf' M D Q fs', fillEntries source left i buf p fs =
        some ((some buf', ⟨p.remaining - min p.remaining (left * g.perblock ^ depth), p.reqd + Q.length⟩), fs') ∧
      Holds (N ++ M) fs' ∧ Unspoilt env g N fs fs' ∧ Dealt M D Q ∧
      D.length = min p.remaining (left * g.perblock ^ depth) ∧
      Q.length = Geometry.dealtCost (g.treeBlocks depth) (g.perblock ^ depth) D.length ∧
      (∀ o < 4 * i, buf' o = buf o) ∧
      Maps True (fun j => g.entryPath (env.volume fs'.card) buf' depth (i * g.perblock ^ depth + j))
        (left * g.perblock ^ depth) D Q := by
  have positive := Nat.pow_pos (n := depth) sized.perblock_pos
  induction left generalizing i N buf fs p with
  | zero =>
    refine ⟨buf, [], [], [], fs, ?_, by rwa [List.append_nil], fun x _ => .refl _ x, .nil, by simp, ?_, fun _ _ => rfl,
      Maps.holes (fun _ j below => by omega)⟩
    · simp [fillEntries]
    · simp [Geometry.dealtCost]
  | succ left ih =>
    have more : (left + 1) * g.perblock ^ depth = g.perblock ^ depth + left * g.perblock ^ depth := by
      rw [Nat.succ_mul, Nat.add_comm]
    have blank' (b e : Nat) (after : i < e) : getLe32 (putLe32 buf (4 * i) b) (4 * e) = 0 := by
      rw [getLe32_putLe32_of_apart _ (Or.inr (by omega)), blank e (by omega)]
    by_cases last : p.remaining ≤ g.perblock ^ depth
    · -- the entry takes all the leaves that remain
      have taken : min p.remaining ((left + 1) * g.perblock ^ depth) = p.remaining := by omega
      have here : min p.remaining (g.perblock ^ depth) = p.remaining := by omega
      rw [taken, Geometry.dealtCost_of_le remains last] at enough
      obtain ⟨b, M, D, Q, fs', call, holds', unspoilt, dealt, member, leaves, pointers, maps⟩ :=
        gives holds remains (by rwa [here])
      rw [here] at call leaves pointers
      have small := (alloc.small sized holds' (List.mem_append_right N member)).2
      refine ⟨putLe32 buf (4 * i) b, M, D, Q, fs', ?_, holds', unspoilt, dealt, by omega, ?_,
        fun o below => putLe32_of_lt below, ?_⟩
      · simp only [fillEntries, bind_of_run call, run_ite]
        rw [if_pos (by omega), taken]
        rfl
      · rw [leaves, pointers, Geometry.dealtCost_of_le remains last]
      · rw [more, ← List.append_nil D, ← List.append_nil Q]
        have none : Maps True (fun _ => (0, [])) (left * g.perblock ^ depth) [] [] := Maps.holes (fun _ _ _ => rfl)
        refine maps.append none (by omega) (Or.inl rfl) _ (fun j below => ?_) (fun j below => ?_) (Nat.zero_le _)
        · rw [entryPath_eq sized below, getLe32_putLe32, Nat.mod_eq_of_lt small]
        · refine entryPath_blank (blank' b _ ?_)
          rw [← Nat.add_assoc, ← Nat.succ_mul, Nat.mul_comm, Nat.mul_add_div positive]
          exact Nat.lt_of_lt_of_le (Nat.lt_succ_self i) (Nat.le_add_right _ _)
    · have taken : min p.remaining ((left + 1) * g.perblock ^ depth) =
          g.perblock ^ depth + min (p.remaining - g.perblock ^ depth) (left * g.perblock ^ depth) := by omega
      have here : min p.remaining (g.perblock ^ depth) = g.perblock ^ depth := by omega
      rw [taken, Geometry.dealtCost_add _ positive] at enough
      obtain ⟨b, M, D, Q, fs₁, call, holds₁, unspoilt, dealt, member, leaves, pointers, maps⟩ :=
        gives holds remains (by rw [here]; omega)
      rw [here] at call leaves pointers
      have small := (alloc.small sized holds₁ (List.mem_append_right N member)).2
      have handed : M.length = D.length + Q.length := by rw [dealt.all.length_eq, List.length_append]
      obtain ⟨buf', M', D', Q', fs', run, holds', unspoilt', dealt', leaves', pointers', front, maps'⟩ :=
        ih (i + 1) (putLe32 buf (4 * i) b) (p := ⟨p.remaining - g.perblock ^ depth, p.reqd + Q.length⟩) holds₁
          (by simp only; omega) (blank' b)
          (by rw [List.length_append]; simp only; omega)
      simp only at leaves' run
      refine ⟨buf', M ++ M', D ++ D', Q ++ Q', fs', ?_, by rwa [← List.append_assoc], fun x inN =>
        (unspoilt x inN).trans (unspoilt' x (List.mem_append_left _ inN)), dealt.append dealt', ?_, ?_,
        fun o below => ?_, ?_⟩
      · simp only [fillEntries, bind_of_run call, run_ite]
        rw [if_neg (by omega), run, taken, List.length_append, Nat.sub_sub, Nat.add_assoc]
      · rw [List.length_append, leaves, leaves', taken]
      · rw [List.length_append, List.length_append, leaves, Geometry.dealtCost_add _ positive, pointers, pointers']
      · rw [front o (by omega)]
        exact putLe32_of_lt below
      · have old : Maps True (fun j => g.chase (env.volume fs'.card) b (g.digits depth j)) (g.perblock ^ depth) D Q :=
          maps.unspoilt (by omega) (fun x inQ => unspoilt' x (List.mem_append_right _ (dealt.pointers inQ)))
        have root : getLe32 buf' (4 * i) = b := by
          rw [getLe32_congr (fun o below => front (4 * i + o) (by omega)), getLe32_putLe32, Nat.mod_eq_of_lt small]
        rw [more]
        refine old.append maps' (by omega) (Or.inr leaves) _ (fun j below => ?_) (fun j below => ?_) (by omega)
        · rw [entryPath_eq sized below, root]
        · rw [← Nat.add_assoc, ← Nat.succ_mul]

theorem pointerEntryWith_source (check : Bool)
    (gives : Source env g room Holds depth source) :
    Source env g room Holds (depth + 1) (pointerEntryWith env newBlk check source) := by
  intro N fs p holds remains n enough
  have leavesOf : min p.remaining (g.perblock * g.perblock ^ depth) = n := by rw [← Nat.pow_succ']
  have costs : g.treeBlocks (depth + 1) n = 1 + Geometry.dealtCost (g.treeBlocks depth) (g.perblock ^ depth) n := rfl
  obtain ⟨b, fs₁, call, holds₁, unspoilt₁⟩ := alloc.gives holds (by omega)
  have handed : b ∈ N ++ [b] := by simp
  have small := (alloc.small sized holds₁ handed).1
  have perblock : fs₁.blksz / 4 = g.perblock := by rw [alloc.blksz holds₁, Geometry.perblock]
  obtain ⟨buf, M, D, Q, fs₂, fill, holds₂, unspoilt₂, dealt, leaves, pointers, -, maps⟩ :=
    fillEntries_run sized alloc gives g.perblock 0 zeros (p := ⟨p.remaining, p.reqd + 1⟩) holds₁ remains
      (fun e _ => getLe32_zeros _)
      (by simp only [leavesOf, List.length_append, List.length_singleton]; omega)
  simp only [leavesOf] at leaves fill
  have kept : b ∈ N ++ [b] ++ M := List.mem_append_left _ handed
  have stored := alloc.volume_write sized holds₂ kept buf
  have nodup := alloc.nodup holds₂
  have fresh : b ∉ N := fun old => (List.nodup_append.mp (alloc.nodup holds₁)).2.2 b old b (by simp) rfl
  have other : b ∉ M := fun later => (List.nodup_append.mp nodup).2.2 b handed b later rfl
  refine ⟨b, b :: M, D, b :: Q, fs₂.write env ⟨b * fs₂.blksz, buf, fs₂.blksz⟩, ?_, ?_, fun x inN => ?_, dealt.under b,
    List.mem_cons_self, leaves, ?_, ?_⟩
  · simp only [pointerEntryWith, bind_of_run call, run_ite, get_bind]
    rw [if_neg (by omega), if_neg (by simp [alloc.readBlock sized holds₁ handed]), perblock, bind_of_run fill]
    simp only [Option.bind_some, putBlock, run_bind, run_pure, List.length_cons]
    rw [Nat.add_assoc, Nat.add_comm 1]
  · have after := alloc.stored holds₂ kept buf
    rwa [List.append_assoc] at after
  · refine ((unspoilt₁ x inN).trans (unspoilt₂ x (List.mem_append_left _ inN))).trans ?_
    rw [stored]
    exact Geometry.sameBlock_overlay (fun same => fresh (same ▸ inN))
  · rw [List.length_cons, pointers, leaves, costs, Nat.add_comm]
  · have some : b ≠ 0 := (alloc.block holds₁ handed).1
    have positive := Nat.pow_pos (n := depth) sized.perblock_pos
    have fits : D.length ≤ g.perblock * g.perblock ^ depth := by omega
    have leaf : 0 < D.length := by
      rw [leaves, ← leavesOf]
      have := Nat.mul_pos sized.perblock_pos positive
      omega
    rw [Nat.pow_succ']
    refine (maps.under b leaf).congr fits (fun j below _ => ?_)
    have index : j / g.perblock ^ depth < g.perblock := Nat.div_lt_of_lt_mul (by rwa [Nat.mul_comm])
    have entry : g.word (overlay (env.volume fs₂.card) (b * g.bs) g.bs buf) b (j / g.perblock ^ depth) =
        getLe32 buf (4 * (j / g.perblock ^ depth)) := by
      have bytes : g.perblock * 4 ≤ g.bs := Nat.div_mul_le_self _ _
      refine getLe32_congr (fun k below => ?_)
      rw [Geometry.blk, tail_apply, overlay_of_mem (by omega) (by omega), Nat.add_sub_cancel_left]
    have way : g.chase (overlay (env.volume fs₂.card) (b * g.bs) g.bs buf) (getLe32 buf (4 * (j / g.perblock ^ depth)))
        (g.digits depth (j % g.perblock ^ depth)) = g.entryPath (env.volume fs₂.card) buf depth j := by
      refine Geometry.chase_congr (Geometry.digits_lt (Nat.mod_lt _ positive)) (fun x member => ?_)
      refine Geometry.sameBlock_overlay (fun same => other (same ▸ dealt.pointers ?_))
      have passed := maps.via j below (Or.inr trivial)
      rw [Nat.zero_mul, Nat.zero_add] at passed
      exact passed member
    rw [stored, Geometry.digits, Geometry.chase, if_neg some, entry, way, Nat.zero_mul, Nat.zero_add]

/-- The first `lo` places of the block map are settled for a file of `n` blocks, of which `D` are mapped. -/
structure Building (env : Env) (g : Geometry) (Holds : List Nat → Fs → Prop) (clean : Prop) (n lo : Nat)
    (M D Q : List Nat) (inode : Buf) (fs : Fs) : Prop where
  holds : Holds M fs
  dealt : Dealt M D Q
  length : D.length = min n lo
  maps : Maps clean (g.blockMap (env.volume fs.card) inode) lo D Q

omit sized alloc in
theorem Building.handed
    (built : Building env g Holds clean n lo M D Q inode fs) : M.length = min n lo + Q.length := by
  rw [built.dealt.all.length_eq, List.length_append, built.length]

omit sized alloc in
theorem Building.later {inode' : Buf} {fs' : Fs}
    (built : Building env g Holds clean n lo M D Q inode fs) (same : Unspoilt env g M fs fs')
    (pointers : ∀ k < lo, g.pointers inode' k = g.pointers inode k) :
    Maps clean (g.blockMap (env.volume fs'.card) inode') lo D Q := by
  refine built.maps.congr (by rw [built.length]; exact Nat.min_le_right _ _) (fun k below there => ?_)
  have via := built.maps.via k below there
  unfold Geometry.blockMap at via ⊢
  rw [pointers k below]
  cases start : g.pointers inode k with
  | none => rfl
  | some way =>
    rw [start] at via
    exact Geometry.chase_congr (Geometry.pointers_small start).1
      (fun x member => same x (built.dealt.pointers (via member)))

theorem allocTree_builds {field : Nat}
    (stage : g.Stage lo field depth) (gives : Source env g room Holds depth source)
    (built : Building env g Holds clean n lo M D Q inode fs) (unset : clean → getLe32 inode field = 0)
    (enough : n + (Q.length + g.stageBlocks depth (min (n - lo) (g.perblock ^ depth))) ≤ room) :
    ∃ inode' M' D' Q' fs', allocTree field source inode ⟨n - lo, Q.length⟩ fs =
        some ((inode', ⟨n - (lo + g.perblock ^ depth), Q'.length⟩), fs') ∧
      Building env g Holds clean n (lo + g.perblock ^ depth) M' D' Q' inode' fs' ∧
      (∀ o, o < field ∨ field + 4 ≤ o → inode' o = inode o) ∧
      Q'.length = Q.length + g.stageBlocks depth (min (n - lo) (g.perblock ^ depth)) := by
  have positive := Nat.pow_pos (n := depth) sized.perblock_pos
  have fits : D.length ≤ lo := by rw [built.length]; exact Nat.min_le_right _ _
  have way (V inode' : Buf) (j : Nat) (below : j < g.perblock ^ depth) :
      g.blockMap V inode' (lo + j) = g.chase V (getLe32 inode' field) (g.digits depth j) := by
    rw [Geometry.blockMap, stage.start inode' j below]
  unfold allocTree
  by_cases ended : n - lo = 0
  · refine ⟨inode, M, D ++ [], Q ++ [], fs, ?_, ⟨built.holds, by simpa using built.dealt, ?_, ?_⟩, fun _ _ => rfl, ?_⟩
    · simp only [if_pos ended, List.append_nil]
      rw [ended, show n - (lo + g.perblock ^ depth) = 0 by omega]
      rfl
    · rw [List.append_nil, built.length]
      omega
    · have none : Maps clean (fun j => g.blockMap (env.volume fs.card) inode (lo + j)) (g.perblock ^ depth) [] [] :=
        Maps.holes (fun zero j below => by rw [way _ _ j below, unset zero, Geometry.chase_zero])
      exact built.maps.append none fits (Or.inl rfl) _ (fun _ _ => rfl) (fun _ _ => rfl) (Nat.zero_le _)
    · simp [ended, Geometry.stageBlocks]
  · have blocks : g.stageBlocks depth (min (n - lo) (g.perblock ^ depth)) =
        g.treeBlocks depth (min (n - lo) (g.perblock ^ depth)) := if_neg (by omega)
    have handed := built.handed
    rw [blocks] at enough ⊢
    obtain ⟨b, M', D', Q', fs', call, holds', unspoilt, dealt, member, leaves, pointers, maps⟩ :=
      gives (p := ⟨n - lo, Q.length⟩) built.holds (by simp only; omega) (by simp only; omega)
    simp only at leaves pointers call
    have small := (alloc.small sized holds' (List.mem_append_right M member)).2
    refine ⟨putLe32 inode field b, M ++ M', D ++ D', Q ++ Q', fs', ?_, ⟨holds', built.dealt.append dealt, ?_, ?_⟩,
      fun o apart => apart.elim putLe32_of_lt putLe32_of_ge, by rw [List.length_append, pointers]⟩
    · simp only [if_neg ended, bind_of_run call, List.length_append, run_pure]
      rw [show n - lo - min (n - lo) (g.perblock ^ depth) = n - (lo + g.perblock ^ depth) by omega]
    · rw [List.length_append, built.length, leaves]
      omega
    · refine (built.later unspoilt (fun k below => stage.before inode k b below)).append
        (maps.mono (fun _ => trivial)) fits (Or.inr (by rw [built.length]; omega)) _ (fun _ _ => rfl)
        (fun j below => ?_) (by omega)
      rw [way _ _ j below, getLe32_putLe32, Nat.mod_eq_of_lt small]

theorem allocDirect_run (left i remaining : Nat) (inode : Buf) (holds : Holds N fs)
    (enough : N.length + min remaining left ≤ room) :
    ∃ inode' D fs', allocDirect newBlk left i inode remaining fs =
        some ((true, inode', remaining - min remaining left), fs') ∧
      Holds (N ++ D) fs' ∧ D.length = min remaining left ∧
      (∀ o, o < Inode.dirBlocks + 4 * i ∨ Inode.dirBlocks + 4 * (i + left) ≤ o → inode' o = inode o) ∧
      Maps (∀ e < left, getLe32 inode (Inode.dirBlocks + 4 * (i + e)) = 0)
        (fun j => (getLe32 inode' (Inode.dirBlocks + 4 * (i + j)), [])) left D [] := by
  induction left generalizing i remaining N fs inode with
  | zero =>
    exact ⟨inode, [], fs, by simp [allocDirect], by rwa [List.append_nil], by simp, fun _ _ => rfl,
      Maps.holes (fun _ j below => absurd below (Nat.not_lt_zero j))⟩
  | succ left ih =>
    by_cases ended : remaining = 0
    · refine ⟨inode, [], fs, ?_, by rwa [List.append_nil], by simp [ended], fun _ _ => rfl,
        Maps.holes (fun zero j below => by rw [zero j below])⟩
      rw [allocDirect, if_pos ended, ended]
      rfl
    · obtain ⟨b, fs₁, call, holds₁, -⟩ := alloc.gives holds (by omega)
      have small := alloc.small sized holds₁ (by simp : b ∈ N ++ [b])
      obtain ⟨inode', D, fs', run, holds', leaves, outside, maps⟩ :=
        ih (i + 1) (remaining - 1) (putLe32 inode (Inode.dirBlocks + 4 * i) b) holds₁
          (by rw [List.length_append, List.length_singleton]; omega)
      have entry : getLe32 inode' (Inode.dirBlocks + 4 * i) = b := by
        rw [getLe32_congr (fun o below => outside (Inode.dirBlocks + 4 * i + o) (Or.inl (by omega))), getLe32_putLe32,
          Nat.mod_eq_of_lt small.2]
      have one : Maps True (fun _ => (b, [])) 1 [b] [] :=
        ⟨fun j below _ => by rw [Nat.lt_one_iff.mp below]; rfl, fun _ _ _ => List.nil_subset _, by simp⟩
      refine ⟨inode', [b] ++ D, fs', ?_, by rwa [← List.append_assoc], ?_, fun o apart => ?_, ?_⟩
      · rw [allocDirect, if_neg ended]
        simp only [bind_of_run call, run_ite]
        rw [if_neg (by omega), run, show remaining - 1 - min (remaining - 1) left =
          remaining - min remaining (left + 1) by omega]
      · rw [List.length_append, List.length_singleton, leaves]
        omega
      · rw [outside o (by omega)]
        rcases apart with before | after
        · exact putLe32_of_lt before
        · exact putLe32_of_ge (by omega)
      · rw [Nat.add_comm left]
        refine Maps.append (Q := []) (one.mono (fun _ => trivial)) (maps.mono fun clean e below => ?_) (le_refl _)
          (Or.inr rfl) _ (fun j below => ?_) (fun j below => ?_) (by omega)
        · rw [getLe32_putLe32_of_apart _ (Or.inr (by omega)), Nat.add_assoc]
          exact clean _ (by omega)
        · rw [Nat.lt_one_iff.mp below, Nat.add_zero, entry]
        · rw [Nat.add_assoc]


def NoBlocks (inode : Buf) : Prop := ∀ o, Inode.dirBlocks ≤ o → o < 100 → inode o = 0

omit sized alloc in
theorem NoBlocks.field {inode' : Buf} {field : Nat} (none : NoBlocks inode) (lower : Inode.dirBlocks ≤ field)
    (upper : field ≤ 96) (same : ∀ o, field ≤ o → o < field + 4 → inode' o = inode o) : getLe32 inode' field = 0 :=
  getLe32_congr (c := zeros) (p := 0)
    (fun i below => (same _ (by omega) (by omega)).trans (none _ (by omega) (by omega)))

theorem allocDirect_builds (holds : Holds [] fs) (inode : Buf) (enough : n ≤ room) :
    ∃ inode' D fs', allocDirect newBlk indirectBlocks 0 inode n fs = some ((true, inode', n - indirectBlocks), fs') ∧
      Building env g Holds (NoBlocks inode) n indirectBlocks D D [] inode' fs' ∧
      ∀ o, o < Inode.dirBlocks ∨ 88 ≤ o → inode' o = inode o := by
  obtain ⟨inode', D, fs', run, holds', leaves, outside, maps⟩ :=
    allocDirect_run sized alloc indirectBlocks 0 n inode holds
      (by rw [List.length_nil]; omega)
  have fields : Inode.dirBlocks + 4 * (0 + indirectBlocks) = 88 := rfl
  refine ⟨inode', D, fs', ?_, ⟨holds', ⟨List.Sublist.refl _, by simp⟩, leaves, ?_⟩, fun o apart => outside o (by omega)⟩
  · rw [run, show n - min n indirectBlocks = n - indirectBlocks by omega]
  · refine (maps.mono (fun none e below => ?_)).congr (by omega) (fun k below _ => ?_)
    · exact none.field (by omega) (by omega) (fun _ _ _ => rfl)
    · rw [Geometry.blockMap, Geometry.pointers, if_pos below, Nat.zero_add]
      rfl

/-- `ext4fs_allocate_blocks` builds the map of the blocks that it is handed. -/
theorem ext4fsAllocateBlocksWith_builds (holds : Holds [] fs) (inode : Buf)
    (enough : n + g.mapBlocks n ≤ room) (total : Nat) :
    ∃ inode' M D Q fs', ext4fsAllocateBlocksWith env newBlk inode n total fs =
        some ((inode', total + Q.length), fs') ∧
      Building env g Holds (NoBlocks inode) n g.mapLimit M D Q inode' fs' := by
  have leaf := dataEntryWith_source sized alloc
  have single := pointerEntryWith_source sized alloc true leaf
  have double := pointerEntryWith_source sized alloc true single
  have triple := pointerEntryWith_source sized alloc false
    (pointerEntryWith_source sized alloc false (pointerEntryWith_source sized alloc false leaf))
  have fields : Inode.dirBlocks = 40 := rfl
  simp only [Geometry.mapBlocks] at enough
  obtain ⟨inode₁, D₁, fs₁, run₁, built₁, outside₁⟩ := allocDirect_builds sized alloc holds inode (n := n) (by omega)
  obtain ⟨inode₂, M₂, D₂, Q₂, fs₂, run₂, built₂, outside₂, length₂⟩ :=
    allocTree_builds sized alloc stage_single single built₁
      (fun none => none.field (by omega) (by omega) (fun o lower _ => outside₁ o (Or.inr lower)))
      (by rw [List.length_nil]; simp only [Nat.zero_add]; omega)
  rw [Nat.pow_one] at run₂ built₂
  obtain ⟨inode₃, M₃, D₃, Q₃, fs₃, run₃, built₃, outside₃, length₃⟩ :=
    allocTree_builds sized alloc stage_double double built₂
      (fun none => none.field (by omega) (by omega) (fun o lower _ => by
        rw [outside₂ o (Or.inr (by omega)), outside₁ o (Or.inr (by omega))]))
      (by rw [length₂, List.length_nil]; simp only [Nat.zero_add]; omega)
  rw [Nat.pow_two] at run₃ built₃
  obtain ⟨inode₄, M₄, D₄, Q₄, fs₄, run₄, built₄, -, length₄⟩ :=
    allocTree_builds sized alloc stage_triple triple built₃
      (fun none => none.field (by omega) (by omega) (fun o lower _ => by
        rw [outside₃ o (Or.inr (by omega)), outside₂ o (Or.inr (by omega)), outside₁ o (Or.inr (by omega))]))
      (by rw [length₃, length₂, List.length_nil]; simp only [Nat.zero_add]; omega)
  refine ⟨inode₄, M₄, D₄, Q₄, fs₄, ?_, built₄⟩
  simp only [ext4fsAllocateBlocksWith, bind_of_run run₁, run_ite, if_true, allocSingleIndirectBlock,
    allocDoubleIndirectBlock, allocTripleIndirectBlock]
  rw [List.length_nil] at run₂
  rw [bind_of_run run₂, bind_of_run run₃, bind_of_run run₄]
  rfl

/-- The block map that `ext4fs_allocate_blocks` builds, for any allocator that hands out different blocks and does
not fail: block `k` of the file is the `k`-th block of data that was handed out, the map ends behind the last one, and
the blocks of pointers are counted. -/
theorem allocateBlocks_blockMap {fs : Fs} (holds : Holds [] fs) (inode : Buf) {n : Nat} (mappable : n ≤ g.mapLimit)
    (enough : n + g.mapBlocks n ≤ room) (total : Nat) :
    ∃ inode' M D Q fs', ext4fsAllocateBlocksWith env newBlk inode n total fs =
        some ((inode', total + Q.length), fs') ∧
      Holds M fs' ∧ D.Sublist M ∧ M.Perm (D ++ Q) ∧ (D ++ Q).Nodup ∧ D.length = n ∧
      (∀ k, k < n → D[k]? = some (g.blockMap (env.volume fs'.card) inode' k).1) ∧
      (NoBlocks inode → ∀ k, n ≤ k → (g.blockMap (env.volume fs'.card) inode' k).1 = 0) ∧
      ∀ q, q ∈ Q ↔ ∃ k < n, q ∈ (g.blockMap (env.volume fs'.card) inode' k).2 := by
  obtain ⟨inode', M, D, Q, fs', run, built⟩ := ext4fsAllocateBlocksWith_builds sized alloc holds inode enough total
  have length : D.length = n := built.length.trans (Nat.min_eq_left mappable)
  refine ⟨inode', M, D, Q, fs', run, built.holds, built.dealt.order, built.dealt.all,
    built.dealt.all.nodup_iff.mp (alloc.nodup built.holds), length, fun k below => ?_, fun none k behind => ?_,
    fun q => ⟨fun member => ?_, ?_⟩⟩
  · rw [built.maps.leaf k (by omega) (Or.inl (by omega)), List.getD_eq_getElem _ _ (by omega),
      List.getElem?_eq_getElem (by omega)]
  · by_cases inside : k < g.mapLimit
    · rw [built.maps.leaf k inside (Or.inr none), List.getD_eq_default _ _ (by omega)]
    · have cube : g.perblock * g.perblock * g.perblock = g.perblock ^ 3 := by ring
      unfold Geometry.mapLimit at inside
      rw [Geometry.blockMap, Geometry.pointers]
      simp only
      rw [if_neg (by omega), if_neg (by omega), if_neg (by omega), if_neg (by omega)]
  · obtain ⟨k, below, passed⟩ := built.maps.used q member
    exact ⟨k, by omega, passed⟩
  · rintro ⟨k, below, passed⟩
    exact built.maps.via k (by omega) (Or.inl (by omega)) passed

end Allocation

def wideEnv : Env := { smallEnv with partSize := 4096 }

def nextBlock : Run Nat := fun fs => some (fs.currBlkno + 1, { fs with currBlkno := fs.currBlkno + 1 })

structure Counted (N : List Nat) (fs : Fs) : Prop where
  blocks : N = List.range' 20 N.length
  next : fs.currBlkno = 19 + N.length
  bound : N.length ≤ 1000
  blksz : fs.blksz = 1024
  sectPerblk : fs.sectPerblk = 2

theorem nextBlock_allocator : Allocator wideEnv smallGeometry nextBlock 1000 Counted where
  blksz counted := counted.blksz
  sectPerblk counted := by
    rw [counted.sectPerblk]
    rfl
  nodup counted := by
    rw [counted.blocks]
    exact List.nodup_range'
  block {N fs b} counted member := by
    have size : smallGeometry.bs = 1024 := rfl
    have sectors : wideEnv.partSize * wideEnv.devBlksz = 2048 * 1024 := rfl
    have bound := counted.bound
    rw [counted.blocks, List.mem_range'_1] at member
    rw [size, sectors]
    exact ⟨by omega, Nat.mul_le_mul_right _ (by omega)⟩
  gives {N fs} counted below := by
    refine ⟨fs.currBlkno + 1, { fs with currBlkno := fs.currBlkno + 1 }, rfl, ?_, fun x _ => .refl _ x⟩
    have length : (N ++ [fs.currBlkno + 1]).length = N.length + 1 := by simp
    refine ⟨?_, ?_, by omega, counted.blksz, counted.sectPerblk⟩
    · rw [length, List.range'_1_concat, ← counted.blocks, counted.next]
      congr 2
      omega
    · rw [length]
      exact congrArg (· + 1) counted.next
  stored counted _ _ := ⟨counted.blocks, counted.next, counted.bound, counted.blksz, counted.sectPerblk⟩

/-- A file of 300 blocks of 1 KiB: 12 direct, 256 in the first tree and 32 in the second. -/
theorem allocateBlocks_blockMap_counted :
    smallGeometry.mapBlocks 300 = 3 ∧ ∃ inode' M D Q fs',
      ext4fsAllocateBlocksWith wideEnv nextBlock zeros 300 0 { smallFs false with currBlkno := 19 } =
        some ((inode', 0 + Q.length), fs') ∧
      Counted M fs' ∧ D.Sublist M ∧ M.Perm (D ++ Q) ∧ (D ++ Q).Nodup ∧ D.length = 300 ∧
      (∀ k, k < 300 → D[k]? = some (smallGeometry.blockMap (wideEnv.volume fs'.card) inode' k).1) ∧
      (NoBlocks zeros → ∀ k, 300 ≤ k → (smallGeometry.blockMap (wideEnv.volume fs'.card) inode' k).1 = 0) ∧
      ∀ q, q ∈ Q ↔ ∃ k < 300, q ∈ (smallGeometry.blockMap (wideEnv.volume fs'.card) inode' k).2 :=
  ⟨by decide, allocateBlocks_blockMap ⟨by decide, by decide, by decide⟩ nextBlock_allocator
    ⟨rfl, rfl, by decide, rfl, rfl⟩ zeros (by decide) (by decide) 0⟩

end UuuFastboot.Ext4
