import UuuFastboot.Ext4.AllocSpec
import UuuFastboot.Ext4.Allocate

namespace UuuFastboot.Ext4

open Word Overlay Bytes Partial

namespace Geometry

variable (g : Geometry)

/-- Indices in `depth` blocks of pointers, one below the other, that lead to leaf `j`. -/
def digits : Nat → Nat → List Nat
  | 0, _ => []
  | depth + 1, j => j / g.perblock ^ depth :: digits depth (j % g.perblock ^ depth)

/-- From block `b` the pointers lead to the leaves `D`, through blocks in `Q` only. -/
def Leads (V : Buf) (depth b : Nat) (D Q : List Nat) : Prop :=
  ∀ j x, D[j]? = some x → ∃ via, g.follow V b (g.digits depth j) = some (x, via) ∧ via.length = depth ∧ via ⊆ Q

def Entries (V buf : Buf) (depth : Nat) (D Q : List Nat) : Prop :=
  ∀ j x, D[j]? = some x → ∃ via,
    g.follow V (getLe32 buf (4 * (j / g.perblock ^ depth))) (g.digits depth (j % g.perblock ^ depth)) = some (x, via) ∧
      via.length = depth ∧ via ⊆ Q

variable {g}

theorem digits_lt {depth j : Nat} (below : j < g.perblock ^ depth) : ∀ i ∈ g.digits depth j, i < g.perblock := by
  induction depth generalizing j with
  | zero => simp [digits]
  | succ depth ih =>
    have positive : 0 < g.perblock ^ depth := by
      rcases Nat.eq_zero_or_pos (g.perblock ^ depth) with zero | positive
      · rw [Nat.pow_succ, zero, Nat.zero_mul] at below
        omega
      · exact positive
    simp only [digits, List.mem_cons, forall_eq_or_imp]
    refine ⟨Nat.div_lt_of_lt_mul ?_, ih (Nat.mod_lt _ positive)⟩
    rwa [← Nat.pow_succ]

theorem Valid.perblock_pos {env : Env} (valid : g.Valid env) : 0 < g.perblock :=
  Nat.div_pos (by have := valid.bs_ge; omega) (by decide)

theorem digits_zero (depth : Nat) : ∀ i ∈ g.digits depth 0, i = 0 := by
  induction depth with
  | zero => simp [digits]
  | succ depth ih => simpa [digits] using ih

theorem digits_length (depth j : Nat) : (g.digits depth j).length = depth := by
  induction depth generalizing j with
  | zero => rfl
  | succ depth ih => rw [digits, List.length_cons, ih]

end Geometry

/-- Blocks were handed out: leaves `D` and blocks of pointers `Q`, all different. -/
structure Split (M D Q : List Nat) : Prop where
  leaves : D ⊆ M
  pointers : Q ⊆ M
  nodup : D.Nodup
  apart : D.Disjoint Q

theorem Split.append {M M' D D' Q Q' : List Nat} (first : Split M D Q) (second : Split M' D' Q')
    (nodup : (M ++ M').Nodup) : Split (M ++ M') (D ++ D') (Q ++ Q') := by
  have apart := (List.nodup_append.mp nodup).2.2
  refine ⟨List.append_subset.mpr ⟨fun x member => List.mem_append_left _ (first.leaves member), fun x member =>
      List.mem_append_right _ (second.leaves member)⟩,
    List.append_subset.mpr ⟨fun x member => List.mem_append_left _ (first.pointers member), fun x member =>
      List.mem_append_right _ (second.pointers member)⟩,
    List.nodup_append.mpr ⟨first.nodup, second.nodup, fun x left y right =>
      apart x (first.leaves left) y (second.leaves right)⟩, ?_⟩
  intro x leaf pointer
  rcases List.mem_append.mp leaf with left | right <;> rcases List.mem_append.mp pointer with low | high
  · exact first.apart left low
  · exact apart x (first.leaves left) x (second.pointers high) rfl
  · exact apart x (first.pointers low) x (second.leaves right) rfl
  · exact second.apart right high

/-- A source of entries that are the roots of trees of a given depth: it takes as many leaves as remain to be
allocated, or as many as the tree can have. -/
def Supplies (env : Env) (g : Geometry) (S : Nat → Prop) {V₁ : Buf} (A : Areas g V₁) (base : Fs) (depth : Nat)
    (source : EntrySource) : Prop :=
  ∀ ⦃N : List Nat⦄ ⦃V : Buf⦄ ⦃fs : Fs⦄ ⦃p : Progress⦄ ⦃r : Option Nat⦄ ⦃p' : Progress⦄ ⦃fs' : Fs⦄,
    fs.Busy env g S A N V base → 0 < p.remaining → source p fs = some ((r, p'), fs') →
      fs.Allocates fs' ∧ ∃ M V', fs'.Busy env g S A (N ++ M) V' base ∧ (∀ x ∈ N, g.SameBlock V V' x) ∧
        ∀ b, r = some b → ∃ D Q, Split M D Q ∧ g.Leads V' depth b D Q ∧ b ∈ M ∧
          D.length = min p.remaining (g.perblock ^ depth) ∧ p'.remaining + D.length = p.remaining

section Sources

variable {env : Env} {g : Geometry} {S : Nat → Prop} {V₁ : Buf} {A : Areas g V₁} {base : Fs} (valid : g.Valid env)
variable {V buf : Buf} {depth : Nat} {D Q : List Nat}
include valid

theorem dataEntry_supplies : Supplies env g S A base 0 (dataEntry env) := by
  intro N V fs p r p' fs' busy remains run
  obtain ⟨b, fs₁, call, run⟩ := bind_eq_some.mp run
  have took := ext4fsGetNewBlkNo_took valid busy call
  obtain ⟨V', new, busy'⟩ := took.busy
  simp only [run_ite] at run
  split at run
  · next none =>
    cases run
    rw [if_pos none] at busy'
    exact ⟨took.allocates, [], V', by rwa [List.append_nil], new, nofun⟩
  · next some =>
    cases run
    rw [if_neg some] at busy'
    obtain ⟨-, -, -, -, busy'⟩ := busy'
    refine ⟨took.allocates, [b], V', busy', new, ?_⟩
    intro b' same
    cases same
    refine ⟨[b], [], ⟨List.Subset.refl _, List.nil_subset _, List.nodup_singleton b, by simp⟩, ?_, by simp, ?_, ?_⟩
    · rintro j x leaf
      obtain ⟨below, rfl⟩ := List.getElem?_eq_some_iff.mp leaf
      exact ⟨[], by simp [Geometry.follow, Geometry.digits], rfl, List.nil_subset _⟩
    · simp only [List.length_singleton, Nat.pow_zero]
      omega
    · simp only [List.length_singleton]
      omega

theorem Geometry.Entries.snoc {V' : Buf} {b i : Nat} {D' Q' : List Nat}
    (entries : g.Entries V buf depth D Q) (filled : D.length = i * g.perblock ^ depth)
    (same : ∀ x ∈ Q, g.SameBlock V V' x) (leads : g.Leads V' depth b D' Q')
    (full : D'.length ≤ g.perblock ^ depth) (word : b < 2 ^ 32) :
    g.Entries V' (putLe32 buf (4 * i) b) depth (D ++ D') (Q ++ Q') := by
  intro j x leaf
  have positive := Nat.pow_pos (n := depth) valid.perblock_pos
  by_cases old : j < D.length
  · rw [List.getElem?_append_left old] at leaf
    obtain ⟨via, found, length, inQ⟩ := entries j x leaf
    have before : j / g.perblock ^ depth < i := by
      rw [filled] at old
      exact Nat.div_lt_of_lt_mul (by rwa [Nat.mul_comm])
    refine ⟨via, ?_, length, fun y member => List.mem_append_left _ (inQ member)⟩
    have entry : getLe32 (putLe32 buf (4 * i) b) (4 * (j / g.perblock ^ depth)) =
        getLe32 buf (4 * (j / g.perblock ^ depth)) := getLe32_congr (fun k below => overlay_of_lt (by omega))
    rw [entry]
    exact Geometry.follow_congr (Geometry.digits_lt (Nat.mod_lt _ positive)) found
      (fun y member => same y (inQ member))
  · rw [List.getElem?_append_right (by omega)] at leaf
    obtain ⟨via, found, length, inQ⟩ := leads _ x leaf
    have below : j - D.length < D'.length := (List.getElem?_eq_some_iff.mp leaf).1
    have place : j = j - D.length + i * g.perblock ^ depth := by omega
    have quotient : j / g.perblock ^ depth = i := by
      rw [place, Nat.add_mul_div_right _ _ positive, Nat.div_eq_of_lt (by omega), Nat.zero_add]
    have rest : j % g.perblock ^ depth = j - D.length := by
      conv_lhs => rw [place]
      rw [Nat.add_mul_mod_self_right, Nat.mod_eq_of_lt (by omega)]
    refine ⟨via, ?_, length, fun y member => List.mem_append_right _ (inQ member)⟩
    rw [quotient, rest, getLe32_putLe32, Nat.mod_eq_of_lt word]
    exact found

omit valid in
theorem Geometry.Entries.root {b : Nat} (entries : g.Entries V buf depth D Q)
    (some : b ≠ 0) (inside : b < g.totalBlocks) (full : D.length ≤ g.perblock ^ (depth + 1)) (other : b ∉ Q) :
    g.Leads (overlay V (b * g.bs) g.bs buf) (depth + 1) b D (b :: Q) := by
  intro j x leaf
  obtain ⟨via, found, length, inQ⟩ := entries j x leaf
  have below : j < g.perblock ^ (depth + 1) := (List.getElem?_eq_some_iff.mp leaf).1.trans_le full
  have positive : 0 < g.perblock ^ depth := by
    by_contra zero
    rw [Nat.pow_succ, Nat.eq_zero_of_not_pos zero, Nat.zero_mul] at below
    omega
  have index : j / g.perblock ^ depth < g.perblock := Nat.div_lt_of_lt_mul (by rwa [← Nat.pow_succ])
  have entry : g.word (overlay V (b * g.bs) g.bs buf) b (j / g.perblock ^ depth) =
      getLe32 buf (4 * (j / g.perblock ^ depth)) := by
    have bytes : g.perblock * 4 ≤ g.bs := Nat.div_mul_le_self _ _
    refine getLe32_congr (fun k small => ?_)
    rw [Geometry.blk, tail_apply, overlay_of_mem (by omega) (by omega), Nat.add_sub_cancel_left]
  have kept : ∀ y ∈ via, g.SameBlock V (overlay V (b * g.bs) g.bs buf) y := fun y member =>
    Geometry.sameBlock_overlay (fun same => other (same ▸ inQ member))
  have stored := Geometry.follow_congr (Geometry.digits_lt (Nat.mod_lt j positive)) found kept
  refine ⟨b :: via, ?_, by rw [List.length_cons, length], List.cons_subset_cons _ inQ⟩
  rw [Geometry.digits, Geometry.follow, if_neg some, if_neg (by omega), entry, stored]
  rfl

theorem fillEntries_spec {source : EntrySource} (supplies : Supplies env g S A base depth source)
    {left i : Nat} {N M : List Nat} {fs fs' : Fs} {p p' : Progress} {r : Option Buf}
    (busy : fs.Busy env g S A (N ++ M) V base) (remains : 0 < p.remaining) (split : Split M D Q)
    (entries : g.Entries V buf depth D Q) (filled : D.length = i * g.perblock ^ depth)
    (run : fillEntries source left i buf p fs = some ((r, p'), fs')) :
    fs.Allocates fs' ∧ ∃ M' V', fs'.Busy env g S A (N ++ M') V' base ∧ (∀ x ∈ N, g.SameBlock V V' x) ∧
      ∀ buf', r = some buf' → ∃ D' Q', Split M' D' Q' ∧ g.Entries V' buf' depth D' Q' ∧
        D'.length = D.length + min p.remaining (left * g.perblock ^ depth) ∧
        p'.remaining + D'.length = p.remaining + D.length := by
  induction left generalizing i M D Q V buf fs p with
  | zero =>
    cases run
    refine ⟨.refl _, M, V, busy, fun x _ => .refl V x, ?_⟩
    rintro buf' same
    cases same
    exact ⟨D, Q, split, entries, by omega, rfl⟩
  | succ left ih =>
    rw [fillEntries] at run
    obtain ⟨⟨r₁, p₁⟩, fs₁, call, run⟩ := bind_eq_some.mp run
    obtain ⟨allocates, M₁, V₂, busy₁, same, leads⟩ := supplies busy remains call
    rw [List.append_assoc] at busy₁
    have old : ∀ x ∈ N, g.SameBlock V V₂ x := fun x member => same x (List.mem_append_left _ member)
    cases r₁ with
    | none =>
      cases run
      exact ⟨allocates, M ++ M₁, V₂, busy₁, old, nofun⟩
    | some b =>
      obtain ⟨D₁, Q₁, split₁, leads, member, taken, counted⟩ := leads b rfl
      have nodup : (M ++ M₁).Nodup := (List.nodup_append.mp busy₁.nodup).2.1
      have small := valid.total_lt
      have inside := (busy₁.fresh b (by simp [member])).2.2
      have split₂ := split.append split₁ nodup
      have entries₂ := entries.snoc valid filled (fun x inQ => same x (List.mem_append_right _ (split.pointers inQ)))
        leads (by omega) (by omega)
      have more : (left + 1) * g.perblock ^ depth = left * g.perblock ^ depth + g.perblock ^ depth := Nat.succ_mul _ _
      simp only [run_ite] at run
      split at run
      · next ended =>
        cases run
        refine ⟨allocates, M ++ M₁, V₂, busy₁, old, ?_⟩
        rintro buf' same
        cases same
        refine ⟨_, _, split₂, entries₂, ?_, ?_⟩
        · rw [List.length_append]
          omega
        · rw [List.length_append]
          omega
      · next goesOn =>
        have filled₂ : (D ++ D₁).length = (i + 1) * g.perblock ^ depth := by
          rw [List.length_append, Nat.succ_mul]
          omega
        obtain ⟨allocates', M', V', busy', same', result⟩ := ih busy₁ (by omega) split₂ entries₂ filled₂ run
        refine ⟨allocates.trans allocates', M', V', busy', fun x inN => (old x inN).trans (same' x inN), ?_⟩
        intro buf' same
        obtain ⟨D', Q', split', entries', length, counted'⟩ := result buf' same
        rw [List.length_append] at length counted'
        refine ⟨D', Q', split', entries', ?_, by omega⟩
        rw [length]
        omega

theorem pointerEntry_supplies {source : EntrySource} (check : Bool) (cached : ∀ x, S x → A.kept x)
    (supplies : Supplies env g S A base depth source) :
    Supplies env g S A base (depth + 1) (pointerEntry env check source) := by
  intro N V fs p r p' fs' busy remains run
  obtain ⟨b, fs₁, call, run⟩ := bind_eq_some.mp run
  have took := ext4fsGetNewBlkNo_took valid busy call
  obtain ⟨V₂, new, busy₁⟩ := took.busy
  simp only [run_ite] at run
  split at run
  · next none =>
    cases run
    rw [if_pos none] at busy₁
    exact ⟨took.allocates, [], V₂, by rwa [List.append_nil], new, nofun⟩
  · next some =>
    rw [if_neg some] at busy₁
    obtain ⟨unused, -, inside, -, busy₁⟩ := busy₁
    rw [get_bind] at run
    simp only [run_ite] at run
    split at run
    · cases run
      exact ⟨took.allocates, [b], V₂, busy₁, new, nofun⟩
    · obtain ⟨⟨buf, p₁⟩, fs₂, fill, run⟩ := bind_eq_some.mp run
      rw [busy₁.on.blksz] at fill
      obtain ⟨allocates, M, V₃, busy₂, same, filled⟩ := fillEntries_spec valid supplies (M := []) (D := []) (Q := [])
        (i := 0) (p := ⟨p.remaining, p.reqd + 1⟩) (by rwa [List.append_nil]) remains ⟨List.nil_subset _, List.nil_subset _, List.nodup_nil, by simp⟩
        (fun j x leaf => by simp at leaf) (by simp) fill
      have old : ∀ x ∈ N, g.SameBlock V V₃ x := fun x member =>
        (new x member).trans (same x (List.mem_append_left _ member))
      rw [List.append_assoc] at busy₂
      cases buf with
      | none =>
        cases run
        exact ⟨took.allocates.trans allocates, [b] ++ M, V₃, busy₂, old, nofun⟩
      | some buf =>
        obtain ⟨D, Q, split, entries, length, counted⟩ := filled buf rfl
        cases run
        rw [List.length_nil, Nat.zero_add, Nat.mul_comm, ← Geometry.perblock, ← Nat.pow_succ] at length
        obtain ⟨-, nodup, -⟩ := List.nodup_append.mp busy₂.nodup
        have other : b ∉ M := (List.nodup_cons.mp nodup).1
        have open_ : ¬ A.kept b := fun kept => unused (A.kept_used b kept)
        have busy₃ := busy₂.write valid buf inside open_ (fun inS => open_ (cached b inS))
        refine ⟨took.allocates.trans (allocates.trans ⟨rfl, rfl, rfl, rfl, rfl, rfl, List.prefix_refl _, fun _ _ _ => rfl⟩), [b] ++ M, _,
          busy₃, fun x member => (old x member).trans (Geometry.sameBlock_overlay (fun same => ?_)), ?_⟩
        · exact (List.nodup_append.mp busy₁.nodup).2.2 x member b (List.mem_singleton.mpr rfl) same
        · intro b' same
          cases same
          refine ⟨D, b :: Q, ⟨fun x member => List.mem_cons_of_mem _ (split.leaves member),
            List.cons_subset_cons _ split.pointers, split.nodup, List.disjoint_cons_right.mpr
            ⟨fun member => other (split.leaves member), split.apart⟩⟩, ?_, List.mem_cons_self, length, by simpa using counted⟩
          exact entries.root (busy₂.ne_zero (by simp)) inside (length ▸ Nat.min_le_right _ _)
            (fun member => other (split.pointers member))

end Sources

/-- The blocks of a file that has no extents begin with `D`, through blocks of pointers in `Q`. -/
def Geometry.Mapped (g : Geometry) (V inode : Buf) (D Q : List Nat) : Prop :=
  ∀ j x, D[j]? = some x → ∃ b is via, g.pointers inode j = some (b, is) ∧ g.follow V b is = some (x, via) ∧
    via.length = is.length ∧ via ⊆ Q

/-- A stage of the block map: its first block, the field of the inode that its pointers start from, and their
depth. -/
structure Geometry.Stage (g : Geometry) (lo field depth : Nat) : Prop where
  start : ∀ inode j, j < g.perblock ^ depth → g.pointers inode (lo + j) = some (getLe32 inode field, g.digits depth j)
  before : ∀ inode k b, k < lo → g.pointers (putLe32 inode field b) k = g.pointers inode k

theorem getLe32_putLe32_of_apart {b : Buf} {o p : Nat} (v : Nat) (apart : p + 4 ≤ o ∨ o + 4 ≤ p) :
    getLe32 (putLe32 b o v) p = getLe32 b p :=
  getLe32_congr (fun i below => by
    rcases apart with before | after
    · exact overlay_of_lt (by omega)
    · exact overlay_of_ge (by omega))

section Stages

variable {g : Geometry}

theorem direct_before {inode : Buf} {k field : Nat} (b : Nat) (below : k < indirectBlocks) (behind : 88 ≤ field) :
    getLe32 (putLe32 inode field b) (Inode.dirBlocks + 4 * k) = getLe32 inode (Inode.dirBlocks + 4 * k) := by
  unfold indirectBlocks at below
  exact getLe32_putLe32_of_apart _ (Or.inl (by unfold Inode.dirBlocks; omega))

theorem stage_single : g.Stage indirectBlocks 88 1 where
  start inode j below := by
    rw [Nat.pow_one] at below
    simp only [Geometry.pointers, Geometry.digits, Nat.pow_zero, Nat.div_one]
    rw [if_neg (by omega), if_pos (by omega), Nat.add_sub_cancel_left]
    rfl
  before inode k b below := by
    simp only [Geometry.pointers]
    rw [if_pos below, if_pos below, direct_before b below (by decide)]

theorem stage_double : g.Stage (indirectBlocks + g.perblock) 92 2 where
  start inode j below := by
    rw [Nat.pow_two] at below
    simp only [Geometry.pointers, Geometry.digits, Nat.pow_zero, Nat.div_one, Nat.pow_one]
    rw [if_neg (by omega), if_neg (by omega), if_pos (by omega), Nat.add_sub_cancel_left]
    rfl
  before inode k b below := by
    simp only [Geometry.pointers, Inode.indirBlock]
    by_cases direct : k < indirectBlocks
    · rw [if_pos direct, if_pos direct, direct_before b direct (by decide)]
    · rw [if_neg direct, if_neg direct, if_pos below, if_pos below, getLe32_putLe32_of_apart _ (Or.inl (by decide))]

theorem stage_triple : g.Stage (indirectBlocks + g.perblock + g.perblock * g.perblock) 96 3 where
  start inode j below := by
    have cube : g.perblock ^ 3 = g.perblock * g.perblock * g.perblock := by ring
    rw [cube] at below
    simp only [Geometry.pointers, Geometry.digits, Nat.pow_zero, Nat.div_one, Nat.pow_one, Nat.pow_two]
    rw [if_neg (by omega), if_neg (by omega), if_neg (by omega), if_pos (by omega), Nat.add_sub_cancel_left,
      Nat.mod_mul_right_div_self, Nat.mod_mul_right_mod]
    rfl
  before inode k b below := by
    simp only [Geometry.pointers, Inode.indirBlock, Inode.doubleIndirBlock]
    by_cases direct : k < indirectBlocks
    · rw [if_pos direct, if_pos direct, direct_before b direct (by decide)]
    · rw [if_neg direct, if_neg direct]
      by_cases single : k < indirectBlocks + g.perblock
      · rw [if_pos single, if_pos single, getLe32_putLe32_of_apart _ (Or.inl (by decide))]
      · rw [if_neg single, if_neg single, if_pos below, if_pos below, getLe32_putLe32_of_apart _ (Or.inl (by decide))]

end Stages

theorem Geometry.Mapped.congr {g : Geometry} {V V' inode inode' : Buf} {D Q : List Nat} (mapped : g.Mapped V inode D Q)
    (same : ∀ x ∈ Q, g.SameBlock V V' x) (pointers : ∀ k < D.length, g.pointers inode' k = g.pointers inode k) :
    g.Mapped V' inode' D Q := by
  intro j x block
  obtain ⟨b, is, via, start, found, length, inQ⟩ := mapped j x block
  refine ⟨b, is, via, (pointers j (List.getElem?_eq_some_iff.mp block).1).trans start, ?_, length, inQ⟩
  exact follow_congr (pointers_small start).1 found (fun y member => same y (inQ member))

/-- The driver has handed out the blocks `M` since it had handed out `N`, and the inode maps the first blocks `D`
of the file of `n` blocks. -/
structure Fs.Mapping (env : Env) (g : Geometry) (S : Nat → Prop) {V₁ : Buf} (A : Areas g V₁) (n : Nat)
    (N M D Q : List Nat) (V inode : Buf) (fs base : Fs) : Prop where
  busy : fs.Busy env g S A (N ++ M) V base
  split : Split M D Q
  mapped : g.Mapped V inode D Q
  bound : D.length ≤ n

/-- The search for a block starts from a pointer that is zero, and goes on with the first entries only. -/
def Geometry.MapEnd (g : Geometry) (inode : Buf) (k : Nat) : Prop :=
  ∃ is, g.pointers inode k = some (0, is) ∧ ∀ i ∈ is, i = 0

/-- The whole file is mapped, or the map ends at a pointer that is zero, in front of block `lo`. -/
def Geometry.Settled (g : Geometry) (inode : Buf) (n lo : Nat) (D : List Nat) : Prop :=
  D.length ≤ lo ∧ (D.length = n ∨ D.length < lo ∧ g.MapEnd inode D.length)

section Trees

variable {env : Env} {g : Geometry} {S : Nat → Prop} {V₁ : Buf} {A : Areas g V₁} {base : Fs} (valid : g.Valid env)
variable {n : Nat} {N : List Nat} {V inode inode' : Buf} {fs fs' : Fs}
include valid

theorem allocTree_stage {lo field depth : Nat} {source : EntrySource} {M D Q : List Nat}
    {p p' : Progress} (stage : g.Stage lo field depth) (supplies : Supplies env g S A base depth source)
    (mapping : fs.Mapping env g S A n N M D Q V inode base) (unset : getLe32 inode field = 0)
    (state : g.Settled inode n lo D ∨ D.length = lo ∧ p.remaining + lo = n ∧ 0 < p.remaining)
    (run : allocTree field source inode p fs = some ((inode', p'), fs')) :
    fs.Allocates fs' ∧ (inode' = inode ∨ ∃ b, inode' = putLe32 inode field b) ∧
      ∃ M' D' Q' V', fs'.Mapping env g S A n N M' D' Q' V' inode' base ∧ (∀ x ∈ N, g.SameBlock V V' x) ∧
        (g.Settled inode n lo D → D' = D) ∧
        (g.Settled inode' n (lo + g.perblock ^ depth) D' ∨
          D'.length = lo + g.perblock ^ depth ∧ p'.remaining + (lo + g.perblock ^ depth) = n ∧ 0 < p'.remaining) := by
  have positive := Nat.pow_pos (n := depth) valid.perblock_pos
  have settled_mono : ∀ {inode'}, (∀ k < lo, g.pointers inode' k = g.pointers inode k) → g.Settled inode n lo D →
      g.Settled inode' n (lo + g.perblock ^ depth) D := by
    rintro inode' same ⟨behind, whole | ⟨before, zero⟩⟩
    · exact ⟨by omega, Or.inl whole⟩
    · exact ⟨by omega, Or.inr ⟨by omega, by rwa [Geometry.MapEnd, same _ before]⟩⟩
  unfold allocTree at run
  simp only [run_ite] at run
  split at run
  · next ended =>
    cases run
    refine ⟨.refl _, Or.inl rfl, M, D, Q, V, mapping, fun x _ => .refl V x, fun _ => rfl, ?_⟩
    rcases state with settled | ⟨-, -, remains⟩
    · exact Or.inl (settled_mono (fun _ _ => rfl) settled)
    · omega
  · next remains =>
    obtain ⟨⟨r, p₁⟩, fs₁, call, run⟩ := bind_eq_some.mp run
    obtain ⟨allocates, M₁, V', busy, same, tree⟩ := supplies mapping.busy (by omega) call
    rw [List.append_assoc] at busy
    have old : ∀ x ∈ N, g.SameBlock V V' x := fun x member => same x (List.mem_append_left _ member)
    have oldQ : ∀ x ∈ Q, g.SameBlock V V' x := fun x member =>
      same x (List.mem_append_right _ (mapping.split.pointers member))
    have wider : Split (M ++ M₁) D Q :=
      ⟨fun x member => List.mem_append_left _ (mapping.split.leaves member),
        fun x member => List.mem_append_left _ (mapping.split.pointers member), mapping.split.nodup, mapping.split.apart⟩
    cases r with
    | none =>
      cases run
      refine ⟨allocates, Or.inl rfl, M ++ M₁, D, Q, V',
        ⟨busy, wider, mapping.mapped.congr oldQ (fun _ _ => rfl), mapping.bound⟩, old, fun _ => rfl, Or.inl ?_⟩
      rcases state with settled | ⟨here, -, -⟩
      · exact settled_mono (fun _ _ => rfl) settled
      · have start := stage.start inode 0 positive
        rw [unset, Nat.add_zero, ← here] at start
        exact ⟨by omega, Or.inr ⟨by omega, g.digits depth 0, start, Geometry.digits_zero depth⟩⟩
    | some b =>
      cases run
      have before : ∀ k < lo, g.pointers (putLe32 inode field b) k = g.pointers inode k :=
        fun k below => stage.before inode k b below
      obtain ⟨D₁, Q₁, split₁, leads, member, length, counted⟩ := tree b rfl
      rcases state with settled | ⟨here, whole, -⟩
      · refine ⟨allocates, Or.inr ⟨b, rfl⟩, M ++ M₁, D, Q, V', ⟨busy, wider, ?_, mapping.bound⟩, old,
          fun _ => rfl, Or.inl (settled_mono before settled)⟩
        exact mapping.mapped.congr oldQ (fun k below => before k (below.trans_le settled.1))
      · have nodup : (M ++ M₁).Nodup := (List.nodup_append.mp busy.nodup).2.1
        have small := valid.total_lt
        have inside := (busy.fresh b (by simp [member])).2.2
        have mapped' : g.Mapped V' (putLe32 inode field b) (D ++ D₁) (Q ++ Q₁) := by
          intro j x block
          by_cases first : j < D.length
          · rw [List.getElem?_append_left first] at block
            obtain ⟨c, is, via, start, found, full, inQ⟩ :=
              mapping.mapped.congr oldQ (fun k below => before k (here ▸ below)) j x block
            exact ⟨c, is, via, start, found, full, fun y member => List.mem_append_left _ (inQ member)⟩
          · rw [List.getElem?_append_right (by omega)] at block
            obtain ⟨via, found, full, inQ⟩ := leads _ x block
            have below : j - D.length < D₁.length := (List.getElem?_eq_some_iff.mp block).1
            have start := stage.start (putLe32 inode field b) (j - D.length) (by omega)
            rw [getLe32_putLe32, Nat.mod_eq_of_lt (by omega), show lo + (j - D.length) = j by omega] at start
            refine ⟨b, _, via, start, found, ?_, fun y member => List.mem_append_right _ (inQ member)⟩
            rw [full, Geometry.digits_length]
        have total : (D ++ D₁).length = lo + D₁.length := by rw [List.length_append, here]
        refine ⟨allocates, Or.inr ⟨b, rfl⟩, M ++ M₁, D ++ D₁, Q ++ Q₁, V',
          ⟨busy, mapping.split.append split₁ nodup, mapped', by omega⟩, old, fun settled => ?_, ?_⟩
        · rcases settled.2 with all | ⟨less, -⟩ <;> omega
        rw [Geometry.Settled, total]
        by_cases ended : p'.remaining = 0
        · exact Or.inl ⟨by omega, Or.inl (by omega)⟩
        · exact Or.inr ⟨by omega, by omega, by omega⟩

theorem allocDirect_stage {left i remaining remaining' : Nat} {ok : Bool} {M D : List Nat}
    (mapping : fs.Mapping env g S A n N M D [] V inode base) (here : D.length = i)
    (bound : i + left = indirectBlocks) (whole : remaining + i = n)
    (unset : ∀ k, i ≤ k → k < indirectBlocks → getLe32 inode (Inode.dirBlocks + 4 * k) = 0)
    (run : allocDirect (ext4fsGetNewBlkNo env) left i inode remaining fs = some ((ok, inode', remaining'), fs')) :
    fs.Allocates fs' ∧ (∀ o, o < Inode.dirBlocks ∨ 88 ≤ o → inode' o = inode o) ∧
      ∃ M' D' V', fs'.Mapping env g S A n N M' D' [] V' inode' base ∧ (∀ x ∈ N, g.SameBlock V V' x) ∧ D <+: D' ∧
        (fs.firstPassBbmap = 0 → D' = D ∨ ∃ b, fs'.HasEntry (g.bbm V₁ (g.groupOf b)) ∧ b < g.totalBlocks) ∧
        (g.Settled inode' n indirectBlocks D' ∨
          ok = true ∧ D'.length = indirectBlocks ∧ remaining' + indirectBlocks = n ∧ 0 < remaining') := by
  induction left generalizing i M D V inode remaining fs with
  | zero =>
    cases run
    refine ⟨.refl _, fun _ _ => rfl, M, D, V, mapping, fun x _ => .refl V x, List.prefix_refl _, fun _ => Or.inl rfl, ?_⟩
    by_cases ended : remaining' = 0
    · exact Or.inl ⟨by omega, Or.inl (by omega)⟩
    · exact Or.inr ⟨rfl, by omega, by omega, by omega⟩
  | succ left ih =>
    unfold allocDirect at run
    simp only [run_ite] at run
    split at run
    · next ended =>
      cases run
      exact ⟨.refl _, fun _ _ => rfl, M, D, V, mapping, fun x _ => .refl V x, List.prefix_refl _,
        fun _ => Or.inl rfl, Or.inl ⟨by omega, Or.inl (by omega)⟩⟩
    · next remains =>
      obtain ⟨b, fs₁, call, run⟩ := bind_eq_some.mp run
      have took := ext4fsGetNewBlkNo_took valid mapping.busy call
      obtain ⟨V', new, busy⟩ := took.busy
      have old : ∀ x ∈ N, g.SameBlock V V' x := fun x member => new x (List.mem_append_left _ member)
      simp only [run_ite] at run
      split at run
      · next none =>
        cases run
        rw [if_pos none] at busy
        refine ⟨took.allocates, fun _ _ => rfl, M, D, V',
          ⟨busy, mapping.split, mapping.mapped.congr (by simp) (fun _ _ => rfl), mapping.bound⟩, old,
          List.prefix_refl _, fun _ => Or.inl rfl, Or.inl ⟨by omega, Or.inr ⟨by omega, [], ?_, by simp⟩⟩⟩
        rw [Geometry.pointers, if_pos (by omega), unset _ (by omega) (by omega)]
      · next some =>
        rw [if_neg some] at busy
        obtain ⟨-, -, inside, notNew, busy⟩ := busy
        rw [List.append_assoc] at busy
        have small := valid.total_lt
        have limit : indirectBlocks = 12 := rfl
        have fields : Inode.dirBlocks = 40 := rfl
        have mapped' : g.Mapped V' (putLe32 inode (Inode.dirBlocks + 4 * i) b) (D ++ [b]) [] := by
          intro j x block
          have below : j < D.length + 1 := by simpa using (List.getElem?_eq_some_iff.mp block).1
          have start : g.pointers (putLe32 inode (Inode.dirBlocks + 4 * i) b) j =
              .some (getLe32 (putLe32 inode (Inode.dirBlocks + 4 * i) b) (Inode.dirBlocks + 4 * j), []) := by
            rw [Geometry.pointers, if_pos (by omega)]
          by_cases first : j < D.length
          · rw [List.getElem?_append_left first] at block
            have before : g.Mapped V' inode D [] := mapping.mapped.congr (by simp) (fun _ _ => rfl)
            obtain ⟨c, is, via, start', found, full, inQ⟩ := before j x block
            rw [Geometry.pointers, if_pos (by omega)] at start'
            rw [getLe32_putLe32_of_apart _ (Or.inl (by omega))] at start
            exact ⟨c, is, via, start.trans start', found, full, inQ⟩
          · have last : j = D.length := by omega
            rw [last, List.getElem?_concat_length] at block
            cases block
            refine ⟨b, [], [], ?_, rfl, rfl, List.nil_subset _⟩
            rw [start, last, here, getLe32_putLe32, Nat.mod_eq_of_lt (by omega)]
        have split' : Split (M ++ [b]) (D ++ [b]) [] := by
          refine mapping.split.append ⟨List.Subset.refl _, List.nil_subset _, List.nodup_singleton b, by simp⟩ ?_
          exact (List.nodup_append.mp busy.nodup).2.1
        obtain ⟨allocates, outside, M', D', V'', mapping', same, grows, -, settled⟩ := ih
          ⟨busy, split', mapped', by rw [List.length_append, List.length_singleton]; omega⟩
          (by rw [List.length_append, List.length_singleton, here]) (by omega) (by omega)
          (fun k behind below => by
            rw [getLe32_putLe32_of_apart _ (Or.inr (by omega)), unset k (by omega) below]) run
        refine ⟨took.allocates.trans allocates, fun o apart => ?_, M', D', V'', mapping',
          fun x member => (old x member).trans (same x member), (List.prefix_append _ _).trans grows,
          fun first => Or.inr ⟨b, (took.logged first some).mono allocates.journalPtr, inside⟩, settled⟩
        rw [outside o apart]
        rcases apart with before | after
        · exact overlay_of_lt (by omega)
        · exact overlay_of_ge (by omega)

omit valid in
theorem treeField_apart {field : Nat}
    (changed : inode' = inode ∨ ∃ b, inode' = putLe32 inode field b) (o : Nat) (apart : o < field ∨ field + 4 ≤ o) :
    inode' o = inode o := by
  rcases changed with rfl | ⟨b, rfl⟩
  · rfl
  · rcases apart with before | after
    · exact overlay_of_lt before
    · exact overlay_of_ge after

/-- `ext4fs_allocate_blocks` on an inode without blocks: it maps the first blocks of the file, all of them
different and none of them in use before, and where it does not map all the map ends with a zero pointer. -/
theorem ext4fsAllocateBlocks_spec {total total' : Nat}
    (cached : ∀ x, S x → A.kept x) (busy : fs.Busy env g S A N V base) (fits : n ≤ g.limit)
    (empty : ∀ o, Inode.dirBlocks ≤ o → o < 100 → inode o = 0)
    (run : ext4fsAllocateBlocks env inode n total fs = some ((inode', total'), fs')) :
    fs.Allocates fs' ∧ (∀ o, o < Inode.dirBlocks ∨ 100 ≤ o → inode' o = inode o) ∧
      ∃ M D Q V', fs'.Mapping env g S A n N M D Q V' inode' base ∧ (∀ x ∈ N, g.SameBlock V V' x) ∧
        (fs.firstPassBbmap = 0 → D ≠ [] → ∃ b, fs'.HasEntry (g.bbm V₁ (g.groupOf b)) ∧ b < g.totalBlocks) ∧
        (D.length = n ∨ g.MapEnd inode' D.length) := by
  have leaf : Supplies env g S A base 0 (dataEntry env) := dataEntry_supplies valid
  have zero : ∀ {buf : Buf} {o : Nat}, (∀ i < 4, buf (o + i) = 0) → getLe32 buf o = 0 := fun bytes =>
    getLe32_congr (c := zeros) (p := 0) bytes
  have fields : Inode.dirBlocks = 40 := rfl
  have limit : indirectBlocks = 12 := rfl
  unfold ext4fsAllocateBlocks ext4fsAllocateBlocksWith at run
  obtain ⟨⟨ok, inode₁, remaining⟩, fs₁, direct, run⟩ := bind_eq_some.mp run
  obtain ⟨allocates₁, outside₁, M₁, D₁, V₂, mapping₁, same₁, -, logged, state₁⟩ := allocDirect_stage valid
    (n := n) (M := []) (D := []) (i := 0)
    ⟨by rwa [List.append_nil], ⟨List.nil_subset _, List.nil_subset _, List.nodup_nil, by simp⟩,
      fun j x block => by simp at block, Nat.zero_le _⟩ rfl (by simp) (Nat.add_zero n)
    (fun k _ below => zero (fun i small => empty _ (by omega) (by omega))) direct
  have entry : fs.firstPassBbmap = 0 → D₁ ≠ [] → ∃ b, fs₁.HasEntry (g.bbm V₁ (g.groupOf b)) ∧ b < g.totalBlocks :=
    fun first some => (logged first).resolve_left some
  cases ok with
  | false =>
    cases run
    refine ⟨allocates₁, fun o apart => outside₁ o (by omega), M₁, D₁, [], V₂, mapping₁, same₁, entry, ?_⟩
    rcases state₁ with settled | ⟨false_, -⟩
    · exact settled.2.imp_right (fun missing => missing.2)
    · cases false_
  | true =>
    have single := pointerEntry_supplies valid true cached leaf
    have double := pointerEntry_supplies valid true cached single
    have triple := pointerEntry_supplies valid false cached
      (pointerEntry_supplies valid false cached (pointerEntry_supplies valid false cached leaf))
    obtain ⟨⟨inode₂, p₂⟩, fs₂, tree₁, run⟩ := bind_eq_some.mp run
    obtain ⟨⟨inode₃, p₃⟩, fs₃, tree₂, run⟩ := bind_eq_some.mp run
    obtain ⟨⟨inode₄, p₄⟩, fs₄, tree₃, run⟩ := bind_eq_some.mp run
    cases run
    have empty₁ : ∀ o, 88 ≤ o → o < 100 → inode₁ o = 0 := fun o lower upper =>
      (outside₁ o (Or.inr lower)).trans (empty o (by omega) upper)
    obtain ⟨allocates₂, changed₂, M₂, D₂, Q₂, V₃, mapping₂, same₂, kept₂, state₂⟩ := allocTree_stage valid
      stage_single single mapping₁ (zero (fun i small => empty₁ _ (by omega) (by omega)))
      (p := ⟨remaining, 0⟩) (state₁.imp_right And.right) tree₁
    rw [Nat.pow_one] at state₂
    have outside₂ : ∀ o, o < 88 ∨ 92 ≤ o → inode₂ o = inode₁ o := fun o => treeField_apart changed₂ o
    obtain ⟨allocates₃, changed₃, M₃, D₃, Q₃, V₄, mapping₃, same₃, kept₃, state₃⟩ := allocTree_stage valid
      stage_double double mapping₂
      (zero (fun i small => (outside₂ _ (by omega)).trans (empty₁ _ (by omega) (by omega)))) state₂ tree₂
    rw [Nat.pow_two] at state₃
    have outside₃ : ∀ o, o < 92 ∨ 96 ≤ o → inode₃ o = inode₂ o := fun o => treeField_apart changed₃ o
    obtain ⟨allocates₄, changed₄, M₄, D₄, Q₄, V₅, mapping₄, same₄, kept₄, state₄⟩ := allocTree_stage valid
      stage_triple triple mapping₃
      (zero (fun i small => (outside₃ _ (by omega)).trans ((outside₂ _ (by omega)).trans (empty₁ _ (by omega) (by omega)))))
      state₃ tree₃
    have outside₄ : ∀ o, o < 96 ∨ 100 ≤ o → inode' o = inode₃ o := fun o => treeField_apart changed₄ o
    have later := allocates₂.trans (allocates₃.trans allocates₄)
    have positive := valid.perblock_pos
    refine ⟨allocates₁.trans later, fun o apart => ?_, M₄, D₄, Q₄, V₅, mapping₄, fun x member =>
      (same₁ x member).trans ((same₂ x member).trans ((same₃ x member).trans (same₄ x member))), fun first some => ?_, ?_⟩
    · rw [outside₄ o (by omega), outside₃ o (by omega), outside₂ o (by omega), outside₁ o (by omega)]
    · have first_some : D₁ ≠ [] := by
        rintro rfl
        have settled₁ := state₁.resolve_right (fun goesOn => absurd goesOn.2.1 (by rw [List.length_nil]; omega))
        have same₂ := kept₂ settled₁
        have settled₂ := state₂.resolve_right (fun goesOn => absurd goesOn.1 (by rw [same₂, List.length_nil]; omega))
        have same₃ := (kept₃ settled₂).trans same₂
        have settled₃ := state₃.resolve_right (fun goesOn => absurd goesOn.1 (by rw [same₃, List.length_nil]; omega))
        exact some ((kept₄ settled₃).trans same₃)
      obtain ⟨b, logged, inside⟩ := entry first first_some
      exact ⟨b, logged.mono later.journalPtr, inside⟩
    · rcases state₄ with settled | ⟨-, more, remains⟩
      · exact settled.2.imp_right (fun missing => missing.2)
      · have cube : g.perblock * g.perblock ≤ g.perblock ^ 3 := by
          rw [← Nat.pow_two]
          exact Nat.pow_le_pow_right positive (by decide)
        unfold Geometry.limit at fits
        omega

end Trees

end UuuFastboot.Ext4
