import UuuFastboot.Ext4.AllocateSpec
import UuuFastboot.Ext4.ReadSpec
import UuuFastboot.Ext4.Write

namespace UuuFastboot.Ext4

open Word Overlay Bytes Partial

theorem Geometry.Valid.limit_lt {g : Geometry} {env : Env} (valid : g.Valid env) : g.limit < 2 ^ 31 := by
  have size := valid.bs_le
  have words : g.perblock ≤ 1024 := by
    unfold Geometry.perblock
    omega
  have square : g.perblock * g.perblock ≤ 1024 * 1024 := Nat.mul_le_mul words words
  unfold Geometry.limit indirectBlocks
  omega

section Missing

variable {env : Env} {g : Geometry} {root : Root} (valid : g.Valid env) (has : root.Has g)
include valid has

/-- Where the map of an inode ends the driver reads block 0 as a block of pointers, and its first word as the
pointer. -/
theorem readIndirect_mapEnd {card inode : Buf} {S : Nat → Prop} {c : Caches} {k : Nat}
    (ok : c.Ok env g root (env.volume card) S) (behind : indirectBlocks ≤ k) (ends : g.MapEnd inode k) (boot : S 0)
    (zero : g.word (env.volume card) 0 0 = 0) :
    ∃ c', readIndirect env card root inode k c = (0, c') ∧ c'.Ok env g root (env.volume card) S := by
  obtain ⟨is, at_, first⟩ := ends
  have positive := valid.perblock_pos
  have inside : 0 < g.totalBlocks := Nat.lt_of_le_of_lt (Nat.zero_le _) valid.nonempty
  simp only [Geometry.pointers] at at_
  simp only [readIndirect, readIndirectWith, has.blockSize, show g.bs / 4 = g.perblock from rfl, Nat.mul_add, Nat.mul_one]
  have held : (Indir.held env g root (env.volume card) 0).Ok env g root (env.volume card) S :=
    Indir.Ok.of_held boot inside
  have entry : (Indir.held env g root (env.volume card) 0).entry env 0 = 0 := by
    rw [Indir.entry_held positive, zero]
  split_ifs at at_ with direct single double triple
  · omega
  · simp only [Option.some.injEq, Prod.mk.injEq] at at_
    obtain ⟨start, rfl⟩ := at_
    simp only [List.mem_singleton, forall_eq] at first
    rw [if_pos single, start, Indir.load_eq valid has ok.indir1 inside, first]
    simp only [if_true, entry]
    exact ⟨_, rfl, held, ok.indir2, ok.indir3⟩
  · simp only [Option.some.injEq, Prod.mk.injEq] at at_
    obtain ⟨start, rfl⟩ := at_
    simp only [List.mem_cons, List.not_mem_nil, or_false, forall_eq_or_imp, forall_eq] at first
    rw [if_neg single, if_pos (by omega), start, Indir.load_eq valid has ok.indir1 inside, first.1, first.2]
    simp only [if_true, entry, Indir.load_eq valid has ok.indir2 inside]
    exact ⟨_, rfl, held, held, ok.indir3⟩
  · simp only [Option.some.injEq, Prod.mk.injEq] at at_
    obtain ⟨start, rfl⟩ := at_
    simp only [List.mem_cons, List.not_mem_nil, or_false, forall_eq_or_imp, forall_eq] at first
    obtain ⟨high, middle, low⟩ := first
    have small : (k - (indirectBlocks + g.perblock + g.perblock * g.perblock)) / g.perblock = 0 := by
      rw [Nat.mod_eq_of_lt] at middle
      · exact middle
      · refine Nat.div_lt_of_lt_mul ?_
        rw [Nat.div_eq_zero_iff] at high
        rcases high with none | below
        · exact absurd none (Nat.mul_pos positive positive).ne'
        · exact below
    rw [if_neg single, if_neg (by omega), start, Indir.load_eq valid has ok.indir1 inside, high, low, small]
    simp only [if_true, Nat.zero_mod, entry, Indir.load_eq valid has ok.indir2 inside,
      Indir.load_eq valid has ok.indir3 inside]
    exact ⟨_, rfl, held, held, held⟩

end Missing

section Lookup

variable {env : Env} {g : Geometry} {S : Nat → Prop} {V inode : Buf} {fs : Fs} {D Q : List Nat} (valid : g.Valid env)
  (on : fs.On env g S V) (plain : Inode.usesExtents inode = false)
include valid on plain

theorem Fs.On.lookup_mapped {k x : Nat} (mapped : g.Mapped V inode D Q) (cached : ∀ y ∈ Q, S y)
    (below : k < g.limit) (block : D[k]? = some x) :
    ∃ c, Ext4.allocatedBlock env inode k fs = some (x, { fs with caches := c }) ∧
      Fs.On env g S V { fs with caches := c } := by
  obtain ⟨b, is, via, start, found, length, inQ⟩ := mapped k x block
  refine on.lookup valid ⟨?_, Or.inr (length.trans (Geometry.pointers_small start).2), Or.inr below, ?_⟩
    (fun y member => cached y (inQ member))
  · rw [Geometry.lookup, plain, if_neg Bool.false_ne_true, start]
    exact found
  · exact below.trans valid.limit_lt

theorem Fs.On.lookup_mapEnd {k : Nat} (ends : g.MapEnd inode k) (below : k < g.limit) (boot : S 0)
    (zero : g.word V 0 0 = 0) :
    ∃ c, Ext4.allocatedBlock env inode k fs = some (0, { fs with caches := c }) ∧
      Fs.On env g S V { fs with caches := c } := by
  obtain ⟨root, blksz, sectPerblk, volume, caches⟩ := on
  subst volume
  have small := below.trans valid.limit_lt
  have positive : isNeg k = false := decide_eq_false (by omega)
  have run : ∃ c', readAllocatedBlock env fs.card fs.root inode k none fs.caches = some (0, none, c') ∧
      c'.Ok env g fs.root (env.volume fs.card) S := by
    unfold readAllocatedBlock
    rw [plain, if_neg Bool.false_ne_true, positive, Bool.false_or]
    split_ifs with direct
    · have near : k < indirectBlocks := by simpa using direct
      obtain ⟨is, at_, -⟩ := ends
      rw [Geometry.pointers, if_pos near] at at_
      simp only [Option.some.injEq, Prod.mk.injEq] at at_
      have word : Inode.dirBlocks + 4 * k < 2 ^ 32 := by
        unfold Inode.dirBlocks indirectBlocks at *
        omega
      exact ⟨fs.caches, by rw [w32_of_lt word, at_.1], caches⟩
    · obtain ⟨c', read, ok⟩ := readIndirect_mapEnd valid root caches (by simpa using direct) ends boot zero
      exact ⟨c', by rw [read], ok⟩
  obtain ⟨c', read, ok⟩ := run
  refine ⟨c', ?_, ⟨root, blksz, sectPerblk, rfl, ok⟩⟩
  rw [Ext4.allocatedBlock, read]
  rfl

end Lookup

def Written (g : Geometry) (data : Buf) (D : List Nat) (m : Nat) (V : Buf) : Prop :=
  ∀ k < m, ∀ x, D[k]? = some x → ∀ t < g.bs, V (x * g.bs + t) = data (k * g.bs + t)

/-- The write that is put off is that of the blocks from `m` to `i` of the file, which follow each other on the
volume. -/
def PutOff (env : Env) (g : Geometry) (root : Root) (D : List Nat) (i m : Nat) : Option DelayedWrite → Prop
  | none => m = i
  | some d => m < i ∧ ∃ b, (∀ t < i - m, D[m + t]? = some (b + t)) ∧ d.start = blockSector env root b ∧
      d.extent = (i - m) * g.bs ∧ d.buf = m * g.bs ∧
      d.next = blockSector env root b + (i - m) * (g.bs / env.devBlksz)

/-- The blocks of a new file are open to its data: they are new, and none of them may be in a buffer. -/
structure Open {g : Geometry} {V₁ : Buf} (A : Areas g V₁) (S : Nat → Prop) (N D : List Nat) : Prop where
  new : D ⊆ N
  nodup : D.Nodup
  uncached : ∀ x ∈ D, ¬ S x

section Data

variable {env : Env} {g : Geometry} {S : Nat → Prop} {V₁ : Buf} {A : Areas g V₁} {base : Fs} {N D Q : List Nat}
  {data : Buf} (valid : g.Valid env) (open_ : Open A S N D)
include valid open_

theorem spillWrite_spec {i m : Nat} {V : Buf} {fs fs' : Fs} {delayed : Option DelayedWrite}
    (busy : fs.Busy env g S A N V base) (late : PutOff env g fs.root D i m delayed) (written : Written g data D m V)
    (run : spillWrite env data delayed fs = some ((), fs')) :
    fs.Allocates fs' ∧ fs'.caches = fs.caches ∧ ∃ V', fs'.Busy env g S A N V' base ∧ Written g data D i V' ∧
      ∀ x, x ∉ D → g.SameBlock V V' x := by
  cases delayed with
  | none =>
    cases run
    have same : m = i := late
    exact ⟨.refl _, rfl, V, busy, same ▸ written, fun x _ => .refl V x⟩
  | some d =>
    cases run
    obtain ⟨more, b, blocks, start, extent, buf, -⟩ := late
    have member : ∀ t < i - m, b + t ∈ D := fun t below => List.mem_of_getElem? (blocks t below)
    have last := (busy.fresh _ (open_.new (member (i - m - 1) (by omega)))).2.2
    have sector := blockSector_mul valid.fits busy.on.root.log2 (b := b) (by omega)
    have busy' := busy.writeRun valid (b := b) (c := i - m) (tail data d.buf) (by omega)
      (fun t below kept => (busy.fresh _ (open_.new (member t below))).1 (A.kept_used _ kept))
      (fun t below => open_.uncached _ (member t below))
    rw [start, sector, extent]
    refine ⟨⟨rfl, rfl, rfl, rfl, rfl, rfl, List.prefix_refl _, fun _ _ _ => rfl⟩, rfl, _, busy', ?_, fun x other => ?_⟩
    · intro k below x block t small
      by_cases old : k < m
      · have apart : x < b ∨ b + (i - m) ≤ x := by
          by_contra between
          have again := blocks (x - b) (by omega)
          rw [Nat.add_sub_cancel' (by omega)] at again
          have inside := (List.getElem?_eq_some_iff.mp block).1
          have same := (List.getElem?_inj inside open_.nodup).mp (block.trans again.symm)
          omega
        rw [← Geometry.sameBlock_overlayRun apart t small]
        exact written k old x block t small
      · have here := blocks (k - m) (by omega)
        rw [Nat.add_sub_cancel' (by omega), block] at here
        cases here
        have place : (b + (k - m)) * g.bs = b * g.bs + (k - m) * g.bs := Nat.add_mul _ _ _
        have step : (k - m + 1) * g.bs ≤ (i - m) * g.bs := Nat.mul_le_mul_right _ (by omega)
        rw [Nat.add_mul, Nat.one_mul] at step
        have source : k * g.bs = m * g.bs + (k - m) * g.bs := by
          rw [← Nat.add_mul, Nat.add_sub_cancel' (by omega)]
        rw [overlay_of_mem (by omega) (by omega), tail_apply, buf]
        congr 1
        omega
    · refine Geometry.sameBlock_overlayRun ?_
      by_contra between
      refine other ?_
      have inside := member (x - b) (by omega)
      rwa [Nat.add_sub_cancel' (by omega)] at inside

/-- The loop of `ext4fs_write_file` writes into blocks of the file only, and all of its data where it
succeeds. -/
theorem writeLoop_spec {left i m n : Nat} {V inode : Buf} {fs fs' : Fs} {delayed : Option DelayedWrite} {ok : Bool}
    (plain : Inode.usesExtents inode = false) (fits : n ≤ g.limit) (cached : ∀ x ∈ Q, S x) (boot : S 0)
    (apart : D.Disjoint Q) (size : D.length ≤ n) (busy : fs.Busy env g S A N V base) (mapped : g.Mapped V inode D Q)
    (ends : D.length = n ∨ g.MapEnd inode D.length) (zero : g.word V 0 0 = 0) (bound : i + left = n)
    (reached : i ≤ D.length) (late : PutOff env g fs.root D i m delayed) (written : Written g data D m V)
    (run : writeLoop env inode data left i (i * g.bs) delayed fs = some (ok, fs')) :
    fs.Allocates fs' ∧ ∃ V', fs'.Busy env g S A N V' base ∧ (∀ x, x ∉ D → g.SameBlock V V' x) ∧
      (ok = true → D.length = n ∧ Written g data D n V') := by
  induction left generalizing i m V fs delayed with
  | zero =>
    obtain ⟨⟨⟩, fs₁, spill, run⟩ := bind_eq_some.mp run
    cases run
    obtain ⟨allocates, -, V', busy', written', same⟩ := spillWrite_spec valid open_ busy late written spill
    have all : i = n := bound
    exact ⟨allocates, V', busy', same, fun _ => ⟨by omega, all ▸ written'⟩⟩
  | succ left ih =>
    unfold writeLoop at run
    by_cases here : i < D.length
    · obtain ⟨c, lookup, on⟩ := busy.on.lookup_mapped valid plain mapped cached (by omega)
        (List.getElem?_eq_getElem here)
      have member : D[i] ∈ D := List.getElem_mem here
      have below := (busy.fresh _ (open_.new member)).2.2
      have some := busy.ne_zero (open_.new member)
      have sector := blockSector_ne_zero valid.fits busy.on.root.log2 some below
      have next : i * g.bs + g.bs = (i + 1) * g.bs := by rw [Nat.add_mul, Nat.one_mul]
      have keeps : ∀ {V'}, (∀ x, x ∉ D → g.SameBlock V V' x) → g.Mapped V' inode D Q ∧ g.word V' 0 0 = 0 := by
        intro V' same
        refine ⟨mapped.congr (fun x inQ => same x (fun inD => apart inD inQ)) (fun _ _ => rfl), ?_⟩
        have boot := same 0 (fun inD => busy.ne_zero (open_.new inD) rfl)
        rw [← boot.word valid.perblock_pos, zero]
      obtain ⟨fs₁, state⟩ : ∃ fs₁ : Fs, fs₁ = { fs with caches := c } := ⟨_, rfl⟩
      have busy₁ : fs₁.Busy env g S A N V base := state ▸ { busy with on := on }
      have allocates₁ : fs.Allocates fs₁ := by
        rw [state]
        exact ⟨rfl, rfl, rfl, rfl, rfl, rfl, List.prefix_refl _, fun _ _ _ => rfl⟩
      rw [bind_of_run lookup, ← state] at run
      simp only [some, isNeg_of_lt valid.fits below, or_self, if_false, Bool.false_eq_true, get_bind] at run
      rw [busy₁.on.blksz, allocates₁.root, next, if_pos sector] at run
      have fresh : PutOff env g fs₁.root D (i + 1) i (.some ⟨blockSector env fs.root D[i], g.bs, i * g.bs,
          blockSector env fs.root D[i] + g.bs / env.devBlksz⟩) := by
        refine ⟨by omega, D[i], fun t small => ?_, by rw [allocates₁.root], ?_, rfl, ?_⟩
        · rw [show t = 0 by omega, Nat.add_zero, Nat.add_zero, List.getElem?_eq_getElem here]
        · rw [Nat.add_sub_cancel_left, Nat.one_mul]
        · rw [Nat.add_sub_cancel_left, Nat.one_mul, allocates₁.root]
      cases delayed with
      | none =>
        have same : m = i := late
        obtain ⟨allocates, V', busy', same', result⟩ := ih busy₁ mapped zero (by omega) here fresh (same ▸ written) run
        exact ⟨allocates₁.trans allocates, V', busy', same', result⟩
      | some d =>
        simp only [run_ite] at run
        split at run
        · next follows =>
          obtain ⟨more, b, blocks, start, extent, buf, nextSector⟩ := late
          have first : b < g.totalBlocks := (busy.fresh _ (open_.new (List.mem_of_getElem? (blocks 0 (by omega))))).2.2
          have adjacent : D[i] = b + (i - m) := by
            refine Nat.eq_of_mul_eq_mul_right (Geometry.bs_pos (g := g)) ?_
            rw [← blockSector_mul valid.fits busy.on.root.log2 below.le, ← follows, nextSector, Nat.add_mul, Nat.mul_assoc,
              Nat.div_mul_cancel valid.devBlksz_dvd_bs, blockSector_mul valid.fits busy.on.root.log2 first.le, Nat.add_mul]
          have late' : PutOff env g fs₁.root D (i + 1) m (.some { d with
              extent := d.extent + g.bs, next := d.next + g.bs / env.devBlksz }) := by
            have count : i + 1 - m = i - m + 1 := by omega
            refine ⟨by omega, b, fun t small => ?_, by rw [allocates₁.root, start], ?_, buf, ?_⟩
            · by_cases old : t < i - m
              · exact blocks t old
              · rw [show m + t = i by omega, List.getElem?_eq_getElem here, adjacent, show t = i - m by omega]
            · rw [count, Nat.add_mul, Nat.one_mul, extent]
            · rw [count, Nat.add_mul, Nat.one_mul, allocates₁.root, nextSector, Nat.add_assoc]
          obtain ⟨allocates, V', busy', same, result⟩ := ih busy₁ mapped zero (by omega) here late' written run
          exact ⟨allocates₁.trans allocates, V', busy', same, result⟩
        · obtain ⟨⟨⟩, fs₂, spill, run⟩ := bind_eq_some.mp run
          obtain ⟨allocates₂, -, V₂, busy₂, written₂, same₂⟩ := spillWrite_spec valid open_ busy₁
            (allocates₁.root ▸ late) written spill
          obtain ⟨mapped₂, zero₂⟩ := keeps same₂
          obtain ⟨allocates, V', busy', same, result⟩ := ih busy₂ mapped₂ zero₂ (by omega) here
            (allocates₂.root ▸ fresh) written₂ run
          exact ⟨allocates₁.trans (allocates₂.trans allocates), V', busy',
            fun x other => (same₂ x other).trans (same x other), result⟩
    · obtain ⟨c, lookup, on⟩ := busy.on.lookup_mapEnd valid plain (k := i)
        (by rw [show i = D.length by omega]; exact ends.resolve_left (by omega)) (by omega) boot zero
      rw [bind_of_run lookup] at run
      simp only [true_or, if_true] at run
      cases run
      exact ⟨⟨rfl, rfl, rfl, rfl, rfl, rfl, List.prefix_refl _, fun _ _ _ => rfl⟩, V, { busy with on := on }, fun x _ => .refl V x, nofun⟩

end Data

end UuuFastboot.Ext4
