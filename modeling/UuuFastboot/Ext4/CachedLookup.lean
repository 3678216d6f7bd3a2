import UuuFastboot.Ext4.Lookup

namespace UuuFastboot.Ext4

open Word Overlay Bytes

section

variable {env : Env} {g : Geometry} {root : Root}
variable {V card : Buf} {S : Nat → Prop} {c : Caches} {x : Nat}

def Indir.held (env : Env) (g : Geometry) (root : Root) (V : Buf) (x : Nat) : Indir :=
  ⟨g.bs, blockSector env root x, clip g.bs (g.blk V x)⟩

/-- A buffer holds the contents of the block it names, which is one of the
blocks in `S`. -/
def Indir.Ok (env : Env) (g : Geometry) (root : Root) (V : Buf) (S : Nat → Prop) (c : Indir) : Prop :=
  c.size = g.bs → c.blkno = minusOne ∨ ∃ x, S x ∧ x < g.totalBlocks ∧ c = Indir.held env g root V x

structure Caches.Ok (env : Env) (g : Geometry) (root : Root) (V : Buf) (S : Nat → Prop) (c : Caches) : Prop where
  indir1 : c.indir1.Ok env g root V S
  indir2 : c.indir2.Ok env g root V S
  indir3 : c.indir3.Ok env g root V S

theorem Indir.Ok.congr {V' : Buf} {c : Indir} (ok : c.Ok env g root V S)
    (same : ∀ x, S x → g.SameBlock V V' x) : c.Ok env g root V' S := by
  intro size
  rcases ok size with none | ⟨x, inS, below, held⟩
  · exact Or.inl none
  · refine Or.inr ⟨x, inS, below, ?_⟩
    rw [held, Indir.held, Indir.held, (same x inS).clip_eq]

theorem Indir.Ok.mono {T : Nat → Prop} {c : Indir} (ok : c.Ok env g root V S)
    (sub : ∀ x, S x → T x) : c.Ok env g root V T := by
  intro size
  rcases ok size with none | ⟨x, inS, below, held⟩
  · exact Or.inl none
  · exact Or.inr ⟨x, sub x inS, below, held⟩

theorem Caches.Ok.congr {V' : Buf} (ok : c.Ok env g root V S)
    (same : ∀ x, S x → g.SameBlock V V' x) : c.Ok env g root V' S :=
  ⟨ok.indir1.congr same, ok.indir2.congr same, ok.indir3.congr same⟩

theorem Caches.Ok.mono {T : Nat → Prop} (ok : c.Ok env g root V S)
    (sub : ∀ x, S x → T x) : c.Ok env g root V T :=
  ⟨ok.indir1.mono sub, ok.indir2.mono sub, ok.indir3.mono sub⟩

theorem Indir.Ok.of_held (inS : S x) (below : x < g.totalBlocks) :
    (Indir.held env g root V x).Ok env g root V S := fun _ => Or.inr ⟨x, inS, below, rfl⟩

theorem Indir.Ok.none (V : Buf) (S : Nat → Prop) : Indir.none.Ok env g root V S := fun _ => Or.inl rfl

theorem Caches.Ok.reinit (V : Buf) (S : Nat → Prop) : ext4fsReinitGlobal.Ok env g root V S :=
  ⟨Indir.Ok.none V S, Indir.Ok.none V S, Indir.Ok.none V S⟩

theorem Indir.entry_held {i : Nat} (below : i < g.perblock) :
    (Indir.held env g root V x).entry env i = g.word V x i := by
  unfold Geometry.perblock at below
  rw [Indir.entry, if_pos (by simpa [Indir.held] using below)]
  exact getLe32_clip (by omega)

/-- The cache of an extent lookup is empty or holds a block as it is. -/
def ExtCache.Ok (env : Env) (g : Geometry) (root : Root) (V : Buf) (cache : ExtCache) : Prop :=
  cache = none ∨ ∃ x < g.totalBlocks, cache = some (blockSector env root x, clip g.bs (g.blk V x))

section Sectors

variable (fits : g.Fits env) (log2 : root.log2BlockSize = g.log2bs)
include fits log2

theorem blockSector_inj {x y : Nat} (xBelow : x < g.totalBlocks) (yBelow : y < g.totalBlocks)
    (same : blockSector env root x = blockSector env root y) : x = y := by
  have xMul := blockSector_mul fits log2 xBelow.le
  have yMul := blockSector_mul fits log2 yBelow.le
  rw [same, yMul] at xMul
  exact (Nat.eq_of_mul_eq_mul_right Geometry.bs_pos xMul).symm

theorem blockSector_lt {x : Nat} (below : x < g.totalBlocks) : blockSector env root x < env.partSize := by
  have mul := blockSector_mul fits log2 below.le
  have limit := fits.inside
  have room : x * g.bs < g.totalBlocks * g.bs := (Nat.mul_lt_mul_right Geometry.bs_pos).mpr below
  exact Nat.lt_of_mul_lt_mul_right (a := env.devBlksz) (by omega)

theorem blockSector_ne_minusOne {x : Nat} (below : x < g.totalBlocks) : blockSector env root x ≠ minusOne := by
  have bound := blockSector_lt fits log2 below
  have addressed := fits.addressed
  unfold minusOne
  omega

theorem fsDevread_whole {b : Nat} (card : Buf) (below : b < g.totalBlocks) :
    fsDevread env card (blockSector env root b) 0 g.bs = some (clip g.bs (g.blk (env.volume card) b)) := by
  have last : (b + 1) * g.bs ≤ g.totalBlocks * g.bs := Nat.mul_le_mul_right _ below
  rw [Nat.add_mul, Nat.one_mul] at last
  exact fsDevread_block fits log2 card Geometry.bs_pos (by omega)

theorem extCacheRead_eq {card : Buf} {cache : ExtCache} {x : Nat} (ok : cache.Ok env g root (env.volume card))
    (below : x < g.totalBlocks) :
    extCacheRead env card root cache (blockSector env root x) =
      some (blockSector env root x, clip g.bs (g.blk (env.volume card) x)) := by
  have fetched : extCacheRead.fetch env card root (blockSector env root x) =
      some (blockSector env root x, clip g.bs (g.blk (env.volume card) x)) := by
    rw [extCacheRead.fetch, blockSize_of_log2 log2, fsDevread_whole fits log2 card below]
    rfl
  rcases ok with rfl | ⟨y, yBelow, rfl⟩
  · exact fetched
  · simp only [extCacheRead]
    split_ifs with cached
    · rw [blockSector_inj fits log2 yBelow below cached]
    · exact fetched

theorem ext4fsGetExtentBlock_eq {card : Buf} {k levels : Nat} {block leaf : Buf} {via : List Nat} {cache : ExtCache}
    (found : g.extentLeaf (env.volume card) k levels block = some (leaf, via))
    (ok : cache.Ok env g root (env.volume card)) :
    ∃ cache', ext4fsGetExtentBlock env card root k levels cache block = some (some leaf, cache') ∧
      cache'.Ok env g root (env.volume card) := by
  induction levels generalizing block leaf via cache with
  | zero => cases found
  | succ levels ih =>
    simp only [Geometry.extentLeaf] at found
    simp only [ext4fsGetExtentBlock]
    split_ifs at found ⊢ with magic flat outside
    · cases found
      exact ⟨cache, rfl, ok⟩
    · obtain ⟨⟨leaf', via'⟩, further, e⟩ := Option.map_eq_some_iff.mp found
      cases e
      have inside := Nat.lt_of_not_le outside
      simp only [extCacheRead_eq fits log2 ok inside]
      exact ih further (Or.inr ⟨_, inside, rfl⟩)

end Sectors

variable (valid : g.Valid env) (has : root.Has g)
include valid has

theorem Indir.load_eq {c : Indir}
    (ok : c.Ok env g root (env.volume card) S) (below : x < g.totalBlocks) :
    c.load env card root x x = (true, Indir.held env g root (env.volume card) x) := by
  have read := fsDevread_whole valid.fits has.log2 card below
  simp only [Indir.load, Indir.prepare, has.blockSize]
  by_cases size : c.size = g.bs
  · rw [if_pos size]
    split_ifs with cached
    · rcases ok size with none | ⟨y, _, yBelow, held⟩
      · exact absurd (cached.trans none) (blockSector_ne_minusOne valid.fits has.log2 below)
      · have same : x = y := blockSector_inj valid.fits has.log2 below yBelow (by rw [cached, held, Indir.held])
        rw [held, same]
    · simp only [read]
      rfl
  · rw [if_neg size, if_neg (blockSector_ne_minusOne valid.fits has.log2 below)]
    simp only [read]
    rfl

theorem readIndirect_eq {inode : Buf} {k start b : Nat} {is via : List Nat}
    (ok : c.Ok env g root (env.volume card) S) (behind : indirectBlocks ≤ k) (below : k < g.limit)
    (at_ : g.pointers inode k = some (start, is)) (found : g.follow (env.volume card) start is = some (b, via))
    (full : via.length = g.depth k) (safe : ∀ x ∈ via, S x) :
    ∃ c', readIndirect env card root inode k c = (b, c') ∧ c'.Ok env g root (env.volume card) S := by
  obtain ⟨small, count⟩ := Geometry.pointers_small at_
  rw [← count] at full
  simp only [Geometry.pointers] at at_
  simp only [readIndirect, readIndirectWith, has.blockSize, show g.bs / 4 = g.perblock from rfl, Nat.mul_add, Nat.mul_one]
  split_ifs at at_ with direct single double triple
  · omega
  · cases at_
    obtain ⟨_, first, rest, rfl, last, _⟩ := Geometry.follow_cons found full
    cases last
    rw [if_pos single, Indir.load_eq valid has ok.indir1 first]
    simp only [if_true, Indir.entry_held (small _ List.mem_cons_self)]
    exact ⟨_, rfl, Indir.Ok.of_held (safe _ List.mem_cons_self) first, ok.indir2, ok.indir3⟩
  · cases at_
    obtain ⟨_, first, rest, rfl, further, length⟩ := Geometry.follow_cons found full
    obtain ⟨_, second, rest', rfl, last, _⟩ := Geometry.follow_cons further length
    cases last
    simp only [List.mem_cons, List.not_mem_nil, or_false, forall_eq_or_imp, forall_eq] at small safe
    rw [if_neg single, if_pos (by omega), Indir.load_eq valid has ok.indir1 first]
    simp only [if_true, Indir.entry_held small.1, Indir.load_eq valid has ok.indir2 second,
      Indir.entry_held small.2]
    exact ⟨_, rfl, Indir.Ok.of_held safe.1 first, Indir.Ok.of_held safe.2 second, ok.indir3⟩
  · cases at_
    obtain ⟨_, first, rest, rfl, further, length⟩ := Geometry.follow_cons found full
    obtain ⟨_, second, rest', rfl, further', length'⟩ := Geometry.follow_cons further length
    obtain ⟨_, third, rest'', rfl, last, _⟩ := Geometry.follow_cons further' length'
    cases last
    simp only [List.mem_cons, List.not_mem_nil, or_false, forall_eq_or_imp, forall_eq] at small safe
    -- below the limit the index is in range although it is not reduced
    have reduced : (k - (indirectBlocks + g.perblock + g.perblock * g.perblock)) / g.perblock % g.perblock =
        (k - (indirectBlocks + g.perblock + g.perblock * g.perblock)) / g.perblock := by
      refine Nat.mod_eq_of_lt (Nat.div_lt_of_lt_mul ?_)
      unfold Geometry.limit at below
      omega
    simp only [reduced] at small third safe ⊢
    rw [if_neg single, if_neg (by omega), Indir.load_eq valid has ok.indir1 first]
    simp only [if_true, Indir.entry_held small.1, Indir.load_eq valid has ok.indir2 second,
      Indir.entry_held small.2.1, Indir.load_eq valid has ok.indir3 third, Indir.entry_held small.2.2]
    exact ⟨_, rfl, Indir.Ok.of_held safe.1 first, Indir.Ok.of_held safe.2.1 second, Indir.Ok.of_held safe.2.2 third⟩

theorem readAllocatedBlock_eq {inode : Buf} {cache : ExtCache} {k b : Nat}
    {via : List Nat} (found : g.Found env.levels (env.volume card) inode k b via)
    (cacheOk : cache.Ok env g root (env.volume card)) (ok : c.Ok env g root (env.volume card) S)
    (safe : ∀ x ∈ via, S x) :
    ∃ cache' c', readAllocatedBlock env card root inode k cache c = some (b, cache', c') ∧
      cache'.Ok env g root (env.volume card) ∧ c'.Ok env g root (env.volume card) S := by
  obtain ⟨lookup, complete, range, small⟩ := found
  have positive : isNeg k = false := decide_eq_false (by omega)
  unfold readAllocatedBlock
  unfold Geometry.lookup at lookup
  split_ifs at lookup ⊢ with extents direct
  · obtain ⟨⟨leaf, via'⟩, leafAt, e⟩ := Option.map_eq_some_iff.mp lookup
    cases e
    obtain ⟨cache', run, cacheOk'⟩ := ext4fsGetExtentBlock_eq valid.fits has.log2 leafAt cacheOk
    refine ⟨cache', c, ?_, cacheOk', ok⟩
    rw [readExtent, run]
    rfl
  · have near : k < indirectBlocks := by simpa [positive] using direct
    rw [Geometry.pointers, if_pos near] at lookup
    cases lookup
    have word : Inode.dirBlocks + 4 * k < 2 ^ 32 := by
      unfold Inode.dirBlocks indirectBlocks at *
      omega
    refine ⟨cache, c, ?_, cacheOk, ok⟩
    rw [w32_of_lt word]
  · have far : indirectBlocks ≤ k := by simpa [positive] using direct
    obtain ⟨⟨start, is⟩, at_, followed⟩ := Option.bind_eq_some_iff.mp lookup
    obtain ⟨c', run, ok'⟩ := readIndirect_eq valid has ok far (range.resolve_left extents) at_ followed
      (complete.resolve_left extents) safe
    refine ⟨cache, c', ?_, cacheOk, ok'⟩
    rw [run]

end

end UuuFastboot.Ext4
