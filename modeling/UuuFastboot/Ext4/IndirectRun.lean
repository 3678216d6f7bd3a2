import UuuFastboot.Ext4.CachedLookup

namespace UuuFastboot.Ext4

open Word Overlay Bytes

/-- A block is read into a buffer, by a device that may fail: the buffer then holds what the failed transfer has left
there, and still has the number of the block it held before. A request outside the partition does not reach the
device. -/
def Indir.loadFaulty (env : Env) (card : Buf) (root : Root) (fault : Option Buf) (c : Indir) (test block : Nat) :
    Bool × Indir :=
  let c := c.prepare root.blockSize
  if blockSector env root test = c.blkno then (true, c)
  else
    match fsDevread env card (blockSector env root block) 0 root.blockSize with
    | .none => (false, c)
    | some buf =>
      match fault with
      | some junk => (false, { c with buf := junk })
      | .none => (true, ⟨root.blockSize, blockSector env root block, buf⟩)

theorem Indir.loadFaulty_none (env : Env) (card : Buf) (root : Root) (c : Indir) (test block : Nat) :
    c.loadFaulty env card root .none test block = c.load env card root test block := rfl

/-- `read_allocated_block` for an inode without extents; `faults` says at which of the three buffers a read of this
call fails, and what it leaves there. -/
def readMapped (env : Env) (card : Buf) (root : Root) (faults : Nat → Option Buf) (inode : Buf) (fileblock : Nat)
    (c : Caches) : Nat × Caches :=
  if fileblock < indirectBlocks then (getLe32 inode (Inode.dirBlocks + 4 * fileblock), c)
  else readIndirectWith env root (fun level => Indir.loadFaulty env card root (faults level)) inode fileblock c

theorem readAllocatedBlock_eq_readMapped {env : Env} {card inode : Buf} {root : Root} {cache : ExtCache} {c : Caches}
    {k : Nat} (plain : Inode.usesExtents inode = false) (small : k < 2 ^ 31) :
    readAllocatedBlock env card root inode k cache c =
      some ((readMapped env card root (fun _ => none) inode k c).1, cache,
        (readMapped env card root (fun _ => none) inode k c).2) := by
  have positive : isNeg k = false := decide_eq_false (by omega)
  rw [readAllocatedBlock, if_neg (by simp [plain]), readMapped]
  by_cases direct : k < indirectBlocks
  · have word : Inode.dirBlocks + 4 * k < 2 ^ 32 := by
      unfold Inode.dirBlocks indirectBlocks at *
      omega
    rw [if_pos (by simp [direct]), if_pos direct, w32_of_lt word]
  · rw [if_neg (by simp [direct, positive]), if_neg direct]
    rfl

/-- The entries of the buffers that the branch for `fileblock` indexes. -/
def indirectIndices (perblock fileblock : Nat) : List Nat :=
  if fileblock < indirectBlocks then []
  else if fileblock < indirectBlocks + perblock then [fileblock - indirectBlocks]
  else if fileblock < indirectBlocks + perblock * (perblock + 1) then
    let rblock := fileblock - (indirectBlocks + perblock)
    [rblock / perblock, rblock % perblock]
  else
    let rblock := fileblock - (indirectBlocks + perblock + perblock * perblock)
    [rblock / (perblock * perblock), rblock / perblock, rblock / perblock % perblock, rblock % perblock]

inductive MapEvent where
  | lookup (inode : Buf) (fileblock : Nat) (faults : Nat → Option Buf)
  | change (card : Buf)

structure MapState where
  card : Buf
  caches : Caches

def MapState.step (env : Env) (root : Root) (s : MapState) : MapEvent → MapState
  | .lookup inode k faults => { s with caches := (readMapped env s.card root faults inode k s.caches).2 }
  | .change card => { s with card := card }

def MapState.run (env : Env) (root : Root) (s : MapState) (events : List MapEvent) : MapState :=
  events.foldl (MapState.step env root) s

def Caches.level (c : Caches) : Nat → Indir
  | 0 => c.indir1
  | 1 => c.indir2
  | _ => c.indir3

def Caches.set (c : Caches) : Nat → Indir → Caches
  | 0, d => { c with indir1 := d }
  | 1, d => { c with indir2 := d }
  | _, d => { c with indir3 := d }

/-- The three cases of the lookup are one descent along the pointers. -/
def descend (env : Env) (load : Nat → Indir → Nat → Nat → Bool × Indir) : Nat → Nat → List Nat → Caches → Nat × Caches
  | _, b, [], c => (b, c)
  | level, b, i :: is, c =>
    let r := load level (c.level level) b b
    if r.1 then descend env load (level + 1) (r.2.entry env i) is (c.set level r.2) else (minusOne, c.set level r.2)

theorem readIndirectWith_eq_descend {env : Env} {g : Geometry} {root : Root} (size : root.blockSize = g.bs)
    (load : Nat → Indir → Nat → Nat → Bool × Indir) {inode : Buf} {k b : Nat} {is : List Nat} (c : Caches)
    (behind : indirectBlocks ≤ k) (below : k < g.limit) (start : g.pointers inode k = some (b, is)) :
    readIndirectWith env root load inode k c = descend env load 0 b is c := by
  have unit : root.blockSize / 4 = g.perblock := by rw [size, Geometry.perblock]
  simp only [Geometry.pointers] at start
  simp only [readIndirectWith, unit, Nat.mul_add, Nat.mul_one]
  split_ifs at start with direct single double triple
  · omega
  · cases start
    rw [if_pos single]
    simp only [descend, Caches.level]
    rfl
  · cases start
    rw [if_neg single, if_pos (by omega)]
    simp only [descend, Caches.level]
    rfl
  · cases start
    -- below the limit the index for the test is in range although it is not reduced
    have reduced : (k - (indirectBlocks + g.perblock + g.perblock * g.perblock)) / g.perblock % g.perblock =
        (k - (indirectBlocks + g.perblock + g.perblock * g.perblock)) / g.perblock := by
      refine Nat.mod_eq_of_lt (Nat.div_lt_of_lt_mul ?_)
      unfold Geometry.limit at below
      omega
    rw [if_neg single, if_neg (by omega), reduced]
    simp only [descend, Caches.level]
    rfl

/-- What a history tells of the buffer of each level: the block that was read last, and whether a read that failed
has spoilt the buffer since. -/
abbrev Tags := Nat → Option (Nat × Bool)

/-- As `ext4fs_reinit_global` leaves them. -/
def noTags : Tags := fun _ => none

namespace Geometry

variable (g : Geometry) (env : Env)

def Readable (b : Nat) : Prop := (b + 1) * g.bs ≤ env.partSize * env.devBlksz

instance (b : Nat) : Decidable (g.Readable env b) := inferInstanceAs (Decidable (_ ≤ _))

/-- The number of a block's first sector is one of 32 bits. -/
def Addressable (b : Nat) : Prop := b * 2 ^ (g.log2bs - env.log2blksz) < 2 ^ 32

instance (b : Nat) : Decidable (g.Addressable env b) := inferInstanceAs (Decidable (_ < _))

/-- The buffers after a lookup along pointers from `b` on, as far as it may go: no pointer on the way is zero or has
a sector number of more than 32 bits, and no buffer is taken for a block that a failed read has spoilt. -/
def admits (V : Buf) (faults : Nat → Option Buf) : Nat → Nat → List Nat → Tags → Option Tags
  | _, _, [], t => some t
  | level, b, i :: is, t =>
    if b = 0 ∨ ¬ g.Addressable env b ∨ t level = some (b, true) then none
    else if t level = some (b, false) then admits V faults (level + 1) (g.word V b i) is t
    else if ¬ g.Readable env b then some t
    else if (faults level).isSome then some (Function.update t level ((t level).map (fun held => (held.1, true))))
    else admits V faults (level + 1) (g.word V b i) is (Function.update t level (some (b, false)))

/-- The buffers after a lookup of a block of a file, behind which the index for the third buffer is out of range. -/
def admitsLookup (V inode : Buf) (k : Nat) (faults : Nat → Option Buf) (t : Tags) : Option Tags :=
  if k < indirectBlocks then some t
  else if k < g.limit then (g.pointers inode k).bind (fun start => g.admits env V faults 0 start.1 start.2 t)
  else none

/-- A history in which each lookup may go on to its end and no block that a buffer holds is changed. -/
inductive Fair : Buf → Tags → List MapEvent → Prop
  | nil {card : Buf} {t : Tags} : Fair card t []
  | lookup {card inode : Buf} {k : Nat} {faults : Nat → Option Buf} {t t' : Tags} {rest : List MapEvent} :
    g.admitsLookup env (env.volume card) inode k faults t = some t' → Fair card t' rest →
      Fair card t (.lookup inode k faults :: rest)
  | change {card card' : Buf} {t : Tags} {rest : List MapEvent} :
    (∀ level x, t level = some (x, false) → g.SameBlock (env.volume card) (env.volume card') x) →
      Fair card' t rest → Fair card t (.change card' :: rest)

/-- The answer to a lookup is the block of the block map, or the error where the read of a block of pointers on the
way to it fails. -/
def Answers (V inode : Buf) (k : Nat) (faults : Nat → Option Buf) (r : Nat) : Prop :=
  r = (g.blockMap V inode k).1 ∨ r = minusOne ∧ ∃ level x, (g.blockMap V inode k).2[level]? = some x ∧
    (¬ g.Readable env x ∨ (faults level).isSome = true)

end Geometry

def Indir.Tagged (env : Env) (g : Geometry) (root : Root) (V : Buf) (c : Indir) : Option (Nat × Bool) → Prop
  | .none => c.size = g.bs → c.blkno = minusOne
  | some (x, spoilt) => c.size = g.bs ∧ c.blkno = blockSector env root x ∧ g.Addressable env x ∧
      (spoilt = false → c.buf = clip g.bs (g.blk V x))

section Buffers

variable {env : Env} {g : Geometry} {root : Root} {card : Buf} {c : Indir} {b : Nat} (sized : g.Sized env)
  (narrow : env.log2blksz ≤ 9) (log2 : root.log2BlockSize = g.log2bs)
include sized narrow log2

omit sized narrow in
theorem blockSector_of_addressable (small : g.Addressable env b) :
    blockSector env root b = b * 2 ^ (g.log2bs - env.log2blksz) := by
  rw [blockSector, log2FsBlocksize, log2]
  exact w32_of_lt small

omit sized narrow in
theorem blockSector_inj_of_addressable {x : Nat} (small : g.Addressable env b) (small' : g.Addressable env x)
    (same : blockSector env root b = blockSector env root x) : b = x := by
  rw [blockSector_of_addressable log2 small, blockSector_of_addressable log2 small'] at same
  exact Nat.eq_of_mul_eq_mul_right (Nat.two_pow_pos _) same

theorem blockSector_ne_of_addressable (small : g.Addressable env b) : blockSector env root b ≠ minusOne := by
  have more : g.log2bs - env.log2blksz = g.log2bs - env.log2blksz - 1 + 1 := by
    have := sized.log2.1
    omega
  rw [blockSector_of_addressable log2 small, more, Nat.pow_succ, ← Nat.mul_assoc]
  unfold minusOne
  omega

theorem fsDevread_addressable (card : Buf) (small : g.Addressable env b) :
    fsDevread env card (blockSector env root b) 0 g.bs =
      if g.Readable env b then some (clip g.bs (g.blk (env.volume card) b)) else none := by
  have bs_eq : g.bs = 2 ^ (g.log2bs - env.log2blksz) * env.devBlksz := by
    rw [Geometry.bs, Env.devBlksz, ← Nat.pow_add, Nat.sub_add_cancel sized.sector]
  have wraps : 2 ^ 32 = 2 ^ (32 - (g.log2bs - env.log2blksz)) * 2 ^ (g.log2bs - env.log2blksz) := by
    have := sized.log2.2
    rw [← Nat.pow_add, Nat.sub_add_cancel (by omega)]
  have sector : blockSector env root b = _ := blockSector_of_addressable log2 small
  have positive := Nat.two_pow_pos (g.log2bs - env.log2blksz)
  have device := env.devBlksz_pos
  unfold Geometry.Addressable at small
  generalize 2 ^ (g.log2bs - env.log2blksz) = m at bs_eq wraps sector small positive
  have fits : (b + 1) * m ≤ 2 ^ 32 := by
    rw [wraps] at small ⊢
    exact Nat.mul_le_mul_right _ (Nat.lt_of_mul_lt_mul_right small)
  have last : (0 + g.bs - 1) / env.devBlksz = m - 1 := by
    have less : (m - 1) * env.devBlksz + env.devBlksz = m * env.devBlksz := by
      rw [← Nat.succ_mul, Nat.succ_eq_add_one, Nat.sub_add_cancel positive]
    exact Nat.div_eq_of_lt_le (by omega) (by rw [Nat.sub_add_cancel positive]; omega)
  have inside : g.Readable env b ↔ (b + 1) * m ≤ env.partSize := by
    rw [Geometry.Readable, bs_eq, ← Nat.mul_assoc]
    exact Nat.mul_le_mul_right_iff device
  rw [Nat.succ_mul] at fits inside
  have reached : lastSector env (blockSector env root b) 0 g.bs = b * m + (m - 1) := by
    rw [lastSector, if_neg (by have := Geometry.bs_pos (g := g); omega), last, sector, w32_of_lt (by omega)]
  rw [fsDevread_eq, reached]
  by_cases readable : g.Readable env b
  · have := inside.mp readable
    rw [if_neg (by omega), if_pos readable, sector, Geometry.blk, bs_eq, Nat.add_zero, Nat.mul_assoc]
  · have := mt inside.mpr readable
    rw [if_pos (by omega), if_neg readable]

omit sized narrow log2 in
theorem Indir.prepare_tagged {V : Buf} {tag : Option (Nat × Bool)} (tagged : c.Tagged env g root V tag) :
    (c.prepare g.bs).Tagged env g root V tag ∧ (c.prepare g.bs).size = g.bs := by
  by_cases size : c.size = g.bs
  · rw [Indir.prepare, if_pos size]
    exact ⟨tagged, size⟩
  · rw [Indir.prepare, if_neg size]
    cases tag with
    | none => exact ⟨fun _ => rfl, rfl⟩
    | some held => exact absurd tagged.1 size

omit sized narrow in
theorem Indir.loadFaulty_hit (fault : Option Buf)
    (tagged : c.Tagged env g root (env.volume card) (some (b, false))) :
    c.loadFaulty env card root fault b b = (true, Indir.held env g root (env.volume card) b) := by
  obtain ⟨size, named, -, sound⟩ := tagged
  simp only [Indir.loadFaulty, Indir.prepare, blockSize_of_log2 log2, if_pos size, if_pos named.symm]
  rw [Indir.held, ← size, ← named, size, ← sound rfl, ← size]

variable {tag : Option (Nat × Bool)} (fault : Option Buf) (tagged : c.Tagged env g root (env.volume card) tag)
  (small : g.Addressable env b) (other : ∀ spoilt, tag ≠ some (b, spoilt))
include tagged small other

theorem Indir.prepare_ne : blockSector env root b ≠ (c.prepare g.bs).blkno := by
  obtain ⟨tagged', size⟩ := Indir.prepare_tagged tagged
  intro same
  match tag with
  | .none => exact blockSector_ne_of_addressable sized narrow log2 small (same.trans (tagged' size))
  | some (x, spoilt) =>
    obtain ⟨-, named, small', -⟩ := tagged'
    have here := blockSector_inj_of_addressable log2 small small' (same.trans named)
    exact other spoilt (by rw [here])

theorem Indir.loadFaulty_outside (outside : ¬ g.Readable env b) :
    ∃ d, c.loadFaulty env card root fault b b = (false, d) ∧ d.Tagged env g root (env.volume card) tag := by
  have missed := Indir.prepare_ne sized narrow log2 tagged small other
  have read := fsDevread_addressable sized narrow log2 card small
  rw [if_neg outside] at read
  refine ⟨c.prepare g.bs, ?_, (Indir.prepare_tagged tagged).1⟩
  simp only [Indir.loadFaulty, blockSize_of_log2 log2, if_neg missed, read]

theorem Indir.loadFaulty_failed (readable : g.Readable env b) (fails : fault.isSome = true) :
    ∃ d, c.loadFaulty env card root fault b b = (false, d) ∧
      d.Tagged env g root (env.volume card) (tag.map (fun held => (held.1, true))) := by
  have missed := Indir.prepare_ne sized narrow log2 tagged small other
  have read := fsDevread_addressable sized narrow log2 card small
  rw [if_pos readable] at read
  obtain ⟨junk, rfl⟩ := Option.isSome_iff_exists.mp fails
  refine ⟨{ c.prepare g.bs with buf := junk }, ?_, ?_⟩
  · simp only [Indir.loadFaulty, blockSize_of_log2 log2, if_neg missed, read]
  · have prepared := (Indir.prepare_tagged tagged).1
    match tag with
    | .none => exact prepared
    | some (x, spoilt) => exact ⟨prepared.1, prepared.2.1, prepared.2.2.1, nofun⟩

theorem Indir.loadFaulty_read (readable : g.Readable env b) (fine : fault = .none) :
    c.loadFaulty env card root fault b b = (true, Indir.held env g root (env.volume card) b) := by
  have missed := Indir.prepare_ne sized narrow log2 tagged small other
  have read := fsDevread_addressable sized narrow log2 card small
  rw [if_pos readable] at read
  simp only [Indir.loadFaulty, blockSize_of_log2 log2, if_neg missed, read, fine]
  rfl

end Buffers

theorem Caches.level_set (c : Caches) {level other : Nat} (d : Indir) (low : level < 3) (low' : other < 3) :
    (c.set level d).level other = if other = level then d else c.level other := by
  have levels : ∀ n, n < 3 → n = 0 ∨ n = 1 ∨ n = 2 := by omega
  rcases levels level low with rfl | rfl | rfl <;> rcases levels other low' with rfl | rfl | rfl <;> rfl

def Caches.Tagged (env : Env) (g : Geometry) (root : Root) (V : Buf) (c : Caches) (t : Tags) : Prop :=
  ∀ level < 3, (c.level level).Tagged env g root V (t level)

theorem Caches.Tagged.set {env : Env} {g : Geometry} {root : Root} {V : Buf} {c : Caches} {t : Tags}
    (tagged : c.Tagged env g root V t) {level : Nat} {d : Indir} {tag : Option (Nat × Bool)} (low : level < 3)
    (one : d.Tagged env g root V tag) : (c.set level d).Tagged env g root V (Function.update t level tag) := by
  intro other low'
  rw [c.level_set d low low']
  by_cases same : other = level
  · rw [if_pos same, same, Function.update_self]
    exact one
  · rw [if_neg same, Function.update_of_ne same]
    exact tagged other low'

theorem Geometry.admits_cons {g : Geometry} {env : Env} {V : Buf} {faults : Nat → Option Buf} {level b i : Nat}
    {is : List Nat} {t t' : Tags} (admitted : g.admits env V faults level b (i :: is) t = some t') :
    b ≠ 0 ∧ g.Addressable env b ∧
      (t level = some (b, false) ∧ g.admits env V faults (level + 1) (g.word V b i) is t = some t' ∨
        (∀ spoilt, t level ≠ some (b, spoilt)) ∧
          (¬ g.Readable env b ∧ t' = t ∨
            g.Readable env b ∧ (faults level).isSome = true ∧
              t' = Function.update t level ((t level).map (fun held => (held.1, true))) ∨
            g.Readable env b ∧ faults level = none ∧
              g.admits env V faults (level + 1) (g.word V b i) is (Function.update t level (some (b, false))) =
                some t')) := by
  simp only [Geometry.admits] at admitted
  split at admitted
  · cases admitted
  · next barred =>
    rw [not_or, not_or, not_not] at barred
    refine ⟨barred.1, barred.2.1, ?_⟩
    split at admitted
    · next held => exact Or.inl ⟨held, admitted⟩
    · next missed =>
      refine Or.inr ⟨fun spoilt => by cases spoilt; exact missed; exact barred.2.2, ?_⟩
      split at admitted
      · next outside => exact Or.inl ⟨outside, (Option.some.inj admitted).symm⟩
      · next readable =>
        rw [not_not] at readable
        split at admitted
        · next fails => exact Or.inr (Or.inl ⟨readable, fails, (Option.some.inj admitted).symm⟩)
        · next fine =>
          exact Or.inr (Or.inr ⟨readable, by simpa using fine, admitted⟩)

section Lookups

variable (env : Env) (g : Geometry) (root : Root) (card : Buf) (faults : Nat → Option Buf)

/-- The descent through the buffers from block `b` on finds what the pointers lead to, or gives the error where a
block on the way cannot be read, and leaves the buffers as `t` tells. -/
def Descends (level b : Nat) (is : List Nat) (c : Caches) (t : Tags) : Prop :=
  ∃ r c', descend env (fun level => Indir.loadFaulty env card root (faults level)) level b is c = (r, c') ∧
    c'.Tagged env g root (env.volume card) t ∧
    (r = (g.chase (env.volume card) b is).1 ∨
      r = minusOne ∧ ∃ j x, (g.chase (env.volume card) b is).2[j]? = some x ∧
        (¬ g.Readable env x ∨ (faults (level + j)).isSome = true))

variable {env g root card faults}

theorem Descends.of_held {level b i : Nat} {is : List Nat} {c : Caches} {t : Tags} (some : b ≠ 0) (below : i < g.perblock)
    (loaded : (c.level level).loadFaulty env card root (faults level) b b =
      (true, Indir.held env g root (env.volume card) b))
    (rest : Descends env g root card faults (level + 1) (g.word (env.volume card) b i) is
      (c.set level (Indir.held env g root (env.volume card) b)) t) :
    Descends env g root card faults level b (i :: is) c t := by
  obtain ⟨r, c', run, tagged, answer⟩ := rest
  refine ⟨r, c', ?_, tagged, ?_⟩
  · simp only [descend, loaded, if_true, Indir.entry_held below, run]
  · simp only [Geometry.chase, if_neg some]
    refine answer.imp_right ?_
    rintro ⟨error, j, x, passed, why⟩
    exact ⟨error, j + 1, x, passed, by rwa [← Nat.add_assoc, Nat.add_right_comm]⟩

theorem Descends.of_error {level b i : Nat} {is : List Nat} {c : Caches} {t : Tags} {d : Indir} (some : b ≠ 0)
    (failed : (c.level level).loadFaulty env card root (faults level) b b = (false, d))
    (why : ¬ g.Readable env b ∨ (faults level).isSome = true)
    (tagged : (c.set level d).Tagged env g root (env.volume card) t) :
    Descends env g root card faults level b (i :: is) c t := by
  refine ⟨minusOne, c.set level d, ?_, tagged, Or.inr ⟨rfl, 0, b, ?_, why⟩⟩
  · simp only [descend, failed]
    rfl
  · simp only [Geometry.chase, if_neg some, List.getElem?_cons_zero]

theorem Indir.held_tagged {V : Buf} {x : Nat} (small : g.Addressable env x) :
    (Indir.held env g root V x).Tagged env g root V (some (x, false)) := ⟨rfl, rfl, small, fun _ => rfl⟩

variable (sized : g.Sized env) (narrow : env.log2blksz ≤ 9) (log2 : root.log2BlockSize = g.log2bs)
include sized narrow log2

theorem descend_admits {level b : Nat} {is : List Nat} {t t' : Tags} {c : Caches} (room : level + is.length ≤ 3)
    (small : ∀ i ∈ is, i < g.perblock) (tagged : c.Tagged env g root (env.volume card) t)
    (admitted : g.admits env (env.volume card) faults level b is t = some t') :
    Descends env g root card faults level b is c t' := by
  induction is generalizing level b t c with
  | nil =>
    cases admitted
    exact ⟨b, c, rfl, tagged, Or.inl rfl⟩
  | cons i is ih =>
    rw [List.length_cons] at room
    have low : level < 3 := by omega
    have here := tagged level low
    have below := small i List.mem_cons_self
    have further {t₁ : Tags} {c₁ : Caches} (tagged₁ : c₁.Tagged env g root (env.volume card) t₁)
        (rest : g.admits env (env.volume card) faults (level + 1) (g.word (env.volume card) b i) is t₁ = some t') :=
      ih (by omega) (fun j member => small j (List.mem_cons_of_mem _ member)) tagged₁ rest
    obtain ⟨some, addressable, ⟨held, rest⟩ | ⟨other, cases_⟩⟩ := Geometry.admits_cons admitted
    · rw [held] at here
      refine .of_held some below (Indir.loadFaulty_hit log2 _ here) (further ?_ rest)
      have held' : (Indir.held env g root (env.volume card) b).Tagged env g root (env.volume card) (t level) := by
        rw [held]
        exact Indir.held_tagged addressable
      have kept := tagged.set low held'
      rwa [Function.update_eq_self] at kept
    · rcases cases_ with ⟨outside, rfl⟩ | ⟨readable, fails, rfl⟩ | ⟨readable, fine, rest⟩
      · obtain ⟨d, load, tagged'⟩ :=
          Indir.loadFaulty_outside sized narrow log2 (faults level) here addressable other outside
        have kept := tagged.set low tagged'
        rw [Function.update_eq_self] at kept
        exact .of_error some load (Or.inl outside) kept
      · obtain ⟨d, load, tagged'⟩ :=
          Indir.loadFaulty_failed sized narrow log2 (faults level) here addressable other readable fails
        exact .of_error some load (Or.inr fails) (tagged.set low tagged')
      · refine .of_held some below
          (Indir.loadFaulty_read sized narrow log2 (faults level) here addressable other readable fine)
          (further (tagged.set low (Indir.held_tagged addressable)) rest)

omit narrow log2 in
theorem indirectIndices_lt {k : Nat} (below : k < g.limit) : ∀ i ∈ indirectIndices g.perblock k, i < g.perblock := by
  have positive := sized.perblock_pos
  unfold Geometry.limit at below
  simp only [indirectIndices, Nat.mul_add, Nat.mul_one]
  split_ifs with direct single double
  · simp
  · simp only [List.mem_singleton, forall_eq]
    omega
  · have first : (k - (indirectBlocks + g.perblock)) / g.perblock < g.perblock := Nat.div_lt_of_lt_mul (by omega)
    simpa using ⟨first, Nat.mod_lt _ positive⟩
  · have second : (k - (indirectBlocks + g.perblock + g.perblock * g.perblock)) / g.perblock < g.perblock :=
      Nat.div_lt_of_lt_mul (by omega)
    have first : (k - (indirectBlocks + g.perblock + g.perblock * g.perblock)) / (g.perblock * g.perblock) <
        g.perblock := by rwa [Nat.div_eq_of_lt (by omega)]
    simpa using ⟨first, second, Nat.mod_lt _ positive, Nat.mod_lt _ positive⟩

theorem readMapped_answers {inode : Buf} {k : Nat} {t t' : Tags} {c : Caches}
    (tagged : c.Tagged env g root (env.volume card) t)
    (admitted : g.admitsLookup env (env.volume card) inode k faults t = some t') :
    (readMapped env card root faults inode k c).2.Tagged env g root (env.volume card) t' ∧
      g.Answers env (env.volume card) inode k faults (readMapped env card root faults inode k c).1 ∧
      ∀ i ∈ indirectIndices g.perblock k, i < g.perblock := by
  unfold Geometry.admitsLookup at admitted
  unfold readMapped
  by_cases direct : k < indirectBlocks
  · rw [if_pos direct] at admitted ⊢
    cases admitted
    refine ⟨tagged, Or.inl ?_, by simp [indirectIndices, direct]⟩
    rw [Geometry.blockMap, Geometry.pointers, if_pos direct]
    rfl
  · rw [if_neg direct] at admitted ⊢
    by_cases below : k < g.limit
    · rw [if_pos below] at admitted
      obtain ⟨⟨b, is⟩, start, walk⟩ := Option.bind_eq_some_iff.mp admitted
      obtain ⟨small, length⟩ := Geometry.pointers_small start
      have levels : g.depth k ≤ 3 := by
        simp only [Geometry.depth]
        split_ifs <;> omega
      obtain ⟨r, c', run, tagged', answer⟩ := descend_admits sized narrow log2 (by omega) small tagged walk
      rw [readIndirectWith_eq_descend (blockSize_of_log2 log2) _ c (by omega) below start, run]
      refine ⟨tagged', ?_, indirectIndices_lt sized below⟩
      have map : g.blockMap (env.volume card) inode k = g.chase (env.volume card) b is := by
        rw [Geometry.blockMap, start]
      simpa only [Geometry.Answers, map, Nat.zero_add] using answer
    · rw [if_neg below] at admitted
      cases admitted

theorem Fair.run {done rest : List MapEvent} {t : Tags} {s : MapState}
    (tagged : s.caches.Tagged env g root (env.volume s.card) t) (fair : g.Fair env s.card t (done ++ rest)) :
    ∃ t', (s.run env root done).caches.Tagged env g root (env.volume (s.run env root done).card) t' ∧
      g.Fair env (s.run env root done).card t' rest := by
  induction done generalizing s t with
  | nil => exact ⟨t, tagged, fair⟩
  | cons e done ih =>
    cases fair with
    | lookup admitted fair =>
      exact ih (s := s.step env root _) (readMapped_answers sized narrow log2 tagged admitted).1 fair
    | change same fair =>
      refine ih (s := s.step env root _) (fun level low => ?_) fair
      have here := tagged level low
      cases tag : t level with
      | none =>
        rw [tag] at here
        exact here
      | some held =>
        obtain ⟨x, spoilt⟩ := held
        rw [tag] at here
        refine ⟨here.1, here.2.1, here.2.2.1, fun sound => ?_⟩
        rw [sound] at tag
        exact (here.2.2.2 sound).trans (same level x tag).clip_eq

/-- Over every history since `ext4fs_reinit_global` that is fair, of lookups in any files with reads that succeed or
fail and of changes of the device, each lookup gives the block that the block map has, or the error, and indexes the
buffers inside their entries. -/
theorem fairHistory_answers {events : List MapEvent} (fair : g.Fair env card noTags events) {done rest : List MapEvent}
    {inode : Buf} {k : Nat} (here : events = done ++ .lookup inode k faults :: rest) :
    let s := MapState.run env root ⟨card, ext4fsReinitGlobal⟩ done
    g.Answers env (env.volume s.card) inode k faults (readMapped env s.card root faults inode k s.caches).1 ∧
      ∀ i ∈ indirectIndices g.perblock k, i < g.perblock := by
  subst here
  have fresh : ext4fsReinitGlobal.Tagged env g root (env.volume card) noTags := by
    intro level low
    match level with
    | 0 => exact fun _ => rfl
    | 1 => exact fun _ => rfl
    | _ + 2 => exact fun _ => rfl
  obtain ⟨t, tagged, fair⟩ := Fair.run sized narrow log2 (s := ⟨card, ext4fsReinitGlobal⟩) fresh fair
  cases fair with
  | lookup admitted _ => exact (readMapped_answers sized narrow log2 tagged admitted).2

end Lookups

def pointerEnv : Env where
  log2blksz := 9
  partStart := 0
  partSize := 128
  beyond _ := 0
  levels := 1
  rounds := 1
  crc16 _ _ _ := 0

def pointerGeometry : Geometry where
  log2bs := 10
  firstDataBlock := 1
  totalBlocks := 64
  blocksPerGroup := 8192
  inodesPerGroup := 16
  inodesz := 128
  gdsize := 32

def pointerRoot : Root := ⟨zeros, zeros, 128, 32⟩

def pointerCard : Buf := fun a =>
  if a = 0 then 77 else if a = 20 * 1024 then 50 else if a = 21 * 1024 then 60 else 0

/-- An inode whose block 12 is found through the block of pointers `b`. -/
def pointerInode (b : Nat) : Buf := putLe32 zeros 88 b

/-- Two files take turns at the first buffer, and a read fails in between. -/
theorem sharedBuffer_answers :
    let done := [.lookup (pointerInode 20) 12 (fun _ => none), .lookup (pointerInode 99) 12 (fun _ => none)]
    let s := MapState.run pointerEnv pointerRoot ⟨pointerCard, ext4fsReinitGlobal⟩ done
    (pointerGeometry.blockMap pointerCard (pointerInode 20) 12).1 = 50 ∧
      pointerGeometry.Answers pointerEnv (pointerEnv.volume s.card) (pointerInode 20) 12 (fun _ => none)
        (readMapped pointerEnv s.card pointerRoot (fun _ => none) (pointerInode 20) 12 s.caches).1 ∧
      ∀ i ∈ indirectIndices pointerGeometry.perblock 12, i < pointerGeometry.perblock := by
  refine ⟨by decide, fairHistory_answers (g := pointerGeometry) ⟨by decide, by decide, by decide⟩ (by decide) rfl
    (.lookup rfl (.lookup rfl (.lookup rfl .nil))) rfl⟩

/-- A buffer that a failed read has spoilt is taken for the block it held before. A zero pointer leads to block 0, and
the index for the third buffer leaves the second one. -/
theorem lookups_go_wrong :
    (let s := MapState.run pointerEnv pointerRoot ⟨pointerCard, ext4fsReinitGlobal⟩
      [.lookup (pointerInode 20) 12 (fun _ => none), .lookup (pointerInode 21) 12 (fun _ => some (putLe32 zeros 0 99))]
    (readMapped pointerEnv s.card pointerRoot (fun _ => none) (pointerInode 20) 12 s.caches).1 = 99 ∧
      (pointerGeometry.blockMap pointerCard (pointerInode 20) 12).1 = 50) ∧
    ((readMapped pointerEnv pointerCard pointerRoot (fun _ => none) (pointerInode 0) 12 ext4fsReinitGlobal).1 = 77 ∧
      (pointerGeometry.blockMap pointerCard (pointerInode 0) 12).1 = 0) ∧
    256 ∈ indirectIndices pointerGeometry.perblock pointerGeometry.limit := by
  decide +kernel

end UuuFastboot.Ext4
