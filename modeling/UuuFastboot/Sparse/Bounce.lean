import UuuFastboot.Sparse.Reference
import UuuFastboot.Sparse.Passing

namespace UuuFastboot

open Word Overlay

/-- A card behind `mmc_bwrite`. Its `write_bl_len` is the block size of the
descriptor, which is never above `MMC_MAX_BLOCK_LEN`. -/
structure MmcDevice extends BlockDevice where
  /-- `mmc->cfg->b_max` -/
  bMax : Nat
  /-- `CONFIG_SYS_CACHELINE_SIZE` -/
  cacheline : Nat
  bMax_pos : 0 < bMax
  blksz_pos : 0 < blksz
  blksz_le : blksz ≤ 512

/-- The contents of the device, and how everything ended so far that was sent
to it for a write of at least one block. -/
structure WriteState where
  dev : Nat → Cell
  results : List Bool

def WriteState.answered (s : WriteState) (ok : Bool) : WriteState := { s with results := s.results ++ [ok] }

namespace MmcDevice

/-- `mmc_write_blocks`, with the outcome of the transfer that is the next one
of the run. -/
def mmcWriteBlocks (d : MmcDevice) (ok : Nat → Bool) (s : WriteState) (start blkcnt : Nat) (src : Nat → Cell) :
    Nat × WriteState :=
  if blkcnt = 0 then (0, s)
  else if d.lba < w32 (start + blkcnt) ∨ ok s.results.length = false then (0, s.answered false)
  else
    -- a card does not take blocks behind its end, even where the sum has wrapped
    let out := storeBlocks d.blksz d.lba s.dev start blkcnt src
    (out.1, { dev := out.2, results := s.results ++ [decide (out.1 = blkcnt)] })

/-- The loop of `mmc_bwrite`: whether it came to its end. -/
def bwriteLoop (d : MmcDevice) (ok : Nat → Bool) (s : WriteState) (start todo : Nat) (src : Nat → Cell) :
    Bool × WriteState :=
  let cur := if d.bMax < todo then d.bMax else todo
  let out := d.mmcWriteBlocks ok s start cur src
  if out.1 ≠ cur then (false, out.2)
  else if todo - cur = 0 then (true, out.2)
  else bwriteLoop d ok out.2 (w32 (start + cur)) (todo - cur) (fun i => src (cur * d.blksz + i))
termination_by todo
decreasing_by
  have := d.bMax_pos
  split at * <;> omega

/-- `mmc_bwrite`, which is what `blk_dwrite` calls. The partition of the card
is selected and the block length is set before the first transfer; for no
block the answer is 0 whatever comes of that. -/
def mmcBwrite (d : MmcDevice) (ok : Nat → Bool) (s : WriteState) (start blkcnt : Nat) (src : Nat → Cell) :
    Nat × WriteState :=
  if blkcnt = 0 then (0, s)
  else if ok s.results.length = false then (0, s.answered false)
  else
    let out := d.bwriteLoop ok (s.answered true) start blkcnt src
    (if out.1 then blkcnt else 0, out.2)

/-- `fill_buf_num_blks` -/
def bounceBlks (d : MmcDevice) : Nat := 2 * 1024 * 1024 / d.blksz

theorem bounceBlks_pos (d : MmcDevice) : 0 < d.bounceBlks :=
  Nat.div_pos (Nat.le_trans d.blksz_le (by decide)) d.blksz_pos

/-- The loop over a buffer that does not start on a cache line, and the sum
`ret` of what the writes report; `data` is the aligned copy. The sum is never
above the count of the request. -/
def bounceLoop (d : MmcDevice) (ok : Nat → Bool) (s : WriteState) (data : Nat → Cell) (blk blkcnt : Nat)
    (buffer : Nat → Cell) : Nat × WriteState :=
  if blkcnt = 0 then (0, s)
  else
    let cnt := if d.bounceBlks < blkcnt then d.bounceBlks else blkcnt
    let data := overlay data 0 (cnt * d.blksz) buffer
    let out := d.mmcBwrite ok s blk cnt data
    let rest := bounceLoop d ok out.2 data (w32 (blk + cnt)) (blkcnt - cnt) (fun i => buffer (cnt * d.blksz + i))
    (out.1 + rest.1, rest.2)
termination_by blkcnt
decreasing_by
  have := d.bounceBlks_pos
  split <;> omega

/-- `mmc_sparse_write` of the bytes at the address `buffer`. -/
def mmcSparseWrite (d : MmcDevice) (ok : Nat → Bool) (address : Nat) (s : WriteState) (blk blkcnt : Nat)
    (buffer : Nat → Cell) : Nat × WriteState :=
  if address % d.cacheline ≠ 0 then d.bounceLoop ok s (fun _ => none) blk blkcnt buffer
  else d.mmcBwrite ok s blk blkcnt buffer

/-- What `write_sparse_image` is given for this card. `address` says where the
bytes of each of its writes lie. -/
def sparseStorage (d : MmcDevice) (ok : Nat → Bool) (address : WriteState → Nat → Nat → Nat) :
    SparseStorage WriteState where
  blksz := d.blksz
  start := d.start
  size := d.size
  blksz_lt := d.blksz_lt
  start_lt := d.start_lt
  size_lt := d.size_lt
  write s blk n src := d.mmcSparseWrite ok (address s blk n) s blk n src
  reserve := mmcSparseReserve

/-- A write of `n` blocks that came to its end or not: it did exactly if
nothing that was sent for it failed, and then the blocks are on the device. -/
def Writes (d : MmcDevice) (s : WriteState) (blk n : Nat) (src : Nat → Cell) (s' : WriteState) (done : Bool) : Prop :=
  ∃ sent, s'.results = s.results ++ sent ∧ (done = false → false ∈ sent) ∧
    (done = true → false ∉ sent ∧ (n ≠ 0 → blk + n ≤ d.lba) ∧
      s'.dev = overlay s.dev (blk * d.blksz) (n * d.blksz) src)

/-- The count of a write is the one asked for exactly if the write came to its end. -/
def Reported (d : MmcDevice) (s : WriteState) (blk n : Nat) (src : Nat → Cell) (out : Nat × WriteState) : Prop :=
  ∃ done, d.Writes s blk n src out.2 done ∧ (done = true → out.1 = n) ∧ (done = false → out.1 < n)

variable {d : MmcDevice} {s s' s'' : WriteState} {blk n more : Nat} {src : Nat → Cell} {done next : Bool}

theorem Writes.none (d : MmcDevice) (s : WriteState) (blk : Nat) (src : Nat → Cell) : d.Writes s blk 0 src s true :=
  ⟨[], by simp, by simp, fun _ => ⟨by simp, fun some => absurd rfl some, by simp⟩⟩

theorem Writes.refused (s : WriteState) : d.Writes s blk n src (s.answered false) false :=
  ⟨[false], rfl, by simp, by simp⟩

theorem Writes.stopped (first : d.Writes s blk n src s' false) : d.Writes s blk (n + more) src s' false := by
  obtain ⟨sent, results, failed, -⟩ := first
  exact ⟨sent, results, failed, by simp⟩

theorem Writes.after_answer (rest : d.Writes (s.answered true) blk n src s' done) : d.Writes s blk n src s' done := by
  obtain ⟨sent, results, failed, stored⟩ := rest
  refine ⟨true :: sent, by simp [results, WriteState.answered], fun stop => List.mem_cons_of_mem _ (failed stop),
    fun whole => ?_⟩
  obtain ⟨clean, inside, dev⟩ := stored whole
  exact ⟨by simpa using clean, inside, dev⟩

theorem Writes.append (some : n ≠ 0) (first : d.Writes s blk n src s' done)
    (second : d.Writes s' (w32 (blk + n)) more (fun i => src (n * d.blksz + i)) s'' next) :
    d.Writes s blk (n + more) src s'' (done && next) := by
  obtain ⟨sent, results, failed, stored⟩ := first
  obtain ⟨later, results', failed', stored'⟩ := second
  refine ⟨sent ++ later, by rw [results', results, List.append_assoc], fun stop => ?_, fun whole => ?_⟩
  · rcases Bool.and_eq_false_iff.mp stop with early | late
    · exact List.mem_append_left _ (failed early)
    · exact List.mem_append_right _ (failed' late)
  · obtain ⟨yes, yes'⟩ := Bool.and_eq_true_iff.mp whole
    obtain ⟨clean, inside, dev⟩ := stored yes
    obtain ⟨clean', inside', dev'⟩ := stored' yes'
    -- the first stretch lies on the device, so the block number has not wrapped
    have fits := inside some
    rw [w32_of_lt (Nat.lt_of_le_of_lt fits d.lba_lt)] at inside' dev'
    refine ⟨by simp [clean, clean'], fun _ => ?_, ?_⟩
    · by_cases last : more = 0
      · omega
      · have := inside' last
        omega
    · rw [dev', dev, Nat.add_mul, overlay_append, ← Nat.add_mul]
      refine overlay_congr (fun i _ => ?_)
      split_ifs with front
      · rfl
      · rw [Nat.add_sub_cancel' (Nat.le_of_not_lt front)]

theorem Writes.congr {src' : Nat → Cell} (same : ∀ i < n * d.blksz, src i = src' i)
    (wrote : d.Writes s blk n src s' done) : d.Writes s blk n src' s' done := by
  obtain ⟨sent, results, failed, stored⟩ := wrote
  refine ⟨sent, results, failed, fun whole => ?_⟩
  obtain ⟨clean, inside, dev⟩ := stored whole
  exact ⟨clean, inside, dev.trans (overlay_congr same)⟩

variable (d s blk n src) (ok : Nat → Bool)

theorem mmcWriteBlocks_writes : d.Writes s blk n src (d.mmcWriteBlocks ok s blk n src).2
    (decide ((d.mmcWriteBlocks ok s blk n src).1 = n)) := by
  unfold mmcWriteBlocks
  split_ifs with empty refused
  · subst empty
    exact Writes.none d s blk src
  · rw [decide_eq_false (Ne.symm empty)]
    exact Writes.refused s
  · dsimp only [storeBlocks]
    split_ifs with inside
    · rw [decide_eq_true rfl]
      exact ⟨[true], rfl, by simp, fun _ => ⟨by simp, fun _ => inside, rfl⟩⟩
    · rw [decide_eq_false (Ne.symm empty)]
      exact Writes.refused s

theorem bwriteLoop_writes :
    d.Writes s blk n src (d.bwriteLoop ok s blk n src).2 (d.bwriteLoop ok s blk n src).1 := by
  induction n using Nat.strongRecOn generalizing s blk src with
  | ind todo ih =>
    rw [bwriteLoop]
    obtain ⟨cur, curEq⟩ : ∃ cur, cur = if d.bMax < todo then d.bMax else todo := ⟨_, rfl⟩
    have positive := d.bMax_pos
    have part : cur ≤ todo ∧ (todo ≠ 0 → cur ≠ 0) := by
      rw [curEq]
      split <;> omega
    rw [← curEq]
    have first := d.mmcWriteBlocks_writes s blk cur src ok
    split_ifs with short last
    · rw [decide_eq_false short] at first
      rw [← Nat.add_sub_cancel' part.1]
      exact first.stopped
    · rw [decide_eq_true (not_not.mp short)] at first
      rwa [show todo = cur by omega]
    · rw [decide_eq_true (not_not.mp short)] at first
      have joined := first.append (part.2 (by omega)) (ih (todo - cur) (by omega) _ (w32 (blk + cur)) _)
      rwa [Nat.add_sub_cancel' part.1, Bool.true_and] at joined

theorem mmcBwrite_reported : d.Reported s blk n src (d.mmcBwrite ok s blk n src) := by
  unfold mmcBwrite
  split_ifs with empty refused
  · subst empty
    exact ⟨true, Writes.none d s blk src, by simp, by simp⟩
  · exact ⟨false, Writes.refused s, by simp, fun _ => Nat.pos_of_ne_zero empty⟩
  · have loop := (d.bwriteLoop_writes (s.answered true) blk n src ok).after_answer
    refine ⟨_, loop, fun whole => if_pos whole, fun stop => ?_⟩
    dsimp only
    rw [stop]
    exact Nat.pos_of_ne_zero empty

/-- The pieces of the bounce loop make up the write that was asked for, and
one that falls short leaves the sum short. -/
theorem bounceLoop_reported (data : Nat → Cell) : d.Reported s blk n src (d.bounceLoop ok s data blk n src) := by
  induction n using Nat.strongRecOn generalizing s data blk src with
  | ind n ih =>
    rw [bounceLoop]
    dsimp only
    obtain ⟨cnt, cntEq⟩ : ∃ cnt, cnt = if d.bounceBlks < n then d.bounceBlks else n := ⟨_, rfl⟩
    have positive := d.bounceBlks_pos
    have part : cnt ≤ n ∧ (n ≠ 0 → cnt ≠ 0) := by
      rw [cntEq]
      split <;> omega
    rw [← cntEq]
    split_ifs with empty
    · subst empty
      exact ⟨true, Writes.none d s blk src, by simp, by simp⟩
    · obtain ⟨done, first, full, short⟩ :=
        d.mmcBwrite_reported s blk cnt (overlay data 0 (cnt * d.blksz) src) ok
      obtain ⟨next, rest, full', short'⟩ := ih (n - cnt) (by omega)
        (d.mmcBwrite ok s blk cnt (overlay data 0 (cnt * d.blksz) src)).2 (w32 (blk + cnt))
        (fun i => src (cnt * d.blksz + i)) (overlay data 0 (cnt * d.blksz) src)
      have copied : ∀ i < cnt * d.blksz, overlay data 0 (cnt * d.blksz) src i = src i := fun i below => by
        rw [overlay_of_mem (Nat.zero_le i) (by omega), Nat.sub_zero]
      have joined := (first.congr copied).append (part.2 empty) rest
      rw [Nat.add_sub_cancel' part.1] at joined
      refine ⟨_, joined, ?_, ?_⟩ <;> cases done <;> cases next <;> simp at * <;> omega

theorem mmcSparseWrite_reported (address : Nat) :
    d.Reported s blk n src (d.mmcSparseWrite ok address s blk n src) := by
  unfold mmcSparseWrite
  split_ifs
  · exact d.bounceLoop_reported s blk n src ok _
  · exact d.mmcBwrite_reported s blk n src ok

variable {d s blk n src}

theorem Reported.whole {out : Nat × WriteState} (reported : d.Reported s blk n src out)
    (clean : false ∉ out.2.results) : out.1 = n ∧ out.2.dev = overlay s.dev (blk * d.blksz) (n * d.blksz) src := by
  obtain ⟨done, ⟨sent, results, failed, stored⟩, full, -⟩ := reported
  cases done with
  | false => exact absurd (results ▸ List.mem_append_right _ (failed rfl)) clean
  | true => exact ⟨full rfl, (stored rfl).2.2⟩

theorem Reported.short {out : Nat × WriteState} (reported : d.Reported s blk n src out) (fresh : false ∉ s.results)
    (failing : false ∈ out.2.results) : out.1 < n := by
  obtain ⟨done, ⟨sent, results, -, stored⟩, -, short⟩ := reported
  cases done with
  | false => exact short rfl
  | true =>
    rw [results] at failing
    exact absurd failing (by simp [fresh, (stored rfl).1])

theorem sparseStorage_carries (d : MmcDevice) (address : WriteState → Nat → Nat → Nat) :
    (d.sparseStorage ok address).Carries (fun s => false ∉ s.results) (fun _ => True) where
  passed s blk n src clean full failing := by
    have short := (d.mmcSparseWrite_reported s blk n src ok (address s blk n)).short clean failing
    have cut := w32_le (d.mmcSparseWrite ok (address s blk n) s blk n src).1
    change n ≤ w32 (d.mmcSparseWrite ok (address s blk n) s blk n src).1 at full
    omega
  failed _ _ _ _ _ := trivial
  weaken _ _ := trivial

/-- Wherever the buffer lies, `mmc_sparse_write` writes what the direct path
writes and reports as much, if nothing fails. A failing transfer leaves its
count short, and no sparse image of which a transfer failed is answered with OKAY. -/
theorem mmcSparseWrite_as_direct (d : MmcDevice) (dev : Nat → Cell) (blk blkcnt : Nat) (buffer : Nat → Cell) :
    (∀ ok ok' address,
      false ∉ (d.mmcSparseWrite ok address ⟨dev, []⟩ blk blkcnt buffer).2.results →
      false ∉ (d.mmcBwrite ok' ⟨dev, []⟩ blk blkcnt buffer).2.results →
      (d.mmcSparseWrite ok address ⟨dev, []⟩ blk blkcnt buffer).1 = (d.mmcBwrite ok' ⟨dev, []⟩ blk blkcnt buffer).1 ∧
        (d.mmcSparseWrite ok address ⟨dev, []⟩ blk blkcnt buffer).2.dev =
          (d.mmcBwrite ok' ⟨dev, []⟩ blk blkcnt buffer).2.dev) ∧
      (∀ ok address, false ∈ (d.mmcSparseWrite ok address ⟨dev, []⟩ blk blkcnt buffer).2.results →
        (d.mmcSparseWrite ok address ⟨dev, []⟩ blk blkcnt buffer).1 < blkcnt) ∧
      ∀ ok address m alloc fuel,
        (writeSparseImage (d.sparseStorage ok address) m alloc fuel ⟨dev, []⟩).2 = .okay →
        false ∉ (writeSparseImage (d.sparseStorage ok address) m alloc fuel ⟨dev, []⟩).1.dev.results := by
  refine ⟨fun ok ok' address clean clean' => ?_, fun ok address => ?_, fun ok address m alloc fuel => ?_⟩
  · obtain ⟨count, stored⟩ := (d.mmcSparseWrite_reported _ blk blkcnt buffer ok address).whole clean
    obtain ⟨count', stored'⟩ := (d.mmcBwrite_reported _ blk blkcnt buffer ok').whole clean'
    exact ⟨count.trans count'.symm, stored.trans stored'.symm⟩
  · exact (d.mmcSparseWrite_reported _ blk blkcnt buffer ok address).short (by simp)
  · exact (writeSparseImage_carried (sparseStorage_carries ok d address) (by simp)).2

end MmcDevice

end UuuFastboot
