import UuuFastboot.Lib.Partial
import UuuFastboot.Ext4.JournalLog

namespace UuuFastboot.Ext4

open Word Overlay Bytes Partial

/-- The driver's state on a volume `V`, with nothing but blocks in `S` in its buffers. -/
structure Fs.On (env : Env) (g : Geometry) (S : Nat → Prop) (V : Buf) (fs : Fs) : Prop where
  root : fs.root.Has g
  blksz : fs.blksz = g.bs
  sectPerblk : fs.sectPerblk = 2 ^ log2FsBlocksize env fs.root
  volume : env.volume fs.card = V
  caches : fs.caches.Ok env g fs.root V S

/-- A step that leaves the superblock in memory and the list of revoke blocks alone. -/
structure Fs.Quiet (fs fs' : Fs) : Prop where
  sb : fs'.sb = fs.sb
  revkBlkList : fs'.revkBlkList = fs.revkBlkList
  firstNode : fs'.firstNode = fs.firstNode

variable {fs : Fs} {bs sequence : Nat} {b : Buf} {notes : List (Nat × List Nat)}

theorem Fs.Quiet.trans {fs' fs'' : Fs} (first : fs.Quiet fs') (second : fs'.Quiet fs'') : fs.Quiet fs'' :=
  ⟨second.sb.trans first.sb, second.revkBlkList.trans first.revkBlkList, second.firstNode.trans first.firstNode⟩

section Driver

variable {env : Env} {g : Geometry} {S : Nat → Prop} {V inode : Buf} {fs : Fs} (valid : g.Valid env)
  (on : fs.On env g S V)
include valid on

theorem Fs.On.readBlock {b : Nat} (below : b < g.totalBlocks) :
    fs.readBlock env b = some (clip g.bs (g.blk V b)) := by
  have sector : fs.sector b = blockSector env fs.root b := by rw [Fs.sector, on.sectPerblk, blockSector]
  rw [Fs.readBlock, sector, on.blksz, fsDevread_whole valid.fits on.root.log2 fs.card below, on.volume]

theorem Fs.On.blockOrZeros {b : Nat} (below : b < g.totalBlocks) :
    Ext4.blockOrZeros env b fs = some (clip g.bs (g.blk V b), fs) := by
  rw [Ext4.blockOrZeros, reading, Fs.blockOrZeros, on.readBlock valid below, Option.getD_some]

theorem Fs.On.lookup {k b : Nat} {via : List Nat} (found : g.Found env.levels V inode k b via)
    (safe : ∀ x ∈ via, S x) :
    ∃ c, Ext4.allocatedBlock env inode k fs = some (b, { fs with caches := c }) ∧
      Fs.On env g S V { fs with caches := c } := by
  obtain ⟨root, blksz, sectPerblk, volume, caches⟩ := on
  subst volume
  obtain ⟨cache', c', run, -, ok⟩ := readAllocatedBlock_eq valid root found (Or.inl rfl) caches safe
  refine ⟨c', ?_, ⟨root, blksz, sectPerblk, rfl, ok⟩⟩
  rw [Ext4.allocatedBlock, run]
  rfl

theorem Fs.On.allocatedBlock {k b : Nat} {via : List Nat} (found : g.Found env.levels V inode k b via)
    (safe : ∀ x ∈ via, S x) :
    ∃ fs', allocatedBlock env inode k fs = some (b, fs') ∧ fs'.On env g S V ∧ fs.Quiet fs' := by
  obtain ⟨c, run, on'⟩ := on.lookup valid found safe
  exact ⟨_, run, on', ⟨rfl, rfl, rfl⟩⟩

theorem Fs.On.putBlock {b : Nat} (buf : Buf) (below : b < g.totalBlocks)
    (same : ∀ x, S x → g.SameBlock V (overlay V (b * g.bs) g.bs buf) x) :
    ∃ fs', putBlock env b buf fs = some ((), fs') ∧ fs'.On env g S (overlay V (b * g.bs) g.bs buf) ∧ fs.Quiet fs' := by
  obtain ⟨root, blksz, sectPerblk, volume, caches⟩ := on
  have dvd := valid.devBlksz_dvd_bs
  have room : (b + 1) * g.bs ≤ g.totalBlocks * g.bs := Nat.mul_le_mul_right _ below
  have limit := valid.inside
  have written : env.volume (putExt4 env fs.card (b * fs.blksz) buf fs.blksz) = overlay V (b * g.bs) g.bs buf := by
    rw [blksz, ← volume]
    refine volume_putExt4 fs.card buf (dvd.mul_left b) dvd ?_
    rw [Nat.add_mul, Nat.one_mul] at room
    omega
  exact ⟨_, rfl, ⟨root, blksz, sectPerblk, written, caches.congr same⟩, ⟨rfl, rfl, rfl⟩⟩

end Driver

/-- The journal of a volume `V`: its inode, the blocks `J` of the file, and the blocks in `S` that
lead to them. -/
structure JournalFile (env : Env) (g : Geometry) (V inode : Buf) (S : Nat → Prop) (J : Nat → Nat) (n : Nat) :
    Prop where
  number : journalIno ≤ g.inodes
  inodeBlk : g.inodeBlk V journalIno < g.totalBlocks
  found : ∀ k < n, ∃ via, g.Found env.levels V inode k (J k) via ∧ ∀ x ∈ via, S x
  inside : ∀ k < n, J k < g.totalBlocks

/-- A volume that has the journal of `V`, with the same contents. -/
structure SameJournal (g : Geometry) (V inode : Buf) (S : Nat → Prop) (J : Nat → Nat) (n : Nat) (V' : Buf) : Prop where
  inodeBlk : g.inodeBlk V' journalIno = g.inodeBlk V journalIno
  inode : g.inodeAt V' journalIno = inode
  map : ∀ x, S x → g.SameBlock V V' x
  blocks : ∀ k < n, g.SameBlock V V' (J k)

def journalBlock (g : Geometry) (V : Buf) (J : Nat → Nat) (k : Nat) : Buf := clip g.bs (g.blk V (J k))

section File

variable {env : Env} {g : Geometry} {S : Nat → Prop} {V V' inode : Buf} {J : Nat → Nat} {n : Nat} {fs : Fs}
  (valid : g.Valid env) (file : JournalFile env g V inode S J n) (same : SameJournal g V inode S J n V')
  (on : fs.On env g S V')
include valid file same on

theorem journalInode_run : journalInode env fs = some (inode, fs) := by
  have read := ext4fsReadInode_eq valid on.root fs.card (by decide : 1 ≤ journalIno) file.number
    (by rw [on.volume, same.inodeBlk]; exact file.inodeBlk)
  rw [on.volume, same.inode] at read
  simp only [journalInode, ext4fsIget, reading, run_bind, read, Option.bind_some, run_pure]

theorem journalBlock_run {k : Nat} (below : k < n) :
    ∃ fs', allocatedBlock env inode k fs = some (J k, fs') ∧
      blockOrZeros env (J k) fs' = some (journalBlock g V J k, fs') ∧ fs'.On env g S V' ∧ fs.Quiet fs' := by
  obtain ⟨via, found, safe⟩ := file.found k below
  have found' := found.congr (fun x member => same.map x (safe x member))
  obtain ⟨fs', run, on', kept⟩ := on.allocatedBlock valid found' safe
  refine ⟨fs', run, ?_, on', kept⟩
  rw [on'.blockOrZeros valid (file.inside k below), journalBlock, (same.blocks k below).clip_eq]

end File

theorem tagsAt_length {ofs : Nat} {copies : List LoggedCopy} (tags : TagsAt bs b ofs copies) :
    ofs + 8 * copies.length ≤ bs := by
  induction copies generalizing ofs with
  | nil => exact tags.elim
  | cons c rest ih =>
    obtain ⟨⟨room, -⟩, last | more⟩ := tags
    · subst last
      simpa using room
    · have further := ih more
      have step : ofs + 8 ≤ if c.sameUuid = true then ofs + 8 else ofs + 24 := by split <;> omega
      rw [List.length_cons]
      omega

theorem tagScan_eq {rounds ofs i : Nat} {copies : List LoggedCopy} (tags : TagsAt bs b ofs copies)
    (enough : copies.length ≤ rounds) : tagScan bs b rounds ofs i = i + copies.length := by
  induction copies generalizing ofs rounds i with
  | nil => exact tags.elim
  | cons c rest ih =>
    obtain ⟨⟨room, -, -, uuid, last⟩, more⟩ := tags
    rw [List.length_cons] at enough
    obtain ⟨rounds, rfl⟩ : ∃ r, rounds = r + 1 := ⟨rounds - 1, by omega⟩
    simp only [tagScan]
    rw [if_neg (by omega), last, uuid]
    rcases more with rfl | more
    · rw [List.isEmpty_nil, if_pos rfl]
      rfl
    · have some_tag : rest.isEmpty = false := by
        cases rest with
        | nil => exact more.elim
        | cons _ _ => rfl
      rw [some_tag, if_neg Bool.false_ne_true, ih more (by omega), List.length_cons]
      omega

theorem revokeScan_eq {blocks : List Nat} (revoked : RevokedAt bs b blocks) (x left : Nat)
    {k : Nat} (enough : blocks.length ≤ left + k) :
    revokeScan b x (16 + 4 * blocks.length) left (16 + 4 * k) = decide (x ∈ blocks.drop k) := by
  induction left generalizing k with
  | zero => rw [revokeScan, List.drop_of_length_le (by omega), decide_eq_false List.not_mem_nil]
  | succ left ih =>
    rw [revokeScan]
    by_cases behind : blocks.length ≤ k
    · rw [if_pos (by omega), List.drop_of_length_le behind, decide_eq_false List.not_mem_nil]
    · have word := revoked.block k (blocks.get ⟨k, by omega⟩) (List.getElem?_eq_getElem (by omega))
      rw [if_neg (by omega), word, List.drop_eq_getElem_cons (by omega)]
      have further := ih (k := k + 1) (by omega)
      rw [show 16 + 4 * (k + 1) = 16 + 4 * k + 4 by omega] at further
      simp only [List.mem_cons, Bool.decide_or, further, List.get_eq_getElem]
      by_cases here : blocks[k] = x
      · rw [if_pos here, decide_eq_true here.symm, Bool.true_or]
      · rw [if_neg here, decide_eq_false (Ne.symm here), Bool.false_or]

/-- The revoke blocks that the first pass noted: the number of the transaction and the blocks of each. -/
def Noted (bs : Nat) : List Buf → List (Nat × List Nat) → Prop :=
  List.Forall₂ (fun b r => Journal.sequence b = r.1 ∧ RevokedAt bs b r.2)

theorem checkBlknrForRevoke_iff {bufs : List Buf} (small : bs < 2 ^ 31)
    (noted : Noted bs bufs notes) (block sequence : Nat) :
    checkBlknrForRevoke bufs block sequence = true ↔ ∃ r ∈ notes, sequence < r.1 ∧ block ∈ r.2 := by
  unfold checkBlknrForRevoke
  induction noted with
  | nil => simp
  | @cons b r bufs notes here _ ih =>
    obtain ⟨number, revoked⟩ := here
    have scan := revokeScan_eq revoked block (16 + 4 * r.2.length) (k := 0) (by omega)
    rw [Nat.mul_zero, Nat.add_zero, List.drop_zero] at scan
    have count : 16 + 4 * r.2.length < 2 ^ 31 := Nat.lt_of_le_of_lt revoked.inside small
    simp only [List.any_cons, number, revoked.count, scan, count, and_true, Bool.or_eq_true, Bool.and_eq_true,
      decide_eq_true_eq, List.mem_cons, exists_eq_or_imp, ih]

def writeBlocks (g : Geometry) (V : Buf) (ws : List (Nat × Buf)) : Buf :=
  ws.foldl (fun V w => overlay V (w.1 * g.bs) g.bs w.2) V

/-- A copy that no transaction behind its own revokes in the notes. -/
def Replayed (notes : List (Nat × List Nat)) (sequence : Nat) (c : LoggedCopy) : Prop :=
  ¬ ∃ r ∈ notes, sequence < r.1 ∧ c.block ∈ r.2

instance (notes : List (Nat × List Nat)) (sequence : Nat) : DecidablePred (Replayed notes sequence) :=
  fun _ => inferInstanceAs (Decidable (¬ _))

/-- What `recover_transaction` writes. -/
def replays (notes : List (Nat × List Nat)) (sequence : Nat) (copies : List LoggedCopy) : List (Nat × Buf) :=
  (copies.filter (Replayed notes sequence)).map (fun c => (c.block, c.logged))

section Replay

variable {env : Env} {g : Geometry} {S : Nat → Prop} {V inode : Buf} {J : Nat → Nat} {n : Nat}
variable {V' : Buf} {notes : List (Nat × List Nat)} {fs : Fs}

/-- Copies that can be written back without a change of the journal. -/
def Harmless (g : Geometry) (V inode : Buf) (S : Nat → Prop) (J : Nat → Nat) (n : Nat) (copies : List LoggedCopy) :
    Prop :=
  ∀ c ∈ copies, c.block < g.totalBlocks ∧ ∀ V', SameJournal g V inode S J n V' →
    SameJournal g V inode S J n (overlay V' (c.block * g.bs) g.bs c.logged)

variable (valid : g.Valid env) (file : JournalFile env g V inode S J n)
include valid file

/-- A tag is passed over if it is revoked, and else its block of the journal is copied to its place. -/
theorem replayTag_run (jdb metadata : Buf) {c : LoggedCopy} {k : Nat}
    (below : k < n) (stored : ∀ j < g.bs, journalBlock g V J k j = c.logged j) (harmless : Harmless g V inode S J n [c])
    (same : SameJournal g V inode S J n V') (on : fs.On env g S V') (noted : Noted g.bs fs.revkBlkList notes) :
    ∃ metadata' fs', replayTag env inode jdb k c.block metadata fs = some (metadata', fs') ∧
      fs'.On env g S (writeBlocks g V' (replays notes (Journal.sequence jdb) [c])) ∧
      SameJournal g V inode S J n (writeBlocks g V' (replays notes (Journal.sequence jdb) [c])) ∧ fs.Quiet fs' := by
  have small : g.bs < 2 ^ 31 := Nat.pow_lt_pow_right (by decide) (Nat.lt_of_le_of_lt valid.log2.2 (by decide))
  have check := checkBlknrForRevoke_iff small noted c.block (Journal.sequence jdb)
  rw [replayTag, get_bind]
  by_cases revoked : checkBlknrForRevoke fs.revkBlkList c.block (Journal.sequence jdb) = true
  · have some_note : fs.revkBlkList.isEmpty = false := by
      cases list : fs.revkBlkList with
      | nil => rw [list] at revoked; cases revoked
      | cons _ _ => rfl
    have passed : ¬ Replayed notes (Journal.sequence jdb) c := not_not.mpr (check.mp revoked)
    rw [replays, List.filter_cons_of_neg (by simpa using passed), List.filter_nil, List.map_nil]
    refine ⟨metadata, fs, ?_, on, same, ⟨rfl, rfl, rfl⟩⟩
    rw [revoked, some_note]
    rfl
  · have copied : Replayed notes (Journal.sequence jdb) c := mt check.mpr revoked
    rw [replays, List.filter_cons_of_pos (by simpa using copied), List.filter_nil, List.map_cons, List.map_nil]
    obtain ⟨target, keeps⟩ := harmless c List.mem_cons_self
    have after := keeps V' same
    obtain ⟨fs₁, allocated, -, on₁, quiet₁⟩ := journalBlock_run valid file same on below
    have read := on₁.readBlock valid (file.inside k below)
    rw [(same.blocks k below).symm.clip_eq] at read
    have content : overlay V' (c.block * g.bs) g.bs (journalBlock g V J k) =
        overlay V' (c.block * g.bs) g.bs c.logged := overlay_congr stored
    obtain ⟨fs₂, written, on₂, quiet₂⟩ := on₁.putBlock valid (journalBlock g V J k) target
      (fun x inS => by
        rw [content]
        exact (same.map x inS).symm.trans (after.map x inS))
    rw [content] at on₂
    refine ⟨journalBlock g V J k, fs₂, ?_, on₂, after, quiet₁.trans quiet₂⟩
    rw [Bool.eq_false_of_not_eq_true revoked, Bool.and_false, if_neg Bool.false_ne_true, bind_of_run allocated, run_bind, readBlock, reading, Option.bind_some, read, Option.getD_some, run_bind]
    rw [journalBlock] at written ⊢
    rw [written, Option.bind_some]
    rfl

theorem recoverLoop_run {jdb metadata : Buf} {copies : List LoggedCopy}
    {rounds ofs i : Nat} (tags : TagsAt g.bs jdb ofs copies) (enough : copies.length ≤ rounds)
    (stored : ∀ k c, copies[k]? = some c → ∀ j < g.bs, journalBlock g V J (i + 1 + k) j = c.logged j)
    (inside : i + copies.length < n) (harmless : Harmless g V inode S J n copies)
    (same : SameJournal g V inode S J n V') (on : fs.On env g S V') (noted : Noted g.bs fs.revkBlkList notes) :
    ∃ fs', recoverLoop env inode jdb rounds ofs i metadata fs = some ((), fs') ∧
      fs'.On env g S (writeBlocks g V' (replays notes (Journal.sequence jdb) copies)) ∧
      SameJournal g V inode S J n (writeBlocks g V' (replays notes (Journal.sequence jdb) copies)) ∧ fs.Quiet fs' := by
  induction copies generalizing rounds ofs i V' fs metadata with
  | nil => exact tags.elim
  | cons c rest ih =>
    obtain ⟨⟨room, block, -, uuid, last⟩, more⟩ := tags
    rw [List.length_cons] at enough inside
    obtain ⟨rounds, rfl⟩ : ∃ r, rounds = r + 1 := ⟨rounds - 1, by omega⟩
    obtain ⟨metadata', fs₁, tag, on₁, same₁, quiet₁⟩ := replayTag_run valid file jdb metadata
      (show i + 1 < n by omega) (stored 0 c rfl)
      (fun c' member => harmless c' (by rw [List.mem_singleton.mp member]; exact List.mem_cons_self)) same on noted
    have append : writeBlocks g V' (replays notes (Journal.sequence jdb) (c :: rest)) =
        writeBlocks g (writeBlocks g V' (replays notes (Journal.sequence jdb) [c]))
          (replays notes (Journal.sequence jdb) rest) := by
      rw [writeBlocks, writeBlocks, writeBlocks, ← List.foldl_append, replays, replays, replays, ← List.map_append,
        ← List.filter_append, List.singleton_append]
    rw [append]
    rw [recoverLoop, get_bind]
    simp only
    rw [on.blksz, if_neg (by omega), block, uuid, last, bind_of_run tag]
    rcases more with rfl | more
    · rw [List.isEmpty_nil, if_pos rfl]
      exact ⟨fs₁, rfl, on₁, same₁, quiet₁⟩
    · have some_tag : rest.isEmpty = false := by
        cases rest with
        | nil => exact more.elim
        | cons _ _ => rfl
      rw [some_tag, if_neg Bool.false_ne_true]
      have storedRest : ∀ k c, rest[k]? = some c → ∀ j < g.bs, journalBlock g V J (i + 1 + 1 + k) j = c.logged j := by
        intro k c' at_ j small
        have byte := stored (k + 1) c' (by rw [List.getElem?_cons_succ]; exact at_) j small
        rwa [show i + 1 + (k + 1) = i + 1 + 1 + k by omega] at byte
      obtain ⟨fs₂, run, on₂, same₂, quiet₂⟩ := ih more (show rest.length ≤ rounds by omega) storedRest (by omega)
        (fun c' member => harmless c' (List.mem_cons_of_mem _ member)) same₁ on₁ (by rw [quiet₁.revkBlkList]; exact noted)
      exact ⟨fs₂, run, on₂, same₂, quiet₁.trans quiet₂⟩

theorem recoverTransaction_run {copies : List LoggedCopy} {d : Nat}
    (tags : TagsAt g.bs (journalBlock g V J d) 12 copies)
    (stored : ∀ k c, copies[k]? = some c → ∀ j < g.bs, journalBlock g V J (d + 1 + k) j = c.logged j)
    (inside : d + copies.length < n) (harmless : Harmless g V inode S J n copies)
    (same : SameJournal g V inode S J n V') (on : fs.On env g S V') (noted : Noted g.bs fs.revkBlkList notes) :
    ∃ fs', recoverTransaction env d fs = some ((), fs') ∧
      fs'.On env g S (writeBlocks g V' (replays notes (Journal.sequence (journalBlock g V J d)) copies)) ∧
      SameJournal g V inode S J n (writeBlocks g V' (replays notes (Journal.sequence (journalBlock g V J d)) copies)) ∧
      fs.Quiet fs' := by
  obtain ⟨fs₁, allocated, read, on₁, quiet₁⟩ := journalBlock_run valid file same on (k := d) (by omega)
  have length := tagsAt_length tags
  obtain ⟨fs₂, run, on₂, same₂, quiet₂⟩ := recoverLoop_run valid file tags (show copies.length ≤ fs₁.blksz by
    rw [on₁.blksz]
    omega) stored inside harmless same on₁ (by rw [quiet₁.revkBlkList]; exact noted)
  refine ⟨fs₂, ?_, on₂, same₂, quiet₁.trans quiet₂⟩
  rw [recoverTransaction, bind_of_run (journalInode_run valid file same on), bind_of_run allocated, bind_of_run read, get_bind]
  exact run

end Replay

def recordNotes (sequence : Nat) (records : List LogRecord) : List (Nat × List Nat) :=
  records.filterMap (fun
    | .revoke blocks => some (sequence, blocks)
    | .descriptor _ => none)

/-- The list of revoke blocks, which is begun anew only when it is marked as such. -/
structure Fs.NotedIn (bs : Nat) (notes : List (Nat × List Nat)) (fs : Fs) : Prop where
  noted : Noted bs fs.revkBlkList notes
  begun : fs.revkBlkList = [] ↔ fs.firstNode = true

theorem Fs.NotedIn.quiet {fs' : Fs} (noted : fs.NotedIn bs notes)
    (quiet : fs.Quiet fs') : fs'.NotedIn bs notes :=
  ⟨by rw [quiet.revkBlkList]; exact noted.noted, by rw [quiet.revkBlkList, quiet.firstNode]; exact noted.begun⟩

theorem ext4fsPushRevokeBlk_run {env : Env} {g : Geometry} {S : Nat → Prop} {V : Buf}
    {blocks : List Nat} (on : fs.On env g S V) (noted : fs.NotedIn bs notes)
    (number : Journal.sequence b = sequence) (revoked : RevokedAt bs b blocks) :
    ∃ fs', ext4fsPushRevokeBlk b fs = some ((), fs') ∧ fs'.On env g S V ∧ fs'.sb = fs.sb ∧
      fs'.NotedIn bs (notes ++ [(sequence, blocks)]) := by
  have all : Noted bs (fs.revkBlkList ++ [b]) (notes ++ [(sequence, blocks)]) :=
    List.rel_append noted.noted (.cons ⟨number, revoked⟩ .nil)
  obtain ⟨root, blksz, sectPerblk, volume, caches⟩ := on
  unfold ext4fsPushRevokeBlk
  by_cases first : fs.firstNode = true
  · rw [noted.begun.mpr first, List.nil_append] at all
    rw [if_pos first]
    exact ⟨_, rfl, ⟨root, blksz, sectPerblk, volume, caches⟩, rfl, all, by simp⟩
  · have some_block : fs.revkBlkList ≠ [] := mt noted.begun.mp first
    rw [if_neg first, if_neg (by simpa using some_block)]
    exact ⟨_, rfl, ⟨root, blksz, sectPerblk, volume, caches⟩, rfl, all, by simpa using first⟩

/-- Where the scan stands inside a transaction: the copies that its descriptor block has announced. -/
structure JournalScan.Inside (L : Nat → Buf) (bs n sequence : Nat) (stored : Bool) (copies : List LoggedCopy)
    (s : JournalScan) : Prop where
  number : Journal.sSequence s.jsb = sequence
  found : s.dbFound = s.running
  idle : s.running = false → copies = []
  tags : s.running = true → TagsAt bs (L s.currDesc) 12 copies ∧ Journal.sequence (L s.currDesc) = sequence ∧
    s.currDesc + copies.length < n
  stored : stored = true → ∀ k c, copies[k]? = some c → ∀ j < bs, L (s.currDesc + 1 + k) j = c.logged j

def JournalScan.commit (s : JournalScan) : JournalScan :=
  { s with
    running := false, dbFound := false, i := s.i + 1, prevDesc := s.currDesc
    jsb := putBe32 s.jsb 24 (Journal.sSequence s.jsb + 1) }

section Scan

variable {env : Env} {g : Geometry} {S : Nat → Prop} {V V' inode : Buf} {J : Nat → Nat} {n : Nat} {fs : Fs}
  {s : JournalScan} (recover : Bool) (valid : g.Valid env) (file : JournalFile env g V inode S J n)
  (same : SameJournal g V inode S J n V') (on : fs.On env g S V') (inside : s.i < n)
include valid file same on inside

theorem journalLoop_descriptor {copies : List LoggedCopy}
    (header : HeaderAt (journalBlock g V J s.i) 1 (Journal.sSequence s.jsb))
    (tags : TagsAt g.bs (journalBlock g V J s.i) 12 copies) (idle : s.running = false) :
    ∃ fs', (∀ rounds, journalLoop env recover inode (rounds + 1) s fs =
        journalLoop env recover inode rounds
          { s with currDesc := s.i, running := true, dbFound := true, i := s.i + copies.length + 1 } fs') ∧
      fs'.On env g S V' ∧ fs.Quiet fs' := by
  obtain ⟨fs', allocated, read, on', quiet⟩ := journalBlock_run valid file same on inside
  refine ⟨fs', fun rounds => ?_, on', quiet⟩
  have length := tagsAt_length tags
  rw [journalLoop, bind_of_run allocated, bind_of_run read, get_bind]
  simp only
  rw [if_pos header.type, if_neg (not_not.mpr header.sequence), idle, if_neg Bool.false_ne_true, on'.blksz,
    tagScan_eq tags (by omega)]

theorem journalLoop_revoke {blocks : List Nat} {notes : List (Nat × List Nat)}
    (header : HeaderAt (journalBlock g V J s.i) 5 (Journal.sSequence s.jsb))
    (revoked : RevokedAt g.bs (journalBlock g V J s.i) blocks) (noted : fs.NotedIn g.bs notes) :
    ∃ fs', (∀ rounds, journalLoop env recover inode (rounds + 1) s fs =
        journalLoop env recover inode rounds { s with i := s.i + 1 } fs') ∧
      fs'.On env g S V' ∧ fs'.sb = fs.sb ∧
      fs'.NotedIn g.bs (if recover then notes else notes ++ [(Journal.sSequence s.jsb, blocks)]) := by
  obtain ⟨fs₁, allocated, read, on₁, quiet⟩ := journalBlock_run valid file same on inside
  have noted₁ := noted.quiet quiet
  have other : Journal.blocktype (journalBlock g V J s.i) ≠ 1 ∧ Journal.blocktype (journalBlock g V J s.i) ≠ 2 := by
    rw [header.type]
    decide
  cases recover with
  | true =>
    refine ⟨fs₁, fun rounds => ?_, on₁, quiet.sb, noted₁⟩
    rw [journalLoop, bind_of_run allocated, bind_of_run read, get_bind]
    simp only
    rw [if_neg other.1, if_neg other.2, if_pos header.type, if_neg (not_not.mpr header.sequence)]
    rfl
  | false =>
    obtain ⟨fs₂, pushed, on₂, sb, noted₂⟩ := ext4fsPushRevokeBlk_run on₁ noted₁ header.sequence revoked
    refine ⟨fs₂, fun rounds => ?_, on₂, sb.trans quiet.sb, noted₂⟩
    rw [journalLoop, bind_of_run allocated, bind_of_run read, get_bind]
    simp only
    rw [if_neg other.1, if_neg other.2, if_pos header.type, if_neg (not_not.mpr header.sequence)]
    simp only [Bool.false_eq_true, if_false]
    rw [bind_of_run pushed]

theorem journalLoop_commit {copies : List LoggedCopy} {notes : List (Nat × List Nat)}
    (header : HeaderAt (journalBlock g V J s.i) 2 (Journal.sSequence s.jsb))
    (state : s.Inside (journalBlock g V J) g.bs n (Journal.sSequence s.jsb) true copies)
    (harmless : Harmless g V inode S J n copies) (noted : fs.NotedIn g.bs notes) :
    ∃ fs' W, (∀ rounds, journalLoop env recover inode (rounds + 1) s fs =
        journalLoop env recover inode rounds s.commit fs') ∧
      W = (if recover then writeBlocks g V' (replays notes (Journal.sSequence s.jsb) copies) else V') ∧
      fs'.On env g S W ∧ SameJournal g V inode S J n W ∧ fs.Quiet fs' := by
  obtain ⟨fs₁, allocated, read, on₁, quiet₁⟩ := journalBlock_run valid file same on inside
  have other : Journal.blocktype (journalBlock g V J s.i) ≠ 1 := by
    rw [header.type]
    decide
  have step (rounds : Nat) : journalLoop env recover inode (rounds + 1) s fs =
      (if (recover && s.dbFound) = true then do
        recoverTransaction env s.currDesc
        journalLoop env recover inode rounds s.commit
      else journalLoop env recover inode rounds s.commit : Run (Option Buf)) fs₁ := by
    have ended : (s.running || !s.dbFound) = true := by
      rw [state.found]
      cases s.running <;> rfl
    rw [journalLoop, bind_of_run allocated, bind_of_run read, get_bind]
    simp only
    rw [if_neg other, if_pos header.type, if_neg (not_not.mpr header.sequence), ended]
    rfl
  by_cases replay : (recover && s.dbFound) = true
  · obtain ⟨rfl, found⟩ : recover = true ∧ s.dbFound = true := by simpa using replay
    obtain ⟨tags, number, room⟩ := state.tags (by rw [← state.found]; exact found)
    obtain ⟨fs₂, run, on₂, same₂, quiet₂⟩ := recoverTransaction_run valid file tags (state.stored rfl) room harmless same
      on₁ (noted.quiet quiet₁).noted
    rw [number] at on₂ same₂
    refine ⟨fs₂, _, fun rounds => ?_, rfl, on₂, same₂, quiet₁.trans quiet₂⟩
    rw [step, if_pos replay, bind_of_run run]
  · refine ⟨fs₁, V', fun rounds => by rw [step, if_neg replay], ?_, on₁, same, quiet₁⟩
    cases recover with
    | false => rfl
    | true =>
      have idle : s.running = false := by
        rw [← state.found]
        simpa using replay
      rw [state.idle idle]
      rfl

theorem journalLoop_end (ends : Journal.sequence (journalBlock g V J s.i) ≠ Journal.sSequence s.jsb) :
    ∃ fs', (∀ rounds, journalLoop env recover inode (rounds + 1) s fs = some (some s.jsb, fs')) ∧
      fs'.On env g S V' ∧ fs.Quiet fs' := by
  obtain ⟨fs', allocated, read, on', quiet⟩ := journalBlock_run valid file same on inside
  refine ⟨fs', fun rounds => ?_, on', quiet⟩
  rw [journalLoop, bind_of_run allocated, bind_of_run read, get_bind]
  simp only [if_pos ends, ite_self, run_pure]

end Scan

theorem iterate_add_one (k p : Nat) : (fun x => x + 1)^[k] p = p + k := by
  induction k generalizing p with
  | zero => rfl
  | succ k ih =>
    rw [Function.iterate_succ_apply, ih]
    omega

theorem recordsAt_end {L : Nat → Buf} {p q : Nat} {stored : Bool} {records : List LogRecord}
    (written : RecordsAt (fun x => x + 1) L bs sequence stored p records q) : q = p + recordsLength records := by
  induction records generalizing p with
  | nil => exact (Eq.symm written : q = p)
  | cons r rest ih =>
    cases r with
    | revoke blocks =>
      have further := ih written.2.2
      simp only [recordsLength, List.map_cons, List.sum_cons, LogRecord.length] at further ⊢
      omega
    | descriptor copies =>
      have further := ih written.2.2.2
      rw [iterate_add_one] at further
      simp only [recordsLength, List.map_cons, List.sum_cons, LogRecord.length] at further ⊢
      omega

theorem committedAt_le {L : Nat → Buf} {p q : Nat} {committed : List (List LogRecord)}
    (written : CommittedAt (fun x => x + 1) L bs sequence p committed q) : p ≤ q := by
  induction committed generalizing sequence p with
  | nil => exact Nat.le_of_eq written
  | cons records later ih =>
    obtain ⟨m, here, -, further⟩ := written
    have start := recordsAt_end here
    have after : m + 1 ≤ q := ih further
    omega

def LogRecord.isDescriptor : LogRecord → Bool
  | .descriptor _ => true
  | .revoke _ => false

/-- The revoke blocks of committed transactions, the first of which has the number `sequence`. -/
def committedNotes : Nat → List (List LogRecord) → List (Nat × List Nat)
  | _, [] => []
  | sequence, records :: later => recordNotes sequence records ++ committedNotes (sequence + 1) later

/-- What the second pass writes for committed transactions. -/
def committedReplays (notes : List (Nat × List Nat)) : Nat → List (List LogRecord) → List (Nat × Buf)
  | _, [] => []
  | sequence, records :: later =>
    replays notes sequence (records.flatMap LogRecord.copies) ++ committedReplays notes (sequence + 1) later

structure JournalScan.Between (sequence : Nat) (s : JournalScan) : Prop where
  number : Journal.sSequence s.jsb = sequence
  running : s.running = false
  dbFound : s.dbFound = false

theorem JournalScan.Between.inside {s : JournalScan} (between : s.Between sequence) (L : Nat → Buf)
    (bs n : Nat) (stored : Bool) : s.Inside L bs n sequence stored [] := by
  refine ⟨between.number, by rw [between.dbFound, between.running], fun _ => rfl, fun running => ?_, fun _ k c at_ => ?_⟩
  · rw [between.running] at running
    cases running
  · rw [List.getElem?_nil] at at_
    cases at_

theorem JournalScan.commit_between {s : JournalScan} (number : Journal.sSequence s.jsb = sequence)
    (small : sequence + 1 < 2 ^ 32) : s.commit.Between (sequence + 1) := by
  refine ⟨?_, rfl, rfl⟩
  show getBe32 (putBe32 s.jsb 24 (Journal.sSequence s.jsb + 1)) 24 = sequence + 1
  rw [getBe32_putBe32, number, Nat.mod_eq_of_lt small]

section Records

variable {env : Env} {g : Geometry} {S : Nat → Prop} {V inode : Buf} {J : Nat → Nat} {n : Nat}
  (recover : Bool) (valid : g.Valid env) (file : JournalFile env g V inode S J n)
variable {notes : List (Nat × List Nat)} {q : Nat} {s : JournalScan} {V' : Buf} {fs : Fs}
include valid file

theorem journalLoop_records {stored : Bool} {records : List LogRecord} {copies : List LoggedCopy}
        (same : SameJournal g V inode S J n V') (on : fs.On env g S V')
    (written : RecordsAt (fun x => x + 1) (journalBlock g V J) g.bs (Journal.sSequence s.jsb) stored s.i records q)
    (room : q < n) (single : (if s.running then 1 else 0) + records.countP LogRecord.isDescriptor ≤ 1)
    (state : s.Inside (journalBlock g V J) g.bs n (Journal.sSequence s.jsb) stored copies)
    (noted : fs.NotedIn g.bs notes) :
    ∃ s' fs', (∀ rounds, journalLoop env recover inode (rounds + records.length) s fs =
        journalLoop env recover inode rounds s' fs') ∧
      s'.i = q ∧ s'.jsb = s.jsb ∧
      s'.Inside (journalBlock g V J) g.bs n (Journal.sSequence s.jsb) stored
        (copies ++ records.flatMap LogRecord.copies) ∧
      fs'.On env g S V' ∧ fs'.sb = fs.sb ∧
      fs'.NotedIn g.bs (if recover then notes else notes ++ recordNotes (Journal.sSequence s.jsb) records) := by
  induction records generalizing s fs copies notes with
  | nil =>
    refine ⟨s, fs, fun rounds => rfl, written, rfl, by rw [List.flatMap_nil, List.append_nil]; exact state, on, rfl, ?_⟩
    rw [recordNotes, List.filterMap_nil, List.append_nil, ite_self]
    exact noted
  | cons r rest ih =>
    have last := recordsAt_end written
    cases r with
    | revoke blocks =>
      obtain ⟨header, revoked, further⟩ := written
      simp only [recordsLength, List.map_cons, List.sum_cons, LogRecord.length] at last
      obtain ⟨fs₁, step, on₁, sb₁, noted₁⟩ := journalLoop_revoke recover valid file same on (by omega) header revoked noted
      have state₁ : ({ s with i := s.i + 1 } : JournalScan).Inside (journalBlock g V J) g.bs n
          (Journal.sSequence s.jsb) stored copies := ⟨state.number, state.found, state.idle, state.tags, state.stored⟩
      obtain ⟨s', fs', run, at_, jsb, inside', on', sb', noted'⟩ := ih (s := { s with i := s.i + 1 }) on₁ further
        single state₁ noted₁
      refine ⟨s', fs', fun rounds => ?_, at_, jsb, inside', on', sb'.trans sb₁, ?_⟩
      · rw [List.length_cons, ← Nat.add_assoc, step, run]
      · cases recover with
        | true => exact noted'
        | false =>
          simp only [Bool.false_eq_true, if_false, List.append_assoc] at noted' ⊢
          exact noted'
    | descriptor announced =>
      obtain ⟨header, tags, bytes, further⟩ := written
      rw [iterate_add_one] at further
      simp only [recordsLength, List.map_cons, List.sum_cons, LogRecord.length] at last
      have count : ((.descriptor announced : LogRecord) :: rest).countP LogRecord.isDescriptor =
          rest.countP LogRecord.isDescriptor + 1 := List.countP_cons_of_pos rfl
      rw [count] at single
      have idle : s.running = false := by
        cases running : s.running with
        | false => rfl
        | true =>
          rw [running, if_pos rfl] at single
          omega
      have none_before := state.idle idle
      subst none_before
      obtain ⟨fs₁, step, on₁, quiet₁⟩ := journalLoop_descriptor recover valid file same on (by omega) header tags idle
      have state₁ : ({ s with currDesc := s.i, running := true, dbFound := true, i := s.i + announced.length + 1 } :
          JournalScan).Inside (journalBlock g V J) g.bs n (Journal.sSequence s.jsb) stored announced := by
        refine ⟨state.number, rfl, fun idle => Bool.noConfusion idle, fun _ => ⟨tags, header.sequence, by dsimp only; omega⟩,
          fun isStored k c at_ j small => ?_⟩
        have byte := bytes isStored k c at_ j small
        rw [iterate_add_one] at byte
        rw [show s.i + 1 + k = s.i + (k + 1) by omega]
        exact byte
      obtain ⟨s', fs', run, at_, jsb, inside', on', sb', noted'⟩ :=
        ih (s := { s with currDesc := s.i, running := true, dbFound := true, i := s.i + announced.length + 1 }) on₁
          further (by dsimp only; rw [if_pos rfl]; omega) state₁ (noted.quiet quiet₁)
      refine ⟨s', fs', fun rounds => ?_, at_, jsb, inside', on', sb'.trans quiet₁.sb, noted'⟩
      rw [List.length_cons, ← Nat.add_assoc, step, run]

theorem journalLoop_committed {committed : List (List LogRecord)} {sequence : Nat}
    (same : SameJournal g V inode S J n V') (on : fs.On env g S V')
    (written : CommittedAt (fun x => x + 1) (journalBlock g V J) g.bs sequence s.i committed q) (room : q < n)
    (small : sequence + committed.length < 2 ^ 32)
    (single : ∀ records ∈ committed, records.countP LogRecord.isDescriptor ≤ 1)
    (harmless : ∀ records ∈ committed, Harmless g V inode S J n (records.flatMap LogRecord.copies))
    (between : s.Between sequence) (noted : fs.NotedIn g.bs notes) :
    ∃ s' fs' W, (∀ rounds, journalLoop env recover inode
        (rounds + (committed.map (fun records => records.length + 1)).sum) s fs =
        journalLoop env recover inode rounds s' fs') ∧
      s'.i = q ∧ s'.Between (sequence + committed.length) ∧
      W = (if recover then writeBlocks g V' (committedReplays notes sequence committed) else V') ∧
      fs'.On env g S W ∧ SameJournal g V inode S J n W ∧ fs'.sb = fs.sb ∧
      fs'.NotedIn g.bs (if recover then notes else notes ++ committedNotes sequence committed) := by
  induction committed generalizing s fs V' notes sequence with
  | nil =>
    refine ⟨s, fs, V', fun rounds => rfl, written, between, ?_, on, same, rfl, ?_⟩
    · rw [committedReplays, writeBlocks, List.foldl_nil, ite_self]
    · rw [committedNotes, List.append_nil, ite_self]
      exact noted
  | cons records later ih =>
    obtain ⟨m, records_, header, further⟩ := written
    rw [List.length_cons] at small
    have number := between.number
    subst number
    have after : m + 1 ≤ q := committedAt_le further
    rw [w32_of_lt (by omega)] at further
    obtain ⟨s₁, fs₁, run₁, at₁, jsb₁, inside₁, on₁, sb₁, noted₁⟩ := journalLoop_records recover valid file same on records_
      (by omega) (by
        rw [between.running]
        simpa using single records List.mem_cons_self) (between.inside _ _ _ true) noted
    have number₁ : Journal.sSequence s₁.jsb = Journal.sSequence s.jsb := by rw [jsb₁]
    rw [List.nil_append, ← number₁] at inside₁
    rw [← number₁, ← at₁] at header
    obtain ⟨fs₂, W₂, step, content₂, on₂, same₂, quiet₂⟩ := journalLoop_commit recover valid file same on₁ (by omega)
      header inside₁ (harmless records List.mem_cons_self) noted₁
    rw [number₁] at content₂
    have between₂ := JournalScan.commit_between number₁ (by omega)
    have start : s₁.commit.i = (fun x => x + 1) m := by rw [JournalScan.commit, at₁]
    rw [← start] at further
    obtain ⟨s', fs', W, run, at_, between', content, on', same', sb', noted'⟩ := ih same₂ on₂ further (by omega)
      (fun t member => single t (List.mem_cons_of_mem _ member))
      (fun t member => harmless t (List.mem_cons_of_mem _ member)) between₂ (noted₁.quiet quiet₂)
    refine ⟨s', fs', W, fun rounds => ?_, at_, ?_, ?_, on', same', sb'.trans (quiet₂.sb.trans sb₁), ?_⟩
    · rw [List.map_cons, List.sum_cons, ← run rounds, ← step, ← run₁]
      congr 1
      omega
    · rw [List.length_cons]
      rwa [Nat.add_assoc, Nat.add_comm 1] at between'
    · rw [content, content₂]
      cases recover with
      | false => rfl
      | true => rw [if_pos rfl, if_pos rfl, if_pos rfl, if_pos rfl, committedReplays, writeBlocks, writeBlocks, writeBlocks,
          List.foldl_append]
    · cases recover with
      | true => exact noted'
      | false =>
        rw [if_neg Bool.false_ne_true] at noted' ⊢
        rw [if_neg Bool.false_ne_true, List.append_assoc] at noted'
        exact noted'

theorem journalLoop_log {committed : List (List LogRecord)} {rest : List LogRecord}
    {e sequence rounds : Nat} (same : SameJournal g V inode S J n V')
    (on : fs.On env g S V')
    (written : CommittedAt (fun x => x + 1) (journalBlock g V J) g.bs sequence s.i committed q)
    (uncommitted : RecordsAt (fun x => x + 1) (journalBlock g V J) g.bs (sequence + committed.length) false q rest e)
    (ends : Journal.sequence (journalBlock g V J e) ≠ sequence + committed.length) (room : e < n)
    (small : sequence + committed.length < 2 ^ 32)
    (single : ∀ records ∈ committed, records.countP LogRecord.isDescriptor ≤ 1)
    (singleRest : rest.countP LogRecord.isDescriptor ≤ 1)
    (harmless : ∀ records ∈ committed, Harmless g V inode S J n (records.flatMap LogRecord.copies))
    (between : s.Between sequence) (noted : fs.NotedIn g.bs notes)
    (enough : (committed.map (fun records => records.length + 1)).sum + rest.length < rounds) :
    ∃ jsb fs' W, journalLoop env recover inode rounds s fs = some (some jsb, fs') ∧
      W = (if recover then writeBlocks g V' (committedReplays notes sequence committed) else V') ∧
      fs'.On env g S W ∧ SameJournal g V inode S J n W ∧ fs'.sb = fs.sb ∧
      fs'.NotedIn g.bs (if recover then notes
        else notes ++ committedNotes sequence committed ++ recordNotes (sequence + committed.length) rest) := by
  have behind := recordsAt_end uncommitted
  obtain ⟨s₁, fs₁, W, run₁, at₁, between₁, content, on₁, same₁, sb₁, noted₁⟩ := journalLoop_committed recover valid file
    same on written (by omega) small single harmless between noted
  have number₁ := between₁.number
  rw [← number₁, ← at₁] at uncommitted
  obtain ⟨s₂, fs₂, run₂, at₂, jsb₂, -, on₂, sb₂, noted₂⟩ := journalLoop_records recover valid file same₁ on₁ uncommitted
    room (by rw [between₁.running]; simpa using singleRest) (number₁.symm ▸ between₁.inside _ _ _ false) noted₁
  rw [← at₂, ← number₁, ← jsb₂] at ends
  obtain ⟨fs₃, run₃, on₃, quiet₃⟩ := journalLoop_end recover valid file same₁ on₂ (by omega) ends
  refine ⟨s₂.jsb, fs₃, W, ?_, content, on₃, same₁, quiet₃.sb.trans (sb₂.trans sb₁), ?_⟩
  · obtain ⟨extra, rfl⟩ : ∃ extra, rounds =
        extra + 1 + rest.length + (committed.map (fun records => records.length + 1)).sum :=
      ⟨rounds - 1 - rest.length - (committed.map (fun records => records.length + 1)).sum, by omega⟩
    rw [run₁, run₂, run₃]
  · have kept := noted₂.quiet quiet₃
    cases recover with
    | true => exact kept
    | false =>
      rw [number₁] at kept
      exact kept

end Records

end UuuFastboot.Ext4
