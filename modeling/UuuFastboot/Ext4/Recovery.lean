import UuuFastboot.Ext4.JournalScan

namespace UuuFastboot.Ext4

open Word Overlay Bytes Partial

variable {log : JournalLog} {p sequence q b i : Nat} {records : List LogRecord} {committed : List (List LogRecord)}
  {env : Env} {g : Geometry} {S : Nat → Prop} {V inode : Buf} {J : Nat → Nat}

theorem next_of_lt (below : p + 1 < log.maxlen) : log.next p = p + 1 := if_neg (by omega)

theorem iterate_next_of_lt {k : Nat} (below : p + k < log.maxlen) : log.next^[k] p = p + k := by
  induction k generalizing p with
  | zero => rfl
  | succ k ih =>
    rw [Function.iterate_succ_apply, next_of_lt (by omega), ih (by omega)]
    omega

theorem recordsAt_straight {L : Nat → Buf} {bs : Nat} {stored : Bool}
    (written : RecordsAt log.next L bs sequence stored p records q)
    (below : p + recordsLength records < log.maxlen) :
    RecordsAt (fun x => x + 1) L bs sequence stored p records q := by
  induction records generalizing p with
  | nil => exact written
  | cons r rest ih =>
    simp only [recordsLength, List.map_cons, List.sum_cons] at below ih
    cases r with
    | revoke blocks =>
      obtain ⟨header, revoked, further⟩ := written
      simp only [LogRecord.length] at below
      rw [next_of_lt (by omega)] at further
      exact ⟨header, revoked, ih further (show p + 1 + _ < _ by omega)⟩
    | descriptor copies =>
      obtain ⟨header, tags, bytes, further⟩ := written
      simp only [LogRecord.length] at below
      rw [iterate_next_of_lt (by omega)] at further
      refine ⟨header, tags, fun isStored k c at_ j small => ?_, ?_⟩
      · have index : k < copies.length := (List.getElem?_eq_some_iff.mp at_).1
        have byte := bytes isStored k c at_ j small
        rw [iterate_next_of_lt (by omega)] at byte
        rw [iterate_add_one]
        exact byte
      · rw [iterate_add_one]
        exact ih further (by omega)

theorem committedAt_straight {L : Nat → Buf} {bs : Nat}
    (written : CommittedAt log.next L bs sequence p committed q)
    (below : p + (committed.map (fun records => recordsLength records + 1)).sum < log.maxlen) :
    CommittedAt (fun x => x + 1) L bs sequence p committed q ∧
      q = p + (committed.map (fun records => recordsLength records + 1)).sum := by
  induction committed generalizing sequence p with
  | nil => exact ⟨written, (Eq.symm written : q = p)⟩
  | cons records later ih =>
    rw [List.map_cons, List.sum_cons] at below
    obtain ⟨m, here, header, further⟩ := written
    have straight := recordsAt_straight here (by omega)
    have position := recordsAt_end straight
    rw [next_of_lt (by omega)] at further
    obtain ⟨later_, end_⟩ := ih further (by omega)
    refine ⟨⟨m, straight, header, later_⟩, ?_⟩
    rw [List.map_cons, List.sum_cons]
    omega

theorem length_le_recordsLength (records : List LogRecord) : records.length ≤ recordsLength records := by
  induction records with
  | nil => exact Nat.zero_le _
  | cons r rest ih =>
    have one : 1 ≤ r.length := by cases r <;> simp [LogRecord.length]
    simp only [recordsLength, List.map_cons, List.sum_cons, List.length_cons] at ih ⊢
    omega

theorem headers_le (committed : List (List LogRecord)) :
    (committed.map (fun records => records.length + 1)).sum ≤
      (committed.map (fun records => recordsLength records + 1)).sum := by
  induction committed with
  | nil => exact Nat.le_refl _
  | cons records later ih =>
    have here := length_le_recordsLength records
    rw [List.map_cons, List.map_cons, List.sum_cons, List.sum_cons]
    omega

section Superblock

variable {env : Env} {g : Geometry} (valid : g.Valid env)
include valid

theorem two_superblocks_le : 2 * superblockSize ≤ g.totalBlocks * g.bs := by
  have table := valid.table
  have blocks : 1 ≤ g.gdtBlocks := by
    have bytes := Geometry.Valid.table_bytes (g := g)
    have groups := Nat.mul_pos valid.groups_pos valid.gdsize_pos
    by_contra none
    rw [show g.gdtBlocks = 0 by omega, Nat.zero_mul] at bytes
    omega
  have first := valid.first_eq
  unfold Geometry.gdtBlk at table
  unfold superblockSize
  rcases valid.bs_cases with size | size | size <;> rw [size] at first ⊢ <;> split_ifs at first <;> omega

theorem devBlksz_dvd_superblockSize : env.devBlksz ∣ superblockSize := by
  have sector := valid.sector
  exact Nat.pow_dvd_pow 2 (by omega : env.log2blksz ≤ 10)

theorem ext4ReadSuperblock_eq (card : Buf) :
    ext4ReadSuperblock env card = some (clip superblockSize (tail (env.volume card) superblockSize)) := by
  obtain ⟨k, size⟩ := devBlksz_dvd_superblockSize valid
  have positive := env.devBlksz_pos
  have room := (two_superblocks_le valid).trans valid.inside
  have addressed := valid.addressed
  have one : 0 < superblockSize := by decide
  have reach : superblockSize / env.devBlksz + (superblockSize - 1) / env.devBlksz < env.partSize := by
    have upper : (superblockSize - 1) / env.devBlksz < k := Nat.div_lt_of_lt_mul (by omega)
    have half : 2 * k ≤ env.partSize := by
      refine Nat.le_of_mul_le_mul_left ?_ positive
      rw [Nat.mul_comm env.devBlksz env.partSize, Nat.mul_left_comm, ← size]
      exact room
    rw [size, Nat.mul_div_cancel_left _ positive, ← size]
    omega
  have aligned : superblockSize % env.devBlksz = 0 := by rw [size, Nat.mul_mod_right]
  rw [ext4ReadSuperblock, fsDevread_eq, aligned, if_neg, Nat.add_zero,
    Nat.div_mul_cancel (devBlksz_dvd_superblockSize valid)]
  rw [lastSector, if_neg (by omega), Nat.zero_add, w32_of_lt (by omega)]
  omega

end Superblock

theorem putRecover_of_set {sb : Buf} (set_ : hasBit (Sblock.featureIncompat sb) incompatRecover = true) :
    putRecover sb true = sb := by
  have large : 2 ^ incompatRecover ≤ Sblock.featureIncompat sb := Nat.ge_two_pow_of_testBit set_
  rw [putRecover]
  simp only [set_, if_true]
  rw [Nat.sub_add_cancel large]
  exact putLe32_getLe32 sb 96

/-- The last part of the second pass writes the superblock of the journal, and nothing else on a volume
that is marked for recovery. -/
theorem journalRecovered_run {W : Buf} {n : Nat}
    {fs : Fs} (valid : g.Valid env) (file : JournalFile env g V inode S J n) (same : SameJournal g V inode S J n W)
    (some_block : 0 < n) (on : fs.On env g S W)
    (flagged : hasBit (Sblock.featureIncompat (tail W superblockSize)) incompatRecover = true) (jsb : Buf) :
    ∃ fs' buf, journalRecovered env inode jsb fs = some ((), fs') ∧
      env.volume fs'.card = overlay W (J 0 * g.bs) g.bs buf := by
  obtain ⟨root, blksz, sectPerblk, volume, caches⟩ := on
  have dvd := devBlksz_dvd_superblockSize valid
  have set_ : hasBit (Sblock.featureIncompat (clip superblockSize (tail W superblockSize))) incompatRecover = true := by
    rw [Sblock.featureIncompat, getLe32_clip (by decide)]
    exact flagged
  have read := ext4ReadSuperblock_eq valid fs.card
  rw [volume] at read
  -- The superblock is written as it is.
  have unchanged : env.volume (putExt4 env fs.card superblockSize (clip superblockSize (tail W superblockSize))
      superblockSize) = W := by
    have room := (two_superblocks_le valid).trans valid.inside
    rw [volume_putExt4 fs.card _ dvd dvd (by omega), volume]
    funext a
    unfold overlay
    split
    · next inside => rw [clip_of_lt (by omega), tail_apply, Nat.add_sub_cancel' inside.1]
    · rfl
  obtain ⟨fs₁, sb₁⟩ : ∃ fs₁ : Fs, fs₁ =
      Fs.write env { fs with sb := clip superblockSize (tail W superblockSize) }
        ⟨superblockSize, clip superblockSize (tail W superblockSize), superblockSize⟩ := ⟨_, rfl⟩
  have on₁ : fs₁.On env g S W := by
    subst sb₁
    exact ⟨root, blksz, sectPerblk, unchanged, caches⟩
  obtain ⟨fs₂, allocated, -, on₂, -⟩ := journalBlock_run valid file same on₁ some_block
  have reread : (ext4ReadSuperblock env fs₁.card).getD fs₁.sb = fs₁.sb := by
    rw [ext4ReadSuperblock_eq valid, on₁.volume, Option.getD_some, sb₁, Fs.write]
  have last : reloadSb env fs₁ = some ((), fs₁) := by
    rw [reloadSb, reread]
  have room : (J 0 + 1) * g.bs ≤ g.totalBlocks * g.bs := Nat.mul_le_mul_right _ (file.inside 0 some_block)
  have limit := valid.inside
  have size := valid.devBlksz_dvd_bs
  refine ⟨{ Fs.write env fs₂ ⟨J 0 * fs₂.blksz,
        putBe32 (putBe32 jsb 28 1) 24 (Journal.sSequence (putBe32 jsb 28 1) + 1), fs₂.blksz⟩ with
      revkBlkList := [], firstNode := true },
    putBe32 (putBe32 jsb 28 1) 24 (Journal.sSequence (putBe32 jsb 28 1) + 1), ?_, ?_⟩
  · rw [journalRecovered, run_bind, reloadSb, read, Option.getD_some, Option.bind_some, modify_bind]
    simp only
    rw [putRecover_of_set set_, run_bind, putSb, get_bind]
    simp only [put, Option.bind_some]
    rw [← sb₁, bind_of_run last, bind_of_run allocated, run_bind, putBlock, Option.bind_some, run_modify]
  · rw [Nat.add_mul, Nat.one_mul] at room
    rw [Fs.write, on₂.blksz, volume_putExt4 _ _ (size.mul_left _) size (by omega), on₂.volume]

/-- A journal as a writer of JBD2 logs leaves it, on a volume that is marked for recovery and that the
driver has just opened. What the log holds does not move the journal. -/
structure JournalLeft (env : Env) (g : Geometry) (V inode : Buf) (S : Nat → Prop) (J : Nat → Nat) (log : JournalLog)
    (q e : Nat) (fs : Fs) : Prop where
  valid : g.Valid env
  file : JournalFile env g V inode S J log.maxlen
  same : SameJournal g V inode S J log.maxlen V
  on : fs.On env g S V
  fresh : fs.NotedIn g.bs []
  flagged : hasBit (Sblock.featureIncompat fs.sb) incompatRecover = true
  written : log.WrittenIn (journalBlock g V J) g.bs q e
  harmless : ∀ records ∈ log.committed, Harmless g V inode S J log.maxlen (records.flatMap LogRecord.copies)
  rounds : log.length < env.rounds

/-- The shape of the logs that the scan can follow: they begin at the first block, do not wrap, have one
descriptor block to a transaction, and end where a block has another number in the place of a sequence
number. -/
structure JournalLog.Straight (log : JournalLog) (L : Nat → Buf) (e : Nat) : Prop where
  start : log.start = log.first
  wrap : log.start + log.length < log.maxlen
  sequence : log.sequence + log.committed.length < 2 ^ 32
  single : ∀ records ∈ log.committed, records.countP LogRecord.isDescriptor ≤ 1
  singleTail : log.tail.countP LogRecord.isDescriptor ≤ 1
  ends : Journal.sequence (L e) ≠ log.nextSequence

/-- The revoke blocks that the first pass finds, those of the uncommitted transaction included. -/
def JournalLog.notes (log : JournalLog) : List (Nat × List Nat) :=
  committedNotes log.sequence log.committed ++ recordNotes (log.sequence + log.committed.length) log.tail

section Passes

variable {env : Env} {g : Geometry} {V inode : Buf} {S : Nat → Prop} {J : Nat → Nat} {log : JournalLog} {q e : Nat}
  {fs : Fs} (left : JournalLeft env g V inode S J log q e fs) (straight : log.Straight (journalBlock g V J) e)
include left straight

theorem journalPass {notes : List (Nat × List Nat)} (recover : Bool) {jsb : Buf} {fs₁ : Fs}
    (on : fs₁.On env g S V) (noted : fs₁.NotedIn g.bs notes) (number : Journal.sSequence jsb = log.sequence) :
    ∃ jsb' fs' W, journalLoop env recover inode env.rounds ⟨log.start, false, false, 0, 0, jsb⟩ fs₁ =
        some (some jsb', fs') ∧
      W = (if recover then writeBlocks g V (committedReplays notes log.sequence log.committed) else V) ∧
      fs'.On env g S W ∧ SameJournal g V inode S J log.maxlen W ∧ fs'.sb = fs₁.sb ∧
      fs'.NotedIn g.bs (if recover then notes else notes ++ log.notes) := by
  have wrap := straight.wrap
  have headers := headers_le log.committed
  have headersTail := length_le_recordsLength log.tail
  have fuel := left.rounds
  have last : log.nextSequence = log.sequence + log.committed.length := w32_of_lt straight.sequence
  unfold JournalLog.length at wrap fuel
  obtain ⟨committed, position⟩ := committedAt_straight left.written.committed (by omega)
  have uncommitted := recordsAt_straight left.written.tail (by omega)
  have end_ := recordsAt_end uncommitted
  have ends := straight.ends
  rw [last] at uncommitted ends
  have run := journalLoop_log recover left.valid left.file (s := ⟨log.start, false, false, 0, 0, jsb⟩) left.same on
    committed uncommitted ends (by omega) straight.sequence straight.single straight.singleTail left.harmless
    ⟨number, rfl, rfl⟩ noted (show _ < env.rounds by omega)
  rw [List.append_assoc] at run
  exact run

theorem checkJournalState_run {notes : List (Nat × List Nat)} (recover : Bool) {fs₁ : Fs} (on : fs₁.On env g S V)
    (sb : fs₁.sb = fs.sb) (noted : fs₁.NotedIn g.bs notes) :
    ∃ jsb fs' W, ext4fsCheckJournalState env recover fs₁ =
        (do
          if recover then journalRecovered env inode jsb
          pure true : Run Bool) fs' ∧
      W = (if recover then writeBlocks g V (committedReplays notes log.sequence log.committed) else V) ∧
      fs'.On env g S W ∧ SameJournal g V inode S J log.maxlen W ∧ fs'.sb = fs.sb ∧
      fs'.NotedIn g.bs (if recover then notes else notes ++ log.notes) := by
  obtain ⟨positive, first, range⟩ := left.written.range
  obtain ⟨fs₂, allocated, read, on₂, quiet₂⟩ := journalBlock_run left.valid left.file left.same on (k := 0) (by omega)
  have flagged : hasBit (Sblock.featureIncompat fs₂.sb) incompatRecover = true := by
    rw [quiet₂.sb, sb]
    exact left.flagged
  have started : Journal.sStart (journalBlock g V J 0) ≠ 0 := by
    rw [left.written.start]
    omega
  -- The superblock of the journal gets a feature bit, its other fields stay.
  generalize superblock : (if hasBit (getBe32 (journalBlock g V J 0) 36) 0 = true then journalBlock g V J 0
    else putBe32 (journalBlock g V J 0) 36 (getBe32 (journalBlock g V J 0) 36 + 1)) = jsb
  have fields : Journal.sFirst jsb = log.start ∧ Journal.sSequence jsb = log.sequence := by
    rw [← superblock, straight.start, ← left.written.first, ← left.written.sequence]
    split
    · exact ⟨rfl, rfl⟩
    · exact ⟨getBe32_putBe32_of_ne (by omega), getBe32_putBe32_of_ne (by omega)⟩
  obtain ⟨jsb', fs₃, W, run, content, on₃, same₃, sb₃, noted₃⟩ := journalPass left straight recover on₂
    (noted.quiet quiet₂) fields.2
  refine ⟨jsb', fs₃, W, ?_, content, on₃, same₃, sb₃.trans (quiet₂.sb.trans sb), noted₃⟩
  rw [ext4fsCheckJournalState, bind_of_run (journalInode_run left.valid left.file left.same on), bind_of_run allocated, bind_of_run read, get_bind]
  simp only
  rw [superblock, fields.1, flagged, if_pos (by simpa using started), bind_of_run run]

theorem scan_run : ∃ fs', ext4fsCheckJournalState env false fs = some (true, fs') ∧ fs'.On env g S V ∧
    fs'.sb = fs.sb ∧ fs'.NotedIn g.bs log.notes := by
  obtain ⟨jsb, fs', W, run, rfl, on, -, sb, noted⟩ := checkJournalState_run left straight false left.on rfl left.fresh
  exact ⟨fs', run, on, sb, noted⟩

theorem recover_run {fs₁ : Fs} (on : fs₁.On env g S V) (sb : fs₁.sb = fs.sb) (noted : fs₁.NotedIn g.bs log.notes)
    (flagged : hasBit (Sblock.featureIncompat (tail (writeBlocks g V (committedReplays log.notes log.sequence
      log.committed)) superblockSize)) incompatRecover = true) :
    ∃ fs' buf, ext4fsCheckJournalState env true fs₁ = some (true, fs') ∧ env.volume fs'.card =
      overlay (writeBlocks g V (committedReplays log.notes log.sequence log.committed)) (J 0 * g.bs) g.bs buf := by
  obtain ⟨jsb, fs₂, W, run, content, on₂, same₂, -, -⟩ := checkJournalState_run left straight true on sb noted
  rw [if_pos rfl] at content
  subst content
  have positive := left.written.range
  obtain ⟨fs₃, buf, ended, volume⟩ := journalRecovered_run left.valid left.file same₂ (by omega) on₂ flagged jsb
  refine ⟨fs₃, buf, ?_, volume⟩
  rw [run]
  simp only [if_true]
  rw [bind_of_run ended, run_pure]

end Passes

theorem writeBlocks_apply (ws : List (Nat × Buf)) (below : i < g.bs) :
    writeBlocks g V ws (b * g.bs + i) = match RedoLog.lastOf ws b with
      | some buf => buf i
      | none => V (b * g.bs + i) := by
  induction ws using List.reverseRecOn with
  | nil => rfl
  | append_singleton ws w ih =>
    rw [writeBlocks, List.foldl_append, List.foldl_cons, List.foldl_nil, RedoLog.lastOf_concat]
    by_cases here : w.1 = b
    · rw [if_pos here, here, overlay_of_mem (by omega) (by omega), Nat.add_sub_cancel_left]
    · rw [if_neg here]
      have apart : b * g.bs + i < w.1 * g.bs ∨ w.1 * g.bs + g.bs ≤ b * g.bs + i := by
        rcases Nat.lt_or_gt_of_ne here with less | greater
        · have step : (w.1 + 1) * g.bs ≤ b * g.bs := Nat.mul_le_mul_right _ less
          rw [Nat.add_mul] at step
          omega
        · have step : (b + 1) * g.bs ≤ w.1 * g.bs := Nat.mul_le_mul_right _ greater
          rw [Nat.add_mul] at step
          omega
      rcases apart with before | after
      · rw [overlay_of_lt before]
        exact ih
      · rw [overlay_of_ge after]
        exact ih

theorem overlay_block_other {buf : Buf} {t x : Nat} (other : x ≠ t) (below : i < g.bs) :
    overlay V (t * g.bs) g.bs buf (x * g.bs + i) = V (x * g.bs + i) := by
  have write := writeBlocks_apply (V := V) [(t, buf)] (b := x) below
  rw [RedoLog.lastOf, List.filter_cons_of_neg (by simpa using Ne.symm other), List.filter_nil] at write
  exact write

theorem exists_recordNotes (sequence : Nat) :
    (∃ r ∈ recordNotes sequence records, b ∈ r.2) ↔ b ∈ records.flatMap LogRecord.revoked := by
  induction records with
  | nil => simp [recordNotes]
  | cons r rest ih =>
    rw [List.flatMap_cons, List.mem_append, ← ih]
    cases r with
    | revoke blocks =>
      rw [show recordNotes sequence (.revoke blocks :: rest) = (sequence, blocks) :: recordNotes sequence rest from rfl]
      simp only [List.mem_cons, exists_eq_or_imp]
      rfl
    | descriptor copies =>
      rw [show recordNotes sequence (.descriptor copies :: rest) = recordNotes sequence rest from rfl]
      exact (or_iff_right List.not_mem_nil).symm

theorem recordNotes_number {r : Nat × List Nat}
    (member : r ∈ recordNotes sequence records) : r.1 = sequence := by
  obtain ⟨record, -, note⟩ := List.mem_filterMap.mp member
  cases record with
  | revoke blocks =>
    cases note
    rfl
  | descriptor copies => cases note

theorem exists_committedNotes (sequence : Nat) :
    (∃ r ∈ committedNotes sequence committed, b ∈ r.2) ↔ RedoLog.Revokes (committed.map redo) b := by
  induction committed generalizing sequence with
  | nil => simp [committedNotes, RedoLog.Revokes]
  | cons records later ih =>
    rw [committedNotes]
    simp only [List.mem_append, or_and_right, exists_or, ih, exists_recordNotes, RedoLog.Revokes, List.map_cons,
      List.mem_cons, exists_eq_left]
    rfl

theorem committedNotes_number {r : Nat × List Nat}
    (member : r ∈ committedNotes sequence committed) : sequence ≤ r.1 ∧ r.1 < sequence + committed.length := by
  induction committed generalizing sequence with
  | nil => cases member
  | cons records later ih =>
    rw [committedNotes] at member
    rw [List.length_cons]
    rcases List.mem_append.mp member with here | further
    · rw [recordNotes_number here]
      omega
    · have bounds := ih further
      omega

theorem committedNotes_append (sequence : Nat) (first second : List (List LogRecord)) :
    committedNotes sequence (first ++ second) =
      committedNotes sequence first ++ committedNotes (sequence + first.length) second := by
  induction first generalizing sequence with
  | nil => rfl
  | cons records later ih =>
    rw [List.cons_append, committedNotes, committedNotes, ih, List.append_assoc, List.length_cons,
      show sequence + 1 + later.length = sequence + (later.length + 1) by omega]

/-- The revocations on which the driver and the log agree: a copy that its own transaction revokes is
revoked later as well, and one that the uncommitted transaction revokes is revoked by a committed one. -/
def JournalLog.RevokedAlike (log : JournalLog) : Prop :=
  ∀ before records later, log.committed = before ++ records :: later → ∀ c ∈ records.flatMap LogRecord.copies,
    (c.block ∈ records.flatMap LogRecord.revoked →
      RedoLog.Revokes (later.map redo) c.block ∨ c.block ∈ log.tail.flatMap LogRecord.revoked) ∧
    (c.block ∈ log.tail.flatMap LogRecord.revoked → RedoLog.Revokes ((records :: later).map redo) c.block)

theorem replayed_iff (alike : log.RevokedAlike) {before later : List (List LogRecord)}
    (split : log.committed = before ++ records :: later) {c : LoggedCopy}
    (member : c ∈ records.flatMap LogRecord.copies) :
    Replayed log.notes (log.sequence + before.length) c ↔ ¬ RedoLog.Revokes ((records :: later).map redo) c.block := by
  have notes : (∃ r ∈ log.notes, log.sequence + before.length < r.1 ∧ c.block ∈ r.2) ↔
      RedoLog.Revokes (later.map redo) c.block ∨ c.block ∈ log.tail.flatMap LogRecord.revoked := by
    rw [← exists_committedNotes (log.sequence + before.length + 1),
      ← exists_recordNotes (log.sequence + log.committed.length)]
    have all : log.notes = committedNotes log.sequence before ++ (recordNotes (log.sequence + before.length) records ++
        committedNotes (log.sequence + before.length + 1) later) ++
          recordNotes (log.sequence + log.committed.length) log.tail := by
      rw [JournalLog.notes, split, committedNotes_append, committedNotes]
    have length : log.committed.length = before.length + (later.length + 1) := by
      rw [split, List.length_append, List.length_cons]
    rw [all]
    simp only [List.mem_append]
    constructor
    · rintro ⟨r, (early | own | late) | uncommitted, above, revoked⟩
      · have number := committedNotes_number early
        omega
      · have number := recordNotes_number own
        omega
      · exact Or.inl ⟨r, late, revoked⟩
      · exact Or.inr ⟨r, uncommitted, revoked⟩
    · rintro (⟨r, late, revoked⟩ | ⟨r, uncommitted, revoked⟩)
      · have number := committedNotes_number late
        exact ⟨r, Or.inl (Or.inr (Or.inr late)), by omega, revoked⟩
      · have number := recordNotes_number uncommitted
        exact ⟨r, Or.inr uncommitted, by omega, revoked⟩
  obtain ⟨own, tail⟩ := alike before records later split c member
  unfold Replayed
  rw [not_iff_not, notes]
  constructor
  · rintro (later_ | uncommitted)
    · obtain ⟨t, in_, revoked⟩ := later_
      exact ⟨t, by rw [List.map_cons]; exact List.mem_cons_of_mem _ in_, revoked⟩
    · exact tail uncommitted
  · rintro ⟨t, in_, revoked⟩
    rw [List.map_cons] at in_
    rcases List.mem_cons.mp in_ with rfl | further
    · exact own revoked
    · exact Or.inl ⟨t, further, revoked⟩

theorem committedReplays_eq (alike : log.RevokedAlike) {before rest : List (List LogRecord)}
    (split : log.committed = before ++ rest) :
    committedReplays log.notes (log.sequence + before.length) rest =
      (RedoLog.valid (rest.map redo)).map (Prod.map id LoggedCopy.logged) := by
  induction rest generalizing before with
  | nil => rfl
  | cons records later ih =>
    have further := @ih (before ++ [records]) (by rw [split, List.append_assoc, List.singleton_append])
    rw [List.length_append, List.length_singleton, ← Nat.add_assoc] at further
    rw [committedReplays, further, List.map_cons, RedoLog.valid, List.map_append]
    congr 1
    rw [replays, redo, List.filter_map, List.map_map]
    have alikeHere : (records.flatMap LogRecord.copies).filter
        (fun c => decide (Replayed log.notes (log.sequence + before.length) c)) =
        (records.flatMap LogRecord.copies).filter
          ((fun c => decide ¬ RedoLog.Revokes (redo records :: later.map redo) c.1) ∘ fun c => (c.block, c)) :=
      List.filter_congr (fun c member => decide_eq_decide.mpr (replayed_iff alike split member))
    rw [alikeHere]
    rfl

structure JournalLog.Recoverable (log : JournalLog) (g : Geometry) (V : Buf) (L : Nat → Buf) (e : Nat) : Prop where
  straight : log.Straight L e
  alike : log.RevokedAlike
  unescaped : ∀ b c, log.lastCopy b = some c → c.escaped = false
  flagged : hasBit (Sblock.featureIncompat (Bytes.tail (log.restored g.bs V) superblockSize)) incompatRecover = true

theorem writeBlocks_restored (alike : log.RevokedAlike)
    (unescaped : ∀ b c, log.lastCopy b = some c → c.escaped = false) :
    writeBlocks g V (committedReplays log.notes log.sequence log.committed) = log.restored g.bs V := by
  funext a
  have bound := Nat.mod_lt a (Geometry.bs_pos (g := g))
  have position := Nat.div_add_mod' a g.bs
  have valid := committedReplays_eq alike (List.nil_append log.committed).symm
  rw [List.length_nil, Nat.add_zero] at valid
  have byte := writeBlocks_apply (V := V) (committedReplays log.notes log.sequence log.committed) (b := a / g.bs) bound
  rw [position, valid, RedoLog.lastOf_map] at byte
  rw [valid, byte, JournalLog.restored]
  cases last : log.lastCopy (a / g.bs) with
  | none =>
    rw [JournalLog.lastCopy] at last
    rw [last]
    rfl
  | some c =>
    have plain := unescaped _ c last
    rw [JournalLog.lastCopy] at last
    rw [last]
    simp only [Option.map_some]
    rw [LoggedCopy.logged, plain, if_neg Bool.false_ne_true]

/-- Both passes of `ext4fs_init_journal`. -/
def recoverJournal (env : Env) : Run Bool := do
  if ← ext4fsCheckJournalState env false then ext4fsCheckJournalState env true else pure false

theorem harmless_of_apart {n : Nat}
    {copies : List LoggedCopy} (valid : g.Valid env) (file : JournalFile env g V inode S J n)
    (apart : ∀ c ∈ copies, c.block < g.totalBlocks ∧ (∀ x, S x → x ≠ c.block) ∧ (∀ k < n, J k ≠ c.block) ∧
      g.inodeBlk V journalIno ≠ c.block ∧ (c.block < g.gdtBlk ∨ g.gdtBlk + g.gdtBlocks ≤ c.block)) :
    Harmless g V inode S J n copies := by
  intro c member
  obtain ⟨inside, map, blocks, inodeBlk, table⟩ := apart c member
  refine ⟨inside, fun V' same => ?_⟩
  have positive := Geometry.bs_pos (g := g)
  have groups : (journalIno - 1) / g.inodesPerGroup < g.groups := by
    refine Nat.div_lt_of_lt_mul ?_
    rw [Nat.mul_comm]
    exact Nat.lt_of_lt_of_le (by decide) file.number
  have inTable := Geometry.Valid.desc_le groups
  have apartBytes (a : Nat) (lower : g.gdtBlk * g.bs ≤ a) (upper : a < (g.gdtBlk + g.gdtBlocks) * g.bs) :
      overlay V' (c.block * g.bs) g.bs c.logged a = V' a := by
    have block := Nat.div_add_mod' a g.bs
    rw [← block]
    refine overlay_block_other (fun same => ?_) (Nat.mod_lt _ positive)
    have first : g.gdtBlk ≤ a / g.bs := (Nat.le_div_iff_mul_le positive).mpr lower
    have last : a / g.bs < g.gdtBlk + g.gdtBlocks := (Nat.div_lt_iff_lt_mul positive).mpr upper
    omega
  have descriptor (i : Nat) (below : i < g.gdsize) :
      g.desc (overlay V' (c.block * g.bs) g.bs c.logged) ((journalIno - 1) / g.inodesPerGroup) i =
        g.desc V' ((journalIno - 1) / g.inodesPerGroup) i := by
    rw [Geometry.desc, tail_apply, Geometry.desc, tail_apply]
    exact apartBytes _ (by omega) (by rw [Nat.add_mul]; omega)
  have place : g.inodeBlk (overlay V' (c.block * g.bs) g.bs c.logged) journalIno = g.inodeBlk V' journalIno := by
    unfold Geometry.inodeBlk Geometry.itab Desc.inodeTableId Desc.wide32
    have size := valid.descriptor
    congr 2
    · exact getLe32_congr (fun i below => descriptor _ (by omega))
    · split
      · congr 1
        exact getLe32_congr (fun i below => descriptor _ (by omega))
      · rfl
  have slot := valid.inodeOff_le journalIno
  refine ⟨place.trans same.inodeBlk, ?_, fun x inS => (same.map x inS).trans (fun i below => ?_),
    fun k below => (same.blocks k below).trans (fun i small => ?_)⟩
  · rw [← same.inode, Geometry.inodeAt, Geometry.inodeAt, place, same.inodeBlk]
    funext i
    unfold clip
    split
    · next below =>
      exact overlay_block_other inodeBlk (by omega)
    · rfl
  · exact (overlay_block_other (map x inS) below).symm
  · exact (overlay_block_other (blocks k below) small).symm

/-- A volume of 64 blocks with a journal in its blocks 20 to 27. The log has one transaction, with a copy
of block 50 that is escaped or not. -/
def smallJournal (escaped : Bool) : Buf :=
  let sb := putLe32 (putLe32 (putLe32 zeros 1028 64) 1044 1) 1056 8192
  let sb := putLe32 (putLe16 (putLe32 sb 1064 16) 1080 ext2Magic) 1120 4
  let table := putLe32 sb 2056 5
  let inode := (List.range 8).foldl (fun b k => putLe32 b (6056 + 4 * k) (20 + k)) table
  let jsb := putBe32 (putBe32 (putBe32 (putBe32 inode 20496 8) 20500 1) 20504 1) 20508 1
  let descriptor := putBe32 (putBe32 (putBe32 jsb 21504 journalMagic) 21508 1) 21512 1
  let tag := putBe32 (putBe32 descriptor 21516 50) 21520 (if escaped then 9 else 8)
  let copy := putBe32 tag 22536 7
  putBe32 (putBe32 (putBe32 copy 23552 journalMagic) 23556 2) 23560 1

/-- What the journal holds of block 50; when escaped, with the magic number put back. -/
def smallCopy (escaped : Bool) : LoggedCopy where
  block := 50
  data := if escaped then putBe32 (tail (smallJournal escaped) 22528) 0 journalMagic else tail (smallJournal escaped) 22528
  escaped := escaped
  sameUuid := false

def smallLog (escaped : Bool) : JournalLog where
  first := 1
  maxlen := 8
  start := 1
  sequence := 1
  committed := [[.descriptor [smallCopy escaped]]]
  tail := []

def smallEnv : Env where
  log2blksz := 9
  partStart := 0
  partSize := 128
  beyond _ := 0
  levels := 8
  rounds := 8
  crc16 _ _ _ := 0

def smallGeometry : Geometry where
  log2bs := 10
  firstDataBlock := 1
  totalBlocks := 64
  blocksPerGroup := 8192
  inodesPerGroup := 16
  inodesz := 128
  gdsize := 32

def smallFs (escaped : Bool) : Fs where
  card := smallJournal escaped
  trace := []
  root := ⟨tail (smallJournal escaped) 1024, zeros, 128, 32⟩
  caches := ext4fsReinitGlobal
  blksz := 1024
  sectPerblk := 2
  noBlkgrp := 1
  noBlkPergdt := 1
  gdtableBlkno := 2
  sb := tail (smallJournal escaped) 1024
  gdtable := zeros
  blkBmaps _ := zeros
  inodeBmaps _ := zeros
  currBlkno := 0
  firstPassBbmap := 0
  currInodeNo := 0
  firstPassIbmap := 0
  journalPtr := []
  dirtyBlockPtr := []
  jrnlBlkIdx := 0
  revkBlkList := []
  firstNode := true
  gParentInode := zeros
  prev := ⟨0, 0, 0, 0, 0, 0⟩

theorem smallGeometry_valid : smallGeometry.Valid smallEnv where
  sector := by decide
  log2 := by decide
  first := by decide
  perGroup := by decide
  descriptor := Or.inl rfl
  inode := ⟨7, by decide, by decide, rfl⟩
  inodes := by decide
  inodeCount := by decide
  nonempty := by decide
  inside := by decide
  addressed := by decide
  table := by decide

theorem smallJournal_file (escaped : Bool) :
    JournalFile smallEnv smallGeometry (smallJournal escaped) (smallGeometry.inodeAt (smallJournal escaped) journalIno)
      (fun _ => False) (fun k => 20 + k) 8 := by
  have found : ∀ escaped, ∀ k < 8, smallGeometry.lookup 8 (smallJournal escaped)
      (smallGeometry.inodeAt (smallJournal escaped) journalIno) k = some (20 + k, []) := by decide +kernel
  refine ⟨by decide, by revert escaped; decide +kernel, fun k below => ⟨[], ⟨found escaped k below, Or.inr ?_, Or.inr ?_, by omega⟩, ?_⟩,
    fun k below => ?_⟩
  · rw [Geometry.depth, if_pos (by unfold indirectBlocks; omega)]
    rfl
  · unfold Geometry.limit indirectBlocks
    omega
  · exact fun x member => absurd member List.not_mem_nil
  · show 20 + k < 64
    omega

def smallBlock (escaped : Bool) : Nat → Buf := journalBlock smallGeometry (smallJournal escaped) (fun k => 20 + k)

theorem smallCopy_logged (escaped : Bool) (below : i < 1024) :
    smallBlock escaped 2 i = (smallCopy escaped).logged i := by
  have stored : smallBlock escaped 2 i = tail (smallJournal escaped) 22528 i := clip_of_lt below
  rw [stored]
  cases escaped with
  | false => rfl
  | true =>
    show _ = if i < 4 then 0 else putBe32 (tail (smallJournal true) 22528) 0 journalMagic i
    split
    · next low =>
      have zero : ∀ i < 4, tail (smallJournal true) 22528 i = 0 := by decide +kernel
      exact zero i low
    · rw [putBe32, overlay_of_ge (by omega)]

theorem smallLog_written (escaped : Bool) : (smallLog escaped).WrittenIn (smallBlock escaped) 1024 4 4 := by
  refine ⟨?_, ?_, ?_, ?_, ⟨Nat.one_pos, Nat.le_refl 1, (by decide : 1 < 8)⟩,
    ⟨3, ⟨⟨?_, ?_, ?_⟩, ⟨⟨by decide, ?_, ?_, ?_, ?_⟩, Or.inl rfl⟩, ?_, rfl⟩, ⟨?_, ?_, ?_⟩, rfl⟩, rfl, ?_⟩
  case refine_12 =>
    rintro - k c at_ i below
    cases k with
    | zero =>
      cases at_
      exact smallCopy_logged escaped below
    | succ k => cases at_
  all_goals
    revert escaped
    decide +kernel

theorem smallJournal_left (escaped : Bool) :
    JournalLeft smallEnv smallGeometry (smallJournal escaped) (smallGeometry.inodeAt (smallJournal escaped) journalIno)
      (fun _ => False) (fun k => 20 + k) (smallLog escaped) 4 4 (smallFs escaped) where
  valid := smallGeometry_valid
  file := smallJournal_file escaped
  same := ⟨rfl, rfl, fun _ _ => .refl _ _, fun _ _ => .refl _ _⟩
  on := by
    refine ⟨⟨?_, ?_, ?_, ?_, ?_, rfl, rfl⟩, rfl, ?_, ?_, Caches.Ok.reinit _ _⟩
    case refine_7 =>
      funext i
      show smallJournal escaped (0 + i) = smallJournal escaped i
      rw [Nat.zero_add]
    all_goals
      revert escaped
      decide +kernel
  fresh := ⟨.nil, ⟨fun _ => rfl, fun _ => rfl⟩⟩
  flagged := by
    revert escaped
    decide +kernel
  written := smallLog_written escaped
  harmless := by
    intro records member
    cases List.mem_singleton.mp member
    refine harmless_of_apart smallGeometry_valid (smallJournal_file escaped) ?_
    intro c in_
    cases List.mem_singleton.mp in_
    have inodeBlk : ∀ escaped, smallGeometry.inodeBlk (smallJournal escaped) journalIno ≠ 50 := by decide +kernel
    refine ⟨(by decide : 50 < 64), fun _ none => none.elim, fun k below => ?_, inodeBlk escaped,
      Or.inr (by decide : 3 ≤ 50)⟩
    have small : k < 8 := below
    show 20 + k ≠ 50
    omega
  rounds := by cases escaped <;> decide

theorem smallLog_lastCopy (escaped : Bool) (b : Nat) :
    (smallLog escaped).lastCopy b = if 50 = b then some (smallCopy escaped) else none := by
  have one : RedoLog.valid ((smallLog escaped).committed.map redo) = [] ++ [(50, smallCopy escaped)] := rfl
  rw [JournalLog.lastCopy, one, RedoLog.lastOf_concat]
  rfl

end UuuFastboot.Ext4
