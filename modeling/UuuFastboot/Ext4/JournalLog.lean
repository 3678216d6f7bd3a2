import UuuFastboot.Lib.RedoLog
import UuuFastboot.Ext4.Journal
import UuuFastboot.Ext4.CachedLookup

namespace UuuFastboot.Ext4

open Word Overlay Bytes

structure LoggedCopy where
  block : Nat
  data : Buf
  escaped : Bool
  sameUuid : Bool

/-- The copy as it lies in the log. One that begins with the magic number of
the journal is escaped: the number is taken out. -/
def LoggedCopy.logged (c : LoggedCopy) : Buf :=
  if c.escaped then fun i => if i < 4 then 0 else c.data i else c.data

inductive LogRecord
  | descriptor (copies : List LoggedCopy)
  | revoke (blocks : List Nat)

def LogRecord.copies : LogRecord → List LoggedCopy
  | .descriptor copies => copies
  | .revoke _ => []

def LogRecord.revoked : LogRecord → List Nat
  | .descriptor _ => []
  | .revoke blocks => blocks

/-- A transaction of the journal as one of a redo log. -/
def redo (records : List LogRecord) : RedoLog.Transaction Nat LoggedCopy where
  copies := (records.flatMap LogRecord.copies).map (fun c => (c.block, c))
  revoked := records.flatMap LogRecord.revoked

/-- The log in a journal: the committed transactions, and the records of one that
was not committed. -/
structure JournalLog where
  first : Nat
  maxlen : Nat
  start : Nat
  sequence : Nat
  committed : List (List LogRecord)
  tail : List LogRecord

namespace JournalLog

def next (log : JournalLog) (p : Nat) : Nat := if p + 1 = log.maxlen then log.first else p + 1

def lastCopy (log : JournalLog) (b : Nat) : Option LoggedCopy :=
  RedoLog.lastOf (RedoLog.valid (log.committed.map redo)) b

def restored (log : JournalLog) (bs : Nat) (V : Buf) : Buf := fun a =>
  match log.lastCopy (a / bs) with
  | some c => c.data (a % bs)
  | none => V a

end JournalLog

/-! How a log is written. `L` gives the blocks of the journal file. -/

def journalMagic : Nat := 0xc03b3998

structure HeaderAt (b : Buf) (type sequence : Nat) : Prop where
  magic : getBe32 b 0 = journalMagic
  type : Journal.blocktype b = type
  sequence : Journal.sequence b = sequence

def TagsAt (bs : Nat) (b : Buf) : Nat → List LoggedCopy → Prop
  | _, [] => False
  | ofs, c :: rest =>
    (ofs + 8 ≤ bs ∧ getBe32 b ofs = c.block ∧ hasBit (getBe32 b (ofs + 4)) 0 = c.escaped ∧
      hasBit (getBe32 b (ofs + 4)) 1 = c.sameUuid ∧ hasBit (getBe32 b (ofs + 4)) 3 = rest.isEmpty) ∧
      (rest = [] ∨ TagsAt bs b (if c.sameUuid then ofs + 8 else ofs + 24) rest)

structure RevokedAt (bs : Nat) (b : Buf) (blocks : List Nat) : Prop where
  count : getBe32 b 12 = 16 + 4 * blocks.length
  inside : 16 + 4 * blocks.length ≤ bs
  block : ∀ k x, blocks[k]? = some x → getBe32 b (16 + 4 * k) = x

section Written

variable (next : Nat → Nat) (L : Nat → Buf) (bs : Nat)

/-- Records of the transaction `sequence` from block `p` of the journal to block `q`. The copies
themselves are there only if they were `stored`. -/
def RecordsAt (sequence : Nat) (stored : Bool) : Nat → List LogRecord → Nat → Prop
  | p, [], q => p = q
  | p, .revoke blocks :: rest, q =>
    HeaderAt (L p) 5 sequence ∧ RevokedAt bs (L p) blocks ∧ RecordsAt sequence stored (next p) rest q
  | p, .descriptor copies :: rest, q =>
    HeaderAt (L p) 1 sequence ∧ TagsAt bs (L p) 12 copies ∧
      (stored → ∀ k c, copies[k]? = some c → ∀ i < bs, L (next^[k + 1] p) i = c.logged i) ∧
      RecordsAt sequence stored (next^[copies.length + 1] p) rest q

def CommittedAt : Nat → Nat → List (List LogRecord) → Nat → Prop
  | _, p, [], q => p = q
  | sequence, p, records :: later, q =>
    ∃ m, RecordsAt next L bs sequence true p records m ∧ HeaderAt (L m) 2 sequence ∧
      CommittedAt (w32 (sequence + 1)) (next m) later q

end Written

/-- The number that a transaction behind the committed ones would have. -/
def JournalLog.nextSequence (log : JournalLog) : Nat := w32 (log.sequence + log.committed.length)

/-- A journal with the log in it. Behind its last record, at block `e`, lies no block of that
transaction. -/
structure JournalLog.WrittenIn (log : JournalLog) (L : Nat → Buf) (bs q e : Nat) : Prop where
  first : Journal.sFirst (L 0) = log.first
  maxlen : getBe32 (L 0) 16 = log.maxlen
  start : Journal.sStart (L 0) = log.start
  sequence : Journal.sSequence (L 0) = log.sequence
  range : 0 < log.first ∧ log.first ≤ log.start ∧ log.start < log.maxlen
  committed : CommittedAt log.next L bs log.sequence log.start log.committed q
  tail : RecordsAt log.next L bs log.nextSequence false q log.tail e
  ends : ¬ (getBe32 (L e) 0 = journalMagic ∧ Journal.sequence (L e) = log.nextSequence)

def LogRecord.length : LogRecord → Nat
  | .descriptor copies => copies.length + 1
  | .revoke _ => 1

def recordsLength (records : List LogRecord) : Nat := (records.map LogRecord.length).sum

def JournalLog.length (log : JournalLog) : Nat :=
  (log.committed.map (fun records => recordsLength records + 1)).sum + recordsLength log.tail

end UuuFastboot.Ext4
