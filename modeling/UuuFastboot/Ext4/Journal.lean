import UuuFastboot.Ext4.State

namespace UuuFastboot.Ext4

open Word Overlay Bytes

def maxJournalEntries : Nat := 100

/-- `EXT2_JOURNAL_INO` -/
def journalIno : Nat := 8

/-- Add an entry to `journal_ptr`; there is no room behind the last one. -/
def pushJournal (blknr : Nat) (buf : Buf) : Run Unit := fun fs =>
  if maxJournalEntries ≤ fs.journalPtr.length then none
  else some ((), { fs with journalPtr := fs.journalPtr ++ [(blknr, buf)] })

def ext4fsLogJournal (buf : Buf) (blknr : Nat) : Run Unit := fun fs =>
  if fs.journalPtr.any (fun entry => entry.1 == blknr) then some ((), fs) else pushJournal blknr buf fs

def ext4fsPutMetadata (buf : Buf) (blknr : Nat) : Run Unit := fun fs =>
  if maxJournalEntries ≤ fs.dirtyBlockPtr.length then none
  else some ((), { fs with dirtyBlockPtr := fs.dirtyBlockPtr ++ [(blknr, buf)] })

/-- One round of the loop of `ext4fs_log_gdt`. -/
def logGdtBlock (i : Nat) : Run (Option Unit) := do
  let fs ← get
  pushJournal (fs.gdtableBlkno + i) (tail fs.gdtable (i * fs.blksz))
  pure none

/-- `ext4fs_log_gdt(fs->gdtable)` -/
def ext4fsLogGdt : Run Unit := do
  let fs ← get
  let _ ← shortLoop logGdtBlock fs.noBlkPergdt 0

/-- The journal inode; what the code goes on with when it cannot be read is
not determined. -/
def journalInode (env : Env) : Run Buf := do
  match ← ext4fsIget env journalIno with
  | none => undefined
  | some inode => pure inode

/-! Fields of `journal_superblock_t` and of the headers of journal blocks. -/

namespace Journal

def blocktype (b : Buf) : Nat := getBe32 b 4

def sequence (b : Buf) : Nat := getBe32 b 8

def sFirst (b : Buf) : Nat := getBe32 b 20

def sSequence (b : Buf) : Nat := getBe32 b 24

def sStart (b : Buf) : Nat := getBe32 b 28

end Journal

def ext4fsPushRevokeBlk (buf : Buf) : Run Unit := fun fs =>
  if fs.firstNode then some ((), { fs with revkBlkList := [buf], firstNode := false })
  else if fs.revkBlkList.isEmpty then none
  else some ((), { fs with revkBlkList := fs.revkBlkList ++ [buf] })

/-- Whether `blknr` stands in a revoke block among its words from `offset` on. -/
def revokeScan (revk : Buf) (blknr max : Nat) : Nat → Nat → Bool
  | 0, _ => false
  | left + 1, offset =>
    if max ≤ offset then false
    else if getBe32 revk offset = blknr then true
    else revokeScan revk blknr max left (offset + 4)

/-- `check_blknr_for_revoke(blknr, sequence_no) == 0`. A count from 2^31 on is taken for a negative one. -/
def checkBlknrForRevoke (revkBlkList : List Buf) (blknr sequenceNo : Nat) : Bool :=
  revkBlkList.any (fun revk =>
    let max := getBe32 revk 12
    decide (sequenceNo < Journal.sequence revk ∧ max < 2 ^ 31) && revokeScan revk blknr max max 16)

/-- One tag of `recover_transaction`: unless it is revoked, block `i` of the journal is copied to its place. The result
is what `metadata_buff` holds, which a read that fails leaves as it was. -/
def replayTag (env : Env) (inode jdb : Buf) (i block : Nat) (metadata : Buf) : Run Buf := do
  let fs ← get
  if !fs.revkBlkList.isEmpty && checkBlknrForRevoke fs.revkBlkList block (Journal.sequence jdb) then pure metadata
  else do
    let blknr ← allocatedBlock env inode i
    let read ← readBlock env blknr
    putBlock env block (read.getD metadata)
    pure (read.getD metadata)

/-- The loop of `recover_transaction` over the tags of a descriptor block. -/
def recoverLoop (env : Env) (inode jdb : Buf) : Nat → Nat → Nat → Buf → Run Unit
  | 0, _, _, _ => pure ()
  | rounds + 1, ofs, i, metadata => do
    let fs ← get
    if fs.blksz < ofs + 8 then pure ()
    else
      let flags := getBe32 jdb (ofs + 4)
      let next := if hasBit flags 1 then ofs + 8 else ofs + 24
      let metadata ← replayTag env inode jdb (i + 1) (getBe32 jdb ofs) metadata
      if hasBit flags 3 then pure () else recoverLoop env inode jdb rounds next (i + 1) metadata

def recoverTransaction (env : Env) (prevDescLogicalNo : Nat) : Run Unit := do
  let inode ← journalInode env
  let blknr ← allocatedBlock env inode prevDescLogicalNo
  let jdb ← blockOrZeros env blknr
  let fs ← get
  recoverLoop env inode jdb fs.blksz 12 prevDescLogicalNo zeros

/-- The number of tags of a descriptor block, counted by the scan. -/
def tagScan (blksz : Nat) (jdb : Buf) : Nat → Nat → Nat → Nat
  | 0, _, i => i
  | rounds + 1, ofs, i =>
    if blksz < ofs + 8 then i
    else
      let flags := getBe32 jdb (ofs + 4)
      let next := if hasBit flags 1 then ofs + 8 else ofs + 24
      if hasBit flags 3 then i + 1 else tagScan blksz jdb rounds next (i + 1)

/-- Local variables of the loop of `ext4fs_check_journal_state`. -/
structure JournalScan where
  i : Nat
  running : Bool
  dbFound : Bool
  prevDesc : Nat
  currDesc : Nat
  jsb : Buf

/-- The loop of `ext4fs_check_journal_state`: the journal superblock after it,
or the inner `none` for -1. The loop of the code has no bound; the number of
rounds is one. -/
def journalLoop (env : Env) (recover : Bool) (inode : Buf) : Nat → JournalScan → Run (Option Buf)
  | 0, _ => undefined
  | rounds + 1, s => do
    let blknr ← allocatedBlock env inode s.i
    let jdb ← blockOrZeros env blknr
    let fs ← get
    if Journal.blocktype jdb = 1 then
      if Journal.sequence jdb ≠ Journal.sSequence s.jsb then pure (some s.jsb)
      else if s.running then pure none
      else
        journalLoop env recover inode rounds
          { s with
            currDesc := s.i, running := true, dbFound := true, i := tagScan fs.blksz jdb fs.blksz 12 s.i + 1 }
    else if Journal.blocktype jdb = 2 then
      if Journal.sequence jdb ≠ Journal.sSequence s.jsb then pure (some s.jsb)
      else
        let ended := s.running || !s.dbFound
        if recover && s.dbFound then recoverTransaction env s.currDesc
        journalLoop env recover inode rounds
          { s with
            running := if ended then false else s.running
            i := if ended then s.i + 1 else s.i
            jsb := if ended then putBe32 s.jsb 24 (Journal.sSequence s.jsb + 1) else s.jsb
            prevDesc := s.currDesc
            dbFound := false }
    else if Journal.blocktype jdb = 5 then
      if Journal.sequence jdb ≠ Journal.sSequence s.jsb then pure (some s.jsb)
      else do
        unless recover do ext4fsPushRevokeBlk jdb
        journalLoop env recover inode rounds { s with i := s.i + 1 }
    else if Journal.sequence jdb ≠ Journal.sSequence s.jsb then pure (some s.jsb)
    else journalLoop env recover inode rounds s

/-- Set or clear `EXT3_FEATURE_INCOMPAT_RECOVER`. -/
def putRecover (sb : Buf) (on : Bool) : Buf :=
  let flags := Sblock.featureIncompat sb
  let cleared := if hasBit flags incompatRecover then flags - 2 ^ incompatRecover else flags
  putLe32 sb 96 (if on then cleared + 2 ^ incompatRecover else cleared)

/-- `ext4_read_superblock((char *)fs->sb)` with its status not looked at. -/
def reloadSb (env : Env) : Run Unit := fun fs =>
  some ((), { fs with sb := (ext4ReadSuperblock env fs.card).getD fs.sb })

/-- `put_ext4(SUPERBLOCK_SIZE, fs->sb, SUPERBLOCK_SIZE)` -/
def putSb (env : Env) : Run Unit := do
  let fs ← get
  put env superblockSize fs.sb superblockSize

/-- What `ext4fs_check_journal_state` does behind the label `end` when it
recovers. -/
def journalRecovered (env : Env) (inode jsb : Buf) : Run Unit := do
  let jsb := putBe32 jsb 28 1
  let jsb := putBe32 jsb 24 (Journal.sSequence jsb + 1)
  reloadSb env
  modify (fun fs => { fs with sb := putRecover fs.sb true })
  putSb env
  reloadSb env
  let blknr ← allocatedBlock env inode 0
  putBlock env blknr jsb
  modify (fun fs => { fs with revkBlkList := [], firstNode := true })

/-- `ext4fs_check_journal_state`; false for -1. -/
def ext4fsCheckJournalState (env : Env) (recover : Bool) : Run Bool := do
  let inode ← journalInode env
  let blknr ← allocatedBlock env inode 0
  let jsb ← blockOrZeros env blknr
  let fs ← get
  if hasBit (Sblock.featureIncompat fs.sb) incompatRecover && Journal.sStart jsb ≠ 0 then
    let compat := getBe32 jsb 36
    let jsb := if hasBit compat 0 then jsb else putBe32 jsb 36 (compat + 1)
    match ← journalLoop env recover inode env.rounds ⟨Journal.sFirst jsb, false, false, 0, 0, jsb⟩ with
    | none => pure false
    | some jsb => do
      if recover then journalRecovered env inode jsb
      pure true
  else do
    if recover then journalRecovered env inode jsb
    pure true

/-- `ext4fs_init_journal`; false for -1. -/
def ext4fsInitJournal (env : Env) : Run Bool := do
  modify (fun fs =>
    { fs with revkBlkList := [], journalPtr := [], dirtyBlockPtr := [], jrnlBlkIdx := 1 })
  let fs ← get
  if fs.blksz = 4096 then
    let temp := (fsDevread env fs.card 0 0 fs.blksz).getD zeros
    pushJournal 0 (overlay temp superblockSize superblockSize fs.sb)
  else pushJournal 1 (overlay zeros 0 superblockSize fs.sb)
  if ← ext4fsCheckJournalState env false then ext4fsCheckJournalState env true else pure false

def ext4fsFreeJournal : Run Unit :=
  modify (fun fs => { fs with journalPtr := [], dirtyBlockPtr := [], jrnlBlkIdx := 1 })

def ext4fsDumpMetadata (env : Env) : Run Unit := do
  let fs ← get
  fs.dirtyBlockPtr.forM (fun entry => putBlock env entry.1 entry.2)

/-- The tags of `update_descriptor_block` put into a block from `ofs` on. -/
def putTags (buf : Buf) : Nat → List (Nat × Buf) → Buf
  | _, [] => buf
  | ofs, [last] => putBe32 (putBe32 buf ofs last.1) (ofs + 4) 8
  | ofs, entry :: rest => putTags (putBe32 (putBe32 buf ofs entry.1) (ofs + 4) 2) (ofs + 8) rest

/-- A journal block that holds only a header of the given type, with the
sequence number of the journal superblock. -/
def journalHeader (env : Env) (blocktype : Nat) : Run Buf := do
  let inode ← journalInode env
  let blknr ← allocatedBlock env inode 0
  let jsb ← blockOrZeros env blknr
  pure (putBe32 (putBe32 (putBe32 zeros 4 blocktype) 0 0xc03b3998) 8 (Journal.sSequence jsb))

def updateDescriptorBlock (env : Env) (blknr : Nat) : Run Unit := do
  let header ← journalHeader env 1
  let fs ← get
  putBlock env blknr (putTags header 12 fs.journalPtr)

def updateCommitBlock (env : Env) (blknr : Nat) : Run Unit := do
  let header ← journalHeader env 2
  putBlock env blknr header

/-- `read_allocated_block(&inode_journal, jrnl_blk_idx++, NULL)` -/
def nextJournalBlock (env : Env) (inode : Buf) : Run Nat := do
  let fs ← get
  let blknr ← allocatedBlock env inode fs.jrnlBlkIdx
  modify (fun fs => { fs with jrnlBlkIdx := fs.jrnlBlkIdx + 1 })
  pure blknr

def ext4fsUpdateJournal (env : Env) : Run Unit := do
  let fs ← get
  if hasBit (Sblock.featureCompatibility fs.sb) compatHasJournal then
    let inode ← journalInode env
    let blknr ← nextJournalBlock env inode
    updateDescriptorBlock env blknr
    fs.journalPtr.forM (fun entry => do
      let blknr ← nextJournalBlock env inode
      putBlock env blknr entry.2)
    let blknr ← nextJournalBlock env inode
    updateCommitBlock env blknr

end UuuFastboot.Ext4
