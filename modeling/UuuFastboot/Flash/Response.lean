import UuuFastboot.Flash.Process
import UuuFastboot.Sparse.Passing

namespace UuuFastboot

open Word CString

def FlashRun.AllOk (r : FlashRun) : Prop := ∀ done ∈ r.steps, done.2 = true

/-- One of the parts that store the image was done and succeeded. -/
def FlashRun.Written (r : FlashRun) : Prop :=
  ∃ part ∈ [FlashStep.saveEnv, .sparseImage, .mmcWrite, .backupGpt], (part, true) ∈ r.steps

/-- The response tells the truth: OKAY only when everything succeeded and the
image was written, and FAIL whenever something failed. -/
def FlashRun.Honest (r : FlashRun) : Prop :=
  ∀ text, r.response = some text →
    (text = fastbootOkay → r.AllOk ∧ r.Written) ∧ (¬ r.AllOk → (cstr "FAIL").isPrefixOf text = true)

def FlashRun.Plain (r : FlashRun) : Prop :=
  ∀ text, r.response = some text → text = fastbootOkay ∨ (cstr "FAIL").isPrefixOf text = true

theorem fastbootFail_isFail (reason : CStr) : (cstr "FAIL").isPrefixOf (fastbootFail reason) = true :=
  ( List.isPrefixOf_iff_prefix).mpr ( List.prefix_append _ _)

theorem fastbootFail_ne_okay (reason : CStr) : fastbootFail reason ≠ fastbootOkay := by
  intro same
  have first : (fastbootFail reason).head? = fastbootOkay.head? := congrArg List.head? same
  exact absurd first (by simp [fastbootFail, fastbootOkay, cstr])

theorem FlashRun.Plain.honest_iff {r : FlashRun} (plain : r.Plain) :
    r.Honest ↔ (r.response = some fastbootOkay → r.AllOk ∧ r.Written) := by
  constructor
  · intro honest okay
    exact (honest _ okay).1 rfl
  · intro okay text answered
    refine ⟨fun same => okay (same ▸ answered), fun failed => ?_⟩
    rcases plain text answered with same | isFail
    · exact absurd (okay (same ▸ answered)).1 failed
    · exact isFail

theorem FlashRun.honest_of_not_okay {r : FlashRun} (plain : r.Plain) (other : r.response ≠ some fastbootOkay) :
    r.Honest := plain.honest_iff.mpr (fun okay => absurd okay other)

theorem answer_plain (r : FlashRun) (ok : Bool) (reason : String) : (r.answer ok reason).Plain := by
  intro text answered
  obtain rfl := Option.some.inj answered
  split
  · exact Or.inl rfl
  · exact Or.inr (fastbootFail_isFail _)

theorem answer_okay_iff (r : FlashRun) (ok : Bool) (reason : String) :
    (r.answer ok reason).response = some fastbootOkay ↔ ok = true := by
  cases ok
  · simp [FlashRun.answer, fastbootFail_ne_okay]
  · simp [FlashRun.answer]

section

variable (reader : PartReader) (gpt : Mem → Card → GptImage) (o : FlashOutcome) (q : FlashRequest) (ptn : PtEntry)
  (target : MmcDev)

/-- The device select in front of a raw write. -/
def selectOk (st : Storage) : Bool := (st.mmcDev o.deviceSelect target).1

def writeOk (cnt : Nat) (st : Storage) : Bool :=
  ((st.mmcDev o.deviceSelect target).2.mmcWrite o.mmcWrite ptn.start cnt (fun i => some (q.image i))).1

theorem flashBlocks_steps (cnt : Nat) (r : FlashRun) :
    (flashBlocks o q ptn target cnt r).steps =
      r.steps ++ [(.deviceSelect, selectOk o target r.storage), (.mmcWrite, writeOk o q ptn target cnt r.storage)] := by
  simp [flashBlocks, FlashRun.perform, FlashRun.answer, selectOk, writeOk]

theorem flashBlocks_okay_iff (cnt : Nat) (r : FlashRun) :
    (flashBlocks o q ptn target cnt r).response = some fastbootOkay ↔ writeOk o q ptn target cnt r.storage = true :=
  answer_okay_iff _ _ _

/-- The storage that `write_backup_gpt` finds. -/
def beforeBackup (r : FlashRun) : FlashRun :=
  if bootloaderGptOverlay q.ptable then r else flashBlocks o q ptn target androidGptBlocks r

def backupOk (st : Storage) : Bool := ((writeBackupGpt gpt o q st).map Prod.fst).getD false

/-- The scan of the device after the backup GPT. -/
def rescanOk (st : Storage) : Bool :=
  (((writeBackupGpt gpt o q st).map Prod.snd).map (fun st => (st.mmcDev o.rescan target).1)).getD false

theorem flashBackupGpt_plain (r : FlashRun) : (flashBackupGpt gpt o q target r).Plain := by
  unfold flashBackupGpt
  split
  · intro text answered
    cases answered
  · rename_i out _
    exact answer_plain (r.perform .backupGpt (fun _ => out)).2 _ _

theorem flashBackupGpt_okay_iff (r : FlashRun) :
    (flashBackupGpt gpt o q target r).response = some fastbootOkay ↔ backupOk gpt o q r.storage = true := by
  unfold flashBackupGpt backupOk
  split
  · rename_i crashed
    simp [crashed]
  · rename_i out written
    rw [written]
    exact answer_okay_iff (r.perform .backupGpt (fun _ => out)).2 _ _

theorem flashBackupGpt_steps {r : FlashRun} (written : backupOk gpt o q r.storage = true) :
    (flashBackupGpt gpt o q target r).steps =
      r.steps ++ [(.backupGpt, true), (.rescan, rescanOk gpt o q target r.storage)] := by
  unfold backupOk at written
  unfold flashBackupGpt rescanOk
  split
  · rename_i crashed
    simp [crashed] at written
  · rename_i out done
    have ok : out.1 = true := by simpa [done] using written
    simp [FlashRun.perform, FlashRun.answer, done, ok]

/-- The card as the sparse branch opens it. -/
def sparseCard (st : Storage) : Option Card :=
  let dev := q.devinfo.devId
  let blk := (st.withCard dev (Card.mmcInit o.cardInit)).2.blkGetDev o.blkDev dev
  if blk.1 then blk.2.card dev else none

/-- The first `mmc_init` of the sparse branch. -/
def cardInitOk (st : Storage) : Bool := (st.withCard q.devinfo.devId (Card.mmcInit o.cardInit)).1

/-- The card opens, the partition is found and the image is written. -/
def SparseWritten (st : Storage) : Prop :=
  ∃ c range, sparseCard o q st = some c ∧ sparseRange reader ptn c = some range ∧
    (sparseImageRun o q range c).2 = .okay

theorem sparseImageRun_results {range : Nat × Nat} {c : Card} (okay : (sparseImageRun o q range c).2 = .okay) :
    ∀ ok ∈ (sparseImageRun o q range c).1.dev.results, ok = true := by
  have carries : (sparseStorage o.sparseWrite range.1 range.2).Carries (fun t => ∀ ok ∈ t.results, ok = true)
      (fun _ => True) :=
    { passed := by
        intro t blk n src holds full
        change n ≤ w32 (mmcSparseWrite o.sparseWrite t blk n src).1 at full
        change ∀ ok ∈ (mmcSparseWrite o.sparseWrite t blk n src).2.results, ok = true
        unfold mmcSparseWrite at full ⊢
        dsimp only at full ⊢
        split
        · intro ok member
          rcases List.mem_append.mp member with old | new
          · exact holds ok old
          · exact List.mem_singleton.mp new
        · rename_i failing
          rw [if_neg failing] at full
          have short := w32_le (min (o.sparseWrite t.results.length).reported (n - 1))
          have cut := Nat.min_le_right (o.sparseWrite t.results.length).reported (n - 1)
          exact absurd full (by dsimp only; omega)
      failed := fun _ _ _ _ _ => trivial
      weaken := fun _ _ => trivial }
  exact (writeSparseImage_carried carries (fun ok member => absurd member List.not_mem_nil)).2 okay

theorem sparseResponse_plain (out : SparseEnd) (text : CStr) (answered : sparseResponse out = some text) :
    text = fastbootOkay ∨ (cstr "FAIL").isPrefixOf text = true := by
  unfold sparseResponse at answered
  split at answered
  · exact Or.inl (Option.some.inj answered).symm
  · obtain rfl := Option.some.inj answered
    exact Or.inr (fastbootFail_isFail _)
  · cases answered

theorem sparseResponse_okay_iff (out : SparseEnd) : sparseResponse out = some fastbootOkay ↔ out = .okay := by
  unfold sparseResponse
  split
  · simp
  · simp [fastbootFail_ne_okay]
  · simp_all

theorem flashSparse_cases (r : FlashRun) :
    ((flashSparse reader o q ptn r).response = r.response ∧ ¬ SparseWritten reader o q ptn r.storage) ∨
      ∃ c range, sparseCard o q r.storage = some c ∧ sparseRange reader ptn c = some range ∧
        (flashSparse reader o q ptn r).response = sparseResponse (sparseImageRun o q range c).2 ∧
        (flashSparse reader o q ptn r).steps =
          r.steps ++ [(.cardInit, cardInitOk o q r.storage), (.blkDev, true), (.partInfo, true)] ++
            (sparseImageRun o q range c).1.dev.results.map (fun ok => (.sparseWrite, ok)) ++
            [(.sparseImage, (sparseImageRun o q range c).2 == .okay)] := by
  unfold flashSparse
  dsimp only
  split
  · rename_i c opened present
    have card : sparseCard o q r.storage = some c := (if_pos opened).trans present
    split
    · rename_i missing
      refine Or.inl ⟨rfl, ?_⟩
      rintro ⟨c', range, opened', found, -⟩
      obtain rfl := Option.some.inj (card.symm.trans opened')
      exact absurd (missing.symm.trans found) (by simp)
    · rename_i range found
      refine Or.inr ⟨c, range, card, found, rfl, ?_⟩
      change _ = true at opened
      simp only [writeSparse, FlashRun.perform] at opened ⊢
      simp [cardInitOk, opened]
  · rename_i closed
    refine Or.inl ⟨rfl, ?_⟩
    rintro ⟨c, range, opened, -, -⟩
    unfold sparseCard at opened
    dsimp only at opened
    split at opened
    · rename_i ok
      exact closed c ok opened
    · cases opened

/-- A failure that the OKAY at the end does not show. -/
def Hides (st : Storage) : Prop :=
  if !isRawPartition ptn && isSparseImage q.image then
    cardInitOk o q st = false ∧ SparseWritten reader o q ptn st
  else if isGpt ptn then
    backupOk gpt o q (beforeBackup o q ptn target ⟨st, none, []⟩).storage = true ∧
      ((bootloaderGptOverlay q.ptable = false ∧
          (selectOk o target st = false ∨ writeOk o q ptn target androidGptBlocks st = false)) ∨
        rescanOk gpt o q target (beforeBackup o q ptn target ⟨st, none, []⟩).storage = false)
  else
    selectOk o target st = false ∧ writeOk o q ptn target ((q.downloadBytes + 512 - 1) / 512) st = true

variable {r : FlashRun}

theorem flashBlocks_honest_iff (cnt : Nat) (clean : r.AllOk) :
    (flashBlocks o q ptn target cnt r).Honest ↔
      ¬ (selectOk o target r.storage = false ∧ writeOk o q ptn target cnt r.storage = true) := by
  have plain : (flashBlocks o q ptn target cnt r).Plain := answer_plain _ _ _
  rw [plain.honest_iff, flashBlocks_okay_iff]
  unfold FlashRun.AllOk FlashRun.Written at *
  rw [flashBlocks_steps]
  constructor
  · rintro honest ⟨unselected, written⟩
    have all := (honest written).1 (.deviceSelect, selectOk o target r.storage) (by simp)
    simp [unselected] at all
  · intro shown written
    have selected : selectOk o target r.storage = true := by
      by_contra failed
      exact shown ⟨by simpa using failed, written⟩
    refine ⟨?_, .mmcWrite, by simp, by simp [written]⟩
    intro done member
    rcases List.mem_append.mp member with old | new
    · exact clean done old
    · simp only [selected, written, List.mem_cons, List.not_mem_nil, or_false] at new
      rcases new with rfl | rfl <;> rfl

theorem beforeBackup_storage (r : FlashRun) :
    (beforeBackup o q ptn target r).storage = (beforeBackup o q ptn target ⟨r.storage, none, []⟩).storage := by
  unfold beforeBackup
  split <;> rfl

theorem beforeBackup_allOk_iff (clean : r.AllOk) :
    (beforeBackup o q ptn target r).AllOk ↔
      ¬ (bootloaderGptOverlay q.ptable = false ∧
        (selectOk o target r.storage = false ∨ writeOk o q ptn target androidGptBlocks r.storage = false)) := by
  unfold beforeBackup
  split
  · rename_i overlay
    simp [overlay, clean]
  · rename_i apart
    unfold FlashRun.AllOk at *
    rw [flashBlocks_steps]
    simp only [List.forall_mem_append, List.forall_mem_cons, List.not_mem_nil, false_imp_iff, implies_true, and_true]
    simp only [Bool.not_eq_true] at apart
    simp only [apart, true_and, not_or, Bool.not_eq_false]
    exact ⟨And.right, fun both => ⟨clean, both⟩⟩

theorem flashBackupGpt_honest_iff :
    (flashBackupGpt gpt o q target r).Honest ↔
      ¬ (backupOk gpt o q r.storage = true ∧ (¬ r.AllOk ∨ rescanOk gpt o q target r.storage = false)) := by
  rw [(flashBackupGpt_plain gpt o q target r).honest_iff, flashBackupGpt_okay_iff]
  constructor
  · rintro honest ⟨written, failed⟩
    have all := (honest written).1
    unfold FlashRun.AllOk at all
    rw [flashBackupGpt_steps gpt o q target written] at all
    rcases failed with unclean | unscanned
    · exact unclean (fun done member => all done (List.mem_append_left _ member))
    · have scanned := all (.rescan, rescanOk gpt o q target r.storage) (by simp)
      simp [unscanned] at scanned
  · intro shown written
    have scanned : rescanOk gpt o q target r.storage = true := by
      by_contra failed
      exact shown ⟨written, Or.inr (by simpa using failed)⟩
    have clean : r.AllOk := by
      by_contra failed
      exact shown ⟨written, Or.inl failed⟩
    unfold FlashRun.AllOk FlashRun.Written
    rw [flashBackupGpt_steps gpt o q target written]
    refine ⟨?_, .backupGpt, by simp, by simp⟩
    intro done member
    rcases List.mem_append.mp member with old | new
    · exact clean done old
    · simp only [scanned, List.mem_cons, List.not_mem_nil, or_false] at new
      rcases new with rfl | rfl <;> rfl

theorem flashSparse_honest_iff (clean : r.AllOk) (plain : r.Plain) (other : r.response ≠ some fastbootOkay) :
    (flashSparse reader o q ptn r).Honest ↔
      ¬ (cardInitOk o q r.storage = false ∧ SparseWritten reader o q ptn r.storage) := by
  rcases flashSparse_cases reader o q ptn r with ⟨same, unwritten⟩ | ⟨c, range, opened, found, answered, steps⟩
  · have plain' : (flashSparse reader o q ptn r).Plain := fun text answered => plain text (same ▸ answered)
    have honest := FlashRun.honest_of_not_okay plain' (by rw [same]; exact other)
    exact ⟨fun _ hidden => unwritten hidden.2, fun _ => honest⟩
  · have plain' : (flashSparse reader o q ptn r).Plain := by
      intro text given
      rw [answered] at given
      exact sparseResponse_plain _ _ given
    have written_iff : SparseWritten reader o q ptn r.storage ↔ (sparseImageRun o q range c).2 = .okay := by
      constructor
      · rintro ⟨c', range', opened', found', okay⟩
        obtain rfl := Option.some.inj (opened.symm.trans opened')
        obtain rfl := Option.some.inj (found.symm.trans found')
        exact okay
      · exact fun okay => ⟨c, range, opened, found, okay⟩
    rw [plain'.honest_iff, answered, sparseResponse_okay_iff, written_iff]
    unfold FlashRun.AllOk FlashRun.Written at *
    rw [steps]
    constructor
    · rintro honest ⟨uninit, okay⟩
      have init := (honest okay).1 (.cardInit, cardInitOk o q r.storage) (by simp)
      simp [uninit] at init
    · intro shown okay
      have init : cardInitOk o q r.storage = true := by
        by_contra failed
        exact shown ⟨by simpa using failed, okay⟩
      have results := sparseImageRun_results o q okay
      refine ⟨?_, .sparseImage, by simp, by simp [okay]⟩
      intro done member
      simp only [List.append_assoc, List.mem_append, List.mem_cons, List.not_mem_nil, or_false, List.mem_map,
        init] at member
      rcases member with old | (rfl | rfl | rfl) | ⟨ok, called, rfl⟩ | rfl
      · exact clean done old
      · rfl
      · rfl
      · rfl
      · exact results ok called
      · simp [okay]

end

/-- The command gets as far as writing the image: to the entry `ptn`, on
`target`, from the state `r`. -/
structure Flashing (o : FlashOutcome) (q : FlashRequest) (st : Storage) (ptn : PtEntry) (target : MmcDev)
    (r : FlashRun) : Prop where
  mmc : q.devinfo.type = .mmc
  image : q.downloadBytes ≠ 0
  found : fastbootFlashFindPtn q.ptable q.cmd = some ptn
  fits : q.downloadBytes ≤ w32 (ptn.length * 512)
  stored : hasFlag ptn flagWriteEnv = false
  opened : getFastbootTargetDev o q ptn (flashStart st) = (some target, r)

theorem flashStart_plain (st : Storage) : (flashStart st).Plain := by
  intro text answered
  obtain rfl := Option.some.inj answered
  exact Or.inr (fastbootFail_isFail _)

theorem flashStart_not_okay (st : Storage) : (flashStart st).response ≠ some fastbootOkay := by
  intro okay
  exact fastbootFail_ne_okay _ (Option.some.inj okay)

theorem getFastbootTargetDev_spec (o : FlashOutcome) (q : FlashRequest) (ptn : PtEntry) (st : Storage) :
    (getFastbootTargetDev o q ptn (flashStart st)).2.response = (flashStart st).response ∧
      ((getFastbootTargetDev o q ptn (flashStart st)).1.isSome →
        (getFastbootTargetDev o q ptn (flashStart st)).2.AllOk) := by
  unfold getFastbootTargetDev
  split
  · exact ⟨rfl, fun _ done member => absurd member List.not_mem_nil⟩
  · dsimp only
    split
    · rename_i ok
      refine ⟨rfl, fun _ done member => ?_⟩
      obtain rfl := List.mem_singleton.mp member
      exact ok
    · exact ⟨rfl, fun opened => by cases opened⟩

theorem flashPartition_honest_iff (reader : PartReader) (gpt : Mem → Card → GptImage) (o : FlashOutcome)
    (q : FlashRequest) (ptn : PtEntry) (st : Storage) :
    (flashPartition reader gpt o q ptn (flashStart st)).Honest ↔
      ∀ target r, getFastbootTargetDev o q ptn (flashStart st) = (some target, r) →
        ¬ Hides reader gpt o q ptn target r.storage := by
  obtain ⟨same, clean⟩ := getFastbootTargetDev_spec o q ptn st
  unfold flashPartition
  dsimp only
  generalize getFastbootTargetDev o q ptn (flashStart st) = out at same clean
  obtain ⟨_ | target, r⟩ := out
  · have plain : r.Plain := fun text answered => flashStart_plain st text (same ▸ answered)
    have honest := FlashRun.honest_of_not_okay plain (by rw [same]; exact flashStart_not_okay st)
    exact ⟨fun _ target r opened => absurd opened (by simp), fun _ => honest⟩
  · have plain : r.Plain := fun text answered => flashStart_plain st text (same ▸ answered)
    have other : r.response ≠ some fastbootOkay := by
      rw [same]
      exact flashStart_not_okay st
    have allOk : r.AllOk := clean rfl
    have only : (∀ target' r', (some target, r) = (some target', r') → ¬ Hides reader gpt o q ptn target' r'.storage) ↔
        ¬ Hides reader gpt o q ptn target r.storage :=
      ⟨fun shown => shown target r rfl, fun shown target' r' same => by cases same; exact shown⟩
    rw [only]
    unfold Hides
    dsimp only
    split
    · exact flashSparse_honest_iff reader o q ptn allOk plain other
    · unfold flashRaw
      split
      · change (flashBackupGpt gpt o q target (beforeBackup o q ptn target r)).Honest ↔ _
        rw [flashBackupGpt_honest_iff, beforeBackup_allOk_iff o q ptn target allOk, not_not,
          beforeBackup_storage o q ptn target r]
      · exact flashBlocks_honest_iff o q ptn target _ allOk

/-- The response of a flash command tells the truth exactly when none of its
steps fails behind an OKAY. -/
theorem flashCommand_honest_iff (reader : PartReader) (gpt : Mem → Card → GptImage) (o : FlashOutcome)
    (q : FlashRequest) (st : Storage) :
    (flashCommand reader gpt o q st).Honest ↔
      ∀ ptn target r, Flashing o q st ptn target r → ¬ Hides reader gpt o q ptn target r.storage := by
  have refused : ∀ reason, ((flashStart st).answer false reason).Honest := fun reason =>
    FlashRun.honest_of_not_okay (answer_plain _ _ _) (by simp [answer_okay_iff])
  unfold flashCommand
  split
  · rename_i mmc
    unfold processFlashMmc
    split
    · rename_i empty
      exact ⟨fun _ ptn target r flashing => absurd empty flashing.image, fun _ => refused _⟩
    rename_i image
    split
    · rename_i unknown
      exact ⟨fun _ ptn target r flashing => absurd (unknown.symm.trans flashing.found) (by simp), fun _ => refused _⟩
    rename_i ptn found
    have only : ∀ {ptn' target r}, Flashing o q st ptn' target r → ptn' = ptn := fun flashing =>
      Option.some.inj (flashing.found.symm.trans found)
    split
    · rename_i large
      refine ⟨fun _ ptn' target r flashing => ?_, fun _ => refused _⟩
      obtain rfl := only flashing
      exact absurd flashing.fits (by omega)
    rename_i sized
    split
    · rename_i saves
      refine ⟨fun _ ptn' target r flashing => ?_, fun _ => ?_⟩
      · obtain rfl := only flashing
        exact absurd (saves.symm.trans flashing.stored) (by simp)
      · generalize o.saveEnv (flashStart st).storage = saved
        obtain ⟨_ | error, after⟩ := saved
        · intro text answered
          refine ⟨fun _ => ⟨?_, .saveEnv, by simp, by simp [flashStart]⟩, fun failed => absurd ?_ failed⟩ <;>
            · intro done member
              obtain rfl := List.mem_singleton.mp member
              rfl
        · intro text answered
          obtain rfl := Option.some.inj answered
          exact ⟨fun okay => absurd okay (fastbootFail_ne_okay _), fun _ => fastbootFail_isFail _⟩
    · rename_i stored
      have plainFlag : hasFlag ptn flagWriteEnv = false := by simpa using stored
      have fits : q.downloadBytes ≤ w32 (ptn.length * 512) := by
        simp only [plainFlag, Bool.not_false, and_true] at sized
        omega
      rw [flashPartition_honest_iff]
      constructor
      · intro shown ptn' target r flashing
        obtain rfl := only flashing
        exact shown target r flashing.opened
      · exact fun shown target r opened => shown ptn target r ⟨mmc, image, found, fits, plainFlag, opened⟩
  · rename_i other
    exact ⟨fun _ ptn target r flashing => absurd flashing.mmc (by simpa using other), fun _ => refused _⟩

def sdCard : Card where
  lba _ := 8192
  emmc := false
  hasInit := true
  hwpart := 0
  partType := 0
  contents _ _ := some 0
  lba_lt _ := by decide

def sdStorage : Storage where
  card dev := if dev = 1 then some sdCard else none
  currDevice := 1

def noFailure : FlashOutcome where
  targetInit := ⟨true, true, 0⟩
  saveEnv st := (none, st)
  cardInit := ⟨true, true, 0⟩
  blkDev := ⟨⟨true, true, 0⟩, true⟩
  sparseWrite _ := ⟨⟨true, fun _ => true⟩, 0⟩
  alloc _ := true
  deviceSelect := ⟨⟨true, true, 0⟩, true⟩
  mmcWrite := ⟨⟨true, true, 0⟩, false, ⟨true, fun _ => true⟩⟩
  backupDev := ⟨⟨true, true, 0⟩, true⟩
  backupMbr := ⟨true, fun _ => true⟩
  backupEntries := ⟨true, fun _ => true⟩
  backupHeader := ⟨true, fun _ => true⟩
  rescan := ⟨⟨true, true, 0⟩, true⟩

/-- `flash:NAME` of one block of 0xA5 with the table `ptable`. -/
def blockRequest (name : String) (ptable : List PtEntry) (env : Env) : FlashRequest where
  cmd := cstr name
  env := env
  mem _ := 0xA5
  devinfo := ⟨.mmc, 1⟩
  ptable := ptable
  transferBuffer := fastbootBufAddr
  downloadBytes := 512

/-- The Trusty OS entry asks for a hardware partition that an SD card does not
have. Selecting it fails, the image is written to the user area instead, and
the response is OKAY. -/
theorem tos_on_sdCard_not_honest :
    ¬ (flashCommand (fun _ _ => none) (fun _ _ => ⟨false, 0, fun _ => none, fun _ => none⟩) noFailure
        (blockRequest "tos" (ptableOf false 8192 (fun _ => none)) (fun _ => none)) sdStorage).Honest := by
  intro honest
  have okay := (honest fastbootOkay (by decide)).1 rfl
  have selected := okay.1 (.deviceSelect, false) (by decide)
  exact absurd selected (by decide)

end UuuFastboot
