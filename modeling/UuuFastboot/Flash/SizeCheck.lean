import UuuFastboot.Flash.Target
import Mathlib.Algebra.Order.Floor.Div

namespace UuuFastboot

open Word CString

/-- The block counts of the `mmc write` commands that a raw image is written with. -/
def rawWrites (q : FlashRequest) (ptn : PtEntry) : List Nat :=
  if isGpt ptn then if bootloaderGptOverlay q.ptable then [] else [androidGptBlocks]
  else [(q.downloadBytes + 512 - 1) / 512]

/-- The raw branch runs these `mmc write` commands one after the other, and for a GPT then writes the backup. -/
theorem flashRaw_eq_rawWrites (gpt : Mem → Card → GptImage) (o : FlashOutcome) (q : FlashRequest) (ptn : PtEntry)
    (target : MmcDev) (r : FlashRun) :
    flashRaw gpt o q ptn target r =
      (if isGpt ptn then flashBackupGpt gpt o q target else id)
        ((rawWrites q ptn).foldl (fun r cnt => flashBlocks o q ptn target cnt r) r) := by
  unfold flashRaw rawWrites
  split
  · split <;> rfl
  · rfl

/-- The response to an image that is too large. -/
def tooLargeResponse : CStr := fastbootFail (cstr "image too large for partition")

section

variable (reader : PartReader) (gpt : Mem → Card → GptImage) (o : FlashOutcome) (q : FlashRequest) (st : Storage)
  (ptn : PtEntry)

/-- `process_flash_mmc` turns the image down for its size. -/
def TurnedDown : Prop := (processFlashMmc reader gpt o q (flashStart st)).response = some tooLargeResponse

/-- The size check as integers have it: an image is turned down exactly when it is longer than the partition, and
one that is not is written with as many blocks as it has, all of them inside the partition. -/
structure ExactSizeCheck : Prop where
  turnedDown : TurnedDown reader gpt o q st ↔ ptn.length * 512 < q.downloadBytes
  written : ¬ TurnedDown reader gpt o q st →
    rawWrites q ptn = [q.downloadBytes ⌈/⌉ 512] ∧ q.downloadBytes ⌈/⌉ 512 ≤ ptn.length

theorem answer_ne_tooLarge (r : FlashRun) (ok : Bool) {reason : String}
    (other : fastbootFail (cstr reason) ≠ tooLargeResponse) : (r.answer ok reason).response ≠ some tooLargeResponse := by
  intro same
  cases ok with
  | true => exact fastbootFail_ne_okay _ (Option.some.inj same).symm
  | false => exact other (Option.some.inj same)

theorem flashBackupGpt_response (target : MmcDev) (r : FlashRun) :
    (flashBackupGpt gpt o q target r).response ≠ some tooLargeResponse := by
  unfold flashBackupGpt
  split
  · exact nofun
  · next out _ => exact answer_ne_tooLarge (r.perform .backupGpt (fun _ => out)).2 out.1 (by decide)

theorem flashRaw_response (target : MmcDev) (r : FlashRun) :
    (flashRaw gpt o q ptn target r).response ≠ some tooLargeResponse := by
  unfold flashRaw
  split
  · exact flashBackupGpt_response gpt o q target _
  · exact answer_ne_tooLarge _ _ (by decide)

variable {q ptn}

/-- The check compares with the length of the partition in bytes modulo 2 ^ 32. -/
theorem turnedDown_iff (image : q.downloadBytes ≠ 0) (found : fastbootFlashFindPtn q.ptable q.cmd = some ptn)
    (stored : hasFlag ptn flagWriteEnv = false) (raw : isRawFlash q ptn = true) :
    TurnedDown reader gpt o q st ↔ w32 (ptn.length * 512) < q.downloadBytes := by
  unfold TurnedDown processFlashMmc
  rw [if_neg image, found]
  dsimp only
  rw [stored]
  simp only [Bool.not_false, and_true, Bool.false_eq_true, if_false]
  split
  · next large => exact ⟨fun _ => large, fun _ => rfl⟩
  · next fits =>
    refine ⟨fun refused => absurd refused ?_, fun large => absurd large fits⟩
    obtain ⟨same, -⟩ := getFastbootTargetDev_spec o q ptn st
    unfold flashPartition
    dsimp only
    generalize getFastbootTargetDev o q ptn (flashStart st) = out at same
    obtain ⟨_ | target, r⟩ := out
    · rw [same]
      change some (fastbootFail (cstr "no flash device defined")) ≠ some tooLargeResponse
      decide
    · have notSparse : (!isRawPartition ptn && isSparseImage q.image) = false := by
        revert raw
        rw [isRawFlash]
        cases isRawPartition ptn <;> cases isSparseImage q.image <;> simp
      simp only [notSparse, Bool.false_eq_true, if_false]
      exact flashRaw_response gpt o q ptn target r

/-- For an image that a download can bring, comparing modulo 2 ^ 32 is exact when the length does not wrap, or
when it wraps to something that still has room for the image. -/
theorem wrappedCheck_exact_iff {length bytes : Nat} (admitted : bytes ≤ fastbootBufSize) :
    (w32 (length * 512) < bytes ↔ length * 512 < bytes) ↔ length < 2 ^ 23 ∨ bytes ≤ length % 2 ^ 23 * 512 := by
  have wrapped : w32 (length * 512) = length % 2 ^ 23 * 512 := by
    unfold w32
    omega
  rw [wrapped]
  unfold fastbootBufSize at admitted
  omega

/-- The size check of a raw image is that of exact integers unless the length of the partition in bytes wraps
around 2 ^ 32 to less than the image, or the name begins with `gpt` and the image is not one of 34 blocks. -/
theorem exactSizeCheck_iff (image : q.downloadBytes ≠ 0) (admitted : q.downloadBytes ≤ fastbootBufSize)
    (found : fastbootFlashFindPtn q.ptable q.cmd = some ptn) (stored : hasFlag ptn flagWriteEnv = false)
    (raw : isRawFlash q ptn = true) :
    ExactSizeCheck reader gpt o q st ptn ↔
      (ptn.length < 2 ^ 23 ∨ q.downloadBytes ≤ ptn.length % 2 ^ 23 * 512) ∧
        (isGpt ptn = true → ptn.length * 512 < q.downloadBytes ∨
          bootloaderGptOverlay q.ptable = false ∧ q.downloadBytes ⌈/⌉ 512 = androidGptBlocks) := by
  have down := turnedDown_iff reader gpt o st image found stored raw
  have ceil : q.downloadBytes ⌈/⌉ 512 = (q.downloadBytes + 512 - 1) / 512 := Nat.ceilDiv_eq_add_pred_div _ _
  constructor
  · rintro ⟨exact_, written⟩
    refine ⟨(wrappedCheck_exact_iff admitted).mp (down.symm.trans exact_), fun special => ?_⟩
    by_cases large : ptn.length * 512 < q.downloadBytes
    · exact Or.inl large
    · obtain ⟨counts, -⟩ := written (fun refused => large (exact_.mp refused))
      rw [rawWrites, if_pos special] at counts
      split at counts
      · exact absurd counts (by simp)
      · next apart => exact Or.inr ⟨by simpa using apart, (List.singleton_inj.mp counts).symm⟩
  · rintro ⟨room, special⟩
    have exact_ := down.trans ((wrappedCheck_exact_iff admitted).mpr room)
    refine ⟨exact_, fun accepted => ?_⟩
    have fits : q.downloadBytes ≤ w32 (ptn.length * 512) := Nat.le_of_not_lt (fun large => accepted (down.mpr large))
    refine ⟨?_, ceil ▸ blocks_le fits⟩
    unfold rawWrites
    split
    · next isName =>
      obtain ⟨apart, blocks⟩ := (special isName).resolve_left (fun large => accepted (exact_.mpr large))
      rw [apart, blocks]
      rfl
    · rw [ceil]

end

/-- `flash:rootfs` of one block on an SD card of `lba` blocks with the partitions `parts`, all operations succeeding. -/
def rootfsRequest (lba : Nat) (parts : Nat → Option DiskPartition) : FlashRequest :=
  blockRequest "rootfs" (ptableOf false lba parts) (fun _ => none)

def noGpt (_ : Mem) (_ : Card) : GptImage := ⟨false, 0, fun _ => none, fun _ => none⟩

theorem exactSizeCheck_rootfs :
    rootfsEntry.length = 50 ∧
      ExactSizeCheck (fun _ _ => none) noGpt noFailure (rootfsRequest 8192 rootfsParts) sdStorage rootfsEntry :=
  ⟨rfl, (exactSizeCheck_iff _ _ _ _ (by decide) (by decide) (by decide) (by decide) (by decide)).mpr
    ⟨Or.inl (by decide), fun special => absurd special (by decide)⟩⟩

def wholeParts (index : Nat) : Option DiskPartition :=
  if index = 1 then some ⟨cstr "rootfs", 100, 2 ^ 23⟩ else none

/-- One block is turned down as too large for a partition of 4 GiB. -/
theorem fourGib_turnedDown :
    ∃ ptn, fastbootFlashFindPtn (ptableOf false (2 ^ 24) wholeParts) (cstr "rootfs") = some ptn ∧
      ptn.length = 2 ^ 23 ∧ ¬ ExactSizeCheck (fun _ _ => none) noGpt noFailure (rootfsRequest (2 ^ 24) wholeParts)
        sdStorage ptn := by
  refine ⟨diskEntry false 1 ⟨cstr "rootfs", 100, 2 ^ 23⟩, by decide, rfl, fun check => ?_⟩
  have long := check.turnedDown.mp (by unfold TurnedDown; decide)
  exact absurd long (by decide)

end UuuFastboot
