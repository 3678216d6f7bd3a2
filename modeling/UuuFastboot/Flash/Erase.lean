import UuuFastboot.Flash.Response

namespace UuuFastboot

open Word CString

/-- What the driver reads of a card before it knows the erase group: the kind
of the card, word 2 of the CSD and the EXT_CSD. -/
structure CardRegs where
  isSd : Bool
  version4 : Bool
  csd2 : Nat
  extCsd : Nat → UInt8

namespace CardRegs

variable (regs : CardRegs)

def partCompleted : Bool := (regs.extCsd 155).toNat.testBit 0

/-- `has_parts` of `mmc_startup_v4` -/
def hasParts : Bool :=
  (List.range 4).any (fun i => (List.range 3).any (fun j => regs.extCsd (143 + 3 * i + j) ≠ 0)) ||
    regs.partCompleted || ((regs.extCsd 160).toNat.testBit 0 && regs.extCsd 156 &&& 0x1f ≠ 0)

/-- `ext_csd[EXT_CSD_HC_ERASE_GRP_SIZE] * 1024` -/
def hcEraseGrpSize : Nat := (regs.extCsd 224).toNat * 1024

/-- `(erase_gsz + 1) * (erase_gmul + 1)` -/
def csdEraseGrpSize : Nat := (regs.csd2 / 2 ^ 10 % 2 ^ 5 + 1) * (regs.csd2 / 2 ^ 5 % 2 ^ 5 + 1)

/-- `erase_grp_size` as `mmc_startup` and `mmc_startup_v4` compute it, where the
high-capacity definition can be switched on if it has to be. -/
def startupEraseGrpSize (switch : Bool) : Option Nat :=
  if regs.isSd || !regs.version4 then some 1
  else if regs.hasParts then if switch then some regs.hcEraseGrpSize else none
  else if (regs.extCsd 175).toNat.testBit 0 then some regs.hcEraseGrpSize
  else some regs.csdEraseGrpSize

/-- The values `erase_grp_size` can have: the one of the start, and the one that
`mmc_hwpart_config` replaces it by. -/
inductive HasEraseGrpSize : Nat → Prop
  | startup {switch : Bool} {grpSize : Nat} : regs.startupEraseGrpSize switch = some grpSize → HasEraseGrpSize grpSize
  | hwpartConfig : HasEraseGrpSize regs.hcEraseGrpSize

variable {regs}

theorem hcEraseGrpSize_lt : regs.hcEraseGrpSize < 2 ^ 32 := by
  have byte := (regs.extCsd 224).toNat_lt
  unfold hcEraseGrpSize
  omega

theorem csdEraseGrpSize_lt : regs.csdEraseGrpSize < 2 ^ 32 := by
  have gsz : regs.csd2 / 2 ^ 10 % 2 ^ 5 + 1 ≤ 32 := Nat.mod_lt _ (by decide)
  have gmul : regs.csd2 / 2 ^ 5 % 2 ^ 5 + 1 ≤ 32 := Nat.mod_lt _ (by decide)
  have product := Nat.mul_le_mul gsz gmul
  unfold csdEraseGrpSize
  omega

theorem HasEraseGrpSize.lt {grpSize : Nat} (has : regs.HasEraseGrpSize grpSize) : grpSize < 2 ^ 32 := by
  cases has with
  | hwpartConfig => exact hcEraseGrpSize_lt
  | startup computed =>
    unfold startupEraseGrpSize at computed
    split_ifs at computed <;> simp only [Option.some.injEq] at computed <;> subst computed
    · decide
    · exact hcEraseGrpSize_lt
    · exact hcEraseGrpSize_lt
    · exact csdEraseGrpSize_lt

end CardRegs

/-- The range that `process_erase_mmc` gives to `block_erase`: its first block
and the number of blocks, all of them of type `lbaint_t`. -/
def eraseRange (grpSize start size : BitVec 32) : BitVec 32 × BitVec 32 :=
  let blksStart := (start + grpSize - 1) &&& ~~~(grpSize - 1)
  let blksSize := if grpSize ≤ size then (size - (blksStart - start)) &&& ~~~(grpSize - 1) else 0
  (blksStart, blksSize)

/-- How the parts of an erase command go that depend on the hardware; `erase` is
`block_erase` with the number of blocks that it reports. -/
structure EraseOutcome where
  cardInit : InitOutcome
  blkDev : SelectOutcome
  erase : Storage → Nat → Nat → Nat × Storage

/-- An erase command: the storage, the calls of `block_erase`, and the response
where the command writes one. -/
structure EraseRun where
  storage : Storage
  calls : List (Nat × Nat)
  response : Option CStr

/-- The part of `process_erase_mmc` in front of the rounding: the partition as
the device has it, or the response that the command ends with. -/
def eraseTarget (reader : PartReader) (o : EraseOutcome) (q : FlashRequest) (st : Storage) :
    Except (Option CStr) DiskPartition × Storage :=
  match fastbootFlashFindPtn q.ptable q.cmd with
  | none => (.error (some (fastbootFail (cstr "partition does not exist or uneraseable"))), st)
  | some ptn =>
    if hasFlag ptn flagUneraseable then
      (.error (some (fastbootFail (cstr "partition does not exist or uneraseable"))), st)
    else
      let init := st.withCard q.devinfo.devId (Card.mmcInit o.cardInit)
      if !init.1 then (.error none, init.2)
      else
        let blk := init.2.blkGetDev o.blkDev q.devinfo.devId
        match blk.1, blk.2.card q.devinfo.devId with
        | true, some c =>
          match reader c ptn.partitionIndex with
          | none => (.error (some (fastbootFail (cstr "erasing of MMC card"))), blk.2)
          | some info => (.ok info, blk.2)
        | _, _ => (.error (some (fastbootFail (cstr "not valid MMC card"))), blk.2)

def processEraseMmc (reader : PartReader) (o : EraseOutcome) (grpSize : Nat) (q : FlashRequest) (st : Storage) :
    EraseRun :=
  match eraseTarget reader o q st with
  | (.error response, st) => ⟨st, [], response⟩
  | (.ok info, st) =>
    let range := eraseRange (BitVec.ofNat 32 grpSize) (BitVec.ofNat 32 info.start) (BitVec.ofNat 32 info.size)
    let out := o.erase st range.1.toNat range.2.toNat
    ⟨out.2, [(range.1.toNat, range.2.toNat)],
      some (if out.1 = range.2.toNat then fastbootOkay else fastbootFail (cstr "erasing of MMC card"))⟩

/-- A range of blocks that is made of the whole erase groups of a partition: it
lies in the partition, consists of groups, and leaves none of them out. -/
structure WholeGroups (grpSize : Nat) (info : DiskPartition) (call : Nat × Nat) : Prop where
  inside : ∀ x, call.1 ≤ x → x < call.1 + call.2 → info.start ≤ x ∧ x < info.start + info.size
  whole : call.2 = 0 ∨ grpSize ∣ call.1 ∧ grpSize ∣ call.2
  largest : ∀ k, 0 < grpSize → info.start ≤ k * grpSize → (k + 1) * grpSize ≤ info.start + info.size →
    call.1 ≤ k * grpSize ∧ (k + 1) * grpSize ≤ call.1 + call.2

/-- Where the bits below the group size are the remainder: of the end of the first
group and of what is left behind the partition's first whole group, or, where no
whole group fits, of what is left behind the rounded start. -/
def MaskIsRemainder (grpSize start size : Nat) : Prop :=
  let first := (start + grpSize - 1) / grpSize * grpSize
  if first + grpSize ≤ start + size then
    (start + grpSize - 1) &&& (grpSize - 1) = (start + grpSize - 1) % grpSize ∧
      (start + size - first) &&& (grpSize - 1) = (start + size - first) % grpSize
  else
    let rest := size - (grpSize - 1) + ((start + grpSize - 1) &&& (grpSize - 1))
    rest &&& (grpSize - 1) = rest

section

variable {grp start size : Nat}

theorem firstGroup_ge (start : Nat) (positive : 0 < grp) : start ≤ (start + grp - 1) / grp * grp := by
  have := Nat.lt_div_mul_add (a := start + grp - 1) positive
  omega

theorem firstGroup_le (positive : 0 < grp) {k : Nat} (behind : start ≤ k * grp) :
    (start + grp - 1) / grp * grp ≤ k * grp := by
  refine Nat.mul_le_mul_right grp ?_
  rw [← Nat.lt_succ_iff, Nat.div_lt_iff_lt_mul positive, Nat.succ_mul]
  omega

theorem firstGroup_add_mod (grp start : Nat) : (start + grp - 1) / grp * grp + (start + grp - 1) % grp = start + grp - 1 :=
  Nat.div_add_mod' _ _

theorem eraseRange_toNat (positive : 0 < grp) (fits : grp ≤ size) (inside : start + size < 2 ^ 32) :
    ∃ b n, eraseRange (BitVec.ofNat 32 grp) (BitVec.ofNat 32 start) (BitVec.ofNat 32 size) =
        (BitVec.ofNat 32 b, BitVec.ofNat 32 n) ∧
      b + ((start + grp - 1) &&& (grp - 1)) = start + grp - 1 ∧
      n + ((start + size - b) &&& (grp - 1)) = start + size - b := by
  have mask : BitVec.ofNat 32 grp - 1 = BitVec.ofNat 32 (grp - 1) := by
    apply BitVec.eq_of_toNat_eq
    simp only [BitVec.toNat_sub, BitVec.toNat_ofNat, BitVec.ofNat_eq_ofNat]
    omega
  have upper : BitVec.ofNat 32 start + BitVec.ofNat 32 grp - 1 = BitVec.ofNat 32 (start + grp - 1) := by
    apply BitVec.eq_of_toNat_eq
    simp only [BitVec.toNat_sub, BitVec.toNat_add, BitVec.toNat_ofNat, BitVec.ofNat_eq_ofNat]
    omega
  have cleared : ∀ x < 2 ^ 32, BitVec.ofNat 32 x &&& ~~~(BitVec.ofNat 32 (grp - 1)) =
      BitVec.ofNat 32 (x - (x &&& (grp - 1))) := by
    intro x below
    apply BitVec.eq_of_toNat_eq
    rw [toNat_and_not, BitVec.toNat_ofNat, BitVec.toNat_ofNat, BitVec.toNat_ofNat, Nat.mod_eq_of_lt below,
      Nat.mod_eq_of_lt (show grp - 1 < 2 ^ 32 by omega), Nat.mod_eq_of_lt (by omega)]
  have bits : (start + grp - 1) &&& (grp - 1) ≤ grp - 1 := Nat.and_le_right
  obtain ⟨b, rounded⟩ : ∃ b, b + ((start + grp - 1) &&& (grp - 1)) = start + grp - 1 :=
    ⟨_, Nat.sub_add_cancel Nat.and_le_left⟩
  have rest : BitVec.ofNat 32 size - (BitVec.ofNat 32 b - BitVec.ofNat 32 start) =
      BitVec.ofNat 32 (start + size - b) := by
    apply BitVec.eq_of_toNat_eq
    simp only [BitVec.toNat_sub, BitVec.toNat_ofNat]
    omega
  have large : BitVec.ofNat 32 grp ≤ BitVec.ofNat 32 size := by
    rw [BitVec.le_def, BitVec.toNat_ofNat, BitVec.toNat_ofNat]
    omega
  refine ⟨b, start + size - b - ((start + size - b) &&& (grp - 1)), ?_, rounded,
    Nat.sub_add_cancel Nat.and_le_left⟩
  simp only [eraseRange, mask, upper, if_pos large]
  rw [cleared _ (by omega), show start + grp - 1 - ((start + grp - 1) &&& (grp - 1)) = b by omega, rest,
    cleared _ (by omega)]

theorem eraseRange_small (small : size < grp) (below : grp < 2 ^ 32) :
    (eraseRange (BitVec.ofNat 32 grp) (BitVec.ofNat 32 start) (BitVec.ofNat 32 size)).2 = 0 := by
  refine if_neg ?_
  rw [BitVec.le_def, BitVec.toNat_ofNat, BitVec.toNat_ofNat]
  omega

theorem firstGroup_unique {b : Nat} (positive : 0 < grp) (lower : start ≤ b) (upper : b ≤ start + grp - 1)
    (whole : grp ∣ b) : b = (start + grp - 1) / grp * grp := by
  obtain ⟨k, rfl⟩ := whole
  have ge := firstGroup_ge start positive
  have le := firstGroup_le positive (Nat.mul_comm grp k ▸ lower)
  rw [Nat.mul_comm k] at le
  refine Nat.le_antisymm ?_ le
  rw [Nat.mul_comm]
  exact Nat.mul_le_mul_right grp ((Nat.le_div_iff_mul_le positive).mpr (by rw [Nat.mul_comm]; exact upper))

theorem eq_mod_of_dvd {x r n : Nat} (split : n + r = x) (small : r < grp) (whole : grp ∣ n) : r = x % grp := by
  obtain ⟨k, rfl⟩ := whole
  rw [← split, Nat.mul_add_mod, Nat.mod_eq_of_lt small]

end

/-- The rounding in exact integers: it gives whole groups exactly where the mask
takes the remainder. -/
theorem wholeGroups_iff {grp b n : Nat} {info : DiskPartition} (positive : 0 < grp) (fits : grp ≤ info.size)
    (start : b + ((info.start + grp - 1) &&& (grp - 1)) = info.start + grp - 1)
    (count : n + ((info.start + info.size - b) &&& (grp - 1)) = info.start + info.size - b) :
    WholeGroups grp info (b, n) ↔ MaskIsRemainder grp info.start info.size := by
  have bits : (info.start + grp - 1) &&& (grp - 1) ≤ grp - 1 := Nat.and_le_right
  have left : (info.start + info.size - b) &&& (grp - 1) ≤ grp - 1 := Nat.and_le_right
  have split := firstGroup_add_mod grp info.start
  have ge := firstGroup_ge info.start positive
  have rest : info.size - (grp - 1) + ((info.start + grp - 1) &&& (grp - 1)) = info.start + info.size - b := by omega
  unfold MaskIsRemainder
  simp only [rest]
  constructor
  · intro groups
    have aligned : n ≠ 0 → b = (info.start + grp - 1) / grp * grp ∧ grp ∣ n := by
      intro some
      rcases groups.whole with none | ⟨wholeStart, wholeCount⟩
      · exact absurd none some
      · exact ⟨firstGroup_unique positive (by omega) (by omega) wholeStart, wholeCount⟩
    split_ifs with room
    · have least := groups.largest ((info.start + grp - 1) / grp) positive ge (by rw [Nat.succ_mul]; exact room)
      rw [Nat.succ_mul] at least
      simp only at least
      obtain ⟨first, wholeCount⟩ := aligned (by omega)
      rw [← first] at split ⊢
      exact ⟨by omega, eq_mod_of_dvd count (by omega) wholeCount⟩
    · by_contra more
      obtain ⟨first, wholeCount⟩ := aligned (by omega)
      have group := Nat.le_of_dvd (by omega) wholeCount
      omega
  · intro exact
    refine ⟨fun x lower upper => by simp only at lower upper; omega, ?_, ?_⟩
    · split_ifs at exact with room
      · have first : b = (info.start + grp - 1) / grp * grp := by omega
        rw [← first] at exact
        refine Or.inr ⟨⟨(info.start + grp - 1) / grp, by simp only; rw [first, Nat.mul_comm]⟩, ?_⟩
        simp only
        rw [show n = (info.start + info.size - b) / grp * grp by
          have := Nat.div_add_mod' (info.start + info.size - b) grp
          omega]
        exact Nat.dvd_mul_left _ _
      · exact Or.inl (by simp only; omega)
    · intro k _ lower upper
      have least := firstGroup_le positive lower
      have next : (k + 1) * grp = k * grp + grp := Nat.succ_mul _ _
      rw [if_pos (by omega)] at exact
      have first : b = (info.start + grp - 1) / grp * grp := by omega
      rw [← first] at exact least
      refine ⟨least, ?_⟩
      have groups := Nat.div_add_mod' (info.start + info.size - b) grp
      have below : (k + 1 - (info.start + grp - 1) / grp) * grp ≤ info.start + info.size - b := by
        rw [Nat.sub_mul, ← first]
        omega
      have fitting := Nat.mul_le_mul_right grp ((Nat.le_div_iff_mul_le positive).mpr below)
      rw [Nat.sub_mul, ← first] at fitting
      simp only
      omega

theorem WholeGroups.none {grp b : Nat} {info : DiskPartition} (small : grp = 0 ∨ info.size < grp) :
    WholeGroups grp info (b, 0) := by
  refine ⟨fun x lower upper => ?_, Or.inl rfl, fun k positive lower upper => ?_⟩
  · simp only [Nat.add_zero] at lower upper
    omega
  · rw [Nat.succ_mul] at upper
    omega

theorem maskIsRemainder_small {grp start size : Nat} (small : size < grp) : MaskIsRemainder grp start size := by
  have ge := firstGroup_ge start (show 0 < grp by omega)
  unfold MaskIsRemainder
  simp only
  rw [if_neg (by omega), show size - (grp - 1) = 0 by omega, Nat.zero_add, Nat.and_assoc, Nat.and_self]

theorem maskIsRemainder_two_pow (k start size : Nat) : MaskIsRemainder (2 ^ k) start size := by
  have positive := Nat.two_pow_pos k
  have split := firstGroup_add_mod (2 ^ k) start
  have bound := Nat.mod_lt (start + 2 ^ k - 1) positive
  unfold MaskIsRemainder
  simp only [Nat.and_two_pow_sub_one_eq_mod]
  split_ifs with room
  · exact ⟨trivial, trivial⟩
  · exact Nat.mod_eq_of_lt (by omega)

/-- A range that is given to `block_erase` consists of the whole erase groups of
the partition exactly where the masks take remainders. -/
theorem eraseCalls_wholeGroups_iff {reader : PartReader} {o : EraseOutcome} {q : FlashRequest} {st : Storage}
    {regs : CardRegs} {grpSize : Nat} {info : DiskPartition} (computed : regs.HasEraseGrpSize grpSize)
    (target : (eraseTarget reader o q st).1 = .ok info) (inside : info.start + info.size < 2 ^ 32) :
    (∃ call, (processEraseMmc reader o grpSize q st).calls = [call] ∧ WholeGroups grpSize info call) ↔
      grpSize = 0 ∨ MaskIsRemainder grpSize info.start info.size := by
  have below := computed.lt
  have calls : (processEraseMmc reader o grpSize q st).calls =
      [((eraseRange (BitVec.ofNat 32 grpSize) (BitVec.ofNat 32 info.start) (BitVec.ofNat 32 info.size)).1.toNat,
        (eraseRange (BitVec.ofNat 32 grpSize) (BitVec.ofNat 32 info.start) (BitVec.ofNat 32 info.size)).2.toNat)] := by
    obtain ⟨st', found⟩ : ∃ st', eraseTarget reader o q st = (.ok info, st') := ⟨_, Prod.ext target rfl⟩
    rw [processEraseMmc, found]
  simp only [calls, List.cons.injEq, and_true, exists_eq_left']
  rcases Nat.eq_zero_or_pos grpSize with zero | positive
  · subst zero
    have none : (eraseRange (BitVec.ofNat 32 0) (BitVec.ofNat 32 info.start) (BitVec.ofNat 32 info.size)).2 = 0 := by
      have mask : ~~~(BitVec.ofNat 32 0 - 1) = 0#32 := by decide
      simp only [eraseRange, mask, BitVec.and_zero]
      split_ifs <;> rfl
    rw [none]
    exact ⟨fun _ => Or.inl rfl, fun _ => WholeGroups.none (Or.inl rfl)⟩
  · by_cases small : info.size < grpSize
    · rw [eraseRange_small small below]
      exact ⟨fun _ => Or.inr (maskIsRemainder_small small), fun _ => WholeGroups.none (Or.inr small)⟩
    · obtain ⟨b, n, range, start, count⟩ := eraseRange_toNat positive (Nat.le_of_not_lt small) inside
      have bits : (info.start + grpSize - 1) &&& (grpSize - 1) ≤ grpSize - 1 := Nat.and_le_right
      rw [range]
      simp only [BitVec.toNat_ofNat]
      rw [Nat.mod_eq_of_lt (show b < 2 ^ 32 by omega), Nat.mod_eq_of_lt (show n < 2 ^ 32 by omega),
        wholeGroups_iff positive (Nat.le_of_not_lt small) start count]
      exact ⟨Or.inr, fun either => either.resolve_left positive.ne'⟩

/-- An MMC card of version 4 with the erase group of its CSD: `3 * 32` blocks, or
`4 * 32` where `gsz` is 3. -/
def csdRegs (gsz : Nat) : CardRegs where
  isSd := false
  version4 := true
  csd2 := gsz * 2 ^ 10 + 31 * 2 ^ 5
  extCsd _ := 0

def eraseOk : EraseOutcome where
  cardInit := ⟨true, true, 0⟩
  blkDev := ⟨⟨true, true, 0⟩, true⟩
  erase st _ cnt := (cnt, st)

/-- The partition that the erase commands below are about. -/
def userdata : DiskPartition := ⟨cstr "userdata", 100, 1000⟩

def userdataReader : PartReader := fun _ part => if part = 1 then some userdata else none

def eraseRequest : FlashRequest :=
  blockRequest "userdata" (ptableOf false 8192 (fun part => if part = 1 then some userdata else none)) (fun _ => none)

theorem userdata_target : (eraseTarget userdataReader eraseOk eraseRequest sdStorage).1 = .ok userdata := rfl

theorem userdata_wholeGroups :
    ∃ call, (processEraseMmc userdataReader eraseOk 128 eraseRequest sdStorage).calls = [call] ∧
      WholeGroups 128 userdata call :=
  have computed : (csdRegs 3).HasEraseGrpSize 128 := .startup (show (csdRegs 3).startupEraseGrpSize true = some 128 from rfl)
  (eraseCalls_wholeGroups_iff computed userdata_target (by decide)).mpr (Or.inr (maskIsRemainder_two_pow 7 _ _))

/-- With groups of 96 blocks the range starts and ends inside of groups. -/
theorem userdata_not_wholeGroups :
    (csdRegs 2).startupEraseGrpSize true = some 96 ∧
      (processEraseMmc userdataReader eraseOk 96 eraseRequest sdStorage).calls = [(128, 896)] ∧
      ¬ WholeGroups 96 userdata (128, 896) := by
  refine ⟨rfl, rfl, fun groups => ?_⟩
  rcases groups.whole with none | ⟨whole, _⟩
  · exact absurd none (by decide)
  · exact absurd whole (by decide)

end UuuFastboot
