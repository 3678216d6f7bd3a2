import UuuFastboot.Lib.Orbit
import UuuFastboot.Part.DosChain

namespace UuuFastboot.Dos

open Word Bytes CString Radix Orbit Relation

/-! ### Links between records

A record counts together with what its own links are relative to. -/

/-- The record that `part_get_info_extended` goes on with. -/
def nextRecord (dev : BlkDesc) (s : Nat × Nat) : Option (Nat × Nat) :=
  (dev.read s.1).bind (fun buffer =>
    if hasMagic buffer then ((entries buffer).find? isExtended).map (follow s.1 s.2) else none)

/-- `print_partition_extended` goes on with `t` behind `s`, one of up to four records. -/
def PrintLink (dev : BlkDesc) (s t : Nat × Nat) : Prop :=
  ∃ buffer, dev.read s.1 = some buffer ∧ testBlockType buffer = some .mbr ∧
    ∃ pt ∈ (entries buffer).filter isExtended, t = follow s.1 s.2 pt

/-- From the boot record on, no way along the links comes back to a record that it has passed. -/
def NoLoop (Link : Nat × Nat → Nat × Nat → Prop) : Prop := ∀ t, ReflTransGen Link (0, 0) t → ¬ TransGen Link t t

/-- The search comes to the record `s` with the number `partNum`. -/
inductive NumberedFrom (dev : BlkDesc) : Nat × Nat → Nat → Prop
  | first : NumberedFrom dev (0, 0) 1
  | next {s t : Nat × Nat} {partNum : Nat} {buffer : Buf} : NumberedFrom dev s partNum → dev.read s.1 = some buffer →
      nextRecord dev s = some t → NumberedFrom dev t (partNum + (entries buffer).countP (counts s.1))

/-- One of the entries has the number `n`, when those of a record are numbered from `partNum` on, and is one of a
partition with a flag of 0 or 0x80. -/
def HasNumber (sector : Nat) (n : Int) (l : List Buf) (partNum : Nat) : Prop :=
  ∃ front pt back, l = front ++ pt :: back ∧ bootInd pt &&& ~~~0x80 = 0 ∧ isData pt = true ∧
    n = partNum + (front.countP (counts sector) : Nat)

/-- A record on the way of the search has a partition with the number `n`. -/
def Listed (dev : BlkDesc) (n : Int) : Prop :=
  ∃ s partNum buffer, NumberedFrom dev s partNum ∧ dev.read s.1 = some buffer ∧ hasMagic buffer = true ∧
    HasNumber s.1 n (entries buffer) partNum

theorem follow_lt {s : Nat × Nat} (small : s.2 < 2 ^ 32) (pt : Buf) :
    (follow s.1 s.2 pt).1 < 2 ^ 32 ∧ (follow s.1 s.2 pt).2 < 2 ^ 32 := by
  refine ⟨w32_lt _, ?_⟩
  unfold follow
  dsimp only
  split
  · exact w32_lt _
  · exact small

theorem finite_reached {Link : Nat × Nat → Nat × Nat → Prop}
    (link : ∀ s t, Link s t → ∃ pt, t = follow s.1 s.2 pt) : {t | ReflTransGen Link (0, 0) t}.Finite := by
  refine ((Set.finite_Iio (2 ^ 32)).prod (Set.finite_Iio (2 ^ 32))).subset (fun t reaches => ?_)
  induction reaches with
  | refl => exact ⟨by decide, by decide⟩
  | tail _ step ih =>
    obtain ⟨pt, rfl⟩ := link _ _ step
    exact follow_lt ih.2 pt

section Search

variable {dev : BlkDesc} {n : Int} {sector : Nat}

theorem hasNumber_cons {pt : Buf} {rest : List Buf} {partNum : Nat} :
    HasNumber sector n (pt :: rest) partNum ↔
      (bootInd pt &&& ~~~0x80 = 0 ∧ isData pt = true ∧ n = partNum) ∨
        HasNumber sector n rest (if counts sector pt then partNum + 1 else partNum) := by
  constructor
  · rintro ⟨front, pt', back, split_, flag, data, number⟩
    cases front with
    | nil =>
      cases split_
      exact Or.inl ⟨flag, data, by simpa using number⟩
    | cons first front =>
      cases split_
      refine Or.inr ⟨front, pt', back, rfl, flag, data, ?_⟩
      rw [number, List.countP_cons]
      split <;> omega
  · rintro (⟨flag, data, number⟩ | ⟨front, pt', back, rfl, flag, data, number⟩)
    · exact ⟨[], pt, rest, rfl, flag, data, by simpa using number⟩
    · refine ⟨pt :: front, pt', back, rfl, flag, data, ?_⟩
      rw [number, List.countP_cons]
      split <;> omega

variable (sector n) in
theorem findEntry_cases (l : List Buf) (partNum : Nat) :
    (HasNumber sector n l partNum ∧ ∃ pt, findEntry sector n l partNum = .inl pt) ∨
      (¬ HasNumber sector n l partNum ∧ findEntry sector n l partNum = .inr (partNum + l.countP (counts sector))) := by
  induction l generalizing partNum with
  | nil =>
    refine Or.inr ⟨?_, rfl⟩
    rintro ⟨front, pt, back, split_, -⟩
    exact absurd split_ (by simp)
  | cons pt rest ih =>
    have here : (bootInd pt &&& ~~~0x80 = 0 ∧ sysInd pt ≠ 0 ∧ (partNum : Int) = n ∧ isExtended pt = false) ↔
        bootInd pt &&& ~~~0x80 = 0 ∧ isData pt = true ∧ n = partNum := by
      simp only [isData, bne_iff_ne, Bool.and_eq_true, Bool.not_eq_true', ne_eq, eq_comm (a := (partNum : Int))]
      tauto
    rw [hasNumber_cons, findEntry, List.countP_cons]
    simp only [here]
    by_cases found : bootInd pt &&& ~~~0x80 = 0 ∧ isData pt = true ∧ n = partNum
    · exact Or.inl ⟨Or.inl found, pt, if_pos found⟩
    · rw [if_neg found]
      rcases ih (if counts sector pt then partNum + 1 else partNum) with ⟨number, further⟩ | ⟨none, further⟩
      · exact Or.inl ⟨Or.inr number, further⟩
      · refine Or.inr ⟨not_or.mpr ⟨found, none⟩, further.trans ?_⟩
        congr 1
        split <;> omega

/-- The call for a record and a number, with whatever the other arguments are, comes to an end. -/
def Returns (dev : BlkDesc) (n : Int) (s : Nat × Nat) (partNum : Nat) : Prop :=
  ∃ depth, ∀ info disksig, partGetInfoExtended dev n depth s partNum info disksig ≠ none

theorem partGetInfoExtended_ne_none {s : Nat × Nat} {partNum depth : Nat} {info : DiskPartition} {disksig : Nat} :
    partGetInfoExtended dev n (depth + 1) s partNum info disksig ≠ none ↔
      ∀ t buffer, nextRecord dev s = some t → dev.read s.1 = some buffer → ¬ HasNumber s.1 n (entries buffer) partNum →
        partGetInfoExtended dev n depth t (partNum + (entries buffer).countP (counts s.1)) info
          (if s.1 = 0 then getLe32 buffer 0x1b8 else disksig) ≠ none := by
  obtain ⟨sector, relative⟩ := s
  rw [partGetInfoExtended, nextRecord]
  cases read : dev.read sector with
  | none => simp
  | some buffer =>
    simp only [Option.bind_some, Option.some.injEq]
    cases magic : hasMagic buffer with
    | false => simp
    | true =>
      simp only [Bool.not_true, Bool.false_eq_true, if_false, if_true]
      rcases findEntry_cases n sector (entries buffer) partNum with ⟨number, pt, found⟩ | ⟨none, found⟩
      · rw [found]
        refine iff_of_true (Option.some_ne_none _) ?_
        rintro t _ - rfl none
        exact absurd number none
      · rw [found]
        simp only
        cases linked : (entries buffer).find? isExtended with
        | none =>
          simp only [Option.map_none]
          refine iff_of_true ?_ (fun t _ none => by cases none)
          split <;> exact Option.some_ne_none _
        | some pt =>
          simp only [Option.map_some, Option.some.injEq]
          constructor
          · rintro run t _ rfl rfl -
            exact run
          · intro all
            exact all _ _ rfl rfl none

theorem nextRecord_read {s t : Nat × Nat} (leads : nextRecord dev s = some t) :
    ∃ buffer, dev.read s.1 = some buffer ∧ hasMagic buffer = true ∧ ∃ pt, t = follow s.1 s.2 pt := by
  obtain ⟨buffer, read, leads⟩ := Option.bind_eq_some_iff.mp leads
  split at leads
  · next magic =>
    obtain ⟨pt, -, same⟩ := Option.map_eq_some_iff.mp leads
    exact ⟨buffer, read, magic, pt, same.symm⟩
  · cases leads

theorem returns_of_acc {s : Nat × Nat} (ends : Acc (Function.swap (Leads (nextRecord dev))) s) (partNum : Nat) :
    Returns dev n s partNum := by
  induction ends generalizing partNum with
  | intro s _ ih =>
    cases leads : nextRecord dev s with
    | none =>
      refine ⟨1, fun info disksig => partGetInfoExtended_ne_none.mpr (fun t _ some_ => ?_)⟩
      rw [leads] at some_
      cases some_
    | some t =>
      obtain ⟨buffer, read, -⟩ := nextRecord_read leads
      obtain ⟨depth, returns⟩ := ih t leads (partNum + (entries buffer).countP (counts s.1))
      refine ⟨depth + 1, fun info disksig => partGetInfoExtended_ne_none.mpr ?_⟩
      intro t' buffer' leads' read' _
      rw [leads] at leads'
      rw [read] at read'
      cases leads'
      cases read'
      exact returns _ _

theorem NumberedFrom.returns {s : Nat × Nat} {partNum : Nat} (numbered : NumberedFrom dev s partNum)
    (returns : Returns dev n s partNum) : Returns dev n (0, 0) 1 := by
  induction numbered with
  | first => exact returns
  | @next s t partNum buffer _ read leads ih =>
    obtain ⟨depth, returns⟩ := returns
    refine ih ⟨depth + 1, fun info disksig => partGetInfoExtended_ne_none.mpr ?_⟩
    intro t' buffer' leads' read' _
    rw [leads] at leads'
    rw [read] at read'
    cases leads'
    cases read'
    exact returns _ _

theorem Listed.returns (listed : Listed dev n) : Returns dev n (0, 0) 1 := by
  obtain ⟨s, partNum, buffer, numbered, read, -, number⟩ := listed
  refine numbered.returns ⟨1, fun info disksig => partGetInfoExtended_ne_none.mpr ?_⟩
  intro t buffer' _ read' none
  rw [read] at read'
  cases read'
  exact absurd number none

theorem listed_or_acc {s : Nat × Nat} {partNum depth : Nat} {info : DiskPartition} {disksig : Nat}
    (numbered : NumberedFrom dev s partNum)
    (run : partGetInfoExtended dev n depth s partNum info disksig ≠ none) :
    Listed dev n ∨ Acc (Function.swap (Leads (nextRecord dev))) s := by
  induction depth generalizing s partNum disksig with
  | zero => exact absurd rfl run
  | succ depth ih =>
    cases leads : nextRecord dev s with
    | none =>
      refine Or.inr (.intro s (fun t step => ?_))
      change nextRecord dev s = some t at step
      rw [leads] at step
      cases step
    | some t =>
      obtain ⟨buffer, read, magic, -⟩ := nextRecord_read leads
      by_cases number : HasNumber s.1 n (entries buffer) partNum
      · exact Or.inl ⟨s, partNum, buffer, numbered, read, magic, number⟩
      · have further := partGetInfoExtended_ne_none.mp run t buffer leads read number
        refine (ih (.next numbered read leads) further).imp_right (fun ends => .intro s (fun t' step => ?_))
        change nextRecord dev s = some t' at step
        rw [leads] at step
        cases step
        exact ends

end Search

section Print

variable {dev : BlkDesc}

theorem mapM_ne_none {α β : Type} {f : α → Option β} {l : List α} : l.mapM f ≠ none ↔ ∀ a ∈ l, f a ≠ none := by
  induction l with
  | nil => simp
  | cons a l ih =>
    rw [List.forall_mem_cons, ← ih, List.mapM_cons]
    cases f a <;> cases l.mapM f <;> simp

theorem bind_pure_ne_none {α β : Type} {x : Option α} {f : α → β} : (do let a ← x; pure (f a)) ≠ none ↔ x ≠ none := by
  cases x <;> simp

theorem printPartitionExtended_ne_none {s : Nat × Nat} {depth partNum disksig : Nat} :
    printPartitionExtended dev depth s partNum disksig ≠ none ↔ Within (PrintLink dev) depth s := by
  induction depth generalizing s partNum disksig with
  | zero => exact iff_of_false (fun some_ => some_ rfl) id
  | succ depth ih =>
    obtain ⟨sector, relative⟩ := s
    rw [printPartitionExtended, Within]
    cases read : dev.read sector with
    | none =>
      refine iff_of_true (Option.some_ne_none _) ?_
      rintro t ⟨buffer, there, -⟩
      rw [read] at there
      cases there
    | some buffer =>
      simp only
      by_cases table : testBlockType buffer = some .mbr
      · have links (t : Nat × Nat) : PrintLink dev (sector, relative) t ↔
            ∃ pt ∈ (entries buffer).filter isExtended, t = follow sector relative pt := by
          constructor
          · rintro ⟨buffer', there, -, link⟩
            rw [read] at there
            cases there
            exact link
          · exact fun link => ⟨buffer, read, table, link⟩
        rw [if_neg (not_not.mpr table)]
        simp only [links]
        have records : ((entries buffer).filter isExtended).mapM (fun pt => printPartitionExtended dev depth
            (follow sector relative pt) (printEntries sector (if sector = 0 then getLe32 buffer 0x1b8 else disksig)
              (entries buffer) partNum).2 (if sector = 0 then getLe32 buffer 0x1b8 else disksig)) ≠ none ↔
            ∀ t, (∃ pt ∈ (entries buffer).filter isExtended, t = follow sector relative pt) →
              Within (PrintLink dev) depth t := by
          rw [mapM_ne_none]
          constructor
          · rintro all t ⟨pt, member, rfl⟩
            exact ih.mp (all pt member)
          · exact fun all pt member => ih.mpr (all _ ⟨pt, member, rfl⟩)
        rw [← records]
        exact bind_pure_ne_none
      · rw [if_pos table]
        refine iff_of_true (Option.some_ne_none _) ?_
        rintro t ⟨buffer', there, table', -⟩
        rw [read] at there
        cases there
        exact absurd table' table

end Print

/-- The recursions end exactly where the links they follow do not lead back, or, for the search, if the partition is
found before. -/
theorem dos_returns_iff (dev : BlkDesc) :
    (∀ n info, (∃ depth, partGetInfoDos dev depth n info ≠ none) ↔
      Listed dev n ∨ NoLoop (Leads (nextRecord dev))) ∧
    ((∃ depth, partPrintDos dev depth ≠ none) ↔ NoLoop (PrintLink dev)) := by
  have search : {t | ReflTransGen (Leads (nextRecord dev)) (0, 0) t}.Finite := by
    refine finite_reached (fun s t leads => ?_)
    obtain ⟨-, -, -, link⟩ := nextRecord_read leads
    exact link
  have print : {t | ReflTransGen (PrintLink dev) (0, 0) t}.Finite := by
    refine finite_reached ?_
    rintro s t ⟨-, -, -, pt, -, link⟩
    exact ⟨pt, link⟩
  have few (s : Nat × Nat) : {t | PrintLink dev s t}.Finite := by
    cases read : dev.read s.1 with
    | none =>
      refine Set.Finite.subset Set.finite_empty ?_
      rintro t ⟨buffer, there, -⟩
      rw [read] at there
      cases there
    | some buffer =>
      refine (((entries buffer).filter isExtended).finite_toSet.image (follow s.1 s.2)).subset ?_
      rintro t ⟨buffer', there, -, pt, member, rfl⟩
      rw [read] at there
      cases there
      exact ⟨pt, member, rfl⟩
  refine ⟨fun n info => ⟨?_, ?_⟩, ?_⟩
  · rintro ⟨depth, returns⟩
    exact (listed_or_acc .first returns).imp_right (acc_iff search).mp
  · rintro (listed | noLoop)
    · obtain ⟨depth, returns⟩ := listed.returns
      exact ⟨depth, returns _ _⟩
    · obtain ⟨depth, returns⟩ := returns_of_acc ((acc_iff search).mpr noLoop) 1
      exact ⟨depth, returns _ _⟩
  · rw [NoLoop, ← acc_iff print, ← within_iff_acc few]
    exact exists_congr (fun depth => printPartitionExtended_ne_none)

theorem loopDisk_lba_lt : 64 < 2 ^ 32 := by decide

def loopDisk : BlkDesc where
  ifType := .mmc
  devnum := 0
  lba := 64
  read sector :=
    if sector = 0 then some (sampleRecord (0x5, 1, 8) (0, 0, 0))
    else if sector = 1 then some (sampleRecord (0x5, 0, 8) (0, 0, 0))
    else none
  lba_lt := loopDisk_lba_lt
  read_lt _ _ := twoRecords_lt (by decide) (by decide)

theorem loopDisk_next : ∀ s ∈ [(0, 0), (1, 1)], nextRecord loopDisk s = some (1, 1) := by decide +kernel

theorem loopDisk_numberedFrom {s : Nat × Nat} {partNum : Nat} (numbered : NumberedFrom loopDisk s partNum) :
    s ∈ [(0, 0), (1, 1)] := by
  induction numbered with
  | first => exact List.mem_cons_self
  | next _ _ leads ih =>
    rw [loopDisk_next _ ih] at leads
    cases leads
    exact List.mem_cons_of_mem _ List.mem_cons_self

theorem loopDisk_not_listed (n : Int) : ¬ Listed loopDisk n := by
  have empty : ∀ sector ∈ [0, 1], ∀ pt ∈ entries ((loopDisk.read sector).getD zeros), isData pt = false := by
    decide +kernel
  rintro ⟨s, partNum, buffer, numbered, read, -, front, pt, back, split_, -, data, -⟩
  have member : s.1 ∈ [0, 1] := List.mem_map_of_mem (f := Prod.fst) (loopDisk_numberedFrom numbered)
  have none_ := empty s.1 member pt (by rw [read, Option.getD_some, split_]; simp)
  rw [data] at none_
  cases none_

/-- Neither the search for a partition nor the listing returns. -/
theorem loopDisk_endless :
    (∀ depth n info, partGetInfoDos loopDisk depth n info = none) ∧ ∀ depth, partPrintDos loopDisk depth = none := by
  constructor
  · intro depth n info
    by_contra returns
    rcases listed_or_acc .first returns with listed | ends
    · exact loopDisk_not_listed n listed
    · exact not_cycle_of_acc (ends.inv (loopDisk_next (0, 0) (by simp))) (.single (loopDisk_next (1, 1) (by simp)))
  · intro depth
    by_contra returns
    have record : ∀ s ∈ [(0, 0), (1, 1)], ∃ buffer, loopDisk.read s.1 = some buffer ∧
        testBlockType buffer = some .mbr ∧ ((entries buffer).filter isExtended).map (follow s.1 s.2) = [(1, 1)] := by
      simp only [List.mem_cons, List.not_mem_nil, or_false, forall_eq_or_imp, forall_eq]
      exact ⟨⟨_, rfl, by decide +kernel, by decide +kernel⟩, ⟨_, rfl, by decide +kernel, by decide +kernel⟩⟩
    have link : ∀ s ∈ [(0, 0), (1, 1)], PrintLink loopDisk s (1, 1) := by
      intro s member
      obtain ⟨buffer, read, table, links⟩ := record s member
      have target : (1, 1) ∈ ((entries buffer).filter isExtended).map (follow s.1 s.2) := by rw [links]; simp
      obtain ⟨pt, inside, same⟩ := List.mem_map.mp target
      exact ⟨buffer, read, table, pt, inside, same.symm⟩
    have ends := (printPartitionExtended_ne_none.mp returns).acc
    exact not_cycle_of_acc (ends.inv (link (0, 0) (by simp))) (.single (link (1, 1) (by simp)))

end UuuFastboot.Dos
