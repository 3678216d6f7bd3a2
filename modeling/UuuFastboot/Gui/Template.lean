import UuuFastboot.Lib.Fill

namespace UuuFastboot.Gui

open Fill

/-- Placeholders with what they are replaced by, in the order of the calls of `replace`. -/
abbrev Table := List (List Char × List Char)

/-- `QFileInfo(path).fileName()` -/
def fileName (path : List Char) : List Char := (path.reverse.takeWhile (· ≠ '/')).reverse

/-- The calls of `strScript.replace`, one after the other. -/
def replaceAll (table : Table) (strScript : List Char) : List Char :=
  table.foldl (fun strScript entry => fill id [entry] strScript) strScript

def fileTable (path : List Char) : Table := [("_file".toList, '@' :: path), ("_name".toList, fileName path)]

def allTable (uboot tree kernel rootfs : List Char) : Table :=
  [("_filerootfs".toList, '@' :: rootfs), ("_fileuboot".toList, '@' :: uboot), ("_filekernel".toList, '@' :: kernel),
   ("_kernelname".toList, fileName kernel), ("_filetree".toList, '@' :: tree), ("_treename".toList, fileName tree)]

/-- The functions for a single file refuse an empty path. -/
def writeFile (path template : List Char) : Option (List Char) :=
  if path = [] then none else some (replaceAll (fileTable path) template)

def doWriteTreeFile (tree template : List Char) : Option (List Char) := writeFile tree template

def doWriteKernelFile (kernel template : List Char) : Option (List Char) := writeFile kernel template

def doWriteUserSpaceFile (user template : List Char) : Option (List Char) := writeFile user template

def doWriteAllFile (uboot tree kernel rootfs template : List Char) : Option (List Char) :=
  if uboot = [] ∨ tree = [] ∨ kernel = [] ∨ rootfs = [] then none
  else some (replaceAll (allTable uboot tree kernel rootfs) template)

/-- A button that writes a script, with the paths in the fields it reads. -/
inductive Job
  | tree (path : List Char)
  | kernel (path : List Char)
  | userSpace (path : List Char)
  | all (uboot tree kernel rootfs : List Char)

def Job.write : Job → List Char → Option (List Char)
  | tree path => doWriteTreeFile path
  | kernel path => doWriteKernelFile path
  | userSpace path => doWriteUserSpaceFile path
  | all uboot dtb zImage rootfs => doWriteAllFile uboot dtb zImage rootfs

def Job.table : Job → Table
  | tree path | kernel path | userSpace path => fileTable path
  | all uboot dtb zImage rootfs => allTable uboot dtb zImage rootfs

def marked (template : List Char) : List (Char × Option Nat) := template.zipIdx.map (fun at_ => (at_.1, some at_.2))

def tagged (table : Table) : List (List Char × List (Char × Option Nat)) := table.map (Prod.map id (List.map (·, none)))

def trace (table : Table) (template : List Char) : List (Char × Option Nat) :=
  (tagged table).foldl (fun script entry => fill Prod.fst [entry] script) (marked template)

/-- Each call of `replace` finds the placeholders of the template, and nothing else. -/
def OnlyPlaceholders (table : Table) (template : List Char) : Prop :=
  ∀ i entry, table[i]? = some entry → occurrences Prod.fst entry.1 (trace (table.take i) template) =
    occurrences Prod.fst entry.1 (marked template)

/-- With the earlier placeholders filled in at once, a placeholder occurs as often as in the template. -/
def NoNewPlaceholder (table : Table) (template : List Char) : Prop :=
  ∀ i entry, table[i]? = some entry → (occurrences id entry.1 (fill id (table.take i) template)).length =
    (occurrences id entry.1 template).length

def placeholders : List (List (List Char)) :=
  [["_file", "_name"], ["_filerootfs", "_fileuboot", "_filekernel", "_kernelname", "_filetree", "_treename"]].map
    (List.map String.toList)

theorem Job.keys_mem (job : Job) : job.table.map Prod.fst ∈ placeholders := by
  cases job with
  | tree path => exact List.mem_cons_self
  | kernel path => exact List.mem_cons_self
  | userSpace path => exact List.mem_cons_self
  | all uboot dtb zImage rootfs => exact List.mem_cons_of_mem _ List.mem_cons_self

theorem Job.isKey (job : Job) : ∀ key ∈ job.table.map Prod.fst, IsKey '_' key := by
  have decided : ∀ keys ∈ placeholders, ∀ key ∈ keys, key.head? = some '_' ∧ '_' ∉ key.tail := by decide
  exact fun key inside => isKey_iff.mpr (decided _ job.keys_mem key inside)

theorem Job.apart (job : Job) : (job.table.map Prod.fst).Pairwise (fun a b => ¬ a <+: b ∧ ¬ b <+: a) := by
  have decided : ∀ keys ∈ placeholders, keys.Pairwise (fun a b => ¬ a <+: b ∧ ¬ b <+: a) := by decide
  exact decided _ job.keys_mem

theorem Job.write_eq {job : Job} {template out : List Char} (written : job.write template = some out) :
    out = replaceAll job.table template := by
  have single {path : List Char} (written : writeFile path template = some out) :
      out = replaceAll (fileTable path) template := by
    rw [writeFile] at written
    split_ifs at written
    exact (Option.some.inj written).symm
  cases job with
  | tree path => exact single written
  | kernel path => exact single written
  | userSpace path => exact single written
  | all uboot dtb zImage rootfs =>
    rw [Job.write, doWriteAllFile] at written
    split_ifs at written
    exact (Option.some.inj written).symm

theorem untagged (table : Table) : (tagged table).map (Prod.map id (List.map Prod.fst)) = table := by
  have entry (e : List Char × List Char) :
      (Prod.map id (List.map Prod.fst) ∘ Prod.map id (List.map (fun c => (c, (none : Option Nat))))) e = e := by
    simp [Prod.map, Function.comp_def]
  rw [tagged, List.map_map]
  exact (List.map_congr_left (fun e _ => entry e)).trans (List.map_id table)

theorem marked_chars (template : List Char) : (marked template).map Prod.fst = template := by
  rw [marked, List.map_map]
  exact List.zipIdx_map_fst 0 template

theorem fill_tagged (table : Table) (script : List (Char × Option Nat)) :
    (fill Prod.fst (tagged table) script).map Prod.fst = fill id table (script.map Prod.fst) := by
  have mapped := @fill_map _ _ _ _ Prod.fst (tagged table) id Prod.fst (fun _ => rfl) script
  rw [untagged] at mapped
  exact mapped.symm

theorem occurrences_chars (key : List Char) (script : List (Char × Option Nat)) :
    (occurrences Prod.fst key script).length = (occurrences id key (script.map Prod.fst)).length := by
  rw [@occurrences_map _ _ _ _ Prod.fst key id Prod.fst (fun _ => rfl), List.length_map]

theorem trace_chars (table : Table) (template : List Char) :
    (trace table template).map Prod.fst = replaceAll table template := by
  have fold (script : List (Char × Option Nat)) :
      ((tagged table).foldl (fun script entry => fill Prod.fst [entry] script) script).map Prod.fst =
        replaceAll table (script.map Prod.fst) := by
    induction table generalizing script with
    | nil => rfl
    | cons entry table ih => exact (ih _).trans (congrArg (replaceAll table) (fill_tagged [entry] script))
  rw [trace, fold, marked_chars]

section Steps

variable {table : Table} {template : List Char}
  (isKey : ∀ key ∈ table.map Prod.fst, IsKey '_' key)
  (apart : (table.map Prod.fst).Pairwise (fun a b => ¬ a <+: b ∧ ¬ b <+: a))
include isKey apart

theorem replace_next {i : Nat} {entry : List Char × List Char} (at_ : table[i]? = some entry) :
    (occurrences id entry.1 (fill id (table.take i) template)).length = (occurrences id entry.1 template).length →
    occurrences Prod.fst entry.1 (fill Prod.fst (tagged (table.take i)) (marked template)) =
        occurrences Prod.fst entry.1 (marked template) ∧
      fill Prod.fst (tagged [entry]) (fill Prod.fst (tagged (table.take i)) (marked template)) =
        fill Prod.fst (tagged (table.take (i + 1))) (marked template) := by
  have keys : ∀ e ∈ tagged (table.take i), IsKey '_' e.1 := by
    intro e listed
    obtain ⟨e, inside, rfl⟩ := List.mem_map.mp listed
    exact isKey e.1 (List.mem_map_of_mem (List.mem_of_mem_take inside))
  have others : ∀ e ∈ tagged (table.take i), ¬ e.1 <+: entry.1 ∧ ¬ entry.1 <+: e.1 := by
    intro e listed
    obtain ⟨e, inside, rfl⟩ := List.mem_map.mp listed
    obtain ⟨below, eq⟩ := List.getElem?_eq_some_iff.mp at_
    rw [← List.take_append_drop i table, List.map_append, List.drop_eq_getElem_cons below, eq] at apart
    exact (List.pairwise_append.mp apart).2.2 e.1 (List.mem_map_of_mem inside) entry.1 List.mem_cons_self
  have own : IsKey '_' entry.1 := isKey _ (List.mem_map_of_mem (List.mem_of_getElem? at_))
  intro same
  have filled := @fill_then _ _ _ Prod.fst '_' (tagged (table.take i)) entry.1 (entry.2.map (·, none)) keys own others
    (marked template)
  rw [occurrences_chars, occurrences_chars, fill_tagged, marked_chars] at filled
  have next : tagged (table.take (i + 1)) = tagged (table.take i) ++ tagged [entry] := by
    rw [List.take_add_one, at_]
    exact List.map_append
  rw [next]
  exact filled.2 same

theorem trace_take (n : Nat) (before : ∀ i < n, ∀ entry, table[i]? = some entry →
    (occurrences id entry.1 (fill id (table.take i) template)).length = (occurrences id entry.1 template).length) :
    trace (table.take n) template = fill Prod.fst (tagged (table.take n)) (marked template) := by
  induction n with
  | zero =>
    have nothing (script : List (Char × Option Nat)) : fill Prod.fst [] script = script := by
      induction script with
      | nil => rfl
      | cons c rest ih => exact congrArg (c :: ·) ih
    exact (nothing _).symm
  | succ n ih =>
    have earlier := ih (fun i below => before i (by omega))
    cases at_ : table[n]? with
    | none => rwa [List.take_add_one, at_, Option.toList_none, List.append_nil]
    | some entry =>
      rw [← (replace_next isKey apart at_ (before n (by omega) entry at_)).2, ← earlier, List.take_add_one, at_, trace,
        trace, tagged, List.map_append, List.foldl_append]
      rfl

/-- Replacing one after the other keeps to the placeholders of the template if no new ones come up. -/
theorem onlyPlaceholders_iff : OnlyPlaceholders table template ↔ NoNewPlaceholder table template := by
  constructor
  · intro only i
    induction i using Nat.strong_induction_on with
    | _ i ih =>
      intro entry at_
      have found := only i entry at_
      rw [trace_take isKey apart i ih] at found
      have same := congrArg List.length found
      rwa [occurrences_chars, occurrences_chars, fill_tagged, marked_chars] at same
  · intro none_ i entry at_
    rw [trace_take isKey apart i (fun j _ => none_ j)]
    exact (replace_next isKey apart at_ (none_ i entry at_)).1

theorem replaceAll_eq_fill (none_ : NoNewPlaceholder table template) : replaceAll table template = fill id table template := by
  have whole := trace_take isKey apart table.length (fun i _ => none_ i)
  rw [List.take_length] at whole
  rw [← trace_chars, whole, fill_tagged, marked_chars]

end Steps

end UuuFastboot.Gui
