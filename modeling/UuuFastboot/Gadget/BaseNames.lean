import UuuFastboot.Gadget.Getvar

namespace UuuFastboot

open CString

/-- The name of a partition without one trailing `_a` or `_b`. -/
def baseName (name : CStr) : CStr :=
  if (cstr "_a").isSuffixOf name || (cstr "_b").isSuffixOf name then name.take (name.length - 2) else name

/-- What `get_partition_base_name` makes of a name: it is cut at the first `_a`, or else at the first `_b`. -/
def cutName (name : CStr) : CStr := ((cutAt (cstr "_a") name).or (cutAt (cstr "_b") name)).getD name

/-- A name that is not cut. `get_partition_base_name` adds it without looking for it. -/
def Plain (name : CStr) : Prop := cutAt (cstr "_a") name = none ∧ cutAt (cstr "_b") name = none

/-- The strings that `get_partition_base_name` copies: each name to `buffer`, and each result to its row. -/
def baseNameStrings (ptable : List PtEntry) : List Built :=
  ptable.map (fun p => ⟨p.name, 16⟩) ++ (partitionBaseNames ptable).map (fun name => ⟨name, 16⟩)

/-- Each base name is returned once, no other name is, and every copy has room. -/
structure BaseNamesRight (ptable : List PtEntry) : Prop where
  once : (partitionBaseNames ptable).Nodup
  exact : ∀ name, name ∈ partitionBaseNames ptable ↔ ∃ p ∈ ptable, baseName p.name = name
  fits : ∀ b ∈ baseNameStrings ptable, b.Fits

/-- The names for which cutting in the middle does not show. -/
structure CutRight (ptable : List PtEntry) : Prop where
  short : ∀ p ∈ ptable, p.name.length ≤ 15
  cut : ∀ p ∈ ptable, ∃ q ∈ ptable, baseName q.name = cutName p.name
  base : ∀ p ∈ ptable, ∃ q ∈ ptable, cutName q.name = baseName p.name
  plain : ptable.Pairwise (fun p q => Plain q.name → cutName p.name ≠ q.name)

theorem cutName_of_plain {name : CStr} (plain : Plain name) : cutName name = name := by
  rw [cutName, plain.1, plain.2]
  rfl

theorem cutName_length_le (name : CStr) : (cutName name).length ≤ name.length := by
  have taken {suffix cut : CStr} (found : cutAt suffix name = some cut) : cut.length ≤ name.length := by
    obtain ⟨rest, -, rfl⟩ := Option.map_eq_some_iff.mp found
    exact List.length_take_le' _ _
  rw [cutName]
  cases first : cutAt (cstr "_a") name with
  | some cut => exact taken first
  | none =>
    cases second : cutAt (cstr "_b") name with
    | some cut => exact taken second
    | none => exact le_rfl

section Fold

variable {names : List CStr} {p : PtEntry} {ptable : List PtEntry}

theorem addBaseName_of_plain (plain : Plain p.name) : addBaseName names p = names ++ [p.name] := by
  rw [addBaseName, plain.1, plain.2]

theorem addBaseName_of_cut (cut : ¬ Plain p.name) :
    addBaseName names p = if cutName p.name ∈ names then names else names ++ [cutName p.name] := by
  rw [addBaseName, cutName]
  cases first : cutAt (cstr "_a") p.name with
  | some base => rfl
  | none =>
    cases second : cutAt (cstr "_b") p.name with
    | some base => rfl
    | none => exact absurd ⟨first, second⟩ cut

theorem mem_addBaseName {name : CStr} : name ∈ addBaseName names p ↔ name ∈ names ∨ cutName p.name = name := by
  by_cases plain : Plain p.name
  · rw [addBaseName_of_plain plain, cutName_of_plain plain, List.mem_append, List.mem_singleton, eq_comm]
  · rw [addBaseName_of_cut plain]
    split
    · next known => exact ⟨Or.inl, fun either => either.elim id (fun same => same ▸ known)⟩
    · rw [List.mem_append, List.mem_singleton, eq_comm]

theorem addBaseName_nodup : (addBaseName names p).Nodup ↔ names.Nodup ∧ (Plain p.name → p.name ∉ names) := by
  have append (name : CStr) : (names ++ [name]).Nodup ↔ names.Nodup ∧ name ∉ names := by
    rw [← List.concat_eq_append, List.nodup_concat, and_comm]
  by_cases plain : Plain p.name
  · rw [addBaseName_of_plain plain, append]
    exact ⟨fun ⟨once, new⟩ => ⟨once, fun _ => new⟩, fun ⟨once, new⟩ => ⟨once, new plain⟩⟩
  · rw [addBaseName_of_cut plain]
    split
    · exact ⟨fun once => ⟨once, fun is => absurd is plain⟩, And.left⟩
    · next new =>
      rw [append]
      exact ⟨fun ⟨once, _⟩ => ⟨once, fun is => absurd is plain⟩, fun ⟨once, _⟩ => ⟨once, new⟩⟩

theorem mem_foldl_addBaseName {name : CStr} :
    name ∈ ptable.foldl addBaseName names ↔ name ∈ names ∨ ∃ p ∈ ptable, cutName p.name = name := by
  induction ptable generalizing names with
  | nil => simp
  | cons p ptable ih =>
    rw [List.foldl_cons, ih, mem_addBaseName, or_assoc]
    simp only [List.mem_cons, exists_eq_or_imp]

theorem foldl_addBaseName_nodup : (ptable.foldl addBaseName names).Nodup ↔
    names.Nodup ∧ (∀ p ∈ ptable, Plain p.name → p.name ∉ names) ∧
      ptable.Pairwise (fun p q => Plain q.name → cutName p.name ≠ q.name) := by
  induction ptable generalizing names with
  | nil => simp
  | cons p ptable ih =>
    rw [List.foldl_cons, ih, addBaseName_nodup, List.pairwise_cons, List.forall_mem_cons]
    -- A later name must be new to the names so far and to the one added for `p`.
    simp only [mem_addBaseName, not_or, ne_eq, imp_and, forall_and]
    tauto

end Fold

theorem mem_partitionBaseNames {ptable : List PtEntry} {name : CStr} :
    name ∈ partitionBaseNames ptable ↔ ∃ p ∈ ptable, cutName p.name = name := by
  rw [partitionBaseNames, mem_foldl_addBaseName, or_iff_right List.not_mem_nil]

theorem baseNameStrings_fit_iff (ptable : List PtEntry) :
    (∀ b ∈ baseNameStrings ptable, b.Fits) ↔ ∀ p ∈ ptable, p.name.length ≤ 15 := by
  simp only [baseNameStrings, List.mem_append, List.mem_map]
  constructor
  · intro fits p inTable
    exact Nat.le_of_succ_le_succ (fits _ (Or.inl ⟨p, inTable, rfl⟩))
  · rintro short b (⟨p, inTable, rfl⟩ | ⟨name, isBase, rfl⟩)
    · exact Nat.succ_le_succ (short p inTable)
    · obtain ⟨p, inTable, rfl⟩ := mem_partitionBaseNames.mp isBase
      exact Nat.succ_le_succ ((cutName_length_le p.name).trans (short p inTable))

end UuuFastboot
