import Mathlib.Tactic

/-!
# Filling in placeholders

Texts are lists over any type with a view to the characters that are compared, so that characters can carry where they
come from. A placeholder begins with the only mark in it. Filling in one placeholder after the other is the same as filling
in all of them at once, as long as no step finds its placeholder more often than the template has it.
-/

namespace Fill

variable {α β γ : Type}

def IsKey (mark : γ) (key : List γ) : Prop := ∃ name, key = mark :: name ∧ mark ∉ name

theorem isKey_iff {mark : γ} {key : List γ} : IsKey mark key ↔ key.head? = some mark ∧ mark ∉ key.tail := by
  cases key with
  | nil => simp [IsKey]
  | cons c name =>
    constructor
    · rintro ⟨_, eq, whole⟩
      cases eq
      exact ⟨rfl, whole⟩
    · rintro ⟨first, whole⟩
      exact ⟨name, congrArg (· :: name) (Option.some.inj first), whole⟩

section Key

variable {view : α → γ} {mark : γ} {key : List γ}

theorem IsKey.not_at (isKey : IsKey mark key) {c : α} (letter : view c ≠ mark) (rest : List α) :
    ¬ key <+: (c :: rest).map view := by
  obtain ⟨name, rfl, -⟩ := isKey
  intro begins
  exact letter (List.cons_prefix_cons.mp begins).1.symm

theorem IsKey.split (isKey : IsKey mark key) {c : α} {rest : List α} (begins : key <+: (c :: rest).map view) :
    ∃ name tail, rest = name ++ tail ∧ name.length + 1 = key.length ∧ (∀ x ∈ name, view x ≠ mark) ∧
      (c :: name).map view = key := by
  obtain ⟨letters, rfl, whole⟩ := isKey
  obtain ⟨first, follows⟩ := List.cons_prefix_cons.mp begins
  have same : (rest.take letters.length).map view = letters := by
    rw [List.map_take]
    exact (List.prefix_iff_eq_take.mp follows).symm
  refine ⟨_, _, (List.take_append_drop letters.length rest).symm, ?_, fun x inside is => ?_, ?_⟩
  · have length := congrArg List.length same
    rw [List.length_map] at length
    rw [length, List.length_cons]
  · exact whole (same ▸ is ▸ List.mem_map_of_mem inside)
  · rw [List.map_cons, same, first]

end Key

variable [DecidableEq γ] (view : α → γ)

/-- The template with each placeholder replaced by its value, where `skip` characters are still to be left out. -/
def fillFrom (table : List (List γ × List α)) : Nat → List α → List α
  | _, [] => []
  | 0, c :: rest =>
    match table.find? (fun entry => entry.1 <+: (c :: rest).map view) with
    | some entry => entry.2 ++ fillFrom table (entry.1.length - 1) rest
    | none => c :: fillFrom table 0 rest
  | skip + 1, _ :: rest => fillFrom table skip rest

/-- All placeholders are filled in at once. -/
def fill (table : List (List γ × List α)) (text : List α) : List α := fillFrom view table 0 text

def occurrences (key : List γ) : List α → List (List α)
  | [] => []
  | c :: rest =>
    if key <+: (c :: rest).map view then (c :: rest).take key.length :: occurrences key rest else occurrences key rest

variable {view} {mark : γ} {table : List (List γ × List α)} {key : List γ} {value : List α}

theorem fillFrom_skip (skip : Nat) (text : List α) : fillFrom view table skip text = fill view table (text.drop skip) := by
  induction skip generalizing text with
  | zero => rfl
  | succ skip ih =>
    cases text with
    | nil => rfl
    | cons c rest => exact ih rest

theorem fill_of_find {text : List α} {entry : List γ × List α} (isKey : IsKey mark entry.1)
    (found : table.find? (fun entry => entry.1 <+: text.map view) = some entry) :
    fill view table text = entry.2 ++ fill view table (text.drop entry.1.length) := by
  obtain ⟨name, eq, -⟩ := isKey
  cases text with
  | nil =>
    have begins := List.find?_some found
    simp [eq] at begins
  | cons c rest =>
    rw [fill, fillFrom, found]
    dsimp only
    rw [fillFrom_skip, eq]
    rfl

theorem fill_of_none {c : α} {rest : List α}
    (none_ : table.find? (fun entry => entry.1 <+: (c :: rest).map view) = none) :
    fill view table (c :: rest) = c :: fill view table rest := by
  rw [fill, fillFrom, none_]
  rfl

section Letters

variable {letters : List α} (no_mark : ∀ x ∈ letters, view x ≠ mark)
include no_mark

theorem fill_letters (keys : ∀ entry ∈ table, IsKey mark entry.1) (rest : List α) :
    fill view table (letters ++ rest) = letters ++ fill view table rest := by
  induction letters with
  | nil => rfl
  | cons c letters ih =>
    obtain ⟨first, others⟩ := List.forall_mem_cons.mp no_mark
    have none_ : table.find? (fun entry => entry.1 <+: (c :: (letters ++ rest)).map view) = none :=
      List.find?_eq_none.mpr (fun entry inside => by
        simpa only [decide_eq_true_eq] using (keys entry inside).not_at first _)
    rw [List.cons_append, fill_of_none none_, ih others]
    rfl

theorem occurrences_letters (isKey : IsKey mark key) (rest : List α) :
    occurrences view key (letters ++ rest) = occurrences view key rest := by
  induction letters with
  | nil => rfl
  | cons c letters ih =>
    obtain ⟨first, others⟩ := List.forall_mem_cons.mp no_mark
    rw [List.cons_append, occurrences, if_neg (isKey.not_at first _), ih others]

end Letters

theorem find?_single {text : List α} (begins : key <+: text.map view) :
    [(key, value)].find? (fun entry => entry.1 <+: text.map view) = some (key, value) := by
  simp [begins]

theorem find?_single_none {text : List α} (other : ¬ key <+: text.map view) :
    [(key, value)].find? (fun entry => entry.1 <+: text.map view) = none := by
  simp [other]

theorem occurrences_append (front text : List α) : ∃ more, occurrences view key (front ++ text) =
    more ++ occurrences view key text ∧
    (more = [] → fill view [(key, value)] (front ++ text) = front ++ fill view [(key, value)] text) := by
  induction front with
  | nil => exact ⟨[], rfl, fun _ => rfl⟩
  | cons c front ih =>
    obtain ⟨more, split, same⟩ := ih
    rw [List.cons_append, occurrences]
    split_ifs with begins
    · exact ⟨_ :: more, congrArg (_ :: ·) split, nofun⟩
    · exact ⟨more, split, fun none_ => (fill_of_none (find?_single_none begins)).trans (congrArg (c :: ·) (same none_))⟩

/-- Filling in the other placeholders adds occurrences of a placeholder, or leaves those of the template, and then the
placeholder can be filled in afterwards. -/
theorem fill_then (keys : ∀ entry ∈ table, IsKey mark entry.1) (isKey : IsKey mark key)
    (apart : ∀ entry ∈ table, ¬ entry.1 <+: key ∧ ¬ key <+: entry.1) (text : List α) :
    (occurrences view key text).length ≤ (occurrences view key (fill view table text)).length ∧
    ((occurrences view key (fill view table text)).length = (occurrences view key text).length →
      occurrences view key (fill view table text) = occurrences view key text ∧
      fill view [(key, value)] (fill view table text) = fill view (table ++ [(key, value)]) text) := by
  have single : ∀ entry ∈ [(key, value)], IsKey mark entry.1 := by simpa using isKey
  have both : ∀ entry ∈ table ++ [(key, value)], IsKey mark entry.1 := by
    simpa [or_imp, forall_and] using And.intro keys isKey
  induction text with
  | nil => exact ⟨le_rfl, fun _ => ⟨rfl, rfl⟩⟩
  | cons c rest ih =>
    obtain ⟨least, right⟩ := ih
    cases found : table.find? (fun entry => entry.1 <+: (c :: rest).map view) with
    | some entry =>
      have inside := List.mem_of_find?_eq_some found
      have begins : entry.1 <+: (c :: rest).map view := by simpa using List.find?_some found
      have other : ¬ key <+: (c :: rest).map view := fun also =>
        (List.prefix_or_prefix_of_prefix begins also).elim (apart entry inside).1 (apart entry inside).2
      obtain ⟨name, tail, rfl, length, no_mark, -⟩ := (keys entry inside).split begins
      have dropped : (c :: (name ++ tail)).drop entry.1.length = tail := by
        rw [← length]
        exact List.drop_left
      have foundBoth : (table ++ [(key, value)]).find? (fun entry => entry.1 <+: (c :: (name ++ tail)).map view) =
          some entry := by
        rw [List.find?_append, found]
        rfl
      rw [fill_of_find (keys entry inside) found, fill_of_find (keys entry inside) foundBoth, dropped, occurrences,
        if_neg other]
      simp only [fill_letters no_mark keys, fill_letters no_mark single, fill_letters no_mark both,
        occurrences_letters no_mark isKey, List.append_cancel_left_eq] at least right ⊢
      -- What the value adds comes in front of the occurrences behind it.
      obtain ⟨more, split, same⟩ := @occurrences_append _ _ _ view key value entry.2 (fill view table tail)
      rw [split, List.length_append]
      refine ⟨by omega, fun equal => ?_⟩
      obtain rfl : more = [] := List.eq_nil_of_length_eq_zero (by omega)
      obtain ⟨occurs, filled⟩ := right (by simpa using equal)
      exact ⟨occurs, by rw [same rfl, filled]⟩
    | none =>
      rw [fill_of_none found]
      by_cases begins : key <+: (c :: rest).map view
      · obtain ⟨name, tail, rfl, length, no_mark, spelled⟩ := isKey.split begins
        rw [fill_letters no_mark keys] at least right ⊢
        have still : key <+: (c :: (name ++ fill view table tail)).map view := by
          rw [← List.cons_append, List.map_append, spelled]
          exact List.prefix_append _ _
        have dropped (end_ : List α) : (c :: (name ++ end_)).drop key.length = end_ := by
          rw [← length]
          exact List.drop_left
        have taken (end_ : List α) : (c :: (name ++ end_)).take key.length = c :: name := by
          rw [← length, List.take_succ_cons, List.take_left]
        have foundBoth : (table ++ [(key, value)]).find? (fun entry => entry.1 <+: (c :: (name ++ tail)).map view) =
            some (key, value) := by
          rw [List.find?_append, found, Option.none_or, find?_single begins]
        rw [occurrences, if_pos begins, occurrences, if_pos still, taken, taken, List.length_cons, List.length_cons]
        refine ⟨by omega, fun equal => ?_⟩
        obtain ⟨occurs, filled⟩ := right (by omega)
        refine ⟨congrArg (_ :: ·) occurs, ?_⟩
        rw [fill_letters no_mark single, fill_letters no_mark both, List.append_cancel_left_eq] at filled
        rw [fill_of_find isKey (find?_single still), fill_of_find isKey foundBoth, dropped, dropped, filled]
      · have foundBoth : (table ++ [(key, value)]).find? (fun entry => entry.1 <+: (c :: rest).map view) = none := by
          rw [List.find?_append, found, Option.none_or, find?_single_none begins]
        rw [occurrences, if_neg begins, occurrences]
        split_ifs with new
        · exact ⟨le_trans least (by simp), fun equal => by rw [List.length_cons] at equal; omega⟩
        · refine ⟨least, fun equal => ⟨(right equal).1, ?_⟩⟩
          rw [fill_of_none (find?_single_none new), fill_of_none foundBoth, (right equal).2]

section Map

variable {view' : β → γ} {g : α → β} (same : ∀ x, view' (g x) = view x)
include same

theorem fill_map (text : List α) :
    fill view' (table.map (Prod.map id (List.map g))) (text.map g) = (fill view table text).map g := by
  have chars (text : List α) : (text.map g).map view' = text.map view := by
    rw [List.map_map]
    exact List.map_congr_left (fun x _ => same x)
  have from_ (skip : Nat) : fillFrom view' (table.map (Prod.map id (List.map g))) skip (text.map g) =
      (fillFrom view table skip text).map g := by
    induction text generalizing skip with
    | nil => cases skip <;> rfl
    | cons c rest ih =>
      cases skip with
      | succ skip => exact ih skip
      | zero =>
        have find : (table.map (Prod.map id (List.map g))).find?
            (fun entry => entry.1 <+: ((c :: rest).map g).map view') =
              (table.find? (fun entry => entry.1 <+: (c :: rest).map view)).map (Prod.map id (List.map g)) := by
          rw [List.find?_map, chars]
          rfl
        rw [List.map_cons] at find ⊢
        rw [fillFrom, fillFrom, find]
        cases table.find? (fun entry => entry.1 <+: (c :: rest).map view) with
        | none => exact congrArg (g c :: ·) (ih 0)
        | some entry => exact (congrArg (entry.2.map g ++ ·) (ih _)).trans List.map_append.symm
  exact from_ 0

theorem occurrences_map (text : List α) :
    occurrences view' key (text.map g) = (occurrences view key text).map (List.map g) := by
  induction text with
  | nil => rfl
  | cons c rest ih =>
    have chars : (g c :: rest.map g).map view' = (c :: rest).map view := by
      rw [← List.map_cons, List.map_map]
      exact List.map_congr_left (fun x _ => same x)
    rw [List.map_cons, occurrences, occurrences, chars, ih]
    split_ifs
    · rw [List.map_cons, List.map_take]
      rfl
    · rfl

end Map

end Fill
