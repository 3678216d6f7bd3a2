import Mathlib.Tactic

namespace UuuFastboot.Gui

/-- The lines that reading a text file gives, each with its newline. -/
def lines : List Char → List (List Char)
  | [] => []
  | c :: rest =>
    if c = '\n' then [c] :: lines rest
    else
      match lines rest with
      | [] => [[c]]
      | line :: others => (c :: line) :: others

/-- `re.sub(' +', ' ', line)` -/
def collapse : List Char → List Char
  | [] => []
  | c :: rest => if c = ' ' ∧ rest.head? = some ' ' then collapse rest else c :: collapse rest

def joined (words : List (List Char)) : List Char := words.flatMap (· ++ [' '])

/-- The first `num` elements of `tempList`, as they are added to `temp`. Without so many elements an exception is
raised. -/
def firstWords (num : Nat) (tempList : List (List Char)) : Option (List Char) :=
  if num ≤ tempList.length then some (joined (tempList.take num)) else none

/-- The loop of `repairScript`. The variable `temp` is not set back. -/
def repairLoop (filePath key : List Char) (num : Nat) : List Char → List (List Char) → Option (List Char)
  | _, [] => some []
  | temp, line :: rest =>
    if key <:+: line then
      (firstWords num ((collapse line).splitOn ' ')).bind (fun first =>
        let temp := temp ++ (first ++ '>' :: (filePath ++ ['\n']))
        (repairLoop filePath key num temp rest).map (temp ++ ·))
    else (repairLoop filePath key num temp rest).map (line ++ ·)

/-- `repairScript` on the text of the script; the result is written back. -/
def repairScript (filePath key : List Char) (num : Nat) (text : List Char) : Option (List Char) :=
  repairLoop filePath key num [] (lines text)

/-- The keys of the callers are some words, and `num` is their number. -/
structure Key where
  words : List (List Char)
  some_word : words ≠ []
  word : ∀ w ∈ words, w ≠ [] ∧ ' ' ∉ w

def Key.text (key : Key) : List Char := List.intercalate [' '] key.words

def Key.num (key : Key) : Nat := key.words.length

def bootloaderKey : Key := ⟨["FB:".toList, "flash".toList, "bootloader".toList], by decide, by decide⟩

def allKey : Key := ⟨["FB:".toList, "flash".toList, "-raw2sparse".toList, "all".toList], by decide, by decide⟩

example : bootloaderKey.text = "FB: flash bootloader".toList ∧ allKey.text = "FB: flash -raw2sparse all".toList := by
  decide

def spaceWords (line : List Char) : List (List Char) := (line.splitOn ' ').filter (· ≠ [])

/-- Words without newlines; a word that was only a newline is none. -/
def clean (ws : List (List Char)) : List (List Char) := (ws.map (List.filter (· ≠ '\n'))).filter (· ≠ [])

def words (line : List Char) : List (List Char) := clean (line.splitOn ' ')

def target (key : Key) (path line : List Char) : List Char :=
  joined ((words line).take key.num) ++ '>' :: (path ++ ['\n'])

def rewritten (key : Key) (path line : List Char) : List Char :=
  if key.text <:+: line then target key path line else line

/-- The script is rewritten line by line, and writing `q` after `p` is writing `q`. -/
def RepairRight (key : Key) (p q text : List Char) : Prop :=
  ∃ out, repairScript p key.text key.num text = some out ∧ lines out = (lines text).map (rewritten key p) ∧
    repairScript q key.text key.num out = repairScript q key.text key.num text

/-- A line with the key that is rewritten as it should be: it does not begin with a space, and its newline does not belong
to the words that are kept. -/
structure Good (key : Key) (line : List Char) : Prop where
  start : line.head? ≠ some ' '
  newline : ∀ w ∈ (spaceWords line).take key.num, '\n' ∉ w

variable {l w : List Char} {ws : List (List Char)}

theorem mem_splitOn (part : w ∈ l.splitOn ' ') : ' ' ∉ w := by
  induction l generalizing w with
  | nil =>
    rw [List.splitOn_nil, List.mem_singleton] at part
    rw [part]
    exact List.not_mem_nil
  | cons c rest ih =>
    obtain ⟨first, others, split⟩ := List.exists_cons_of_ne_nil (List.splitOn_ne_nil ' ' rest)
    rw [List.splitOn_cons_eq_if_modifyHead, split] at part
    rw [split] at ih
    split_ifs at part with space
    · rcases List.mem_cons.mp part with rfl | later
      · exact List.not_mem_nil
      · exact ih later
    · rw [beq_iff_eq] at space
      rcases List.mem_cons.mp part with rfl | later
      · exact List.not_mem_cons_of_ne_of_not_mem (Ne.symm space) (ih List.mem_cons_self)
      · exact ih (List.mem_cons_of_mem _ later)

theorem mem_spaceWords (part : w ∈ spaceWords l) : w ≠ [] ∧ ' ' ∉ w := by
  obtain ⟨piece, some_⟩ := List.mem_filter.mp part
  exact ⟨of_decide_eq_true some_, mem_splitOn piece⟩

theorem spaceWords_append (x y : List Char) : spaceWords (x ++ ' ' :: y) = spaceWords x ++ spaceWords y := by
  rw [spaceWords, List.splitOn_append_cons_self, List.filter_append]
  rfl

theorem spaceWords_space (y : List Char) : spaceWords (' ' :: y) = spaceWords y := spaceWords_append [] y

theorem spaceWords_word (some_ : w ≠ []) (no_space : ' ' ∉ w) : spaceWords w = [w] := by
  rw [spaceWords, List.splitOn_eq_singleton no_space]
  simp [some_]

theorem spaceWords_joined (each : ∀ w ∈ ws, w ≠ [] ∧ ' ' ∉ w) (rest : List Char) :
    spaceWords (joined ws ++ rest) = ws ++ spaceWords rest := by
  induction ws with
  | nil => rfl
  | cons w ws ih =>
    obtain ⟨⟨some_, no_space⟩, others⟩ := List.forall_mem_cons.mp each
    have split : joined (w :: ws) ++ rest = w ++ ' ' :: (joined ws ++ rest) := by simp [joined]
    rw [split, spaceWords_append, spaceWords_word some_ no_space, ih others]
    rfl

theorem spaceWords_ne_nil {c : Char} (at_ : c ∈ l) (letter : c ≠ ' ') : spaceWords l ≠ [] := by
  induction l with
  | nil => cases at_
  | cons d rest ih =>
    by_cases space : d = ' '
    · subst space
      rw [spaceWords_space]
      exact ih ((List.mem_cons.mp at_).resolve_left letter)
    · obtain ⟨first, others, split⟩ := List.exists_cons_of_ne_nil (List.splitOn_ne_nil ' ' rest)
      rw [spaceWords, List.splitOn_cons_eq_if_modifyHead, if_neg (by simpa using space), split]
      simp

theorem num_le_spaceWords (each : ∀ w ∈ ws, w ≠ [] ∧ ' ' ∉ w) (x y : List Char) :
    ws.length ≤ (spaceWords (x ++ List.intercalate [' '] ws ++ y)).length := by
  induction ws generalizing x with
  | nil => exact Nat.zero_le _
  | cons w ws ih =>
    obtain ⟨⟨some_, no_space⟩, others⟩ := List.forall_mem_cons.mp each
    obtain ⟨c, at_⟩ := List.exists_mem_of_ne_nil w some_
    have one {l : List Char} (inside : w <:+: l) : 1 ≤ (spaceWords l).length :=
      List.length_pos_of_ne_nil (spaceWords_ne_nil (inside.subset at_) (fun space => no_space (space ▸ at_)))
    cases ws with
    | nil =>
      rw [List.intercalate_singleton]
      exact one ⟨x, y, rfl⟩
    | cons next ws =>
      have split : x ++ List.intercalate [' '] (w :: next :: ws) ++ y =
          (x ++ w) ++ ' ' :: ([] ++ List.intercalate [' '] (next :: ws) ++ y) := by
        rw [List.intercalate_cons_cons]
        simp
      have first := one (List.suffix_append x w).isInfix
      have later := ih others []
      rw [split, spaceWords_append, List.length_append]
      simp only [List.length_cons] at later ⊢
      omega

theorem collapse_parts (l : List Char) : ∃ first others tail, l.splitOn ' ' = first :: others ∧
    (collapse l).splitOn ' ' = first :: (others.filter (· ≠ []) ++ tail) ∧
    (first = [] ↔ l.head? = some ' ' ∨ l = []) := by
  induction l with
  | nil => exact ⟨[], [], [], rfl, rfl, by simp⟩
  | cons c rest ih =>
    obtain ⟨first, others, tail, split, collapsed, empty⟩ := ih
    by_cases space : c = ' '
    · subst space
      have now : (' ' :: rest).splitOn ' ' = [] :: first :: others := by
        rw [List.splitOn_cons_eq_if_modifyHead, if_pos (by simp), split]
      by_cases again : rest.head? = some ' '
      · obtain rfl := empty.mpr (Or.inl again)
        refine ⟨[], [] :: others, tail, now, ?_, by simp⟩
        rw [collapse, if_pos ⟨rfl, again⟩, collapsed]
        rfl
      · have kept : (collapse (' ' :: rest)).splitOn ' ' = [] :: first :: (others.filter (· ≠ []) ++ tail) := by
          rw [collapse, if_neg (fun both => again both.2), List.splitOn_cons_eq_if_modifyHead, if_pos (by simp), collapsed]
        by_cases ended : rest = []
        · subst ended
          exact ⟨[], [[]], [[]], rfl, rfl, by simp⟩
        · refine ⟨[], first :: others, tail, now, ?_, by simp⟩
          have some_ : first ≠ [] := fun none_ => (empty.mp none_).elim again ended
          rw [kept]
          simp [some_]
    · refine ⟨c :: first, others, tail, ?_, ?_, by simp [space]⟩
      · rw [List.splitOn_cons_eq_if_modifyHead, if_neg (by simpa using space), split]
        rfl
      · rw [collapse, if_neg (fun both => space both.1), List.splitOn_cons_eq_if_modifyHead,
          if_neg (by simpa using space), collapsed]
        rfl

theorem collapse_splitOn (l : List Char) (some_ : l ≠ []) : ∃ tail, (collapse l).splitOn ' ' =
    (if l.head? = some ' ' then [[]] else []) ++ spaceWords l ++ tail := by
  obtain ⟨first, others, tail, split, collapsed, empty⟩ := collapse_parts l
  refine ⟨tail, ?_⟩
  rw [collapsed, spaceWords, split]
  by_cases space : l.head? = some ' '
  · rw [if_pos space, empty.mpr (Or.inl space)]
    rfl
  · have word : first ≠ [] := fun none_ => (empty.mp none_).elim space some_
    simp [space, word]

theorem clean_append (xs ys : List (List Char)) : clean (xs ++ ys) = clean xs ++ clean ys := by
  rw [clean, List.map_append, List.filter_append]
  rfl

theorem clean_filter (ws : List (List Char)) : clean (ws.filter (· ≠ [])) = clean ws := by
  induction ws with
  | nil => rfl
  | cons w ws ih =>
    rw [← List.singleton_append, List.filter_append, clean_append, ih, clean_append]
    cases w <;> simp [clean]

theorem clean_of_clean (each : ∀ w ∈ ws, w ≠ [] ∧ '\n' ∉ w) : clean ws = ws := by
  have same : ws.map (List.filter (· ≠ '\n')) = ws := by
    refine (List.map_congr_left (fun w part => List.filter_eq_self.mpr (fun c inside => ?_))).trans (List.map_id ws)
    exact decide_eq_true (fun newline => (each w part).2 (newline ▸ inside))
  rw [clean, same]
  exact List.filter_eq_self.mpr (fun w part => decide_eq_true (each w part).1)

theorem words_of_spaceWords {first others : List (List Char)} (split : spaceWords l = first ++ others)
    (newline : ∀ w ∈ first, '\n' ∉ w) : words l = first ++ clean others := by
  have each (w : List Char) (part : w ∈ first) : w ≠ [] ∧ '\n' ∉ w :=
    ⟨(mem_spaceWords (split ▸ List.mem_append_left _ part)).1, newline w part⟩
  rw [words, ← clean_filter]
  exact (congrArg clean split).trans ((clean_append _ _).trans (congrArg (· ++ _) (clean_of_clean each)))

theorem mem_words (part : w ∈ words l) : w ≠ [] ∧ ' ' ∉ w ∧ '\n' ∉ w := by
  obtain ⟨piece, some_⟩ := List.mem_filter.mp part
  obtain ⟨whole, inside, rfl⟩ := List.mem_map.mp piece
  exact ⟨of_decide_eq_true some_, fun space => mem_splitOn inside (List.mem_of_mem_filter space), by simp⟩

theorem mem_joined {c : Char} (letter : c ≠ ' ') : c ∈ joined ws ↔ ∃ w ∈ ws, c ∈ w := by
  simp [joined, letter]

theorem joined_head (each : ∀ w ∈ ws, w ≠ [] ∧ ' ' ∉ w) : (joined ws).head? ≠ some ' ' := by
  cases ws with
  | nil => nofun
  | cons w ws =>
    obtain ⟨⟨some_, no_space⟩, -⟩ := List.forall_mem_cons.mp each
    obtain ⟨c, rest, rfl⟩ := List.exists_cons_of_ne_nil some_
    exact fun space => no_space (Option.some.inj space ▸ List.mem_cons_self)

section Line

variable {key : Key} {line : List Char}

theorem Key.num_pos (key : Key) : 0 < key.num := List.length_pos_of_ne_nil key.some_word

theorem Key.num_le (inside : key.text <:+: line) : key.num ≤ (spaceWords line).length := by
  obtain ⟨x, y, rfl⟩ := inside
  exact num_le_spaceWords key.word x y

def kept (key : Key) (line : List Char) : List (List Char) :=
  ((if line.head? = some ' ' then [[]] else []) ++ spaceWords line).take key.num

theorem firstWords_of_key (inside : key.text <:+: line) :
    firstWords key.num ((collapse line).splitOn ' ') = some (joined (kept key line)) := by
  have enough := Key.num_le inside
  have some_ : line ≠ [] := by
    rintro rfl
    exact absurd enough (Nat.not_le.mpr key.num_pos)
  obtain ⟨tail, split⟩ := collapse_splitOn line some_
  have long : key.num ≤ ((if line.head? = some ' ' then [[]] else []) ++ spaceWords line).length := by
    rw [List.length_append]
    omega
  rw [split, firstWords, if_pos (long.trans (by simp)), List.take_append_of_le_length long]
  rfl

theorem Good.words_take (good : Good key line) : (words line).take key.num = (spaceWords line).take key.num ∨
    (spaceWords line).length < key.num := by
  by_cases short : (spaceWords line).length < key.num
  · exact Or.inr short
  · have split := words_of_spaceWords (List.take_append_drop key.num (spaceWords line)).symm good.newline
    refine Or.inl ?_
    rw [split, List.take_append_of_le_length (by simp; omega), List.take_take, min_self]

theorem joined_kept_iff (inside : key.text <:+: line) :
    joined (kept key line) = joined ((words line).take key.num) ↔ Good key line := by
  have right (w : List Char) (part : w ∈ (words line).take key.num) := mem_words (List.mem_of_mem_take part)
  constructor
  · intro same
    have start : line.head? ≠ some ' ' := by
      intro space
      obtain ⟨k, eq⟩ := Nat.exists_eq_succ_of_ne_zero key.num_pos.ne'
      refine joined_head (fun w part => ⟨(right w part).1, (right w part).2.1⟩) ?_
      rw [← same, kept, if_pos space, eq]
      rfl
    refine ⟨start, fun w part newline => ?_⟩
    have there : '\n' ∈ joined ((words line).take key.num) := by
      rw [← same, kept, if_neg start]
      exact (mem_joined (by decide)).mpr ⟨w, part, newline⟩
    obtain ⟨w, part, newline⟩ := (mem_joined (by decide)).mp there
    exact (right w part).2.2 newline
  · intro good
    have same := good.words_take.resolve_right (Nat.not_lt.mpr (Key.num_le inside))
    rw [kept, if_neg good.start, same]
    rfl

theorem Good.target (good : Good key line) (inside : key.text <:+: line) (p : List Char) :
    Good key (target key p line) ∧ ∀ q, Gui.target key q (target key p line) = Gui.target key q line := by
  have same := good.words_take.resolve_right (Nat.not_lt.mpr (Key.num_le inside))
  have count : ((words line).take key.num).length = key.num := by
    rw [same, List.length_take]
    exact min_eq_left (Key.num_le inside)
  have right (w : List Char) (part : w ∈ (words line).take key.num) := mem_words (List.mem_of_mem_take part)
  have split := spaceWords_joined (fun w part => ⟨(right w part).1, (right w part).2.1⟩) ('>' :: (p ++ ['\n']))
  have again := words_of_spaceWords split (fun w part => (right w part).2.2)
  refine ⟨⟨?_, fun w part => ?_⟩, fun q => ?_⟩
  · have start := joined_head (fun w part => ⟨(right w part).1, (right w part).2.1⟩)
    rw [Gui.target]
    cases first : joined ((words line).take key.num) with
    | nil => simp
    | cons c rest => simpa [first] using start
  · rw [Gui.target, split, List.take_append_of_le_length count.ge, List.take_of_length_le count.le] at part
    exact (right w part).2.2
  · have taken : (words (Gui.target key p line)).take key.num = (words line).take key.num := by
      rw [Gui.target, again, List.take_append_of_le_length count.ge, List.take_of_length_le count.le]
    rw [Gui.target, taken]
    rfl

end Line

/-- Lists of lines that are the lines of a text: every line ends with its only newline, but for the last one. -/
inductive Script : List (List Char) → Prop
  | nil : Script []
  | last {body : List Char} (some_ : body ≠ []) (whole : '\n' ∉ body) : Script [body]
  | cons {body : List Char} {rest : List (List Char)} (whole : '\n' ∉ body) (others : Script rest) :
      Script ((body ++ ['\n']) :: rest)

theorem script_lines (text : List Char) : Script (lines text) ∧ (lines text).flatten = text := by
  induction text with
  | nil => exact ⟨.nil, rfl⟩
  | cons c rest ih =>
    obtain ⟨script, flat⟩ := ih
    rw [lines]
    split_ifs with newline
    · subst newline
      exact ⟨.cons List.not_mem_nil script, congrArg (_ :: ·) flat⟩
    · have other : '\n' ≠ c := Ne.symm newline
      cases split : lines rest with
      | nil =>
        rw [split] at flat
        exact ⟨.last (List.cons_ne_nil _ _) (by simp [other]), congrArg (c :: ·) flat⟩
      | cons line others =>
        rw [split] at script flat
        refine ⟨?_, congrArg (c :: ·) flat⟩
        cases script with
        | last some_ whole => exact .last (List.cons_ne_nil _ _) (by simp [other, whole])
        | @cons body _ whole script => exact .cons (List.not_mem_cons_of_ne_of_not_mem other whole) script

theorem lines_body {body : List Char} (whole : '\n' ∉ body) (rest : List Char) :
    lines (body ++ '\n' :: rest) = (body ++ ['\n']) :: lines rest := by
  induction body with
  | nil => rfl
  | cons c body ih =>
    obtain ⟨other, whole⟩ := not_or.mp (fun either => whole (List.mem_cons.mpr either))
    rw [List.cons_append, lines, if_neg (Ne.symm other), ih whole]
    rfl

theorem Script.lines_flatten {ls : List (List Char)} (script : Script ls) : lines ls.flatten = ls := by
  induction script with
  | nil => rfl
  | @last body some_ whole =>
    rw [List.flatten_singleton]
    induction body with
    | nil => exact absurd rfl some_
    | cons c body ih =>
      obtain ⟨other, whole⟩ := not_or.mp (fun either => whole (List.mem_cons.mpr either))
      rw [lines, if_neg (Ne.symm other)]
      by_cases ended : body = []
      · rw [ended]
        rfl
      · rw [ih ended whole]
  | @cons body rest whole _ ih =>
    rw [List.flatten_cons, List.append_assoc, List.singleton_append, lines_body whole, ih]

section Loop

variable {key : Key} {p q : List Char} {ls : List (List Char)} {temp out : List Char}

theorem target_body (key : Key) (line : List Char) (path : '\n' ∉ p) :
    ∃ body, '\n' ∉ body ∧ target key p line = body ++ ['\n'] := by
  refine ⟨joined ((words line).take key.num) ++ '>' :: p, ?_, by simp [target]⟩
  have none_ : '\n' ∉ joined ((words line).take key.num) := by
    intro newline
    obtain ⟨w, part, newline⟩ := (mem_joined (by decide)).mp newline
    exact (mem_words (List.mem_of_mem_take part)).2.2 newline
  simp [none_, path]

theorem target_count (key : Key) (line : List Char) (path : '\n' ∉ p) : (target key p line).count '\n' = 1 := by
  obtain ⟨body, whole, eq⟩ := target_body key line path
  rw [eq, List.count_append, List.count_eq_zero_of_not_mem whole]
  rfl

theorem target_inj {line : List Char} (same : target key p line = target key q line) : p = q :=
  List.append_cancel_right (List.cons_inj_right _ |>.mp (List.append_cancel_left same))

theorem Script.rewritten (script : Script ls) (path : '\n' ∉ p) : Script (ls.map (rewritten key p)) := by
  have cons_target {line : List Char} {rest : List (List Char)} (others : Script rest) :
      Script (target key p line :: rest) := by
    obtain ⟨body, whole, eq⟩ := target_body key line path
    rw [eq]
    exact .cons whole others
  induction script with
  | nil => exact .nil
  | @last body some_ whole =>
    rw [List.map_singleton, Gui.rewritten]
    split_ifs
    · exact cons_target .nil
    · exact .last some_ whole
  | @cons body rest whole _ ih =>
    rw [List.map_cons, Gui.rewritten]
    split_ifs
    · exact cons_target ih
    · exact .cons whole ih

theorem repairLoop_of_key {line : List Char} (inside : key.text <:+: line) :
    repairLoop p key.text key.num temp (line :: ls) =
      (repairLoop p key.text key.num (temp ++ (joined (kept key line) ++ '>' :: (p ++ ['\n']))) ls).map
        ((temp ++ (joined (kept key line) ++ '>' :: (p ++ ['\n']))) ++ ·) := by
  rw [repairLoop, if_pos inside, firstWords_of_key inside]
  rfl

theorem repairLoop_of_none (none_ : ∀ line ∈ ls, ¬ key.text <:+: line) :
    repairLoop p key.text key.num temp ls = some ls.flatten := by
  induction ls with
  | nil => rfl
  | cons line ls ih =>
    obtain ⟨first, others⟩ := List.forall_mem_cons.mp none_
    rw [repairLoop, if_neg first, ih others]
    rfl

theorem repairLoop_newlines (path : '\n' ∉ p) (before : '\n' ∈ temp) :
    ∃ out, repairLoop p key.text key.num temp ls = some out ∧
      (ls.map (rewritten key p)).flatten.count '\n' + (ls.filter (key.text <:+: ·)).length ≤ out.count '\n' := by
  induction ls generalizing temp with
  | nil => exact ⟨[], rfl, le_rfl⟩
  | cons line ls ih =>
    rw [List.map_cons, List.flatten_cons, List.count_append, rewritten]
    by_cases inside : key.text <:+: line
    · obtain ⟨out, run, more⟩ := @ih (temp ++ (joined (kept key line) ++ '>' :: (p ++ ['\n']))) (by simp)
      have two := List.count_pos_iff.mpr before
      have one : 0 < (joined (kept key line) ++ '>' :: (p ++ ['\n'])).count '\n' := List.count_pos_iff.mpr (by simp)
      rw [repairLoop_of_key inside, run, if_pos inside, target_count key line path,
        List.filter_cons_of_pos (by simpa using inside)]
      refine ⟨_, rfl, ?_⟩
      rw [List.count_append, List.count_append, List.length_cons]
      omega
    · obtain ⟨out, run, more⟩ := ih before
      rw [repairLoop, if_neg inside, run, if_neg inside, List.filter_cons_of_neg (by simpa using inside)]
      refine ⟨_, rfl, ?_⟩
      rw [List.count_append]
      omega

/-- The lines are rewritten as they should only if at most one has the key, and it is good. -/
theorem repairLoop_iff (path : '\n' ∉ p) :
    repairLoop p key.text key.num [] ls = some (ls.map (rewritten key p)).flatten ↔
      (ls.filter (key.text <:+: ·)).length ≤ 1 ∧ ∀ line ∈ ls, key.text <:+: line → Good key line := by
  induction ls with
  | nil => simp [repairLoop]
  | cons line ls ih =>
    rw [List.map_cons, List.flatten_cons, List.forall_mem_cons, rewritten]
    by_cases inside : key.text <:+: line
    · rw [repairLoop_of_key inside, if_pos inside, List.filter_cons_of_pos (by simpa using inside), List.nil_append,
        List.length_cons]
      by_cases none_ : ∀ line ∈ ls, ¬ key.text <:+: line
      · have same : ls.map (rewritten key p) = ls :=
          (List.map_congr_left (fun line part => if_neg (none_ line part))).trans (List.map_id ls)
        have empty : ls.filter (key.text <:+: ·) = [] := List.filter_eq_nil_iff.mpr (fun l part => by simpa using none_ l part)
        rw [repairLoop_of_none none_, same, Option.map_some, Option.some_inj, List.append_cancel_right_eq, target,
          List.append_cancel_right_eq, joined_kept_iff inside, empty]
        exact ⟨fun good => ⟨le_rfl, fun _ => good, fun l part has => absurd has (none_ l part)⟩,
          fun right => right.2.1 inside⟩
      · -- With a second one there are too many newlines.
        push Not at none_
        obtain ⟨next, part, has⟩ := none_
        have count : 1 ≤ (ls.filter (key.text <:+: ·)).length :=
          List.length_pos_of_mem (List.mem_filter.mpr ⟨part, by simpa using has⟩)
        obtain ⟨out, run, more⟩ := @repairLoop_newlines key p ls (joined (kept key line) ++ '>' :: (p ++ ['\n'])) path
          (by simp)
        have one : 0 < (joined (kept key line) ++ '>' :: (p ++ ['\n'])).count '\n' := List.count_pos_iff.mpr (by simp)
        refine ⟨fun same => ?_, fun right => absurd right.1 (by omega)⟩
        rw [run, Option.map_some, Option.some_inj] at same
        generalize joined (kept key line) ++ '>' :: (p ++ ['\n']) = first at one same
        have lines_ := congrArg (List.count '\n') same
        rw [List.count_append, List.count_append, target_count key line path] at lines_
        omega
    · rw [repairLoop, if_neg inside, if_neg inside, List.filter_cons_of_neg (by simpa using inside)]
      simp only [inside, false_implies, true_and]
      rw [← ih]
      cases repairLoop p key.text key.num [] ls <;> simp

theorem rewritten_again (count : (ls.filter (key.text <:+: ·)).length ≤ 1)
    (good : ∀ line ∈ ls, key.text <:+: line → Good key line) :
    ((ls.map (rewritten key p)).filter (key.text <:+: ·)).length ≤ 1 ∧
      ∀ line ∈ ls.map (rewritten key p), key.text <:+: line → Good key line := by
  have old {line : List Char} (inside : key.text <:+: rewritten key p line) : key.text <:+: line := by
    by_contra none_
    rw [rewritten, if_neg none_] at inside
    exact none_ inside
  constructor
  · rw [List.filter_map, List.length_map]
    refine le_trans (List.Sublist.length_le (List.monotone_filter_right ls (fun line inside => ?_))) count
    simpa using old (by simpa using inside)
  · intro line part inside
    obtain ⟨line, there, rfl⟩ := List.mem_map.mp part
    rw [rewritten, if_pos (old inside)]
    exact ((good line there (old inside)).target (old inside) p).1

end Loop

/-- `repairScript` does what it is to do for the texts with at most one line with the key, if that line is good and has the
key also when it has been rewritten. -/
theorem repairRight_iff (key : Key) {p q : List Char} (path : '\n' ∉ p) (next : '\n' ∉ q) (text : List Char) :
    RepairRight key p q text ↔ ((lines text).filter (key.text <:+: ·)).length ≤ 1 ∧ ∀ line ∈ lines text,
      key.text <:+: line → Good key line ∧ (key.text <:+: target key p line ∨ p = q) := by
  obtain ⟨script, -⟩ := script_lines text
  have rewrites := @repairLoop_iff key p (lines text) path
  have law (count : ((lines text).filter (key.text <:+: ·)).length ≤ 1)
      (good : ∀ line ∈ lines text, key.text <:+: line → Good key line) :
      repairScript q key.text key.num ((lines text).map (rewritten key p)).flatten = repairScript q key.text key.num text ↔
        ∀ line ∈ lines text, key.text <:+: line → key.text <:+: target key p line ∨ p = q := by
    rw [repairScript, repairScript, (script.rewritten path).lines_flatten, (repairLoop_iff next).mpr ⟨count, good⟩,
      (repairLoop_iff next).mpr (rewritten_again count good), Option.some_inj]
    -- Two lists of lines with the same text are the same.
    have inj : (((lines text).map (rewritten key p)).map (rewritten key q)).flatten =
        ((lines text).map (rewritten key q)).flatten ↔ ∀ line ∈ lines text,
          (rewritten key q ∘ rewritten key p) line = rewritten key q line := by
      rw [← List.map_inj_left, ← List.map_map]
      refine ⟨fun same => ?_, congrArg List.flatten⟩
      rw [← ((script.rewritten path).rewritten next).lines_flatten, same, (script.rewritten next).lines_flatten]
    rw [inj]
    refine forall₂_congr (fun line part => ?_)
    rw [Function.comp_apply]
    by_cases inside : key.text <:+: line
    · have again := ((good line part inside).target inside p).2 q
      rw [rewritten, rewritten, rewritten, if_pos inside, if_pos inside, again]
      by_cases still : key.text <:+: target key p line
      · simp [still]
      · simp only [still, if_false, inside, true_implies, false_or]
        exact ⟨target_inj, fun same => same ▸ rfl⟩
    · simp [rewritten, inside]
  constructor
  · rintro ⟨out, run, same, twice⟩
    have flat : out = ((lines text).map (rewritten key p)).flatten := (script_lines out).2.symm.trans (congrArg _ same)
    rw [flat] at run twice
    obtain ⟨count, good⟩ := rewrites.mp run
    exact ⟨count, fun line part inside => ⟨good line part inside, (law count good).mp twice line part inside⟩⟩
  · rintro ⟨count, each⟩
    have good (line : List Char) (part : line ∈ lines text) (inside : key.text <:+: line) := (each line part inside).1
    exact ⟨_, rewrites.mpr ⟨count, good⟩, (script.rewritten path).lines_flatten,
      (law count good).mpr (fun line part inside => (each line part inside).2)⟩

theorem sampleScript_right : RepairRight bootloaderKey "b.imx".toList "c.imx".toList
    "FB: flash bootloader >a.imx\nFB: done\n".toList :=
  (repairRight_iff bootloaderKey (by decide) (by decide) _).mpr ⟨by decide, by
    intro line part inside
    have first : line = "FB: flash bootloader >a.imx\n".toList ∨ line = "FB: done\n".toList := by
      simpa using (show line ∈ ["FB: flash bootloader >a.imx\n".toList, "FB: done\n".toList] from part)
    obtain rfl | rfl := first
    · exact ⟨⟨by decide, by decide⟩, Or.inl (by decide)⟩
    · exact absurd inside (by decide)⟩

/-- Without a file the newline stays behind the last word. -/
theorem repairScript_noFile :
    repairScript "b".toList bootloaderKey.text bootloaderKey.num "FB: flash bootloader\n".toList =
      some "FB: flash bootloader\n >b\n".toList ∧
    ¬ RepairRight bootloaderKey "b".toList "b".toList "FB: flash bootloader\n".toList := by
  have run : repairScript "b".toList bootloaderKey.text bootloaderKey.num "FB: flash bootloader\n".toList =
      some "FB: flash bootloader\n >b\n".toList := by decide +kernel
  refine ⟨run, ?_⟩
  rintro ⟨out, result, rewritten, -⟩
  obtain rfl := Option.some.inj (run.symm.trans result)
  exact absurd rewritten (by decide +kernel)

end UuuFastboot.Gui
