import UuuFastboot.Fat.ClusterIO

namespace UuuFastboot.Fat

open Word Overlay Bytes Partial

def freeAfter (T : Nat → Nat) (last c : Nat) : List Nat := (List.range' (c + 1) (last - c)).filter (fun e => T e = 0)

/-- The new entries of a table that links some clusters, with a mark at the end. -/
def newLink (mark : Nat) : List Nat → Nat → Option Nat
  | [], _ => none
  | [a], e => if e = a then some mark else none
  | a :: b :: l, e => if e = a then some b else newLink mark (b :: l) e

section Table

variable {T T' : Nat → Nat} {last c f : Nat} {fs : List Nat}

theorem freeAfter_succ (before : c < last) :
    freeAfter T last c = if T (c + 1) = 0 then (c + 1) :: freeAfter T last (c + 1) else freeAfter T last (c + 1) := by
  rw [freeAfter, freeAfter, show last - c = (last - (c + 1)) + 1 by omega, List.range'_succ, List.filter_cons]
  simp only [decide_eq_true_eq]

theorem freeAfter_cons (free : freeAfter T last c = f :: fs) :
    c < f ∧ f ≤ last ∧ T f = 0 ∧ (∀ e, c < e → e < f → T e ≠ 0) ∧ freeAfter T last f = fs := by
  induction left : last - c generalizing c with
  | zero =>
    rw [freeAfter, left] at free
    cases free
  | succ n ih =>
    rw [freeAfter_succ (by omega)] at free
    split at free
    · next zero =>
      cases free
      exact ⟨by omega, by omega, zero, fun e lower upper => by omega, rfl⟩
    · next used =>
      obtain ⟨lower, upper, zero, before, rest⟩ := ih free (by omega)
      refine ⟨by omega, upper, zero, fun e behind front => ?_, rest⟩
      rcases Nat.eq_or_lt_of_le (show c + 1 ≤ e from behind) with rfl | further
      · exact used
      · exact before e further front

theorem freeAfter_congr_iff (same : ∀ e, c < e → e ≤ last → (T e = 0 ↔ T' e = 0)) :
    freeAfter T last c = freeAfter T' last c := by
  refine List.filter_congr (fun e member => ?_)
  rw [List.mem_range'_1] at member
  exact decide_eq_decide.mpr (same e (by omega) (by omega))

theorem freeAfter_congr (same : ∀ e, c < e → e ≤ last → T e = T' e) : freeAfter T last c = freeAfter T' last c :=
  freeAfter_congr_iff (fun e behind upper => by rw [same e behind upper])

theorem freeAfter_sorted (T : Nat → Nat) (last c : Nat) : (c :: freeAfter T last c).Pairwise (· < ·) := by
  refine List.pairwise_cons.mpr ⟨fun e member => ?_, ?_⟩
  · have inside := List.mem_of_mem_filter member
    rw [List.mem_range'_1] at inside
    omega
  · exact (List.pairwise_lt_range' ..).filter _

theorem mem_freeAfter {e : Nat} (member : e ∈ freeAfter T last c) : c < e ∧ e ≤ last ∧ T e = 0 := by
  obtain ⟨inside, zero⟩ := List.mem_filter.mp member
  rw [List.mem_range'_1] at inside
  exact ⟨by omega, by omega, of_decide_eq_true zero⟩

theorem newLink_of_not_mem {mark e : Nat} {l : List Nat} (other : e ∉ l) : newLink mark l e = none := by
  induction l with
  | nil => rfl
  | cons a l ih =>
    have away : e ≠ a := fun same => other (same ▸ List.mem_cons_self)
    have rest : e ∉ l := fun member => other (List.mem_cons_of_mem _ member)
    cases l with
    | nil => exact if_neg away
    | cons b l => exact (if_neg away).trans (ih rest)

theorem newLink_cons {mark a b e v : Nat} {l : List Nat} (other : a ∉ b :: l) :
    (newLink mark (b :: l) e).getD (if e = a then b else v) = (newLink mark (a :: b :: l) e).getD v := by
  rw [newLink.eq_def mark (a :: b :: l)]
  by_cases here : e = a
  · subst here
    simp only [if_true, newLink_of_not_mem other, Option.getD_none, Option.getD_some]
  · simp only [if_neg here]

end Table

def Env.fileByte (env : Env) (cs : List Nat) (p : Nat) : Nat :=
  env.clusterAddr (cs.getD (p / env.clusterBytes) 0) + p % env.clusterBytes

section Area

variable {env : Env} {last : Nat} (area : env.Area last)
include area

theorem Env.Area.fileByte_run {c m p : Nat} (two : 2 ≤ c) (inside : p < m * env.clusterBytes) (l : List Nat) :
    env.fileByte (List.range' c m ++ l) p = env.clusterAddr c + p := by
  have number : p / env.clusterBytes < m := Nat.div_lt_of_lt_mul (by rwa [Nat.mul_comm])
  rw [Env.fileByte, List.getD_eq_getElem?_getD, List.getElem?_append_left (by rwa [List.length_range']),
    List.getElem?_range' number, Option.getD_some, Nat.one_mul, area.clusterAddr_add two]
  have whole := Nat.div_add_mod p env.clusterBytes
  rw [Nat.mul_comm] at whole
  omega

omit area in
theorem Env.fileByte_append (l₁ l₂ : List Nat) (p : Nat) (positive : 0 < env.clusterBytes) :
    env.fileByte (l₁ ++ l₂) (l₁.length * env.clusterBytes + p) = env.fileByte l₂ p := by
  rw [Env.fileByte, Env.fileByte, Nat.mul_comm, Nat.mul_add_div positive, Nat.mul_add_mod, List.getD_eq_getElem?_getD,
    List.getD_eq_getElem?_getD, List.getElem?_append_right (Nat.le_add_right _ _), Nat.add_sub_cancel_left]

theorem Env.Area.data_write {st : St} (ready : st.Ready env) {card : Buf}
    (same : ∀ a, a < env.clusterAddr 2 → card a = st.card a) :
    ({ st with card := card } : St).Ready env ∧
      ∀ e, env.Exists e → env.value { st with card := card } e = env.value st e := by
  have copy (a : Nat) (inside : a < env.bytes) : env.fat card 0 a = env.fat st.card 0 a := by
    rw [area.fat_eq, area.fat_eq, same]
    have behind := area.behind
    have one : 1 ≤ env.copies := by unfold Env.copies; split <;> decide
    have table := Nat.mul_le_mul_right env.fatlength one
    have before := Nat.mul_le_mul_right env.blksz
      (show env.partStart + env.fatSect + env.fatlength ≤ env.partStart + env.dataSect by omega)
    rw [Nat.add_mul _ env.fatlength] at before
    rw [Env.clusterAddr, Nat.sub_self, Nat.zero_mul, Nat.add_zero, Nat.zero_mul, Nat.add_zero]
    rw [Env.bytes, area.sector] at inside
    omega
  have table (a : Nat) (inside : a < env.bytes) : env.table { st with card := card } a = env.table st a := by
    simp only [Env.table, copy a inside]
  refine ⟨⟨ready.window, ready.unmarked, fun clean a inside => ?_⟩, fun e there => ?_⟩
  · rw [table a inside, ready.clean clean a inside, copy a inside]
  · refine getEntry_congr (fun i small => table _ ?_) rfl
    have := there.1
    omega

omit area in
theorem St.Keeps.value {st st' : St} (keeps : st.Keeps env st') {e : Nat} (there : env.Exists e) :
    env.value st' e = env.value st e := by
  refine getEntry_congr (fun i small => keeps.table _ ?_) rfl
  have := there.1
  omega

omit area in
theorem St.Sets.value {st st' : St} {e v : Nat} (sets : st.Sets env e v st') {e' : Nat} (there : env.Exists e') :
    env.value st' e' = if e' = e then v % 2 ^ env.fatsize.bits else env.value st e' := by
  rw [Env.value, Env.value, ← getEntry_putEntry]
  refine getEntry_congr (fun i small => sets.table _ ?_) rfl
  have := there.1
  omega

omit area in
theorem determineLoop_run (fits : env.Fits) (fuel : Nat) {f next : Nat} {st : St} (ready : st.Ready env) (two : 2 ≤ next)
    (order : next ≤ f) (there : env.Exists f) (valid : f < env.fatsize.reserved) (free : env.value st f = 0)
    (used : ∀ e, next ≤ e → e < f → env.value st e ≠ 0) (enough : f < next + fuel) :
    ∃ st', determineLoop env fuel next st = some (f, st') ∧ st.Keeps env st' := by
  induction fuel generalizing next st with
  | zero => omega
  | succ fuel ih =>
    obtain ⟨st₁, call, keeps⟩ := getFatent_run fits ready (there.mono order)
    rw [not_checkClust two (by omega)] at call
    have entry : getEntry (env.table st) next env.fatsize = env.value st next := rfl
    rw [if_neg Bool.false_ne_true, entry] at call
    rcases Nat.eq_or_lt_of_le order with rfl | before
    · refine ⟨st₁, ?_, keeps⟩
      rw [determineLoop, bind_of_run call, free]
      rfl
    · have word := there.2
      obtain ⟨st₂, rest, later⟩ := ih keeps.ready (show 2 ≤ next + 1 by omega) before
        ((keeps.value there).trans free)
        (fun e lower upper => by
          rw [keeps.value (there.mono upper.le)]
          exact used e (by omega) upper) (by omega)
      refine ⟨st₂, ?_, keeps.trans later⟩
      rw [determineLoop, bind_of_run call, run_ite, if_neg (used next (le_refl _) before),
        w32_of_lt (by omega)]
      exact rest

theorem determineFatent_run {c f : Nat} {fs : List Nat} {st : St} (ready : st.Ready env) (two : 2 ≤ c)
    (free : freeAfter (env.value st) last c = f :: fs) :
    ∃ st', determineFatent env c st = some (f, st') ∧ st'.Ready env ∧
      (∀ e, env.Exists e → env.value st' e = if e = c then f else env.value st e) ∧
      ∀ a, env.Outside a → st'.card a = st.card a := by
  obtain ⟨order, inside, zero, used, -⟩ := freeAfter_cons free
  have valid := area.valid
  have word := (area.exists_ inside).2
  obtain ⟨st₁, search, keeps⟩ := determineLoop_run area.toFits (env.fatsize.reserved + 1) ready
    (show 2 ≤ c + 1 by omega) order (area.exists_ inside) (by omega) zero (fun e lower upper => used e lower upper)
    (by omega)
  obtain ⟨st₂, store, sets⟩ := setFatentValue_run area.toFits keeps.ready (area.exists_ (show c ≤ last by omega)) f
  refine ⟨st₂, ?_, sets.ready, fun e there => ?_, fun a away => (sets.outside a away).trans (keeps.outside a away)⟩
  · rw [determineFatent, run_bind, w32_of_lt (by omega), search, Option.bind_some, run_bind, store]
    rfl
  · have small : f % 2 ^ env.fatsize.bits = f := by
      refine Nat.mod_eq_of_lt (lt_trans (lt_of_le_of_lt inside valid) ?_)
      cases env.fatsize <;> decide
    rw [sets.value there, small, keeps.value there]

/-- What `set_contents` leaves from the cluster `c` on, with `clusters` for the rest of the file and `linked` for those
that get a new entry. -/
structure St.Stored (env : Env) (st : St) (buffer : Buf) (c size : Nat) (clusters linked : List Nat) (st' : St) :
    Prop where
  ready : st'.Ready env
  table : ∀ e, env.Exists e → env.value st' e = (newLink env.fatsize.endMark linked e).getD (env.value st e)
  before : ∀ a, env.Outside a → a < env.clusterAddr c → st'.card a = st.card a
  contents : ∀ p < size, st'.card (env.fileByte clusters p) = buffer p

theorem lastClusters_run {cur m filesize : Nat} {st : St} (ready : st.Ready env) (two : 2 ≤ cur) (some_ : 0 < m)
    (inside : cur + m ≤ last + 1) (few : filesize ≤ m * env.clusterBytes) (buffer : Buf) (addr : Nat) :
    ∃ st₁ st', setCluster env cur buffer addr filesize st = some (true, st₁) ∧
      setFatentValue env (cur + m - 1) env.fatsize.endMark st₁ = some (0, st') ∧
      st.Stored env buffer cur filesize (List.range' cur m) [cur + m - 1] st' := by
  obtain ⟨card, write, stored, kept⟩ := setCluster_run area two inside some_ few buffer addr st
  obtain ⟨ready₁, values⟩ := area.data_write ready
    (fun a before => kept a (.inl (lt_of_lt_of_le before (Env.clusterAddr_mono two))))
  obtain ⟨st', mark, sets⟩ := setFatentValue_run area.toFits ready₁ (area.exists_ (show cur + m - 1 ≤ last by omega))
    env.fatsize.endMark
  refine ⟨_, st', write, mark, sets.ready, fun e there => ?_, fun a away before => ?_, fun p below => ?_⟩
  · have small : env.fatsize.endMark % 2 ^ env.fatsize.bits = env.fatsize.endMark := by cases env.fatsize <;> rfl
    rw [sets.value there, small, values e there, newLink]
    split <;> rfl
  · exact (sets.outside a away).trans (kept a (.inl before))
  · have place := area.fileByte_run two (show p < m * env.clusterBytes by omega) []
    rw [List.append_nil] at place
    rw [place, sets.outside _ (area.outside (Nat.le_add_right _ _))]
    exact stored p below

/-- The loops of `set_contents`, with `m` clusters collected and `more` that are yet to be found: these are the first free
ones behind. -/
theorem setContentsLoop_run (buffer : Buf) (addr : Nat) {more : Nat} :
    ∀ (fuel off : Nat) {cur m filesize : Nat} {st : St},
    st.Ready env → 2 ≤ cur → 0 < m → cur + m ≤ last + 1 → filesize < 2 ^ 31 → filesize ≤ (m + more) * env.clusterBytes →
    (0 < more → (m + more - 1) * env.clusterBytes < filesize) → more < fuel →
    more ≤ (freeAfter (env.value st) last (cur + m - 1)).length →
    ∃ st', setContentsLoop env buffer addr fuel cur (cur + m - 1) (m * env.clusterBytes) filesize off st =
        some ((true, off + filesize), st') ∧
      st.Stored env (tail buffer off) cur filesize
        (List.range' cur m ++ (freeAfter (env.value st) last (cur + m - 1)).take more)
        ((cur + m - 1) :: (freeAfter (env.value st) last (cur + m - 1)).take more) st' := by
  induction more with
  | zero =>
    intro fuel off cur m filesize st ready two some_ inside small few _ fuelled _
    obtain ⟨fuel, rfl⟩ : ∃ n, fuel = n + 1 := ⟨fuel - 1, by omega⟩
    rw [Nat.add_zero] at few
    obtain ⟨st₁, st', write, mark, stored⟩ :=
      lastClusters_run area ready two some_ inside few (tail buffer off) (addr + off)
    refine ⟨st', ?_, by rw [List.take_zero, List.append_nil]; exact stored⟩
    rw [setContentsLoop, run_ite, if_neg (Nat.not_lt.mpr few), run_bind, w32_of_lt (by omega), write, Option.bind_some,
      if_pos rfl, run_bind, mark]
    rfl
  | succ more ih =>
    intro fuel off cur m filesize st ready two some_ inside small few tight fuelled enough
    obtain ⟨fuel, rfl⟩ : ∃ n, fuel = n + 1 := ⟨fuel - 1, by omega⟩
    have positive := area.clusterBytes_pos
    have short := tight (Nat.succ_pos more)
    rw [show m + (more + 1) - 1 = m + more by omega] at short
    have begun : m * env.clusterBytes < filesize :=
      lt_of_le_of_lt (Nat.mul_le_mul_right _ (Nat.le_add_right m more)) short
    have parts : (m + (more + 1)) * env.clusterBytes = (m + more) * env.clusterBytes + env.clusterBytes := by ring
    have front : (m + more) * env.clusterBytes = m * env.clusterBytes + more * env.clusterBytes := Nat.add_mul ..
    obtain ⟨f, fs, free⟩ : ∃ f fs, freeAfter (env.value st) last (cur + m - 1) = f :: fs :=
      List.exists_cons_of_length_pos (by omega)
    obtain ⟨st₁, found, ready₁, values, outside⟩ := determineFatent_run area ready (show 2 ≤ cur + m - 1 by omega) free
    obtain ⟨order, below, -, -, rest⟩ := freeAfter_cons free
    have free₁ : freeAfter (env.value st₁) last f = fs := by
      rw [← rest]
      refine freeAfter_congr (fun e behind upper => ?_)
      rw [values e (area.exists_ upper), if_neg (by omega)]
    have other : cur + m - 1 ∉ f :: fs.take more := by
      have sorted := free ▸ freeAfter_sorted (env.value st) last (cur + m - 1)
      intro member
      have later := (List.pairwise_cons.mp sorted).1 _ (List.mem_of_mem_take (i := more + 1) member)
      exact absurd later (lt_irrefl _)
    rw [free, List.length_cons] at enough
    rw [free, List.take_succ_cons, setContentsLoop, run_ite, if_pos begun, bind_of_run found]
    have word := (area.exists_ below).2
    have previous : w32 (f + minusOne) = f - 1 := by
      unfold w32 minusOne
      omega
    have valid := area.not_checkClust (show 2 ≤ f by omega) below
    simp only [previous, valid]
    by_cases next : f = cur + m
    · -- the cluster is added to those that are collected
      subst next
      obtain ⟨st', run, stored⟩ := ih fuel off ready₁ two (Nat.succ_pos m) (show cur + (m + 1) ≤ last + 1 by omega) small
        (show filesize ≤ (m + 1 + more) * env.clusterBytes by rw [Nat.add_right_comm]; exact few)
        (fun _ => by rw [show m + 1 + more - 1 = m + more by omega]; exact short) (by omega)
        (by rw [show cur + (m + 1) - 1 = cur + m from rfl, free₁]; omega)
      rw [show cur + (m + 1) - 1 = cur + m from rfl, free₁, List.range'_1_concat, List.append_assoc] at stored
      refine ⟨st', ?_, stored.ready, fun e there => ?_, fun a away before => ?_, stored.contents⟩
      · rw [run_ite, if_neg (not_not.mpr rfl), run_ite, if_neg Bool.false_ne_true, area.bytesperclust_eq, ← Nat.succ_mul]
        exact run
      · rw [stored.table e there, values e there, newLink_cons other]
      · exact (stored.before a away before).trans (outside a away)
    · -- what is collected is written, and the cluster begins a new part
      obtain ⟨card, write, written, kept⟩ :=
        setCluster_run area two inside some_ (le_refl _) (tail buffer off) (addr + off) st₁
      obtain ⟨ready₂, values₂⟩ := area.data_write ready₁
        (fun a before => kept a (.inl (lt_of_lt_of_le before (Env.clusterAddr_mono two))))
      obtain ⟨st₂, state⟩ : ∃ st₂ : St, st₂ = { st₁ with card := card } := ⟨_, rfl⟩
      rw [← state] at write ready₂ values₂
      have free₂ : freeAfter (env.value st₂) last f = fs := by
        rw [← free₁]
        exact freeAfter_congr (fun e _ upper => values₂ e (area.exists_ upper))
      obtain ⟨st', run, stored⟩ := ih fuel (off + m * env.clusterBytes) ready₂ (show 2 ≤ f by omega)
        Nat.one_pos (show f + 1 ≤ last + 1 by omega) (show filesize - m * env.clusterBytes < 2 ^ 31 by omega)
        (show _ ≤ (1 + more) * env.clusterBytes by rw [Nat.add_mul, Nat.one_mul]; omega)
        (fun _ => by rw [Nat.add_sub_cancel_left]; omega) (by omega)
        (by rw [Nat.add_sub_cancel, free₂]; omega)
      rw [Nat.add_sub_cancel, free₂] at stored
      have total : off + m * env.clusterBytes + (filesize - m * env.clusterBytes) = off + filesize := by omega
      rw [Nat.add_sub_cancel, Nat.one_mul, total] at run
      refine ⟨st', ?_, stored.ready, fun e there => ?_, fun a away before => ?_, fun p inFile => ?_⟩
      · rw [run_ite, if_pos (by omega), run_bind, w32_of_lt (by omega), write, Option.bind_some, if_pos rfl, run_ite,
          if_neg Bool.false_ne_true, area.bytesperclust_eq]
        exact run
      · rw [stored.table e there, values₂ e there, values e there]
        exact newLink_cons other
      · rw [stored.before a away (lt_of_lt_of_le before (Env.clusterAddr_mono (by omega))), ← outside a away, state]
        exact kept a (.inl before)
      · have later : env.clusterAddr (cur + m) ≤ env.clusterAddr f := Env.clusterAddr_mono (by omega)
        rw [area.clusterAddr_add two] at later
        by_cases here : p < m * env.clusterBytes
        · rw [area.fileByte_run two here, stored.before _ (area.outside (Nat.le_add_right _ _)) (by omega), state]
          exact written p here
        · obtain ⟨q, rfl⟩ : ∃ q, p = m * env.clusterBytes + q := ⟨p - m * env.clusterBytes, by omega⟩
          have behind := Env.fileByte_append (List.range' cur m) (f :: fs.take more) q positive
          rw [List.length_range'] at behind
          rw [behind]
          have bytes := stored.contents q (by omega)
          rw [List.range'_one, List.singleton_append] at bytes
          rw [bytes, tail_apply, tail_apply, Nat.add_assoc]

end Area

end UuuFastboot.Fat
