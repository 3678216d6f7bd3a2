import UuuFastboot.Fat.TableSpec

namespace UuuFastboot.Fat

open Word Overlay Bytes Partial

/-- A call of `get_fatent` or `set_fatent_value`. -/
inductive Access where
  | get (entry : Nat)
  | set (entry entryValue : Nat)
deriving DecidableEq

namespace Access

def entry : Access → Nat
  | get e => e
  | set e _ => e

def run (env : Env) : Access → Run Nat
  | get e => getFatent env e
  | set e v => setFatentValue env e v

/-- The calls one after the other, with what each of them returns. -/
def runAll (env : Env) : List Access → Run (List Nat)
  | [] => pure []
  | call :: calls => do
    let r ← call.run env
    let rs ← runAll env calls
    pure (r :: rs)

/-- What the calls are for: a table of numbers of so many bits, with what each call returns and the table at the end. -/
def plain (bits : Nat) (T : Nat → Nat) : List Access → List Nat × (Nat → Nat)
  | [] => ([], T)
  | get e :: calls => (T e :: (plain bits T calls).1, (plain bits T calls).2)
  | set e v :: calls =>
    let rest := plain bits (Function.update T e (v % 2 ^ bits)) calls
    (0 :: rest.1, rest.2)

/-- No entry is asked for that `get_fatent` refuses, except where its value is what it returns for a refused one. -/
def Answered (s : FatSize) (T : Nat → Nat) : List Access → Prop
  | [] => True
  | get e :: calls => (checkClust e s = true → T e = 0) ∧ Answered s T calls
  | set e v :: calls => Answered s (Function.update T e (v % 2 ^ s.bits)) calls

theorem plain_of_unset {bits e : Nat} {calls : List Access} {T : Nat → Nat} (unset : ∀ v, set e v ∉ calls) :
    (plain bits T calls).2 e = T e := by
  induction calls generalizing T with
  | nil => rfl
  | cons call calls ih =>
    have later : ∀ v, set e v ∉ calls := fun v member => unset v (List.mem_cons_of_mem _ member)
    cases call with
    | get e' => exact ih later
    | set e' v =>
      have other : e ≠ e' := fun same => unset v (same ▸ List.mem_cons_self)
      exact (ih later).trans (Function.update_of_ne other _ _)

end Access

namespace Env

variable (env : Env)

def entry (card : Buf) (copy e : Nat) : Nat := getEntry (env.fat card copy) e env.fatsize

def entryWindow (e : Nat) : Nat := e / env.fatsize.bufsize env.sectSize

end Env

structure St.Fresh (st : St) : Prop where
  none : st.fatbufnum = none
  clean : st.fatDirty = false

/-- The calls return what they are for, and once the window in memory is written back all copies that are kept are the
table that they are to leave. -/
def AccessesRight (env : Env) (st : St) (calls : List Access) : Prop :=
  ∃ rs st₁ st₂, Access.runAll env calls st = some (rs, st₁) ∧ flushDirtyFatBuffer env st₁ = some (true, st₂) ∧
    rs = (Access.plain env.fatsize.bits (env.entry st.card 0) calls).1 ∧
    ∀ copy < env.copies, ∀ e, env.Exists e →
      env.entry st₂.card copy e = (Access.plain env.fatsize.bits (env.entry st.card 0) calls).2 e

theorem St.Fresh.ready {st : St} {env : Env} (fresh : st.Fresh) : st.Ready env :=
  ⟨fun n some => absurd (fresh.none.symm.trans some) (Option.some_ne_none n).symm, fun _ => fresh.clean,
    fun _ a _ => by rw [Env.table, fresh.none]; rfl⟩

section Calls

variable {env : Env} (fits : env.Fits)
include fits

omit fits in
theorem getEntry_table_congr {b c : Buf} {e : Nat} (there : env.Exists e) (same : ∀ a < env.bytes, b a = c a) :
    getEntry b e env.fatsize = getEntry c e env.fatsize := by
  refine getEntry_congr (fun i small => same _ ?_) rfl
  have := there.1
  omega

theorem runAll_run {calls : List Access} (there : ∀ call ∈ calls, env.Exists call.entry) {st : St} (ready : st.Ready env)
    {T : Nat → Nat} (table : ∀ e, env.Exists e → getEntry (env.table st) e env.fatsize = T e) :
    ∃ rs st', Access.runAll env calls st = some (rs, st') ∧ st'.Ready env ∧
      (rs = (Access.plain env.fatsize.bits T calls).1 ↔ Access.Answered env.fatsize T calls) ∧
      (∀ e, env.Exists e → getEntry (env.table st') e env.fatsize = (Access.plain env.fatsize.bits T calls).2 e) ∧
      (env.numOfFats = 2 → ∀ st₀ W, st.Mirror env st₀ W →
        st'.Mirror env st₀ (fun n => W n ∨ ∃ e v, Access.set e v ∈ calls ∧ n = env.entryWindow e)) := by
  induction calls generalizing st T with
  | nil =>
    refine ⟨[], st, rfl, ready, iff_of_true rfl trivial, table, fun _ st₀ W mirror => ?_⟩
    simpa only [List.not_mem_nil, false_and, exists_false, or_false] using mirror
  | cons call calls ih =>
    have later : ∀ call ∈ calls, env.Exists call.entry := fun c member => there c (List.mem_cons_of_mem _ member)
    have here := there call List.mem_cons_self
    cases call with
    | get e =>
      rw [Access.entry] at here
      obtain ⟨st₁, first, keeps⟩ := getFatent_run fits ready here
      obtain ⟨rs, st₂, rest, ready₂, answered, left, mirrored⟩ := ih later keeps.ready
        (fun e' there' => (getEntry_table_congr there' keeps.table).trans (table e' there'))
      refine ⟨(if checkClust e env.fatsize then 0 else getEntry (env.table st) e env.fatsize) :: rs, st₂, ?_, ready₂, ?_,
        left, fun two st₀ W mirror => ?_⟩
      · rw [Access.runAll, run_bind, Access.run, first, Option.bind_some, run_bind, rest]
        rfl
      · rw [Access.plain, Access.Answered, List.cons.injEq, answered, table e here]
        refine and_congr_left' ?_
        split
        · next refused => exact ⟨fun zero _ => zero.symm, fun zero => (zero refused).symm⟩
        · next valid => exact ⟨fun _ refused => absurd refused valid, fun _ => rfl⟩
      · simpa only [List.mem_cons, reduceCtorEq, false_or] using mirrored two st₀ W (keeps.mirror two st₀ W mirror)
    | set e v =>
      rw [Access.entry] at here
      obtain ⟨st₁, first, sets⟩ := setFatentValue_run fits ready here v
      have entries (e' : Nat) (there' : env.Exists e') :
          getEntry (env.table st₁) e' env.fatsize = Function.update T e (v % 2 ^ env.fatsize.bits) e' := by
        rw [getEntry_table_congr there' sets.table, getEntry_putEntry, Function.update_apply, table e' there']
      obtain ⟨rs, st₂, rest, ready₂, answered, left, mirrored⟩ := ih later sets.ready entries
      refine ⟨0 :: rs, st₂, ?_, ready₂, ?_, left, fun two st₀ W mirror => ?_⟩
      · rw [Access.runAll, run_bind, Access.run, first, Option.bind_some, run_bind, rest]
        rfl
      · rw [Access.plain, Access.Answered, List.cons.injEq, answered]
        exact and_iff_right rfl
      · have windows := mirrored two st₀ _ (sets.mirror two st₀ W mirror)
        have same : (fun n => (W n ∨ n = env.entryWindow e) ∨
              ∃ e' v', Access.set e' v' ∈ calls ∧ n = env.entryWindow e') =
            fun n => W n ∨ ∃ e' v', Access.set e' v' ∈ Access.set e v :: calls ∧ n = env.entryWindow e' := by
          funext n
          simp only [List.mem_cons, Access.set.injEq, or_and_right, exists_or, or_assoc, and_assoc, eq_iff_iff]
          simp only [exists_and_left, exists_eq_left]
        exact same ▸ windows

theorem Env.Fits.windowOf_entry {e i : Nat} (there : env.Exists e) (small : i < env.fatsize.width) :
    env.windowOf (env.fatsize.start e + i) = env.entryWindow e := by
  obtain ⟨n, off, number, -, -, place, -, limit⟩ := fits.place there
  rw [place, Nat.add_assoc, (fits.window_add n (by omega)).1, Env.entryWindow, number]

/-- Where the sectors are the blocks of the device, the calls do what they are for exactly if no entry is asked for that
`get_fatent` refuses, and the second copy is as the first one wherever no call sets an entry of the same window. -/
theorem accessesRight_of_fits {st : St} (fresh : st.Fresh) {calls : List Access}
    (there : ∀ call ∈ calls, env.Exists call.entry) :
    AccessesRight env st calls ↔
      Access.Answered env.fatsize (env.entry st.card 0) calls ∧
      (env.numOfFats = 2 → ∀ e, env.Exists e →
        (∀ e' v, Access.set e' v ∈ calls → env.entryWindow e' ≠ env.entryWindow e) →
        env.entry st.card 1 e = env.entry st.card 0 e) := by
  have table (e : Nat) (there : env.Exists e) : getEntry (env.table st) e env.fatsize = env.entry st.card 0 e :=
    getEntry_table_congr there (fresh.ready.clean fresh.clean)
  obtain ⟨rs, st₁, run, ready, answered, left, mirrored⟩ := runAll_run fits there fresh.ready table
  obtain ⟨st₂, flush, keeps, clean, -⟩ := flushDirtyFatBuffer_run fits ready
  obtain ⟨T, last⟩ : ∃ T, T = (Access.plain env.fatsize.bits (env.entry st.card 0) calls).2 := ⟨_, rfl⟩
  have first (e : Nat) (there : env.Exists e) : env.entry st₂.card 0 e = T e := by
    rw [last, ← left e there, Env.entry]
    refine getEntry_table_congr there (fun a below => ?_)
    rw [← keeps.ready.clean clean a below, keeps.table a below]
  have second (two : env.numOfFats = 2) : (∀ e, env.Exists e → env.entry st₂.card 1 e = T e) ↔
      ∀ e, env.Exists e → (∀ e' v, Access.set e' v ∈ calls → env.entryWindow e' ≠ env.entryWindow e) →
        env.entry st.card 1 e = env.entry st.card 0 e := by
    obtain mirror := keeps.mirror two st _ (mirrored two st (fun _ => False)
      ⟨fun dirty => absurd (fresh.clean.symm.trans dirty) Bool.false_ne_true, fun _ _ member => member.elim,
        fun _ _ _ => rfl⟩)
    refine forall_congr' (fun e => forall_congr' (fun there => ?_))
    by_cases member : ∃ e' v, Access.set e' v ∈ calls ∧ env.entryWindow e = env.entryWindow e'
    · refine iff_of_true ?_ (fun untouched => ?_)
      · rw [← first e there]
        refine getEntry_congr (fun i small => mirror.done _ ?_ ?_ (fun both => ?_)) rfl
        · have := there.1
          omega
        · rw [fits.windowOf_entry there small]
          exact .inr member
        · exact absurd (clean.symm.trans both.1) Bool.false_ne_true
      · obtain ⟨e', v, called, same⟩ := member
        exact absurd same.symm (untouched e' v called)
    · have untouched : ∀ e' v, Access.set e' v ∈ calls → env.entryWindow e' ≠ env.entryWindow e :=
        fun e' v called same => member ⟨e', v, called, same.symm⟩
      have kept : env.entry st₂.card 1 e = env.entry st.card 1 e := by
        refine getEntry_congr (fun i small => mirror.rest _ ?_ ?_) rfl
        · have := there.1
          omega
        · rw [fits.windowOf_entry there small]
          exact fun hit => member (hit.resolve_left id)
      have value : T e = env.entry st.card 0 e := last ▸ Access.plain_of_unset (fun v called => untouched e v called rfl)
      rw [kept, value]
      exact ⟨fun same _ => same, fun same => same untouched⟩
  constructor
  · rintro ⟨rs', st₁', st₂', run', flush', results, copies⟩
    cases run.symm.trans run'
    cases flush.symm.trans flush'
    rw [← last] at copies
    exact ⟨answered.mp results, fun two => (second two).mp (copies 1 (by rw [Env.copies, if_pos two]; decide))⟩
  · rintro ⟨valid, agree⟩
    refine ⟨rs, st₁, st₂, run, flush, answered.mpr valid, fun copy kept e there => ?_⟩
    rw [← last]
    unfold Env.copies at kept
    split at kept
    · next two =>
      obtain rfl | rfl : copy = 0 ∨ copy = 1 := by omega
      · exact first e there
      · exact (second two).mpr (agree two) e there
    · obtain rfl : copy = 0 := by omega
      exact first e there

end Calls

def blank : St := ⟨zeros, zeros, false, none⟩

def marked (env : Env) : St := ⟨zeros, putEntry zeros 2 1 env.fatsize, true, some 0⟩

section Mismatch

variable {env : Env} (laid : env.Laid)
include laid

theorem Env.Laid.second : 2 / env.fatsize.bufsize env.sectSize = 0 ∧ env.fatsize.start 2 + env.fatsize.width ≤ 512 ∧
    env.Exists 2 := by
  have sect := Nat.le_of_dvd laid.positive laid.unit
  have least := FatSize.sect_le_bufsize (Nat.dvd_trans (by decide) laid.unit) env.fatsize
  have inside : env.fatsize.start 2 + env.fatsize.width ≤ 512 := by cases env.fatsize <;> decide
  have whole := Nat.le_mul_of_pos_left env.sectSize laid.nonempty
  exact ⟨Nat.div_eq_of_lt (by omega), inside, ⟨inside.trans (sect.trans whole), by decide⟩⟩

theorem Env.Laid.fatlength_lt :
    env.fatlength < 2 ^ 32 ∧ env.partStart + env.fatSect + env.copies * env.fatlength < 2 ^ 32 := by
  have inside := laid.inside
  have addressed := laid.addressed
  have one : 1 ≤ env.copies := by unfold Env.copies; split <;> decide
  have least := Nat.mul_le_mul_right env.fatlength one
  omega

theorem setFatentValue_blank : setFatentValue env 2 1 blank = some (0, marked env) := by
  obtain ⟨window, -, -⟩ := laid.second
  have short := laid.fatlength_lt.1
  have size : getsize env 0 ≤ fatbufblocks := by
    have blocks : fatbufblocks = 6 := rfl
    rw [getsize, blocks, Nat.zero_add, w32_of_lt (by decide)]
    split
    · rw [Nat.sub_zero, w32, Nat.add_mod_right, Nat.mod_eq_of_lt short]
      omega
    · exact le_refl 6
  have read (block n : Nat) : diskRead env zeros block n zeros = zeros := by
    funext a
    rw [diskRead, overlay]
    split <;> rfl
  rw [setFatentValue]
  simp only [window, Nat.zero_mul, Nat.sub_zero, run_bind, loadWindow, run_get, Option.bind_some, blank, reduceCtorEq,
    run_ite, if_false, flushDirtyFatBuffer, run_pure, if_true, w32_of_lt (show 0 < 2 ^ 32 by decide),
    if_neg (Nat.not_lt.mpr size), run_modify, read]
  rfl

omit laid in
theorem diskWrite_nonzero {block n : Nat} {buf : Buf} {st st' : St}
    (write : diskWrite env block n buf st = some (true, st')) {a : Nat} (nonzero : st'.card a ≠ 0) :
    st.card a ≠ 0 ∨ ∃ i, a = w32 (env.partStart + block) * env.blksz + i ∧ buf i ≠ 0 := by
  unfold diskWrite at write
  split at write
  · cases write
  · cases write
    simp only [overlay] at nonzero
    split at nonzero
    · next within => exact .inr ⟨_, by omega, nonzero⟩
    · exact .inl nonzero

theorem flush_marked {st : St} (flush : flushDirtyFatBuffer env (marked env) = some (true, st)) {a : Nat}
    (nonzero : st.card a ≠ 0) : ∃ copy < env.copies, ∃ i, i < env.fatsize.width ∧
      a = (env.partStart + (env.fatSect + copy * env.fatlength)) * env.blksz + (env.fatsize.start 2 + i) := by
  have small := laid.fatlength_lt.2
  have stored {i : Nat} (nonzero : putEntry zeros 2 1 env.fatsize i ≠ 0) :
      ∃ j, j < env.fatsize.width ∧ i = env.fatsize.start 2 + j := by
    by_contra outside
    refine nonzero (putEntry_outside ?_)
    by_contra within
    exact outside ⟨i - env.fatsize.start 2, by omega, by omega⟩
  rw [flushDirtyFatBuffer, get_bind] at flush
  simp only [marked, Nat.zero_mul, w32_of_lt (show 0 < 2 ^ 32 by decide), Nat.zero_add] at flush
  obtain ⟨done, st₁, write, flush⟩ := bind_eq_some.mp flush
  cases done with
  | false => cases flush
  | true =>
    rw [if_pos rfl] at flush
    have first {a : Nat} (nonzero : st₁.card a ≠ 0) : ∃ i, i < env.fatsize.width ∧
        a = (env.partStart + (env.fatSect + 0 * env.fatlength)) * env.blksz + (env.fatsize.start 2 + i) := by
      obtain old | ⟨i, place, byte⟩ := diskWrite_nonzero write nonzero
      · exact absurd rfl old
      · obtain ⟨j, below, rfl⟩ := stored byte
        rw [w32_of_lt (show env.fatSect < 2 ^ 32 by omega), w32_of_lt (by omega)] at place
        exact ⟨j, below, by rw [place, Nat.zero_mul, Nat.add_zero]⟩
    by_cases two : env.numOfFats = 2
    · rw [run_ite, if_pos two] at flush
      obtain ⟨done', st₂, write', flush⟩ := bind_eq_some.mp flush
      cases done' with
      | false => cases flush
      | true =>
        cases flush
        have copies : env.copies = 2 := by rw [Env.copies, if_pos two]
        rw [copies] at small ⊢
        obtain old | ⟨i, place, byte⟩ := diskWrite_nonzero write' nonzero
        · exact ⟨0, by decide, first old⟩
        · obtain ⟨j, below, rfl⟩ := stored byte
          rw [w32_of_lt (show env.fatSect + env.fatlength < 2 ^ 32 by omega), w32_of_lt (by omega)] at place
          exact ⟨1, by decide, j, below, by rw [place, Nat.one_mul]⟩
    · rw [run_ite, if_neg two] at flush
      cases flush
      exact ⟨0, by rw [Env.copies, if_neg two]; decide, first nonzero⟩

/-- Where the sectors are not the blocks of the device, an entry of an empty table that is set is not in all of the copies
afterwards. -/
theorem blank_not_right (device : 512 ∣ env.blksz) (other : env.sectSize ≠ env.blksz) :
    ¬ AccessesRight env blank [.set 2 1] := by
  rintro ⟨rs, st₁, st₂, run, flush, -, copies⟩
  obtain ⟨-, small, there⟩ := laid.second
  have width : env.fatsize.width ≤ 4 := by cases env.fatsize <;> decide
  rw [Access.runAll, run_bind, Access.run, setFatentValue_blank laid, Option.bind_some] at run
  cases run
  -- each copy that is kept begins where one is written
  have placed (copy : Nat) (kept : copy < env.copies) : ∃ copy' < env.copies,
      env.partStart * env.blksz + (env.fatSect + copy * env.fatlength) * env.sectSize =
        (env.partStart + (env.fatSect + copy' * env.fatlength)) * env.blksz := by
    have value : env.entry st₂.card copy 2 = 1 % 2 ^ env.fatsize.bits := by
      rw [copies copy kept 2 there]
      exact Function.update_self 2 _ (env.entry blank.card 0)
    obtain ⟨i, below, nonzero⟩ : ∃ i, i < env.fatsize.width ∧ env.fat st₂.card copy (env.fatsize.start 2 + i) ≠ 0 := by
      by_contra clear
      have zero : env.entry st₂.card copy 2 = getEntry zeros 2 env.fatsize := by
        refine getEntry_congr (fun i below => ?_) rfl
        by_contra nonzero
        exact clear ⟨i, below, nonzero⟩
      rw [zero] at value
      cases size : env.fatsize <;> rw [size] at value <;> cases value
    obtain ⟨copy', kept', j, below', place⟩ := flush_marked laid flush nonzero
    refine ⟨copy', kept', ?_⟩
    obtain ⟨k, base⟩ : 512 ∣ env.partStart * env.blksz + (env.fatSect + copy * env.fatlength) * env.sectSize :=
      Nat.dvd_add (device.mul_left _) (laid.unit.mul_left _)
    obtain ⟨k', base'⟩ : 512 ∣ (env.partStart + (env.fatSect + copy' * env.fatlength)) * env.blksz := device.mul_left _
    omega
  have distinct : ∀ n, 0 < n → n * env.sectSize ≠ n * env.blksz :=
    fun n positive same => other (Nat.eq_of_mul_eq_mul_left positive same)
  have table := laid.nonempty
  have boot := laid.boot
  by_cases two : env.numOfFats = 2
  · have both : env.copies = 2 := by rw [Env.copies, if_pos two]
    rw [both] at placed
    obtain ⟨c₀, kept₀, first⟩ := placed 0 (by decide)
    obtain ⟨c₁, kept₁, second⟩ := placed 1 (by decide)
    -- the first copy would be the second one as it is written, and nothing is written behind that
    have sector := laid.positive
    have step : 0 < env.fatlength * env.sectSize := Nat.mul_pos table sector
    have not₀ := distinct env.fatSect boot
    have not₁ := distinct (env.fatSect + env.fatlength) (by omega)
    obtain rfl | rfl : c₀ = 0 ∨ c₀ = 1 := by omega
    · simp only [Nat.zero_mul, Nat.add_zero, Nat.add_mul] at first
      omega
    · obtain rfl | rfl : c₁ = 0 ∨ c₁ = 1 := by omega
      · simp only [Nat.zero_mul, Nat.one_mul, Nat.add_zero, Nat.add_mul] at first second
        omega
      · simp only [Nat.one_mul, Nat.add_mul] at second not₁
        omega
  · have one : env.copies = 1 := by rw [Env.copies, if_neg two]
    rw [one] at placed
    obtain ⟨c₀, kept₀, first⟩ := placed 0 (by decide)
    obtain rfl : c₀ = 0 := by omega
    have not₀ := distinct env.fatSect boot
    simp only [Nat.zero_mul, Nat.add_zero, Nat.add_mul] at first
    omega

end Mismatch

/-- Accesses to entries that the table has do what they are for, and leave all copies as that table, exactly if
`get_fatent` is asked for no entry that it refuses and the second copy is as the first one wherever no call sets an entry
of the same window; this where the sectors of the volume are the blocks of the device, and nowhere else is it so. -/
theorem accesses_right_iff {env : Env} (laid : env.Laid) (device : 512 ∣ env.blksz) :
    (env.sectSize = env.blksz → ∀ st : St, st.Fresh → ∀ calls, (∀ call ∈ calls, env.Exists call.entry) →
      (AccessesRight env st calls ↔
        Access.Answered env.fatsize (env.entry st.card 0) calls ∧
        (env.numOfFats = 2 → ∀ e, env.Exists e →
          (∀ e' v, Access.set e' v ∈ calls → env.entryWindow e' ≠ env.entryWindow e) →
          env.entry st.card 1 e = env.entry st.card 0 e))) ∧
    (env.sectSize ≠ env.blksz → blank.Fresh ∧ env.Exists 2 ∧
      (∀ e, env.entry blank.card 1 e = env.entry blank.card 0 e) ∧ ¬ AccessesRight env blank [.set 2 1]) :=
  ⟨fun sector _ fresh _ there => accessesRight_of_fits ⟨laid, sector⟩ fresh there,
    fun other => ⟨⟨rfl, rfl⟩, laid.second.2.2, fun _ => rfl, blank_not_right laid device other⟩⟩

def smallVolume : Env where
  partStart := 8
  blksz := 512
  totalSector := 64
  numOfFats := 2
  fatsize := .fat12
  fatlength := 1
  fatSect := 1
  rootdirSect := 3
  sectSize := 512
  clustSize := 1
  dataBegin := 2
  stack := zeros

/-- Its device: the first two entries of both copies are those of every volume, and the cluster 2 has a file. -/
def smallCard : Buf :=
  let table := fun i => if i = 0 then 0xf8 else if i = 4 then 0x0f else 0xff
  overlay (overlay zeros (9 * 512) 5 table) (10 * 512) 5 table

theorem smallVolume_laid : smallVolume.Laid := by constructor <;> decide

theorem smallVolume_accesses : smallVolume.Laid ∧
    AccessesRight smallVolume ⟨smallCard, zeros, false, none⟩ [.get 2, .set 2 3, .set 3 0x1fff, .get 2, .get 3] := by
  refine ⟨smallVolume_laid, (((accesses_right_iff smallVolume_laid (by decide)).1 rfl _ ⟨rfl, rfl⟩ _ ?_).mpr
    ⟨⟨(nomatch ·), (nomatch ·), (nomatch ·), trivial⟩, fun _ e there untouched => ?_⟩)⟩
  · intro call member
    simp only [List.mem_cons, List.not_mem_nil, or_false] at member
    obtain rfl | rfl | rfl | rfl | rfl := member <;> exact ⟨by decide, by decide⟩
  · -- the table has one window
    refine absurd ?_ (untouched 2 3 (by simp))
    have inside := there.1
    have small : e < 342 := by
      simp only [smallVolume, FatSize.start, FatSize.width, Env.bytes] at inside
      omega
    have size : smallVolume.fatsize.bufsize smallVolume.sectSize = 2048 := rfl
    rw [Env.entryWindow, Env.entryWindow, size]
    omega

/-- The first entry is not what `get_fatent` returns for it; and with sectors of two blocks an entry that is set is not
in the table. -/
theorem smallVolume_refused :
    (smallVolume.Exists 0 ∧ smallVolume.entry smallCard 0 0 = 0xff8 ∧
      ¬ AccessesRight smallVolume ⟨smallCard, zeros, false, none⟩ [.get 0]) ∧
    ({ smallVolume with sectSize := 1024 }.Laid ∧ { smallVolume with sectSize := 1024 }.Exists 2 ∧
      ¬ AccessesRight { smallVolume with sectSize := 1024 } blank [.set 2 1]) := by
  have wide : { smallVolume with sectSize := 1024 }.Laid := by constructor <;> decide
  refine ⟨⟨⟨by decide, by decide⟩, by decide, ?_⟩, wide, wide.second.2.2, blank_not_right wide (by decide) (by decide)⟩
  rintro ⟨rs, st₁, st₂, run, -, results, -⟩
  have returned : rs = [0] := by
    cases run
    rfl
  rw [returned] at results
  exact absurd results (by decide)

end UuuFastboot.Fat
