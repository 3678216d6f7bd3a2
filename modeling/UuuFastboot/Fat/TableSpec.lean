import UuuFastboot.Fat.Table

namespace UuuFastboot.Fat

open Word Overlay Bytes Partial

namespace Env

variable (env : Env)

def fat (card : Buf) (copy : Nat) : Buf :=
  tail card (env.partStart * env.blksz + (env.fatSect + copy * env.fatlength) * env.sectSize)

def bytes : Nat := env.fatlength * env.sectSize

def windowBytes : Nat := env.sectSize * 6

def windowOf (a : Nat) : Nat := a / env.windowBytes

def table (st : St) : Buf := fun a =>
  if st.fatbufnum = some (env.windowOf a) then st.fatbuf (a % env.windowBytes) else env.fat st.card 0 a

/-- The entry is in the table; its number is a word. -/
def Exists (e : Nat) : Prop := env.fatsize.start e + env.fatsize.width ≤ env.bytes ∧ e < 2 ^ 32

def copies : Nat := if env.numOfFats = 2 then 2 else 1

/-- The copies of the table lie in the volume behind its boot sector, and what is written there is not refused. -/
structure Laid : Prop where
  unit : 512 ∣ env.sectSize
  positive : 0 < env.sectSize
  boot : 0 < env.fatSect
  nonempty : 0 < env.fatlength
  inside : env.fatSect + env.copies * env.fatlength ≤ env.totalSector
  addressed : env.partStart + env.totalSector < 2 ^ 32

structure Fits : Prop extends Laid env where
  sector : env.sectSize = env.blksz

/-- A window that the table has, with a number that a word has room for. -/
def HasWindow (n : Nat) : Prop := n * 6 < env.fatlength ∧ n * 6 + 6 < 2 ^ 32

def Outside (a : Nat) : Prop :=
  a < (env.partStart + env.fatSect) * env.blksz ∨
    (env.partStart + (env.fatSect + env.copies * env.fatlength)) * env.blksz ≤ a

end Env

/-- The window in memory is one of the table, and it is as on the device unless it is marked. -/
structure St.Ready (env : Env) (st : St) : Prop where
  window : ∀ n, st.fatbufnum = some n → env.HasWindow n
  unmarked : st.fatbufnum = none → st.fatDirty = false
  clean : st.fatDirty = false → ∀ a < env.bytes, env.table st a = env.fat st.card 0 a

/-- The second copy, after entries in the windows `W` were set: the other windows are as they were. -/
structure St.Mirror (env : Env) (st st₀ : St) (W : Nat → Prop) : Prop where
  marked : st.fatDirty = true → ∀ n, st.fatbufnum = some n → W n
  done : ∀ a < env.bytes, W (env.windowOf a) → ¬ (st.fatDirty = true ∧ st.fatbufnum = some (env.windowOf a)) →
    env.fat st.card 1 a = env.fat st.card 0 a
  rest : ∀ a < env.bytes, ¬ W (env.windowOf a) → env.fat st.card 1 a = env.fat st₀.card 1 a

structure St.Keeps (env : Env) (st st' : St) : Prop where
  ready : st'.Ready env
  table : ∀ a < env.bytes, env.table st' a = env.table st a
  outside : ∀ a, env.Outside a → st'.card a = st.card a
  mirror : env.numOfFats = 2 → ∀ st₀ W, st.Mirror env st₀ W → st'.Mirror env st₀ W

structure St.Sets (env : Env) (st : St) (e v : Nat) (st' : St) : Prop where
  ready : st'.Ready env
  table : ∀ a < env.bytes, env.table st' a = putEntry (env.table st) e v env.fatsize a
  outside : ∀ a, env.Outside a → st'.card a = st.card a
  mirror : env.numOfFats = 2 → ∀ st₀ W, st.Mirror env st₀ W →
    st'.Mirror env st₀ (fun n => W n ∨ n = e / env.fatsize.bufsize env.sectSize)

section Keeps

variable {env : Env} {st st' st'' : St}

theorem St.Keeps.refl (ready : st.Ready env) : st.Keeps env st :=
  ⟨ready, fun _ _ => rfl, fun _ _ => rfl, fun _ _ _ mirror => mirror⟩

theorem St.Keeps.trans (first : st.Keeps env st') (second : st'.Keeps env st'') : st.Keeps env st'' :=
  ⟨second.ready, fun a below => (second.table a below).trans (first.table a below),
    fun a away => (second.outside a away).trans (first.outside a away),
    fun two st₀ W mirror => second.mirror two st₀ W (first.mirror two st₀ W mirror)⟩

end Keeps

section Window

variable {env : Env} (fits : env.Fits)
include fits

theorem Env.Fits.window_pos : 0 < env.windowBytes := by
  have := fits.positive
  unfold Env.windowBytes
  omega

theorem Env.Fits.getsize_eq {n : Nat} (below : env.HasWindow n) :
    w32 (n * fatbufblocks) = n * 6 ∧ getsize env (n * 6) = min 6 (env.fatlength - n * 6) := by
  obtain ⟨below, limit⟩ := below
  have table : env.fatlength < 2 ^ 32 := by
    have inside := fits.inside
    have addressed := fits.addressed
    have one : 1 ≤ env.copies := by unfold Env.copies; split <;> decide
    have least := Nat.mul_le_mul_right env.fatlength one
    omega
  have blocks : fatbufblocks = 6 := rfl
  refine ⟨by rw [blocks]; exact w32_of_lt (by omega), ?_⟩
  rw [getsize, blocks, w32_of_lt (by omega)]
  split
  · rw [show env.fatlength + 2 ^ 32 - n * 6 = (env.fatlength - n * 6) + 2 ^ 32 by omega, w32, Nat.add_mod_right,
      Nat.mod_eq_of_lt (by omega), Nat.min_eq_right (by omega)]
  · rw [Nat.min_eq_left (by omega)]

theorem Env.Fits.windowOf_eq_iff {n a : Nat} (below : n * 6 < env.fatlength) (inside : a < env.bytes) :
    env.windowOf a = n ↔
      n * env.windowBytes ≤ a ∧ a < n * env.windowBytes + min 6 (env.fatlength - n * 6) * env.sectSize := by
  obtain ⟨r, rest⟩ : ∃ r, env.fatlength = n * 6 + r := ⟨env.fatlength - n * 6, by omega⟩
  have whole : env.bytes = n * env.windowBytes + r * env.sectSize := by
    rw [Env.bytes, Env.windowBytes, rest]
    ring
  have part : min 6 (env.fatlength - n * 6) * env.sectSize = min env.windowBytes (r * env.sectSize) := by
    rw [rest, Nat.add_sub_cancel_left, Env.windowBytes, Nat.mul_comm env.sectSize, Nat.mul_min_mul_right]
  rw [Env.windowOf, Nat.div_eq_iff fits.window_pos, part]
  have next : (n + 1) * env.windowBytes = n * env.windowBytes + env.windowBytes := Nat.succ_mul _ _
  have positive := fits.window_pos
  omega

omit fits in
theorem Env.window_rest {n a : Nat} (here : env.windowOf a = n) : a % env.windowBytes = a - n * env.windowBytes := by
  have whole := Nat.div_add_mod a env.windowBytes
  rw [← here, Env.windowOf, Nat.mul_comm]
  omega

omit fits in
theorem Env.windowOf_lt {a : Nat} (inside : a < env.bytes) : env.windowOf a * 6 < env.fatlength := by
  have le := Nat.div_mul_le_self a env.windowBytes
  have below : env.windowOf a * 6 * env.sectSize < env.fatlength * env.sectSize := by
    rw [Nat.mul_assoc, Nat.mul_comm 6]
    exact Nat.lt_of_le_of_lt le inside
  exact Nat.lt_of_mul_lt_mul_right below

theorem Env.Fits.window_add (n : Nat) {i : Nat} (small : i < env.windowBytes) :
    env.windowOf (n * env.windowBytes + i) = n ∧ (n * env.windowBytes + i) % env.windowBytes = i := by
  constructor
  · rw [Env.windowOf, Nat.mul_comm, Nat.mul_add_div fits.window_pos, Nat.div_eq_of_lt small, Nat.add_zero]
  · rw [Nat.mul_comm, Nat.mul_add_mod, Nat.mod_eq_of_lt small]

theorem Env.Fits.fat_eq (card : Buf) (copy a : Nat) :
    env.fat card copy a = card ((env.partStart + env.fatSect) * env.blksz + copy * env.bytes + a) := by
  rw [Env.fat, tail_apply, Env.bytes, fits.sector]
  congr 1
  ring

theorem Env.Fits.fat_write {n copy copy' a : Nat} (card buf : Buf) (below : n * 6 < env.fatlength)
    (inside : a < env.bytes) :
    env.fat (overlay card ((env.partStart + (env.fatSect + copy * env.fatlength + n * 6)) * env.blksz)
        (min 6 (env.fatlength - n * 6) * env.blksz) buf) copy' a =
      if copy' = copy ∧ env.windowOf a = n then buf (a % env.windowBytes) else env.fat card copy' a := by
  have start : (env.partStart + (env.fatSect + copy * env.fatlength + n * 6)) * env.blksz =
      (env.partStart + env.fatSect) * env.blksz + copy * env.bytes + n * env.windowBytes := by
    rw [Env.bytes, Env.windowBytes, fits.sector]
    ring
  have window := fits.windowOf_eq_iff below inside
  have most : n * env.windowBytes + min 6 (env.fatlength - n * 6) * env.sectSize ≤ env.bytes := by
    have least : min 6 (env.fatlength - n * 6) ≤ env.fatlength - n * 6 := Nat.min_le_right _ _
    have mul := Nat.mul_le_mul_right env.sectSize (show n * 6 + min 6 (env.fatlength - n * 6) ≤ env.fatlength by omega)
    rw [Nat.add_mul, Nat.mul_assoc, Nat.mul_comm 6] at mul
    exact mul
  rw [fits.fat_eq, fits.fat_eq, start, ← fits.sector]
  generalize (env.partStart + env.fatSect) * env.sectSize = base
  generalize len : min 6 (env.fatlength - n * 6) * env.sectSize = len at window most ⊢
  by_cases same : copy' = copy
  · subst same
    by_cases here : env.windowOf a = n
    · rw [if_pos ⟨rfl, here⟩, overlay_of_mem (by omega) (by omega), Env.window_rest here]
      congr 1
      omega
    · rw [if_neg (fun both => here both.2), overlay, if_neg (by omega)]
  · rw [if_neg (fun both => same both.1), overlay, if_neg ?_]
    rcases Nat.lt_or_gt_of_ne same with before | after
    · have step := Nat.mul_le_mul_right env.bytes (show copy' + 1 ≤ copy from before)
      rw [Nat.succ_mul] at step
      omega
    · have step := Nat.mul_le_mul_right env.bytes (show copy + 1 ≤ copy' from after)
      rw [Nat.succ_mul] at step
      omega

theorem Env.Fits.diskWrite {n copy : Nat} (st : St) (buf : Buf) (below : n * 6 < env.fatlength)
    (kept : copy < env.copies) :
    diskWrite env (env.fatSect + copy * env.fatlength + n * 6) (min 6 (env.fatlength - n * 6)) buf st =
        some (true, { st with
          card := overlay st.card ((env.partStart + (env.fatSect + copy * env.fatlength + n * 6)) * env.blksz)
            (min 6 (env.fatlength - n * 6) * env.blksz) buf }) ∧
      ∀ a, env.Outside a →
        overlay st.card ((env.partStart + (env.fatSect + copy * env.fatlength + n * 6)) * env.blksz)
          (min 6 (env.fatlength - n * 6) * env.blksz) buf a = st.card a := by
  have least : min 6 (env.fatlength - n * 6) ≤ env.fatlength - n * 6 := Nat.min_le_right _ _
  have last := Nat.mul_le_mul_right env.fatlength (show copy + 1 ≤ env.copies from kept)
  rw [Nat.succ_mul] at last
  have inside := fits.inside
  have addressed := fits.addressed
  constructor
  · rw [Fat.diskWrite, w32_of_lt (by omega), w32_of_lt (by omega), w32_of_lt (by omega), if_neg (by omega)]
  · intro a away
    rw [overlay, if_neg ?_]
    have lower := Nat.mul_le_mul_right env.blksz
      (show env.partStart + env.fatSect ≤ env.partStart + (env.fatSect + copy * env.fatlength + n * 6) by omega)
    have upper := Nat.mul_le_mul_right env.blksz
      (show env.partStart + (env.fatSect + copy * env.fatlength + n * 6) + min 6 (env.fatlength - n * 6) ≤
        env.partStart + (env.fatSect + env.copies * env.fatlength) by omega)
    rw [Nat.add_mul _ (min 6 _)] at upper
    unfold Env.Outside at away
    omega

omit fits in
theorem St.Ready.written {st : St} {n : Nat} {card : Buf} (ready : st.Ready env) (window : st.fatbufnum = some n)
    (dirty : st.fatDirty = true)
    (first : ∀ a < env.bytes,
      env.fat card 0 a = if env.windowOf a = n then st.fatbuf (a % env.windowBytes) else env.fat st.card 0 a)
    (second : env.numOfFats = 2 → ∀ a < env.bytes,
      env.fat card 1 a = if env.windowOf a = n then st.fatbuf (a % env.windowBytes) else env.fat st.card 1 a)
    (outside : ∀ a, env.Outside a → card a = st.card a) :
    st.Keeps env { st with card := card, fatDirty := false } := by
  have same (a : Nat) (inside : a < env.bytes) :
      env.table { st with card := card, fatDirty := false } a = env.table st a := by
    simp only [Env.table]
    split
    · rfl
    · next other =>
      rw [first a inside, if_neg (fun here => other (by rw [window, here]))]
  refine ⟨⟨ready.window, fun _ => rfl, fun _ a inside => ?_⟩, same, outside, 
    fun two st₀ W mirror => ⟨fun marked => (nomatch marked), ?_, ?_⟩⟩
  · rw [same a inside, first a inside, Env.table]
    by_cases here : env.windowOf a = n
    · rw [if_pos (by rw [window, here]), if_pos here]
    · rw [if_neg (by rw [window]; exact fun same => here (Option.some.inj same).symm), if_neg here]
  · intro a inside member _
    rw [first a inside, second two a inside]
    by_cases here : env.windowOf a = n
    · rw [if_pos here, if_pos here]
    · rw [if_neg here, if_neg here]
      exact mirror.done a inside member (fun both => here (Option.some.inj (window.symm.trans both.2)).symm)
  · intro a inside other
    have elsewhere : env.windowOf a ≠ n := fun here => other (here ▸ mirror.marked dirty n window)
    rw [second two a inside, if_neg elsewhere]
    exact mirror.rest a inside other

theorem flushDirtyFatBuffer_run {st : St} (ready : st.Ready env) :
    ∃ st', flushDirtyFatBuffer env st = some (true, st') ∧ st.Keeps env st' ∧ st'.fatDirty = false ∧
      st'.fatbufnum = st.fatbufnum := by
  cases window : st.fatbufnum with
  | none =>
    refine ⟨st, ?_, .refl ready, ready.unmarked window, window⟩
    rw [flushDirtyFatBuffer, get_bind]
    simp only [window]
    rfl
  | some n =>
    cases dirty : st.fatDirty with
    | false =>
      refine ⟨st, ?_, .refl ready, dirty, window⟩
      rw [flushDirtyFatBuffer, get_bind]
      simp only [window, dirty]
      rfl
    | true =>
      obtain ⟨start, size⟩ := fits.getsize_eq (ready.window n window)
      have below := (ready.window n window).1
      have one : 0 < env.copies := by unfold Env.copies; split <;> decide
      obtain ⟨write, away⟩ := fits.diskWrite st st.fatbuf below one
      have address : w32 (n * 6 + env.fatSect) = env.fatSect + 0 * env.fatlength + n * 6 := by
        have inside := fits.inside
        have addressed := fits.addressed
        have least := Nat.mul_le_mul_right env.fatlength one
        rw [Nat.zero_mul, w32_of_lt (by omega)]
        omega
      obtain ⟨st₁, state⟩ : ∃ st₁ : St, st₁ = { st with
          card := overlay st.card ((env.partStart + (env.fatSect + 0 * env.fatlength + n * 6)) * env.blksz)
            (min 6 (env.fatlength - n * 6) * env.blksz) st.fatbuf } := ⟨_, rfl⟩
      rw [← state] at write
      have card : st₁.card = overlay st.card ((env.partStart + (env.fatSect + 0 * env.fatlength + n * 6)) * env.blksz)
            (min 6 (env.fatlength - n * 6) * env.blksz) st.fatbuf := by rw [state]
      rw [← card] at away
      have first (a : Nat) (inside : a < env.bytes) :
          env.fat st₁.card 0 a =
            if env.windowOf a = n then st.fatbuf (a % env.windowBytes) else env.fat st.card 0 a := by
        rw [card, fits.fat_write st.card st.fatbuf below inside]
        simp only [true_and]
      have unchanged (a : Nat) (inside : a < env.bytes) : env.fat st₁.card 1 a = env.fat st.card 1 a := by
        rw [card, fits.fat_write st.card st.fatbuf below inside, if_neg (fun both => nomatch both.1)]
      by_cases two : env.numOfFats = 2
      · obtain ⟨write', away'⟩ := fits.diskWrite st₁ st.fatbuf below
          (show 1 < env.copies by rw [Env.copies, if_pos two]; decide)
        have address' : w32 (n * 6 + env.fatSect + env.fatlength) = env.fatSect + 1 * env.fatlength + n * 6 := by
          have inside := fits.inside
          rw [Env.copies, if_pos two] at inside
          have addressed := fits.addressed
          rw [w32_of_lt (by omega)]
          omega
        refine ⟨{ st with
          card := overlay st₁.card ((env.partStart + (env.fatSect + 1 * env.fatlength + n * 6)) * env.blksz)
            (min 6 (env.fatlength - n * 6) * env.blksz) st.fatbuf
          fatDirty := false }, ?_, ready.written window dirty (fun a inside => ?_) (fun _ a inside => ?_)
          (fun a other => (away' a other).trans (away a other)), rfl, window⟩
        · rw [flushDirtyFatBuffer, get_bind]
          simp only [window, dirty, start, size, address, address', if_true, run_bind, write, write', Option.bind_some,
            two]
          simp only [state, window]
          rfl
        · rw [fits.fat_write st₁.card st.fatbuf below inside, if_neg (fun both => nomatch both.1), first a inside]
        · rw [fits.fat_write st₁.card st.fatbuf below inside, unchanged a inside]
          simp only [true_and]
      · refine ⟨{ st with card := st₁.card, fatDirty := false }, ?_, ready.written window dirty first
          (fun both => absurd both two) away, rfl, window⟩
        rw [flushDirtyFatBuffer, get_bind]
        simp only [window, dirty, start, size, address, if_true, bind_of_run write, two, if_false]
        simp only [state, window]
        rfl

theorem loadWindow_run {st : St} {n : Nat} (ready : st.Ready env) (window : env.HasWindow n) :
    ∃ st', loadWindow env n st = some (true, st') ∧ st.Keeps env st' ∧ st'.fatbufnum = some n := by
  by_cases there : st.fatbufnum = some n
  · refine ⟨st, ?_, .refl ready, there⟩
    rw [loadWindow, get_bind]
    simp only [there, if_true]
    rfl
  · obtain ⟨st₁, flush, keeps, clean, -⟩ := flushDirtyFatBuffer_run fits ready
    obtain ⟨start, size⟩ := fits.getsize_eq window
    have below := window.1
    have inside := fits.inside
    have addressed := fits.addressed
    have one : 1 ≤ env.copies := by unfold Env.copies; split <;> decide
    have least := Nat.mul_le_mul_right env.fatlength one
    have address : w32 (n * 6 + env.fatSect) = env.fatSect + n * 6 := by
      rw [w32_of_lt (by omega)]
      omega
    obtain ⟨buf, contents⟩ :
        ∃ buf, buf = diskRead env st₁.card (env.fatSect + n * 6) (min 6 (env.fatlength - n * 6)) st₁.fatbuf := ⟨_, rfl⟩
    have read (a : Nat) (within : a < env.bytes) (here : env.windowOf a = n) :
        buf (a % env.windowBytes) = env.fat st₁.card 0 a := by
      have place := (fits.windowOf_eq_iff below within).mp here
      have rest := Env.window_rest here
      rw [fits.sector] at place
      rw [contents, diskRead, overlay_of_mem (Nat.zero_le _) (by omega), Nat.sub_zero, tail_apply, fits.fat_eq,
        w32_of_lt (by omega), rest, Env.windowBytes, fits.sector]
      have start : (env.partStart + (env.fatSect + n * 6)) * env.blksz =
          (env.partStart + env.fatSect) * env.blksz + n * (env.blksz * 6) := by ring
      have lower : n * (env.blksz * 6) ≤ a := by
        have := place.1
        rwa [Env.windowBytes, fits.sector] at this
      congr 1
      rw [start]
      omega
    have same (a : Nat) (within : a < env.bytes) :
        env.table { st₁ with fatbuf := buf, fatbufnum := some n } a = env.fat st₁.card 0 a := by
      simp only [Env.table, Option.some.injEq]
      split
      · next here => exact read a within here.symm
      · rfl
    refine ⟨{ st₁ with fatbuf := buf, fatbufnum := some n }, ?_, keeps.trans ⟨⟨?_, fun none => (nomatch none), ?_⟩, ?_,
      fun _ _ => rfl, fun two st₀ W mirror => ⟨?_, ?_, mirror.rest⟩⟩, rfl⟩
    · rw [loadWindow, get_bind]
      simp only [there, if_false, start, size, address, bind_of_run flush, if_true]
      have fit : ¬ fatbufblocks < min 6 (env.fatlength - n * 6) := Nat.not_lt.mpr (Nat.min_le_left _ _)
      rw [run_ite, if_neg fit, contents]
      rfl
    · intro m number
      rw [← Option.some.inj number]
      exact window
    · exact fun _ a within => same a within
    · intro a within
      rw [same a within, keeps.ready.clean clean a within]
    · intro marked
      exact absurd (clean.symm.trans marked) Bool.false_ne_true
    · intro a within member _
      exact mirror.done a within member (fun both => absurd (clean.symm.trans both.1) Bool.false_ne_true)

end Window

section Access

variable {env : Env} (fits : env.Fits) {st : St} (ready : st.Ready env) {e : Nat} (there : env.Exists e)
include fits there

theorem Env.Fits.place : ∃ n off, e / env.fatsize.bufsize env.sectSize = n ∧
    e - n * env.fatsize.bufsize env.sectSize = off ∧ env.HasWindow n ∧
    env.fatsize.start e = n * env.windowBytes + env.fatsize.start off ∧ off % 2 = e % 2 ∧
    env.fatsize.start off + env.fatsize.width ≤ env.windowBytes := by
  have four : 4 ∣ env.sectSize := Nat.dvd_trans (by decide) fits.unit
  have width : 0 < env.fatsize.width := by cases env.fatsize <;> decide
  obtain ⟨size, count⟩ : ∃ size, size = env.fatsize.bufsize env.sectSize := ⟨_, rfl⟩
  have least : 512 ≤ size :=
    (Nat.le_of_dvd fits.positive fits.unit).trans (count ▸ FatSize.sect_le_bufsize four env.fatsize)
  have positive : 0 < size := Nat.lt_of_lt_of_le (by decide) least
  have parts : e = e / size * size + e % size := by rw [Nat.mul_comm, Nat.div_add_mod]
  have inside : e % size < env.fatsize.bufsize env.sectSize := count ▸ Nat.mod_lt e positive
  have limit := FatSize.start_lt four env.fatsize inside
  have place : env.fatsize.start e = e / size * env.windowBytes + env.fatsize.start (e % size) := by
    have window := FatSize.start_window four env.fatsize (e / size) (e % size)
    rwa [← count, ← parts] at window
  have alike : e % size % 2 = e % 2 := by
    have alike := FatSize.window_alike four env.fatsize (e / size) (e % size)
    rwa [← count, ← parts] at alike
  have inTable : env.fatsize.start e < env.bytes := by
    have := there.1
    omega
  have below := Env.windowOf_lt inTable
  rw [place, (fits.window_add (e / size) (show _ < env.windowBytes by unfold Env.windowBytes; omega)).1] at below
  have small : e / size * 6 + 6 < 2 ^ 32 := by
    have word := there.2
    have quotient : e / size ≤ e / 512 := Nat.div_le_div_left least (by decide)
    omega
  exact ⟨e / size, e % size, by rw [count], by rw [← count]; omega, ⟨below, small⟩, place, alike, limit⟩

include ready

theorem getFatent_run : ∃ st', getFatent env e st =
      some (if checkClust e env.fatsize then 0 else getEntry (env.table st) e env.fatsize, st') ∧ st.Keeps env st' := by
  by_cases refused : checkClust e env.fatsize = true
  · refine ⟨st, ?_, .refl ready⟩
    rw [getFatent, run_ite, if_pos refused, if_pos refused]
    rfl
  · obtain ⟨n, off, number, offset, below, place, alike, limit⟩ := fits.place there
    obtain ⟨st', load, keeps, window⟩ := loadWindow_run fits ready below
    refine ⟨st', ?_, keeps⟩
    rw [getFatent, run_ite, if_neg refused, if_neg refused]
    simp only [number, offset, bind_of_run load, if_true, get_bind]
    have value : getEntry st'.fatbuf off env.fatsize = getEntry (env.table st) e env.fatsize := by
      refine getEntry_congr (fun i small => ?_) alike
      have byte : env.fatsize.start e + i < env.bytes := by
        have := there.1
        omega
      have here := fits.window_add n (show env.fatsize.start off + i < env.windowBytes by omega)
      rw [← keeps.table _ byte, Env.table, place, Nat.add_assoc, here.1, here.2, if_pos window]
    rw [value]
    rfl

theorem setFatentValue_run (v : Nat) : ∃ st', setFatentValue env e v st = some (0, st') ∧ st.Sets env e v st' := by
  obtain ⟨n, off, number, offset, below, place, alike, limit⟩ := fits.place there
  obtain ⟨st₁, load, keeps, window⟩ := loadWindow_run fits ready below
  have outside (a : Nat) (inside : a < env.bytes) (other : env.windowOf a ≠ n) :
      putEntry (env.table st) e v env.fatsize a = env.table st a := by
    refine putEntry_outside ?_
    by_contra within
    have small : a - n * env.windowBytes < env.windowBytes := by omega
    have here := (fits.window_add n small).1
    rw [Nat.add_sub_cancel' (by omega)] at here
    exact other here
  refine ⟨{ st₁ with fatDirty := true, fatbuf := putEntry st₁.fatbuf off v env.fatsize }, ?_,
    ⟨keeps.ready.window, fun none => ?_, fun unmarked => (nomatch unmarked)⟩, fun a inside => ?_, keeps.outside,
    fun two st₀ W mirror => ⟨fun _ m here => ?_, fun a inside member away => ?_, fun a inside other => ?_⟩⟩
  · rw [setFatentValue]
    simp only [number, offset, bind_of_run load, if_true, modify_bind]
    rfl
  · exact absurd (window.symm.trans none) (Option.some_ne_none n)
  · simp only [Env.table, window]
    by_cases here : env.windowOf a = n
    · rw [if_pos (by rw [here])]
      have whole : n * env.windowBytes + a % env.windowBytes = a := by
        rw [← here, Env.windowOf, Nat.mul_comm, Nat.div_add_mod]
      have byte : st₁.fatbuf (a % env.windowBytes) = env.table st (n * env.windowBytes + a % env.windowBytes) := by
        rw [whole, ← keeps.table a inside, Env.table, if_pos (by rw [window, here])]
      have shifted : putEntry st₁.fatbuf off v env.fatsize (a % env.windowBytes) = _ := putEntry_shift place alike byte
      rw [whole] at shifted
      exact shifted
    · rw [if_neg (fun same => here (Option.some.inj same).symm)]
      have kept := keeps.table a inside
      rw [Env.table, window, if_neg (fun same => here (Option.some.inj same).symm)] at kept
      rw [kept]
      exact (outside a inside here).symm
  · rw [number]
    exact .inr (Option.some.inj (here.symm.trans window))
  · have mirror₁ := keeps.mirror two st₀ W mirror
    have elsewhere : env.windowOf a ≠ n := fun here => away ⟨rfl, by rw [here]; exact window⟩
    refine mirror₁.done a inside (member.resolve_right (by rw [number]; exact elsewhere)) (fun both => ?_)
    exact elsewhere (Option.some.inj (both.2.symm.trans window))
  · exact (keeps.mirror two st₀ W mirror).rest a inside (fun member => other (.inl member))

end Access

end UuuFastboot.Fat
