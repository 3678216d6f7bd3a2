import UuuFastboot.Fat.Contents
import UuuFastboot.Fat.TableSpec

namespace UuuFastboot.Fat

open Word Overlay Bytes Partial

namespace Env

variable (env : Env)

/-- The first sector behind the tables and the root directory, that of the cluster 2. -/
def dataSect : Nat := w32 (env.dataBegin + 2 * env.clustSize)

def clusterBytes : Nat := env.clustSize * env.sectSize

def clusterAddr (c : Nat) : Nat := (env.partStart + (env.dataSect + (c - 2) * env.clustSize)) * env.blksz

/-- The clusters from 2 to `last` lie in the volume behind the tables, and the table has entries for them. -/
structure Area (last : Nat) : Prop extends Fits env where
  size : 0 < env.clustSize
  byte : env.clustSize < 2 ^ 8
  short : env.sectSize < 2 ^ 16
  behind : env.fatSect + env.copies * env.fatlength ≤ env.dataSect
  ends : env.dataSect + (last - 1) * env.clustSize ≤ env.totalSector
  there : env.Exists last
  valid : last < env.fatsize.reserved

/-- The entry of the table for a cluster, with the window in memory in its place. -/
def value (st : St) (e : Nat) : Nat := getEntry (env.table st) e env.fatsize

end Env

theorem Env.Exists.mono {env : Env} {c d : Nat} (there : env.Exists d) (order : c ≤ d) : env.Exists c := by
  refine ⟨le_trans (Nat.add_le_add_right ?_ _) there.1, lt_of_le_of_lt order there.2⟩
  cases env.fatsize <;> simp only [FatSize.start] <;> omega

section Area

variable {env : Env} {last : Nat} (area : env.Area last)
variable {c m size sect n : Nat}
include area

theorem Env.Area.clusterBytes_pos : 0 < env.clusterBytes := Nat.mul_pos area.size area.positive

theorem Env.Area.bytesperclust_eq : env.bytesperclust = env.clusterBytes := by
  refine w32_of_lt ?_
  calc env.clustSize * env.sectSize < 2 ^ 8 * 2 ^ 16 := Nat.mul_lt_mul'' area.byte area.short
    _ < 2 ^ 32 := by decide

theorem Env.Area.exists_ (here : c ≤ last) : env.Exists c := area.there.mono here

omit area in
theorem not_checkClust (two : 2 ≤ c) (valid : c < env.fatsize.reserved) : checkClust c env.fatsize = false :=
  decide_eq_false (by omega)

theorem Env.Area.not_checkClust (two : 2 ≤ c) (here : c ≤ last) : checkClust c env.fatsize = false :=
  Fat.not_checkClust two (lt_of_le_of_lt here area.valid)

theorem Env.Area.startsect_eq (two : 2 ≤ c) (here : c ≤ last) :
    startsect env c = env.dataSect + (c - 2) * env.clustSize := by
  have ends := area.ends
  have addressed := area.addressed
  have before := Nat.mul_le_mul_right env.clustSize (show c - 2 ≤ last - 1 by omega)
  obtain ⟨k, rfl⟩ : ∃ k, c = 2 + k := ⟨c - 2, by omega⟩
  rw [startsect, if_pos (by omega), Nat.add_mul, ← Nat.add_assoc, Nat.add_sub_cancel_left]
  rw [Nat.add_sub_cancel_left] at before
  rw [w32_add_congr (show w32 (env.dataBegin + 2 * env.clustSize) = w32 env.dataSect from (w32_w32 _).symm), w32_of_lt]
  omega

theorem Env.Area.clusterAddr_add (two : 2 ≤ c) (k : Nat) :
    env.clusterAddr (c + k) = env.clusterAddr c + k * env.clusterBytes := by
  obtain ⟨d, rfl⟩ : ∃ d, c = 2 + d := ⟨c - 2, by omega⟩
  rw [Env.clusterAddr, Env.clusterAddr, Env.clusterBytes, area.sector, show 2 + d + k - 2 = d + k by omega,
    Nat.add_sub_cancel_left]
  ring

omit area in
theorem Env.clusterAddr_mono {d : Nat} (order : c ≤ d) : env.clusterAddr c ≤ env.clusterAddr d := by
  refine Nat.mul_le_mul_right _ (Nat.add_le_add_left (Nat.add_le_add_left (Nat.mul_le_mul_right _ ?_) _) _)
  omega

theorem Env.Area.outside {a : Nat} (behind : env.clusterAddr c ≤ a) : env.Outside a := by
  refine .inr (le_trans (Nat.mul_le_mul_right _ ?_) behind)
  have := area.behind
  omega

theorem Env.Area.sectors (two : 2 ≤ c) (here : c + m ≤ last + 1) (positive : 0 < m)
    (few : size ≤ m * env.clusterBytes) : ∃ sect idx rest, startsect env c = sect ∧ size / env.sectSize = idx ∧
      size - idx * env.sectSize = rest ∧ size = idx * env.sectSize + rest ∧ rest < env.sectSize ∧
      env.clusterAddr c = (env.partStart + sect) * env.sectSize ∧ sect + idx ≤ env.totalSector ∧
      (0 < rest → sect + idx + 1 ≤ env.totalSector ∧ (idx + 1) * env.sectSize ≤ m * env.clusterBytes) := by
  have sectPos := area.positive
  obtain ⟨idx, count⟩ : ∃ idx, size / env.sectSize = idx := ⟨_, rfl⟩
  have parts : size = idx * env.sectSize + size % env.sectSize := by rw [← count, Nat.mul_comm, Nat.div_add_mod]
  have small := Nat.mod_lt size sectPos
  have bytes : m * env.clusterBytes = m * env.clustSize * env.sectSize := by rw [Env.clusterBytes, Nat.mul_assoc]
  have ends := area.ends
  have more := Nat.mul_le_mul_right env.clustSize (show c - 2 + m ≤ last - 1 by omega)
  rw [Nat.add_mul] at more
  rw [bytes] at few
  have whole : idx ≤ m * env.clustSize := Nat.le_of_mul_le_mul_right (by omega) sectPos
  refine ⟨_, idx, _, area.startsect_eq two (by omega), count, rfl, by omega, by omega, by rw [Env.clusterAddr, area.sector],
    by omega, fun some_ => ?_⟩
  have next : idx + 1 ≤ m * env.clustSize := Nat.lt_of_mul_lt_mul_right (show idx * env.sectSize < _ by omega)
  exact ⟨by omega, bytes ▸ Nat.mul_le_mul_right env.sectSize next⟩

theorem diskWrite_run (inside : sect + n ≤ env.totalSector) (buf : Buf) (st : St) :
    diskWrite env sect n buf st =
      some (true, { st with card := overlay st.card ((env.partStart + sect) * env.blksz) (n * env.blksz) buf }) := by
  have addressed := area.addressed
  rw [diskWrite, w32_of_lt (by omega), w32_of_lt (by omega), w32_of_lt (by omega), if_neg (by omega)]

theorem writeSectors_run (inside : sect + n ≤ env.totalSector) (buf : Buf) (st : St) :
    writeSectors env n sect buf st =
      some (true, { st with card := overlay st.card ((env.partStart + sect) * env.blksz) (n * env.blksz) buf }) := by
  have sector := area.sector
  induction n generalizing sect buf st with
  | zero =>
    rw [Nat.zero_mul, overlay_zero]
    rfl
  | succ n ih =>
    have addressed := area.addressed
    rw [writeSectors, bind_of_run (diskWrite_run area (show sect + 1 ≤ _ by omega) _ _)]
    rw [if_pos rfl, w32_of_lt (by omega), ih (by omega), Nat.one_mul]
    congr 3
    have next : (env.partStart + (sect + 1)) * env.blksz = (env.partStart + sect) * env.blksz + env.blksz := by ring
    rw [next, Nat.succ_mul, sector]
    generalize (env.partStart + sect) * env.blksz = start
    generalize n * env.blksz = len
    funext a
    simp only [overlay, tail_apply]
    split_ifs <;> first | omega | (congr 1; omega) | rfl

theorem setCluster_run (two : 2 ≤ c) (here : c + m ≤ last + 1) (positive : 0 < m)
    (few : size ≤ m * env.clusterBytes) (buffer : Buf) (addr : Nat) (st : St) :
    ∃ card, setCluster env c buffer addr size st = some (true, { st with card := card }) ∧
      (∀ i < size, card (env.clusterAddr c + i) = buffer i) ∧
      ∀ a, (a < env.clusterAddr c ∨ env.clusterAddr c + m * env.clusterBytes ≤ a) → card a = st.card a := by
  obtain ⟨sect, idx, rest, start, count, bytes, parts, small, addr_eq, inside, room⟩ := area.sectors two here positive few
  have addressed := area.addressed
  have first : writeWhole env sect buffer addr size st =
      some (true, { st with card := overlay st.card (env.clusterAddr c) (idx * env.sectSize) buffer }) := by
    rw [writeWhole, count, addr_eq, area.sector]
    split
    · exact writeSectors_run area inside buffer st
    · split
      · exact diskWrite_run area inside buffer st
      · next few =>
        have none : idx = 0 := by
          rw [← count]
          exact Nat.div_eq_of_lt (by rw [area.sector]; omega)
        rw [none, Nat.zero_mul, overlay_zero]
        rfl
  by_cases none : rest = 0
  · refine ⟨overlay st.card (env.clusterAddr c) (idx * env.sectSize) buffer, ?_, fun i below => ?_, fun a away => ?_⟩
    · rw [setCluster]
      simp only [start, count, bytes, none]
      rw [bind_of_run first]
      rfl
    · rw [overlay_of_mem (by omega) (by omega), Nat.add_sub_cancel_left]
    · rw [overlay, if_neg (by omega)]
  · obtain ⟨inside', lastBytes⟩ := room (Nat.pos_of_ne_zero none)
    rw [Nat.succ_mul] at lastBytes
    have place : (env.partStart + (sect + idx)) * env.blksz = env.clusterAddr c + idx * env.sectSize := by
      rw [addr_eq, area.sector]
      ring
    refine ⟨overlay (overlay st.card (env.clusterAddr c) (idx * env.sectSize) buffer)
      (env.clusterAddr c + idx * env.sectSize) env.sectSize (overlay env.stack 0 rest (tail buffer (idx * env.sectSize))),
      ?_, fun i below => ?_, fun a away => ?_⟩
    · rw [setCluster]
      simp only [start, count, bytes, if_neg none]
      rw [bind_of_run first, if_pos rfl, w32_of_lt (by omega), diskWrite_run area (by omega), place,
        Nat.one_mul, area.sector]
    · by_cases front : i < idx * env.sectSize
      · rw [overlay_of_lt (by omega), overlay_of_mem (by omega) (by omega), Nat.add_sub_cancel_left]
      · rw [overlay_of_mem (by omega) (by omega), overlay_of_mem (by omega) (by omega), tail_apply]
        congr 1
        omega
    · rw [overlay, if_neg (by omega), overlay, if_neg (by omega)]

theorem readSectors_eq {off : Nat} (inside : sect + n ≤ env.totalSector) (card buf : Buf) :
    readSectors env card n sect buf off =
      overlay buf off (n * env.sectSize) (tail card ((env.partStart + sect) * env.sectSize)) := by
  have sector := area.sector
  have addressed := area.addressed
  induction n generalizing sect buf off with
  | zero =>
    rw [Nat.zero_mul, overlay_zero]
    rfl
  | succ n ih =>
    rw [readSectors, w32_of_lt (show sect + 1 < 2 ^ 32 by omega), ih (by omega), diskRead,
      w32_of_lt (show env.partStart + sect < 2 ^ 32 by omega), ← sector, Nat.one_mul, Nat.succ_mul]
    have next : (env.partStart + (sect + 1)) * env.sectSize = (env.partStart + sect) * env.sectSize + env.sectSize := by
      ring
    rw [next]
    generalize (env.partStart + sect) * env.sectSize = start
    generalize n * env.sectSize = len
    funext a
    simp only [overlay, tail_apply]
    split_ifs <;> first | omega | (congr 1; omega) | rfl

theorem getCluster_eq (two : 2 ≤ c) (here : c + m ≤ last + 1) (positive : 0 < m)
    (few : size ≤ m * env.clusterBytes) (card buffer : Buf) (off addr : Nat) :
    getCluster env card c buffer off addr size = overlay buffer off size (tail card (env.clusterAddr c)) := by
  obtain ⟨sect, idx, rest, start, count, bytes, parts, small, addr_eq, inside, room⟩ := area.sectors two here positive few
  have addressed := area.addressed
  have first : (if addr % archDmaMinalign ≠ 0 then readSectors env card idx sect buffer off
      else diskReadAt env card sect idx buffer off) =
        overlay buffer off (idx * env.sectSize) (tail card (env.clusterAddr c)) := by
    split
    · rw [readSectors_eq area inside, addr_eq]
    · rw [diskReadAt, w32_of_lt (by omega), addr_eq, area.sector]
  rw [getCluster]
  simp only [start, count, bytes, first]
  split
  · next none => rw [parts, none, Nat.add_zero]
  · next some =>
    have inside' := (room (Nat.pos_of_ne_zero some)).1
    have place : (env.partStart + (sect + idx)) * env.blksz = env.clusterAddr c + idx * env.sectSize := by
      rw [addr_eq, area.sector]
      ring
    rw [diskRead, w32_of_lt (show sect + idx < 2 ^ 32 by omega), w32_of_lt (by omega), place, parts, Nat.one_mul,
      ← area.sector]
    funext a
    simp only [overlay, tail_apply]
    split_ifs <;> first | omega | (congr 1; omega) | rfl

end Area

end UuuFastboot.Fat
