import UuuFastboot.Fat.ReadBack
import UuuFastboot.Fat.TableRun

namespace UuuFastboot.Fat

open Word Overlay Bytes Partial

/-- The clusters of a file after it is written: as many as it needs, one after the other in the table with a mark at the
end, and all of them free before, the first one aside. -/
structure St.ChainRight (env : Env) (st : St) (dent : DirEntry) (st₁ : St) (chain : List Nat) : Prop where
  count : chain.length = (dent.size + env.clusterBytes - 1) / env.clusterBytes
  start : chain.head? = some (dent.startCluster env.fatsize)
  distinct : chain.Nodup
  follows : Follows (env.value st₁) env.fatsize.endMark chain
  free : ∀ c ∈ chain, c = dent.startCluster env.fatsize ∨ env.value st c = 0
  rest : ∀ e, env.Exists e → e ∉ chain → env.value st₁ e = env.value st e

/-- `get_contents` gives the part of the data, whatever has been read from the table before. -/
def St.ReadsBack (env : Env) (st₁ : St) (dent : DirEntry) (data : Buf) (pos : Nat) (maxsize : Int) : Prop :=
  ∀ st, st₁.Keeps env st → ∀ buffer addr, ∃ st', getContents env dent pos buffer addr maxsize st =
    some ((sliceLength dent.size pos maxsize, overlay buffer 0 (sliceLength dent.size pos maxsize) (tail data pos)), st')

section RoundTrip

variable {env : Env} {last : Nat} (area : env.Area last) {st : St} (ready : st.Ready env) (dent : DirEntry)
  (two : 2 ≤ dent.startCluster env.fatsize) (inside : dent.startCluster env.fatsize ≤ last) (small : dent.size < 2 ^ 31)
  (enough : (dent.size - 1) / env.clusterBytes ≤
    (freeAfter (env.value st) last (dent.startCluster env.fatsize)).length)
include area ready two inside small enough

theorem setContents_run (data : Buf) (addr : Nat) (maxsize : Int) (whole : maxsize ≤ 0 ∨ dent.size ≤ maxsize.toNat) :
    ∃ st₁ chain, chain = dent.startCluster env.fatsize ::
        (freeAfter (env.value st) last (dent.startCluster env.fatsize)).take ((dent.size - 1) / env.clusterBytes) ∧
      setContents env dent data addr maxsize st = some ((true, dent.size), st₁) ∧
      st.Stored env data (dent.startCluster env.fatsize) dent.size chain chain st₁ := by
  have positive := area.clusterBytes_pos
  obtain ⟨more, count⟩ : ∃ more, more = (dent.size - 1) / env.clusterBytes := ⟨_, rfl⟩
  have product := Nat.div_mul_le_self (dent.size - 1) env.clusterBytes
  have remainder := Nat.lt_div_mul_add positive (a := dent.size - 1)
  have quotient := Nat.div_le_self (dent.size - 1) env.clusterBytes
  rw [← count] at product remainder enough quotient ⊢
  obtain ⟨st₁, run, stored⟩ := setContentsLoop_run area data addr (dent.size + 1) 0 ready two Nat.one_pos
    (show _ + 1 ≤ last + 1 by omega) small
    (show _ ≤ (1 + more) * env.clusterBytes by rw [Nat.add_mul, Nat.one_mul]; omega)
    (fun some_ => by
      rw [Nat.add_sub_cancel_left]
      have : 0 < more * env.clusterBytes := Nat.mul_pos some_ positive
      omega) (by omega) (by rwa [Nat.add_sub_cancel])
  rw [Nat.add_sub_cancel, Nat.one_mul, Nat.zero_add] at run
  rw [Nat.add_sub_cancel, List.range'_one, List.singleton_append] at stored
  refine ⟨st₁, _, rfl, ?_, stored.ready, stored.table, stored.before, fun p below => ?_⟩
  · rw [setContents, if_neg (show ¬ dent.startCluster env.fatsize = 0 by omega), if_neg (by omega), area.bytesperclust_eq]
    exact run
  · exact (stored.contents p below).trans (by rw [tail_apply, Nat.zero_add])

/-- A file that is written comes to as many clusters as it needs exactly if it is not empty, and it is read back as it
was written exactly where the request is one that `get_contents` can deal with. -/
theorem contents_right_iff (data : Buf) (addr : Nat) (maxsize : Int)
    (whole : maxsize ≤ 0 ∨ dent.size ≤ maxsize.toNat) :
    ∃ st₁, setContents env dent data addr maxsize st = some ((true, dent.size), st₁) ∧
      ((∃ chain, st.ChainRight env dent st₁ chain) ↔ 0 < dent.size) ∧
      ∀ pos maxsize, st₁.ReadsBack env dent data pos maxsize ↔ env.ReadFits dent.size pos maxsize := by
  have positive := area.clusterBytes_pos
  obtain ⟨st₁, chain, links, run, stored⟩ :=
    setContents_run area ready dent two inside small enough data addr maxsize whole
  have length : chain.length = (dent.size - 1) / env.clusterBytes + 1 := by
    rw [links, List.length_cons, List.length_take, Nat.min_eq_left enough]
  have behind : ∀ c ∈ chain, c = dent.startCluster env.fatsize ∨
      dent.startCluster env.fatsize < c ∧ c ≤ last ∧ env.value st c = 0 := by
    intro c member
    rw [links] at member
    exact (List.mem_cons.mp member).imp_right (fun rest => mem_freeAfter (List.mem_of_mem_take rest))
  have clusters : ∀ c ∈ chain, 2 ≤ c ∧ c ≤ last := by
    intro c member
    rcases behind c member with rfl | ⟨order, upper, -⟩
    · exact ⟨two, inside⟩
    · exact ⟨by omega, upper⟩
  have distinct : chain.Nodup := by
    have sorted := freeAfter_sorted (env.value st) last (dent.startCluster env.fatsize)
    rw [links]
    exact (sorted.sublist ((List.take_sublist _ _).cons_cons _)).imp Nat.ne_of_lt
  have follows : Follows (env.value st₁) env.fatsize.endMark chain :=
    (newLink_follows (T := env.value st) distinct).congr
      (fun c member => stored.table c (area.exists_ (clusters c member).2))
  have few : dent.size ≤ chain.length * env.clusterBytes := by
    have remainder := Nat.lt_div_mul_add positive (a := dent.size - 1)
    rw [length, Nat.succ_mul]
    omega
  have head : chain.head? = some (dent.startCluster env.fatsize) := by rw [links, List.head?_cons]
  refine ⟨st₁, run, ⟨?_, fun some_ => ⟨chain, ?_, head, distinct, follows, fun c member => ?_, fun e there other => ?_⟩⟩,
    fun pos maxsize => ⟨fun reads => ?_, fun sound st₂ keeps buffer addr' => ?_⟩⟩
  · rintro ⟨chain', right⟩
    by_contra empty
    have none := right.count
    rw [Nat.eq_zero_of_not_pos empty, Nat.zero_add, Nat.div_eq_of_lt (by omega), List.length_eq_zero_iff] at none
    have start := right.start
    rw [none] at start
    cases start
  · rw [length, show dent.size + env.clusterBytes - 1 = dent.size - 1 + env.clusterBytes by omega,
      Nat.add_div_right _ positive]
  · exact (behind c member).imp_right (fun free => free.2.2)
  · rw [stored.table e there, newLink_of_not_mem other, Option.getD_none]
  · by_contra unsound
    obtain ⟨st', result⟩ := reads st₁ (.refl stored.ready) zeros 0
    rw [getContents_none area head clusters few stored.ready follows unsound] at result
    cases result
  · obtain ⟨st', read⟩ := getContents_run area head clusters few keeps.ready (keeps.follows area clusters follows) small
      sound buffer addr'
    refine ⟨st', read.trans ?_⟩
    rw [overlay_congr (fun p below => ?_)]
    rw [area.fileByte_kept keeps]
    refine stored.contents (pos + p) ?_
    unfold sliceLength at below
    split at below <;> omega

end RoundTrip

/-- A file of two clusters on the small volume. -/
theorem smallVolume_roundTrip : smallVolume.Area 20 ∧
    ∃ st₁, setContents smallVolume ⟨5, 0, 1000⟩ (fun i => UInt8.ofNat i) 4 0 ⟨smallCard, zeros, false, none⟩ =
        some ((true, 1000), st₁) ∧
      (∃ chain, St.ChainRight smallVolume ⟨smallCard, zeros, false, none⟩ ⟨5, 0, 1000⟩ st₁ chain) ∧
      st₁.ReadsBack smallVolume ⟨5, 0, 1000⟩ (fun i => UInt8.ofNat i) 500 100 := by
  have area : smallVolume.Area 20 := ⟨⟨smallVolume_laid, rfl⟩, by decide, by decide, by decide, by decide, by decide,
    ⟨by decide, by decide⟩, by decide⟩
  have ready : St.Ready smallVolume ⟨smallCard, zeros, false, none⟩ := St.Fresh.ready ⟨rfl, rfl⟩
  obtain ⟨st₁, run, chain, reads⟩ := contents_right_iff area ready ⟨5, 0, 1000⟩ (by decide) (by decide) (by decide)
    (by decide +kernel) (fun i => UInt8.ofNat i) 4 0 (by decide)
  exact ⟨area, st₁, run, chain.mpr (by decide), (reads 500 100).mpr (by decide +kernel)⟩

def largeVolume : Env where
  partStart := 0
  blksz := 4096
  totalSector := 1024
  numOfFats := 1
  fatsize := .fat12
  fatlength := 1
  fatSect := 1
  rootdirSect := 2
  sectSize := 4096
  clustSize := 32
  dataBegin := 2 ^ 32 - 61
  stack := zeros

/-- An empty file takes a cluster; and a large one is read from its second byte on through a buffer that is too small. -/
theorem contents_wrong :
    (∃ st₁, setContents smallVolume ⟨5, 0, 0⟩ zeros 0 0 ⟨smallCard, zeros, false, none⟩ = some ((true, 0), st₁) ∧
      smallVolume.value st₁ 5 = 0xfff ∧
      ¬ ∃ chain, St.ChainRight smallVolume ⟨smallCard, zeros, false, none⟩ ⟨5, 0, 0⟩ st₁ chain) ∧
    (∃ st₁, setContents largeVolume ⟨2, 0, 70000⟩ zeros 0 0 blank = some ((true, 70000), st₁) ∧
      getContents largeVolume ⟨2, 0, 70000⟩ 1 zeros 0 0 st₁ = none) := by
  constructor
  · refine ⟨_, rfl, by decide +kernel, ?_⟩
    rintro ⟨chain, right⟩
    have none : chain = [] := List.length_eq_zero_iff.mp right.count
    have start := right.start
    rw [none] at start
    cases start
  · have area : largeVolume.Area 5 := ⟨⟨by constructor <;> decide, rfl⟩, by decide, by decide, by decide, by decide,
      by decide, ⟨by decide, by decide⟩, by decide⟩
    have ready : blank.Ready largeVolume := St.Fresh.ready ⟨rfl, rfl⟩
    obtain ⟨st₁, -, -, run, -⟩ := setContents_run area ready ⟨2, 0, 70000⟩ (by decide) (by decide) (by decide)
      (by decide +kernel) zeros 0 0 (by decide)
    exact ⟨st₁, run, rfl⟩

end UuuFastboot.Fat
