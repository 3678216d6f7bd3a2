import UuuFastboot.Fat.Chain

namespace UuuFastboot.Fat

open Word Overlay Bytes Partial

/-- Following the table from the first of the clusters gives them one after the other, and the last one has the mark. -/
def Follows (T : Nat → Nat) (mark : Nat) : List Nat → Prop
  | [] => True
  | [a] => T a = mark
  | a :: b :: l => T a = b ∧ Follows T mark (b :: l)

variable {T : Nat → Nat} {mark : Nat} {l : List Nat}

theorem Follows.congr {T' : Nat → Nat} (follows : Follows T mark l)
    (same : ∀ a ∈ l, T' a = T a) : Follows T' mark l := by
  induction l with
  | nil => trivial
  | cons a l ih =>
    have first := same a List.mem_cons_self
    cases l with
    | nil => exact first.trans follows
    | cons b l => exact ⟨first.trans follows.1, ih follows.2 (fun c member => same c (List.mem_cons_of_mem _ member))⟩

theorem Follows.drop {c : Nat} {front : List Nat} (follows : Follows T mark (front ++ c :: l)) :
    Follows T mark (c :: l) := by
  induction front with
  | nil => exact follows
  | cons a front ih =>
    cases front with
    | nil => exact follows.2
    | cons b front => exact ih follows.2

theorem newLink_follows (distinct : l.Nodup) :
    Follows (fun e => (newLink mark l e).getD (T e)) mark l := by
  induction l with
  | nil => trivial
  | cons a l ih =>
    obtain ⟨other, rest⟩ := List.nodup_cons.mp distinct
    cases l with
    | nil => exact congrArg (Option.getD · _) (if_pos rfl)
    | cons b l =>
      refine ⟨congrArg (Option.getD · _) (if_pos rfl), (ih rest).congr (fun e member => ?_)⟩
      rw [newLink.eq_def mark (a :: b :: l)]
      have away : e ≠ a := fun same => other (same ▸ member)
      simp only [if_neg away]

section Area

variable {env : Env} {last : Nat} (area : env.Area last)
variable {st : St} {mark : Nat}
include area

theorem getFatent_cluster {c : Nat} (ready : st.Ready env) (two : 2 ≤ c) (inside : c ≤ last) :
    ∃ st', getFatent env c st = some (env.value st c, st') ∧ st.Keeps env st' := by
  obtain ⟨st', call, keeps⟩ := getFatent_run area.toFits ready (area.exists_ inside)
  rw [area.not_checkClust two inside, if_neg Bool.false_ne_true] at call
  exact ⟨st', call, keeps⟩

theorem Env.Area.fileByte_kept {st' : St} (keeps : st.Keeps env st') (cs : List Nat) (p : Nat) :
    st'.card (env.fileByte cs p) = st.card (env.fileByte cs p) :=
  keeps.outside _ (area.outside (Nat.le_add_right _ _))

theorem St.Keeps.follows {st' : St} (keeps : st.Keeps env st') {cs : List Nat}
    (inside : ∀ c ∈ cs, 2 ≤ c ∧ c ≤ last) (follows : Follows (env.value st) mark cs) :
    Follows (env.value st') mark cs :=
  follows.congr (fun c member => keeps.value (area.exists_ (inside c member).2))

theorem collected_run {fuel cur m filesize off addr : Nat} {buffer : Buf} (two : 2 ≤ cur) (some_ : 0 < m)
    (inside : cur + m ≤ last + 1) (small : filesize < 2 ^ 31) (few : filesize ≤ m * env.clusterBytes) (l : List Nat) :
    getContentsLoop env addr (fuel + 1) cur (cur + m - 1) (m * env.clusterBytes) filesize off buffer st =
      some ((off + filesize,
        overlay buffer off filesize (fun p => st.card (env.fileByte (List.range' cur m ++ l) p))), st) := by
  rw [getContentsLoop, run_ite, if_neg (Nat.not_lt.mpr few), get_bind, w32_of_lt (by omega),
    getCluster_eq area two inside some_ few]
  rw [overlay_congr (fun p below => ?_)]
  · rfl
  · rw [area.fileByte_run two (by omega), tail_apply]

theorem getContentsLoop_run {addr : Nat} {l : List Nat} :
    ∀ (fuel off : Nat) (buffer : Buf) {cur m filesize : Nat} {st : St},
    st.Ready env → 2 ≤ cur → 0 < m → cur + m ≤ last + 1 → (∀ c ∈ l, 2 ≤ c ∧ c ≤ last) →
    Follows (env.value st) mark ((cur + m - 1) :: l) → filesize < 2 ^ 31 →
    filesize ≤ (m + l.length) * env.clusterBytes → 0 < fuel → filesize < m * env.clusterBytes + fuel →
    ∃ st', getContentsLoop env addr fuel cur (cur + m - 1) (m * env.clusterBytes) filesize off buffer st =
        some ((off + filesize,
          overlay buffer off filesize (fun p => st.card (env.fileByte (List.range' cur m ++ l) p))), st') ∧
      st.Keeps env st' := by
  induction l with
  | nil =>
    intro fuel off buffer cur m filesize st ready two some_ inside _ _ small few some_fuel fuelled
    obtain ⟨fuel, rfl⟩ : ∃ n, fuel = n + 1 := ⟨fuel - 1, by omega⟩
    exact ⟨st, collected_run area two some_ inside small few [], .refl ready⟩
  | cons f l ih =>
    intro fuel off buffer cur m filesize st ready two some_ inside clusters follows small few some_fuel fuelled
    obtain ⟨fuel, rfl⟩ : ∃ n, fuel = n + 1 := ⟨fuel - 1, by omega⟩
    by_cases short : filesize ≤ m * env.clusterBytes
    · exact ⟨st, collected_run area two some_ inside small short (f :: l), .refl ready⟩
    · have positive := area.clusterBytes_pos
      rw [List.length_cons] at few
      have parts : (m + (l.length + 1)) * env.clusterBytes =
          m * env.clusterBytes + (1 + l.length) * env.clusterBytes := by ring
      obtain ⟨twoF, belowF⟩ := clusters f List.mem_cons_self
      have later : ∀ c ∈ l, 2 ≤ c ∧ c ≤ last := fun c member => clusters c (List.mem_cons_of_mem _ member)
      obtain ⟨st₁, call, keeps⟩ := getFatent_cluster area ready (show 2 ≤ cur + m - 1 by omega) (by omega)
      rw [follows.1] at call
      have follows₁ := keeps.follows area clusters follows.2
      have word := (area.exists_ belowF).2
      have previous : w32 (f + minusOne) = f - 1 := by
        unfold w32 minusOne
        omega
      rw [getContentsLoop, run_ite, if_pos (by omega), bind_of_run call]
      simp only [previous]
      by_cases next : f = cur + m
      · -- the cluster is added to those that are collected
        subst next
        obtain ⟨st', run, kept⟩ := ih fuel off buffer keeps.ready two (show 0 < m + 1 from Nat.succ_pos m)
          (show cur + (m + 1) ≤ last + 1 by omega) later follows₁ small
          (by rw [Nat.add_assoc, Nat.add_comm 1]; exact few) (by omega) (by rw [Nat.succ_mul]; omega)
        refine ⟨st', ?_, keeps.trans kept⟩
        rw [run_ite, if_neg (not_not.mpr rfl), run_ite, area.not_checkClust twoF belowF, if_neg Bool.false_ne_true,
          area.bytesperclust_eq, ← Nat.succ_mul]
        refine run.trans ?_
        simp only [List.range'_1_concat, List.append_assoc, List.singleton_append, area.fileByte_kept keeps]
      · -- what is collected is read, and the cluster begins a new part
        obtain ⟨st₂, again, keeps₂⟩ := getFatent_cluster area keeps.ready (show 2 ≤ cur + m - 1 by omega) (by omega)
        rw [keeps.value (area.exists_ (show cur + m - 1 ≤ last by omega)), follows.1] at again
        have both := keeps.trans keeps₂
        obtain ⟨st', run, kept⟩ := ih fuel (off + m * env.clusterBytes)
          (overlay buffer off (m * env.clusterBytes) (tail st₁.card (env.clusterAddr cur))) keeps₂.ready twoF
          Nat.one_pos (show f + 1 ≤ last + 1 by omega) later
          (by rw [Nat.add_sub_cancel]; exact both.follows area clusters follows.2)
          (show filesize - m * env.clusterBytes < 2 ^ 31 by omega) (by omega) (by omega) (by omega)
        refine ⟨st', ?_, both.trans kept⟩
        have total : off + m * env.clusterBytes + (filesize - m * env.clusterBytes) = off + filesize := by omega
        have size : m * env.clusterBytes + (filesize - m * env.clusterBytes) = filesize := by omega
        rw [Nat.add_sub_cancel, Nat.one_mul, total, overlay_append, size] at run
        rw [run_ite, if_pos (by omega), get_bind, w32_of_lt (by omega),
          getCluster_eq area two inside some_ (le_refl _), bind_of_run again, run_ite,
          area.not_checkClust twoF belowF, if_neg Bool.false_ne_true, area.bytesperclust_eq]
        refine run.trans ?_
        rw [overlay_congr (fun p below => ?_)]
        split
        · next front =>
          rw [area.fileByte_run two front, tail_apply]
          exact keeps.outside _ (area.outside (Nat.le_add_right _ _))
        · next behind =>
          obtain ⟨q, rfl⟩ : ∃ q, p = m * env.clusterBytes + q := ⟨p - m * env.clusterBytes, by omega⟩
          have place := Env.fileByte_append (List.range' cur m) (f :: l) q positive
          rw [List.length_range'] at place
          rw [place, Nat.add_sub_cancel_left, List.range'_one, List.singleton_append, area.fileByte_kept both]

theorem seekCluster_run (pos : Nat) {cs : List Nat} : ∀ (fuel i : Nat) {c : Nat} {st : St}, st.Ready env →
    (∀ d ∈ c :: cs, 2 ≤ d ∧ d ≤ last) → Follows (env.value st) mark (c :: cs) →
    i * env.clusterBytes ≤ pos → pos < (i + (cs.length + 1)) * env.clusterBytes → pos / env.clusterBytes < i + fuel →
    ∃ d front rest st', c :: cs = front ++ d :: rest ∧ i + front.length = pos / env.clusterBytes ∧
      seekCluster env pos fuel ((i + 1) * env.clusterBytes) c st =
        some (some ((pos / env.clusterBytes + 1) * env.clusterBytes, d), st') ∧
      st.Keeps env st' := by
  have positive := area.clusterBytes_pos
  have found {i : Nat} (lower : i * env.clusterBytes ≤ pos) (upper : pos < (i + 1) * env.clusterBytes) :
      pos / env.clusterBytes = i := Nat.div_eq_of_lt_le lower upper
  induction cs with
  | nil =>
    intro fuel i c st ready clusters follows lower upper fuelled
    have least := (Nat.le_div_iff_mul_le positive).mpr lower
    obtain ⟨fuel, rfl⟩ : ∃ n, fuel = n + 1 := ⟨fuel - 1, by omega⟩
    rw [List.length_nil, Nat.zero_add] at upper
    refine ⟨c, [], [], st, rfl, (found lower upper).symm, ?_, .refl ready⟩
    rw [seekCluster, run_ite, if_neg (by omega), found lower upper]
    rfl
  | cons b cs ih =>
    intro fuel i c st ready clusters follows lower upper fuelled
    have least := (Nat.le_div_iff_mul_le positive).mpr lower
    obtain ⟨fuel, rfl⟩ : ∃ n, fuel = n + 1 := ⟨fuel - 1, by omega⟩
    by_cases here : pos < (i + 1) * env.clusterBytes
    · refine ⟨c, [], b :: cs, st, rfl, (found lower here).symm, ?_, .refl ready⟩
      rw [seekCluster, run_ite, if_neg (by omega), found lower here]
      rfl
    · obtain ⟨two, inside⟩ := clusters c List.mem_cons_self
      have later : ∀ d ∈ b :: cs, 2 ≤ d ∧ d ≤ last := fun d member => clusters d (List.mem_cons_of_mem _ member)
      obtain ⟨twoB, insideB⟩ := later b List.mem_cons_self
      obtain ⟨st₁, call, keeps⟩ := getFatent_cluster area ready two inside
      rw [follows.1] at call
      rw [List.length_cons] at upper
      obtain ⟨d, front, rest, st', split, number, run, kept⟩ := ih fuel (i + 1) keeps.ready later
        (keeps.follows area later follows.2) (by omega)
        (by rw [Nat.add_assoc, Nat.add_comm 1]; exact upper) (by omega)
      refine ⟨d, c :: front, rest, st', by rw [split]; rfl, by rw [List.length_cons]; omega, ?_, keeps.trans kept⟩
      rw [seekCluster, run_ite, if_pos (by omega), bind_of_run call, run_ite,
        area.not_checkClust twoB insideB, if_neg Bool.false_ne_true, area.bytesperclust_eq, ← Nat.succ_mul]
      exact run

theorem getFrom_run {c r n : Nat} {l : List Nat} (ready : st.Ready env)
    (clusters : ∀ d ∈ c :: l, 2 ≤ d ∧ d ≤ last) (follows : Follows (env.value st) mark (c :: l))
    (within : r < env.clusterBytes) (some_ : 0 < n) (small : r + n < 2 ^ 31)
    (few : r + n ≤ (l.length + 1) * env.clusterBytes) (room : r ≠ 0 → min (r + n) env.clusterBytes ≤ maxClustsize)
    (buffer : Buf) (addr : Nat) :
    ∃ st', getFrom env c (r + n) r buffer addr st =
      some ((n, overlay buffer 0 n (fun p => st.card (env.fileByte (c :: l) (r + p)))), st') := by
  obtain ⟨two, inside⟩ := clusters c List.mem_cons_self
  have later : ∀ d ∈ l, 2 ≤ d ∧ d ≤ last := fun d member => clusters d (List.mem_cons_of_mem _ member)
  by_cases aligned : r = 0
  · subst aligned
    rw [Nat.zero_add] at few small
    obtain ⟨st', run, -⟩ := getContentsLoop_run area (n + 1) 0 buffer ready two Nat.one_pos
      (show c + 1 ≤ last + 1 by omega) later (by rwa [Nat.add_sub_cancel]) small (by rwa [Nat.add_comm]) (by omega) (by omega)
    refine ⟨st', ?_⟩
    simp only [Nat.zero_add]
    rw [Nat.add_sub_cancel, Nat.one_mul, List.range'_one, List.singleton_append, Nat.zero_add] at run
    rw [getFrom, run_ite, if_pos rfl, area.bytesperclust_eq]
    exact run
  · obtain ⟨a, part⟩ : ∃ a, a = min (r + n) env.clusterBytes := ⟨_, rfl⟩
    have fits := room aligned
    rw [← part] at fits
    have front (p : Nat) (below : p < a - r) :
        tail (overlay env.stack 0 a (tail st.card (env.clusterAddr c))) r p =
          st.card (env.fileByte (c :: l) (r + p)) := by
      have place := area.fileByte_run (m := 1) (p := r + p) two (by omega) l
      rw [List.range'_one, List.singleton_append] at place
      rw [place, tail_apply, overlay_of_mem (Nat.zero_le _) (by omega), Nat.sub_zero, tail_apply]
    rw [getFrom, run_ite, if_neg aligned, area.bytesperclust_eq]
    simp only [← part]
    rw [run_ite, if_neg (Nat.not_lt.mpr fits), get_bind, w32_of_lt (by omega),
      getCluster_eq area two (show c + 1 ≤ last + 1 by omega) Nat.one_pos (by omega)]
    by_cases ends : r + n - a = 0
    · have whole : a - r = n := by omega
      refine ⟨st, ?_⟩
      rw [run_ite, if_pos ends, whole, overlay_congr (fun p below => front p (by omega))]
      rfl
    · -- the clusters behind
      have full : a = env.clusterBytes := by omega
      obtain ⟨b, l', rfl⟩ : ∃ b l', l = b :: l' := by
        cases l with
        | nil =>
          rw [List.length_nil, Nat.zero_add, Nat.one_mul] at few
          omega
        | cons b l' => exact ⟨b, l', rfl⟩
      obtain ⟨twoB, insideB⟩ := later b List.mem_cons_self
      obtain ⟨st₁, call, keeps⟩ := getFatent_cluster area ready two inside
      rw [follows.1] at call
      rw [List.length_cons] at few
      have parts : (l'.length + 1 + 1) * env.clusterBytes =
          env.clusterBytes + (1 + l'.length) * env.clusterBytes := by ring
      obtain ⟨st', run, -⟩ := getContentsLoop_run area (r + n - a + 1) (a - r)
        (overlay buffer 0 (a - r) (tail (overlay env.stack 0 a (tail st.card (env.clusterAddr c))) r))
        keeps.ready twoB Nat.one_pos (show b + 1 ≤ last + 1 by omega)
        (fun d member => later d (List.mem_cons_of_mem _ member))
        (by rw [Nat.add_sub_cancel]; exact keeps.follows area later follows.2) (show r + n - a < 2 ^ 31 by omega)
        (by omega) (by omega) (by omega)
      refine ⟨st', ?_⟩
      have total : a - r + (r + n - a) = n := by omega
      have append := overlay_append buffer (tail (overlay env.stack 0 a (tail st.card (env.clusterAddr c))) r)
        (fun p => st₁.card (env.fileByte (b :: l') p)) 0 (a - r) (r + n - a)
      rw [Nat.zero_add, total] at append
      rw [Nat.add_sub_cancel, Nat.one_mul, List.range'_one, List.singleton_append, total, append] at run
      rw [run_ite, if_neg ends, bind_of_run call, run_ite, area.not_checkClust twoB insideB,
        if_neg Bool.false_ne_true]
      refine run.trans ?_
      rw [overlay_congr (fun p below => ?_)]
      split
      · next before => exact front p before
      · next behind =>
        have place := Env.fileByte_append [c] (b :: l') (p - (a - r)) area.clusterBytes_pos
        rw [List.length_singleton, Nat.one_mul, List.singleton_append,
          show env.clusterBytes + (p - (a - r)) = r + p by omega] at place
        rw [place, area.fileByte_kept keeps]

end Area

def sliceLength (size pos : Nat) (maxsize : Int) : Nat :=
  (if 0 < maxsize ∧ pos + maxsize.toNat < size then pos + maxsize.toNat else size) - pos

/-- The end of what is to be read is an offset that `loff_t` has, and the part of a cluster from its beginning on, if
`pos` is inside of one, has room in the buffer that is used for it. -/
def Env.ReadFits (env : Env) (size pos : Nat) (maxsize : Int) : Prop :=
  pos < size → (0 < maxsize → pos + maxsize.toNat < 2 ^ 63) ∧
    (pos % env.clusterBytes ≠ 0 →
      min (pos % env.clusterBytes + sliceLength size pos maxsize) env.clusterBytes ≤ maxClustsize)

instance (env : Env) (size pos : Nat) (maxsize : Int) : Decidable (env.ReadFits size pos maxsize) :=
  inferInstanceAs (Decidable (_ → _ ∧ _))

section Contents

variable {env : Env} {last : Nat} (area : env.Area last) {dent : DirEntry} {cs : List Nat} {mark : Nat}
  (head : cs.head? = some (dent.startCluster env.fatsize)) (clusters : ∀ c ∈ cs, 2 ≤ c ∧ c ≤ last)
  (few : dent.size ≤ cs.length * env.clusterBytes)
  {st : St} (ready : st.Ready env) (follows : Follows (env.value st) mark cs)
variable {pos : Nat} {maxsize : Int}
include area head clusters few ready follows

theorem getContents_seek (inFile : pos < dent.size)
    (bounded : 0 < maxsize → pos + maxsize.toNat < 2 ^ 63) (buffer : Buf) (addr : Nat) :
    ∃ c front rest st₁, cs = front ++ c :: rest ∧ front.length = pos / env.clusterBytes ∧ st.Keeps env st₁ ∧
      getContents env dent pos buffer addr maxsize st =
        getFrom env c (pos % env.clusterBytes + sliceLength dent.size pos maxsize) (pos % env.clusterBytes) buffer addr
          st₁ := by
  have positive := area.clusterBytes_pos
  obtain ⟨c, l, rfl⟩ : ∃ c l, cs = c :: l := by
    cases cs with
    | nil => cases head
    | cons c l => exact ⟨c, l, rfl⟩
  rw [List.length_cons] at few
  have start : c = dent.startCluster env.fatsize := Option.some.inj head
  have quotient := Nat.div_le_self pos env.clusterBytes
  obtain ⟨d, front, rest, st₁, split, number, seek, keeps⟩ := seekCluster_run area pos (pos + 1) 0 ready clusters follows
    (by omega) (by rw [Nat.zero_add]; omega) (by omega)
  rw [Nat.zero_add] at number
  refine ⟨d, front, rest, st₁, split, number, keeps, ?_⟩
  rw [Nat.zero_add, Nat.one_mul] at seek
  rw [getContents, run_ite, if_neg (Nat.not_le.mpr inFile), run_ite,
    if_neg (fun both => absurd (bounded both.1) (Nat.not_lt.mpr both.2)), run_bind, area.bytesperclust_eq, ← start, seek,
    Option.bind_some]
  simp only [Nat.succ_mul, Nat.add_sub_cancel]
  have whole := Nat.div_add_mod pos env.clusterBytes
  rw [Nat.mul_comm] at whole
  congr 1
  · unfold sliceLength
    split <;> omega
  · omega

theorem getContents_run (small : dent.size < 2 ^ 31)
    (sound : env.ReadFits dent.size pos maxsize) (buffer : Buf) (addr : Nat) :
    ∃ st', getContents env dent pos buffer addr maxsize st =
      some ((sliceLength dent.size pos maxsize,
        overlay buffer 0 (sliceLength dent.size pos maxsize) (fun p => st.card (env.fileByte cs (pos + p)))), st') := by
  obtain ⟨n, length⟩ : ∃ n, n = sliceLength dent.size pos maxsize := ⟨_, rfl⟩
  by_cases past : dent.size ≤ pos
  · have none : n = 0 := by
      rw [length, sliceLength]
      split <;> omega
    refine ⟨st, ?_⟩
    rw [getContents, run_ite, if_pos past, ← length, none, overlay_zero]
    rfl
  · have inFile := Nat.not_le.mp past
    obtain ⟨bounded, room⟩ := sound inFile
    have positive := area.clusterBytes_pos
    obtain ⟨c, front, rest, st₁, rfl, number, keeps, seek⟩ :=
      getContents_seek area head clusters few ready follows inFile bounded buffer addr
    rw [← length] at room seek ⊢
    have whole := Nat.div_add_mod pos env.clusterBytes
    rw [Nat.mul_comm] at whole
    have count : (front ++ c :: rest).length * env.clusterBytes =
        pos / env.clusterBytes * env.clusterBytes + (rest.length + 1) * env.clusterBytes := by
      rw [← Nat.add_mul, ← number, List.length_append, List.length_cons]
    have some_ : 0 < n := by
      rw [length, sliceLength]
      split_ifs <;> omega
    have most : pos + n ≤ dent.size := by
      rw [length, sliceLength]
      split_ifs <;> omega
    have behind : ∀ e ∈ c :: rest, 2 ≤ e ∧ e ≤ last := fun e member => clusters e (List.mem_append_right _ member)
    obtain ⟨st', run⟩ := getFrom_run area keeps.ready behind (keeps.follows area behind follows.drop)
      (Nat.mod_lt pos positive) some_ (by omega) (by omega) room buffer addr
    refine ⟨st', seek.trans (run.trans ?_)⟩
    rw [overlay_congr (fun p below => ?_)]
    have place := Env.fileByte_append front (c :: rest) (pos % env.clusterBytes + p) positive
    rw [number, ← Nat.add_assoc, whole] at place
    rw [area.fileByte_kept keeps, place]

theorem getContents_none (unsound : ¬ env.ReadFits dent.size pos maxsize) (buffer : Buf)
    (addr : Nat) : getContents env dent pos buffer addr maxsize st = none := by
  rw [Env.ReadFits, Classical.not_imp] at unsound
  obtain ⟨inFile, unsound⟩ := unsound
  by_cases bounded : 0 < maxsize → pos + maxsize.toNat < 2 ^ 63
  · obtain ⟨c, front, rest, st₁, -, -, -, seek⟩ :=
      getContents_seek area head clusters few ready follows inFile bounded buffer addr
    obtain ⟨part, large⟩ := Classical.not_imp.mp (fun room => unsound ⟨bounded, room⟩)
    rw [seek, getFrom, run_ite, if_neg part, area.bytesperclust_eq]
    simp only [run_ite]
    rw [if_pos (Nat.not_le.mp large)]
    rfl
  · obtain ⟨positive, large⟩ := Classical.not_imp.mp bounded
    rw [getContents, run_ite, if_neg (Nat.not_le.mpr inFile), run_ite, if_pos ⟨positive, Nat.not_lt.mp large⟩]
    rfl

end Contents

end UuuFastboot.Fat
