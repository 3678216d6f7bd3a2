import UuuFastboot.Ext4.Directory

namespace UuuFastboot.Ext4

open Word Overlay Bytes CString

structure Record where
  inode : Nat
  len : Nat
  name : CStr
  type : Nat
deriving DecidableEq

def recordAt (block : Buf) (off : Nat) : Record :=
  ⟨Dirent.inode block off, Dirent.direntlen block off,
    bytesAt block (off + sizeofDirent) (Dirent.namelen block off), Dirent.filetype block off⟩

namespace Record

def Fits (r : Record) : Prop := 4 ∣ r.len ∧ sizeofDirent + r.name.length ≤ r.len

def Names (name : CStr) (r : Record) : Prop := r.inode ≠ 0 ∧ r.name = name

instance : DecidablePred Fits := fun _ => instDecidableAnd

instance (name : CStr) : DecidablePred (Names name) := fun _ => instDecidableAnd

end Record

def span (rs : List Record) : Nat := (rs.map Record.len).sum

@[simp] theorem span_nil : span [] = 0 := rfl

@[simp] theorem span_cons (r : Record) (rs : List Record) : span (r :: rs) = r.len + span rs := by
  rw [span, List.map_cons, List.sum_cons, span]

@[simp] theorem span_append (rs ss : List Record) : span (rs ++ ss) = span rs + span ss := by
  rw [span, List.map_append, List.sum_append, span, span]

def Tiles (block : Buf) : Nat → List Record → Nat → Prop
  | off, [], last => off = last
  | off, r :: rs, last => recordAt block off = r ∧ r.Fits ∧ Tiles block (off + r.len) rs last

instance decidableTiles (block : Buf) : ∀ off rs last, Decidable (Tiles block off rs last)
  | off, [], last => inferInstanceAs (Decidable (off = last))
  | off, r :: rs, last =>
    have := decidableTiles block (off + r.len) rs last
    inferInstanceAs (Decidable (recordAt block off = r ∧ r.Fits ∧ Tiles block (off + r.len) rs last))

section Bytes

variable {b c : Buf} {off : Nat}

@[simp] theorem length_bytesAt (b : Buf) (off n : Nat) : (bytesAt b off n).length = n := by
  induction n generalizing off with
  | zero => rfl
  | succ n ih => rw [bytesAt, List.length_cons, ih]

theorem bytesAt_congr {p n : Nat} (same : ∀ i < n, b (off + i) = c (p + i)) : bytesAt b off n = bytesAt c p n := by
  induction n generalizing off p with
  | zero => rfl
  | succ n ih =>
    rw [bytesAt, bytesAt, ih (fun i small => ?_)]
    · exact congrArg (· :: _) (same 0 (Nat.succ_pos n))
    · rw [Nat.add_assoc, Nat.add_assoc, Nat.add_comm 1 i]
      exact same (i + 1) (by omega)

theorem bytesAt_eq_of_getD {name : CStr} (same : ∀ i < name.length, b (off + i) = name.getD i 0) :
    bytesAt b off name.length = name := by
  induction name generalizing off with
  | nil => rfl
  | cons x name ih =>
    rw [List.length_cons, bytesAt, ih (fun i small => ?_)]
    · exact congrArg (· :: name) (same 0 (Nat.succ_pos _))
    · rw [Nat.add_assoc, Nat.add_comm 1 i, same (i + 1) (by rw [List.length_cons]; omega), List.getD_cons_succ]

theorem recordAt_congr {p : Nat}
    (same : ∀ i < sizeofDirent + (recordAt b off).name.length, c (p + i) = b (off + i)) :
    recordAt c p = recordAt b off := by
  have header : ∀ i < sizeofDirent, c (p + i) = b (off + i) := fun i small => same i (by omega)
  have size : sizeofDirent = 8 := rfl
  have inode : Dirent.inode c p = Dirent.inode b off := getLe32_congr (fun i small => header i (by omega))
  have len : Dirent.direntlen c p = Dirent.direntlen b off := by
    refine getLe16_congr (fun i small => ?_)
    rw [Nat.add_assoc, Nat.add_assoc]
    exact header (4 + i) (by omega)
  have namelen : Dirent.namelen c p = Dirent.namelen b off := congrArg UInt8.toNat (header 6 (by omega))
  have type : Dirent.filetype c p = Dirent.filetype b off := congrArg UInt8.toNat (header 7 (by omega))
  have name : bytesAt c (p + sizeofDirent) (Dirent.namelen b off) = bytesAt b (off + sizeofDirent) (Dirent.namelen b off) := by
    refine bytesAt_congr (fun i small => ?_)
    rw [Nat.add_assoc, Nat.add_assoc]
    exact same (sizeofDirent + i) (by rw [recordAt, length_bytesAt]; omega)
  rw [recordAt, recordAt, inode, len, namelen, type, name]

theorem recordAt_len_lt : (recordAt b off).len < 2 ^ 16 := getLe16_lt _ _

end Bytes

section Tiles

variable {b c : Buf} {off last : Nat} {rs ss : List Record}

theorem Tiles.last_eq (tiles : Tiles b off rs last) : last = off + span rs := by
  induction rs generalizing off with
  | nil => exact tiles.symm
  | cons r rs ih => rw [ih tiles.2.2, span_cons, Nat.add_assoc]

theorem tiles_append : Tiles b off (rs ++ ss) last ↔ Tiles b off rs (off + span rs) ∧ Tiles b (off + span rs) ss last := by
  induction rs generalizing off with
  | nil => exact ⟨fun tiles => ⟨rfl, tiles⟩, fun tiles => tiles.2⟩
  | cons r rs ih =>
    rw [List.cons_append, Tiles, Tiles, ih, span_cons, Nat.add_assoc]
    constructor
    · rintro ⟨here, fits, first, second⟩
      exact ⟨⟨here, fits, first⟩, second⟩
    · rintro ⟨⟨here, fits, first⟩, second⟩
      exact ⟨here, fits, first, second⟩

theorem Tiles.congr (tiles : Tiles b off rs last) (same : ∀ i, off ≤ i → i < last → c i = b i) : Tiles c off rs last := by
  induction rs generalizing off with
  | nil => exact tiles
  | cons r rs ih =>
    obtain ⟨here, fits, rest⟩ := tiles
    have ends := rest.last_eq
    refine ⟨?_, fits, ih rest (fun i lower upper => same i (by omega) upper)⟩
    rw [← here]
    refine recordAt_congr (fun i small => same (off + i) (by omega) ?_)
    have := fits.2
    rw [here] at small
    omega

theorem Tiles.length_le (tiles : Tiles b off rs last) : off + sizeofDirent * rs.length ≤ last := by
  induction rs generalizing off with
  | nil => exact Nat.le_of_eq tiles
  | cons r rs ih =>
    obtain ⟨here, fits, rest⟩ := tiles
    have bound := ih rest
    have := fits.2
    rw [List.length_cons, Nat.mul_succ]
    omega

theorem Tiles.ne_nil (tiles : Tiles b off rs last) (more : off < last) : rs ≠ [] := by
  rintro rfl
  exact absurd tiles (Nat.ne_of_lt more)

theorem Tiles.unique (tiles : Tiles b off rs last) (tiles' : Tiles b off ss last) : rs = ss := by
  induction rs generalizing off ss with
  | nil =>
    cases ss with
    | nil => rfl
    | cons s ss =>
      have ends := tiles'.2.2.last_eq
      have := tiles'.2.1.2
      have size : sizeofDirent = 8 := rfl
      have start : off = last := tiles
      omega
  | cons r rs ih =>
    cases ss with
    | nil =>
      have ends := tiles.2.2.last_eq
      have := tiles.2.1.2
      have size : sizeofDirent = 8 := rfl
      have start : off = last := tiles'
      omega
    | cons s ss =>
      obtain ⟨here, -, rest⟩ := tiles
      obtain ⟨here', -, rest'⟩ := tiles'
      obtain rfl : r = s := here.symm.trans here'
      rw [ih rest rest']

end Tiles

/-- The search for a live record with a name: its offset and that of the record in front of it. -/
def scanRecords (name : CStr) : Nat → Option Nat → List Record → Option (Nat × Option Nat)
  | _, _, [] => none
  | off, previous, r :: rs => if r.Names name then some (off, previous) else scanRecords name (off + r.len) (some off) rs

section Scan

variable {block : Buf} {bs off : Nat} {name : CStr} {rs : List Record}

theorem scanBlock_tiles {rounds : Nat} {previous : Option Nat} (tiles : Tiles block off rs bs) (some : rs ≠ [])
    (aligned : off % 4 = 0) (enough : rs.length ≤ rounds) :
    scanBlock block bs name rounds off previous = scanRecords name off previous rs := by
  induction rs generalizing rounds off previous with
  | nil => exact absurd rfl some
  | cons r rs ih =>
    obtain ⟨here, fits, rest⟩ := tiles
    cases rounds with
    | zero => exact absurd enough (Nat.not_succ_le_zero _)
    | succ rounds =>
      have len : Dirent.direntlen block off = r.len := congrArg Record.len here
      have inode : Dirent.inode block off = r.inode := congrArg Record.inode here
      have named : bytesAt block (off + sizeofDirent) (Dirent.namelen block off) = r.name := congrArg Record.name here
      have whole : Dirent.namelen block off = r.name.length := by rw [← named, length_bytesAt]
      have ends := rest.last_eq
      obtain ⟨four, long⟩ := fits
      have same : (Dirent.inode block off ≠ 0 ∧ name.length = Dirent.namelen block off ∧
          bytesAt block (off + sizeofDirent) (Dirent.namelen block off) = name) ↔ r.Names name := by
        rw [inode, named, whole]
        exact ⟨fun ⟨live, _, equal⟩ => ⟨live, equal⟩, fun ⟨live, equal⟩ => ⟨live, by rw [equal], equal⟩⟩
      rw [scanBlock, scanRecords, if_neg (not_not.mpr aligned), len, if_neg (by omega), if_congr same rfl rfl]
      split
      · rfl
      · -- the loop ends at the end of the block
        cases rs with
        | nil => exact if_neg (by rw [show off + r.len = bs from rest]; omega)
        | cons s rs =>
          have inside : off + r.len < bs := by
            have := rest.2.1.2
            have size : sizeofDirent = 8 := rfl
            rw [span_cons] at ends
            omega
          rw [if_pos inside]
          exact ih rest (List.cons_ne_nil s rs) (by omega) (Nat.le_of_succ_le_succ enough)

theorem scanRecords_none {previous : Option Nat} (absent : ∀ r ∈ rs, ¬ r.Names name) :
    scanRecords name off previous rs = none := by
  induction rs generalizing off previous with
  | nil => rfl
  | cons r rs ih =>
    rw [scanRecords, if_neg (absent r List.mem_cons_self)]
    exact ih (fun s member => absent s (List.mem_cons_of_mem r member))

theorem scanRecords_some {pre post : List Record} {r : Record} {previous : Option Nat}
    (before : ∀ p ∈ pre, ¬ p.Names name) (here : r.Names name) :
    scanRecords name off previous (pre ++ r :: post) =
      some (off + span pre, (pre.getLast?.map (fun p => off + span pre - p.len)).or previous) := by
  induction pre generalizing off previous with
  | nil => exact if_pos here
  | cons p pre ih =>
    rw [List.cons_append, scanRecords, if_neg (before p List.mem_cons_self),
      ih (fun q member => before q (List.mem_cons_of_mem p member)), span_cons, Nat.add_assoc]
    cases pre with
    | nil => rw [List.getLast?_nil, List.getLast?_singleton, Option.map_none, Option.none_or, Option.map_some, span_nil,
        Option.some_or, Nat.add_zero, Nat.add_sub_cancel]
    | cons q pre =>
      rw [List.getLast?_cons_cons]
      cases last : (q :: pre).getLast? with
      | none => exact absurd (List.getLast?_eq_none_iff.mp last) (List.cons_ne_nil q pre)
      | some s => rfl

theorem exists_first {kind : Record → Prop} [DecidablePred kind] (member : ∃ r ∈ rs, kind r) :
    ∃ pre r post, rs = pre ++ r :: post ∧ kind r ∧ ∀ p ∈ pre, ¬ kind p := by
  obtain ⟨r, inside, here⟩ := member
  obtain ⟨first, found⟩ : ∃ first, rs.find? kind = some first :=
    Option.isSome_iff_exists.mp (List.find?_isSome.mpr ⟨r, inside, decide_eq_true here⟩)
  obtain ⟨it, pre, post, split, before⟩ := List.find?_eq_some_iff_append.mp found
  refine ⟨pre, first, post, split, of_decide_eq_true it, fun p earlier => of_decide_eq_false ?_⟩
  exact (Bool.not_eq_true' _).mp (before p earlier)

theorem two_splits {pre post pre' post' : List Record} {r q : Record} (same : pre ++ r :: post = pre' ++ q :: post') :
    r ∈ pre' ∨ r = q ∨ q ∈ pre := by
  induction pre generalizing pre' with
  | nil =>
    cases pre' with
    | nil =>
      cases same
      exact .inr (.inl rfl)
    | cons p pre' =>
      cases same
      exact .inl List.mem_cons_self
  | cons p pre ih =>
    cases pre' with
    | nil =>
      cases same
      exact .inr (.inr List.mem_cons_self)
    | cons p' pre' =>
      exact (ih (List.cons.inj same).2).imp (List.mem_cons_of_mem p') (Or.imp_right (List.mem_cons_of_mem p))

end Scan

end UuuFastboot.Ext4
