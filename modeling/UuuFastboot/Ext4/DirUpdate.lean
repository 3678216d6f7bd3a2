import UuuFastboot.Ext4.DirSearch
import UuuFastboot.Ext4.AllocFrame

namespace UuuFastboot.Ext4

open Word Overlay Bytes CString Partial

def live (rs : List Record) : List (CStr × Nat) :=
  (rs.filter (fun r => r.inode ≠ 0)).map (fun r => (r.name, r.inode))

@[simp] theorem live_append (rs ss : List Record) : live (rs ++ ss) = live rs ++ live ss := by
  rw [live, List.filter_append, List.map_append, live, live]

theorem live_cons (r : Record) (rs : List Record) : live (r :: rs) = live [r] ++ live rs := live_append [r] rs

theorem live_singleton {r : Record} (there : r.inode ≠ 0) : live [r] = [(r.name, r.inode)] := by
  simp [live, there]

theorem live_dead {r : Record} (dead : r.inode = 0) : live [r] = [] := by
  simp [live, dead]

theorem live_len (r : Record) (len : Nat) : live [{ r with len := len }] = live [r] := by
  by_cases dead : r.inode = 0 <;> simp [live, dead]

section Block

variable {block : Buf} {off last : Nat} {r : Record} {pre post : List Record}
variable {len ino type : Nat} {name : CStr}

theorem entryBytes_le (fits : r.Fits) : entryBytes r.name.length ≤ r.len := by
  obtain ⟨⟨q, four⟩, long⟩ := fits
  unfold entryBytes round4 sizeofDirent at *
  omega

theorem entryBytes_ge (n : Nat) : sizeofDirent + n ≤ entryBytes n ∧ 4 ∣ entryBytes n := by
  unfold entryBytes round4 sizeofDirent
  omega

theorem recordAt_putLen (small : len < 2 ^ 16) (here : recordAt block off = r) :
    recordAt (putLe16 block (off + 4) len) off = { r with len := len } := by
  have size : sizeofDirent = 8 := rfl
  have namelen : Dirent.namelen (putLe16 block (off + 4) len) off = Dirent.namelen block off :=
    congrArg UInt8.toNat (putLe16_of_ge (by omega))
  have name : bytesAt (putLe16 block (off + 4) len) (off + sizeofDirent) (Dirent.namelen block off) =
      bytesAt block (off + sizeofDirent) (Dirent.namelen block off) :=
    bytesAt_congr (fun i _ => putLe16_of_ge (by omega))
  have inode : Dirent.inode (putLe16 block (off + 4) len) off = Dirent.inode block off :=
    getLe32_congr (fun i small => putLe16_of_lt (by omega))
  have type : Dirent.filetype (putLe16 block (off + 4) len) off = Dirent.filetype block off :=
    congrArg UInt8.toNat (putLe16_of_ge (by omega))
  have length : Dirent.direntlen (putLe16 block (off + 4) len) off = len := by
    rw [Dirent.direntlen, getLe16_putLe16, Nat.mod_eq_of_lt small]
  rw [← here, recordAt, recordAt, namelen, name, inode, type, length]

theorem recordAt_putEntry (number : ino < 2 ^ 32) (small : len < 2 ^ 16)
    (kind : type < 2 ^ 8) (short : name.length < 2 ^ 8) :
    recordAt (putEntry block off ino len type name) off = ⟨ino, len, name, type⟩ := by
  have size : sizeofDirent = 8 := rfl
  obtain ⟨b₁, first⟩ : ∃ b₁, b₁ = putLe32 block off ino := ⟨_, rfl⟩
  obtain ⟨b₂, second⟩ : ∃ b₂, b₂ = putLe16 b₁ (off + 4) len := ⟨_, rfl⟩
  obtain ⟨b₃, third⟩ : ∃ b₃, b₃ = overlay b₂ (off + 6) 1 (fun _ => UInt8.ofNat name.length) := ⟨_, rfl⟩
  obtain ⟨b₄, fourth⟩ : ∃ b₄, b₄ = overlay b₃ (off + 7) 1 (fun _ => UInt8.ofNat type) := ⟨_, rfl⟩
  obtain ⟨b, fifth⟩ : ∃ b, b = overlay b₄ (off + sizeofDirent) name.length (fun i => name.getD i 0) := ⟨_, rfl⟩
  have all : putEntry block off ino len type name = b := by rw [fifth, fourth, third, second, first]; rfl
  have header (i : Nat) (below : i < 8) : b (off + i) = b₄ (off + i) := by rw [fifth]; exact overlay_of_lt (by omega)
  have typeByte : b (off + 7) = UInt8.ofNat type := by
    rw [header 7 (by omega), fourth]
    exact overlay_of_mem (by omega) (by omega)
  have lengthByte : b (off + 6) = UInt8.ofNat name.length := by
    rw [header 6 (by omega), fourth, overlay_of_lt (by omega), third]
    exact overlay_of_mem (by omega) (by omega)
  have before (i : Nat) (below : i < 6) : b (off + i) = b₂ (off + i) := by
    rw [header i (by omega), fourth, overlay_of_lt (by omega), third, overlay_of_lt (by omega)]
  have namelen : Dirent.namelen b off = name.length := by
    rw [Dirent.namelen, lengthByte, UInt8.toNat_ofNat']
    exact Nat.mod_eq_of_lt short
  have filetype : Dirent.filetype b off = type := by
    rw [Dirent.filetype, typeByte, UInt8.toNat_ofNat']
    exact Nat.mod_eq_of_lt kind
  have length : Dirent.direntlen b off = len := by
    rw [Dirent.direntlen, getLe16_congr (c := b₂) (p := off + 4) (fun i below => by
      rw [Nat.add_assoc]
      exact before (4 + i) (by omega)), second, getLe16_putLe16, Nat.mod_eq_of_lt small]
  have inode : Dirent.inode b off = ino := by
    rw [Dirent.inode, getLe32_congr (c := b₁) (p := off) (fun i below => by
      rw [before i (by omega), second]
      exact putLe16_of_lt (by omega)), first, getLe32_putLe32, Nat.mod_eq_of_lt number]
  have text : bytesAt b (off + sizeofDirent) name.length = name :=
    bytesAt_eq_of_getD (fun i below => by
      rw [fifth, overlay_of_mem (by omega) (by omega), Nat.add_sub_cancel_left])
  rw [all, recordAt, namelen, filetype, length, inode, text]

theorem putEntry_of_lt {a : Nat} (before : a < off) :
    putEntry block off ino len type name a = block a := by
  unfold putEntry
  rw [overlay_of_lt (by omega), overlay_of_lt (by omega), overlay_of_lt (by omega), putLe16_of_lt (by omega),
    putLe32_of_lt before]

theorem putEntry_of_ge {a : Nat} (after : off + sizeofDirent + name.length ≤ a) :
    putEntry block off ino len type name a = block a := by
  have size : sizeofDirent = 8 := rfl
  unfold putEntry
  rw [overlay_of_ge after, overlay_of_ge (by omega), overlay_of_ge (by omega), putLe16_of_ge (by omega),
    putLe32_of_ge (by omega)]

theorem Tiles.insert (tiles : Tiles block off (pre ++ r :: post) last)
    (room : entryBytes r.name.length + entryBytes name.length ≤ r.len) (number : ino < 2 ^ 32) (kind : type < 2 ^ 8)
    (short : name.length < 2 ^ 8) :
    Tiles (putEntry (putLe16 block (off + span pre + 4) (entryBytes r.name.length))
        (off + span pre + entryBytes r.name.length) ino (r.len - entryBytes r.name.length) type name) off
      (pre ++ { r with len := entryBytes r.name.length } ::
        ⟨ino, r.len - entryBytes r.name.length, name, type⟩ :: post) last := by
  have size : sizeofDirent = 8 := rfl
  obtain ⟨front, here, fits, rest⟩ := tiles_append.mp tiles
  obtain ⟨o, place⟩ : ∃ o, o = off + span pre := ⟨_, rfl⟩
  obtain ⟨used, own⟩ : ∃ used, used = entryBytes r.name.length := ⟨_, rfl⟩
  have usedFits := entryBytes_ge r.name.length
  have newFits := entryBytes_ge name.length
  have word : r.len < 2 ^ 16 := by rw [← here]; exact recordAt_len_lt
  have four := fits.1
  have ends := rest.last_eq
  rw [← own] at room usedFits ⊢
  rw [← place] at front here rest ends ⊢
  refine tiles_append.mpr ⟨?_, ?_, ⟨usedFits.2, usedFits.1⟩, ?_, ⟨?_, ?_⟩, ?_⟩
  · rw [← place]
    refine front.congr (fun i _ before => ?_)
    rw [putEntry_of_lt (by omega), putLe16_of_lt (by omega)]
  · rw [← place, ← recordAt_putLen (show used < 2 ^ 16 by omega) here]
    refine recordAt_congr (fun i below => putEntry_of_lt ?_)
    rw [recordAt_putLen (by omega) here] at below
    exact Nat.add_lt_add_left (Nat.lt_of_lt_of_le below usedFits.1) o
  · rw [← place]
    exact recordAt_putEntry number (by omega) kind short
  · exact (Nat.dvd_sub four usedFits.2)
  · show sizeofDirent + name.length ≤ r.len - used
    omega
  · show Tiles _ (off + span pre + used + (r.len - used)) post last
    rw [← place, Nat.add_assoc, Nat.add_sub_cancel' (by omega)]
    refine rest.congr (fun i after _ => ?_)
    rw [putEntry_of_ge (by omega), putLe16_of_ge (by omega)]

theorem Tiles.merge {p : Record} (tiles : Tiles block off (pre ++ p :: r :: post) last) (small : p.len + r.len < 2 ^ 16) :
    Tiles (putLe16 block (off + span pre + 4) (p.len + r.len)) off (pre ++ { p with len := p.len + r.len } :: post) last := by
  have size : sizeofDirent = 8 := rfl
  obtain ⟨front, here, fits, -, fits', rest⟩ := tiles_append.mp tiles
  have long := fits.2
  refine tiles_append.mpr ⟨?_, recordAt_putLen small here, ⟨Nat.dvd_add fits.1 fits'.1, ?_⟩, ?_⟩
  · exact front.congr (fun i _ before => putLe16_of_lt (by omega))
  · show sizeofDirent + p.name.length ≤ p.len + r.len
    omega
  · show Tiles _ (off + span pre + (p.len + r.len)) post last
    rw [← Nat.add_assoc]
    exact rest.congr (fun i after _ => putLe16_of_ge (by omega))

theorem Tiles.clear (tiles : Tiles block off (r :: post) last) :
    Tiles (putLe32 block off 0) off ({ r with inode := 0 } :: post) last := by
  have size : sizeofDirent = 8 := rfl
  obtain ⟨here, fits, rest⟩ := tiles
  have long := fits.2
  refine ⟨?_, fits, rest.congr (fun i after _ => putLe32_of_ge (by omega))⟩
  have inode : Dirent.inode (putLe32 block off 0) off = 0 := getLe32_putLe32 block off 0
  have len : Dirent.direntlen (putLe32 block off 0) off = Dirent.direntlen block off :=
    getLe16_congr (fun i small => putLe32_of_ge (by omega))
  have namelen : Dirent.namelen (putLe32 block off 0) off = Dirent.namelen block off :=
    congrArg UInt8.toNat (putLe32_of_ge (by omega))
  have type : Dirent.filetype (putLe32 block off 0) off = Dirent.filetype block off :=
    congrArg UInt8.toNat (putLe32_of_ge (by omega))
  have name : bytesAt (putLe32 block off 0) (off + sizeofDirent) (Dirent.namelen block off) =
      bytesAt block (off + sizeofDirent) (Dirent.namelen block off) :=
    bytesAt_congr (fun i _ => putLe32_of_ge (by omega))
  rw [← here, recordAt, inode, len, namelen, type, name, recordAt]

theorem not_tiles_of_len_zero {rs : List Record} (zero : Dirent.direntlen block 0 = 0) (positive : 0 < last) :
    ¬ Tiles block 0 rs last := by
  intro tiles
  cases rs with
  | nil => exact absurd tiles positive.ne
  | cons s rs =>
    obtain ⟨here, fits, -⟩ := tiles
    have long := fits.2
    rw [← here, show sizeofDirent = 8 from rfl] at long
    have len : (recordAt block 0).len = 0 := zero
    omega

end Block

def Record.Roomy (name : CStr) (r : Record) : Prop := entryBytes r.name.length + entryBytes name.length ≤ r.len

instance (name : CStr) : DecidablePred (Record.Roomy name) := fun _ => Nat.decLe _ _

theorem findSlot_tiles (name : CStr) {block : Buf} {bs off rounds : Nat} {rs : List Record} (tiles : Tiles block off rs bs)
    (more : rs ≠ []) (enough : rs.length ≤ rounds) :
    (∃ pre r post, rs = pre ++ r :: post ∧ r.Roomy name ∧
        findSlot block bs name rounds off = .behind (off + span pre) (r.len - entryBytes r.name.length)) ∨
      (∀ r ∈ rs, ¬ r.Roomy name) ∧ findSlot block bs name rounds off = .full := by
  induction rs generalizing off rounds with
  | nil => exact absurd rfl more
  | cons r rs ih =>
    obtain ⟨here, fits, rest⟩ := tiles
    cases rounds with
    | zero => exact absurd enough (Nat.not_succ_le_zero _)
    | succ rounds =>
      have len : Dirent.direntlen block off = r.len := congrArg Record.len here
      have namelen : Dirent.namelen block off = r.name.length := by rw [← here, recordAt, length_bytesAt]
      have word : r.len < 2 ^ 16 := by rw [← here]; exact recordAt_len_lt
      have ends := rest.last_eq
      have long := fits.2
      have used := entryBytes_le fits
      have need := (entryBytes_ge name.length).1
      have size : sizeofDirent = 8 := rfl
      have space : checkVoidInDentry block off name =
          if r.Roomy name then r.len - entryBytes r.name.length else 0 := by
        have void : w32 (r.len + 2 ^ 32 - entryBytes r.name.length) = r.len - entryBytes r.name.length := by
          unfold w32
          omega
        have positive : isNeg (r.len - entryBytes r.name.length) = false := decide_eq_false (by omega)
        simp only [checkVoidInDentry, len, namelen, void, positive, Bool.false_eq_true, false_or]
        by_cases roomy : r.Roomy name
        · rw [if_pos roomy, if_neg (by unfold Record.Roomy at roomy; omega)]
        · rw [if_neg roomy, if_pos (by unfold Record.Roomy at roomy; omega)]
      rw [findSlot]
      simp only [len, namelen]
      rw [if_neg (by omega), if_neg (by omega), space]
      by_cases roomy : r.Roomy name
      · refine .inl ⟨[], r, rs, rfl, roomy, ?_⟩
        have some : r.len - entryBytes r.name.length ≠ 0 := by
          unfold Record.Roomy at roomy
          omega
        rw [if_pos roomy, if_pos some, span_nil, Nat.add_zero]
        split
        · exact if_pos roomy
        · rfl
      · rw [if_neg roomy, if_neg (not_not.mpr rfl)]
        cases rs with
        | nil =>
          have last : bs - off = r.len := by
            rw [span_nil] at ends
            omega
          rw [if_pos last]
          refine .inr ⟨fun s member => ?_, if_neg roomy⟩
          rw [List.mem_singleton.mp member]
          exact roomy
        | cons s rs =>
          have further : ¬ bs - off = r.len := by
            have := rest.2.1.2
            rw [span_cons] at ends
            omega
          rw [if_neg further]
          rcases ih rest (List.cons_ne_nil s rs) (Nat.le_of_succ_le_succ enough) with
            ⟨pre, q, post, split, roomy', found⟩ | ⟨none, full⟩
          · refine .inl ⟨r :: pre, q, post, by rw [split]; rfl, roomy', ?_⟩
            rw [found, span_cons, Nat.add_assoc]
          · refine .inr ⟨fun q member => ?_, full⟩
            rcases List.mem_cons.mp member with rfl | later
            · exact roomy
            · exact none q later

/-- What a block holds once the changes noted so far are written. -/
def Fs.pending (env : Env) (fs : Fs) (b : Nat) : Option Buf :=
  match fs.dirtyBlockPtr.reverse.find? (fun entry => entry.1 = b) with
  | some entry => some entry.2
  | none => fs.readBlock env b

structure Fs.LeavesDir (env : Env) (g : Geometry) (fs : Fs) (warm : Caches → Prop) (inode : Buf) (B : Nat → Nat)
    (rs : Nat → List Record) : Prop where
  mapped : Mapped env fs.card fs.root warm inode B
  whole : Inode.size inode % g.bs = 0
  block : ∀ k < Inode.size inode / g.bs, ∃ block, fs.pending env (B k) = some block ∧ Tiles block 0 (rs k) g.bs

structure Dir.Owns (env : Env) (g : Geometry) (card : Buf) (root : Root) (warm : Caches → Prop) (inode : Buf)
    (B : Nat → Nat) (rs : Nat → List Record) (own : Nat → Prop) : Prop where
  blocks : ∀ k < Inode.size inode / g.bs, own (B k)
  distinct : ∀ i < Inode.size inode / g.bs, ∀ j < Inode.size inode / g.bs, B i = B j → i = j
  frame : ∀ card', (∀ x, own x → g.SameBlock (env.volume card) (env.volume card') x) →
    Dir env g card' root warm inode B rs

theorem Dir.Owns.dir {env : Env} {g : Geometry} {card : Buf} {root : Root} {warm : Caches → Prop} {inode : Buf}
    {B : Nat → Nat} {rs : Nat → List Record} {own : Nat → Prop} (owns : Dir.Owns env g card root warm inode B rs own) :
    Dir env g card root warm inode B rs := owns.frame card (fun x _ => .refl _ x)

section Pending

variable {env : Env} {fs : Fs} {b : Nat} {buf : Buf}

theorem Fs.pending_last {D : List (Nat × Buf)} (noted : fs.dirtyBlockPtr = D ++ [(b, buf)]) :
    fs.pending env b = some buf := by
  rw [Fs.pending, noted, List.reverse_append, List.reverse_singleton, List.singleton_append, List.find?_cons,
    decide_eq_true rfl]

theorem Fs.pending_none (clean : ∀ e ∈ fs.dirtyBlockPtr, e.1 ≠ b) : fs.pending env b = fs.readBlock env b := by
  have missing : fs.dirtyBlockPtr.reverse.find? (fun entry => entry.1 = b) = none :=
    List.find?_eq_none.mpr (fun e member here => clean e (List.mem_reverse.mp member) (of_decide_eq_true here))
  rw [Fs.pending, missing]

theorem Fs.pending_other {D : List (Nat × Buf)} {x : Nat} (other : x ≠ b)
    (noted : fs.dirtyBlockPtr = D ++ [(x, buf)]) :
    fs.pending env b = { fs with dirtyBlockPtr := D }.pending env b := by
  rw [Fs.pending, noted, List.reverse_append, List.reverse_singleton, List.singleton_append, List.find?_cons,
    decide_eq_false other]
  rfl

end Pending

/-- A state in a call that began in the state `fs₀`, where the directory has the inode `inode` and the changes `D` are
noted. The blocks in `own` are as they were. -/
structure Fs.Within (env : Env) (g : Geometry) (own : Nat → Prop) (warm : Caches → Prop) (fs fs₀ : Fs)
    (inode : Buf) (D : List (Nat × Buf)) : Prop where
  root : fs.root = fs₀.root
  sectPerblk : fs.sectPerblk = fs₀.sectPerblk
  noBlkgrp : fs.noBlkgrp = fs₀.noBlkgrp
  gParentInode : fs.gParentInode = inode
  dirtyBlockPtr : fs.dirtyBlockPtr = D
  caches : warm fs.caches
  same : ∀ x, own x → g.SameBlock (env.volume fs₀.card) (env.volume fs.card) x
  bitmaps : fs.BitmapsIn env g (fun x => ¬ own x)

section Within

variable {env : Env} {g : Geometry} {own : Nat → Prop} {warm : Caches → Prop} {fs₀ fs fs' : Fs} {inode : Buf}
  {D : List (Nat × Buf)} {B : Nat → Nat} {rs : Nat → List Record}

section

variable (within : fs.Within env g own warm fs₀ inode D)
include within

theorem Fs.Within.views (views : fs₀.Views env g) : fs.Views env g :=
  ⟨by rw [within.root]; exact views.log2, within.bitmaps.blksz, by rw [within.sectPerblk, within.root]; exact views.sectPerblk⟩

theorem Fs.Within.dir {inode₀ : Buf}
    (owns : Dir.Owns env g fs₀.card fs₀.root warm inode₀ B rs own) : Dir env g fs.card fs.root warm inode₀ B rs := by
  rw [within.root]
  exact owns.frame fs.card within.same

theorem Fs.Within.books (books : fs.Books env g (fun x => ¬ own x) fs') :
    fs'.Within env g own warm fs₀ inode D :=
  ⟨books.descends.1.trans within.root, books.sectPerblk.trans within.sectPerblk, books.noBlkgrp.trans within.noBlkgrp,
    books.gParentInode.trans within.gParentInode, books.dirtyBlockPtr.trans within.dirtyBlockPtr,
    by rw [books.caches]; exact within.caches,
    fun x mine => (within.same x mine).trans (books.same x (not_not.mpr mine)), books.bitmapsIn within.bitmaps⟩

theorem Fs.Within.logs {c : Caches} {L : List (Nat × Buf)} (caches : warm c) :
    Fs.Within env g own warm { fs with caches := c, journalPtr := fs.journalPtr ++ L } fs₀ inode D :=
  { within with caches := caches, bitmaps := { within.bitmaps with } }

theorem Fs.Within.noted {b : Nat} {buf : Buf}
    (run : ext4fsPutMetadata buf b fs = some ((), fs')) : fs'.Within env g own warm fs₀ inode (D ++ [(b, buf)]) := by
  obtain rfl := ext4fsPutMetadata_run run
  exact { within with dirtyBlockPtr := by rw [within.dirtyBlockPtr], bitmaps := { within.bitmaps with } }

theorem Fs.Within.lookup {k : Nat} (views : fs₀.Views env g)
    (dir : Dir env g fs.card fs.root warm inode B rs) (below : k < Inode.size inode / g.bs) :
    ∃ c, warm c ∧ allocatedBlock env inode k fs = some (B k, { fs with caches := c }) ∧
      Fs.readBlock env { fs with caches := c } (B k) = some (clip g.bs (g.blk (env.volume fs.card) (B k))) ∧
      ¬ (B k = 0 ∨ isNeg (B k) = true) := by
  obtain ⟨there, inside⟩ := dir.block k below
  obtain ⟨cache, c, run, caches⟩ := dir.mapped fs.caches within.caches k (by rwa [blockSize_of_log2 dir.log2])
  have total := dir.fits.total_lt
  refine ⟨c, caches, by rw [allocatedBlock, run]; rfl, (within.views views).readBlock dir.fits inside, ?_⟩
  rintro (zero | negative)
  · exact there zero
  · exact absurd negative (by rw [isNeg, decide_eq_true_eq]; omega)

end

end Within

def unlinked (block : Buf) (pre : List Record) (r : Record) : Buf :=
  match pre.getLast? with
  | some p => putLe16 block (span pre - p.len + 4) (p.len + r.len)
  | none => putLe32 block 0 0

section Unlink

variable {env : Env} {g : Geometry} {own : Nat → Prop} {warm : Caches → Prop} {fs₀ fs fs' : Fs} {inode : Buf}
  {D : List (Nat × Buf)} {B : Nat → Nat} {rs : Nat → List Record} {name : CStr}
variable {n k : Nat} {r : Record}

theorem Fs.Within.unlinkFilename (within : fs.Within env g own warm fs₀ inode D) (views : fs₀.Views env g)
    (owns : Dir.Owns env g fs₀.card fs₀.root warm inode B rs own) (below : k < Inode.size inode / g.bs)
    (run : unlinkFilename env name (B k) fs = some (n, fs')) :
    (∃ pre r post, rs k = pre ++ r :: post ∧ r.Names name ∧ r.inode < 2 ^ 31 ∧ n = r.inode ∧
        fs'.Within env g own warm fs₀ inode
          (D ++ [(B k, unlinked (clip g.bs (g.blk (env.volume fs.card) (B k))) pre r)])) ∨
      (∀ r ∈ rs k, r.Names name → ∃ q ∈ rs k, q.Names name ∧ 2 ^ 31 ≤ q.inode) ∧ n = minusOne ∧ fs' = fs := by
  have dir := within.dir owns
  have tiles : Tiles (clip g.bs (g.blk (env.volume fs.card) (B k))) 0 (rs k) g.bs :=
    (dir.tiles k below).congr (fun i _ upper => clip_of_lt upper)
  rw [Ext4.unlinkFilename, run_bind, Ext4.readBlock, reading, (within.views views).readBlock dir.fits (dir.block k below).2,
    Option.bind_some] at run
  simp only [get_bind, within.bitmaps.blksz] at run
  rcases scan_cases name tiles Geometry.bs_pos with ⟨pre, r, post, split, here, word, -, found⟩ | ⟨hidden, none⟩
  · simp only [found] at run
    obtain ⟨⟨⟩, fs₁, log, run⟩ := bind_eq_some.mp run
    obtain ⟨⟨⟩, fs₂, put, run⟩ := bind_eq_some.mp run
    cases run
    obtain ⟨L, rfl⟩ := ext4fsLogJournal_grows log
    have logged := within.logs (L := L) within.caches
    refine .inl ⟨pre, r, post, split, here, word, rfl, ?_⟩
    have place : recordAt (clip g.bs (g.blk (env.volume fs.card) (B k))) (span pre) = r := by
      rw [split] at tiles
      have at_ := ((tiles_append.mp tiles).2).1
      rwa [Nat.zero_add] at at_
    have len : Dirent.direntlen (clip g.bs (g.blk (env.volume fs.card) (B k))) (span pre) = r.len :=
      congrArg Record.len place
    have noted := logged.noted put
    rw [unlinked]
    cases last : pre.getLast? with
    | none =>
      obtain rfl : pre = [] := List.getLast?_eq_none_iff.mp last
      exact noted
    | some p =>
      obtain ⟨front, rfl⟩ := List.getLast?_eq_some_iff.mp last
      have prior : Dirent.direntlen (clip g.bs (g.blk (env.volume fs.card) (B k))) (span front) = p.len := by
        rw [split, List.append_assoc] at tiles
        have at_ := ((tiles_append.mp tiles).2).1
        rw [Nat.zero_add] at at_
        exact congrArg Record.len at_
      have start : span (front ++ [p]) - p.len = span front := by
        rw [span_append, span_cons, span_nil, Nat.add_zero, Nat.add_sub_cancel]
      simp only [last, Option.map_some, start, prior, len] at noted
      simp only [start]
      exact noted
  · simp only [none] at run
    cases run
    exact .inr ⟨hidden, rfl, rfl⟩

theorem Fs.Within.unlinkLoop {left : Nat} (within : fs.Within env g own warm fs₀ inode D) (views : fs₀.Views env g)
    (owns : Dir.Owns env g fs₀.card fs₀.root warm inode B rs own) (bound : k + left = Inode.size inode / g.bs)
    (run : unlinkLoop env name left k fs = some (n, fs')) :
    (∃ j pre r post, k ≤ j ∧ j < Inode.size inode / g.bs ∧ rs j = pre ++ r :: post ∧ r.Names name ∧ r.inode < 2 ^ 31 ∧
        ∃ block, Tiles block 0 (rs j) g.bs ∧
          fs'.Within env g own warm fs₀ inode (D ++ [(B j, unlinked block pre r)])) ∨
      (∀ j, k ≤ j → j < Inode.size inode / g.bs → ∀ r ∈ rs j, r.Names name →
          ∃ q ∈ rs j, q.Names name ∧ 2 ^ 31 ≤ q.inode) ∧ fs'.Within env g own warm fs₀ inode D := by
  induction left generalizing k fs with
  | zero =>
    cases run
    exact .inr ⟨fun j after before => absurd before (by omega), within⟩
  | succ left ih =>
    obtain ⟨c, caches, lookup, -, fine⟩ := within.lookup views (within.dir owns) (k := k) (by omega)
    have looked : Fs.Within env g own warm { fs with caches := c } fs₀ inode D := by
      have logs := within.logs (L := []) caches
      rwa [List.append_nil] at logs
    obtain ⟨fs₁, state⟩ : ∃ fs₁ : Fs, fs₁ = { fs with caches := c } := ⟨_, rfl⟩
    rw [← state] at lookup looked
    rw [Ext4.unlinkLoop, get_bind, run_bind, within.gParentInode, lookup, Option.bind_some] at run
    simp only [run_ite, if_neg fine] at run
    obtain ⟨n₁, fs₂, block, rest⟩ := bind_eq_some.mp run
    rcases looked.unlinkFilename views owns (k := k) (by omega) block with
      ⟨pre, r, post, split, here, word, rfl, noted⟩ | ⟨hidden, rfl, rfl⟩
    · have number : r.inode ≠ minusOne := by
        unfold minusOne
        omega
      rw [if_pos number] at rest
      cases rest
      refine .inl ⟨k, pre, r, post, le_rfl, by omega, split, here, word, _, ?_, noted⟩
      exact ((looked.dir owns).tiles k (by omega)).congr (fun i _ upper => clip_of_lt upper)
    · rw [if_neg (not_not.mpr rfl)] at rest
      rcases ih looked (k := k + 1) (by omega) rest with ⟨j, pre, r, post, after, found⟩ | ⟨never, nothing⟩
      · exact .inl ⟨j, pre, r, post, by omega, found⟩
      · refine .inr ⟨fun j after before => ?_, nothing⟩
        rcases Nat.eq_or_lt_of_le after with rfl | later
        · exact hidden
        · exact never j later before

def unlinkedRecords (pre : List Record) (r : Record) (post : List Record) : List Record :=
  match pre.getLast? with
  | some p => pre.dropLast ++ { p with len := p.len + r.len } :: post
  | none => { r with inode := 0 } :: post

theorem live_unlinkedRecords (pre : List Record) (r : Record) (post : List Record) :
    live (unlinkedRecords pre r post) = live pre ++ live post := by
  unfold unlinkedRecords
  cases last : pre.getLast? with
  | none =>
    obtain rfl : pre = [] := List.getLast?_eq_none_iff.mp last
    rw [live_cons, live_dead rfl]
    rfl
  | some p =>
    obtain ⟨front, rfl⟩ := List.getLast?_eq_some_iff.mp last
    simp only [List.dropLast_concat]
    rw [live_append, live_cons, live_len, live_append, List.append_assoc]

theorem Tiles.unlinked {block : Buf} {bs : Nat} {pre post : List Record}
    (tiles : Tiles block 0 (pre ++ r :: post) bs) (small : ∀ p, pre.getLast? = some p → p.len + r.len < 2 ^ 16) :
    Tiles (Ext4.unlinked block pre r) 0 (unlinkedRecords pre r post) bs := by
  unfold Ext4.unlinked unlinkedRecords
  cases last : pre.getLast? with
  | none =>
    obtain rfl : pre = [] := List.getLast?_eq_none_iff.mp last
    exact tiles.clear
  | some p =>
    obtain ⟨front, rfl⟩ := List.getLast?_eq_some_iff.mp last
    rw [List.append_assoc] at tiles
    have merged := Tiles.merge tiles (small p last)
    simp only [List.dropLast_concat, span_append, span_cons, span_nil, Nat.add_zero, Nat.add_sub_cancel]
    rwa [Nat.zero_add] at merged

theorem recordsOf_split (below : k < Inode.size inode / g.bs) (rs : Nat → List Record) :
    ∃ front back, recordsOf g inode rs = front ++ rs k ++ back ∧
      ∀ ss, recordsOf g inode (Function.update rs k ss) = front ++ ss ++ back := by
  obtain ⟨more, count⟩ : ∃ more, Inode.size inode / g.bs = k + (more + 1) :=
    ⟨Inode.size inode / g.bs - k - 1, by omega⟩
  have order : List.range (Inode.size inode / g.bs) = List.range k ++ k :: List.range' (k + 1) more := by
    rw [count, List.range_eq_range', List.range_eq_range', ← List.range'_append_1, Nat.zero_add, List.range'_succ]
  have away (ss : List Record) (l : List Nat) (others : ∀ i ∈ l, i ≠ k) : l.flatMap (Function.update rs k ss) = l.flatMap rs :=
    List.flatMap_congr (fun i member => Function.update_of_ne (others i member) _ _)
  refine ⟨(List.range k).flatMap rs, (List.range' (k + 1) more).flatMap rs, ?_, fun ss => ?_⟩
  · rw [recordsOf, order, List.flatMap_append, List.flatMap_cons, List.append_assoc]
  · rw [recordsOf, order, List.flatMap_append, List.flatMap_cons, Function.update_self,
      away ss _ (fun i member => (List.mem_range.mp member).ne),
      away ss _ (fun i member => by have := (List.mem_range'_1.mp member).1; omega), List.append_assoc]

theorem Fs.Within.leavesDir {buf : Buf} {ss : List Record} (views : fs₀.Views env g)
    (owns : Dir.Owns env g fs₀.card fs₀.root warm inode B rs own)
    (clean : ∀ e ∈ D, ∀ j < Inode.size inode / g.bs, e.1 ≠ B j) (below : k < Inode.size inode / g.bs)
    (within : fs.Within env g own warm fs₀ inode (D ++ [(B k, buf)])) (tiles : Tiles buf 0 ss g.bs) :
    fs.LeavesDir env g warm inode B (Function.update rs k ss) := by
  have dir := within.dir owns
  refine ⟨dir.mapped, dir.whole, fun j inside => ?_⟩
  by_cases same : j = k
  · subst same
    rw [Function.update_self]
    exact ⟨buf, Fs.pending_last within.dirtyBlockPtr, tiles⟩
  · rw [Function.update_of_ne same]
    have other : B k ≠ B j := fun equal => same (owns.distinct k below j inside equal).symm
    refine ⟨_, ?_, (dir.tiles j inside).congr (fun i _ upper => clip_of_lt upper)⟩
    rw [Fs.pending_other other within.dirtyBlockPtr, Fs.pending_none (fun e member => clean e member j inside)]
    exact (within.views views).readBlock dir.fits (dir.block j inside).2

/-- The directory is left with its live entries but those of the name. -/
def UnlinkRight (env : Env) (g : Geometry) (warm : Caches → Prop) (B : Nat → Nat) (rs : Nat → List Record) (name : CStr)
    (inode : Buf) (fs' : Fs) : Prop :=
  ∃ rs', fs'.LeavesDir env g warm fs'.gParentInode B rs' ∧
    live (recordsOf g fs'.gParentInode rs') = (live (recordsOf g inode rs)).filter (fun entry => entry.1 ≠ name)

theorem filter_live_of_absent {records : List Record} (absent : ∀ r ∈ records, ¬ r.Names name) :
    (live records).filter (fun entry => entry.1 ≠ name) = live records := by
  refine List.filter_eq_self.mpr (fun entry member => decide_eq_true ?_)
  obtain ⟨r, inside, rfl⟩ := List.mem_map.mp member
  obtain ⟨inside, there⟩ := List.mem_filter.mp inside
  exact fun same => absent r inside ⟨of_decide_eq_true there, same⟩

theorem not_names_of_nodup {records rest : List Record}
    (unique : ((live (records ++ r :: rest)).map Prod.fst).Nodup) (here : r.Names name) :
    (∀ p ∈ records, ¬ p.Names name) ∧ ∀ p ∈ rest, ¬ p.Names name := by
  have named {p : Record} {ps : List Record} (member : p ∈ ps) (names : p.Names name) : name ∈ (live ps).map Prod.fst := by
    refine List.mem_map.mpr ⟨(p.name, p.inode), List.mem_map.mpr ⟨p, List.mem_filter.mpr ⟨member, decide_eq_true names.1⟩, rfl⟩, names.2⟩
  rw [live_append, live_cons, live_singleton here.1, List.map_append, List.map_append, List.nodup_append,
    List.nodup_append] at unique
  obtain ⟨-, ⟨-, -, after⟩, before⟩ := unique
  constructor
  · intro p member names
    exact before name (named member names) name (List.mem_append_left _ (by simp [here.2])) rfl
  · intro p member names
    exact after name (by simp [here.2]) name (named member names) rfl

theorem Tiles.pair_of_long {block : Buf} {bs : Nat} {pre post : List Record} {p : Record}
    (tiles : Tiles block 0 (pre ++ p :: r :: post) bs) (limit : bs ≤ 2 ^ 16) (long : 2 ^ 16 ≤ p.len + r.len) :
    pre = [] ∧ post = [] ∧ bs = 2 ^ 16 := by
  have ends := tiles.last_eq
  obtain ⟨first, -, -, -, -, rest⟩ := tiles_append.mp tiles
  have before := first.length_le
  have after := rest.length_le
  have end_ := rest.last_eq
  rw [span_append, span_cons, span_cons] at ends
  rw [show sizeofDirent = 8 from rfl] at before after
  exact ⟨List.length_eq_zero_iff.mp (by omega), List.length_eq_zero_iff.mp (by omega), by omega⟩

/-- `ext4fs_filename_unlink` takes exactly the name out of the directory, unless its inode has a number that reads as a
negative one, or the two records of a block of 64 KiB are to be joined: their length does not fit. -/
theorem unlink_right_iff (views : fs.Views env g) (owns : Dir.Owns env g fs.card fs.root warm fs.gParentInode B rs own)
    (caches : warm fs.caches) (bitmaps : fs.BitmapsIn env g (fun x => ¬ own x))
    (clean : ∀ e ∈ fs.dirtyBlockPtr, ∀ j < Inode.size fs.gParentInode / g.bs, e.1 ≠ B j)
    (unique : ((live (recordsOf g fs.gParentInode rs)).map Prod.fst).Nodup)
    (run : ext4fsFilenameUnlink env name fs = some (n, fs')) :
    UnlinkRight env g warm B rs name fs.gParentInode fs' ↔
      (∀ r ∈ recordsOf g fs.gParentInode rs, r.Names name → r.inode < 2 ^ 31) ∧
        ¬ ∃ k < Inode.size fs.gParentInode / g.bs, ∃ p r, rs k = [p, r] ∧ r.Names name ∧ g.bs = 2 ^ 16 := by
  have start : fs.Within env g own warm fs fs.gParentInode fs.dirtyBlockPtr :=
    ⟨rfl, rfl, rfl, rfl, rfl, caches, fun x _ => .refl _ x, bitmaps⟩
  have dir := owns.dir
  obtain ⟨inode, parent⟩ : ∃ inode, inode = fs.gParentInode := ⟨_, rfl⟩
  rw [← parent] at start owns dir clean unique ⊢
  rw [ext4fsFilenameUnlink, get_bind, ← parent, directoryBlocks, blockSize_of_log2 dir.log2] at run
  rcases start.unlinkLoop views owns (Nat.zero_add _) run with
    ⟨j, pre, r, post, -, below, split, here, word, block, tiles, within⟩ | ⟨hidden, within⟩
  · obtain ⟨front, back, whole, replaced⟩ := recordsOf_split below rs
    have parts : recordsOf g inode rs = (front ++ pre) ++ r :: (post ++ back) := by
      rw [whole, split]
      simp only [List.append_assoc, List.cons_append]
    rw [parts] at unique
    obtain ⟨notBefore, notAfter⟩ := not_names_of_nodup unique here
    rw [split] at tiles
    constructor
    · rintro ⟨rs', leaves, -⟩
      refine ⟨fun q member names => ?_, ?_⟩
      · rw [parts] at member
        rcases List.mem_append.mp member with earlier | later
        · exact absurd names (notBefore q earlier)
        · rcases List.mem_cons.mp later with rfl | later
          · exact word
          · exact absurd names (notAfter q later)
      rintro ⟨k, inside, p, q, pair, names, size⟩
      rw [within.gParentInode] at leaves
      -- the name stands in no other block
      obtain rfl : k = j := by
        by_contra other
        have member : q ∈ recordsOf g inode (Function.update rs j []) :=
          mem_recordsOf.mpr ⟨k, inside, by rw [Function.update_of_ne other, pair]; simp⟩
        rw [replaced, List.append_nil] at member
        rcases List.mem_append.mp member with earlier | later
        · exact notBefore q (List.mem_append_left _ earlier) names
        · exact notAfter q (List.mem_append_right _ later) names
      rw [pair] at split
      obtain ⟨rfl, rfl, rfl⟩ : pre = [p] ∧ r = q ∧ post = [] := by
        cases pre with
        | nil =>
          cases split
          exact absurd names (notAfter q List.mem_cons_self)
        | cons x more =>
          cases more with
          | nil =>
            cases split
            exact ⟨rfl, rfl, rfl⟩
          | cons y more => simp at split
      obtain ⟨buf, pending, filled⟩ := leaves.block k below
      rw [Fs.pending_last within.dirtyBlockPtr, Option.some.injEq] at pending
      have sum : p.len + r.len = 2 ^ 16 := by
        have ends := tiles.last_eq
        rw [List.singleton_append, span_cons, span_cons, span_nil] at ends
        omega
      have zero : Dirent.direntlen (unlinked block [p] r) 0 = 0 := by
        rw [unlinked]
        simp only [List.getLast?_singleton, span_cons, span_nil, Nat.add_zero, Nat.sub_self, sum]
        exact getLe16_putLe16 block 4 (2 ^ 16)
      rw [pending] at zero
      exact not_tiles_of_len_zero zero Geometry.bs_pos filled
    · rintro ⟨-, fine⟩
      have short (p : Record) (last : pre.getLast? = some p) : p.len + r.len < 2 ^ 16 := by
        obtain ⟨first, rfl⟩ := List.getLast?_eq_some_iff.mp last
        by_contra long
        rw [List.append_assoc] at tiles split
        obtain ⟨rfl, rfl, size⟩ := Tiles.pair_of_long tiles dir.bs_le (Nat.le_of_not_lt long)
        exact fine ⟨j, below, p, r, split, here, size⟩
      refine ⟨Function.update rs j (unlinkedRecords pre r post), ?_, ?_⟩
      · rw [within.gParentInode]
        exact within.leavesDir views owns clean below (tiles.unlinked short)
      · have gone : (live [r]).filter (fun entry => entry.1 ≠ name) = [] := by
          rw [live_singleton here.1, here.2]
          simp
        rw [within.gParentInode, replaced, parts, live_append (front ++ pre), live_cons r, List.filter_append,
          List.filter_append, gone, filter_live_of_absent notBefore, filter_live_of_absent notAfter]
        simp only [live_append, live_unlinkedRecords, List.append_assoc, List.nil_append]
  · have dir' := within.dir owns
    have untouched (k : Nat) (below : k < Inode.size inode / g.bs) :
        fs'.pending env (B k) = some (clip g.bs (g.blk (env.volume fs'.card) (B k))) := by
      rw [Fs.pending_none (fun e member => clean e (within.dirtyBlockPtr ▸ member) k below)]
      exact (within.views views).readBlock dir'.fits (dir'.block k below).2
    have tiles (k : Nat) (below : k < Inode.size inode / g.bs) :
        Tiles (clip g.bs (g.blk (env.volume fs'.card) (B k))) 0 (rs k) g.bs :=
      (dir'.tiles k below).congr (fun i _ upper => clip_of_lt upper)
    by_cases there : ∃ r ∈ recordsOf g inode rs, r.Names name
    · -- the entry stays, since the number of its inode reads as a negative one
      obtain ⟨r, member, names⟩ := there
      obtain ⟨j, below, member⟩ := mem_recordsOf.mp member
      obtain ⟨q, inside, names', large⟩ := hidden j (Nat.zero_le j) below r member names
      have listed : q ∈ recordsOf g inode rs := mem_recordsOf.mpr ⟨j, below, inside⟩
      refine iff_of_false ?_ (fun fine => absurd (fine.1 q listed names') (Nat.not_lt.mpr large))
      rintro ⟨rs', leaves, same⟩
      rw [within.gParentInode] at leaves same
      obtain ⟨buf, pending, filled⟩ := leaves.block j below
      rw [untouched j below, Option.some.injEq] at pending
      rw [← pending] at filled
      have still : q ∈ recordsOf g inode rs' := mem_recordsOf.mpr ⟨j, below, by rw [filled.unique (tiles j below)]; exact inside⟩
      have entry : (q.name, q.inode) ∈ live (recordsOf g inode rs') :=
        List.mem_map.mpr ⟨q, List.mem_filter.mpr ⟨still, decide_eq_true names'.1⟩, rfl⟩
      rw [same] at entry
      exact of_decide_eq_true (List.mem_filter.mp entry).2 names'.2
    · have never : ∀ r ∈ recordsOf g inode rs, ¬ r.Names name := fun r member names => there ⟨r, member, names⟩
      refine iff_of_true ⟨rs, ?_, ?_⟩ ⟨fun r member names => absurd names (never r member), ?_⟩
      · rw [within.gParentInode]
        exact ⟨dir'.mapped, dir'.whole, fun k below => ⟨_, untouched k below, tiles k below⟩⟩
      · rw [within.gParentInode, filter_live_of_absent never]
      · rintro ⟨k, below, p, r, pair, names, -⟩
        exact never r (mem_recordsOf.mpr ⟨k, below, by rw [pair]; simp⟩) names

end Unlink

end UuuFastboot.Ext4
