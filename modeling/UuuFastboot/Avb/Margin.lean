import UuuFastboot.Lib.Bytes
import UuuFastboot.Gadget.Ptable

namespace UuuFastboot.Avb

open Word Overlay Bytes CString

def u64 (i : Int) : Nat := (i % 2 ^ 64).toNat

def w64 (n : Nat) : Nat := n % 2 ^ 64

/-- `struct margin_pos` -/
structure MarginPos where
  blkStart : Nat
  blkEnd : Nat
  start : Nat
  end_ : Nat
  multi : Nat

/-- The last part of `get_margin_pos`. `multi` is computed with 64 bits and then kept in a `long`. -/
def marginChecked (partStart partEnd blksz blkStart blkEnd start end_ : Nat) : Option MarginPos :=
  if partEnd < blkStart ∨ blkStart < partStart then none
  else
    let whole := (if start = 0 then 1 else 0) + (if end_ = blksz - 1 then 1 else 0)
    let multi := u64 (blkEnd - blkStart - 1 + whole) % 2 ^ 32
    some ⟨blkStart, blkEnd, start, end_, if multi < 2 ^ 31 then multi else 0⟩

/-- `get_margin_pos`; `none` for -1. The quotients and remainders are taken of 64-bit unsigned values, also where the
offset is negative; `off` is a `long`, which is added to `blksz` with 32 bits. -/
def getMarginPos (partStart partEnd blksz : Nat) (offset : Int) (numBytes : Nat) (allowPartial : Bool) :
    Option MarginPos :=
  if blksz = 0 ∨ partEnd < partStart then none
  else if offset < 0 then
    let blkStart := w64 (u64 (offset + 1) / blksz + partEnd)
    let off := u64 offset % blksz
    let start := if off = 0 then 0 else w32 (blksz + off)
    if 0 ≤ offset + numBytes - 1 then
      if allowPartial = false then none
      else marginChecked partStart partEnd blksz blkStart partEnd start (blksz - 1)
    else
      let blkEnd := w64 (u64 (numBytes + offset) / blksz + partEnd)
      let off := u64 (numBytes + offset - 1) % blksz
      marginChecked partStart partEnd blksz blkStart blkEnd start (if off = 0 then 0 else w32 (blksz + off))
  else
    let blkStart := w64 (u64 offset / blksz + partStart)
    let start := u64 offset % blksz
    let blkEnd := w64 (u64 (offset + numBytes - 1) / blksz + partStart)
    let end_ := u64 (offset + numBytes - 1) % blksz
    if partEnd < blkEnd then
      if allowPartial = false then none
      else marginChecked partStart partEnd blksz blkStart partEnd start (blksz - 1)
    else marginChecked partStart partEnd blksz blkStart blkEnd start end_

/-- The blocks of a partition; a device has less than 2^32 of them. -/
structure PartBlocks where
  first : Nat
  last : Nat
  ordered : first ≤ last
  last_lt : last < 2 ^ 32 - 1

/-- A request for `numBytes` bytes at `offset` in a partition with blocks of `blksz` bytes. -/
structure Request where
  part : PartBlocks
  blksz : Nat
  offset : Int
  numBytes : Nat
  blksz_pos : 0 < blksz
  blksz_lt : blksz < 2 ^ 32
  offset_ge : -2 ^ 63 ≤ offset
  offset_lt : offset < 2 ^ 63
  numBytes_pos : 0 < numBytes
  numBytes_lt : numBytes < 2 ^ 32

namespace Request

variable (r : Request)

def partBytes : Nat := (r.part.last - r.part.first + 1) * r.blksz

/-- The position of the first byte; a negative offset counts from the end of the partition. -/
def firstByte : Int := if r.offset < 0 then r.partBytes + r.offset else r.offset

/-- The position of the last byte to transfer, which is one of the partition. -/
def lastByte : Int := min (r.firstByte + r.numBytes - 1) (r.partBytes - 1)

/-- The first byte lies in the partition, and the last one as well unless less will do. -/
def Inside (allowPartial : Bool) : Prop :=
  0 ≤ r.firstByte ∧ r.firstByte < r.partBytes ∧ (allowPartial = true ∨ r.firstByte + r.numBytes ≤ r.partBytes)

/-- `get_margin_pos` gives the blocks and the positions in them. -/
def MarginRight (allowPartial : Bool) : Prop :=
  match getMarginPos r.part.first r.part.last r.blksz r.offset r.numBytes allowPartial with
  | none => ¬ r.Inside allowPartial
  | some m => r.Inside allowPartial ∧ m.blkStart = r.part.first + r.firstByte / r.blksz ∧
      m.start = r.firstByte % r.blksz ∧ m.blkEnd = r.part.first + r.lastByte / r.blksz ∧
      m.end_ = r.lastByte % r.blksz

end Request

theorem u64_natCast {n : Nat} (small : n < 2 ^ 64) : u64 n = n := by
  unfold u64
  omega

theorem Request.div_le_iff (r : Request) (a : Nat) :
    r.part.first + a / r.blksz ≤ r.part.last ↔ a < r.partBytes := by
  have ordered := r.part.ordered
  rw [Request.partBytes, ← Nat.div_lt_iff_lt_mul r.blksz_pos]
  omega

theorem Request.last_div (r : Request) : r.part.first + (r.partBytes - 1) / r.blksz = r.part.last ∧
    (r.partBytes - 1) % r.blksz = r.blksz - 1 := by
  have ordered := r.part.ordered
  have positive := r.blksz_pos
  have bytes : r.partBytes - 1 = (r.part.last - r.part.first) * r.blksz + (r.blksz - 1) := by
    rw [Request.partBytes, Nat.add_mul, Nat.one_mul]
    omega
  rw [bytes, Nat.mul_comm, Nat.mul_add_div positive, Nat.div_eq_of_lt (by omega), Nat.mul_add_mod,
    Nat.mod_eq_of_lt (by omega)]
  omega

section Margin

variable (r : Request) {allowPartial : Bool}

theorem getMarginPos_natCast {o : Nat} (offset : r.offset = o) :
    getMarginPos r.part.first r.part.last r.blksz r.offset r.numBytes allowPartial =
      if r.part.last < r.part.first + (o + r.numBytes - 1) / r.blksz then
        if allowPartial = false then none
        else marginChecked r.part.first r.part.last r.blksz (r.part.first + o / r.blksz) r.part.last (o % r.blksz)
          (r.blksz - 1)
      else marginChecked r.part.first r.part.last r.blksz (r.part.first + o / r.blksz)
        (r.part.first + (o + r.numBytes - 1) / r.blksz) (o % r.blksz) ((o + r.numBytes - 1) % r.blksz) := by
  obtain ⟨ordered, lastSmall, positive⟩ := And.intro r.part.ordered (And.intro r.part.last_lt r.blksz_pos)
  have numPos := r.numBytes_pos
  have numSmall := r.numBytes_lt
  have small := r.offset_lt
  rw [offset] at small ⊢
  have last : (o : Int) + r.numBytes - 1 = (o + r.numBytes - 1 : Nat) := by omega
  have placed (a : Nat) (below : a < 2 ^ 63 + 2 ^ 32) : w64 (a / r.blksz + r.part.first) = r.part.first + a / r.blksz := by
    have quotient := Nat.div_le_self a r.blksz
    generalize a / r.blksz = q at quotient ⊢
    unfold w64
    omega
  rw [getMarginPos, if_neg (by omega), if_neg (by omega), last, u64_natCast (by omega), u64_natCast (by omega)]
  simp only [placed o (by omega), placed (o + r.numBytes - 1) (by omega)]

theorem marginRight_of_nonneg (nonneg : 0 ≤ r.offset) : r.MarginRight allowPartial := by
  obtain ⟨o, offset⟩ : ∃ o : Nat, r.offset = o := ⟨r.offset.toNat, by omega⟩
  have first : r.firstByte = o := by rw [Request.firstByte, if_neg (by omega), offset]
  have positive := r.blksz_pos
  have numPos := r.numBytes_pos
  have whole : 0 < r.partBytes := Nat.mul_pos (by omega) r.blksz_pos
  have lower : ¬ r.part.first + o / r.blksz < r.part.first := Nat.not_lt.mpr (Nat.le_add_right _ _)
  have atFirst := r.div_le_iff o
  have atLast := r.div_le_iff (o + r.numBytes - 1)
  rw [Request.MarginRight, getMarginPos_natCast r offset]
  unfold Request.Inside Request.lastByte
  rw [first]
  by_cases outside : r.part.last < r.part.first + (o + r.numBytes - 1) / r.blksz
  · rw [if_pos outside]
    cases allowPartial with
    | false =>
      rw [if_pos rfl]
      rintro ⟨-, -, absurd_ | fits⟩
      · cases absurd_
      · omega
    | true =>
      rw [if_neg (by decide), marginChecked]
      by_cases behind : r.part.last < r.part.first + o / r.blksz
      · rw [if_pos (Or.inl behind)]
        rintro ⟨-, below, -⟩
        omega
      · obtain ⟨block, position⟩ := r.last_div
        rw [if_neg (not_or.mpr ⟨behind, lower⟩)]
        have clipped : min ((o : Int) + r.numBytes - 1) (r.partBytes - 1) = (r.partBytes - 1 : Nat) := by omega
        rw [clipped]
        refine ⟨⟨by omega, by omega, Or.inl rfl⟩, by push_cast; rfl, by push_cast; rfl, ?_, ?_⟩
        · rw [← Int.natCast_ediv, ← Nat.cast_add, block]
        · rw [← Int.natCast_emod, position]
  · rw [if_neg outside, marginChecked, if_neg (by
      have quotient : o / r.blksz ≤ (o + r.numBytes - 1) / r.blksz := Nat.div_le_div_right (by omega)
      omega)]
    have exact_ : min ((o : Int) + r.numBytes - 1) (r.partBytes - 1) = (o + r.numBytes - 1 : Nat) := by omega
    rw [exact_]
    refine ⟨⟨by omega, by omega, Or.inr (by omega)⟩, by push_cast; rfl, by push_cast; rfl, ?_, ?_⟩
    · rw [← Int.natCast_ediv, ← Nat.cast_add]
    · rw [← Int.natCast_emod]

/-- The offsets that the driver takes a wrong way: those from the end of a partition with blocks of several bytes. -/
theorem getMarginPos_of_neg (several : r.blksz ≠ 1) (neg : r.offset < -1) :
    getMarginPos r.part.first r.part.last r.blksz r.offset r.numBytes allowPartial = none := by
  have positive := r.blksz_pos
  have small := r.blksz_lt
  have lower := r.offset_ge
  have lastSmall := r.part.last_lt
  -- the quotient of a number close to 2^64 is not close to it, but still larger than the number of any block
  have dividend : u64 (r.offset + 1) < 2 ^ 64 ∧ 2 ^ 63 ≤ u64 (r.offset + 1) := by
    unfold u64
    omega
  have least : 1 ≤ u64 (r.offset + 1) / r.blksz := (Nat.le_div_iff_mul_le positive).mpr (by omega)
  have most : u64 (r.offset + 1) / r.blksz ≤ 2 ^ 63 := by
    refine (Nat.div_le_div_left (show 2 ≤ r.blksz by omega) (by decide)).trans ?_
    omega
  have behind : r.part.last < w64 (u64 (r.offset + 1) / r.blksz + r.part.last) := by
    generalize u64 (r.offset + 1) / r.blksz = q at least most ⊢
    unfold w64
    omega
  have refused (blkEnd start end_ : Nat) : marginChecked r.part.first r.part.last r.blksz
      (w64 (u64 (r.offset + 1) / r.blksz + r.part.last)) blkEnd start end_ = none := if_pos (Or.inl behind)
  rw [getMarginPos, if_neg (by have ordered := r.part.ordered; omega), if_pos (by omega)]
  simp only [refused, ite_self]

def lastStart (blksz : Nat) : Nat := if (2 ^ 64 - 1) % blksz = 0 then 0 else w32 (blksz + (2 ^ 64 - 1) % blksz)

theorem lastStart_ne {blksz : Nat} (several : 2 ≤ blksz) (small : blksz < 2 ^ 32) : lastStart blksz ≠ blksz - 1 := by
  have below := Nat.mod_lt (2 ^ 64 - 1) (show 0 < blksz by omega)
  unfold lastStart
  generalize (2 ^ 64 - 1) % blksz = rem at below ⊢
  split
  · omega
  · unfold w32
    omega

theorem getMarginPos_of_last (last : r.offset = -1) :
    getMarginPos r.part.first r.part.last r.blksz r.offset r.numBytes allowPartial =
      if 2 ≤ r.numBytes then
        if allowPartial = false then none
        else marginChecked r.part.first r.part.last r.blksz r.part.last r.part.last (lastStart r.blksz) (r.blksz - 1)
      else marginChecked r.part.first r.part.last r.blksz r.part.last r.part.last (lastStart r.blksz)
        (lastStart r.blksz) := by
  have positive := r.blksz_pos
  have numPos := r.numBytes_pos
  have lastSmall := r.part.last_lt
  have block : w64 (0 / r.blksz + r.part.last) = r.part.last := by
    rw [Nat.zero_div]
    unfold w64
    omega
  have first : u64 (-1 + 1) = 0 := rfl
  have all : u64 (-1) = 2 ^ 64 - 1 := rfl
  rw [getMarginPos, if_neg (by have ordered := r.part.ordered; omega), if_pos (by omega), last, first, all, block]
  by_cases more : 2 ≤ r.numBytes
  · rw [if_pos more, if_pos (by omega)]
    rfl
  · have one : r.numBytes = 1 := by omega
    rw [if_neg more, if_neg (by omega), one]
    have zero : u64 (((1 : Nat) : Int) + -1) = 0 := rfl
    have minus : u64 (((1 : Nat) : Int) + -1 - 1) = 2 ^ 64 - 1 := rfl
    rw [zero, minus, block]
    rfl

theorem w64_add_neg {x : Int} {last : Nat} (lower : -2 ^ 63 ≤ x) (upper : x ≤ 0) (small : last < 2 ^ 32) :
    (0 ≤ x + last ∧ (w64 (u64 x + last) : Int) = x + last) ∨ (x + last < 0 ∧ last < w64 (u64 x + last)) := by
  have word : (u64 x : Int) = x ∧ x = 0 ∨ (u64 x : Int) = 2 ^ 64 + x ∧ x < 0 := by
    unfold u64
    omega
  generalize u64 x = u at word ⊢
  unfold w64
  omega

/-- With blocks of one byte the remainders are right and the quotients wrap as they should. -/
theorem marginRight_of_bytes (bytes : r.blksz = 1) (neg : r.offset < 0) : r.MarginRight allowPartial := by
  obtain ⟨⟨first, last, ordered, lastSmall⟩, blksz, offset, n, positive, small, lower, upper, numPos, numSmall⟩ := r
  obtain rfl : blksz = 1 := bytes
  simp only at neg
  unfold Request.MarginRight Request.Inside Request.lastByte Request.firstByte Request.partBytes getMarginPos
  simp only [if_pos neg, Nat.mod_one, Nat.div_one, Nat.mul_one, if_true, Int.emod_one, Int.ediv_one, Nat.cast_one]
  rw [if_neg (by omega)]
  have start := w64_add_neg (show -2 ^ 63 ≤ offset + 1 by omega) (show offset + 1 ≤ 0 by omega) (show last < 2 ^ 32 by omega)
  generalize w64 (u64 (offset + 1) + last) = blkStart at start ⊢
  by_cases beyond : 0 ≤ offset + n - 1
  · rw [if_pos beyond]
    cases allowPartial with
    | false =>
      rw [if_pos rfl]
      rintro ⟨-, -, no | fits⟩
      · cases no
      · omega
    | true =>
      rw [if_neg (by decide), marginChecked]
      by_cases refused : last < blkStart ∨ blkStart < first
      · rw [if_pos refused]
        omega
      · rw [if_neg refused]
        exact ⟨⟨by omega, by omega, Or.inl rfl⟩, by dsimp only; omega, rfl, by dsimp only; omega, rfl⟩
  · rw [if_neg beyond]
    have end_ := w64_add_neg (show -2 ^ 63 ≤ n + offset by omega) (show n + offset ≤ 0 by omega) (show last < 2 ^ 32 by omega)
    generalize w64 (u64 (n + offset) + last) = blkEnd at end_ ⊢
    rw [marginChecked]
    by_cases refused : last < blkStart ∨ blkStart < first
    · rw [if_pos refused]
      omega
    · rw [if_neg refused]
      simp only
      omega

/-- The positions are right unless an offset from the end, which lies in the partition, is given for blocks of several
bytes. -/
theorem marginRight_iff : r.MarginRight allowPartial ↔ 0 ≤ r.offset ∨ r.blksz = 1 ∨ ¬ r.Inside allowPartial := by
  have positive := r.blksz_pos
  have numPos := r.numBytes_pos
  have ordered := r.part.ordered
  have whole : 0 < r.partBytes := Nat.mul_pos (by omega) r.blksz_pos
  constructor
  · intro right
    by_contra none_
    rw [not_or, not_or, not_not] at none_
    obtain ⟨neg, several, inside⟩ := none_
    unfold Request.MarginRight at right
    by_cases last : r.offset = -1
    · have first : r.firstByte = (r.partBytes - 1 : Nat) := by
        rw [Request.firstByte, if_pos (by omega)]
        omega
      have inOrder : ¬ (r.part.last < r.part.last ∨ r.part.last < r.part.first) := by omega
      simp only [getMarginPos_of_last r last, marginChecked, if_neg inOrder] at right
      have position := r.last_div.2
      have wrong := lastStart_ne (by omega) r.blksz_lt
      have started : ((lastStart r.blksz : Nat) : Int) ≠ r.firstByte % r.blksz := by
        rw [first, ← Int.natCast_emod, position]
        omega
      split at right
      · next none_ => exact right inside
      · next m some_ =>
        split_ifs at some_ <;> cases some_ <;> exact started right.2.2.1
    · rw [getMarginPos_of_neg r several (by omega)] at right
      exact right inside
  · rintro (nonneg | bytes | outside)
    · exact marginRight_of_nonneg r nonneg
    · by_cases nonneg : 0 ≤ r.offset
      · exact marginRight_of_nonneg r nonneg
      · exact marginRight_of_bytes r bytes (by omega)
    · by_cases nonneg : 0 ≤ r.offset
      · exact marginRight_of_nonneg r nonneg
      · by_cases bytes : r.blksz = 1
        · exact marginRight_of_bytes r bytes (by omega)
        · have refused : getMarginPos r.part.first r.part.last r.blksz r.offset r.numBytes allowPartial = none := by
            by_cases last : r.offset = -1
            · have more : 2 ≤ r.numBytes ∧ allowPartial = false := by
                by_contra fewer
                refine outside ?_
                unfold Request.Inside Request.firstByte
                rw [if_pos (by omega)]
                refine ⟨by omega, by omega, ?_⟩
                cases allowPartial with
                | true => exact Or.inl rfl
                | false => exact Or.inr (by simp at fewer; omega)
              rw [getMarginPos_of_last r last, if_pos more.1, if_pos more.2]
            · exact getMarginPos_of_neg r bytes (by omega)
          rw [Request.MarginRight, refused]
          exact outside

end Margin

end UuuFastboot.Avb
