import Mathlib.Tactic

namespace CString

/-- The bytes of a C string in front of its terminator. -/
abbrev CStr := List UInt8

/-- A string literal as its bytes. -/
def cstr (s : String) : CStr := s.toList.map (fun c => UInt8.ofNat c.toNat)

/-- `strncmp(s, m + off, strlen(s)) == 0` -/
def startsWith (m : Nat → UInt8) (off : Nat) : CStr → Bool
  | [] => true
  | c :: rest => m off == c && startsWith m (off + 1) rest

/-- The string at `off`, of which at most `bound` bytes are looked at. -/
def textAt (m : Nat → UInt8) (off : Nat) : Nat → CStr
  | 0 => []
  | bound + 1 => if m off = 0 then [] else m off :: textAt m (off + 1) bound

/-- `strsep` for one delimiter: the position behind the first delimiter. -/
def strsep (delim : UInt8) : CStr → Option Nat
  | [] => none
  | c :: rest => if c = delim then some 1 else (strsep delim rest).map (· + 1)

/-- `strstr`: the string from the first occurrence of `needle` on. -/
def strstr (needle : CStr) : CStr → Option CStr
  | [] => if needle = [] then some [] else none
  | c :: rest => if needle.isPrefixOf (c :: rest) then some (c :: rest) else strstr needle rest

/-- `strncat(dest, src, count)` -/
def strncat (dest src : CStr) (count : Nat) : CStr := dest ++ src.take count

/-- `snprintf(dest, size, ..)` of the string `text`. -/
def snprintf (dest text : CStr) (size : Nat) : CStr := if size = 0 then dest else text.take (size - 1)

/-- `snprintf(dest + strlen(dest), size, ..)` of the string `text`. -/
def snprintfAt (dest text : CStr) (size : Nat) : CStr := if size = 0 then dest else dest ++ text.take (size - 1)

theorem startsWith_iff {m : Nat → UInt8} {off : Nat} {s : CStr} :
    startsWith m off s = true ↔ ∀ i, ∀ below : i < s.length, m (off + i) = s[i] := by
  induction s generalizing off with
  | nil => simp [startsWith]
  | cons c rest ih =>
    simp only [startsWith, Bool.and_eq_true, beq_iff_eq, ih, List.length_cons]
    constructor
    · rintro ⟨head, tail⟩ i below
      cases i with
      | zero => exact head
      | succ i =>
        have same := tail i (by omega)
        rw [show off + 1 + i = off + (i + 1) by omega] at same
        simpa using same
    · intro all
      refine ⟨all 0 (by omega), fun i below => ?_⟩
      have same := all (i + 1) (by omega)
      rw [show off + 1 + i = off + (i + 1) by omega]
      simpa using same

theorem textAt_eq_map {m : Nat → UInt8} {off len bound : Nat} (ends : m (off + len) = 0)
    (chars : ∀ i < len, m (off + i) ≠ 0) (room : len < bound) :
    textAt m off bound = (List.range len).map (fun i => m (off + i)) := by
  induction len generalizing off bound with
  | zero =>
    obtain ⟨bound, rfl⟩ : ∃ n, bound = n + 1 := ⟨bound - 1, by omega⟩
    rw [Nat.add_zero] at ends
    rw [textAt, if_pos ends]
    rfl
  | succ len ih =>
    obtain ⟨bound, rfl⟩ : ∃ n, bound = n + 1 := ⟨bound - 1, by omega⟩
    have first := chars 0 (by omega)
    rw [Nat.add_zero] at first
    have rest := @ih (off + 1) bound (by rw [Nat.add_assoc, Nat.add_comm 1]; exact ends)
      (fun i below => by rw [Nat.add_assoc, Nat.add_comm 1]; exact chars (i + 1) (by omega)) (by omega)
    rw [textAt, if_neg first, rest, List.range_succ_eq_map, List.map_cons, List.map_map]
    refine congrArg₂ _ rfl (List.map_congr_left (fun i _ => ?_))
    rw [Function.comp_apply, Nat.add_assoc, Nat.add_comm 1]

end CString
