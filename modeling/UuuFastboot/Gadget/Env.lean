import UuuFastboot.Lib.Radix

namespace UuuFastboot

open Word CString Radix

abbrev Env := CStr → Option CStr

def setenv (env : Env) (name value : CStr) : Env := Function.update env name (some value)

/-- `simple_strtoul`: a leading `0x` in front of a digit makes the number
hexadecimal whatever base is asked for; base 0 takes a leading `0` for octal. -/
def simpleStrtoul (text : CStr) (base : Nat) : Nat :=
  match text with
  | 48 :: 120 :: d :: rest =>
    if (digitValue d).isSome then readDigits 16 0 (d :: rest)
    else readDigits (if base = 0 then 8 else base) 0 (120 :: d :: rest)
  | 48 :: rest => readDigits (if base = 0 then 8 else base) 0 rest
  | _ => readDigits (if base = 0 then 10 else base) 0 text

def getenvUlong (env : Env) (name : CStr) (base defaultVal : Nat) : Nat :=
  match env name with
  | some text => simpleStrtoul text base
  | none => defaultVal

def setenvHex (env : Env) (name : CStr) (value : Nat) : Env := setenv env name (hexText value)

@[simp] theorem setenv_self (env : Env) (name value : CStr) : setenv env name value name = some value :=
  Function.update_self ..

theorem setenv_of_ne {env : Env} {name other value : CStr} (differ : other ≠ name) :
    setenv env name value other = env other := Function.update_of_ne differ ..

theorem readDigits_lt {base acc : Nat} {text : CStr} (small : acc < 2 ^ 32) : readDigits base acc text < 2 ^ 32 := by
  induction text generalizing acc with
  | nil => exact small
  | cons c rest ih =>
    rw [readDigits]
    split
    · exact small
    · split
      · exact ih (w32_lt _)
      · exact small

theorem simpleStrtoul_lt (text : CStr) (base : Nat) : simpleStrtoul text base < 2 ^ 32 := by
  unfold simpleStrtoul
  split
  · split <;> exact readDigits_lt (by decide)
  · exact readDigits_lt (by decide)
  · exact readDigits_lt (by decide)

theorem simpleStrtoul_hexText {n : Nat} (word : n < 2 ^ 32) : simpleStrtoul (hexText n) 16 = n := by
  have fits : n < 16 ^ (7 + 1) := word
  rcases Nat.eq_zero_or_pos n with rfl | positive
  · rfl
  · obtain ⟨v, rest, positiveV, small, same⟩ := hexDigits_head positive fits
    have digits := readDigits_hexDigits fits word
    rw [same] at digits
    have nonzero : hexDigit v ≠ 48 := by interval_cases v <;> decide
    rw [hexText, same]
    unfold simpleStrtoul
    split
    · rename_i text d tail match_eq
      exact absurd (List.cons.inj match_eq).1 nonzero
    · rename_i text tail _ match_eq
      exact absurd (List.cons.inj match_eq).1 nonzero
    · exact digits

theorem getenvUlong_lt {env : Env} {name : CStr} {base defaultVal : Nat} (small : defaultVal < 2 ^ 32) :
    getenvUlong env name base defaultVal < 2 ^ 32 := by
  unfold getenvUlong
  split
  · exact simpleStrtoul_lt _ _
  · exact small

theorem getenvUlong_setenvHex {env : Env} {name : CStr} {value defaultVal : Nat} (word : value < 2 ^ 32) :
    getenvUlong (setenvHex env name value) name 16 defaultVal = value := by
  rw [getenvUlong, setenvHex, setenv_self]
  exact simpleStrtoul_hexText word

theorem getenvUlong_setenv_of_ne {env : Env} {name other value : CStr} {base defaultVal : Nat}
    (differ : other ≠ name) :
    getenvUlong (setenv env name value) other base defaultVal = getenvUlong env other base defaultVal := by
  unfold getenvUlong
  rw [setenv_of_ne differ]

end UuuFastboot
