import UuuFastboot.Lib.Bytes
import Mathlib.Logic.Function.Iterate

namespace Crc32

open Bytes

/-- One division step by the polynomial `0xedb88320`. -/
def divStep (c : BitVec 32) : BitVec 32 := if c.getLsbD 0 then 0xedb88320#32 ^^^ (c >>> 1) else c >>> 1

/-- Entry `n` of the table, as `make_crc_table` fills it. -/
def crcTable (n : BitVec 8) : BitVec 32 := divStep^[8] (n.setWidth 32)

def doCrc (crc : BitVec 32) (byte : UInt8) : BitVec 32 :=
  crcTable (crc.setWidth 8 ^^^ byte.toBitVec) ^^^ (crc >>> 8)

/-- The register after the first `len` bytes. -/
def crcLoop (b : Buf) : Nat → BitVec 32
  | 0 => BitVec.allOnes 32
  | len + 1 => doCrc (crcLoop b len) (b len)

/-- `crc32(0, b, len)` -/
def crc32 (b : Buf) (len : Nat) : Nat := (crcLoop b len ^^^ BitVec.allOnes 32).toNat

theorem crc32_lt (b : Buf) (len : Nat) : crc32 b len < 2 ^ 32 := BitVec.isLt _

theorem crcLoop_congr {b c : Buf} {len : Nat} (same : ∀ i < len, b i = c i) : crcLoop b len = crcLoop c len := by
  induction len with
  | zero => rfl
  | succ len ih =>
    rw [crcLoop, crcLoop, ih (fun i below => same i (by omega)), same len (by omega)]

theorem crc32_congr {b c : Buf} {len : Nat} (same : ∀ i < len, b i = c i) : crc32 b len = crc32 c len := by
  unfold crc32
  rw [crcLoop_congr same]

theorem divStep_top (c : BitVec 32) : (divStep c).getLsbD 31 = c.getLsbD 0 := by
  unfold divStep
  split
  · next low =>
    rw [low, BitVec.getLsbD_xor, BitVec.getLsbD_ushiftRight, BitVec.getLsbD_of_ge c _ (by omega)]
    rfl
  · next low =>
    rw [BitVec.getLsbD_ushiftRight, BitVec.getLsbD_of_ge c _ (by omega)]
    exact (Bool.eq_false_of_not_eq_true low).symm

theorem divStep_injective : Function.Injective divStep := by
  intro x y same
  have low : x.getLsbD 0 = y.getLsbD 0 := by rw [← divStep_top, same, divStep_top]
  have high : x >>> 1 = y >>> 1 := by
    unfold divStep at same
    rw [low] at same
    split at same
    · exact BitVec.xor_right_inj _ |>.mp same
    · exact same
  apply BitVec.eq_of_getLsbD_eq
  intro i _
  cases i with
  | zero => exact low
  | succ i =>
    have bit := congrArg (fun c => BitVec.getLsbD c i) high
    simp only [BitVec.getLsbD_ushiftRight] at bit
    rwa [Nat.add_comm 1 i] at bit

theorem crcTable_injective : Function.Injective crcTable := by
  intro m n same
  have wide := divStep_injective.iterate 8 same
  have narrow := congrArg (BitVec.setWidth 8) wide
  rwa [BitVec.setWidth_setWidth_of_le _ (by omega), BitVec.setWidth_setWidth_of_le _ (by omega),
    BitVec.setWidth_eq, BitVec.setWidth_eq] at narrow

theorem doCrc_injective (crc : BitVec 32) : Function.Injective (doCrc crc) := by
  intro a b same
  have entry : crcTable (crc.setWidth 8 ^^^ a.toBitVec) = crcTable (crc.setWidth 8 ^^^ b.toBitVec) :=
    BitVec.xor_left_inj _ |>.mp same
  exact UInt8.toBitVec_inj.mp (BitVec.xor_right_inj _ |>.mp (crcTable_injective entry))

theorem crc32_last {b c : Buf} {len : Nat} (same : ∀ i < len, b i = c i) (last : b len ≠ c len) :
    crc32 b (len + 1) ≠ crc32 c (len + 1) := by
  intro equal
  have register : doCrc (crcLoop b len) (b len) = doCrc (crcLoop c len) (c len) :=
    BitVec.xor_left_inj _ |>.mp (BitVec.eq_of_toNat_eq equal)
  rw [crcLoop_congr same] at register
  exact last (doCrc_injective _ register)

end Crc32
