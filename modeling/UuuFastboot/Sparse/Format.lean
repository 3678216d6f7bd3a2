import UuuFastboot.Lib.Word
import UuuFastboot.Lib.Overlay

namespace UuuFastboot

open Word Overlay

/-- Memory as the 32-bit target addresses it, relative to a pointer the
code is given; an access past the top of the address space wraps. -/
abbrev Mem := Nat → UInt8

/-- A byte of a heap block or of a device: `none` where nothing that the
program did determines the value. -/
abbrev Cell := Option UInt8

namespace Mem

def byte (m : Mem) (a : Nat) : UInt8 := m (w32 a)

def u16 (m : Mem) (a : Nat) : Nat := (m.byte a).toNat + 2 ^ 8 * (m.byte (a + 1)).toNat

def u32 (m : Mem) (a : Nat) : Nat := m.u16 a + 2 ^ 16 * m.u16 (a + 2)

theorem byte_congr (m : Mem) {a b : Nat} (same : w32 a = w32 b) : m.byte a = m.byte b := by
  unfold byte
  rw [same]

theorem u16_congr (m : Mem) {a b : Nat} (same : w32 a = w32 b) : m.u16 a = m.u16 b := by
  unfold u16
  rw [m.byte_congr same, m.byte_congr (w32_add_congr same 1)]

theorem u32_congr (m : Mem) {a b : Nat} (same : w32 a = w32 b) : m.u32 a = m.u32 b := by
  unfold u32
  rw [m.u16_congr same, m.u16_congr (w32_add_congr same 2)]

theorem u16_lt (m : Mem) (a : Nat) : m.u16 a < 2 ^ 16 := by
  have low := (m.byte a).toNat_lt
  have high := (m.byte (a + 1)).toNat_lt
  unfold u16
  omega

theorem u32_lt (m : Mem) (a : Nat) : m.u32 a < 2 ^ 32 := by
  have low := m.u16_lt a
  have high := m.u16_lt (a + 2)
  unfold u32
  omega

end Mem

/-- `sparse_header_t`, without the minor version and the checksum, which no
code of the writer reads. -/
structure SparseHeader where
  magic : Nat
  majorVersion : Nat
  fileHdrSz : Nat
  chunkHdrSz : Nat
  blkSz : Nat
  totalBlks : Nat
  totalChunks : Nat

/-- `sizeof(sparse_header_t)` -/
def sizeofSparseHeader : Nat := 28

def sparseHeader (m : Mem) : SparseHeader where
  magic := m.u32 0
  majorVersion := m.u16 4
  fileHdrSz := m.u16 8
  chunkHdrSz := m.u16 10
  blkSz := m.u32 12
  totalBlks := m.u32 16
  totalChunks := m.u32 20

def sparseHeaderMagic : Nat := 0xed26ff3a

def isSparseImage (m : Mem) : Bool :=
  (sparseHeader m).magic == sparseHeaderMagic && (sparseHeader m).majorVersion == 1

/-- The four values of `chunk_type` that `sparse_format.h` defines. -/
inductive ChunkType where
  | raw
  | fill
  | dontCare
  | crc32
  deriving DecidableEq, Repr

def chunkTypeOf (code : Nat) : Option ChunkType :=
  if code = 0xCAC1 then some .raw
  else if code = 0xCAC2 then some .fill
  else if code = 0xCAC3 then some .dontCare
  else if code = 0xCAC4 then some .crc32
  else none

/-- `chunk_header_t`; `chunkType` is `none` for a type the format does not
define. -/
structure ChunkHeader where
  chunkType : Option ChunkType
  chunkSz : Nat
  totalSz : Nat

/-- `sizeof(chunk_header_t)` -/
def sizeofChunkHeader : Nat := 12

def chunkHeader (m : Mem) (a : Nat) : ChunkHeader where
  chunkType := chunkTypeOf (m.u16 a)
  chunkSz := m.u32 (a + 4)
  totalSz := m.u32 (a + 8)

theorem chunkHeader_congr (m : Mem) {a b : Nat} (same : w32 a = w32 b) :
    chunkHeader m a = chunkHeader m b := by
  unfold chunkHeader
  rw [m.u16_congr same, m.u32_congr (w32_add_congr same 4), m.u32_congr (w32_add_congr same 8)]

/-! Images written down field by field. -/

def le16 (n : Nat) : List UInt8 := [UInt8.ofNat n, UInt8.ofNat (n / 2 ^ 8)]

def le32 (n : Nat) : List UInt8 := le16 n ++ le16 (n / 2 ^ 16)

/-- Some bytes in front of otherwise zero memory. -/
def memOf (bytes : List UInt8) : Mem := fun a => bytes.getD a 0

/-- Header of a first-revision image of 4096-byte blocks. -/
def headerBytes (totalBlks totalChunks : Nat) : List UInt8 :=
  le32 sparseHeaderMagic ++ le16 1 ++ le16 0 ++ le16 28 ++ le16 12 ++ le32 4096 ++ le32 totalBlks ++
    le32 totalChunks ++ le32 0

def chunkHeaderBytes (code chunkSz totalSz : Nat) : List UInt8 :=
  le16 code ++ le16 0 ++ le32 chunkSz ++ le32 totalSz

end UuuFastboot
