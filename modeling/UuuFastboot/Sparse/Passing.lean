import UuuFastboot.Sparse.Writer

namespace UuuFastboot

open Word

section

variable {D : Type}

/-- `P` survives the writes that are reported in full, and `R` is what is left
of it after any other write. -/
structure SparseStorage.Carries (info : SparseStorage D) (P R : D → Prop) : Prop where
  passed : ∀ dev blk n src, P dev → n ≤ w32 (info.write dev blk n src).1 → P (info.write dev blk n src).2
  failed : ∀ dev blk n src, P dev → R (info.write dev blk n src).2
  weaken : ∀ dev, P dev → R dev

/-- `P` while the run goes on, `R` once it has stopped. -/
def Carried (P R : D → Prop) (dev : D) (stop : Option SparseStop) : Prop := R dev ∧ (stop = none → P dev)

variable {info : SparseStorage D} {P R : D → Prop} {m : Mem} {hdr : SparseHeader} {fuel : Nat}

theorem SparseStorage.Carries.goesOn (carries : info.Carries P R) {dev : D} (holds : P dev)
    (stop : Option SparseStop) : Carried P R dev stop := ⟨carries.weaken dev holds, fun _ => holds⟩

theorem carried_stopped {dev : D} {stop : SparseStop} (holds : R dev) : Carried P R dev (some stop) :=
  ⟨holds, fun running => by cases running⟩

section

variable (carries : info.Carries P R)
include carries

theorem fillLoop_carried {buf : Nat → Cell} {blkcnt i blk : Nat} {dev : D}
    (holds : P dev) :
    Carried P R (fillLoop info buf blkcnt fuel i blk dev).1.2 (fillLoop info buf blkcnt fuel i blk dev).2 := by
  induction fuel generalizing i blk dev with
  | zero =>
    rw [fillLoop]
    split <;> exact carries.goesOn holds _
  | succ fuel ih =>
    rw [fillLoop]
    split
    · dsimp only
      split
      · exact carried_stopped (carries.failed _ _ _ _ holds)
      · rename_i done
        exact ih (carries.passed _ _ _ _ holds (Nat.le_of_not_lt done))
    · exact carries.goesOn holds _

theorem rawChunk_carried {ch : ChunkHeader} {data : Nat} {c : SparseCursor D}
    (holds : P c.dev) :
    Carried P R (rawChunk info m hdr ch data c).1.dev (rawChunk info m hdr ch data c).2 := by
  unfold rawChunk
  dsimp only
  split
  · exact carries.goesOn holds _
  split
  · exact carries.goesOn holds _
  split
  · exact carried_stopped (carries.failed _ _ _ _ holds)
  · rename_i done
    exact carries.goesOn (carries.passed _ _ _ _ holds (Nat.le_of_not_lt done)) _

theorem fillChunk_carried {ch : ChunkHeader} {data : Nat} {alloc : Bool}
    {c : SparseCursor D} (holds : P c.dev) :
    Carried P R (fillChunk info m hdr ch data alloc fuel c).1.dev (fillChunk info m hdr ch data alloc fuel c).2 := by
  unfold fillChunk
  dsimp only
  generalize fillEq : fillLoop info (info.fillBuf (m.u32 data)) (chunkBlkcnt info hdr ch) fuel 0 c.blk c.dev = out
  have loop : Carried P R out.1.2 out.2 := by
    rw [← fillEq]
    exact fillLoop_carried carries holds
  split
  · exact carries.goesOn holds _
  split
  · exact carries.goesOn holds _
  split
  · exact carries.goesOn holds _
  split
  · exact carried_stopped loop.1
  · rename_i finished
    split <;> exact carries.goesOn (loop.2 finished) _

theorem chunkStep_carried {alloc : Bool} {c : SparseCursor D} (holds : P c.dev) :
    Carried P R (chunkStep info m hdr alloc fuel c).1.dev (chunkStep info m hdr alloc fuel c).2 := by
  unfold chunkStep
  dsimp only
  split
  · exact rawChunk_carried carries holds
  · exact fillChunk_carried carries holds
  · exact carries.goesOn holds _
  · unfold crc32Chunk
    split <;> exact carries.goesOn holds _
  · exact carries.goesOn holds _

theorem chunkLoop_carried {alloc : Nat → Bool} {c : SparseCursor D} (holds : P c.dev)
    (count : Nat) :
    Carried P R (chunkLoop info m hdr alloc fuel c count).1.dev (chunkLoop info m hdr alloc fuel c count).2 := by
  induction count with
  | zero => exact carries.goesOn holds _
  | succ count ih =>
    rw [chunkLoop]
    split
    · rename_i stop stopped
      rw [stopped]
      exact carried_stopped ih.1
    · rename_i running
      exact chunkStep_carried carries (ih.2 running)

theorem writeSparseImage_carried {alloc : Nat → Bool} {dev : D} (holds : P dev) :
    R (writeSparseImage info m alloc fuel dev).1.dev ∧
      ((writeSparseImage info m alloc fuel dev).2 = .okay → P (writeSparseImage info m alloc fuel dev).1.dev) := by
  have start : P (firstCursor info (sparseHeader m) dev).dev := holds
  unfold writeSparseImage
  dsimp only
  generalize loopEq : chunkLoop info m (sparseHeader m) alloc fuel (firstCursor info (sparseHeader m) dev)
    (sparseHeader m).totalChunks = out
  have loop : Carried P R out.1.dev out.2 := by
    rw [← loopEq]
    exact chunkLoop_carried carries start _
  split
  · exact ⟨carries.weaken _ holds, fun _ => holds⟩
  split
  · exact ⟨carries.weaken _ holds, fun _ => holds⟩
  split
  · exact ⟨loop.1, fun okay => by cases okay⟩
  · rename_i running
    split <;> exact ⟨loop.1, fun _ => loop.2 running⟩

end

end

end UuuFastboot
