import UuuFastboot.Sparse.Reference

namespace UuuFastboot

open Word Overlay

/-- The byte of `fill_buf` that lands on byte `o` of a FILL chunk of `cnt`
blocks: every round starts again at the front of the buffer, unless the
whole chunk went out in one round. -/
def BlockDevice.fillIndex (d : BlockDevice) (cnt o : Nat) : Nat :=
  if cnt < 2 ^ 31 then o % (d.storage.fillBufNumBlks * d.blksz) else o

theorem fillRound_of_cut {num left : Nat} (cut : num < left) (small : left < 2 ^ 31) :
    fillRound num left = num := if_pos ⟨cut, small⟩

theorem fillRound_of_whole {num left : Nat} (whole : ¬ (num < left ∧ left < 2 ^ 31)) :
    fillRound num left = left := if_neg whole

theorem fillRound_le (num left : Nat) : fillRound num left ≤ left := by
  unfold fillRound
  split <;> omega

theorem BlockDevice.fillIndex_round (d : BlockDevice) {left o : Nat} (inside : o < left * d.blksz) :
    (if o < fillRound d.storage.fillBufNumBlks left * d.blksz then o
      else d.fillIndex (left - fillRound d.storage.fillBufNumBlks left)
        (o - fillRound d.storage.fillBufNumBlks left * d.blksz)) = d.fillIndex left o := by
  unfold fillIndex
  generalize d.storage.fillBufNumBlks = num at *
  by_cases small : left < 2 ^ 31
  · rw [if_pos small]
    by_cases cut : num < left
    · rw [fillRound_of_cut cut small]
      split
      · rename_i first
        exact (Nat.mod_eq_of_lt first).symm
      · rename_i later
        rw [if_pos (by omega)]
        exact (Nat.mod_eq_sub_mod (by omega)).symm
    · have whole := Nat.mul_le_mul_right d.blksz (Nat.le_of_not_lt cut)
      rw [fillRound_of_whole (by omega), if_pos inside, Nat.mod_eq_of_lt (by omega)]
  · rw [if_neg small, fillRound_of_whole (by omega), if_pos inside]

theorem storeBlocks_fst_of_ge {blksz lba : Nat} {dev src : Nat → Cell} {blk n : Nat}
    (done : ¬ w32 (storeBlocks blksz lba dev blk n src).1 < n) (small : n < 2 ^ 32) :
    w32 (storeBlocks blksz lba dev blk n src).1 = n ∧
      (storeBlocks blksz lba dev blk n src).2 = overlay dev (blk * blksz) (n * blksz) src ∧
      (0 < n → blk + n ≤ lba) := by
  unfold storeBlocks at *
  by_cases fits : blk + n ≤ lba
  · simp only [if_pos fits]
    exact ⟨w32_of_lt small, trivial, fun _ => fits⟩
  · simp only [if_neg fits] at *
    obtain rfl : n = 0 := by
      have : w32 0 = 0 := rfl
      omega
    simp [w32]

/-- A FILL loop that comes to its end has covered the blocks that were
left, in one piece, and the device had room for all of them. -/
theorem fillLoop_done (d : BlockDevice) (buf : Nat → Cell) {blkcnt fuel i blk blk' : Nat}
    {dev dev' : Nat → Cell} (bounded : blkcnt < 2 ^ 32) (atMost : i ≤ blkcnt) (position : blk < 2 ^ 32)
    (run : fillLoop d.storage buf blkcnt fuel i blk dev = ((blk', dev'), none)) :
    blk' = blk + (blkcnt - i) ∧ (i < blkcnt → blk' ≤ d.lba) ∧
      dev' = overlay dev (blk * d.blksz) ((blkcnt - i) * d.blksz)
        (fun o => buf (d.fillIndex (blkcnt - i) o)) := by
  induction fuel generalizing i blk dev with
  | zero =>
    unfold fillLoop at run
    split at run
    · cases run
    · obtain rfl : i = blkcnt := by omega
      simp only [Prod.mk.injEq, and_true] at run
      obtain ⟨rfl, rfl⟩ := run
      simp
  | succ fuel ih =>
    unfold fillLoop at run
    by_cases more : i < blkcnt
    · simp only [if_pos more] at run
      split at run
      · cases run
      · rename_i done
        have roundLe := fillRound_le d.storage.fillBufNumBlks (blkcnt - i)
        obtain ⟨count, stored, room⟩ := storeBlocks_fst_of_ge done (by omega)
        have capacity := d.lba_lt
        change fillLoop d.storage buf blkcnt fuel _ (w32 (blk + w32 (storeBlocks _ _ _ _ _ _).1))
          (storeBlocks _ _ _ _ _ _).2 = _ at run
        rw [count, stored] at run
        generalize roundEq : fillRound d.storage.fillBufNumBlks (blkcnt - i) = j at *
        have exact : w32 (blk + j) = blk + j := by
          apply w32_of_lt
          rcases Nat.eq_zero_or_pos j with rfl | positive
          · omega
          · have := room positive
            omega
        rw [exact] at run
        obtain ⟨blkEq, fits, devEq⟩ := ih (by omega) (by omega) run
        refine ⟨by omega, fun _ => ?_, ?_⟩
        · by_cases last : i + j < blkcnt
          · exact fits last
          · have := room (by omega)
            omega
        · rw [devEq, Nat.add_mul, overlay_append, ← Nat.add_mul, show j + (blkcnt - (i + j)) = blkcnt - i by omega]
          apply overlay_congr
          intro o inside
          rw [← roundEq, ← d.fillIndex_round inside, apply_ite buf, roundEq,
            show blkcnt - (i + j) = blkcnt - i - j by omega]
    · simp only [if_neg more, Prod.mk.injEq, and_true] at run
      obtain ⟨rfl, rfl⟩ := run
      obtain rfl : i = blkcnt := by omega
      simp

theorem fillLoop_stuck {D : Type} {info : SparseStorage D} (buf : Nat → Cell) (fuel blk : Nat) (dev : D) {blkcnt i : Nat}
    (none_fit : info.fillBufNumBlks = 0) (more : i < blkcnt) (small : blkcnt - i < 2 ^ 31) :
    (fillLoop info buf blkcnt fuel i blk dev).2 ≠ none := by
  induction fuel generalizing blk dev with
  | zero => simp [fillLoop, more]
  | succ fuel ih =>
    unfold fillLoop
    rw [if_pos more, none_fit, fillRound_of_cut (by omega) small]
    simp only [Nat.not_lt_zero, if_false, Nat.add_zero]
    exact ih _ _

/-- The fill value reaches every byte of a FILL chunk of `len` bytes: one
filled buffer covers it, or the rounds repeat whole words. -/
def BlockDevice.Fillable (d : BlockDevice) (len : Nat) : Prop :=
  len ≤ 4 * d.storage.fillBufWords ∨ (4 ∣ d.blksz * d.storage.fillBufNumBlks ∧ len / d.blksz < 2 ^ 31)

instance (d : BlockDevice) (len : Nat) : Decidable (d.Fillable len) :=
  inferInstanceAs (Decidable (_ ∨ _))

theorem BlockDevice.fillBufWords_le (d : BlockDevice) :
    4 * d.storage.fillBufWords ≤ d.storage.fillBufNumBlks * d.blksz := by
  unfold SparseStorage.fillBufWords
  rw [Nat.mul_comm d.storage.fillBufNumBlks]
  exact Nat.mul_div_le _ _

theorem byteOfWord_mod (v i : Nat) {n : Nat} (words : 4 ∣ n) : byteOfWord v (i % n) = byteOfWord v i := by
  unfold byteOfWord
  rw [Nat.mod_mod_of_dvd _ words]

theorem BlockDevice.fillBuf_of_fillable (d : BlockDevice) (v : Nat) {cnt o : Nat}
    (fillable : d.Fillable (cnt * d.blksz)) (inside : o < cnt * d.blksz)
    (some_room : cnt < 2 ^ 31 → 0 < d.storage.fillBufNumBlks) :
    d.storage.fillBuf v (d.fillIndex cnt o) = some (byteOfWord v o) := by
  have positive : 0 < d.blksz := by
    rcases Nat.eq_zero_or_pos d.blksz with zero | positive
    · rw [zero] at inside; omega
    · exact positive
  have bound := d.fillBufWords_le
  rcases fillable with covered | ⟨words, small⟩
  · have same : d.fillIndex cnt o = o := by
      unfold fillIndex
      split
      · exact Nat.mod_eq_of_lt (by omega)
      · rfl
    rw [same]
    exact if_pos (by omega)
  · rw [Nat.mul_div_cancel _ positive] at small
    have total : 4 * d.storage.fillBufWords = d.storage.fillBufNumBlks * d.blksz := by
      unfold SparseStorage.fillBufWords
      rw [Nat.mul_comm d.storage.fillBufNumBlks]
      exact Nat.mul_div_cancel' words
    unfold fillIndex SparseStorage.fillBuf
    rw [if_pos small, total, if_pos (Nat.mod_lt _ (Nat.mul_pos (some_room small) positive)),
      byteOfWord_mod _ _ (by rwa [Nat.mul_comm])]

/-- When the condition fails, some byte of the chunk comes from the part
of the buffer that was never filled. -/
theorem BlockDevice.fillBuf_of_not_fillable (d : BlockDevice) (v : Nat) {cnt : Nat}
    (unfillable : ¬ d.Fillable (cnt * d.blksz)) :
    ∃ o < cnt * d.blksz, d.storage.fillBuf v (d.fillIndex cnt o) = none := by
  obtain ⟨long, crooked⟩ := not_or.mp unfillable
  have positive : 0 < d.blksz := by
    rcases Nat.eq_zero_or_pos d.blksz with zero | positive
    · rw [zero] at long; omega
    · exact positive
  have bound := d.fillBufWords_le
  rw [Nat.mul_div_cancel _ positive] at crooked
  by_cases whole : cnt * d.blksz ≤ d.storage.fillBufNumBlks * d.blksz ∨ ¬ cnt < 2 ^ 31
  · refine ⟨cnt * d.blksz - 1, by omega, ?_⟩
    have same : d.fillIndex cnt (cnt * d.blksz - 1) = cnt * d.blksz - 1 := by
      unfold fillIndex
      split
      · exact Nat.mod_eq_of_lt (by omega)
      · rfl
    rw [same]
    exact if_neg (by omega)
  · obtain ⟨longer, small⟩ := not_or.mp whole
    have gap : 4 * d.storage.fillBufWords ≠ d.storage.fillBufNumBlks * d.blksz := by
      intro equal
      exact crooked ⟨⟨_, by rw [Nat.mul_comm, equal]⟩, by omega⟩
    refine ⟨d.storage.fillBufNumBlks * d.blksz - 1, by omega, ?_⟩
    unfold fillIndex
    rw [if_pos (by omega), Nat.mod_eq_of_lt (by omega)]
    exact if_neg (by omega)

end UuuFastboot
