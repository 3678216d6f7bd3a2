import UuuFastboot.Sparse.Format
import UuuFastboot.Gadget.Env
import Mathlib.Data.Set.Function

namespace UuuFastboot

open CString Radix

/-- An MMC card: the blocks and the contents of each hardware partition, and
what the driver keeps about it. `emmc` is `part_config !=
MMCPART_NOAVAILABLE`, `hwpart` the hardware partition that is selected and
`partType` the kind of partition table that was found last. -/
structure Card where
  lba : Nat → Nat
  emmc : Bool
  hasInit : Bool
  hwpart : Nat
  partType : Nat
  contents : Nat → Nat → Cell
  lba_lt : ∀ part, lba part < 2 ^ 32

/-- All cards, and the one that the `mmc` command works on. -/
structure Storage where
  card : Nat → Option Card
  currDevice : Nat

/-- How an initialisation goes, and what `part_init` finds at its end. The
card falls back to its user area as soon as it is reset, also when the rest
fails. -/
structure InitOutcome where
  ok : Bool
  reset : Bool
  partType : Nat

/-- How selecting a card and one of its hardware partitions goes. -/
structure SelectOutcome where
  init : InitOutcome
  switch : Bool

/-- How a write goes; one that fails may have stored some of its blocks. -/
structure WriteOutcome where
  ok : Bool
  stored : Nat → Bool

def Storage.put (st : Storage) (dev : Nat) (c : Card) : Storage :=
  { st with card := Function.update st.card dev (some c) }

def Card.mmcInit (o : InitOutcome) (c : Card) : Bool × Card :=
  if c.hasInit then (true, c)
  else if o.ok then (true, { c with hasInit := true, hwpart := 0, partType := o.partType })
  else (false, { c with hwpart := if o.reset then 0 else c.hwpart })

/-- `mmc_select_hwpart`; only an eMMC has other partitions than the user area. -/
def Card.selectHwpart (switch : Bool) (part : Nat) (c : Card) : Bool × Card :=
  if c.hwpart = part then (true, c)
  else if c.emmc && switch then (true, { c with hwpart := part })
  else (false, c)

/-- `init_mmc_device` without force, followed by the selection of `part`. -/
def Card.attach (o : SelectOutcome) (part : Nat) (c : Card) : Bool × Card :=
  let init := c.mmcInit o.init
  if init.1 then init.2.selectHwpart o.switch part else init

/-- The blocks at `blk` that reach the selected hardware partition. No block
is stored behind its end. -/
def Card.store (c : Card) (blk cnt : Nat) (stored : Nat → Bool) (src : Nat → Cell) : Card :=
  { c with
    contents := Function.update c.contents c.hwpart (fun a =>
      if 512 * blk ≤ a ∧ a < 512 * (blk + cnt) ∧ a < 512 * c.lba c.hwpart ∧ stored ((a - 512 * blk) / 512) then
        src (a - 512 * blk)
      else c.contents c.hwpart a) }

/-- `mmc_bwrite`: all blocks, or 0 after the first error. -/
def Card.blkDwrite (o : WriteOutcome) (c : Card) (blk cnt : Nat) (src : Nat → Cell) : Nat × Card :=
  if o.ok ∧ blk + cnt ≤ c.lba c.hwpart then (cnt, c.store blk cnt (fun _ => true) src)
  else (0, c.store blk cnt o.stored src)

/-- `find_mmc_device` and an operation on the card it finds. -/
def Storage.withCard (st : Storage) (dev : Nat) (op : Card → Bool × Card) : Bool × Storage :=
  match st.card dev with
  | none => (false, st)
  | some c => ((op c).1, st.put dev (op c).2)

/-- `blk_get_dev("mmc", dev)` -/
def Storage.blkGetDev (o : SelectOutcome) (st : Storage) (dev : Nat) : Bool × Storage :=
  st.withCard dev (Card.attach o 0)

/-- A number as the `mmc` command gets it: printed with `%x` and read as a
decimal number. -/
def reparse (n : Nat) : Nat := simpleStrtoul (hexText n) 10

/-- The arguments of `mmc dev`. -/
structure MmcDev where
  dev : Nat
  part : Option Nat
  deriving DecidableEq

def partAccessMask : Nat := 7

/-- `mmc dev DEV [PART]`. The card becomes the current one only when all
went well. -/
def Storage.mmcDev (o : SelectOutcome) (st : Storage) (target : MmcDev) : Bool × Storage :=
  let dev := reparse target.dev
  let part := (target.part.map reparse).getD 0
  if partAccessMask < part then (false, st)
  else
    let out := st.withCard dev (fun c => Card.attach o part { c with hasInit := false })
    if out.1 then (true, { out.2 with currDevice := dev }) else out

/-- How `mmc write` goes. -/
structure MmcWriteOutcome where
  init : InitOutcome
  wp : Bool
  write : WriteOutcome

/-- `mmc write` on the card at hand. -/
def Card.mmcWrite (o : MmcWriteOutcome) (blk cnt : Nat) (src : Nat → Cell) (c : Card) : Bool × Card :=
  let init := c.mmcInit o.init
  if init.1 && !o.wp then
    let out := init.2.blkDwrite o.write blk cnt src
    (out.1 == cnt, out.2)
  else (false, init.2)

def Storage.mmcWrite (o : MmcWriteOutcome) (st : Storage) (blk cnt : Nat) (src : Nat → Cell) : Bool × Storage :=
  st.withCard st.currDevice (Card.mmcWrite o blk cnt src)

end UuuFastboot
