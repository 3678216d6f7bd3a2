import UuuFastboot.Sparse.Bounds
import UuuFastboot.Sparse.Passing
import UuuFastboot.Sparse.Reading
import UuuFastboot.Sparse.Bounce
import UuuFastboot.Gadget.TransferBuffer
import UuuFastboot.Gadget.CommandChoice
import UuuFastboot.Gadget.Copies
import UuuFastboot.Gadget.GetvarBounds
import UuuFastboot.Gadget.ResponseFifo
import UuuFastboot.Flash.Response
import UuuFastboot.Flash.Delivery
import UuuFastboot.Flash.Erase
import UuuFastboot.Flash.PtableLookup
import UuuFastboot.Flash.SizeCheck
import UuuFastboot.Gpt.Backup
import UuuFastboot.Lock.Unlock
import UuuFastboot.Ext4.ReadFile
import UuuFastboot.Ext4.Recovery
import UuuFastboot.Ext4.AllocateMap
import UuuFastboot.Ext4.ExtentWalk
import UuuFastboot.Ext4.FailedWrite
import UuuFastboot.Ext4.BlockAllocator
import UuuFastboot.Ext4.InodePlace
import UuuFastboot.Ext4.ParentPath
import UuuFastboot.Ext4.DirInsert
import UuuFastboot.Ext4.ByteAccess
import UuuFastboot.Fat.RoundTrip
import UuuFastboot.Fat.Allocate
import UuuFastboot.Part.DosLinks
import UuuFastboot.Avb.ReadPartition
import UuuFastboot.Gpt.Takeover
import UuuFastboot.Avb.WritePartition
import UuuFastboot.Avb.DualBoot
import UuuFastboot.Avb.BootSeries
import UuuFastboot.Gui.RepairScript
import UuuFastboot.Gui.Template
