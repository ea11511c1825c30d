import DiskStack.Block.RamDisk
import DiskStack.Script.Boot
import DiskStack.Proofs.Ownership
import DiskStack.Proofs.BlockStore
import DiskStack.Proofs.SectorStore
import DiskStack.Proofs.OfferOrder
import DiskStack.Proofs.BlockDevice
import DiskStack.Proofs.SectorRanges
import DiskStack.Proofs.Regular
import DiskStack.Proofs.Waiting
import DiskStack.Proofs.Interrupts
import DiskStack.Proofs.Watch
import DiskStack.Proofs.DriveInvariant
import DiskStack.Proofs.Wakeups
import DiskStack.Proofs.SectorFailures
import DiskStack.Proofs.Publications
import DiskStack.Proofs.Collection
import DiskStack.Proofs.DiskCalls
import DiskStack.Proofs.HandshakeCommands
import DiskStack.Proofs.LockWaiters
import DiskStack.Proofs.MaskedRuns
import DiskStack.Proofs.Stranding
import DiskStack.Proofs.Conservation
import DiskStack.Proofs.Neighbours
import DiskStack.Proofs.Holdings
import DiskStack.Proofs.TransferPlan
import DiskStack.Proofs.SectorNumbers
import DiskStack.Proofs.DriveStatus
import DiskStack.Proofs.Refusals
import DiskStack.Proofs.CapacityCheck
import DiskStack.Proofs.Confinement
