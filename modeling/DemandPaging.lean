import DemandPaging.Address
import DemandPaging.Bitmap
import DemandPaging.Bits
import DemandPaging.Bytes
import DemandPaging.Failure
import DemandPaging.Frames.Pool
import DemandPaging.Frames.SecondChance
import DemandPaging.Frames.Table
import DemandPaging.Hardware.PageDirectory
import DemandPaging.Hardware.PageEntry
import DemandPaging.InstallOnce
import DemandPaging.KeyedTable
import DemandPaging.Pager.Action
import DemandPaging.Pager.Eviction
import DemandPaging.Pager.Lifetime
import DemandPaging.Pager.Loading
import DemandPaging.Pager.Mapping
import DemandPaging.Pager.Operation
import DemandPaging.Pager.Residency
import DemandPaging.Pager.State
import DemandPaging.Pager.UserCopy
import DemandPaging.Proofs.Agreement
import DemandPaging.Proofs.BitCount
import DemandPaging.Proofs.BitLists
import DemandPaging.Proofs.ByteStores
import DemandPaging.Proofs.Changes
import DemandPaging.Proofs.Contents
import DemandPaging.Proofs.CopyProgress
import DemandPaging.Proofs.Copying
import DemandPaging.Proofs.CountedPins
import DemandPaging.Proofs.Evicting
import DemandPaging.Proofs.Exiting
import DemandPaging.Proofs.FailedLoads
import DemandPaging.Proofs.FaultAnswers
import DemandPaging.Proofs.FileCalls
import DemandPaging.Proofs.FileMappings
import DemandPaging.Proofs.FrameHistories
import DemandPaging.Proofs.FrameOwners
import DemandPaging.Proofs.FrameUse
import DemandPaging.Proofs.ListedPages
import DemandPaging.Proofs.Loading
import DemandPaging.Proofs.MappedBytes
import DemandPaging.Proofs.MappedFiles
import DemandPaging.Proofs.MappedPages
import DemandPaging.Proofs.MappedRuns
import DemandPaging.Proofs.MappedTails
import DemandPaging.Proofs.MappingNumbers
import DemandPaging.Proofs.MovedFrames
import DemandPaging.Proofs.Moves
import DemandPaging.Proofs.NewMappings
import DemandPaging.Proofs.ObtainedFrames
import DemandPaging.Proofs.OpenHandles
import DemandPaging.Proofs.Outcomes
import DemandPaging.Proofs.OwnedPages
import DemandPaging.Proofs.PageAlterations
import DemandPaging.Proofs.PageContents
import DemandPaging.Proofs.PageMaps
import DemandPaging.Proofs.PageOrigins
import DemandPaging.Proofs.PageShifts
import DemandPaging.Proofs.PastTheEnd
import DemandPaging.Proofs.PinLoops
import DemandPaging.Proofs.PinnedPages
import DemandPaging.Proofs.PrivatePages
import DemandPaging.Proofs.QuietMoves
import DemandPaging.Proofs.RefusedSegments
import DemandPaging.Proofs.RepeatedLoads
import DemandPaging.Proofs.RequestedWrites
import DemandPaging.Proofs.Requests
import DemandPaging.Proofs.RetriedLoads
import DemandPaging.Proofs.Runs
import DemandPaging.Proofs.SameAnswers
import DemandPaging.Proofs.SectorArrays
import DemandPaging.Proofs.SegmentPages
import DemandPaging.Proofs.SegmentWords
import DemandPaging.Proofs.Segments
import DemandPaging.Proofs.ServedPages
import DemandPaging.Proofs.SlotOwners
import DemandPaging.Proofs.StayingPages
import DemandPaging.Proofs.Stopping
import DemandPaging.Proofs.StoredBytes
import DemandPaging.Proofs.SwapHistories
import DemandPaging.Proofs.SwapSlots
import DemandPaging.Proofs.TableChanges
import DemandPaging.Proofs.UnmappedFiles
import DemandPaging.Proofs.Unmapping
import DemandPaging.Proofs.UserReads
import DemandPaging.Proofs.UserWrites
import DemandPaging.Proofs.VictimSearch
import DemandPaging.Proofs.VisibleMoves
import DemandPaging.Proofs.WholePages
import DemandPaging.Proofs.WritablePages
import DemandPaging.Proofs.WriteBacks
import DemandPaging.Proofs.WrittenFiles
import DemandPaging.Proofs.WrittenPages
import DemandPaging.Space.AddressSpace
import DemandPaging.Space.Backing
import DemandPaging.Space.DescriptorTable
import DemandPaging.Space.MappingTable
import DemandPaging.Storage.Device
import DemandPaging.Storage.Disk
import DemandPaging.Storage.OpenFile
import DemandPaging.Storage.SwapArea
import DemandPaging.Text
import DemandPaging.TicketLock
import DemandPaging.Word
