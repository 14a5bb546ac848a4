import Pdc.Proofs.TransferStatus
import Pdc.Proofs.MetadataCheckpoint
import Pdc.Proofs.DynamicPartition
import Pdc.Proofs.ScatterGather
import Pdc.Proofs.StartAllFormat
import Pdc.Proofs.MergeRequests
import Pdc.Proofs.BulkiMap
import Pdc.Proofs.QueryAnd
import Pdc.Proofs.QueryRange
import Pdc.Proofs.QueryBounds
import Pdc.Proofs.QueryRead
import Pdc.Proofs.QueryCoords
import Pdc.Proofs.RegionLock
import Pdc.Proofs.SelData
import Pdc.Proofs.QueryWait
import Pdc.Proofs.ReadAfterWrite
import Pdc.Proofs.IoCheck
import Pdc.Proofs.BatchIo
import Pdc.Proofs.BurstBuffer
import Pdc.Proofs.StorageInfo
import Pdc.Proofs.Kvtag
import Pdc.Proofs.ContainerCheckpoint
import Pdc.Proofs.ObjectIds
import Pdc.Proofs.BulkiRoom
import Pdc.Proofs.NameRead
import Pdc.Proofs.LocalRegion
import Pdc.Proofs.LocalRequests
import Pdc.Proofs.RequestIds
import Pdc.Proofs.PendingLists
import Pdc.Proofs.ReadRegion
import Pdc.Proofs.QueryMessages
import Pdc.Proofs.MetadataIndex
import Pdc.Proofs.Balance
