import GoDB.Proofs.AggregateTypes
import GoDB.Proofs.AlignedInserts
import GoDB.Proofs.BufferPoolSafety
import GoDB.Proofs.CatalogPersistence
import GoDB.Proofs.HashLinearization
import GoDB.Proofs.IndexDeferral
import GoDB.Proofs.IndexIterator
import GoDB.Proofs.IndexJoinPlan
import GoDB.Proofs.IndexKinds
import GoDB.Proofs.ExecutedPlans
import GoDB.Proofs.IndexLookupPlan
import GoDB.Proofs.IndexPlanning
import GoDB.Proofs.IndexScanPlan
import GoDB.Proofs.InsertedValues
import GoDB.Proofs.LimitPlans
import GoDB.Proofs.LockProtection
import GoDB.Proofs.LockWakeups
import GoDB.Proofs.LogRecordFields
import GoDB.Proofs.LogRoundTrip
import GoDB.Proofs.ReportedErrors
import GoDB.Proofs.MaintainedIndexes
import GoDB.Proofs.PoolFaults
import GoDB.Proofs.PushedPredicates
import GoDB.Proofs.RebuiltIndexes
import GoDB.Proofs.RefusedLocks
import GoDB.Proofs.RequestedModes
import GoDB.Proofs.SelfWaits
import GoDB.Proofs.SlotArray
import GoDB.Proofs.StaleEntries
import GoDB.Proofs.StrandedPages
import GoDB.Proofs.StringNeighbours
import GoDB.Proofs.TableHeapRaces
import GoDB.Proofs.LikeMatches
import GoDB.Proofs.FailedInputs
import GoDB.Proofs.SortedRows
import GoDB.Proofs.FusedProjections
import GoDB.Proofs.RecordStack
import GoDB.Proofs.VacuumedSlots
import GoDB.Execution.PinnedScan
import GoDB.Proofs.ReleasedPins
