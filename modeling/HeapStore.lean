import HeapStore.Main
import HeapStore.Proofs.Actions
import HeapStore.Proofs.Locks
import HeapStore.Proofs.Moves
import HeapStore.Proofs.Completion
import HeapStore.Proofs.Calls
import HeapStore.Proofs.LockDiscipline
import HeapStore.Proofs.UnseenPages
import HeapStore.Proofs.DirtyReads
import HeapStore.Proofs.Coherence
import HeapStore.Proofs.FailedCommit
import HeapStore.Proofs.Simulation
import HeapStore.Proofs.Readers
import HeapStore.Proofs.Durability
import HeapStore.Proofs.SharedLocks
import HeapStore.Proofs.Endings
import HeapStore.Proofs.WriteAhead
import HeapStore.Proofs.RepeatableRead
import HeapStore.Proofs.Transparency
import HeapStore.Proofs.GrantOrder
import HeapStore.Proofs.LogRecords
import HeapStore.Proofs.LogFiles
import HeapStore.Proofs.TornTail
import HeapStore.Proofs.Addresses
import HeapStore.Proofs.RepeatableScan
import HeapStore.Proofs.Registration
import HeapStore.Proofs.RecencyWalk
import HeapStore.Proofs.TableIndexes
import HeapStore.Proofs.Pipelines
import HeapStore.Proofs.ReopenedTables
import HeapStore.Proofs.CommitEffect
import HeapStore.Proofs.PageRequests
import HeapStore.Proofs.Searching
import HeapStore.Proofs.FirstFit
import HeapStore.Proofs.FailedEdits
import HeapStore.Proofs.AbortEffect
import HeapStore.Proofs.BeforeImages
import HeapStore.Proofs.Utf8
import HeapStore.Proofs.TupleEncoding
import HeapStore.Proofs.Totals
import HeapStore.Proofs.AggregateValues
import HeapStore.Proofs.PageLooks
import HeapStore.Proofs.TableScans
import HeapStore.Proofs.StoredStrings
import HeapStore.Proofs.PageArrays
import HeapStore.Proofs.Words
import HeapStore.Proofs.SchemaLines
import HeapStore.Proofs.SchemaLoading
import HeapStore.Proofs.LoadedTables
import HeapStore.Proofs.LogFailures
import HeapStore.Proofs.Utf8Order
import HeapStore.Proofs.Comparisons
import HeapStore.Proofs.PageLayout
import HeapStore.Proofs.StorableStrings
