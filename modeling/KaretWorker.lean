import KaretWorker.Fences
import KaretWorker.FenceCheck
import KaretWorker.References
import KaretWorker.Rollback
import KaretWorker.Compilation
import KaretWorker.TableFit
import KaretWorker.InlineDimensions
import KaretWorker.DimensionLookup
import KaretWorker.Triggers
import KaretWorker.FileUnion
import KaretWorker.SourceRouting
import KaretWorker.Cancellation
import KaretWorker.AstJson
import KaretWorker.Assertions
import KaretWorker.DimensionFile
import KaretWorker.PublishedRows
import KaretWorker.OrphanSweep
import KaretWorker.TerminalStates
import KaretWorker.StaleAttempts
import KaretWorker.PrefixKeys
import KaretWorker.UploadKeys
import KaretWorker.VacuumTargets
import KaretWorker.DebounceTiming
import KaretWorker.JsonSource
import KaretWorker.ConfigDocument
import KaretWorker.StoredRecords
import KaretWorker.MappingTask
import KaretWorker.JsonIngestion
import KaretWorker.Listing
import KaretWorker.Routing
import KaretWorker.RoutedUploads
import KaretWorker.ExclusiveRuns
import KaretWorker.Worker
import KaretWorker.Notifications
import KaretWorker.ProcessRuns
