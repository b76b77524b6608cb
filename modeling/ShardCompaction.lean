import ShardCompaction.Command.Arguments
import ShardCompaction.Command.Error
import ShardCompaction.Command.Files
import ShardCompaction.Command.Run
import ShardCompaction.Compaction.Plan
import ShardCompaction.Compaction.Runs
import ShardCompaction.Config.Basic
import ShardCompaction.Config.Json
import ShardCompaction.Day.Basic
import ShardCompaction.Day.Packed
import ShardCompaction.Defect
import ShardCompaction.Double.Basic
import ShardCompaction.Double.Rounding
import ShardCompaction.Double.Shortest
import ShardCompaction.Double.Text
import ShardCompaction.Grouping
import ShardCompaction.Json.Basic
import ShardCompaction.Json.Reader
import ShardCompaction.Json.Record
import ShardCompaction.Json.Writer
import ShardCompaction.Log.Basic
import ShardCompaction.Log.Entry
import ShardCompaction.Main
import ShardCompaction.Metadata.Catalog
import ShardCompaction.Metadata.CatalogStore
import ShardCompaction.Metadata.Error
import ShardCompaction.Metadata.Faults
import ShardCompaction.Metadata.IdMap
import ShardCompaction.Metadata.IndexRow
import ShardCompaction.Metadata.Store
import ShardCompaction.Metrics
import ShardCompaction.Order
import ShardCompaction.OrganizationSet.Basic
import ShardCompaction.OrganizationSet.Json
import ShardCompaction.Partition
import ShardCompaction.Planner.Basic
import ShardCompaction.Planner.Extraction
import ShardCompaction.Planner.Session
import ShardCompaction.Proofs.Checked
import ShardCompaction.Proofs.Command.Plan
import ShardCompaction.Proofs.Compaction.Appending
import ShardCompaction.Proofs.Compaction.Buckets
import ShardCompaction.Proofs.Compaction.Failure
import ShardCompaction.Proofs.Compaction.FewestRuns
import ShardCompaction.Proofs.Compaction.Greedy
import ShardCompaction.Proofs.Compaction.Interleaving
import ShardCompaction.Proofs.Compaction.Plan
import ShardCompaction.Proofs.Compaction.Sets
import ShardCompaction.Proofs.Config.Valid
import ShardCompaction.Proofs.Config.Zone
import ShardCompaction.Proofs.Day
import ShardCompaction.Proofs.Day.Monotone
import ShardCompaction.Proofs.Day.Packed
import ShardCompaction.Proofs.FilledMap
import ShardCompaction.Proofs.Json.Documents
import ShardCompaction.Proofs.Json.Records
import ShardCompaction.Proofs.Json.Strings
import ShardCompaction.Proofs.Log.Lines
import ShardCompaction.Proofs.Metadata.Decoding
import ShardCompaction.Proofs.Metadata.IndexRow
import ShardCompaction.Proofs.Metadata.Reachable
import ShardCompaction.Proofs.Metadata.SortKey
import ShardCompaction.Proofs.OrganizationSet.FirstFlaw
import ShardCompaction.Proofs.OrganizationSet.OfShards
import ShardCompaction.Proofs.Partition
import ShardCompaction.Proofs.Planner.Accounting
import ShardCompaction.Proofs.Planner.AllTables
import ShardCompaction.Proofs.Planner.BatchSizes
import ShardCompaction.Proofs.Planner.CatalogExtraction
import ShardCompaction.Proofs.Planner.Course
import ShardCompaction.Proofs.Planner.Days
import ShardCompaction.Proofs.Planner.EligibleRecords
import ShardCompaction.Proofs.Planner.Extraction
import ShardCompaction.Proofs.Planner.ExtractionLog
import ShardCompaction.Proofs.Planner.IndexRows
import ShardCompaction.Proofs.Planner.Isolation
import ShardCompaction.Proofs.Planner.Ledger
import ShardCompaction.Proofs.Planner.Noting
import ShardCompaction.Proofs.Planner.Pass
import ShardCompaction.Proofs.Planner.PassLog
import ShardCompaction.Proofs.Planner.PlannedSets
import ShardCompaction.Proofs.Planner.SetTotals
import ShardCompaction.Proofs.Planner.Verbosity
import ShardCompaction.Proofs.RoundTrip
import ShardCompaction.Proofs.Value.Hashing
import ShardCompaction.Proofs.Value.Order
import ShardCompaction.Shard.Basic
import ShardCompaction.Shard.Eligible
import ShardCompaction.Shard.Json
import ShardCompaction.Table.Basic
import ShardCompaction.Table.Json
import ShardCompaction.Text.Blank
import ShardCompaction.Text.Decimal
import ShardCompaction.Text.Hex
import ShardCompaction.Text.Order
import ShardCompaction.Uuid.Basic
import ShardCompaction.Uuid.Text
import ShardCompaction.Value.Basic
import ShardCompaction.Value.ColumnType
import ShardCompaction.Value.Equality
import ShardCompaction.Value.Json
import ShardCompaction.Value.Tuple
import ShardCompaction.Zone.Basic
import ShardCompaction.Zone.Text
import ShardCompaction.Proofs.Compaction.Walk
