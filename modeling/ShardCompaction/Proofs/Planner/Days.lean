import ShardCompaction.Proofs.Compaction.Plan
import ShardCompaction.Proofs.Day
import ShardCompaction.Proofs.Partition.Classification
import ShardCompaction.Proofs.Planner.Extraction

namespace ShardCompaction

namespace Table

variable {table : Table}

end Table

namespace Extraction

variable {σ : Type} {store : MetadataStore σ} {table : Table} {options : ExtractionOptions}
  {records : List ShardRecord} {e : EligibleShards} {s s' : Session σ}

end Extraction

end ShardCompaction
