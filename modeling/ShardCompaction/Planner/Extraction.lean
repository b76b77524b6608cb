import ShardCompaction.Metadata.IdMap
import ShardCompaction.Planner.Session

namespace ShardCompaction

/-- Consecutive pieces of at most `size` items, all but the last of that size; pieces of one item if
`size` is zero. -/
def batches (size : Nat) (items : List α) : List (List α) :=
  match items with
  | [] => []
  | item :: rest => (item :: rest.take (size - 1)) :: batches size (rest.drop (size - 1))
termination_by items.length
decreasing_by exact Nat.lt_succ_of_le (List.length_drop ▸ Nat.sub_le ..)

/-- The columns whose statistics are asked for: the temporal column first, then the sort columns. -/
structure RangeColumns where
  temporal : Option TableColumn
  sort : Option (List TableColumn)

namespace RangeColumns

def ids (c : RangeColumns) : List Int64 :=
  (c.temporal.toList ++ c.sort.getD []).map TableColumn.id

/-- The slot of the first sort column. -/
def sortOffset (c : RangeColumns) : Nat := if c.temporal.isSome then 1 else 0

/-- The range over some columns, if they are wanted. There is none at all if they are wanted and
cannot be decoded. -/
def wanted? (row : IndexRow) (columns : Option (List TableColumn)) (offset : Nat) :
    Option (Option ShardRange) :=
  match columns with
  | some columns => (row.range? columns offset).map some
  | none => some none

/-- A record with the ranges of its row. -/
def annotate? (c : RangeColumns) (record : ShardRecord) (row : IndexRow) : Option Shard := do
  let temporalRange ← wanted? row (c.temporal.map ([·])) 0
  let sortRange ← wanted? row c.sort c.sortOffset
  some (.ofRecord record temporalRange sortRange)

/-- Adds the shards that the rows of a batch resolve. Rows for shards outside the batch and rows
that cannot be decoded are passed over; of several rows for one shard the last one counts. -/
def resolve (c : RangeColumns) (batch : List ShardRecord) (rows : List IndexRow)
    (resolved : IdMap Shard) : IdMap Shard :=
  let byId : IdMap ShardRecord := batch.foldl (fun m r => m.insert r.id r) ∅
  rows.foldl
    (fun m row =>
      match byId[row.shard]? with
      | some record =>
        match c.annotate? record row with
        | some shard => m.insert record.id shard
        | none => m
      | none => m)
    resolved

end RangeColumns

namespace Extraction

/-- The temporal column of a table, which has to be of a temporal type, and its sort columns if they
are wanted. -/
def columns (store : MetadataStore σ) (table : Table) (options : ExtractionOptions) :
    Pass σ RangeColumns := do
  let temporal ← match table.temporalColumn with
    | none => pure none
    | some id => do
      let column ← Pass.call (store.column table.id id)
      if column.type.isTemporal then pure (some column)
      else throw (.store (.unsupportedTemporalType table.id id column.type))
  let sort ←
    if options.includeSortColumns then some <$> Pass.call (store.sortColumns table.id)
    else pure none
  pure { temporal, sort }

/-- Queries the batches one after another. -/
def queryBatches (store : MetadataStore σ) (table : Int64) (columns : RangeColumns) :
    List (List ShardRecord) → IdMap Shard → Pass σ (IdMap Shard)
  | [], resolved => pure resolved
  | batch :: rest, resolved => do
    let ids := batch.map ShardRecord.id
    let rows ← Pass.call (store.queryIndex table columns.ids ids)
    Pass.log (·.trace .indexBatchQueried
      [("table_id", Decimal.int64Text table), ("requested", Decimal.natText ids.length),
        ("returned", Decimal.natText rows.length)])
    queryBatches store table columns rest (columns.resolve batch rows resolved)

/-- The resolved shards in the order of their records. A shard counts for the first of several
records with its id. -/
def collect (table : Int64) : List ShardRecord → IdMap Shard → Pass σ (List Shard)
  | [], _ => pure []
  | record :: rest, resolved =>
    match resolved[record.id]? with
    | some shard => do
      let shards ← collect table rest (resolved.erase record.id)
      pure (shard :: shards)
    | none => do
      Pass.log (·.trace .shardRangeMissing
        [("table_id", Decimal.int64Text table), ("shard_uuid", record.uuid.toText)])
      collect table rest resolved

/-- The eligible ones among some records of a table. -/
def ofRecords (store : MetadataStore σ) (table : Table) (records : List ShardRecord)
    (options : ExtractionOptions) : Pass σ EligibleShards := do
  let columns ← columns store table options
  let candidates := records.filter fun r => !r.isDelta
  let batches := batches options.batchSize candidates
  let resolved ← queryBatches store table.id columns batches ∅
  let shards ← collect table.id candidates resolved
  pure
    { shards
      indexQueries := batches.length
      deltas := records.length - candidates.length
      dropped := candidates.length - shards.length }

/-- The eligible shards of a table. -/
def ofTable (store : MetadataStore σ) (table : Table) (options : ExtractionOptions) :
    Pass σ EligibleShards := do
  let records ← Pass.call (store.shards table.id)
  ofRecords store table records options

end Extraction

end ShardCompaction
