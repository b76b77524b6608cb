import ShardCompaction.Proofs.Metadata.Reachable
import ShardCompaction.Proofs.Planner.Extraction

namespace ShardCompaction

namespace RangeColumns

variable {c : RangeColumns} {batch : List ShardRecord}

/-- The ranges of a row, if all that are wanted can be decoded. -/
def ranges? (c : RangeColumns) (row : IndexRow) : Option (Option ShardRange × Option ShardRange) :=
  (wanted? row (c.temporal.map ([·])) 0).bind fun temporalRange =>
    (wanted? row c.sort c.sortOffset).map fun sortRange => (temporalRange, sortRange)

theorem annotate?_eq (c : RangeColumns) (record : ShardRecord) (row : IndexRow) :
    c.annotate? record row = (c.ranges? row).map fun ranges =>
      .ofRecord record ranges.1 ranges.2 := by
  rw [annotate?, ranges?]
  cases wanted? row (c.temporal.map ([·])) 0 with
  | none => rfl
  | some temporalRange => cases wanted? row c.sort c.sortOffset <;> rfl

/-- The entry that a row makes among the resolved shards, if it can be decoded. -/
def entry? (c : RangeColumns) (batch : List ShardRecord) (row : IndexRow) :
    Option (Int64 × Shard) :=
  (byId batch)[row.shard]?.bind fun record =>
    (c.annotate? record row).map fun shard => (record.id, shard)

theorem resolve_eq_fill (c : RangeColumns) (batch : List ShardRecord) (rows : List IndexRow)
    (resolved : IdMap Shard) :
    c.resolve batch rows resolved =
      FilledMap.fill Prod.fst Prod.snd resolved (rows.filterMap (c.entry? batch)) := by
  have hbyId : (batch.foldl (fun m r => m.insert r.id r) ∅ : IdMap ShardRecord) = byId batch := rfl
  simp only [resolve, hbyId]
  induction rows generalizing resolved with
  | nil => rfl
  | cons row rows ih =>
    rw [List.foldl_cons, ih, List.filterMap_cons, entry?]
    cases hr : (byId batch)[row.shard]? with
    | none => rfl
    | some record =>
      cases ha : c.annotate? record row with
      | none => simp only [ha, Option.bind_some, Option.map_none]
      | some shard => simp only [ha, Option.bind_some, Option.map_some, FilledMap.fill_cons]

end RangeColumns

namespace CatalogStore

open Extraction

variable {store : CatalogStore} {c : RangeColumns} {table : Int64} {records : List ShardRecord}

/-- Whether a shard is stored under a table. -/
def holds (store : CatalogStore) (table shard : Int64) : Bool :=
  store.shardMap[shard]?.any fun r => r.table = table

/-- The row that answers a request for a shard, if the shard is stored under the table. -/
def row? (store : CatalogStore) (table : Int64) (columns : List Int64) (shard : Int64) :
    Option IndexRow :=
  if store.holds table shard then
    some
      { shard
        mins := columns.map fun c => (store.bounds table shard c).1
        maxs := columns.map fun c => (store.bounds table shard c).2 }
  else none

theorem rows_eq_filterMap (store : CatalogStore) (table : Int64) (columns shards : List Int64) :
    store.rows table columns shards = shards.filterMap (store.row? table columns) := by
  rw [rows, ← List.filterMap_eq_map, ← List.filterMap_eq_filter, List.filterMap_filterMap]
  refine List.filterMap_congr fun shard _ => ?_
  cases hs : store.shardMap[shard]? with
  | none => simp [row?, holds, hs, Option.guard]
  | some r => by_cases ht : r.table = table <;> simp [row?, holds, hs, ht, Option.guard]

/-- The shard of an id: its row belongs to the id alone, and everything else is copied from the last
record with the id. -/
def lastAnnotated? (store : CatalogStore) (c : RangeColumns) (table : Int64)
    (records : List ShardRecord) (id : Int64) : Option Shard :=
  ((store.row? table c.ids id).bind c.ranges?).bind fun ranges =>
    (records.reverse.find? fun r => r.id = id).map fun r => .ofRecord r ranges.1 ranges.2

/-- The later records of an id count, and if they make no shard, the earlier ones make none. -/
theorem lastAnnotated?_append (xs ys : List ShardRecord) (id : Int64) :
    store.lastAnnotated? c table (xs ++ ys) id =
      (store.lastAnnotated? c table ys id).or (store.lastAnnotated? c table xs id) := by
  rw [lastAnnotated?, lastAnnotated?, lastAnnotated?, List.reverse_append, List.find?_append]
  cases (store.row? table c.ids id).bind c.ranges? with
  | none => rfl
  | some ranges => exact Option.map_or

theorem lastAnnotated?_eq_none {id : Int64} (h : id ∉ records.map ShardRecord.id) :
    store.lastAnnotated? c table records id = none := by
  have hnone : (records.reverse.find? fun r => r.id = id) = none := by
    refine List.find?_eq_none.mpr fun r hr he => h ?_
    rw [← of_decide_eq_true he]
    exact List.mem_map_of_mem (List.mem_reverse.mp hr)
  rw [lastAnnotated?, hnone]
  cases (store.row? table c.ids id).bind c.ranges? <;> rfl

/-- The rows of a batch make the shards of its ids. -/
theorem filterMap_entry? (store : CatalogStore) (c : RangeColumns) (table : Int64)
    (batch : List ShardRecord) :
    (store.rows table c.ids (batch.map ShardRecord.id)).filterMap (c.entry? batch) =
      (batch.map ShardRecord.id).filterMap fun id =>
        (store.lastAnnotated? c table batch id).map fun shard => (id, shard) := by
  rw [rows_eq_filterMap, List.filterMap_filterMap]
  refine List.filterMap_congr fun id _ => ?_
  rw [lastAnnotated?]
  cases hrow : store.row? table c.ids id with
  | none => rfl
  | some row =>
    have hid : row.shard = id := by
      rw [row?] at hrow
      split at hrow
      case isTrue => rw [← Option.some.inj hrow]
      case isFalse => simp at hrow
    rw [Option.bind_some, Option.bind_some, RangeColumns.entry?, hid, RangeColumns.getElem?_byId]
    cases hr : batch.reverse.find? fun r => r.id = id with
    | none => cases c.ranges? row <;> rfl
    | some r =>
      obtain rfl : r.id = id := by simpa using List.find?_some hr
      rw [Option.bind_some, RangeColumns.annotate?_eq]
      cases c.ranges? row <;> rfl

/-- What is resolved after a batch: the shards of its ids, and those from before. -/
theorem getElem?_resolve (store : CatalogStore) (c : RangeColumns) (table : Int64)
    (batch : List ShardRecord) (resolved : IdMap Shard) (id : Int64) :
    (c.resolve batch (store.rows table c.ids (batch.map ShardRecord.id)) resolved)[id]? =
      (store.lastAnnotated? c table batch id).or resolved[id]? := by
  rw [RangeColumns.resolve_eq_fill, filterMap_entry?]
  exact FilledMap.getElem?_fill_keys lastAnnotated?_eq_none resolved

/-- The shards that batches resolve, one after another. -/
def resolveAll (store : CatalogStore) (c : RangeColumns) (table : Int64)
    (batches : List (List ShardRecord)) (resolved : IdMap Shard) : IdMap Shard :=
  batches.foldl
    (fun resolved batch =>
      c.resolve batch (store.rows table c.ids (batch.map ShardRecord.id)) resolved)
    resolved

/-- How records are batched does not show in what is resolved. -/
theorem getElem?_resolveAll (batches : List (List ShardRecord)) (resolved : IdMap Shard)
    (id : Int64) :
    (store.resolveAll c table batches resolved)[id]? =
      (store.lastAnnotated? c table batches.flatten id).or resolved[id]? := by
  induction batches generalizing resolved with
  | nil =>
    rw [List.flatten_nil, lastAnnotated?_eq_none (by simp), Option.none_or]
    rfl
  | cons batch batches ih =>
    -- What this batch resolves is the map from which the others go on.
    rw [List.flatten_cons, lastAnnotated?_append, Option.or_assoc, ← getElem?_resolve]
    exact ih _

theorem queryBatches_gives (batches : List (List ShardRecord)) (resolved : IdMap Shard) :
    Pass.Gives store.SameContent (queryBatches asMetadataStore table c batches resolved)
      (store.resolveAll c table batches resolved) := by
  induction batches generalizing resolved with
  | nil => exact .pure _ _
  | cons batch batches ih =>
    rw [queryBatches]
    exact (Pass.Gives.call (store.gives_queryIndex _ _ _)).bind
      ((Pass.Gives.log _ _).bind (ih _))

end CatalogStore

namespace Extraction

/-- The shards that are found under the ids of records, each id once. -/
def taken (shard? : Int64 → Option Shard) : List ShardRecord → List Shard
  | [] => []
  | r :: rest =>
    match shard? r.id with
    | some shard => shard :: taken (fun id => if r.id = id then none else shard? id) rest
    | none => taken shard? rest

/-- Collecting sees nothing of the resolved shards but what is found under each id. -/
theorem collect_gives {σ : Type} (I : σ → Prop) (table : Int64) (records : List ShardRecord)
    {resolved : IdMap Shard} {shard? : Int64 → Option Shard}
    (h : ∀ id : Int64, resolved[id]? = shard? id) :
    Pass.Gives I (collect table records resolved) (taken shard? records) := by
  induction records generalizing resolved shard? with
  | nil => exact .pure _ _
  | cons r rest ih =>
    rw [collect, taken, h]
    cases shard? r.id with
    | none => exact (Pass.Gives.log _ _).bind (ih h)
    | some shard =>
      have herase : ∀ id : Int64, (resolved.erase r.id)[id]? =
          if r.id = id then none else shard? id := by
        intro id
        simp only [Std.TreeMap.getElem?_erase, Std.LawfulEqCmp.compare_eq_iff_eq, h]
      exact (ih herase).bind (.pure _ _)

theorem taken_of_nodup {records : List ShardRecord} (hnd : (records.map ShardRecord.id).Nodup)
    (shard? : Int64 → Option Shard) :
    taken shard? records = records.filterMap fun r => shard? r.id := by
  induction records generalizing shard? with
  | nil => rfl
  | cons r rest ih =>
    obtain ⟨hnew, hrest⟩ := List.nodup_cons.mp hnd
    rw [taken, List.filterMap_cons]
    cases shard? r.id with
    | none => exact ih hrest shard?
    | some shard =>
      -- The other records do not see that the shard was taken.
      refine congrArg _ ((ih hrest _).trans (List.filterMap_congr fun x hx => ?_))
      have hne : r.id ≠ x.id := fun he => hnew (he ▸ List.mem_map_of_mem hx)
      exact if_neg hne

end Extraction

namespace CatalogStore

open Extraction

variable {store : CatalogStore} {c : RangeColumns} {table : Table} {options : ExtractionOptions}
  {records : List ShardRecord}

/-- What extraction makes of records with the columns that are asked for. -/
def extracted (store : CatalogStore) (table : Table) (records : List ShardRecord)
    (batchSize : Nat) (c : RangeColumns) : EligibleShards :=
  let candidates := records.filter fun r => !r.isDelta
  let shards := taken (store.lastAnnotated? c table.id candidates) candidates
  { shards
    indexQueries := (batches batchSize candidates).length
    deltas := records.length - candidates.length
    dropped := candidates.length - shards.length }

theorem ofColumns_gives (store : CatalogStore) (table : Table) (records : List ShardRecord)
    (batchSize : Nat) (c : RangeColumns) :
    Pass.Gives store.SameContent (ofColumns asMetadataStore table records batchSize c)
      (store.extracted table records batchSize c) := by
  let candidates := records.filter fun r => !r.isDelta
  have hfound : ∀ id : Int64,
      (store.resolveAll c table.id (batches batchSize candidates) ∅)[id]? =
        store.lastAnnotated? c table.id candidates id := by
    intro id
    rw [getElem?_resolveAll, flatten_batches, Std.TreeMap.getElem?_emptyc, Option.or_none]
  exact (queryBatches_gives _ _).bind ((collect_gives _ table.id _ hfound).bind (.pure _ _))

end CatalogStore

end ShardCompaction
