import ShardCompaction.Metadata.CatalogStore

namespace ShardCompaction

/-- The calls that can be made to fail throughout. -/
inductive StoreMethod where
  | table
  | tables
  | column
  | sortColumns
  | shards
  deriving DecidableEq

/-- What fails: one call throughout, or the index queries after some healthy ones. -/
inductive Outage where
  | call (method : StoreMethod)
  | queriesAfter (healthy : Nat)
  deriving DecidableEq

/-- The misbehaviour of a store, and the error of its failing calls. -/
structure Faults where
  error : MetadataError
  outage : Option Outage
  droppedShards : IdSet
  extraRows : List IndexRow
  reversed : Bool

namespace Faults

def none : Faults := ⟨.unavailable "connection reset", Option.none, ∅, [], false⟩

def distort (f : Faults) (rows : List IndexRow) : List IndexRow :=
  let rows := (rows.filter fun row => !f.droppedShards.contains row.shard) ++ f.extraRows
  if f.reversed then rows.reverse else rows

end Faults

/-- A store in memory behind faults, with the number of index queries it was asked. -/
structure FaultyStore where
  inner : CatalogStore
  faults : Faults
  queries : Nat

namespace FaultyStore

def empty : FaultyStore := ⟨.empty, .none, 0⟩

/-- New faults count queries from zero. -/
def withFaults (store : FaultyStore) (faults : Faults) : FaultyStore :=
  { store with faults, queries := 0 }

def update (store : FaultyStore) (f : CatalogStore → CatalogStore) : FaultyStore :=
  { store with inner := f store.inner }

/-- A call that reaches the store in memory. -/
def reach (call : StoreCall CatalogStore α) : StoreCall FaultyStore α := fun store =>
  match call store.inner with
  | .ok a inner => .ok a { store with inner }
  | .error e inner => .error e { store with inner }

def guarded (method : StoreMethod) (call : StoreCall CatalogStore α) : StoreCall FaultyStore α :=
  fun store =>
    if store.faults.outage = some (.call method) then .error store.faults.error store
    else reach call store

def queryIndex (table : Int64) (columns shards : List Int64) :
    StoreCall FaultyStore (List IndexRow) := fun store =>
  let asked := store.queries
  let store := { store with queries := asked + 1 }
  let broken : Bool := match store.faults.outage with
    | some (.queriesAfter healthy) => healthy ≤ asked
    | _ => false
  if broken then .error store.faults.error store
  else
    match reach (CatalogStore.asMetadataStore.queryIndex table columns shards) store with
    | .ok rows store => .ok (store.faults.distort rows) store
    | .error e store => .error e store

def asMetadataStore : MetadataStore FaultyStore where
  table id := guarded .table (CatalogStore.asMetadataStore.table id)
  tables := guarded .tables CatalogStore.asMetadataStore.tables
  column table column := guarded .column (CatalogStore.asMetadataStore.column table column)
  sortColumns table := guarded .sortColumns (CatalogStore.asMetadataStore.sortColumns table)
  shards table := guarded .shards (CatalogStore.asMetadataStore.shards table)
  queryIndex := queryIndex

end FaultyStore

end ShardCompaction
