import ShardCompaction.Metadata.Store
import ShardCompaction.Proofs.Outcome

namespace ShardCompaction

/-- What a store can be asked. -/
inductive Request where
  | table (id : Int64)
  | tables
  | column (table column : Int64)
  | sortColumns (table : Int64)
  | shards (table : Int64)
  | queryIndex (table : Int64) (columns shards : List Int64)
  deriving DecidableEq

def Request.Answer : Request → Type
  | .table _ => Table
  | .tables => List Table
  | .column _ _ => TableColumn
  | .sortColumns _ => List TableColumn
  | .shards _ => List ShardRecord
  | .queryIndex _ _ _ => List IndexRow

/-- A request and how the store answered it. -/
structure Exchange where
  request : Request
  answer : Except MetadataError request.Answer

variable {σ : Type}

def MetadataStore.ask (store : MetadataStore σ) : (q : Request) → StoreCall σ q.Answer
  | .table id => store.table id
  | .tables => store.tables
  | .column table column => store.column table column
  | .sortColumns table => store.sortColumns table
  | .shards table => store.shards table
  | .queryIndex table columns shards => store.queryIndex table columns shards

/-- The state of a store with the calls that it has answered. -/
structure Recorded (σ : Type) where
  inner : σ
  calls : List Exchange

/-- Asks the store and records its answer. -/
def MetadataStore.record (store : MetadataStore σ) (q : Request) :
    StoreCall (Recorded σ) q.Answer := fun s =>
  match store.ask q s.inner with
  | .ok a inner => .ok a ⟨inner, s.calls ++ [⟨q, .ok a⟩]⟩
  | .error e inner => .error e ⟨inner, s.calls ++ [⟨q, .error e⟩]⟩

/-- The store that records what it is asked. -/
def MetadataStore.recorded (store : MetadataStore σ) : MetadataStore (Recorded σ) where
  table id := store.record (.table id)
  tables := store.record .tables
  column table column := store.record (.column table column)
  sortColumns table := store.record (.sortColumns table)
  shards table := store.record (.shards table)
  queryIndex table columns shards := store.record (.queryIndex table columns shards)

theorem MetadataStore.outcome_record (store : MetadataStore σ) (q : Request) (s : Recorded σ) :
    outcome (store.record q) s = outcome (store.ask q) s.inner := by
  rw [outcome, record, outcome]
  cases store.ask q s.inner <;> rfl

theorem MetadataStore.stateAfter_record (store : MetadataStore σ) (q : Request) (s : Recorded σ) :
    stateAfter (store.record q) s =
      ⟨stateAfter (store.ask q) s.inner, s.calls ++ [⟨q, outcome (store.ask q) s.inner⟩]⟩ := by
  rw [stateAfter, record, outcome, stateAfter]
  cases store.ask q s.inner <;> rfl

end ShardCompaction
