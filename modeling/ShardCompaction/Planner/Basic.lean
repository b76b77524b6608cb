import ShardCompaction.Planner.Extraction

namespace ShardCompaction

structure Planner (σ : Type) where
  store : MetadataStore σ
  compactor : Compactor
  options : ExtractionOptions

/-- Sums stop at the greatest word. -/
def saturatingAdd (a b : UInt64) : UInt64 := (checkedAdd a b).getD 0xffffffffffffffff

namespace Planner

/-- Shards under their identifiers. -/
abbrev ShardMap := Std.TreeMap Uuid Shard Uuid.compare

/-- Of several shards with one identifier the last one counts. -/
def byUuid (shards : List Shard) : ShardMap := shards.foldl (fun m s => m.insert s.uuid s) ∅

/-- The rows and bytes of a set's members, looked up among shards. -/
def totals (byUuid : ShardMap) (set : OrganizationSet) : UInt64 × UInt64 :=
  let members := set.members.uuids.filterMap (byUuid[·]?)
  members.foldl (fun t s => (saturatingAdd t.1 s.rows, saturatingAdd t.2 s.bytes)) (0, 0)

def resolvedFields (table : Table) (id : Int64) (e : EligibleShards) : List LogField :=
  [("table_id", Decimal.int64Text id),
    ("partitioning", table.partitioning),
    ("eligible", Decimal.natText e.shards.length),
    ("deltas", Decimal.natText e.deltas),
    ("dropped", Decimal.natText e.dropped),
    ("index_queries", Decimal.natText e.indexQueries)]

def setFields (id : Int64) (byUuid : ShardMap) (set : OrganizationSet) : List LogField :=
  let (rows, bytes) := totals byUuid set
  [("table_id", Decimal.int64Text id),
    ("bucket", match set.bucket with
      | none => "none"
      | some b => Decimal.natText b.toNat),
    ("shards", Decimal.natText set.size),
    ("rows", Decimal.natText rows.toNat),
    ("bytes", Decimal.natText bytes.toNat)]

def createdFields (id : Int64) (plan : CompactionPlan) : List LogField :=
  [("table_id", Decimal.int64Text id),
    ("groups", Decimal.natText plan.stats.groups),
    ("candidates", Decimal.natText plan.stats.candidates),
    ("adequate", Decimal.natText plan.stats.adequate),
    ("singletons", Decimal.natText plan.stats.singletons),
    ("planned", Decimal.natText plan.stats.planned),
    ("sets", Decimal.natText plan.sets.length)]

/-- The work of a pass between its opening and its closing entry. -/
def work (p : Planner σ) (id : Int64) : Pass σ (List OrganizationSet) := do
  let table ← Pass.call (p.store.table id)
  let eligible ← Extraction.ofTable p.store table p.options
  Pass.count (·.addExtraction eligible)
  Pass.log (·.event .shardsResolved (resolvedFields table id eligible))
  let plan ← Pass.compute (p.compactor.plan table eligible.shards)
  Pass.count (·.addPlan plan.sets.length plan.stats)
  let byUuid := byUuid eligible.shards
  Pass.log fun log =>
    plan.sets.foldl (fun log set => log.trace .setEmitted (setFields id byUuid set)) log
  Pass.log (·.event .setsCreated (createdFields id plan))
  pure plan.sets

def scope (id : Int64) : Scope := ⟨"COMPACTION_PLAN", [("table_id", Decimal.int64Text id)]⟩

/-- One pass: the organization sets of one table. -/
def planTable (p : Planner σ) (id : Int64) : Pass σ (List OrganizationSet) := fun s =>
  let close (ending : Scope.Ending) (s : Session σ) : Session σ :=
    s.mapLog (·.closeScope (scope id) ending)
  match p.work id ((s.mapLog (·.openScope (scope id))).mapMetrics Metrics.addPass) with
  | .ok sets s => .ok sets (close (.completed [("sets", Decimal.natText sets.length)]) s)
  | .error (.store e) s =>
    .error (.store e) (close (.failed e.code e.message) (s.mapMetrics Metrics.addFailedPass))
  | .error (.defect d) s => .error (.defect d) (close .abandoned s)

/-- Passes over several tables, one after another. -/
def planTables (p : Planner σ) : List Table → Pass σ (List OrganizationSet)
  | [] => pure []
  | table :: rest => do
    let sets ← p.planTable table.id
    let more ← p.planTables rest
    pure (sets ++ more)

/-- The organization sets of all tables. -/
def planAll (p : Planner σ) : Pass σ (List OrganizationSet) := do
  let tables ← Pass.call p.store.tables
  p.planTables tables

end Planner

end ShardCompaction
