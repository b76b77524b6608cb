import ShardCompaction.Planner.Basic
import ShardCompaction.Proofs.Outcome

namespace ShardCompaction

variable {σ α : Type}

theorem Pass.outcome_call (c : StoreCall σ α) (s : Session σ) :
    outcome (Pass.call c) s = (outcome c s.store).mapError .store := by
  rw [outcome, Pass.call, outcome]
  cases c s.store <;> rfl

theorem Pass.stateAfter_call (c : StoreCall σ α) (s : Session σ) :
    stateAfter (Pass.call c) s = { s with store := stateAfter c s.store } := by
  rw [stateAfter, Pass.call, stateAfter]
  cases c s.store <;> rfl

namespace Extraction

/-- The temporal column of a table, if it has one. -/
def temporalLookup (store : MetadataStore σ) (table : Table) : Pass σ (Option TableColumn) :=
  match table.temporalColumn with
  | none => pure none
  | some id => do
    let column ← Pass.call (store.column table.id id)
    if column.type.isTemporal then pure (some column)
    else throw (.store (.unsupportedTemporalType table.id id column.type))

/-- The sort columns of a table, if they are wanted. -/
def sortLookup (store : MetadataStore σ) (table : Table) (options : ExtractionOptions) :
    Pass σ (Option (List TableColumn)) :=
  if options.includeSortColumns then some <$> Pass.call (store.sortColumns table.id)
  else pure none

theorem columns_eq (store : MetadataStore σ) (table : Table) (options : ExtractionOptions) :
    columns store table options = temporalLookup store table >>= fun temporal =>
      sortLookup store table options >>= fun sort => pure { temporal, sort } := by
  rw [columns, temporalLookup, sortLookup]
  cases table.temporalColumn with
  | none => cases options.includeSortColumns <;> rfl
  | some id =>
    simp only [bind_assoc]
    refine bind_congr fun column => ?_
    cases column.type.isTemporal <;> cases options.includeSortColumns <;> rfl

/-- What extraction does once it has the columns. -/
def ofColumns (store : MetadataStore σ) (table : Table) (records : List ShardRecord)
    (batchSize : Nat) (c : RangeColumns) : Pass σ EligibleShards := do
  let candidates := records.filter fun r => !r.isDelta
  let batches := batches batchSize candidates
  let resolved ← queryBatches store table.id c batches ∅
  let shards ← collect table.id candidates resolved
  pure
    { shards
      indexQueries := batches.length
      deltas := records.length - candidates.length
      dropped := candidates.length - shards.length }

theorem ofRecords_eq (store : MetadataStore σ) (table : Table) (records : List ShardRecord)
    (options : ExtractionOptions) :
    ofRecords store table records options =
      columns store table options >>= ofColumns store table records options.batchSize := rfl

end Extraction

namespace Planner

variable {p : Planner σ} {id : Int64} {s : Session σ}

/-- The session in which a pass begins its work. -/
def opened (id : Int64) (s : Session σ) : Session σ :=
  (s.mapLog (·.openScope (scope id))).mapMetrics Metrics.addPass

/-- The session that a pass leaves after its work. -/
def closed (id : Int64) (result : Except Abort (List OrganizationSet)) (s : Session σ) :
    Session σ :=
  let close (ending : Scope.Ending) (s : Session σ) : Session σ :=
    s.mapLog (·.closeScope (scope id) ending)
  match result with
  | .ok sets => close (.completed [("sets", Decimal.natText sets.length)]) s
  | .error (.store e) => close (.failed e.code e.message) (s.mapMetrics Metrics.addFailedPass)
  | .error (.defect _) => close .abandoned s

theorem outcome_planTable (p : Planner σ) (id : Int64) (s : Session σ) :
    outcome (p.planTable id) s = outcome (p.work id) (opened id s) := by
  rw [outcome, planTable, outcome, opened]
  cases p.work id ((s.mapLog (·.openScope (scope id))).mapMetrics Metrics.addPass) with
  | ok sets s' => rfl
  | error a s' => cases a <;> rfl

theorem stateAfter_planTable (p : Planner σ) (id : Int64) (s : Session σ) :
    stateAfter (p.planTable id) s =
      closed id (outcome (p.work id) (opened id s)) (stateAfter (p.work id) (opened id s)) := by
  rw [stateAfter, planTable, outcome, stateAfter, opened]
  cases p.work id ((s.mapLog (·.openScope (scope id))).mapMetrics Metrics.addPass) with
  | ok sets s' => rfl
  | error a s' => cases a <;> rfl

/-- The table that the store has under an id, and its eligible shards. -/
def survey (p : Planner σ) (id : Int64) : Pass σ (Table × EligibleShards) := do
  let table ← Pass.call (p.store.table id)
  let eligible ← Extraction.ofTable p.store table p.options
  pure (table, eligible)

/-- The organization sets of a table with its eligible shards. -/
def settle (p : Planner σ) (id : Int64) (table : Table) (eligible : EligibleShards) :
    Pass σ (List OrganizationSet) := do
  Pass.count (·.addExtraction eligible)
  Pass.log (·.event .shardsResolved (resolvedFields table id eligible))
  let plan ← Pass.compute (p.compactor.plan table eligible.shards)
  Pass.count (·.addPlan plan.sets.length plan.stats)
  let byUuid := byUuid eligible.shards
  Pass.log fun log =>
    plan.sets.foldl (fun log set => log.trace .setEmitted (setFields id byUuid set)) log
  Pass.log (·.event .setsCreated (createdFields id plan))
  pure plan.sets

theorem work_eq (p : Planner σ) (id : Int64) :
    p.work id = p.survey id >>= fun found => p.settle id found.1 found.2 := by
  rw [work, survey, bind_assoc]
  refine congrArg _ (funext fun table => ?_)
  rw [bind_assoc]
  refine congrArg _ (funext fun eligible => ?_)
  rw [pure_bind]
  rfl

theorem outcome_settle (table : Table) (eligible : EligibleShards) :
    outcome (p.settle id table eligible) s =
      ((p.compactor.plan table eligible.shards).map CompactionPlan.sets).mapError .defect := by
  rw [settle]
  cases p.compactor.plan table eligible.shards <;> rfl

theorem metrics_settle {table : Table} {eligible : EligibleShards} {plan : CompactionPlan}
    (h : p.compactor.plan table eligible.shards = .ok plan) :
    (stateAfter (p.settle id table eligible) s).metrics =
      (s.metrics.addExtraction eligible).addPlan plan.sets.length plan.stats := by
  rw [settle, h]
  rfl

/-- Only the survey can fail because of the store. What comes after it is a plan or a defect. -/
theorem outcome_work (p : Planner σ) (id : Int64) (s : Session σ) :
    outcome (p.work id) s = outcome (p.survey id) s >>= fun found =>
      ((p.compactor.plan found.1 found.2.shards).map CompactionPlan.sets).mapError .defect := by
  rw [work_eq, outcome_bind]
  simp only [outcome_settle]

end Planner

end ShardCompaction
