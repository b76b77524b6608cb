import ShardCompaction.Metadata.Faults
import ShardCompaction.Proofs.Checked
import ShardCompaction.Proofs.Compaction.Plan
import ShardCompaction.Proofs.Planner.Stages

namespace ShardCompaction

variable {σ α β : Type}

namespace Metrics

/-- Counters are added as the words that they are. -/
def plus (a b : Metrics) : Metrics where
  passes := a.passes + b.passes
  passesFailed := a.passesFailed + b.passesFailed
  setsEmitted := a.setsEmitted + b.setsEmitted
  shardsPlanned := a.shardsPlanned + b.shardsPlanned
  shardsAdequate := a.shardsAdequate + b.shardsAdequate
  singletonsDiscarded := a.singletonsDiscarded + b.singletonsDiscarded
  indexQueries := a.indexQueries + b.indexQueries
  shardsDropped := a.shardsDropped + b.shardsDropped
  deltasSkipped := a.deltasSkipped + b.deltasSkipped

theorem plus_assoc (a b c : Metrics) : (a.plus b).plus c = a.plus (b.plus c) := by
  simp only [plus, UInt64.add_assoc]

theorem plus_zero (a : Metrics) : a.plus zero = a := by
  simp only [plus, zero, UInt64.add_zero]

end Metrics

/-- A result or a failure of the store. -/
def NoDefect (r : Except Abort α) : Prop := ∀ d, r ≠ .error (.defect d)

instance (r : Except Abort α) : Decidable (NoDefect r) :=
  match r with
  | .ok _ => .isTrue fun _ h => nomatch h
  | .error (.store _) => .isTrue fun _ h => nomatch h
  | .error (.defect d) => .isFalse fun h => h d rfl

/-- How a pass ended: with what it extracted and the plan that it made of it, or without. -/
abbrev Report := Except Abort (EligibleShards × CompactionPlan)

namespace Report

def completed? : Report → Option (EligibleShards × CompactionPlan)
  | .ok done => some done
  | .error _ => none

def failed : Report → Bool
  | .error (.store _) => true
  | _ => false

end Report

/-- What the counters say of some passes: how many there were, how many of them failed, and the sums
of what the others extracted and planned. -/
def ledger (reports : List Report) : Metrics :=
  let done := reports.filterMap Report.completed?
  { passes := .ofNat reports.length
    passesFailed := .ofNat (reports.countP Report.failed)
    setsEmitted := .ofNat (done.map fun r => r.2.sets.length).sum
    shardsPlanned := .ofNat (done.map fun r => r.2.stats.planned).sum
    shardsAdequate := .ofNat (done.map fun r => r.2.stats.adequate).sum
    singletonsDiscarded := .ofNat (done.map fun r => r.2.stats.singletons).sum
    indexQueries := .ofNat (done.map fun r => r.1.indexQueries).sum
    shardsDropped := .ofNat (done.map fun r => r.1.dropped).sum
    deltasSkipped := .ofNat (done.map fun r => r.1.deltas).sum }

theorem ledger_append (xs ys : List Report) :
    ledger (xs ++ ys) = (ledger xs).plus (ledger ys) := by
  simp only [ledger, List.length_append, List.countP_append, List.filterMap_append,
    List.map_append, List.sum_append, UInt64.ofNat_add, Metrics.plus]

namespace Pass

/-- The pass leaves all counters as they are, also if it fails. -/
def KeepsMetrics (x : Pass σ α) : Prop := ∀ s, (stateAfter x s).metrics = s.metrics

namespace KeepsMetrics

theorem pure (a : α) : KeepsMetrics (Pure.pure a : Pass σ α) := fun _ => rfl

theorem throw (e : Abort) : KeepsMetrics (throw e : Pass σ α) := fun _ => rfl

theorem log (f : Log → Log) : KeepsMetrics (log f : Pass σ Unit) := fun _ => rfl

theorem call (c : StoreCall σ α) : KeepsMetrics (call c) := by
  intro s
  rw [stateAfter_call]

theorem bind {x : Pass σ α} {f : α → Pass σ β} (hx : KeepsMetrics x)
    (hf : ∀ a, KeepsMetrics (f a)) : KeepsMetrics (x >>= f) := by
  intro s
  rw [stateAfter_bind]
  cases outcome x s with
  | error e => exact hx s
  | ok a => exact (hf a (stateAfter x s)).trans (hx s)

theorem map {x : Pass σ α} (f : α → β) (hx : KeepsMetrics x) : KeepsMetrics (f <$> x) := by
  rw [map_eq_pure_bind]
  exact hx.bind fun a => .pure (f a)

end KeepsMetrics

end Pass

namespace Extraction

open Pass

theorem columns_keepsMetrics (store : MetadataStore σ) (table : Table)
    (options : ExtractionOptions) : KeepsMetrics (columns store table options) := by
  rw [columns_eq]
  apply KeepsMetrics.bind
  · rw [temporalLookup]
    cases table.temporalColumn with
    | none => exact .pure none
    | some id =>
      apply (KeepsMetrics.call _).bind
      intro column
      split
      · exact .pure (some column)
      · exact .throw _
  · intro temporal
    apply KeepsMetrics.bind
    · rw [sortLookup]
      split
      · exact (KeepsMetrics.call _).map some
      · exact .pure none
    · exact fun sort => .pure _

theorem queryBatches_keepsMetrics (store : MetadataStore σ) (id : Int64) (c : RangeColumns)
    (batches : List (List ShardRecord)) (resolved : IdMap Shard) :
    KeepsMetrics (queryBatches store id c batches resolved) := by
  induction batches generalizing resolved with
  | nil => exact .pure resolved
  | cons batch batches ih =>
    rw [queryBatches]
    exact (KeepsMetrics.call _).bind fun rows => (KeepsMetrics.log _).bind fun _ => ih _

theorem collect_keepsMetrics (id : Int64) (records : List ShardRecord) (resolved : IdMap Shard) :
    KeepsMetrics (collect id records resolved : Pass σ (List Shard)) := by
  induction records generalizing resolved with
  | nil => exact .pure []
  | cons record records ih =>
    rw [collect]
    cases resolved[record.id]? with
    | none => exact (KeepsMetrics.log _).bind fun _ => ih resolved
    | some shard => exact (ih _).bind fun shards => .pure (shard :: shards)

theorem ofRecords_keepsMetrics (store : MetadataStore σ) (table : Table)
    (records : List ShardRecord) (options : ExtractionOptions) :
    KeepsMetrics (ofRecords store table records options) := by
  rw [ofRecords]
  apply (columns_keepsMetrics store table options).bind
  intro c
  apply (queryBatches_keepsMetrics store table.id c _ ∅).bind
  intro resolved
  exact (collect_keepsMetrics table.id _ resolved).bind fun shards => .pure _

end Extraction

namespace Planner

variable {p : Planner σ} {id : Int64} {s s' : Session σ}

theorem survey_keepsMetrics (p : Planner σ) (id : Int64) : Pass.KeepsMetrics (p.survey id) := by
  rw [survey]
  apply (Pass.KeepsMetrics.call _).bind
  intro table
  apply Pass.KeepsMetrics.bind
  · exact (Pass.KeepsMetrics.call _).bind fun records =>
      Extraction.ofRecords_keepsMetrics p.store table records p.options
  · exact fun eligible => .pure (table, eligible)

/-- How a pass ends that begins at a session. -/
def report (p : Planner σ) (id : Int64) (s : Session σ) : Report :=
  outcome (p.survey id) (opened id s) >>= fun found =>
    ((p.compactor.plan found.1 found.2.shards).map fun plan => (found.2, plan)).mapError .defect

/-- A pass gives the sets of its plan. -/
theorem outcome_planTable_eq (p : Planner σ) (id : Int64) (s : Session σ) :
    outcome (p.planTable id) s = (p.report id s).map fun done => done.2.sets := by
  rw [outcome_planTable, outcome_work, report]
  cases outcome (p.survey id) (opened id s) with
  | error a => rfl
  | ok found =>
    dsimp only [bind, Except.bind]
    cases p.compactor.plan found.1 found.2.shards <;> rfl

theorem report_eq_ok {done : EligibleShards × CompactionPlan} (h : p.report id s = .ok done) :
    ∃ table, outcome (p.survey id) (opened id s) = .ok (table, done.1) ∧
      p.compactor.plan table done.1.shards = .ok done.2 := by
  obtain ⟨found, hsurvey, h⟩ := Checked.bind_eq_ok_iff.mp h
  rw [Checked.mapError_eq_ok_iff, Checked.map_eq_ok_iff] at h
  obtain ⟨plan, hplan, rfl⟩ := h
  exact ⟨found.1, hsurvey, hplan⟩

/-- Only the survey fails because of the store. -/
theorem report_eq_store {e : MetadataError} (h : p.report id s = .error (.store e)) :
    outcome (p.survey id) (opened id s) = .error (.store e) := by
  rcases Checked.bind_eq_error_iff.mp h with hsurvey | ⟨found, -, hplan⟩
  · exact hsurvey
  · obtain ⟨d, -, hd⟩ := Checked.mapError_eq_error_iff.mp hplan
    simp at hd

theorem metrics_of_completed {done : EligibleShards × CompactionPlan}
    (h : p.report id s = .ok done) :
    (stateAfter (p.planTable id) s).metrics =
      (s.metrics.addPass.addExtraction done.1).addPlan done.2.sets.length done.2.stats := by
  obtain ⟨table, hsurvey, hplan⟩ := report_eq_ok h
  have hwork : outcome (p.work id) (opened id s) = .ok done.2.sets := by
    rw [work_eq, outcome_bind_of_ok hsurvey, outcome_settle, hplan]
    rfl
  have hkept : (stateAfter (p.survey id) (opened id s)).metrics = s.metrics.addPass :=
    survey_keepsMetrics p id _
  rw [stateAfter_planTable, hwork, work_eq, stateAfter_bind_of_ok hsurvey, ← hkept]
  exact metrics_settle hplan

theorem metrics_of_failed {e : MetadataError} (h : p.report id s = .error (.store e)) :
    (stateAfter (p.planTable id) s).metrics = s.metrics.addPass.addFailedPass := by
  have hsurvey := report_eq_store h
  have hwork : outcome (p.work id) (opened id s) = .error (.store e) := by
    rw [work_eq, outcome_bind_of_error hsurvey]
  have hkept : (stateAfter (p.survey id) (opened id s)).metrics = s.metrics.addPass :=
    survey_keepsMetrics p id _
  rw [stateAfter_planTable, hwork, work_eq, stateAfter_bind_of_error hsurvey, ← hkept]
  rfl

/-- One pass adds one line to the ledger. -/
theorem metrics_planTable (h : NoDefect (p.report id s)) :
    (stateAfter (p.planTable id) s).metrics = s.metrics.plus (ledger [p.report id s]) := by
  cases hreport : p.report id s with
  | ok done =>
    rw [metrics_of_completed hreport]
    simp [ledger, Metrics.plus, Metrics.addPass, Metrics.addExtraction, Metrics.addPlan,
      Report.failed, Report.completed?]
  | error a =>
    cases a with
    | store e =>
      rw [metrics_of_failed hreport]
      simp [ledger, Metrics.plus, Metrics.addPass, Metrics.addFailedPass, List.filterMap_cons,
        Report.failed, Report.completed?]
    | defect d => exact absurd hreport (h d)

/-- What a planner is asked for: the sets of one table, or those of all tables. -/
inductive Job where
  | table (id : Int64)
  | all

def run (p : Planner σ) : Job → Pass σ (List OrganizationSet)
  | .table id => p.planTable id
  | .all => p.planAll

/-- The reports of passes over tables. The first pass that does not complete is the last one. -/
def tableReports (p : Planner σ) : List Table → Session σ → List Report
  | [], _ => []
  | table :: rest, s =>
    p.report table.id s :: match outcome (p.planTable table.id) s with
      | .ok _ => p.tableReports rest (stateAfter (p.planTable table.id) s)
      | .error _ => []

/-- The reports of the passes that a job starts. If the tables are not listed, it starts none. -/
def jobReports (p : Planner σ) (s : Session σ) : Job → List Report
  | .table id => [p.report id s]
  | .all => match outcome (Pass.call p.store.tables) s with
    | .ok tables => p.tableReports tables (stateAfter (Pass.call p.store.tables) s)
    | .error _ => []

/-- The reports of all passes that some jobs start, one job after another. -/
def reports (p : Planner σ) : List Job → Session σ → List Report
  | [], _ => []
  | job :: jobs, s => p.jobReports s job ++ p.reports jobs (stateAfter (p.run job) s)

/-- Jobs that run one after another, none of which ends with a defect. A job that fails leaves what
it did to the session. -/
inductive Runs (p : Planner σ) : List Job → Session σ → Session σ → Prop
  | nil (s : Session σ) : Runs p [] s s
  | cons {job : Job} {jobs : List Job} {s s' : Session σ}
    (hjob : NoDefect (outcome (p.run job) s))
    (hjobs : Runs p jobs (stateAfter (p.run job) s) s') : Runs p (job :: jobs) s s'

theorem noDefect_report (h : NoDefect (outcome (p.planTable id) s)) :
    NoDefect (p.report id s) := by
  intro d hreport
  apply h d
  rw [outcome_planTable_eq, hreport]
  rfl

theorem metrics_planTables {tables : List Table}
    (h : NoDefect (outcome (p.planTables tables) s)) :
    (stateAfter (p.planTables tables) s).metrics =
      s.metrics.plus (ledger (p.tableReports tables s)) := by
  induction tables generalizing s with
  | nil => exact (Metrics.plus_zero s.metrics).symm
  | cons table rest ih =>
    rw [planTables] at h ⊢
    rw [tableReports]
    cases hout : outcome (p.planTable table.id) s with
    | error a =>
      -- The pass is the last one, so that its line is the whole ledger.
      rw [outcome_bind_of_error hout] at h
      rw [stateAfter_bind_of_error hout]
      exact metrics_planTable (noDefect_report (hout ▸ h))
    | ok sets =>
      -- The rest begins where the pass ends, and a defect of the rest is one of the whole.
      rw [outcome_bind_of_ok hout] at h
      have hrest : NoDefect (outcome (p.planTables rest) (stateAfter (p.planTable table.id) s)) :=
        fun d hd => h d (outcome_bind_of_error hd)
      have hfirst : NoDefect (outcome (p.planTable table.id) s) := by simp [NoDefect, hout]
      rw [stateAfter_bind_of_ok hout, stateAfter_bind_pure, ih hrest,
        metrics_planTable (noDefect_report hfirst), Metrics.plus_assoc, ← ledger_append]
      rfl

theorem metrics_run {job : Job} (h : NoDefect (outcome (p.run job) s)) :
    (stateAfter (p.run job) s).metrics = s.metrics.plus (ledger (p.jobReports s job)) := by
  cases job with
  | table id => exact metrics_planTable (noDefect_report h)
  | all =>
    have hlisted := Pass.KeepsMetrics.call p.store.tables s
    rw [run, planAll] at h ⊢
    rw [jobReports]
    cases hout : outcome (Pass.call p.store.tables) s with
    | error a =>
      rw [stateAfter_bind_of_error hout, hlisted]
      exact (Metrics.plus_zero s.metrics).symm
    | ok tables =>
      rw [outcome_bind_of_ok hout] at h
      rw [stateAfter_bind_of_ok hout, metrics_planTables h, hlisted]

theorem metrics_of_runs {jobs : List Job} (h : p.Runs jobs s s') :
    s'.metrics = s.metrics.plus (ledger (p.reports jobs s)) := by
  induction h with
  | nil s => exact (Metrics.plus_zero s.metrics).symm
  | cons hjob _ ih => rw [ih, metrics_run hjob, Metrics.plus_assoc, ← ledger_append, reports]

/-- After any jobs that end without a defect the counters are the ledger of all passes that the jobs
started, whatever the store answers. A pass gives the sets of its report, and one that fails leaves
all but the two counts of passes as they were. -/
theorem metrics_are_ledger {jobs : List Job} (h : p.Runs jobs s s') :
    s'.metrics = s.metrics.plus (ledger (p.reports jobs s)) ∧
    (∀ id before, outcome (p.planTable id) before =
      (p.report id before).map fun done => done.2.sets) ∧
    ∀ id before e, outcome (p.planTable id) before = .error (.store e) →
      (stateAfter (p.planTable id) before).metrics = before.metrics.addPass.addFailedPass := by
  refine ⟨metrics_of_runs h, outcome_planTable_eq p, ?_⟩
  intro id before e he
  rw [outcome_planTable_eq, Checked.map_eq_error_iff] at he
  exact metrics_of_failed he

/-- Two tables, with two shards each, behind an index that answers five queries and no more. -/
def tiringStore : FaultyStore where
  inner := CatalogStore.empty.writeAll
    [.table (.plain 1), .table (.plain 2), .shard (.plain 1 1 false), .shard (.plain 2 2 false),
      .shard { ShardRecord.plain 3 3 false with table := 2 },
      .shard { ShardRecord.plain 4 4 false with table := 2 }]
  faults := { Faults.none with outage := some (.queriesAfter 5) }
  queries := 0

/-- Queries the index for each shard alone. -/
def tiringPlanner : Planner FaultyStore :=
  ⟨FaultyStore.asMetadataStore, ⟨.utc, 100, 100⟩, ⟨false, 1⟩⟩

/-- The job for all tables fails at the second table, after one of its two queries. -/
theorem metrics_are_ledger_of_tiringPlanner :
    ∃ s', tiringPlanner.Runs [.table 1, .all] (.start tiringStore (.empty .error)) s' ∧
      s'.metrics = Metrics.zero.plus
        (ledger (tiringPlanner.reports [.table 1, .all] (.start tiringStore (.empty .error)))) ∧
      s'.metrics = { Metrics.zero with
        passes := 3, passesFailed := 1, setsEmitted := 2, shardsPlanned := 4, indexQueries := 4 } ∧
      s'.store.queries = 6 := by
  have hruns : tiringPlanner.Runs [.table 1, .all] (.start tiringStore (.empty .error))
      (stateAfter tiringPlanner.planAll
        (stateAfter (tiringPlanner.planTable 1) (.start tiringStore (.empty .error)))) :=
    .cons (by decide +kernel) (.cons (by decide +kernel) (.nil _))
  exact ⟨_, hruns, (metrics_are_ledger hruns).1, by decide +kernel, by decide +kernel⟩

end Planner

end ShardCompaction
