import ShardCompaction.Proofs.Planner.Ledger

namespace ShardCompaction

variable {σ τ α β : Type}

namespace Log

/-- The log after some more entries, of which it keeps those that are severe enough. -/
def writeAll (log : Log) (entries : List LogEntry) : Log := entries.foldl Log.writeEntry log

theorem writeAll_append (log : Log) (xs ys : List LogEntry) :
    log.writeAll (xs ++ ys) = (log.writeAll xs).writeAll ys := List.foldl_append

/-- The log keeps its entries and its minimum. -/
theorem writeAll_eq (log : Log) (entries : List LogEntry) :
    log.writeAll entries = ⟨log.minimum, log.entries ++
      (entries.filter fun e => log.minimum.rank ≤ e.severity.rank).toArray⟩ := by
  induction entries generalizing log with
  | nil => simp [writeAll]
  | cons e entries ih =>
    have hstep : log.writeAll (e :: entries) = (log.writeEntry e).writeAll entries := rfl
    rw [hstep, ih, writeEntry, write, enabled, List.filter_cons]
    split
    · simp
    · rfl

/-- A log that keeps everything keeps the entries that are written to it. -/
theorem entries_writeAll {log : Log} (h : log.minimum = .trace) (entries : List LogEntry) :
    (log.writeAll entries).entries = log.entries ++ entries.toArray := by
  rw [writeAll_eq, h]
  simp [Severity.rank]

end Log

/-- A change of the log that writes entries, the same ones to every log. -/
def Log.Writes (f : Log → Log) : Prop := ∃ entries, ∀ log, f log = log.writeAll entries

theorem Log.writes_event (e : Event) (fields : List LogField) : Log.Writes (·.event e fields) :=
  ⟨[⟨.info, e.name, fields⟩], fun _ => rfl⟩

theorem Log.writes_trace (e : Event) (fields : List LogField) : Log.Writes (·.trace e fields) :=
  ⟨[⟨.trace, e.name, fields⟩], fun _ => rfl⟩

theorem Log.writes_foldl_trace (e : Event) (fields : α → List LogField) (items : List α) :
    Log.Writes fun log => items.foldl (fun log a => log.trace e (fields a)) log := by
  refine ⟨items.map fun a => ⟨.trace, e.name, fields a⟩, fun log => ?_⟩
  rw [writeAll, List.foldl_map]
  rfl

/-- A change of the counters that adds, the same to all of them. -/
def Metrics.Counts (f : Metrics → Metrics) : Prop := ∃ counts, ∀ m, f m = m.plus counts

theorem Metrics.counts_addPass : Counts addPass :=
  ⟨{ zero with passes := 1 }, fun m => by simp [addPass, plus, zero]⟩

theorem Metrics.counts_addFailedPass : Counts addFailedPass :=
  ⟨{ zero with passesFailed := 1 }, fun m => by simp [addFailedPass, plus, zero]⟩

theorem Metrics.counts_addExtraction (e : EligibleShards) : Counts (·.addExtraction e) :=
  ⟨zero.addExtraction e, fun m => by simp [addExtraction, plus, zero]⟩

theorem Metrics.counts_addPlan (sets : Nat) (stats : CompactionStats) :
    Counts (·.addPlan sets stats) :=
  ⟨zero.addPlan sets stats, fun m => by simp [addPlan, plus, zero]⟩

/-- What a session has more than an earlier one: entries that were written and counts. -/
structure Session.Adds (before after : Session σ) (entries : List LogEntry) (counts : Metrics) :
    Prop where
  log : after.log = before.log.writeAll entries
  metrics : after.metrics = before.metrics.plus counts

namespace Session.Adds

variable {s s₁ s₂ : Session σ} {xs ys : List LogEntry} {m n : Metrics}

theorem nothing (hlog : s₁.log = s.log) (hmetrics : s₁.metrics = s.metrics) :
    s.Adds s₁ [] .zero := ⟨hlog, hmetrics.trans (Metrics.plus_zero _).symm⟩

theorem trans (h : s.Adds s₁ xs m) (h' : s₁.Adds s₂ ys n) : s.Adds s₂ (xs ++ ys) (m.plus n) := by
  constructor
  · rw [h'.log, h.log, Log.writeAll_append]
  · rw [h'.metrics, h.metrics, Metrics.plus_assoc]

end Session.Adds

/-- Two sessions are changed alike if the same is added to their logs and counters. -/
def Session.SameChange (s s₁ : Session σ) (t t₁ : Session τ) : Prop :=
  ∃ entries counts, s.Adds s₁ entries counts ∧ t.Adds t₁ entries counts

theorem Session.SameChange.trans {s s₁ s₂ : Session σ} {t t₁ t₂ : Session τ}
    (h : SameChange s s₁ t t₁) (h' : SameChange s₁ s₂ t₁ t₂) : SameChange s s₂ t t₂ := by
  obtain ⟨xs, m, hs, ht⟩ := h
  obtain ⟨ys, n, hs', ht'⟩ := h'
  exact ⟨xs ++ ys, m.plus n, hs.trans hs', ht.trans ht'⟩

/-- From related states two calls give the same answer, or fail alike, and leave related states. -/
def StoreCall.Alike (R : σ → τ → Prop) (c : StoreCall σ α) (d : StoreCall τ α) : Prop :=
  ∀ a b, R a b → outcome c a = outcome d b ∧ R (stateAfter c a) (stateAfter d b)

theorem StoreCall.alike_self (c : StoreCall σ α) : StoreCall.Alike Eq c c := by
  intro a b hab
  subst hab
  exact ⟨rfl, rfl⟩

namespace Pass

/-- From sessions with related stores two passes end with the same result or stop for the same
reason, change the sessions alike, and leave related stores. -/
def Alike (R : σ → τ → Prop) (x : Pass σ α) (y : Pass τ α) : Prop :=
  ∀ s t, R s.store t.store → outcome x s = outcome y t ∧
    R (stateAfter x s).store (stateAfter y t).store ∧
    Session.SameChange s (stateAfter x s) t (stateAfter y t)

/-- A result that a pass has from a session whose store is related to another one. -/
def MayGive (R : σ → τ → Prop) (x : Pass σ α) (a : α) : Prop :=
  ∃ s b, R s.store b ∧ outcome x s = .ok a

namespace Alike

variable {R : σ → τ → Prop} {x : Pass σ α} {y : Pass τ α}

theorem pure (a : α) : Alike R (Pure.pure a : Pass σ α) (Pure.pure a) :=
  fun _ _ h => ⟨rfl, h, [], .zero, .nothing rfl rfl, .nothing rfl rfl⟩

theorem throw (e : Abort) : Alike R (throw e : Pass σ α) (MonadExcept.throw e) :=
  fun _ _ h => ⟨rfl, h, [], .zero, .nothing rfl rfl, .nothing rfl rfl⟩

theorem call {c : StoreCall σ α} {d : StoreCall τ α} (h : StoreCall.Alike R c d) :
    Alike R (call c) (call d) := by
  intro s t hst
  obtain ⟨hout, hafter⟩ := h _ _ hst
  rw [outcome_call, outcome_call, stateAfter_call, stateAfter_call, hout]
  exact ⟨rfl, hafter, [], .zero, .nothing rfl rfl, .nothing rfl rfl⟩

theorem log {f : Log → Log} (h : Log.Writes f) : Alike R (log f) (log f) := by
  intro s t hst
  obtain ⟨entries, hf⟩ := h
  exact ⟨rfl, hst, entries, .zero, ⟨hf s.log, (Metrics.plus_zero _).symm⟩,
    ⟨hf t.log, (Metrics.plus_zero _).symm⟩⟩

theorem count {f : Metrics → Metrics} (h : Metrics.Counts f) : Alike R (count f) (count f) := by
  intro s t hst
  obtain ⟨counts, hf⟩ := h
  exact ⟨rfl, hst, [], counts, ⟨rfl, hf s.metrics⟩, ⟨rfl, hf t.metrics⟩⟩

theorem compute (r : Except Defect α) : Alike R (compute r) (compute r) := by
  cases r with
  | ok a => exact .pure a
  | error d => exact .throw (.defect d)

/-- What follows may use that its argument is a result of what comes before. -/
theorem bind {f : α → Pass σ β} {g : α → Pass τ β} (hx : Alike R x y)
    (hf : ∀ a, MayGive R x a → Alike R (f a) (g a)) : Alike R (x >>= f) (y >>= g) := by
  intro s t hst
  obtain ⟨hout, hafter, hchange⟩ := hx s t hst
  rw [outcome_bind, outcome_bind, stateAfter_bind, stateAfter_bind, ← hout]
  cases ha : outcome x s with
  | error e => exact ⟨rfl, hafter, hchange⟩
  | ok a =>
    obtain ⟨hout', hafter', hchange'⟩ := hf a ⟨s, _, hst, ha⟩ _ _ hafter
    exact ⟨hout', hafter', hchange.trans hchange'⟩

theorem map (f : α → β) (hx : Alike R x y) : Alike R (f <$> x) (f <$> y) := by
  rw [map_eq_pure_bind, map_eq_pure_bind]
  exact hx.bind fun a _ => .pure (f a)

end Alike

end Pass

/-- Stores that answer alike whatever a pass asks about one table once it has the table. -/
structure MetadataStore.AlikeOn (R : σ → τ → Prop) (m : MetadataStore σ) (n : MetadataStore τ)
    (id : Int64) : Prop where
  column : ∀ columnId, StoreCall.Alike R (m.column id columnId) (n.column id columnId)
  sortColumns : StoreCall.Alike R (m.sortColumns id) (n.sortColumns id)
  shards : StoreCall.Alike R (m.shards id) (n.shards id)
  queryIndex : ∀ columns shards,
    StoreCall.Alike R (m.queryIndex id columns shards) (n.queryIndex id columns shards)

theorem MetadataStore.alikeOn_self (m : MetadataStore σ) (id : Int64) : m.AlikeOn Eq m id :=
  ⟨fun _ => StoreCall.alike_self _, StoreCall.alike_self _, StoreCall.alike_self _,
    fun _ _ => StoreCall.alike_self _⟩

variable {R : σ → τ → Prop} {m : MetadataStore σ} {n : MetadataStore τ}

namespace Extraction

open Pass

variable {table : Table}

theorem columns_alike
    (hcolumn : ∀ id, StoreCall.Alike R (m.column table.id id) (n.column table.id id))
    (hsort : StoreCall.Alike R (m.sortColumns table.id) (n.sortColumns table.id))
    (options : ExtractionOptions) :
    Alike R (columns m table options) (columns n table options) := by
  rw [columns_eq, columns_eq]
  apply Alike.bind
  · rw [temporalLookup, temporalLookup]
    cases table.temporalColumn with
    | none => exact .pure none
    | some id =>
      apply (Alike.call (hcolumn id)).bind
      intro column _
      split
      · exact .pure (some column)
      · exact .throw _
  · intro temporal _
    apply Alike.bind
    · rw [sortLookup, sortLookup]
      split
      · exact (Alike.call hsort).map some
      · exact .pure none
    · exact fun sort _ => .pure _

theorem queryBatches_alike {id : Int64} (h : m.AlikeOn R n id) (c : RangeColumns)
    (batches : List (List ShardRecord)) (resolved : IdMap Shard) :
    Alike R (queryBatches m id c batches resolved) (queryBatches n id c batches resolved) := by
  induction batches generalizing resolved with
  | nil => exact .pure resolved
  | cons batch batches ih =>
    rw [queryBatches, queryBatches]
    apply (Alike.call (h.queryIndex _ _)).bind
    intro rows _
    exact (Alike.log (Log.writes_trace _ _)).bind fun _ _ => ih _

theorem collect_alike (id : Int64) (records : List ShardRecord) (resolved : IdMap Shard) :
    Alike R (collect id records resolved) (collect id records resolved) := by
  induction records generalizing resolved with
  | nil => exact .pure []
  | cons record records ih =>
    rw [collect, collect]
    cases resolved[record.id]? with
    | none => exact (Alike.log (Log.writes_trace _ _)).bind fun _ _ => ih resolved
    | some shard => exact (ih _).bind fun shards _ => .pure (shard :: shards)

theorem ofTable_alike (h : m.AlikeOn R n table.id) (options : ExtractionOptions) :
    Alike R (ofTable m table options) (ofTable n table options) := by
  rw [ofTable, ofTable]
  apply (Alike.call h.shards).bind
  intro records _
  rw [ofRecords, ofRecords]
  apply (columns_alike h.column h.sortColumns options).bind
  intro c _
  apply (queryBatches_alike h c _ ∅).bind
  intro resolved _
  exact (collect_alike table.id _ resolved).bind fun shards _ => .pure _

end Extraction

namespace Planner

open Pass

variable {compactor : Compactor} {options : ExtractionOptions} {id : Int64}

/-- A pass asks for its table and then only about the table that it got. -/
theorem survey_alike (htable : StoreCall.Alike R (m.table id) (n.table id))
    (h : ∀ table, MayGive R (call (m.table id)) table → m.AlikeOn R n table.id) :
    Alike R (survey ⟨m, compactor, options⟩ id) (survey ⟨n, compactor, options⟩ id) := by
  rw [survey, survey]
  apply (Alike.call htable).bind
  intro table hgives
  exact (Extraction.ofTable_alike (h table hgives) options).bind fun eligible _ => .pure _

theorem settle_alike (table : Table) (eligible : EligibleShards) :
    Alike R (settle ⟨m, compactor, options⟩ id table eligible)
      (settle ⟨n, compactor, options⟩ id table eligible) := by
  rw [settle, settle]
  apply (Alike.count (Metrics.counts_addExtraction eligible)).bind
  intro _ _
  apply (Alike.log (Log.writes_event _ _)).bind
  intro _ _
  apply (Alike.compute _).bind
  intro plan _
  apply (Alike.count (Metrics.counts_addPlan _ _)).bind
  intro _ _
  apply (Alike.log (Log.writes_foldl_trace _ _ _)).bind
  intro _ _
  exact (Alike.log (Log.writes_event _ _)).bind fun _ _ => .pure plan.sets

/-- Opening a pass adds the same to every session. -/
theorem sameChange_opened (id : Int64) (s : Session σ) (t : Session τ) :
    Session.SameChange s (opened id s) t (opened id t) := by
  obtain ⟨counts, hcounts⟩ := Metrics.counts_addPass
  exact ⟨[(scope id).opening], counts, ⟨rfl, hcounts s.metrics⟩, ⟨rfl, hcounts t.metrics⟩⟩

/-- So does closing it, after the same result. -/
theorem sameChange_closed (id : Int64) (r : Except Abort (List OrganizationSet)) (s : Session σ)
    (t : Session τ) : Session.SameChange s (closed id r s) t (closed id r t) := by
  match r with
  | .ok sets =>
    exact ⟨[_], .zero, ⟨rfl, (Metrics.plus_zero _).symm⟩, ⟨rfl, (Metrics.plus_zero _).symm⟩⟩
  | .error (.store e) =>
    obtain ⟨counts, hcounts⟩ := Metrics.counts_addFailedPass
    exact ⟨[_], counts, ⟨rfl, hcounts s.metrics⟩, ⟨rfl, hcounts t.metrics⟩⟩
  | .error (.defect d) =>
    exact ⟨[_], .zero, ⟨rfl, (Metrics.plus_zero _).symm⟩, ⟨rfl, (Metrics.plus_zero _).symm⟩⟩

theorem store_closed (id : Int64) (r : Except Abort (List OrganizationSet)) (s : Session σ) :
    (closed id r s).store = s.store := by
  match r with
  | .ok _ => rfl
  | .error (.store _) => rfl
  | .error (.defect _) => rfl

theorem planTable_alike (htable : StoreCall.Alike R (m.table id) (n.table id))
    (h : ∀ table, MayGive R (call (m.table id)) table → m.AlikeOn R n table.id) :
    Alike R (planTable ⟨m, compactor, options⟩ id) (planTable ⟨n, compactor, options⟩ id) := by
  intro s t hst
  have hwork : Alike R (work ⟨m, compactor, options⟩ id) (work ⟨n, compactor, options⟩ id) := by
    rw [work_eq, work_eq]
    exact (survey_alike htable h).bind fun found _ => settle_alike found.1 found.2
  obtain ⟨hout, hafter, hchange⟩ := hwork (opened id s) (opened id t) hst
  rw [outcome_planTable, outcome_planTable, stateAfter_planTable, stateAfter_planTable, ← hout]
  refine ⟨rfl, ?_, ?_⟩
  · rwa [store_closed, store_closed]
  · exact ((sameChange_opened id s t).trans hchange).trans (sameChange_closed id _ _ _)

/-- Passes over several tables are alike if those over each of them are. -/
theorem planTables_alike {p : Planner σ} {q : Planner τ}
    (h : ∀ id, Alike R (p.planTable id) (q.planTable id)) (tables : List Table) :
    Alike R (p.planTables tables) (q.planTables tables) := by
  induction tables with
  | nil => exact .pure []
  | cons table rest ih =>
    rw [planTables, planTables]
    apply (h table.id).bind
    intro sets _
    exact ih.bind fun more _ => .pure (sets ++ more)

/-- A planner does the same with whatever log and counters it begins. -/
theorem run_alike (p : Planner σ) (job : Job) : Alike Eq (p.run job) (p.run job) := by
  have htable : ∀ id, Alike Eq (p.planTable id) (p.planTable id) := fun id =>
    planTable_alike (StoreCall.alike_self _) fun table _ => p.store.alikeOn_self table.id
  cases job with
  | table id => exact htable id
  | all =>
    rw [run, planAll]
    apply (Alike.call (StoreCall.alike_self _)).bind
    exact fun tables _ => planTables_alike htable tables

end Planner

end ShardCompaction
