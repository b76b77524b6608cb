import ShardCompaction.Proofs.Planner.AllTables

namespace ShardCompaction

variable {σ τ : Type}

/-- An entry that a log with a minimum severity keeps. -/
def Severity.keeps (minimum : Severity) (e : LogEntry) : Bool := minimum.rank ≤ e.severity.rank

theorem Log.writeAll_empty (minimum : Severity) (entries : List LogEntry) :
    (empty minimum).writeAll entries = ⟨minimum, (entries.filter minimum.keeps).toArray⟩ := by
  rw [writeAll_eq, empty, Array.empty_append]
  rfl

namespace Planner

open Pass

/-- Runs jobs one after another. A job that fails leaves what it did to the session, and the next
one begins there. -/
def runAll (p : Planner σ) :
    List Job → Session σ → List (Except Abort (List OrganizationSet)) × Session σ
  | [], s => ([], s)
  | job :: jobs, s =>
    let rest := p.runAll jobs (stateAfter (p.run job) s)
    (outcome (p.run job) s :: rest.1, rest.2)

/-- Jobs that are alike one by one are so one after another. -/
theorem runAll_alike {R : σ → τ → Prop} {p : Planner σ} {q : Planner τ}
    (h : ∀ job, Alike R (p.run job) (q.run job)) (jobs : List Job) {s : Session σ} {t : Session τ}
    (hst : R s.store t.store) :
    (p.runAll jobs s).1 = (q.runAll jobs t).1 ∧
      R (p.runAll jobs s).2.store (q.runAll jobs t).2.store ∧
      Session.SameChange s (p.runAll jobs s).2 t (q.runAll jobs t).2 := by
  induction jobs generalizing s t with
  | nil => exact ⟨rfl, hst, [], .zero, .nothing rfl rfl, .nothing rfl rfl⟩
  | cons job jobs ih =>
    obtain ⟨hout, hafter, hchange⟩ := h job s t hst
    obtain ⟨hresults, hstore, hchanges⟩ := ih hafter
    exact ⟨congrArg₂ List.cons hout hresults, hstore, hchange.trans hchanges⟩

theorem run_recordsAt (p : Planner σ) (job : Job) (s : Session σ) :
    RecordsAt s (p.run job) (p.recorded.run job) fun _ _ => True := by
  intro before
  cases job with
  | table id =>
    obtain ⟨calls, hout, hafter, -⟩ :=
      planTable_recordsAt (work_recordsAt p id (opened id s)) before
    exact ⟨calls, hout, hafter, trivial⟩
  | all =>
    obtain ⟨calls, hout, hafter, -⟩ := planAll_recordsAt p s before
    exact ⟨calls, hout, hafter, trivial⟩

/-- Jobs do on a recorded store what they do on the store itself. -/
theorem runAll_recorded (p : Planner σ) (jobs : List Job) (s : Session σ)
    (before : List Exchange) :
    ∃ calls, p.recorded.runAll jobs (s.recorded before) =
      ((p.runAll jobs s).1, (p.runAll jobs s).2.recorded calls) := by
  induction jobs generalizing s before with
  | nil => exact ⟨before, rfl⟩
  | cons job jobs ih =>
    obtain ⟨calls, hout, hafter, -⟩ := p.run_recordsAt job s before
    obtain ⟨others, hrest⟩ := ih (stateAfter (p.run job) s) (before ++ calls)
    refine ⟨others, ?_⟩
    rw [runAll, hout, hafter, hrest]
    rfl

/-- What jobs end with, and the session that they leave, on a store that records its calls and with
an empty log of a minimum severity. -/
def observed (p : Planner σ) (jobs : List Job) (store : σ) (metrics : Metrics)
    (minimum : Severity) : List (Except Abort (List OrganizationSet)) × Session (Recorded σ) :=
  p.recorded.runAll jobs ⟨⟨store, []⟩, .empty minimum, metrics⟩

/-- From logs of two minimum severities the same is written and counted. -/
theorem observed_alike (p : Planner σ) (jobs : List Job) (store : σ) (metrics : Metrics)
    (m n : Severity) :
    (p.observed jobs store metrics m).1 = (p.observed jobs store metrics n).1 ∧
      (p.observed jobs store metrics m).2.store = (p.observed jobs store metrics n).2.store ∧
      Session.SameChange ⟨⟨store, []⟩, .empty m, metrics⟩ (p.observed jobs store metrics m).2
        ⟨⟨store, []⟩, .empty n, metrics⟩ (p.observed jobs store metrics n).2 :=
  runAll_alike p.recorded.run_alike jobs rfl

/-- The minimum severity of the log has no effect but on the log. Whatever the store answers and
whichever jobs run, under two minimum severities all results are the same, as are the calls that the
store records and the counters. The log of a minimum severity is the part of the log of all traces
that is severe enough. The jobs do the same on a store that records nothing. -/
theorem runAll_minimum (p : Planner σ) (jobs : List Job) (store : σ) (metrics : Metrics) :
    (∀ m n,
      (p.observed jobs store metrics m).1 = (p.observed jobs store metrics n).1 ∧
      (p.observed jobs store metrics m).2.store = (p.observed jobs store metrics n).2.store ∧
      (p.observed jobs store metrics m).2.metrics =
        (p.observed jobs store metrics n).2.metrics) ∧
    (∀ m, (p.observed jobs store metrics m).2.log.entries.toList =
        (p.observed jobs store metrics .trace).2.log.entries.toList.filter m.keeps ∧
      (p.observed jobs store metrics m).2.log.lines =
        ((p.observed jobs store metrics .trace).2.log.entries.toList.filter m.keeps).map
          LogEntry.line) ∧
    ∀ m, ∃ calls, p.observed jobs store metrics m =
      ((p.runAll jobs ⟨store, .empty m, metrics⟩).1,
        (p.runAll jobs ⟨store, .empty m, metrics⟩).2.recorded calls) := by
  refine ⟨?_, ?_, ?_⟩
  · intro m n
    obtain ⟨hresults, hstore, entries, counts, hm, hn⟩ := p.observed_alike jobs store metrics m n
    exact ⟨hresults, hstore, hm.metrics.trans hn.metrics.symm⟩
  · intro m
    obtain ⟨-, -, entries, counts, hm, htrace⟩ := p.observed_alike jobs store metrics m .trace
    have hentries : (p.observed jobs store metrics m).2.log.entries.toList =
        (p.observed jobs store metrics .trace).2.log.entries.toList.filter m.keeps := by
      rw [hm.log, htrace.log, Log.writeAll_empty, Log.entries_writeAll rfl, Log.empty,
        Array.empty_append]
    exact ⟨hentries, congrArg (List.map LogEntry.line) hentries⟩
  · exact fun m => p.runAll_recorded jobs ⟨store, .empty m, metrics⟩ []

end Planner

end ShardCompaction
