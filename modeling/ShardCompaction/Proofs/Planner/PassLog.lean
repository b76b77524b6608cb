import ShardCompaction.Proofs.Planner.Accounting
import ShardCompaction.Proofs.Planner.Calls
import ShardCompaction.Proofs.Planner.ExtractionLog

namespace ShardCompaction

variable {σ : Type}

namespace LogEntry

def shardsResolved (id : Int64) (table : Table) (e : EligibleShards) : LogEntry :=
  ⟨.info, "ELIGIBLE_SHARDS_RESOLVED", Planner.resolvedFields table id e⟩

def setEmitted (id : Int64) (e : EligibleShards) (set : OrganizationSet) : LogEntry :=
  ⟨.trace, "ORGANIZATION_SET_EMITTED", Planner.setFields id (Planner.byUuid e.shards) set⟩

def setsCreated (id : Int64) (plan : CompactionPlan) : LogEntry :=
  ⟨.info, "COMPACTION_SETS_CREATED", Planner.createdFields id plan⟩

def passBegin (id : Int64) : LogEntry :=
  ⟨.info, "COMPACTION_PLAN_BEGIN", [("table_id", Decimal.int64Text id)]⟩

def passComplete (id : Int64) (sets : Nat) : LogEntry :=
  ⟨.info, "COMPACTION_PLAN_COMPLETE",
    [("table_id", Decimal.int64Text id), ("sets", Decimal.natText sets), ("elapsed_ms", "0")]⟩

def passFailed (id : Int64) (e : MetadataError) : LogEntry :=
  ⟨.error, "COMPACTION_PLAN_FAILED",
    [("table_id", Decimal.int64Text id), ("code", e.code), ("reason", e.message),
      ("elapsed_ms", "0")]⟩

def passIncomplete (id : Int64) : LogEntry :=
  ⟨.warn, "COMPACTION_PLAN_INCOMPLETE",
    [("table_id", Decimal.int64Text id), ("reason", "scope dropped without completion")]⟩

end LogEntry

namespace Planner

open Pass Exchange LogEntry Extraction

/-- A survey that gets through: the table and the records that the store gave, what became of the
records, and the eligible shards. Every record that is no delete-delta shard was asked for once. -/
structure Surveyed (p : Planner σ) (id : Int64) (s : Session σ) (calls : List Exchange)
    (table : Table) (records : List ShardRecord) (fates : List Fate) (e : EligibleShards) :
    Prop where
  outcome_eq : outcome (p.survey id) s = .ok (table, e)
  answered : ∀ call ∈ calls, call.failure? = none
  found : ⟨.table id, .ok table⟩ ∈ calls
  listed : ⟨.shards table.id, .ok records⟩ ∈ calls
  asked : (calls.filterMap asked?).flatten =
    (records.filter fun r => !r.isDelta).map ShardRecord.id
  queries : e.indexQueries = (calls.filterMap indexBatch?).length
  sorts : Sorts records fates e

/-- The log of a pass over a table that begins its survey at a session, by how the pass ends. -/
inductive PassLog (p : Planner σ) (id : Int64) (s : Session σ) (calls : List Exchange) :
    List LogEntry → Except Abort (List OrganizationSet) → Prop
  | failed {e : MetadataError} (hfirst : calls.findSome? Exchange.failure? = some e) :
    PassLog p id s calls (passBegin id :: calls.filterMap indexBatch? ++ [passFailed id e])
      (.error (.store e))
  | planned {table : Table} {records : List ShardRecord} {fates : List Fate} {e : EligibleShards}
    {plan : CompactionPlan} (hsurvey : p.Surveyed id s calls table records fates e)
    (hplan : p.compactor.plan table e.shards = .ok plan) :
    PassLog p id s calls
      (passBegin id :: (calls.filterMap indexBatch? ++
        (Fate.dropped fates).map (rangeMissing table.id) ++
        (shardsResolved id table e :: plan.sets.map (setEmitted id e) ++ [setsCreated id plan])) ++
        [passComplete id plan.sets.length])
      (.ok plan.sets)
  | abandoned {table : Table} {records : List ShardRecord} {fates : List Fate} {e : EligibleShards}
    {d : Defect} (hsurvey : p.Surveyed id s calls table records fates e)
    (hplan : p.compactor.plan table e.shards = .error d) :
    PassLog p id s calls
      (passBegin id :: (calls.filterMap indexBatch? ++
        (Fate.dropped fates).map (rangeMissing table.id) ++ [shardsResolved id table e]) ++
        [passIncomplete id])
      (.error (.defect d))

/-- An entry that names the table that is planned or, in its place, the table that was found. -/
def Names (id : Int64) (calls : List Exchange) (e : LogEntry) : Prop :=
  e.IsAbout id ∨ ∃ table, ⟨.table id, .ok table⟩ ∈ calls ∧ e.IsAbout table.id

/-- What the survey of a pass asks and reports. -/
def SurveyReports (id : Int64) (calls : List Exchange) (entries : List LogEntry) :
    Except Abort (Table × EligibleShards) → Prop
  | .ok (table, e) => ∃ records, ⟨.table id, .ok table⟩ ∈ calls ∧
    ⟨.shards table.id, .ok records⟩ ∈ calls ∧ Reports table.id records calls entries (.ok e)
  | .error (.store _) => entries = calls.filterMap indexBatch? ∧
    ∀ e ∈ entries, e.event ∈ steps ∧ Names id calls e
  | .error (.defect _) => False

theorem survey_notes (p : Planner σ) (id : Int64) :
    Notes (p.recorded.survey id) (SurveyReports id) := by
  rw [survey]
  apply Notes.ask_bind p.store (.table id)
  · exact fun e => ⟨rfl, by simp⟩
  · intro table
    simp only [ofTable, bind_assoc]
    apply Notes.ask_bind p.store (.shards table.id)
    · exact fun e => ⟨rfl, by simp⟩
    · intro records
      have hquiet : Quiet [⟨.table id, .ok table⟩, ⟨.shards table.id, .ok records⟩] []
          (.ok () : Except Abort Unit) := ⟨rfl, rfl, by simp [NoDefect]⟩
      apply (ofRecords_notes p.store table records p.options).bind
      · intro calls entries a h
        have hreports := h.prepend hquiet
        have hsteps := hreports.steps
        cases hreports with
        | failed e habout =>
          refine ⟨rfl, fun e he => ?_⟩
          obtain ⟨hevent, habout⟩ := hsteps e he
          exact ⟨hevent, .inr ⟨table, by simp, habout⟩⟩
      · intro e calls entries h
        apply Notes.pure
        have hreports := h.prepend hquiet
        rw [List.append_nil, List.append_nil]
        exact ⟨records, by simp, by simp, hreports⟩

/-- The entry that closes a pass, by its result. -/
def closingEntry (id : Int64) : Except Abort (List OrganizationSet) → LogEntry
  | .ok sets => passComplete id sets.length
  | .error (.store e) => passFailed id e
  | .error (.defect _) => passIncomplete id

theorem log_closed (id : Int64) (r : Except Abort (List OrganizationSet)) (s : Session σ) :
    (closed id r s).log = s.log.writeEntry (closingEntry id r) := by
  match r with
  | .ok _ => rfl
  | .error (.store _) => rfl
  | .error (.defect _) => rfl

theorem closingEntry_closes (id : Int64) (r : Except Abort (List OrganizationSet)) :
    (closingEntry id r).event ∈ closings ∧ (closingEntry id r).IsAbout id := by
  match r with
  | .ok _ => exact ⟨by simp [closings, closingEntry, passComplete], rfl⟩
  | .error (.store _) => exact ⟨by simp [closings, closingEntry, passFailed], rfl⟩
  | .error (.defect _) => exact ⟨by simp [closings, closingEntry, passIncomplete], rfl⟩

/-- What settling a pass writes: the sets of the plan one by one, unless a defect stops it. -/
def settlement (id : Int64) (table : Table) (e : EligibleShards) :
    Except Defect CompactionPlan → List LogEntry
  | .ok plan =>
    shardsResolved id table e :: plan.sets.map (setEmitted id e) ++ [setsCreated id plan]
  | .error _ => [shardsResolved id table e]

theorem settle_notes (p : Planner (Recorded σ)) (id : Int64) (table : Table) (e : EligibleShards) :
    Notes (p.settle id table e) fun calls entries r =>
      calls = [] ∧ entries = settlement id table e (p.compactor.plan table e.shards) ∧
        r = ((p.compactor.plan table e.shards).map CompactionPlan.sets).mapError .defect := by
  intro s
  refine ⟨[], settlement id table e (p.compactor.plan table e.shards), ?_, ?_, rfl, rfl,
    outcome_settle table e⟩
  · rw [settle, List.append_nil]
    cases p.compactor.plan table e.shards <;> rfl
  · rw [settle]
    cases p.compactor.plan table e.shards with
    | error d => rfl
    | ok plan =>
      simp only [settlement, Log.writeAll, List.foldl_append, List.foldl_cons, List.foldl_map]
      rfl

theorem steps_of_settlement {id : Int64} {table : Table} {e : EligibleShards}
    {plan : Except Defect CompactionPlan} {entry : LogEntry}
    (h : entry ∈ settlement id table e plan) : entry.event ∈ steps ∧ entry.IsAbout id := by
  have hresolved : (shardsResolved id table e).event ∈ steps := by simp [steps, shardsResolved]
  cases plan with
  | error d =>
    obtain rfl := List.mem_singleton.mp h
    exact ⟨hresolved, rfl⟩
  | ok plan =>
    rcases List.mem_append.mp h with h | h
    · rcases List.mem_cons.mp h with rfl | h
      · exact ⟨hresolved, rfl⟩
      · obtain ⟨set, -, rfl⟩ := List.mem_map.mp h
        exact ⟨by simp [steps, setEmitted], rfl⟩
    · obtain rfl := List.mem_singleton.mp h
      exact ⟨by simp [steps, setsCreated], rfl⟩

/-- What a pass over a table writes: one entry that opens it, one that closes it, and between them
entries of its steps. -/
structure Framed (id : Int64) (calls : List Exchange) (entries : List LogEntry) : Prop where
  first : entries.head? = some (passBegin id)
  last : ∃ e ∈ entries.getLast?, e.event ∈ closings ∧ e.IsAbout id
  opens : entries.countP (fun e => e.event = "COMPACTION_PLAN_BEGIN") = 1
  closes : entries.countP (fun e => e.event ∈ closings) = 1
  names : ∀ e ∈ entries, Names id calls e

theorem framed_of_steps {id : Int64} {calls : List Exchange} {entries : List LogEntry}
    (h : ∀ e ∈ entries, e.event ∈ steps ∧ Names id calls e)
    (r : Except Abort (List OrganizationSet)) :
    Framed id calls (passBegin id :: entries ++ [closingEntry id r]) := by
  -- The lists of events have nothing in common.
  have hopens : ∀ event ∈ closings ++ steps, event ≠ "COMPACTION_PLAN_BEGIN" := by decide
  have hcloses : ∀ event ∈ "COMPACTION_PLAN_BEGIN" :: steps, event ∉ closings := by decide
  obtain ⟨hevent, habout⟩ := closingEntry_closes id r
  refine ⟨rfl, ⟨_, List.getLast?_concat, hevent, habout⟩, ?_, ?_, ?_⟩
  · rw [List.countP_append, List.countP_cons_of_pos rfl,
      List.countP_eq_zero.mpr fun e he => ?_, List.countP_eq_zero.mpr fun e he => ?_]
    · obtain rfl := List.mem_singleton.mp he
      simpa using hopens _ (List.mem_append_left _ hevent)
    · simpa using hopens _ (List.mem_append_right _ (h e he).1)
  · rw [List.countP_append, List.countP_singleton, if_pos (decide_eq_true hevent),
      List.countP_eq_zero.mpr fun e he => ?_]
    rcases List.mem_cons.mp he with rfl | he
    · simpa using hcloses (passBegin id).event List.mem_cons_self
    · simpa using hcloses _ (List.mem_cons_of_mem _ (h e he).1)
  · intro e he
    rcases List.mem_append.mp he with he | he
    · rcases List.mem_cons.mp he with rfl | he
      · exact .inl rfl
      · exact (h e he).2
    · obtain rfl := List.mem_singleton.mp he
      exact .inl habout

theorem work_notes (p : Planner σ) (id : Int64) (s : Session σ) (before : List Exchange) :
    NotesAt (s.recorded before) (p.recorded.work id) fun calls entries r =>
      p.PassLog id s calls (passBegin id :: entries ++ [closingEntry id r]) r ∧
        Framed id calls (passBegin id :: entries ++ [closingEntry id r]) := by
  rw [work_eq]
  apply ((survey_notes p id _).and_records (survey_records p id s)).bind
  · intro calls entries a _ h
    obtain ⟨hreports, ⟨f, hconsults, -⟩, -⟩ := h
    match a with
    | .store e =>
      obtain ⟨rfl, hsteps⟩ := hreports
      exact ⟨.failed hconsults.ends.first, framed_of_steps hsteps _⟩
    | .defect _ => exact hreports.elim
  · intro found calls entries _ h
    obtain ⟨table, e⟩ := found
    obtain ⟨⟨records, hfound, hlisted, hreports⟩, ⟨f, hconsults, -⟩, hout⟩ := h
    have hnone := Follows.failure?_eq_none hconsults.ends
    have hsteps := hreports.steps
    cases hreports with
    | @done fates _ habout hasked hqueries hsorts =>
      have hsurvey : p.Surveyed id s calls table records fates e :=
        ⟨hout, hnone, hfound, hlisted, hasked, hqueries.trans (length_indexBatches calls).symm,
          hsorts⟩
      -- The settlement makes no call, so that the calls of the survey are those of the pass.
      apply Notes.weaken (settle_notes p.recorded id table e)
      intro others more r h
      obtain ⟨rfl, rfl, rfl⟩ := h
      rw [List.append_nil]
      constructor
      · dsimp only [recorded]
        cases hplan : p.compactor.plan table e.shards with
        | ok plan => exact .planned hsurvey hplan
        | error d => exact .abandoned hsurvey hplan
      · refine framed_of_steps (fun entry hentry => ?_) _
        rcases List.mem_append.mp hentry with hentry | hentry
        · obtain ⟨hevent, habout⟩ := hsteps entry hentry
          exact ⟨hevent, .inr ⟨table, hfound, habout⟩⟩
        · obtain ⟨hevent, habout⟩ := steps_of_settlement hentry
          exact ⟨hevent, .inl habout⟩

/-- A pass writes what its work writes, between its opening and its closing entry. -/
theorem planTable_notes {p : Planner (Recorded σ)} {id : Int64} {s : Session (Recorded σ)}
    {P : List Exchange → List LogEntry → Except Abort (List OrganizationSet) → Prop}
    (h : NotesAt (opened id s) (p.work id) fun calls entries r =>
      P calls (passBegin id :: entries ++ [closingEntry id r]) r) :
    NotesAt s (p.planTable id) P := by
  obtain ⟨calls, entries, hcalls, hlog, hP⟩ := h
  rw [NotesAt, outcome_planTable, stateAfter_planTable]
  refine ⟨calls, _, ?_, ?_, hP⟩
  · rw [store_closed, hcalls]
    rfl
  · rw [log_closed, hlog, Log.writeAll_append]
    rfl

/-- The calls that a pass makes and the entries that it writes, by how it ends. -/
theorem exists_passLog (p : Planner σ) (id : Int64) (s : Session σ) :
    ∃ calls entries,
      outcome (p.recorded.planTable id) (s.recorded []) = outcome (p.planTable id) s ∧
      stateAfter (p.recorded.planTable id) (s.recorded []) =
        (stateAfter (p.planTable id) s).recorded calls ∧
      (stateAfter (p.planTable id) s).log = s.log.writeAll entries ∧
      p.PassLog id (opened id s) calls entries (outcome (p.planTable id) s) ∧
      Framed id calls entries := by
  have hwork := work_notes p id (opened id s) []
  have hpass : NotesAt (s.recorded []) (p.recorded.planTable id) fun calls entries r =>
      p.PassLog id (opened id s) calls entries r ∧ Framed id calls entries :=
    planTable_notes hwork
  obtain ⟨calls, entries, hout, hafter, hlog, ⟨hshape, hframed⟩, -⟩ :=
    hpass.exists_records (planTable_recordsAt (work_recordsAt p id (opened id s)))
  exact ⟨calls, entries, hout, hafter, hlog, hshape, hframed⟩

/-- The log of a pass over a table, whatever its store answers. The calls are those that the store
records. The log opens with one entry and closes with one, in between each answered index query is
reported with the number of shards that it asks for, and what follows depends on how the pass ends:
a failure is reported alone, a plan after the dropped shards and with each of its sets, and a defect
cuts the log off before the sets. -/
theorem planTable_log (p : Planner σ) (id : Int64) (s : Session σ) (h : s.log.minimum = .trace) :
    ∃ calls entries,
      outcome (p.recorded.planTable id) (s.recorded []) = outcome (p.planTable id) s ∧
      stateAfter (p.recorded.planTable id) (s.recorded []) =
        (stateAfter (p.planTable id) s).recorded calls ∧
      (stateAfter (p.planTable id) s).log.entries = s.log.entries ++ entries.toArray ∧
      p.PassLog id (opened id s) calls entries (outcome (p.planTable id) s) ∧
      (∃ counts : List Nat, counts.sum = (calls.filterMap asked?).flatten.length ∧
        (calls.filterMap indexBatch?).map (·.field? "requested") =
          counts.map fun n => some (Decimal.natText n)) ∧
      Framed id calls entries := by
  obtain ⟨calls, entries, hout, hafter, hlog, hshape, hframed⟩ := exists_passLog p id s
  refine ⟨calls, entries, hout, hafter, ?_, hshape, ?_, hframed⟩
  · rw [hlog, Log.entries_writeAll h]
  · refine ⟨(calls.filterMap asked?).map List.length, List.length_flatten.symm, ?_⟩
    rw [requested_of_calls, List.map_map]
    rfl

/-- Two of four candidates are dropped, one of them because the other shard with its id counts. -/
theorem planTable_log_of_strayPlanner :
    ∃ calls entries,
      (stateAfter (strayPlanner.planTable 1) (.start () (.empty .trace))).log.entries.toList =
        entries ∧
      entries.map LogEntry.event =
        ["COMPACTION_PLAN_BEGIN", "SHARD_INDEX_BATCH", "SHARD_RANGE_MISSING", "SHARD_RANGE_MISSING",
          "ELIGIBLE_SHARDS_RESOLVED", "ORGANIZATION_SET_EMITTED", "COMPACTION_SETS_CREATED",
          "COMPACTION_PLAN_COMPLETE"] ∧
      strayPlanner.PassLog 1 (opened 1 (.start () (.empty .trace))) calls entries
        (outcome (strayPlanner.planTable 1) (.start () (.empty .trace))) ∧
      Framed 1 calls entries := by
  obtain ⟨calls, entries, -, -, hentries, hshape, -, hframed⟩ :=
    planTable_log strayPlanner 1 (.start () (.empty .trace)) rfl
  have hlog : (stateAfter (strayPlanner.planTable 1)
      (.start () (.empty .trace))).log.entries.toList = entries := by
    rw [hentries]
    simp [Session.start, Log.empty]
  refine ⟨calls, entries, hlog, ?_, hshape, hframed⟩
  rw [← hlog]
  decide +kernel

end Planner

end ShardCompaction
