import ShardCompaction.Proofs.Planner.Alike
import ShardCompaction.Proofs.Planner.Recording

namespace ShardCompaction

variable {σ α β : Type}

namespace LogEntry

/-- The value of a field, the first one if a key repeats. -/
def field? (e : LogEntry) (key : String) : Option String := e.fields.lookup key

/-- The entry names a table by its id. -/
def IsAbout (e : LogEntry) (table : Int64) : Prop :=
  e.field? "table_id" = some (Decimal.int64Text table)

instance (e : LogEntry) (table : Int64) : Decidable (e.IsAbout table) :=
  inferInstanceAs (Decidable (_ = _))

/-- The events that close a pass. -/
def closings : List String :=
  ["COMPACTION_PLAN_COMPLETE", "COMPACTION_PLAN_FAILED", "COMPACTION_PLAN_INCOMPLETE"]

/-- The events of a pass that neither open nor close it. -/
def steps : List String :=
  ["SHARD_INDEX_BATCH", "SHARD_RANGE_MISSING", "ELIGIBLE_SHARDS_RESOLVED",
    "ORGANIZATION_SET_EMITTED", "COMPACTION_SETS_CREATED"]

/-- One batch of index statistics: how many shards were asked for and how many rows came. -/
def indexBatch (table : Int64) (requested returned : Nat) : LogEntry :=
  ⟨.trace, "SHARD_INDEX_BATCH", [("table_id", Decimal.int64Text table),
    ("requested", Decimal.natText requested), ("returned", Decimal.natText returned)]⟩

theorem indexBatch_mem_steps (table : Int64) (requested returned : Nat) :
    (indexBatch table requested returned).event ∈ steps := by simp [steps, indexBatch]

theorem isAbout_indexBatch (table : Int64) (requested returned : Nat) :
    (indexBatch table requested returned).IsAbout table := rfl

end LogEntry

namespace Exchange

/-- The shards that an index query asked for, if the store answered it. -/
def asked? : Exchange → Option (List Int64)
  | ⟨.queryIndex _ _ shards, .ok _⟩ => some shards
  | _ => none

/-- The entry that reports an index query, if the store answered it. -/
def indexBatch? : Exchange → Option LogEntry
  | ⟨.queryIndex table _ shards, .ok rows⟩ => some (.indexBatch table shards.length rows.length)
  | _ => none

/-- Each report says how many shards were asked for. -/
theorem requested_of_calls (calls : List Exchange) :
    (calls.filterMap indexBatch?).map (·.field? "requested") =
      (calls.filterMap asked?).map fun shards => some (Decimal.natText shards.length) := by
  rw [List.map_filterMap, List.map_filterMap]
  refine List.filterMap_congr fun call _ => ?_
  obtain ⟨q, answer⟩ := call
  cases q with
  | queryIndex table columns shards => cases answer <;> rfl
  | _ => rfl

/-- Every answered query is reported. -/
theorem length_indexBatches (calls : List Exchange) :
    (calls.filterMap indexBatch?).length = (calls.filterMap asked?).length := by
  have hrequested := congrArg List.length (requested_of_calls calls)
  rwa [List.length_map, List.length_map] at hrequested

theorem indexBatch_eq_nil {calls : List Exchange} (h : calls.filterMap asked? = []) :
    calls.filterMap indexBatch? = [] := by
  rw [← List.length_eq_zero_iff, length_indexBatches, h, List.length_nil]

end Exchange

namespace Pass

/-- On a recorded store, from a session, the calls that the pass makes and the entries that it
writes stand in a relation with its outcome. -/
def NotesAt (s : Session (Recorded σ)) (x : Pass (Recorded σ) α)
    (P : List Exchange → List LogEntry → Except Abort α → Prop) : Prop :=
  ∃ calls entries, (stateAfter x s).store.calls = s.store.calls ++ calls ∧
    (stateAfter x s).log = s.log.writeAll entries ∧ P calls entries (outcome x s)

def Notes (x : Pass (Recorded σ) α)
    (P : List Exchange → List LogEntry → Except Abort α → Prop) : Prop := ∀ s, NotesAt s x P

variable {x : Pass (Recorded σ) α} {f : α → Pass (Recorded σ) β}
  {P : List Exchange → List LogEntry → Except Abort α → Prop}
  {R : List Exchange → List LogEntry → Except Abort β → Prop}

/-- What follows a pass knows the outcome of the pass and begins where the pass ends. -/
theorem NotesAt.bind {s : Session (Recorded σ)} (hx : NotesAt s x P)
    (herror : ∀ calls entries e, outcome x s = .error e → P calls entries (.error e) →
      R calls entries (.error e))
    (hok : ∀ a calls entries, outcome x s = .ok a → P calls entries (.ok a) →
      NotesAt (stateAfter x s) (f a) fun others more r => R (calls ++ others) (entries ++ more) r) :
    NotesAt s (x >>= f) R := by
  obtain ⟨calls, entries, hcalls, hlog, hP⟩ := hx
  rw [NotesAt, outcome_bind, stateAfter_bind]
  cases hout : outcome x s with
  | error e =>
    rw [hout] at hP
    exact ⟨calls, entries, hcalls, hlog, herror calls entries e hout hP⟩
  | ok a =>
    rw [hout] at hP
    obtain ⟨others, more, hothers, hmore, hR⟩ := hok a calls entries hout hP
    refine ⟨calls ++ others, entries ++ more, ?_, ?_, hR⟩
    · rw [hothers, hcalls, List.append_assoc]
    · rw [hmore, hlog, Log.writeAll_append]

section Records

variable {s : Session σ} {before : List Exchange} {y : Pass σ α}
  {Q : List Exchange → Except Abort α → Prop}

/-- What is known of a recorded pass and of the pass that it records holds of the same calls. The
pass writes to its log what the recorded one writes. -/
theorem NotesAt.exists_records (hx : NotesAt (s.recorded before) x P) (hy : RecordsAt s y x Q) :
    ∃ calls entries, outcome x (s.recorded before) = outcome y s ∧
      stateAfter x (s.recorded before) = (stateAfter y s).recorded (before ++ calls) ∧
      (stateAfter y s).log = s.log.writeAll entries ∧
      P calls entries (outcome y s) ∧ Q calls (outcome y s) := by
  obtain ⟨calls, entries, hcalls, hlog, hP⟩ := hx
  obtain ⟨others, hout, hafter, hQ⟩ := hy before
  rw [hafter] at hcalls hlog
  obtain rfl := List.append_cancel_left hcalls
  rw [hout] at hP
  exact ⟨others, entries, hout, hafter, hlog, hP, hQ⟩

theorem NotesAt.and_records (hx : NotesAt (s.recorded before) x P) (hy : RecordsAt s y x Q) :
    NotesAt (s.recorded before) x fun calls entries r =>
      P calls entries r ∧ Q calls r ∧ outcome y s = r := by
  obtain ⟨calls, entries, hout, hafter, hlog, hP, hQ⟩ := hx.exists_records hy
  rw [NotesAt, hout, hafter]
  exact ⟨calls, entries, rfl, hlog, hP, hQ, rfl⟩

end Records

namespace Notes

theorem pure {a : α} (h : P [] [] (.ok a)) : Notes (Pure.pure a : Pass (Recorded σ) α) P :=
  fun _ => ⟨[], [], (List.append_nil _).symm, rfl, h⟩

theorem throw {e : Abort} (h : P [] [] (.error e)) :
    Notes (MonadExcept.throw e : Pass (Recorded σ) α) P :=
  fun _ => ⟨[], [], (List.append_nil _).symm, rfl, h⟩

theorem ask (store : MetadataStore σ) (q : Request)
    {P : List Exchange → List LogEntry → Except Abort q.Answer → Prop}
    (h : ∀ answer, P [⟨q, answer⟩] [] (answer.mapError .store)) :
    Notes (call (store.record q)) P := by
  intro s
  refine ⟨[⟨q, outcome (store.ask q) s.store.inner⟩], [], ?_, ?_, ?_⟩
  · rw [stateAfter_call, store.stateAfter_record]
  · rw [stateAfter_call]
    rfl
  · rw [outcome_call, store.outcome_record]
    exact h _

theorem weaken {Q : List Exchange → List LogEntry → Except Abort α → Prop} (hx : Notes x P)
    (h : ∀ calls entries r, P calls entries r → Q calls entries r) : Notes x Q := by
  intro s
  obtain ⟨calls, entries, hcalls, hlog, hP⟩ := hx s
  exact ⟨calls, entries, hcalls, hlog, h _ _ _ hP⟩

theorem bind (hx : Notes x P)
    (herror : ∀ calls entries e, P calls entries (.error e) → R calls entries (.error e))
    (hok : ∀ a calls entries, P calls entries (.ok a) →
      Notes (f a) fun others more r => R (calls ++ others) (entries ++ more) r) :
    Notes (x >>= f) R :=
  fun s => (hx s).bind (fun calls entries e _ => herror calls entries e)
    fun a calls entries _ hP => hok a calls entries hP _

theorem ask_bind (store : MetadataStore σ) (q : Request) {f : q.Answer → Pass (Recorded σ) β}
    (herror : ∀ e, R [⟨q, .error e⟩] [] (.error (.store e)))
    (hok : ∀ a, Notes (f a) fun others more r => R (⟨q, .ok a⟩ :: others) more r) :
    Notes (call (store.record q) >>= f) R := by
  have hask := ask store q
    (P := fun calls entries r =>
      ∃ answer, calls = [⟨q, answer⟩] ∧ entries = [] ∧ r = answer.mapError .store)
    fun answer => ⟨answer, rfl, rfl, rfl⟩
  apply hask.bind
  · intro calls entries e h
    obtain ⟨answer, rfl, rfl, he⟩ := h
    obtain ⟨err, rfl, rfl⟩ := Checked.mapError_eq_error_iff.mp he.symm
    exact herror err
  · intro a calls entries h
    obtain ⟨answer, rfl, rfl, ha⟩ := h
    obtain rfl := Checked.mapError_eq_ok_iff.mp ha.symm
    exact hok a

theorem log_bind {change : Log → Log} (entries : List LogEntry)
    {f : Unit → Pass (Recorded σ) β} (hchange : ∀ log, change log = log.writeAll entries)
    (h : Notes (f ()) fun calls more r => R calls (entries ++ more) r) :
    Notes (Pass.log change >>= f) R := by
  intro s
  obtain ⟨calls, more, hcalls, hlog, hR⟩ := h (s.mapLog change)
  refine ⟨calls, entries ++ more, hcalls, ?_, hR⟩
  rw [Log.writeAll_append, ← hchange]
  exact hlog

end Notes

end Pass

end ShardCompaction
