import ShardCompaction.Proofs.Checked
import ShardCompaction.Proofs.Metadata.Recorded
import ShardCompaction.Proofs.Planner.Stages

namespace ShardCompaction

variable {σ α β : Type}

/-- Why a call fails for a pass: the store fails, or a column has no temporal type. Columns are
looked up for their temporal type alone. -/
def Exchange.failure? : Exchange → Option MetadataError
  | ⟨_, .error e⟩ => some e
  | ⟨.column table id, .ok column⟩ =>
    if column.type.isTemporal then none
    else some (.unsupportedTemporalType table id column.type)
  | ⟨_, .ok _⟩ => none

/-- Calls that follow a plan of requests. They come in its order, the first failure ends them, and
without a failure the whole plan is carried out. -/
structure Follows (plan : List Request) (calls : List Exchange) (failure : Option MetadataError) :
    Prop where
  order : calls.map Exchange.request <+: plan
  first : calls.findSome? Exchange.failure? = failure
  last : ∀ call ∈ calls.dropLast, call.failure? = none
  complete : failure = none → calls.map Exchange.request = plan

namespace Follows

variable {plan more : List Request} {calls others : List Exchange} {failure : Option MetadataError}

theorem nil : Follows [] [] none := ⟨List.prefix_rfl, rfl, by simp, fun _ => rfl⟩

theorem single (q : Request) (answer : Except MetadataError q.Answer) :
    Follows [q] [⟨q, answer⟩] (Exchange.failure? ⟨q, answer⟩) := by
  refine ⟨List.prefix_rfl, ?_, by simp, fun _ => rfl⟩
  cases h : Exchange.failure? ⟨q, answer⟩ <;> simp [h]

theorem failure?_eq_none (h : Follows plan calls none) : ∀ call ∈ calls, call.failure? = none :=
  List.findSome?_eq_none_iff.mp h.first

/-- A failure leaves the rest of the plan undone. -/
theorem stop {e : MetadataError} (h : Follows plan calls (some e)) (more : List Request) :
    Follows (plan ++ more) calls (some e) :=
  ⟨h.order.trans (List.prefix_append _ _), h.first, h.last, by simp⟩

theorem append (h : Follows plan calls none) (hmore : Follows more others failure) :
    Follows (plan ++ more) (calls ++ others) failure := by
  have hplan := h.complete rfl
  have hnone := h.failure?_eq_none
  constructor
  case order =>
    rw [List.map_append, hplan]
    exact (List.prefix_append_right_inj plan).mpr hmore.order
  case first => rw [List.findSome?_append, h.first, Option.none_or, hmore.first]
  case last =>
    intro call hcall
    cases others with
    | nil =>
      rw [List.append_nil] at hcall
      exact hnone call ((List.dropLast_sublist calls).subset hcall)
    | cons other others =>
      rw [List.dropLast_append_cons, List.mem_append] at hcall
      exact hcall.elim (hnone call) (hmore.last call)
  case complete =>
    intro hf
    rw [List.map_append, hplan, hmore.complete hf]

end Follows

/-- What stops a computation, if anything does. -/
def abort? : Except Abort α → Option Abort
  | .ok _ => none
  | .error a => some a

/-- Calls that follow a plan and end as their first failure decides. Nothing else stops them. -/
def Follows.Ends (plan : List Request) (calls : List Exchange) : Option Abort → Prop
  | none => Follows plan calls none
  | some (.store e) => Follows plan calls (some e)
  | some (.defect _) => False

namespace Follows.Ends

variable {plan more : List Request} {calls others : List Exchange} {stop : Option Abort}

theorem prepend (h : Follows plan calls none) (hmore : Ends more others stop) :
    Ends (plan ++ more) (calls ++ others) stop := by
  match stop with
  | none => exact h.append hmore
  | some (.store _) => exact h.append hmore
  | some (.defect _) => exact hmore

theorem halt {a : Abort} (h : Ends plan calls (some a)) (more : List Request) :
    Ends (plan ++ more) calls (some a) := by
  match a with
  | .store _ => exact h.stop more
  | .defect _ => exact h

theorem order (h : Ends plan calls stop) : calls.map Exchange.request <+: plan := by
  match stop with
  | none => exact Follows.order h
  | some (.store _) => exact Follows.order h
  | some (.defect _) => exact h.elim

end Follows.Ends

/-- The session on a recorded store, with the calls recorded so far. -/
def Session.recorded (s : Session σ) (calls : List Exchange) : Session (Recorded σ) :=
  ⟨⟨s.store, calls⟩, s.log, s.metrics⟩

namespace Pass

/-- From a session, the second pass does on a recorded store what the first one does on the store
itself, and the calls that it records stand in a relation with the outcome. -/
def RecordsAt (s : Session σ) (x : Pass σ α) (y : Pass (Recorded σ) α)
    (P : List Exchange → Except Abort α → Prop) : Prop :=
  ∀ before, ∃ calls, outcome y (s.recorded before) = outcome x s ∧
    stateAfter y (s.recorded before) = (stateAfter x s).recorded (before ++ calls) ∧
    P calls (outcome x s)

def Records (x : Pass σ α) (y : Pass (Recorded σ) α)
    (P : List Exchange → Except Abort α → Prop) : Prop := ∀ s, RecordsAt s x y P

section Rules

variable {x : Pass σ α} {y : Pass (Recorded σ) α} {f : α → Pass σ β}
  {g : α → Pass (Recorded σ) β} {P : List Exchange → Except Abort α → Prop}
  {R : List Exchange → Except Abort β → Prop}

/-- What follows a pass knows the outcome of the pass and begins where the pass ends. -/
theorem RecordsAt.bind {s : Session σ} (hx : RecordsAt s x y P)
    (herror : ∀ calls e, outcome x s = .error e → P calls (.error e) → R calls (.error e))
    (hok : ∀ a calls, outcome x s = .ok a → P calls (.ok a) →
      RecordsAt (stateAfter x s) (f a) (g a) fun others r => R (calls ++ others) r) :
    RecordsAt s (x >>= f) (y >>= g) R := by
  intro before
  obtain ⟨calls, hout, hafter, hP⟩ := hx before
  rw [outcome_bind, outcome_bind, stateAfter_bind, stateAfter_bind, hout, hafter]
  cases hx : outcome x s with
  | error e =>
    rw [hx] at hP
    exact ⟨calls, rfl, rfl, herror calls e hx hP⟩
  | ok a =>
    rw [hx] at hP
    obtain ⟨others, hout, hafter, hR⟩ := hok a calls hx hP (before ++ calls)
    rw [List.append_assoc] at hafter
    exact ⟨calls ++ others, hout, hafter, hR⟩

theorem RecordsAt.ask (store : MetadataStore σ) (q : Request) (s : Session σ) :
    RecordsAt s (call (store.ask q)) (call (store.record q)) fun calls r =>
      calls = [⟨q, outcome (store.ask q) s.store⟩] ∧
        r = (outcome (store.ask q) s.store).mapError .store := by
  intro before
  refine ⟨[⟨q, outcome (store.ask q) s.store⟩], ?_, ?_, rfl, outcome_call _ s⟩
  · rw [outcome_call, outcome_call, store.outcome_record]
    rfl
  · rw [stateAfter_call, stateAfter_call, store.stateAfter_record]
    rfl

namespace Records

theorem pure {a : α} (h : P [] (.ok a)) :
    Records (Pure.pure a : Pass σ α) (Pure.pure a) P := by
  intro s before
  exact ⟨[], rfl, by rw [List.append_nil]; rfl, h⟩

theorem throw {e : Abort} (h : P [] (.error e)) :
    Records (MonadExcept.throw e : Pass σ α) (MonadExcept.throw e) P := by
  intro s before
  exact ⟨[], rfl, by rw [List.append_nil]; rfl, h⟩

theorem log_bind {change : Log → Log} {f : Unit → Pass σ β} {g : Unit → Pass (Recorded σ) β}
    (h : Records (f ()) (g ()) R) : Records (log change >>= f) (log change >>= g) R := by
  intro s before
  exact h (s.mapLog change) before

theorem weaken {Q : List Exchange → Except Abort α → Prop} (hx : Records x y P)
    (h : ∀ calls s, P calls (outcome x s) → Q calls (outcome x s)) : Records x y Q := by
  intro s before
  obtain ⟨calls, hout, hafter, hP⟩ := hx s before
  exact ⟨calls, hout, hafter, h calls s hP⟩

theorem ask (store : MetadataStore σ) (q : Request)
    {P : List Exchange → Except Abort q.Answer → Prop}
    (h : ∀ answer, P [⟨q, answer⟩] (answer.mapError .store)) :
    Records (call (store.ask q)) (call (store.record q)) P := by
  intro s before
  obtain ⟨calls, hout, hafter, rfl, hr⟩ := RecordsAt.ask store q s before
  exact ⟨_, hout, hafter, hr ▸ h _⟩

theorem bind (hx : Records x y P) (herror : ∀ calls e, P calls (.error e) → R calls (.error e))
    (hok : ∀ a calls, P calls (.ok a) →
      Records (f a) (g a) fun others r => R (calls ++ others) r) :
    Records (x >>= f) (y >>= g) R :=
  fun s => (hx s).bind (fun calls e _ => herror calls e) fun a calls _ hP => hok a calls hP _

theorem ask_bind (store : MetadataStore σ) (q : Request) {f : q.Answer → Pass σ β}
    {g : q.Answer → Pass (Recorded σ) β} (herror : ∀ e, R [⟨q, .error e⟩] (.error (.store e)))
    (hok : ∀ a, Records (f a) (g a) fun others r => R (⟨q, .ok a⟩ :: others) r) :
    Records (call (store.ask q) >>= f) (call (store.record q) >>= g) R := by
  have hask := ask store q
    (P := fun calls r => ∃ answer, calls = [⟨q, answer⟩] ∧ r = answer.mapError .store)
    fun answer => ⟨answer, rfl, rfl⟩
  apply hask.bind
  · intro calls e h
    obtain ⟨answer, rfl, he⟩ := h
    obtain ⟨err, rfl, rfl⟩ := Checked.mapError_eq_error_iff.mp he.symm
    exact herror err
  · intro a calls h
    obtain ⟨answer, rfl, ha⟩ := h
    obtain rfl := Checked.mapError_eq_ok_iff.mp ha.symm
    exact hok a

end Records

end Rules

end Pass

end ShardCompaction
