import ShardCompaction.Planner.Session

namespace ShardCompaction

variable {σ α β : Type}

/-- From states with the invariant a call that succeeds leads to such states, and its answer has
the property. -/
def StoreCall.Answers (I : σ → Prop) (c : StoreCall σ α) (Q : α → Prop) : Prop :=
  ∀ store a store', I store → c store = .ok a store' → I store' ∧ Q a

theorem StoreCall.answers_true (c : StoreCall σ α) :
    StoreCall.Answers (fun _ => True) c fun _ => True := fun _ _ _ _ _ => ⟨trivial, trivial⟩

/-- From states with the invariant the call succeeds with the answer and leads to such states. -/
def StoreCall.Gives (I : σ → Prop) (c : StoreCall σ α) (a : α) : Prop :=
  ∀ store, I store → ∃ store', c store = .ok a store' ∧ I store'

/-- A call that gives an answer has no other one. -/
theorem StoreCall.Gives.answers {I : σ → Prop} {c : StoreCall σ α} {a : α}
    (h : StoreCall.Gives I c a) : StoreCall.Answers I c fun b => b = a := by
  intro store b store' hI hb
  obtain ⟨store'', ha, hI'⟩ := h store hI
  obtain ⟨rfl, rfl⟩ := EStateM.Result.ok.inj (hb.symm.trans ha)
  exact ⟨hI', rfl⟩

namespace Pass

variable {s s' : Session σ}

theorem bind_eq_ok_iff {x : Pass σ α} {f : α → Pass σ β} {b : β} :
    (x >>= f) s = .ok b s' ↔ ∃ a s₁, x s = .ok a s₁ ∧ f a s₁ = .ok b s' := by
  change EStateM.bind x f s = _ ↔ _
  rw [EStateM.bind]
  cases hx : x s with
  | error e s₁ => simp
  | ok a s₁ =>
    constructor
    · intro h
      exact ⟨a, s₁, rfl, h⟩
    · intro h
      obtain ⟨a', s₂, he, hf⟩ := h
      obtain ⟨rfl, rfl⟩ := EStateM.Result.ok.inj he
      exact hf

theorem bind_eq_error_iff {x : Pass σ α} {f : α → Pass σ β} {e : Abort} :
    (x >>= f) s = .error e s' ↔
      x s = .error e s' ∨ ∃ a s₁, x s = .ok a s₁ ∧ f a s₁ = .error e s' := by
  change EStateM.bind x f s = _ ↔ _
  rw [EStateM.bind]
  cases x s with
  | error e s₁ => simp
  | ok a s₁ =>
    constructor
    · intro h
      exact .inr ⟨a, s₁, rfl, h⟩
    · rintro (h | ⟨a', s₂, he, hf⟩)
      · cases h
      · obtain ⟨rfl, rfl⟩ := EStateM.Result.ok.inj he
        exact hf

theorem pure_eq_ok_iff {a b : α} : (pure a : Pass σ α) s = .ok b s' ↔ a = b ∧ s = s' := by
  change EStateM.Result.ok a s = _ ↔ _
  simp

theorem call_eq_ok_iff {c : StoreCall σ α} {a : α} :
    call c s = .ok a s' ↔ ∃ store, c s.store = .ok a store ∧ s' = { s with store } := by
  rw [call]
  cases c s.store with
  | error e store => simp
  | ok b store =>
    constructor
    · intro h
      obtain ⟨rfl, rfl⟩ := EStateM.Result.ok.inj h
      exact ⟨store, rfl, rfl⟩
    · intro h
      obtain ⟨store', he, rfl⟩ := h
      obtain ⟨rfl, rfl⟩ := EStateM.Result.ok.inj he
      rfl

theorem log_eq_ok_iff {f : Log → Log} {u : Unit} : log f s = .ok u s' ↔ s' = s.mapLog f := by
  simp [log, eq_comm]

theorem count_eq_ok_iff {f : Metrics → Metrics} {u : Unit} :
    count f s = .ok u s' ↔ s' = s.mapMetrics f := by
  simp [count, eq_comm]

theorem compute_eq_ok_iff {r : Except Defect α} {a : α} :
    compute r s = .ok a s' ↔ r = .ok a ∧ s' = s := by
  cases r with
  | ok b => simp [compute, eq_comm]
  | error d => simp [compute]

/-- Whether a pass succeeds with a good result. -/
def yields (x : Pass σ α) (s : Session σ) (good : α → Bool) : Bool :=
  match x s with
  | .ok a _ => good a
  | .error _ _ => false

theorem exists_ok_of_yields {x : Pass σ α} {good : α → Bool} (h : yields x s good = true) :
    ∃ a s', x s = .ok a s' ∧ good a = true := by
  rw [yields] at h
  cases hx : x s with
  | ok a s' =>
    rw [hx] at h
    exact ⟨a, s', rfl, h⟩
  | error e s' => simp [hx] at h

/-- A pass that reads: if it succeeds, it keeps the invariant of the store and all counters, and its
result has the property. -/
def Reads (I : σ → Prop) (x : Pass σ α) (Q : α → Prop) : Prop :=
  ∀ s a s', I s.store → x s = .ok a s' → I s'.store ∧ s'.metrics = s.metrics ∧ Q a

namespace Reads

variable {I : σ → Prop} {P Q : α → Prop}

theorem pure {a : α} (h : Q a) : Reads I (Pure.pure a) Q := by
  intro s b s' hI hx
  obtain ⟨rfl, rfl⟩ := pure_eq_ok_iff.mp hx
  exact ⟨hI, rfl, h⟩

theorem throw (e : Abort) (Q : α → Prop) : Reads I (throw e) Q := by
  intro s a s' hI hx
  change EStateM.Result.error e s = _ at hx
  simp at hx

theorem call {c : StoreCall σ α} (h : StoreCall.Answers I c Q) : Reads I (call c) Q := by
  intro s a s' hI hx
  obtain ⟨store, hc, rfl⟩ := call_eq_ok_iff.mp hx
  obtain ⟨hI', ha⟩ := h _ _ _ hI hc
  exact ⟨hI', rfl, ha⟩

theorem log (f : Log → Log) : Reads I (log f) fun _ => True := by
  intro s u s' hI hx
  obtain rfl := log_eq_ok_iff.mp hx
  exact ⟨hI, rfl, trivial⟩

theorem bind {x : Pass σ α} {f : α → Pass σ β} {R : β → Prop} (hx : Reads I x Q)
    (hf : ∀ a, Q a → Reads I (f a) R) : Reads I (x >>= f) R := by
  intro s b s' hI h
  obtain ⟨a, s₁, hxs, hfs⟩ := bind_eq_ok_iff.mp h
  obtain ⟨hI₁, hm₁, ha⟩ := hx _ _ _ hI hxs
  obtain ⟨hI', hm, hb⟩ := hf a ha _ _ _ hI₁ hfs
  exact ⟨hI', hm.trans hm₁, hb⟩

theorem weaken {x : Pass σ α} (hx : Reads I x P) (h : ∀ a, P a → Q a) : Reads I x Q := by
  intro s a s' hI hs
  obtain ⟨hI', hm, ha⟩ := hx _ _ _ hI hs
  exact ⟨hI', hm, h a ha⟩

theorem map {x : Pass σ α} {f : α → β} {R : β → Prop} (hx : Reads I x P)
    (h : ∀ a, P a → R (f a)) : Reads I (f <$> x) R := by
  rw [map_eq_pure_bind]
  exact hx.bind fun a ha => .pure (h a ha)

end Reads

/-- From states with the invariant the pass succeeds with the result and keeps the invariant. -/
def Gives (I : σ → Prop) (x : Pass σ α) (a : α) : Prop :=
  ∀ s, I s.store → ∃ s', x s = .ok a s' ∧ I s'.store

namespace Gives

variable {I : σ → Prop}

theorem pure (I : σ → Prop) (a : α) : Gives I (Pure.pure a : Pass σ α) a := by
  intro s hI
  exact ⟨s, rfl, hI⟩

theorem call {c : StoreCall σ α} {a : α} (h : StoreCall.Gives I c a) : Gives I (call c) a := by
  intro s hI
  obtain ⟨store, hc, hI'⟩ := h _ hI
  exact ⟨{ s with store }, call_eq_ok_iff.mpr ⟨store, hc, rfl⟩, hI'⟩

theorem log (I : σ → Prop) (f : Log → Log) : Gives I (log f) () := by
  intro s hI
  exact ⟨s.mapLog f, rfl, hI⟩

theorem bind {x : Pass σ α} {f : α → Pass σ β} {a : α} {b : β} (hx : Gives I x a)
    (hf : Gives I (f a) b) : Gives I (x >>= f) b := by
  intro s hI
  obtain ⟨s₁, hxs, hI₁⟩ := hx s hI
  obtain ⟨s', hfs, hI'⟩ := hf s₁ hI₁
  exact ⟨s', bind_eq_ok_iff.mpr ⟨a, s₁, hxs, hfs⟩, hI'⟩

theorem map {x : Pass σ α} {a : α} (f : α → β) (hx : Gives I x a) : Gives I (f <$> x) (f a) := by
  rw [map_eq_pure_bind]
  exact hx.bind (.pure I (f a))

end Gives

end Pass

end ShardCompaction
