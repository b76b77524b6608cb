import ShardCompaction.Proofs.Planner.Calls
import ShardCompaction.Proofs.Planner.Isolation
import ShardCompaction.Proofs.Planner.PlannedSets

namespace ShardCompaction

variable {σ : Type}

namespace Planner

variable {p : Planner σ} {s s' : Session σ} {sets : List OrganizationSet}

/-- Passes over tables, one after another, that all succeed: the sets that each of them gives, and
the session that the last one leaves. -/
inductive Sweeps (p : Planner σ) :
    List Table → Session σ → List (List OrganizationSet) → Session σ → Prop
  | nil (s : Session σ) : Sweeps p [] s [] s
  | cons {table : Table} {rest : List Table} {s s₁ s' : Session σ} {sets : List OrganizationSet}
    {parts : List (List OrganizationSet)} (hfirst : p.planTable table.id s = .ok sets s₁)
    (hrest : Sweeps p rest s₁ parts s') : Sweeps p (table :: rest) s (sets :: parts) s'

theorem planTables_eq_ok_iff {tables : List Table} :
    p.planTables tables s = .ok sets s' ↔
      ∃ parts, p.Sweeps tables s parts s' ∧ parts.flatten = sets := by
  induction tables generalizing s sets with
  | nil =>
    rw [planTables, Pass.pure_eq_ok_iff]
    constructor
    · intro h
      obtain ⟨rfl, rfl⟩ := h
      exact ⟨[], .nil s, rfl⟩
    · intro h
      obtain ⟨parts, hsweep, rfl⟩ := h
      cases hsweep
      exact ⟨rfl, rfl⟩
  | cons table rest ih =>
    rw [planTables, Pass.bind_eq_ok_iff]
    constructor
    · intro h
      obtain ⟨first, s₁, hfirst, h⟩ := h
      obtain ⟨more, s₂, hmore, h⟩ := Pass.bind_eq_ok_iff.mp h
      obtain ⟨rfl, rfl⟩ := Pass.pure_eq_ok_iff.mp h
      obtain ⟨parts, hsweep, rfl⟩ := ih.mp hmore
      exact ⟨first :: parts, .cons hfirst hsweep, rfl⟩
    · intro h
      obtain ⟨parts, hsweep, rfl⟩ := h
      cases hsweep with
      | cons hfirst hrest =>
        refine ⟨_, _, hfirst, Pass.bind_eq_ok_iff.mpr ⟨_, _, ih.mpr ⟨_, hrest, rfl⟩, ?_⟩⟩
        exact Pass.pure_eq_ok_iff.mpr ⟨rfl, rfl⟩

/-- A pass that stops is the first one that does, and nothing comes after it. -/
theorem planTables_eq_error_iff {tables : List Table} {a : Abort} :
    p.planTables tables s = .error a s' ↔
      ∃ before table after parts s₁, tables = before ++ table :: after ∧
        p.Sweeps before s parts s₁ ∧ p.planTable table.id s₁ = .error a s' := by
  induction tables generalizing s with
  | nil =>
    constructor
    · intro h
      cases h
    · intro h
      obtain ⟨before, table, after, _, _, hsplit, -⟩ := h
      simp at hsplit
  | cons table rest ih =>
    rw [planTables, Pass.bind_eq_error_iff]
    constructor
    · rintro (hfirst | ⟨first, s₁, hfirst, h⟩)
      · exact ⟨[], table, rest, [], s, rfl, .nil s, hfirst⟩
      · rcases Pass.bind_eq_error_iff.mp h with hmore | ⟨more, s₂, -, hpure⟩
        · obtain ⟨before, next, after, parts, s₂, rfl, hsweep, herror⟩ := ih.mp hmore
          exact ⟨table :: before, next, after, first :: parts, s₂, rfl, .cons hfirst hsweep, herror⟩
        · cases hpure
    · intro h
      obtain ⟨before, next, after, parts, s₁, hsplit, hsweep, herror⟩ := h
      cases hsweep with
      | nil =>
        obtain ⟨rfl, rfl⟩ := List.cons.inj hsplit
        exact .inl herror
      | cons hfirst hrest =>
        obtain ⟨rfl, rfl⟩ := List.cons.inj hsplit
        refine .inr ⟨_, _, hfirst, Pass.bind_eq_error_iff.mpr (.inl ?_)⟩
        exact ih.mpr ⟨_, _, _, _, _, rfl, hrest, herror⟩

/-- The tables over which passes start: all of them, or those up to the first one whose pass does
not succeed. -/
def started (p : Planner σ) : List Table → Session σ → List Table
  | [], _ => []
  | table :: rest, s => table :: match p.planTable table.id s with
    | .ok _ s₁ => p.started rest s₁
    | .error _ _ => []

/-- The tables over which passes start when all are planned. If the store does not list its tables,
there are none. -/
def startedOfAll (p : Planner σ) (s : Session σ) : List Table :=
  match Pass.call p.store.tables s with
  | .ok tables s₀ => p.started tables s₀
  | .error _ _ => []

theorem started_append {tables rest : List Table} {parts : List (List OrganizationSet)}
    (h : p.Sweeps tables s parts s') :
    p.started (tables ++ rest) s = tables ++ p.started rest s' := by
  induction h with
  | nil s => rfl
  | cons hfirst _ ih => rw [List.cons_append, started, hfirst, List.cons_append, ← ih]

theorem started_cons_of_error {table : Table} {rest : List Table} {a : Abort}
    (h : p.planTable table.id s = .error a s') : p.started (table :: rest) s = [table] := by
  rw [started, h]

theorem planAll_eq_ok_iff :
    p.planAll s = .ok sets s' ↔ ∃ tables s₀ parts,
      Pass.call p.store.tables s = .ok tables s₀ ∧ p.Sweeps tables s₀ parts s' ∧
        parts.flatten = sets ∧ p.startedOfAll s = tables := by
  rw [planAll, Pass.bind_eq_ok_iff]
  constructor
  · intro h
    obtain ⟨tables, s₀, hlist, h⟩ := h
    obtain ⟨parts, hsweep, hsets⟩ := planTables_eq_ok_iff.mp h
    have hstarted : p.started (tables ++ []) s₀ = _ := started_append hsweep
    rw [List.append_nil, started, List.append_nil] at hstarted
    refine ⟨tables, s₀, parts, hlist, hsweep, hsets, ?_⟩
    rw [startedOfAll, hlist]
    exact hstarted
  · intro h
    obtain ⟨tables, s₀, parts, hlist, hsweep, hsets, -⟩ := h
    exact ⟨tables, s₀, hlist, planTables_eq_ok_iff.mpr ⟨parts, hsweep, hsets⟩⟩

theorem planAll_eq_error_iff {a : Abort} :
    p.planAll s = .error a s' ↔
      Pass.call p.store.tables s = .error a s' ∧ p.startedOfAll s = [] ∨
      ∃ before table after s₀ parts s₁,
        Pass.call p.store.tables s = .ok (before ++ table :: after) s₀ ∧
          p.Sweeps before s₀ parts s₁ ∧ p.planTable table.id s₁ = .error a s' ∧
          p.startedOfAll s = before ++ [table] := by
  rw [planAll, Pass.bind_eq_error_iff]
  constructor
  · rintro (hlist | ⟨tables, s₀, hlist, h⟩)
    · refine .inl ⟨hlist, ?_⟩
      rw [startedOfAll, hlist]
    · obtain ⟨before, table, after, parts, s₁, rfl, hsweep, herror⟩ :=
        planTables_eq_error_iff.mp h
      refine .inr ⟨before, table, after, s₀, parts, s₁, hlist, hsweep, herror, ?_⟩
      rw [startedOfAll, hlist]
      exact (started_append hsweep).trans (congrArg _ (started_cons_of_error herror))
  · rintro (⟨hlist, -⟩ | ⟨before, table, after, s₀, parts, s₁, hlist, hsweep, herror, -⟩)
    · exact .inl hlist
    · refine .inr ⟨_, s₀, hlist, planTables_eq_error_iff.mpr ?_⟩
      exact ⟨before, table, after, parts, s₁, rfl, hsweep, herror⟩

/-- The calls of a pass over a table. They go by a plan as far as none of them fails: the table is
asked for, and then only what concerns the table that the store gave. -/
def CallsFor (p : Planner σ) (table : Table) (calls : List Exchange) : Prop :=
  ∃ (f : Findings) (failure : Option MetadataError), f.Wants p.options ∧
    (∀ call ∈ calls, f.Agrees call) ∧ Follows (f.requests table.id p.options) calls failure

theorem planTable_callsFor (p : Planner σ) (table : Table) (s : Session σ) :
    Pass.RecordsAt s (p.planTable table.id) (p.recorded.planTable table.id)
      fun calls _ => p.CallsFor table calls := by
  intro before
  obtain ⟨calls, hout, hafter, f, failure, hpasses⟩ :=
    planTable_recordsAt (work_recordsAt p table.id (opened table.id s)) before
  exact ⟨calls, hout, hafter, f, failure, hpasses.wants, hpasses.agrees, hpasses.follows⟩

theorem planTables_recordsAt (p : Planner σ) (tables : List Table) (s : Session σ) :
    Pass.RecordsAt s (p.planTables tables) (p.recorded.planTables tables) fun calls _ =>
      ∃ passes, calls = passes.flatten ∧ List.Forall₂ p.CallsFor (p.started tables s) passes := by
  induction tables generalizing s with
  | nil => exact Pass.Records.pure ⟨[], rfl, .nil⟩ s
  | cons table rest ih =>
    rw [planTables, planTables]
    apply (planTable_callsFor p table s).bind
    · intro calls e he hcalls
      have hstarted : p.started (table :: rest) s = [table] :=
        started_cons_of_error (eq_error_iff.mpr ⟨he, rfl⟩)
      rw [hstarted]
      exact ⟨[calls], by simp, .cons hcalls .nil⟩
    · intro sets calls hok hcalls
      have hstarted : p.started (table :: rest) s =
          table :: p.started rest (stateAfter (p.planTable table.id) s) := by
        rw [started, eq_ok_iff.mpr ⟨hok, rfl⟩]
      rw [hstarted]
      apply (ih _).bind
      · intro others e _ h
        obtain ⟨passes, rfl, hpasses⟩ := h
        exact ⟨calls :: passes, rfl, .cons hcalls hpasses⟩
      · intro more others _ h
        obtain ⟨passes, rfl, hpasses⟩ := h
        refine Pass.Records.pure ?_ _
        exact ⟨calls :: passes, by rw [List.append_nil]; rfl, .cons hcalls hpasses⟩

/-- Planning all tables makes the call that lists them and then the calls of the passes that start,
and no other. -/
theorem planAll_recordsAt (p : Planner σ) (s : Session σ) :
    Pass.RecordsAt s p.planAll p.recorded.planAll fun calls _ =>
      ∃ passes, calls = ⟨.tables, outcome p.store.tables s.store⟩ :: passes.flatten ∧
        List.Forall₂ p.CallsFor (p.startedOfAll s) passes := by
  rw [planAll, planAll]
  apply (Pass.RecordsAt.ask p.store .tables s).bind
  · intro calls e he h
    obtain ⟨rfl, -⟩ := h
    have hcall : Pass.call p.store.tables s = .error e _ := eq_error_iff.mpr ⟨he, rfl⟩
    rw [startedOfAll, hcall]
    exact ⟨[], rfl, .nil⟩
  · intro tables calls hok h
    obtain ⟨rfl, -⟩ := h
    have hcall : Pass.call p.store.tables s = .ok tables _ := eq_ok_iff.mpr ⟨hok, rfl⟩
    rw [startedOfAll, hcall]
    intro before
    obtain ⟨calls, hout, hafter, passes, rfl, hpasses⟩ := planTables_recordsAt p tables _ before
    exact ⟨_, hout, hafter, passes, rfl, hpasses⟩

open CatalogStore

section Catalog

variable {compactor : Compactor} {options : ExtractionOptions} {base : CatalogStore}
  {s t : Session CatalogStore}

/-- Two stores that hold what a third one does. -/
def Copies (base a b : CatalogStore) : Prop := base.SameContent a ∧ base.SameContent b

theorem alike_read_copies {α : Type} {f : CatalogStore → Except MetadataError α}
    (hf : ∀ n, f { base with indexQueries := n } = f base) :
    StoreCall.Alike (Copies base) (read f) (read f) := by
  apply alike_read
  intro a b h
  obtain ⟨⟨m, rfl⟩, n, rfl⟩ := h
  exact (hf m).trans (hf n).symm

theorem alikeOn_copies (base : CatalogStore) (id : Int64) :
    asMetadataStore.AlikeOn (Copies base) asMetadataStore id where
  column _ := alike_read_copies fun _ => rfl
  sortColumns := alike_read_copies (f := fun a => .ok (a.sortColumns id)) fun _ => rfl
  shards := alike_read_copies fun _ => rfl
  queryIndex columns shards := by
    intro a b h
    obtain ⟨⟨m, rfl⟩, n, rfl⟩ := h
    exact ⟨rfl, ⟨_, rfl⟩, ⟨_, rfl⟩⟩

/-- Passes that begin at the same content end alike, and leave it as it is. -/
theorem planTable_copies (compactor : Compactor) (options : ExtractionOptions)
    (base : CatalogStore) (id : Int64) :
    Pass.Alike (Copies base) (planTable ⟨asMetadataStore, compactor, options⟩ id)
      (planTable ⟨asMetadataStore, compactor, options⟩ id) :=
  planTable_alike (alike_read_copies fun _ => rfl) fun table _ => alikeOn_copies base table.id

/-- In a store held in memory the passes of a sweep are those that each table has on its own. -/
theorem outcome_planTables_catalog (hs : base.SameContent s.store) (ht : base.SameContent t.store)
    (tables : List Table) :
    outcome (planTables ⟨asMetadataStore, compactor, options⟩ tables) s =
      (tables.mapM fun table =>
        outcome (planTable ⟨asMetadataStore, compactor, options⟩ table.id) t).map
          List.flatten := by
  induction tables generalizing s with
  | nil => rfl
  | cons table rest ih =>
    obtain ⟨hout, hkept, -⟩ := planTable_copies compactor options base table.id s t ⟨hs, ht⟩
    rw [planTables, outcome_bind, List.mapM_cons, hout]
    cases outcome (planTable ⟨asMetadataStore, compactor, options⟩ table.id) t with
    | error a => rfl
    | ok sets =>
      change outcome (planTables _ rest >>= _) _ = _
      rw [outcome_bind, ih hkept.1]
      cases rest.mapM fun table =>
        outcome (planTable ⟨asMetadataStore, compactor, options⟩ table.id) t <;> rfl

theorem outcome_planAll_catalog (h : s.store.SameContent t.store) :
    outcome (planAll ⟨asMetadataStore, compactor, options⟩) s =
      (s.store.tables.mapM fun table =>
        outcome (planTable ⟨asMetadataStore, compactor, options⟩ table.id) t).map
          List.flatten := by
  have hlist : outcome (Pass.call asMetadataStore.tables) s = .ok s.store.tables ∧
      stateAfter (Pass.call asMetadataStore.tables) s = s :=
    call_read (fun store => .ok store.tables) s
  rw [planAll]
  change outcome (Pass.call asMetadataStore.tables >>= _) s = _
  rw [outcome_bind_of_ok hlist.1, hlist.2]
  exact outcome_planTables_catalog ⟨_, rfl⟩ h s.store.tables

/-- The sets of a pass are those of its table. -/
theorem table_eq_of_planTable {id : Int64} {sets : List OrganizationSet}
    (hkeyed : s.store.WellKeyed)
    (h : outcome (planTable ⟨asMetadataStore, compactor, options⟩ id) s = .ok sets) :
    ∀ set ∈ sets, set.table = id := by
  obtain ⟨course, rfl⟩ := exists_course (eq_ok_iff.mpr ⟨h, rfl⟩)
  intro set hset
  obtain ⟨run, hpack⟩ := Compactor.packs_of_plan course.plan_eq hset
  exact hpack.merges.sameTable.trans (course.records_eq_shardsOf hkeyed).1

end Catalog

section Order

variable {tables : List Table} {setsOf : Table → List OrganizationSet}

theorem pairwise_table_flatMap (hasc : tables.Pairwise fun a b => a.id < b.id)
    (hown : ∀ table ∈ tables, ∀ set ∈ setsOf table, set.table = table.id) :
    (tables.flatMap setsOf).Pairwise fun a b => a.table ≤ b.table := by
  rw [List.pairwise_flatMap]
  constructor
  · intro table ht
    refine List.pairwise_of_forall_mem_list fun a ha b hb => ?_
    rw [hown table ht a ha, hown table ht b hb]
    exact Int64.le_refl _
  · refine hasc.imp_of_mem fun {t u} ht hu hlt a ha b hb => ?_
    rw [hown t ht a ha, hown u hu b hb]
    exact Int64.le_of_lt hlt

theorem filter_flatMap_eq (hasc : tables.Pairwise fun a b => a.id < b.id)
    (hown : ∀ table ∈ tables, ∀ set ∈ setsOf table, set.table = table.id) {table : Table}
    (ht : table ∈ tables) :
    (tables.flatMap setsOf).filter (·.table = table.id) = setsOf table := by
  have hids : (tables.map Table.id).Nodup := List.pairwise_map.mpr (hasc.imp Int64.ne_of_lt)
  refine filter_flatMap_of_nodup hids.of_map ?_ ?_ (absurd ht)
  · intro set hs
    exact decide_eq_true (hown table ht set hs)
  · intro other ho hne set hs
    rw [hown other ho set hs, decide_eq_false_iff_not]
    exact fun he => hne (List.inj_on_of_nodup_map hids ho ht he)

/-- The sets of each table lie side by side. -/
theorem filter_infix_flatMap (hasc : tables.Pairwise fun a b => a.id < b.id)
    (hown : ∀ table ∈ tables, ∀ set ∈ setsOf table, set.table = table.id) (id : Int64) :
    (tables.flatMap setsOf).filter (·.table = id) <:+: tables.flatMap setsOf := by
  by_cases hid : ∃ table ∈ tables, table.id = id
  · obtain ⟨table, ht, rfl⟩ := hid
    rw [filter_flatMap_eq hasc hown ht, List.flatMap_def]
    exact List.infix_of_mem_flatten (List.mem_map_of_mem ht)
  · have hnone : (tables.flatMap setsOf).filter (·.table = id) = [] := by
      refine List.filter_eq_nil_iff.mpr fun set hs => ?_
      obtain ⟨table, ht, hs⟩ := List.mem_flatMap.mp hs
      rw [hown table ht set hs, decide_eq_true_eq]
      exact fun he => hid ⟨table, ht, he⟩
    rw [hnone]
    exact List.nil_infix

/-- Sets of some tables, in the order of the tables. Those of a table lie side by side, and they are
the ones that it has on its own. -/
structure InTableOrder (tables : List Table) (own : Int64 → Except Abort (List OrganizationSet))
    (sets : List OrganizationSet) : Prop where
  ascending : sets.Pairwise fun a b => a.table ≤ b.table
  contiguous : ∀ id, sets.filter (·.table = id) <:+: sets
  known : ∀ set ∈ sets, ∃ table ∈ tables, set.table = table.id
  own : ∀ table ∈ tables, own table.id = .ok (sets.filter (·.table = table.id))

theorem inTableOrder_flatten {own : Int64 → Except Abort (List OrganizationSet)}
    {parts : List (List OrganizationSet)} (hasc : tables.Pairwise fun a b => a.id < b.id)
    (hown : ∀ id sets, own id = .ok sets → ∀ set ∈ sets, set.table = id)
    (h : List.Forall₂ (fun table part => own table.id = .ok part) tables parts) :
    InTableOrder tables own parts.flatten := by
  let setsOf (table : Table) : List OrganizationSet := (own table.id).toOption.getD []
  have hparts : tables.map setsOf = parts.map fun part => part :=
    Checked.map_eq_map_of_forall₂ h fun table part hpart => by simp [setsOf, hpart, Except.toOption]
  have hall : ∀ table ∈ tables, own table.id = .ok (setsOf table) := by
    intro table ht
    obtain ⟨part, -, hpart⟩ := Checked.exists_of_mem_left h ht
    simp [setsOf, hpart, Except.toOption]
  have htable : ∀ table ∈ tables, ∀ set ∈ setsOf table, set.table = table.id :=
    fun table ht => hown table.id _ (hall table ht)
  rw [List.map_id'] at hparts
  rw [← hparts, ← List.flatMap_def]
  constructor
  case ascending => exact pairwise_table_flatMap hasc htable
  case contiguous => exact filter_infix_flatMap hasc htable
  case known =>
    intro set hset
    obtain ⟨table, ht, hset⟩ := List.mem_flatMap.mp hset
    exact ⟨table, ht, htable table ht set hset⟩
  case own =>
    intro table ht
    rw [filter_flatMap_eq hasc htable ht, hall table ht]

end Order

/-- What a plan of all tables is made of, for stores of any kind: it succeeds if the tables are
listed and every pass succeeds, with the sets of the passes one after another; else it fails as the
listing does, or as the first pass does that fails. Of later tables nothing is asked. In a store
held in memory the sets stand in the order of their tables, and those of a table are what its pass
gives on its own. -/
theorem planAll_joins_passes (p : Planner σ) (s : Session σ) (compactor : Compactor)
    (options : ExtractionOptions) {t : Session CatalogStore} (ht : t.store.Reachable) :
    (∀ sets s', p.planAll s = .ok sets s' ↔ ∃ tables s₀ parts,
      Pass.call p.store.tables s = .ok tables s₀ ∧ p.Sweeps tables s₀ parts s' ∧
        parts.flatten = sets ∧ p.startedOfAll s = tables) ∧
    (∀ a s', p.planAll s = .error a s' ↔
      Pass.call p.store.tables s = .error a s' ∧ p.startedOfAll s = [] ∨
      ∃ before table after s₀ parts s₁,
        Pass.call p.store.tables s = .ok (before ++ table :: after) s₀ ∧
          p.Sweeps before s₀ parts s₁ ∧ p.planTable table.id s₁ = .error a s' ∧
          p.startedOfAll s = before ++ [table]) ∧
    (∃ passes, List.Forall₂ p.CallsFor (p.startedOfAll s) passes ∧
      outcome p.recorded.planAll (s.recorded []) = outcome p.planAll s ∧
      stateAfter p.recorded.planAll (s.recorded []) = (stateAfter p.planAll s).recorded
        (⟨.tables, outcome p.store.tables s.store⟩ :: passes.flatten)) ∧
    ∀ u : Session CatalogStore, t.store.SameContent u.store →
      let q : Planner CatalogStore := ⟨asMetadataStore, compactor, options⟩
      outcome q.planAll t = (t.store.tables.mapM fun table =>
        outcome (q.planTable table.id) u).map List.flatten ∧
      ∀ sets, outcome q.planAll t = .ok sets →
        InTableOrder t.store.tables (fun id => outcome (q.planTable id) u) sets := by
  refine ⟨fun _ _ => planAll_eq_ok_iff, fun _ _ => planAll_eq_error_iff, ?_, ?_⟩
  · obtain ⟨calls, hout, hafter, passes, rfl, hpasses⟩ := planAll_recordsAt p s []
    exact ⟨passes, hpasses, hout, hafter⟩
  · intro u hu q
    have hout : outcome q.planAll t = _ := outcome_planAll_catalog hu
    refine ⟨hout, fun sets hsets => ?_⟩
    obtain ⟨parts, hparts, rfl⟩ := Checked.map_eq_ok_iff.mp (hout.symm.trans hsets)
    have hkeyed : u.store.WellKeyed := by
      obtain ⟨n, hn⟩ := hu
      rw [hn]
      exact { ht.wellKeyed with }
    exact inTableOrder_flatten (pairwise_id_values ht.wellKeyed.table)
      (fun id sets => table_eq_of_planTable hkeyed) (Checked.mapM_eq_ok_iff.mp hparts)

/-- Three tables with their shards, written in disorder: two sets in the first one, none in the
second one, and one in the third one. -/
def mingledStore : CatalogStore :=
  CatalogStore.empty.writeAll
    [.shard { ShardRecord.plain 6 6 false with table := 3 }, .table (.plain 3),
      .shard (.plain 1 1 false), .table { Table.plain 1 with bucketCount := some 2 },
      .shard { ShardRecord.plain 5 5 false with table := 2 }, .table (.plain 2),
      .shard { ShardRecord.plain 3 3 false with bucket := some 1 },
      .shard { ShardRecord.plain 7 7 false with table := 3 },
      .shard (.plain 2 2 false), .shard { ShardRecord.plain 4 4 false with bucket := some 1 }]

theorem planAll_joins_passes_of_mingledStore :
    let q : Planner CatalogStore := ⟨asMetadataStore, ⟨.utc, 100, 100⟩, ⟨true, 1⟩⟩
    let t := Session.start mingledStore (.empty .error)
    ∃ sets, outcome q.planAll t = .ok sets ∧ sets.map OrganizationSet.table = [1, 1, 3] ∧
      InTableOrder mingledStore.tables (fun id => outcome (q.planTable id) t) sets := by
  intro q t
  have hok : Pass.yields q.planAll t (fun sets => sets.map OrganizationSet.table = [1, 1, 3]) =
      true := by
    decide +kernel
  obtain ⟨sets, s', hs, htables⟩ := Pass.exists_ok_of_yields hok
  have hsets : outcome q.planAll t = .ok sets := (eq_ok_iff.mp hs).1
  have hreach : t.store.Reachable := Reachable.empty.writeAll _
  obtain ⟨-, -, -, hcatalog⟩ :=
    planAll_joins_passes q t ⟨.utc, 100, 100⟩ ⟨true, 1⟩ hreach
  have horder := (hcatalog t ⟨_, rfl⟩).2 sets hsets
  exact ⟨sets, hsets, of_decide_eq_true htables, horder⟩

end Planner

end ShardCompaction
