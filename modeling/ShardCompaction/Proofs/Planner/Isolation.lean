import Mathlib.Data.List.Sort
import ShardCompaction.Proofs.Metadata.LastWrites
import ShardCompaction.Proofs.Planner.Alike
import ShardCompaction.Proofs.Planner.BatchSizes
import ShardCompaction.Proofs.Planner.CatalogExtraction

namespace ShardCompaction

namespace CatalogStore

/-- Two stores hold the same under a table. Shards are stored under their ids, whichever table they
belong to, and the statistics of a table may be those of shards that it lost. -/
structure AgreesOn (id : Int64) (a b : CatalogStore) : Prop where
  table : a.tableMap[id]? = b.tableMap[id]?
  column : ∀ column : Int64, a.columnMap[(id, column)]? = b.columnMap[(id, column)]?
  shard : ∀ r, r ∈ a.shardsOf id ↔ r ∈ b.shardsOf id
  stats : ∀ shard column : Int64,
    a.statsMap[(id, shard, column)]? = b.statsMap[(id, shard, column)]?

theorem AgreesOn.refl (id : Int64) (a : CatalogStore) : AgreesOn id a a :=
  ⟨rfl, fun _ => rfl, fun _ => Iff.rfl, fun _ _ => rfl⟩

theorem AgreesOn.trans {id : Int64} {a b c : CatalogStore} (h : AgreesOn id a b)
    (h' : AgreesOn id b c) : AgreesOn id a c where
  table := h.table.trans h'.table
  column column := (h.column column).trans (h'.column column)
  shard r := (h.shard r).trans (h'.shard r)
  stats shard column := (h.stats shard column).trans (h'.stats shard column)

/-- A write that is about another table and takes no shard from this one. -/
def LeavesAlone (id : Int64) (store : CatalogStore) : Write → Prop
  | .table t => t.id ≠ id
  | .column c => c.table ≠ id
  | .shard r => r.table ≠ id ∧ ∀ own ∈ store.shardsOf id, own.id ≠ r.id
  | .stats s => s.table ≠ id

instance (id : Int64) (store : CatalogStore) (w : Write) : Decidable (LeavesAlone id store w) :=
  match w with
  | .table t => inferInstanceAs (Decidable (t.id ≠ id))
  | .column c => inferInstanceAs (Decidable (c.table ≠ id))
  | .shard r =>
    inferInstanceAs (Decidable (r.table ≠ id ∧ ∀ own ∈ store.shardsOf id, own.id ≠ r.id))
  | .stats s => inferInstanceAs (Decidable (s.table ≠ id))

theorem agreesOn_write {id : Int64} {store : CatalogStore} (hkeyed : store.WellKeyed) (w : Write)
    (h : LeavesAlone id store w) : AgreesOn id store (store.write w) := by
  cases w with
  | table t => exact { AgreesOn.refl id store with
      table := by rw [write, FilledMap.getElem?_insert_eq, if_neg h] }
  | column c => exact { AgreesOn.refl id store with
      column := by
        intro column
        have hne : (c.table, c.id) ≠ (id, column) := fun he => h (Prod.mk.inj he).1
        rw [write, FilledMap.getElem?_insert_eq, if_neg hne] }
  | stats s => exact { AgreesOn.refl id store with
      stats := by
        intro shard column
        have hne : (s.table, s.shard, s.column) ≠ (id, shard, column) :=
          fun he => h (Prod.mk.inj he).1
        rw [write, FilledMap.getElem?_insert_eq, if_neg hne] }
  | shard r => exact { AgreesOn.refl id store with
      shard := by
        intro own
        obtain ⟨hother, hnew⟩ := h
        have hwritten := hkeyed.write (.shard r)
        rw [hkeyed.mem_shardsOf_iff, hwritten.mem_shardsOf_iff, write,
          FilledMap.getElem?_insert_eq]
        refine and_congr_left fun htable => ?_
        by_cases he : r.id = own.id
        · rw [if_pos he]
          constructor
          · intro hown
            exact absurd he.symm (hnew own (hkeyed.mem_shardsOf_iff.mpr ⟨hown, htable⟩))
          · intro hown
            obtain rfl := Option.some.inj hown
            exact absurd htable hother
        · rw [if_neg he] }

/-- Writes about other tables, and shards that no shard of the table makes room for, do not show
under a table. -/
theorem agreesOn_writeAll {id : Int64} {store : CatalogStore} (hkeyed : store.WellKeyed)
    (writes : List Write) (h : ∀ w ∈ writes, LeavesAlone id store w) :
    AgreesOn id store (store.writeAll writes) := by
  induction writes generalizing store with
  | nil => exact .refl id store
  | cons w writes ih =>
    obtain ⟨hw, hrest⟩ := List.forall_mem_cons.mp h
    have hfirst := agreesOn_write hkeyed w hw
    refine hfirst.trans (ih (hkeyed.write w) fun x hx => ?_)
    -- The shards of the table are the same ones after the first write.
    have hx := hrest x hx
    cases x with
    | table t => exact hx
    | column c => exact hx
    | stats s => exact hx
    | shard r => exact ⟨hx.1, fun own hown => hx.2 own ((hfirst.shard own).mpr hown)⟩

/-- In ascending order of ids the same members make the same list. -/
theorem eq_of_ascending {α : Type} {id : α → Int64} {xs ys : List α}
    (hx : xs.Pairwise fun a b => id a < id b) (hy : ys.Pairwise fun a b => id a < id b)
    (h : ∀ a, a ∈ xs ↔ a ∈ ys) : xs = ys := by
  have : Std.Irrefl fun a b : α => id a < id b := ⟨fun _ => Int64.lt_irrefl⟩
  have : Std.Antisymm fun a b : α => id a < id b :=
    ⟨fun a b hab hba => absurd hba (Int64.not_lt.mpr (Int64.le_of_lt hab))⟩
  exact hx.eq_of_mem_iff hy h

/-- Two stores as writes leave them that hold the same under a table. -/
structure Twins (id : Int64) (a b : CatalogStore) : Prop where
  left : a.WellKeyed
  right : b.WellKeyed
  agrees : AgreesOn id a b

namespace Twins

variable {id : Int64} {a b : CatalogStore}

theorem table?_eq (h : Twins id a b) : a.table? id = b.table? id := by
  rw [table?, table?, h.agrees.table]

theorem column?_eq (h : Twins id a b) (column : Int64) :
    a.column? id column = b.column? id column := by
  rw [column?, column?, h.agrees.column]

theorem sortColumns_eq (h : Twins id a b) : a.sortColumns id = b.sortColumns id := by
  have hlists : (a.columnMap.values.filter fun c => c.table = id && c.sortPosition.isSome) =
      b.columnMap.values.filter fun c => c.table = id && c.sortPosition.isSome := by
    refine eq_of_ascending (pairwise_id_columns h.left id) (pairwise_id_columns h.right id) ?_
    intro c
    have hkey : ∀ {store : CatalogStore}, store.WellKeyed →
        (c ∈ store.sortColumns id ↔ c ∈ store.columnMap.values.filter fun c =>
          c.table = id && c.sortPosition.isSome) := by
      intro store _
      rw [sortColumns, List.mem_mergeSort]
    rw [← hkey h.left, ← hkey h.right, (isSortKey_sortColumns h.left id).mem,
      (isSortKey_sortColumns h.right id).mem]
    refine and_congr_left fun hc => ?_
    rw [hc.1, h.agrees.column]
  rw [sortColumns, sortColumns, hlists]

theorem shardsOf_eq (h : Twins id a b) : a.shardsOf id = b.shardsOf id :=
  eq_of_ascending ((pairwise_id_values h.left.shard).filter _)
    ((pairwise_id_values h.right.shard).filter _) h.agrees.shard

theorem shards?_eq (h : Twins id a b) : a.shards? id = b.shards? id := by
  have hshards := h.shardsOf_eq
  rw [shardsOf, shardsOf] at hshards
  rw [shards?, shards?, h.agrees.table, hshards]

/-- A shard belongs to the table in both stores or in none. -/
theorem belongs_iff (h : Twins id a b) (shard : Int64) :
    (∃ r, a.shardMap[shard]? = some r ∧ r.table = id) ↔
      ∃ r, b.shardMap[shard]? = some r ∧ r.table = id := by
  have hstored : ∀ {store : CatalogStore}, store.WellKeyed →
      ((∃ r, store.shardMap[shard]? = some r ∧ r.table = id) ↔
        ∃ r ∈ store.shardsOf id, r.id = shard) := by
    intro store hkeyed
    constructor
    · intro hr
      obtain ⟨r, hr, htable⟩ := hr
      have hid := hkeyed.shard shard r hr
      exact ⟨r, hkeyed.mem_shardsOf_iff.mpr ⟨hid.symm ▸ hr, htable⟩, hid⟩
    · intro hr
      obtain ⟨r, hr, rfl⟩ := hr
      exact ⟨r, hkeyed.mem_shardsOf_iff.mp hr⟩
  rw [hstored h.left, hstored h.right, h.shardsOf_eq]

theorem row?_eq (h : Twins id a b) (columns : List Int64) :
    a.row? id columns = b.row? id columns := by
  funext shard
  have hbounds : a.bounds id shard = b.bounds id shard := by
    funext column
    rw [bounds, bounds, h.agrees.stats]
  have hholds : a.holds id shard = b.holds id shard := by
    have hbelongs : ∀ store : CatalogStore, store.holds id shard = true ↔
        ∃ r, store.shardMap[shard]? = some r ∧ r.table = id := by
      intro store
      simp [holds, Option.any_eq_true]
    exact Bool.eq_iff_iff.mpr ((hbelongs a).trans ((h.belongs_iff shard).trans (hbelongs b).symm))
  rw [row?, row?, hbounds, hholds]

theorem rows_eq (h : Twins id a b) (columns shards : List Int64) :
    a.rows id columns shards = b.rows id columns shards := by
  rw [rows_eq_filterMap, rows_eq_filterMap, h.row?_eq]

theorem countQuery (h : Twins id a b) : Twins id a.countQuery b.countQuery :=
  ⟨{ h.left with }, { h.right with }, { h.agrees with }⟩

end Twins

/-- Reads that two stores answer alike. -/
theorem alike_read {α : Type} {R : CatalogStore → CatalogStore → Prop}
    {f : CatalogStore → Except MetadataError α} (h : ∀ a b, R a b → f a = f b) :
    StoreCall.Alike R (read f) (read f) := by
  intro a b hab
  rw [outcome_read, outcome_read, stateAfter_read, stateAfter_read]
  exact ⟨h a b hab, hab⟩

theorem alikeOn_twins (id : Int64) : asMetadataStore.AlikeOn (Twins id) asMetadataStore id where
  column column := alike_read fun _ _ h => h.column?_eq column
  sortColumns := alike_read fun _ _ h => congrArg Except.ok h.sortColumns_eq
  shards := alike_read fun _ _ h => h.shards?_eq
  queryIndex columns shards := by
    intro a b h
    exact ⟨congrArg Except.ok (h.rows_eq columns shards), h.countQuery⟩

/-- The table that a store has under an id has this id. -/
theorem id_of_table? {store : CatalogStore} (h : store.WellKeyed) {id : Int64} {table : Table}
    (ht : store.table? id = .ok table) : table.id = id := by
  rw [table?] at ht
  split at ht
  case h_2 => simp at ht
  case h_1 found hfound =>
    obtain rfl := Except.ok.inj ht
    exact h.table id _ hfound

end CatalogStore

/-- The entries that a session has more in its log than an earlier one, and the counts. -/
structure Session.Gains {σ : Type} (before after : Session σ) (entries : Array LogEntry)
    (counts : Metrics) : Prop where
  entries : after.log.entries = before.log.entries ++ entries
  metrics : after.metrics = before.metrics.plus counts

/-- Changed alike, sessions with the same minimum severity gain the same. -/
theorem Session.SameChange.gains {σ τ : Type} {s s₁ : Session σ} {t t₁ : Session τ}
    (h : SameChange s s₁ t t₁) (hmin : s.log.minimum = t.log.minimum) :
    ∃ entries counts, s.Gains s₁ entries counts ∧ t.Gains t₁ entries counts := by
  obtain ⟨entries, counts, hs, ht⟩ := h
  let shown := entries.filter fun e => s.log.minimum.rank ≤ e.severity.rank
  refine ⟨shown.toArray, counts, ⟨?_, hs.metrics⟩, ⟨?_, ht.metrics⟩⟩
  · rw [hs.log, Log.writeAll_eq]
  · rw [ht.log, Log.writeAll_eq, ← hmin]

namespace Planner

open CatalogStore

variable {id : Int64} {s t : Session CatalogStore}

theorem planTable_twins (compactor : Compactor) (options : ExtractionOptions) (id : Int64) :
    Pass.Alike (Twins id) (planTable ⟨asMetadataStore, compactor, options⟩ id)
      (planTable ⟨asMetadataStore, compactor, options⟩ id) := by
  apply planTable_alike
  · exact alike_read fun _ _ h => h.table?_eq
  · intro table hgives
    obtain ⟨s, b, hst, htable⟩ := hgives
    have hfound : (s.store.table? id).mapError Abort.store = .ok table :=
      (call_read (·.table? id) s).1.symm.trans htable
    rw [id_of_table? hst.left (Checked.mapError_eq_ok_iff.mp hfound)]
    exact alikeOn_twins id

/-- On two stores that hold the same under a table, a pass over it ends with the same sets or for
the same reason, logs the same and counts the same, whatever else the stores hold. -/
theorem planTable_sees_own_table (compactor : Compactor) (options : ExtractionOptions)
    (hs : s.store.Reachable) (ht : t.store.Reachable) (h : AgreesOn id s.store t.store)
    (hmin : s.log.minimum = t.log.minimum) :
    outcome (planTable ⟨asMetadataStore, compactor, options⟩ id) s =
      outcome (planTable ⟨asMetadataStore, compactor, options⟩ id) t ∧
    ∃ entries counts,
      s.Gains (stateAfter (planTable ⟨asMetadataStore, compactor, options⟩ id) s)
        entries counts ∧
      t.Gains (stateAfter (planTable ⟨asMetadataStore, compactor, options⟩ id) t)
        entries counts := by
  obtain ⟨hout, -, hchange⟩ :=
    planTable_twins compactor options id s t ⟨hs.wellKeyed, ht.wellKeyed, h⟩
  exact ⟨hout, hchange.gains hmin⟩

/-- A table in days, with two shards of one day and statistics of a shard that it does not have. -/
def lonelyStore : CatalogStore :=
  CatalogStore.empty.writeAll
    [.table { Table.plain 1 with temporalColumn := some 7 },
      .column ⟨1, 7, "ds", .date, 0, none⟩,
      .shard (.plain 1 1 false), .shard (.plain 2 2 false),
      .stats ⟨1, 1, 7, some (.integer 5), some (.integer 5)⟩,
      .stats ⟨1, 2, 7, some (.integer 5), some (.integer 5)⟩,
      .stats ⟨1, 3, 7, some (.integer 5), some (.integer 5)⟩]

/-- Another table, with a column of the same id and the shard that the first one does not have. -/
def neighbours : List Write :=
  [.table { Table.plain 2 with temporalColumn := some 7 },
    .column ⟨2, 7, "name", .varchar, 0, some 0⟩,
    .shard { ShardRecord.plain 3 1 false with table := 2 },
    .stats ⟨2, 1, 7, some (.text "a"), none⟩]

theorem planTable_sees_own_table_of_neighbours :
    let p : Planner CatalogStore := ⟨asMetadataStore, ⟨.utc, 100, 100⟩, ⟨true, 1⟩⟩
    let s := Session.start lonelyStore (.empty .trace)
    let t := Session.start (lonelyStore.writeAll neighbours) (.empty .trace)
    ∃ sets, outcome (p.planTable 1) s = .ok sets ∧ sets.length = 1 ∧
      outcome (p.planTable 1) t = .ok sets ∧
      ∃ entries counts, s.Gains (stateAfter (p.planTable 1) s) entries counts ∧
        t.Gains (stateAfter (p.planTable 1) t) entries counts := by
  intro p s t
  have hlonely : lonelyStore.Reachable := Reachable.empty.writeAll _
  have hagrees : AgreesOn 1 lonelyStore (lonelyStore.writeAll neighbours) :=
    agreesOn_writeAll hlonely.wellKeyed neighbours (by decide +kernel)
  have hok : Pass.yields (p.planTable 1) s (fun sets => sets.length = 1) = true := by
    decide +kernel
  obtain ⟨sets, s', hs, hone⟩ := Pass.exists_ok_of_yields hok
  obtain ⟨hout, hgains⟩ := planTable_sees_own_table (s := s) (t := t) ⟨.utc, 100, 100⟩ ⟨true, 1⟩
    hlonely (hlonely.writeAll neighbours) hagrees rfl
  have hsets : outcome (p.planTable 1) s = .ok sets := (eq_ok_iff.mp hs).1
  exact ⟨sets, hsets, of_decide_eq_true hone, hout.symm.trans hsets, hgains⟩

end Planner

end ShardCompaction
