import ShardCompaction.Metadata.CatalogStore
import ShardCompaction.Proofs.Compaction.Sets
import ShardCompaction.Proofs.Planner.PassLog

namespace ShardCompaction

/-- A sum of words that does not stop short is their sum as natural numbers. -/
theorem toNat_saturatingAdd (a b : UInt64) :
    (saturatingAdd a b).toNat = min (a.toNat + b.toNat) 0xffffffffffffffff := by
  have ha := a.toNat_lt
  have hb := b.toNat_lt
  rw [saturatingAdd]
  cases h : checkedAdd a b with
  | some c =>
    have hsum := checkedAdd_eq_some_iff.mp h
    have hc := c.toNat_lt
    rw [Option.getD_some]
    omega
  | none =>
    have hover : ¬a.toNat + b.toNat < 2 ^ 64 := by
      intro hlt
      have hsum : checkedAdd a b = some (a + b) := by
        rw [checkedAdd_eq_some_iff, UInt64.toNat_add, Nat.mod_eq_of_lt hlt]
      rw [h] at hsum
      simp at hsum
    have hgreatest : (0xffffffffffffffff : UInt64).toNat = 0xffffffffffffffff := rfl
    rw [Option.getD_none, hgreatest]
    omega

theorem OrganizationSet.contains_iff {set : OrganizationSet} {uuid : Uuid} :
    set.contains uuid = true ↔ uuid ∈ set.members.uuids := by
  simp [contains, Members.contains, Members.uuids]

/-- The eligible shards that are members of a set. -/
def OrganizationSet.membersAmong (set : OrganizationSet) (shards : List Shard) : List Shard :=
  shards.filter fun s => set.contains s.uuid

theorem totalRows_perm {xs ys : List Shard} (h : xs.Perm ys) : totalRows xs = totalRows ys :=
  (h.map _).sum_eq

theorem totalBytes_perm {xs ys : List Shard} (h : xs.Perm ys) : totalBytes xs = totalBytes ys :=
  (h.map _).sum_eq

theorem Compactor.fits_of_perm (c : Compactor) {xs ys : List Shard} (h : xs.Perm ys)
    (hfits : c.Fits xs) : c.Fits ys := by
  rwa [Fits, ← totalRows_perm h, ← totalBytes_perm h]

namespace Planner

variable {shards run : List Shard} {set : OrganizationSet} {table : Table} {priority : Int32}

theorem toNat_foldl_saturatingAdd (shards : List Shard) (t : UInt64 × UInt64) :
    let sums := shards.foldl
      (fun t s => (saturatingAdd t.1 s.rows, saturatingAdd t.2 s.bytes)) t
    sums.1.toNat = min (t.1.toNat + totalRows shards) 0xffffffffffffffff ∧
      sums.2.toNat = min (t.2.toNat + totalBytes shards) 0xffffffffffffffff := by
  have hrows := t.1.toNat_lt
  have hbytes := t.2.toNat_lt
  induction shards generalizing t with
  | nil =>
    simp only [List.foldl_nil, totalRows, totalBytes, List.map_nil, List.sum_nil]
    omega
  | cons s shards ih =>
    have htail := ih (saturatingAdd t.1 s.rows, saturatingAdd t.2 s.bytes) (UInt64.toNat_lt _)
      (UInt64.toNat_lt _)
    simp only [toNat_saturatingAdd] at htail
    simp only [List.foldl_cons, totalRows, totalBytes, List.map_cons, List.sum_cons] at htail ⊢
    omega

/-- Each shard is found under its identifier. -/
theorem getElem?_byUuid (hnd : (shards.map Shard.uuid).Nodup) {s : Shard} (hs : s ∈ shards) :
    (byUuid shards)[s.uuid]? = some s := FilledMap.getElem?_fill_of_nodup hnd hs

/-- The members of a set are all found. -/
theorem found_perm (hnd : (shards.map Shard.uuid).Nodup) (hmerges : set.Merges table run priority)
    (hmem : ∀ s ∈ run, s ∈ shards) :
    (set.members.uuids.filterMap ((byUuid shards)[·]?)).Perm run := by
  have hfound : (run.map Shard.uuid).filterMap ((byUuid shards)[·]?) = run := by
    rw [List.filterMap_map]
    refine (List.filterMap_congr fun s hs => ?_).trans List.filterMap_some
    exact getElem?_byUuid hnd (hmem s hs)
  have hperm := hmerges.uuids_perm.filterMap ((byUuid shards)[·]?)
  rwa [hfound] at hperm

/-- The shards whose identifiers are in a set are those that it merges. -/
theorem membersAmong_perm (hnd : (shards.map Shard.uuid).Nodup)
    (hmerges : set.Merges table run priority) (hmem : ∀ s ∈ run, s ∈ shards) :
    (set.membersAmong shards).Perm run := by
  refine (List.perm_ext_iff_of_nodup (hnd.of_map.filter _) hmerges.nodup.of_map).mpr fun s => ?_
  rw [List.mem_filter, OrganizationSet.contains_iff, hmerges.uuids_perm.mem_iff, List.mem_map]
  constructor
  · intro h
    obtain ⟨hs, t, ht, he⟩ := h
    rwa [← List.inj_on_of_nodup_map hnd (hmem t ht) hs he]
  · intro hs
    exact ⟨hmem s hs, s, hs, rfl⟩

/-- The totals of a set are the sums over its members, if these are within limits. -/
theorem toNat_totals {c : Compactor} (hnd : (shards.map Shard.uuid).Nodup)
    (hmerges : set.Merges table run priority) (hmem : ∀ s ∈ run, s ∈ shards) (hfits : c.Fits run) :
    (totals (byUuid shards) set).1.toNat = totalRows (set.membersAmong shards) ∧
      (totals (byUuid shards) set).2.toNat = totalBytes (set.membersAmong shards) := by
  have hperm := (found_perm hnd hmerges hmem).trans (membersAmong_perm hnd hmerges hmem).symm
  obtain ⟨hrows, hbytes⟩ := c.fits_of_perm (membersAmong_perm hnd hmerges hmem).symm hfits
  have hmaxRows := c.maxRows.toNat_lt
  have hmaxBytes := c.maxBytes.toNat_lt
  obtain ⟨hr, hb⟩ := toNat_foldl_saturatingAdd
    (set.members.uuids.filterMap ((byUuid shards)[·]?)) (0, 0)
  rw [totalRows_perm hperm] at hr
  rw [totalBytes_perm hperm] at hb
  constructor
  · refine hr.trans ?_
    simp only [UInt64.toNat_zero]
    omega
  · refine hb.trans ?_
    simp only [UInt64.toNat_zero]
    omega

end Planner

/-- The report of a set with its totals. -/
def LogEntry.setReport (id : Int64) (set : OrganizationSet) (rows bytes : Nat) : LogEntry :=
  ⟨.trace, "ORGANIZATION_SET_EMITTED",
    [("table_id", Decimal.int64Text id),
      ("bucket", match set.bucket with
        | none => "none"
        | some b => Decimal.natText b.toNat),
      ("shards", Decimal.natText set.size),
      ("rows", Decimal.natText rows),
      ("bytes", Decimal.natText bytes)]⟩

namespace Planner

open Exchange LogEntry

variable {σ : Type} {p : Planner σ} {id : Int64} {s s' : Session σ} {sets : List OrganizationSet}

/-- The entries of a pass that report its sets. -/
def emitted (entries : List LogEntry) : List LogEntry :=
  entries.filter fun entry => entry.event = "ORGANIZATION_SET_EMITTED"

theorem emitted_append (xs ys : List LogEntry) : emitted (xs ++ ys) = emitted xs ++ emitted ys :=
  List.filter_append ..

theorem emitted_eq_nil {entries : List LogEntry}
    (h : ∀ entry ∈ entries, entry.event ≠ "ORGANIZATION_SET_EMITTED") : emitted entries = [] :=
  List.filter_eq_nil_iff.mpr fun entry he => by simpa using h entry he

theorem emitted_indexBatches (calls : List Exchange) :
    emitted (calls.filterMap indexBatch?) = [] := by
  refine emitted_eq_nil fun entry hentry => ?_
  obtain ⟨⟨q, answer⟩, -, hcall⟩ := List.mem_filterMap.mp hentry
  cases q with
  | queryIndex table columns shards =>
    cases answer with
    | ok rows =>
      rw [← Option.some.inj hcall]
      simp [indexBatch]
    | error e => simp [indexBatch?] at hcall
  | _ => simp [indexBatch?] at hcall

/-- The sets of a plan are reported one by one, and no other entry of the pass is such a report. -/
theorem emitted_planned (calls : List Exchange) (dropped : List ShardRecord) (table : Table)
    (e : EligibleShards) (plan : CompactionPlan) :
    emitted (passBegin id :: (calls.filterMap indexBatch? ++ dropped.map (rangeMissing table.id) ++
        (shardsResolved id table e :: plan.sets.map (setEmitted id e) ++ [setsCreated id plan])) ++
        [passComplete id plan.sets.length]) =
      plan.sets.map (setEmitted id e) := by
  have hdropped : emitted (dropped.map (rangeMissing table.id)) = [] := by
    refine emitted_eq_nil fun entry hentry => ?_
    obtain ⟨record, -, rfl⟩ := List.mem_map.mp hentry
    simp [rangeMissing]
  have hsets : emitted (plan.sets.map (setEmitted id e)) = plan.sets.map (setEmitted id e) := by
    refine List.filter_eq_self.mpr fun entry hentry => ?_
    obtain ⟨set, -, rfl⟩ := List.mem_map.mp hentry
    rfl
  have hbegin : emitted [passBegin id] = [] := rfl
  have hresolved : emitted [shardsResolved id table e] = [] := rfl
  have hcreated : emitted [setsCreated id plan] = [] := rfl
  have hcomplete : emitted [passComplete id plan.sets.length] = [] := rfl
  rw [List.cons_append, ← List.singleton_append, ← List.singleton_append (x := shardsResolved ..)]
  simp only [emitted_append, emitted_indexBatches, hdropped, hsets, hbegin, hresolved, hcreated,
    hcomplete, List.nil_append, List.append_nil]

/-- If no two eligible shards have the same identifier, the report of each set of a successful pass
gives the sums of the rows and of the bytes of exactly its members. Both are within the limits. The
sets are reported in the order of the result. -/
theorem planTable_reports_totals (h : p.planTable id s = .ok sets s') :
    ∃ table e entries, outcome (p.survey id) (opened id s) = .ok (table, e) ∧
      s'.log = s.log.writeAll entries ∧
      (s.log.minimum = .trace → s'.log.entries = s.log.entries ++ entries.toArray) ∧
      ((e.shards.map Shard.uuid).Nodup →
        emitted entries = sets.map (fun set =>
          setReport id set (totalRows (set.membersAmong e.shards))
            (totalBytes (set.membersAmong e.shards))) ∧
        ∀ set ∈ sets, ((set.membersAmong e.shards).map Shard.entry).Perm set.members.entries ∧
          p.compactor.Fits (set.membersAmong e.shards)) := by
  obtain ⟨calls, entries, -, -, hlog, hshape, -⟩ := exists_passLog p id s
  obtain ⟨hout, hafter⟩ := eq_ok_iff.mp h
  rw [hafter] at hlog
  rw [hout] at hshape
  cases hshape with
  | @planned table records fates e plan hsurvey hplan =>
    refine ⟨table, e, _, hsurvey.outcome_eq, hlog, fun hmin => ?_, fun hnd => ⟨?_, ?_⟩⟩
    · rw [hlog, Log.entries_writeAll hmin]
    · rw [emitted_planned]
      refine List.map_congr_left fun set hset => ?_
      obtain ⟨run, hpacks⟩ := Compactor.packs_of_plan hplan hset
      obtain ⟨hrows, hbytes⟩ := toNat_totals hnd hpacks.merges hpacks.mem hpacks.fits
      rw [← hrows, ← hbytes]
      rfl
    · intro set hset
      obtain ⟨run, hpacks⟩ := Compactor.packs_of_plan hplan hset
      have hperm := membersAmong_perm hnd hpacks.merges hpacks.mem
      exact ⟨(hperm.map Shard.entry).trans hpacks.merges.entries.symm,
        p.compactor.fits_of_perm hperm.symm hpacks.fits⟩

/-- Two shards whose rows add up to the greatest word, and a third one. -/
def brimStore : CatalogStore :=
  CatalogStore.empty.writeAll
    [.table (.plain 1),
      .shard { ShardRecord.plain 1 2 false with rows := 0x8000000000000000 },
      .shard { ShardRecord.plain 2 1 false with rows := 0x7fffffffffffffff },
      .shard { ShardRecord.plain 3 3 false with rows := 1 }]

/-- The limit on rows is the greatest word. -/
def brimPlanner : Planner CatalogStore :=
  ⟨CatalogStore.asMetadataStore, ⟨.utc, 100, 0xffffffffffffffff⟩, .default⟩

theorem planTable_reports_totals_of_brimStore :
    ∃ sets s', brimPlanner.planTable 1 (.start brimStore (.empty .trace)) = .ok sets s' ∧
      sets.length = 1 ∧ ∃ table e entries,
        outcome (brimPlanner.survey 1) (opened 1 (.start brimStore (.empty .trace))) =
          .ok (table, e) ∧
        s'.log.entries.toList = entries ∧ (e.shards.map Shard.uuid).Nodup ∧
        emitted entries = sets.map (fun set =>
          setReport 1 set (totalRows (set.membersAmong e.shards))
            (totalBytes (set.membersAmong e.shards))) ∧
        (emitted entries).map (fun entry => (entry.field? "rows", entry.field? "bytes")) =
          [(some "18446744073709551615", some "10")] := by
  have hok : Pass.yields (brimPlanner.planTable 1) (.start brimStore (.empty .trace))
      (fun sets => sets.length = 1) = true := by decide +kernel
  obtain ⟨sets, s', h, hone⟩ := Pass.exists_ok_of_yields hok
  obtain ⟨table, e, entries, hsurvey, -, hall, hreports⟩ := planTable_reports_totals h
  have hdistinct : ((outcome (brimPlanner.survey 1)
      (opened 1 (.start brimStore (.empty .trace)))).toOption.all
        fun found => decide (found.2.shards.map Shard.uuid).Nodup) = true := by decide +kernel
  rw [hsurvey] at hdistinct
  have hnd : (e.shards.map Shard.uuid).Nodup := of_decide_eq_true hdistinct
  have hentries : s'.log.entries.toList = entries := by
    rw [hall rfl]
    simp [Session.start, Log.empty]
  refine ⟨sets, s', h, of_decide_eq_true hone, table, e, entries, hsurvey, hentries, hnd,
    (hreports hnd).1, ?_⟩
  rw [← hentries, ← (eq_ok_iff.mp h).2]
  decide +kernel

end Planner

end ShardCompaction
