import ShardCompaction.Proofs.Compaction.Sets
import ShardCompaction.Proofs.Metadata.Reachable
import ShardCompaction.Proofs.Planner.Course

namespace ShardCompaction

namespace CatalogStore

/-- Stored records of a table that make up a set. The entry of each is its identifier with its own
delete-delta shard; on a temporal table the statistics of all of them give the same day. -/
structure Backs (store : CatalogStore) (c : Compactor) (table : Table) (set : OrganizationSet)
    (records : List ShardRecord) : Prop where
  entries : set.members.entries.Perm (records.map fun r => (r.uuid, r.delta))
  two_le : 2 ≤ records.length
  stored : ∀ r ∈ records, store.shardMap[r.id]? = some r ∧ r.table = table.id
  noDelta : ∀ r ∈ records, r.isDelta = false
  small : ∀ r ∈ records, r.rows < c.maxRows ∧ r.uncompressedBytes < c.maxBytes
  rows : (records.map fun r => r.rows.toNat).sum ≤ c.maxRows.toNat
  bytes : (records.map fun r => r.uncompressedBytes.toNat).sum ≤ c.maxBytes.toNat
  bucket : ∀ r ∈ records, r.bucket = set.bucket
  day : ∀ id ∈ table.temporalColumn, ∃ column day, store.column? table.id id = .ok column ∧
    ∀ r ∈ records, ∃ min max : Int64,
      store.bounds table.id r.id id = (some (.integer min), some (.integer max)) ∧
      (ShardRange.single column.type min max).day c.zone = .ok day

def IsTemporalColumn (store : CatalogStore) (table : Table) (column : TableColumn) : Prop :=
  ∃ id ∈ table.temporalColumn, store.column? table.id id = .ok column

/-- A shard that extraction makes of a stored record of a table. -/
structure Shows (store : CatalogStore) (table : Table) (cols : RangeColumns) (r : ShardRecord)
    (shard : Shard) : Prop where
  stored : r ∈ store.shardsOf table.id
  noDelta : r.isDelta = false
  resolves : cols.Resolves (store.HasSlots table.id cols.ids) r shard

open Extraction

variable {store : CatalogStore} {c : Compactor} {table : Table} {cols : RangeColumns}
  {r : ShardRecord} {shard : Shard}

theorem Shows.entry_eq (h : store.Shows table cols r shard) : (r.uuid, r.delta) = shard.entry := by
  obtain ⟨_, _, rfl⟩ := h.resolves.exists_ranges
  rfl

theorem Shows.rows_eq (h : store.Shows table cols r shard) : r.rows = shard.rows := by
  obtain ⟨_, _, rfl⟩ := h.resolves.exists_ranges
  rfl

theorem Shows.bytes_eq (h : store.Shows table cols r shard) :
    r.uncompressedBytes = shard.bytes := by
  obtain ⟨_, _, rfl⟩ := h.resolves.exists_ranges
  rfl

theorem Shows.bucket_eq (h : store.Shows table cols r shard) : r.bucket = shard.bucket := by
  obtain ⟨_, _, rfl⟩ := h.resolves.exists_ranges
  rfl

/-- The range of a shard is made of the statistics that the store has for the temporal column. -/
theorem Shows.bounds_eq (h : store.Shows table cols r shard) (hkeyed : store.WellKeyed)
    (hserves : Serves cols table (store.IsTemporalColumn table)) {id : Int64}
    (hid : id ∈ table.temporalColumn) :
    ∃ column, cols.temporal = some column ∧ store.column? table.id id = .ok column ∧
      ∃ min max, store.bounds table.id r.id id = (some (.integer min), some (.integer max)) ∧
        shard.temporalRange = some (.single column.type min max) := by
  have hsome : cols.temporal.isSome = true := hserves.isSome.trans (Table.isTemporal_of_mem hid)
  obtain ⟨column, hcol⟩ := Option.isSome_iff_exists.mp hsome
  obtain ⟨htype, id', hid', hcolumn⟩ := hserves.temporal column hcol
  obtain rfl := Option.mem_unique hid hid'
  have hcid : column.id = id := column?_id hkeyed hcolumn
  obtain ⟨row, min, max, hslots, hrow, hmin, hmax, hrange⟩ := h.resolves.temporal hcol htype
  have hids : ∃ rest, cols.ids = id :: rest := by
    rw [RangeColumns.ids, hcol, Option.toList_some, List.singleton_append, List.map_cons, hcid]
    exact ⟨_, rfl⟩
  obtain ⟨rest, hids⟩ := hids
  obtain ⟨hmins, hmaxs⟩ := hslots
  rw [hmins, hids, List.map_cons, List.head?_cons, hrow] at hmin
  rw [hmaxs, hids, List.map_cons, List.head?_cons, hrow] at hmax
  have hbounds : store.bounds table.id r.id id = (some (.integer min), some (.integer max)) :=
    Prod.ext (Option.some.inj hmin) (Option.some.inj hmax)
  exact ⟨column, hcol, hcolumn, min, max, hbounds, hrange⟩

theorem dayKey_of_range {zone : ZoneOffset} {range : ShardRange} {day : Option Int64}
    (ht : table.isTemporal = true) (hr : shard.temporalRange = some range)
    (h : table.dayKey zone shard = .ok day) : ∃ d, day = some d ∧ range.day zone = .ok d := by
  rw [Table.dayKey, if_pos ht, hr] at h
  dsimp only at h
  cases hd : range.day zone with
  | error e =>
    rw [hd] at h
    simp [Functor.map, Except.map] at h
  | ok d =>
    rw [hd] at h
    exact ⟨d, (Except.ok.inj h).symm, rfl⟩

/-- Shards of one day show records whose statistics give that day. -/
theorem day_of_shows (hkeyed : store.WellKeyed)
    (hserves : Serves cols table (store.IsTemporalColumn table)) {zone : ZoneOffset}
    {records : List ShardRecord} {run : List Shard}
    (hrun : List.Forall₂ (store.Shows table cols) records run) (hne : records ≠ [])
    {day : Option Int64} (hday : ∀ s ∈ run, table.dayKey zone s = .ok day) {id : Int64}
    (hid : id ∈ table.temporalColumn) :
    ∃ column d, store.column? table.id id = .ok column ∧
      ∀ r ∈ records, ∃ min max : Int64,
        store.bounds table.id r.id id = (some (.integer min), some (.integer max)) ∧
        (ShardRange.single column.type min max).day zone = .ok d := by
  have ht : table.isTemporal = true := Table.isTemporal_of_mem hid
  -- Some record is needed to name the column and the day.
  obtain ⟨r₀, hr₀⟩ := List.exists_mem_of_ne_nil records hne
  obtain ⟨s₀, hs₀, h₀⟩ := Checked.exists_of_mem_left hrun hr₀
  obtain ⟨column, hcol, hcolumn, min₀, max₀, -, hrange₀⟩ := h₀.bounds_eq hkeyed hserves hid
  obtain ⟨d, rfl, -⟩ := dayKey_of_range ht hrange₀ (hday s₀ hs₀)
  refine ⟨column, d, hcolumn, ?_⟩
  intro r hr
  obtain ⟨s, hs, h⟩ := Checked.exists_of_mem_left hrun hr
  obtain ⟨column', hcol', -, min, max, hbounds, hrange⟩ := h.bounds_eq hkeyed hserves hid
  obtain rfl := Option.some.inj (hcol.symm.trans hcol')
  obtain ⟨d', hd', hdr⟩ := dayKey_of_range ht hrange (hday s hs)
  obtain rfl := Option.some.inj hd'
  exact ⟨min, max, hbounds, hdr⟩

/-- The records that a packed run shows back its set. -/
theorem backs_of_packs (hkeyed : store.WellKeyed)
    (hserves : Serves cols table (store.IsTemporalColumn table)) {shards run : List Shard}
    {set : OrganizationSet} (hpack : c.Packs table shards run set) {records : List ShardRecord}
    (hrun : List.Forall₂ (store.Shows table cols) records run) :
    store.Backs c table set records := by
  have hentries : records.map (fun r => (r.uuid, r.delta)) = run.map Shard.entry :=
    Checked.map_eq_map_of_forall₂ hrun fun r shard h => h.entry_eq
  have hrows : records.map (fun r => r.rows.toNat) = run.map fun s => s.rows.toNat :=
    Checked.map_eq_map_of_forall₂ hrun fun r shard h => by rw [h.rows_eq]
  have hbytes : records.map (fun r => r.uncompressedBytes.toNat) = run.map fun s => s.bytes.toNat :=
    Checked.map_eq_map_of_forall₂ hrun fun r shard h => by rw [h.bytes_eq]
  have htwo : 2 ≤ records.length := by
    rw [hrun.length_eq]
    exact hpack.two_le
  have hne : records ≠ [] := List.length_pos_iff.mp (by omega)
  refine ⟨?_, htwo, ?_, ?_, ?_, ?_, ?_, ?_, ?_⟩
  · rw [hentries]
    exact hpack.merges.entries
  · intro r hr
    obtain ⟨shard, -, h⟩ := Checked.exists_of_mem_left hrun hr
    exact hkeyed.mem_shardsOf_iff.mp h.stored
  · intro r hr
    obtain ⟨shard, -, h⟩ := Checked.exists_of_mem_left hrun hr
    exact h.noDelta
  · intro r hr
    obtain ⟨shard, hs, h⟩ := Checked.exists_of_mem_left hrun hr
    obtain ⟨-, hlt⟩ := (c.isCandidate_iff shard).mp (hpack.candidate shard hs)
    rw [h.rows_eq, h.bytes_eq, UInt64.lt_iff_toNat_lt, UInt64.lt_iff_toNat_lt]
    exact hlt
  · rw [hrows]
    exact hpack.fits.1
  · rw [hbytes]
    exact hpack.fits.2
  · intro r hr
    obtain ⟨shard, hs, h⟩ := Checked.exists_of_mem_left hrun hr
    rw [h.bucket_eq]
    exact hpack.merges.bucket shard hs
  · intro id hid
    obtain ⟨day, hday⟩ := hpack.day
    exact day_of_shows hkeyed hserves hrun hne hday hid

end CatalogStore

namespace Planner.Course

open CatalogStore Extraction

variable {c : Compactor} {options : ExtractionOptions} {id : Int64} {s s' : Session CatalogStore}

theorem table?_eq (course : Course ⟨asMetadataStore, c, options⟩ id s s') :
    s.store.SameContent course.found ∧ s.store.table? id = .ok course.table :=
  answers_table s.store id _ _ _ ⟨s.store.indexQueries, rfl⟩ course.table_eq

theorem shards?_eq (course : Course ⟨asMetadataStore, c, options⟩ id s s') :
    s.store.SameContent course.listed.store ∧
      s.store.shards? course.table.id = .ok course.records :=
  answers_shards s.store _ _ _ _ course.table?_eq.1 course.records_eq

/-- The table is stored under the id that was asked for, and its stored shards are the records. -/
theorem records_eq_shardsOf (course : Course ⟨asMetadataStore, c, options⟩ id s s')
    (h : s.store.WellKeyed) :
    course.table.id = id ∧ course.records = s.store.shardsOf id := by
  have htable := course.table?_eq.2
  have hshards := course.shards?_eq.2
  rw [table?] at htable
  rw [shards?] at hshards
  split at htable
  case h_2 => simp at htable
  case h_1 t ht =>
    obtain rfl := Except.ok.inj htable
    have hid := h.table id _ ht
    rw [hid, ht] at hshards
    exact ⟨hid, (Except.ok.inj hshards).symm⟩

theorem extracted_catalog (course : Course ⟨asMetadataStore, c, options⟩ id s s') :
    ∃ cols, Serves cols course.table (s.store.IsTemporalColumn course.table) ∧
      Extracted cols (s.store.HasSlots course.table.id cols.ids) course.records
        course.eligible := by
  have hcolumn : ∀ id ∈ course.table.temporalColumn,
      StoreCall.Answers s.store.SameContent (asMetadataStore.column course.table.id id)
        (s.store.IsTemporalColumn course.table) := by
    intro id hid store column store' hsame h
    obtain ⟨hsame', hc⟩ := answers_column s.store course.table.id id _ _ _ hsame h
    exact ⟨hsame', id, hid, hc⟩
  have hsort : StoreCall.Answers s.store.SameContent
      (asMetadataStore.sortColumns course.table.id) fun _ => True := by
    intro store columns store' hsame h
    exact ⟨(answers_sortColumns s.store course.table.id _ _ _ hsame h).1, trivial⟩
  have hindex : ∀ ids shards, StoreCall.Answers s.store.SameContent
      (asMetadataStore.queryIndex course.table.id ids shards)
      fun rows => ∀ row ∈ rows, s.store.HasSlots course.table.id ids row := by
    intro ids shards store rows store' hsame h
    obtain ⟨hsame', rfl⟩ := answers_queryIndex s.store course.table.id ids shards _ _ _ hsame h
    exact ⟨hsame', fun row hrow => hasSlots_of_mem_rows hrow⟩
  have hreads := ofRecords_reads hcolumn hsort hindex options course.records
  exact (hreads _ _ _ course.shards?_eq.1 course.eligible_eq).2.2

/-- The eligible shards show different stored records. -/
theorem exists_kept (course : Course ⟨asMetadataStore, c, options⟩ id s s')
    (h : s.store.WellKeyed) :
    ∃ cols kept, Serves cols course.table (s.store.IsTemporalColumn course.table) ∧
      kept.Sublist (s.store.shardsOf id) ∧
      List.Forall₂ (s.store.Shows course.table cols) kept course.eligible.shards := by
  obtain ⟨hid, hrecords⟩ := course.records_eq_shardsOf h
  obtain ⟨cols, hserves, hextracted⟩ := course.extracted_catalog
  rw [hrecords] at hextracted
  have hids : ∀ a ∈ s.store.shardsOf id, ∀ b ∈ s.store.shardsOf id, a.id = b.id → a = b :=
    fun a ha b hb he => h.eq_of_id_eq ha hb he
  obtain ⟨kept, hsub, hkept⟩ := hextracted.exists_kept hids
  have hmem : ∀ r ∈ kept, r ∈ s.store.shardsOf course.table.id ∧ r.isDelta = false := by
    intro r hr
    obtain ⟨hstored, hdelta⟩ := List.mem_filter.mp (hsub.subset hr)
    rw [hid]
    exact ⟨hstored, by simpa using hdelta⟩
  refine ⟨cols, kept, hserves, hsub.trans List.filter_sublist, ?_⟩
  refine ((List.forall₂_and_left _ _).mpr ⟨hmem, hkept⟩).imp ?_
  intro r shard hr
  exact ⟨hr.1.1, hr.1.2, hr.2⟩

end Planner.Course

namespace Planner

open CatalogStore

variable {c : Compactor} {options : ExtractionOptions} {id : Int64} {s s' : Session CatalogStore}
  {sets : List OrganizationSet}

/-- Every set of a pass over a store held in memory is backed by stored records of the table, and no
shard is a member of two sets, if no two shards of the table have the same identifier. -/
theorem planTable_sets_backed (hreach : s.store.Reachable)
    (hnd : ((s.store.shardsOf id).map ShardRecord.uuid).Nodup)
    (h : planTable ⟨asMetadataStore, c, options⟩ id s = .ok sets s') :
    ∃ table, s.store.table? id = .ok table ∧ table.id = id ∧
      (∀ set ∈ sets, ∃ records, s.store.Backs c table set records) ∧
      sets.Pairwise fun a b => a.members.uuids.Disjoint b.members.uuids := by
  have hkeyed := hreach.wellKeyed
  obtain ⟨course, rfl⟩ := exists_course h
  have hid := (course.records_eq_shardsOf hkeyed).1
  obtain ⟨cols, kept, hserves, hsub, hkept⟩ := course.exists_kept hkeyed
  refine ⟨course.table, course.table?_eq.2, hid, ?_, ?_⟩
  · intro set hset
    obtain ⟨run, hpack⟩ := Compactor.packs_of_plan course.plan_eq hset
    have hshown : ∀ shard ∈ run, ∃ r, s.store.Shows course.table cols r shard := by
      intro shard hs
      obtain ⟨r, -, hr⟩ := Checked.exists_of_mem_right hkept (hpack.mem shard hs)
      exact ⟨r, hr⟩
    obtain ⟨records, hrun⟩ := Checked.exists_forall₂ hshown
    exact ⟨records, backs_of_packs hkeyed hserves hpack hrun⟩
  · have huuids : kept.map ShardRecord.uuid = course.eligible.shards.map Shard.uuid :=
      Checked.map_eq_map_of_forall₂ hkept fun r shard hr => congrArg Prod.fst hr.entry_eq
    have hkeptnd := hnd.sublist (hsub.map ShardRecord.uuid)
    rw [huuids] at hkeptnd
    exact Compactor.disjoint_sets_of_plan course.plan_eq hkeptnd

/-- A table in buckets and days, with two shards of one bucket and day, one of another bucket and
one without statistics. -/
def dailyStore : CatalogStore :=
  CatalogStore.empty.writeAll
    [.table { Table.plain 1 with bucketCount := some 4, temporalColumn := some 7 },
      .column ⟨1, 7, "ds", .date, 0, none⟩,
      .shard { ShardRecord.plain 1 1 false with bucket := some 0 },
      .shard { ShardRecord.plain 2 2 false with bucket := some 0, delta := some (.ofNat 9) },
      .shard { ShardRecord.plain 3 3 false with bucket := some 1 },
      .shard { ShardRecord.plain 4 4 false with bucket := some 0 },
      .stats ⟨1, 1, 7, some (.integer 5), some (.integer 5)⟩,
      .stats ⟨1, 2, 7, some (.integer 4), some (.integer 6)⟩,
      .stats ⟨1, 3, 7, some (.integer 5), some (.integer 5)⟩]

theorem planTable_sets_backed_of_dailyStore :
    ∃ sets s', planTable ⟨asMetadataStore, ⟨.utc, 100, 100⟩, ⟨false, 2⟩⟩ 1
        (.start dailyStore (.empty .error)) = .ok sets s' ∧
      sets.length = 1 ∧ ∃ table, dailyStore.table? 1 = .ok table ∧ table.id = 1 ∧
        (∀ set ∈ sets, ∃ records, dailyStore.Backs ⟨.utc, 100, 100⟩ table set records) ∧
        sets.Pairwise fun a b => a.members.uuids.Disjoint b.members.uuids := by
  have hok : Pass.yields (planTable ⟨asMetadataStore, ⟨.utc, 100, 100⟩, ⟨false, 2⟩⟩ 1)
      (.start dailyStore (.empty .error)) (fun sets => sets.length = 1) = true := by
    decide +kernel
  obtain ⟨sets, s', h, hone⟩ := Pass.exists_ok_of_yields hok
  have hreach : dailyStore.Reachable := Reachable.empty.writeAll _
  have hnd : ((dailyStore.shardsOf 1).map ShardRecord.uuid).Nodup := by decide +kernel
  have hbacked := planTable_sets_backed hreach hnd h
  exact ⟨sets, s', h, of_decide_eq_true hone, hbacked⟩

end Planner

end ShardCompaction
