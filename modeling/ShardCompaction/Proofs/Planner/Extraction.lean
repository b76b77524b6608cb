import ShardCompaction.Planner.Extraction
import ShardCompaction.Proofs.FilledMap
import ShardCompaction.Proofs.Metadata.IndexRow
import ShardCompaction.Proofs.Partition
import ShardCompaction.Proofs.Planner.Pass
import ShardCompaction.Proofs.Planner.Stages

namespace ShardCompaction

theorem flatten_batches {α : Type} (size : Nat) (items : List α) :
    (batches size items).flatten = items := by
  induction items using batches.induct size with
  | case1 => simp [batches]
  | case2 item rest ih =>
    rw [batches, List.flatten_cons, ih, List.cons_append, List.take_append_drop]

theorem mem_of_mem_batches {α : Type} {size : Nat} {items batch : List α}
    (hb : batch ∈ batches size items) {x : α} (hx : x ∈ batch) : x ∈ items := by
  rw [← flatten_batches size items]
  exact List.mem_flatten_of_mem hb hx

/-- A record is a delete-delta shard or a candidate for extraction. -/
theorem countP_isDelta_add_length (records : List ShardRecord) :
    records.countP ShardRecord.isDelta + (records.filter fun r => !r.isDelta).length =
      records.length := by
  have hcount : (records.filter fun r => !r.isDelta).length =
      records.countP (¬ShardRecord.isDelta ·) := by
    rw [← List.countP_eq_length_filter]
    exact List.countP_congr fun r _ => by simp
  rw [hcount, ← List.length_eq_countP_add_countP]

/-- The range of one column with integer bounds. -/
def ShardRange.single (type : ColumnType) (min max : Int64) : ShardRange :=
  ⟨⟨[type], [.integer min]⟩, ⟨[type], [.integer max]⟩⟩

theorem ColumnType.integer_of_accepts {type : ColumnType} (ht : type.isTemporal = true)
    {value : Value} (h : type.accepts value = true) : ∃ i, value = .integer i := by
  rw [accepts_of_isTemporal ht] at h
  cases value with
  | integer i => exact ⟨i, rfl⟩
  | boolean b => simp [Value.toInt64?] at h
  | double d => simp [Value.toInt64?] at h
  | text s => simp [Value.toInt64?] at h

/-- A range over a temporal column comes from two integers in the first slots. -/
theorem IndexRow.single_of_range? {row : IndexRow} {column : TableColumn} {range : ShardRange}
    (ht : column.type.isTemporal = true) (h : row.range? [column] 0 = some range) :
    ∃ min max, row.mins.head? = some (some (.integer min)) ∧
      row.maxs.head? = some (some (.integer max)) ∧ range = .single column.type min max := by
  obtain ⟨bounds, hb, he⟩ := Option.bind_eq_some_iff.mp h
  rw [List.drop_zero, List.drop_zero] at hb
  rw [bounds?.eq_def] at hb
  split at hb
  case h_1 heq => simp at heq
  case h_3 => simp at hb
  case h_2 column' columns min mins max maxs hcol hmins hmaxs =>
    obtain ⟨rfl, rfl⟩ := List.cons.inj hcol
    split at hb
    case isFalse => simp at hb
    case isTrue haccept =>
      rw [Bool.and_eq_true] at haccept
      obtain ⟨a, rfl⟩ := ColumnType.integer_of_accepts ht haccept.1
      obtain ⟨b, rfl⟩ := ColumnType.integer_of_accepts ht haccept.2
      rw [bounds?, Option.map_some] at hb
      obtain rfl := Option.some.inj hb
      obtain rfl := Option.some.inj he
      refine ⟨a, b, ?_, ?_, rfl⟩
      · rw [hmins, List.head?_cons]
      · rw [hmaxs, List.head?_cons]

namespace RangeColumns

variable {c : RangeColumns} {record : ShardRecord} {row : IndexRow} {shard : Shard}

theorem annotate?_eq_some_iff :
    c.annotate? record row = some shard ↔
      ∃ temporalRange sortRange, wanted? row (c.temporal.map ([·])) 0 = some temporalRange ∧
        wanted? row c.sort c.sortOffset = some sortRange ∧
        Shard.ofRecord record temporalRange sortRange = shard := by
  simp [annotate?, Option.bind_eq_some_iff]

/-- Where a shard comes from: a record, and a row for its id with the property `R`. -/
def Resolves (c : RangeColumns) (R : IndexRow → Prop) (record : ShardRecord) (shard : Shard) :
    Prop :=
  ∃ row, R row ∧ row.shard = record.id ∧ c.annotate? record row = some shard

theorem Resolves.exists_ranges {R : IndexRow → Prop} (h : c.Resolves R record shard) :
    ∃ temporalRange sortRange, shard = .ofRecord record temporalRange sortRange := by
  obtain ⟨row, -, -, ha⟩ := h
  obtain ⟨temporalRange, sortRange, -, -, he⟩ := annotate?_eq_some_iff.mp ha
  exact ⟨temporalRange, sortRange, he.symm⟩

/-- On a temporal table the row has integers for the temporal column, and the shard their range. -/
theorem Resolves.temporal {R : IndexRow → Prop} (h : c.Resolves R record shard)
    {column : TableColumn} (hc : c.temporal = some column)
    (ht : column.type.isTemporal = true) :
    ∃ row min max, R row ∧ row.shard = record.id ∧
      row.mins.head? = some (some (.integer min)) ∧
      row.maxs.head? = some (some (.integer max)) ∧
      shard.temporalRange = some (.single column.type min max) := by
  obtain ⟨row, hR, hid, ha⟩ := h
  obtain ⟨temporalRange, sortRange, hw, -, rfl⟩ := annotate?_eq_some_iff.mp ha
  rw [hc, Option.map_some, wanted?, Option.map_eq_some_iff] at hw
  obtain ⟨range, hr, rfl⟩ := hw
  obtain ⟨min, max, hmin, hmax, rfl⟩ := IndexRow.single_of_range? ht hr
  exact ⟨row, min, max, hR, hid, hmin, hmax, rfl⟩

/-- The shards of a map are resolved from records with the ids under which they stand. -/
def ResolvedFrom (c : RangeColumns) (R : IndexRow → Prop) (records : List ShardRecord)
    (resolved : IdMap Shard) : Prop :=
  ∀ id shard, resolved[id]? = some shard →
    ∃ record ∈ records, record.id = id ∧ c.Resolves R record shard

variable {R : IndexRow → Prop} {records : List ShardRecord} {resolved : IdMap Shard}

theorem resolvedFrom_empty : c.ResolvedFrom R records ∅ := by
  intro id shard h
  simp at h

theorem ResolvedFrom.insert (h : c.ResolvedFrom R records resolved) (hr : record ∈ records)
    (hs : c.Resolves R record shard) :
    c.ResolvedFrom R records (resolved.insert record.id shard) := by
  intro id other ho
  rw [FilledMap.getElem?_insert_eq] at ho
  by_cases he : record.id = id
  · rw [if_pos he] at ho
    obtain rfl := Option.some.inj ho
    exact ⟨record, hr, he, hs⟩
  · rw [if_neg he] at ho
    exact h id other ho

/-- The records of a batch under their ids. -/
def byId (batch : List ShardRecord) : IdMap ShardRecord :=
  FilledMap.fill ShardRecord.id (fun r => r) ∅ batch

theorem getElem?_byId (batch : List ShardRecord) (id : Int64) :
    (byId batch)[id]? = batch.reverse.find? fun r => r.id = id := by
  rw [byId, FilledMap.getElem?_fill, Std.TreeMap.getElem?_emptyc, Option.or_none, Option.map_id']

theorem mem_of_byId {batch : List ShardRecord} {id : Int64}
    (h : (byId batch)[id]? = some record) : record ∈ batch ∧ record.id = id := by
  rw [getElem?_byId] at h
  exact ⟨List.mem_reverse.mp (List.mem_of_find?_eq_some h),
    by simpa using List.find?_some h⟩

theorem ResolvedFrom.resolve (h : c.ResolvedFrom R records resolved) {batch : List ShardRecord}
    (hb : ∀ r ∈ batch, r ∈ records) {rows : List IndexRow} (hrows : ∀ row ∈ rows, R row) :
    c.ResolvedFrom R records (c.resolve batch rows resolved) := by
  rw [RangeColumns.resolve]
  induction rows generalizing resolved with
  | nil => exact h
  | cons row rows ih =>
    obtain ⟨hrow, hrest⟩ := List.forall_mem_cons.mp hrows
    rw [List.foldl_cons]
    apply ih _ hrest
    split
    case h_2 => exact h
    case h_1 record hr =>
      obtain ⟨hmem, hid⟩ := mem_of_byId hr
      split
      case h_2 => exact h
      case h_1 shard hs => exact h.insert (hb record hmem) ⟨row, hrow, hid.symm, hs⟩

end RangeColumns

namespace Extraction

variable {σ : Type} {I : σ → Prop} {store : MetadataStore σ} {table : Table}

/-- The columns suit the table: its temporal column, if it has one, is of a temporal type. -/
structure Serves (c : RangeColumns) (table : Table) (C : TableColumn → Prop) : Prop where
  isSome : c.temporal.isSome = table.isTemporal
  temporal : ∀ column ∈ c.temporal, column.type.isTemporal = true ∧ C column

theorem temporalLookup_reads {C : TableColumn → Prop}
    (hcolumn : ∀ id ∈ table.temporalColumn,
      StoreCall.Answers I (store.column table.id id) C) :
    Pass.Reads I (temporalLookup store table) fun temporal =>
      temporal.isSome = table.isTemporal ∧
        ∀ column ∈ temporal, column.type.isTemporal = true ∧ C column := by
  rw [temporalLookup]
  cases ht : table.temporalColumn with
  | none => exact .pure ⟨by rw [Table.isTemporal, ht]; rfl, by simp⟩
  | some id =>
    apply Pass.Reads.bind (Pass.Reads.call (hcolumn id (by rw [ht]; rfl)))
    intro column hc
    split
    case isTrue hty =>
      refine .pure ⟨by rw [Table.isTemporal, ht]; rfl, ?_⟩
      simpa using ⟨hty, hc⟩
    case isFalse => exact .throw _ _

theorem sortLookup_reads
    (hsort : StoreCall.Answers I (store.sortColumns table.id) fun _ => True)
    (options : ExtractionOptions) :
    Pass.Reads I (sortLookup store table options) fun _ => True := by
  rw [sortLookup]
  split
  · exact (Pass.Reads.call hsort).map fun _ _ => trivial
  · exact .pure trivial

theorem columns_reads {C : TableColumn → Prop}
    (hcolumn : ∀ id ∈ table.temporalColumn, StoreCall.Answers I (store.column table.id id) C)
    (hsort : StoreCall.Answers I (store.sortColumns table.id) fun _ => True)
    (options : ExtractionOptions) :
    Pass.Reads I (columns store table options) fun c => Serves c table C := by
  rw [columns_eq]
  apply (temporalLookup_reads hcolumn).bind
  intro temporal h
  apply (sortLookup_reads hsort options).bind
  intro sort _
  exact .pure ⟨h.1, h.2⟩

theorem queryBatches_reads {c : RangeColumns} {R : IndexRow → Prop} {id : Int64}
    {records : List ShardRecord}
    (hindex : ∀ shards, StoreCall.Answers I (store.queryIndex id c.ids shards)
      fun rows => ∀ row ∈ rows, R row)
    {batches : List (List ShardRecord)} (hb : ∀ batch ∈ batches, ∀ r ∈ batch, r ∈ records)
    {resolved : IdMap Shard} (h : c.ResolvedFrom R records resolved) :
    Pass.Reads I (queryBatches store id c batches resolved) (c.ResolvedFrom R records) := by
  induction batches generalizing resolved with
  | nil => exact .pure h
  | cons batch batches ih =>
    obtain ⟨hbatch, hrest⟩ := List.forall_mem_cons.mp hb
    rw [queryBatches]
    apply (Pass.Reads.call (hindex _)).bind
    intro rows hrows
    apply (Pass.Reads.log _).bind
    intro _ _
    exact ih hrest (h.resolve hbatch hrows)

/-- Each shard is collected once: for a record whose id is met for the first time. -/
theorem collect_reads (id : Int64) (records : List ShardRecord) (resolved : IdMap Shard) :
    Pass.Reads I (collect id records resolved) fun shards =>
      ∃ kept, kept.Sublist records ∧ (kept.map ShardRecord.id).Nodup ∧
        List.Forall₂ (fun record shard => resolved[record.id]? = some shard) kept shards := by
  induction records generalizing resolved with
  | nil => exact .pure ⟨[], .slnil, .nil, .nil⟩
  | cons record records ih =>
    rw [collect]
    cases hr : resolved[record.id]? with
    | none =>
      apply (Pass.Reads.log _).bind
      intro _ _
      apply (ih resolved).weaken
      intro shards h
      obtain ⟨kept, hsub, hnd, hshards⟩ := h
      exact ⟨kept, hsub.cons record, hnd, hshards⟩
    | some shard =>
      apply (ih (resolved.erase record.id)).bind
      intro shards h
      apply Pass.Reads.pure
      obtain ⟨kept, hsub, hnd, hshards⟩ := h
      have herase : ∀ (r : ShardRecord) (s : Shard), (resolved.erase record.id)[r.id]? = some s →
          record.id ≠ r.id ∧ resolved[r.id]? = some s := by
        intro r s h
        rw [Std.TreeMap.getElem?_erase] at h
        by_cases he : record.id = r.id
        · simp [he] at h
        · rw [if_neg (mt Std.LawfulEqCmp.compare_eq_iff_eq.mp he)] at h
          exact ⟨he, h⟩
      have hnew : ∀ r ∈ kept, record.id ≠ r.id := by
        intro r hm
        obtain ⟨s, -, hs⟩ := Checked.exists_of_mem_left hshards hm
        exact (herase r s hs).1
      refine ⟨record :: kept, hsub.cons_cons record, ?_,
        .cons hr (hshards.imp fun r s h => (herase r s h).2)⟩
      rw [List.map_cons, List.nodup_cons]
      constructor
      · intro hm
        obtain ⟨r, hk, he⟩ := List.mem_map.mp hm
        exact hnew r hk he.symm
      · exact hnd

/-- What extraction makes of records. The eligible shards belong to records with different ids, in
their order. Where ids repeat, a shard may come from another record with the id. -/
structure Extracted (c : RangeColumns) (R : IndexRow → Prop) (records : List ShardRecord)
    (e : EligibleShards) : Prop where
  deltas : e.deltas = records.countP ShardRecord.isDelta
  total : e.deltas + e.dropped + e.shards.length = records.length
  shards : ∃ kept, kept.Sublist (records.filter fun r => !r.isDelta) ∧
    (kept.map ShardRecord.id).Nodup ∧
    List.Forall₂ (fun r shard => ∃ source ∈ records.filter fun r => !r.isDelta,
      source.id = r.id ∧ c.Resolves R source shard) kept e.shards

theorem ofRecords_reads {C : TableColumn → Prop} {R : List Int64 → IndexRow → Prop}
    (hcolumn : ∀ id ∈ table.temporalColumn, StoreCall.Answers I (store.column table.id id) C)
    (hsort : StoreCall.Answers I (store.sortColumns table.id) fun _ => True)
    (hindex : ∀ ids shards, StoreCall.Answers I (store.queryIndex table.id ids shards)
      fun rows => ∀ row ∈ rows, R ids row)
    (options : ExtractionOptions) (records : List ShardRecord) :
    Pass.Reads I (ofRecords store table records options) fun e =>
      ∃ c, Serves c table C ∧ Extracted c (R c.ids) records e := by
  rw [ofRecords]
  apply (columns_reads hcolumn hsort options).bind
  intro c hc
  have hbatches : ∀ batch ∈ batches options.batchSize (records.filter fun r => !r.isDelta),
      ∀ r ∈ batch, r ∈ records.filter fun r => !r.isDelta :=
    fun batch hb r hr => mem_of_mem_batches hb hr
  apply (queryBatches_reads (hindex c.ids) hbatches RangeColumns.resolvedFrom_empty).bind
  intro resolved hresolved
  apply (collect_reads table.id _ resolved).bind
  intro shards hshards
  apply Pass.Reads.pure
  obtain ⟨kept, hsub, hnd, hkept⟩ := hshards
  have hle : shards.length ≤ (records.filter fun r => !r.isDelta).length :=
    hkept.length_eq ▸ hsub.length_le
  have hsplit := countP_isDelta_add_length records
  refine ⟨c, hc, ?_, ?_, kept, hsub, hnd, hkept.imp fun r s h => hresolved r.id s h⟩
  · dsimp only
    omega
  · dsimp only
    omega

/-- What extraction makes of records if nothing is known about the answers of the store. -/
theorem ofRecords_reads_any (store : MetadataStore σ) (table : Table) (options : ExtractionOptions)
    (records : List ShardRecord) :
    Pass.Reads (fun _ => True) (ofRecords store table records options) fun e =>
      ∃ c, Serves c table (fun _ => True) ∧ Extracted c (fun _ => True) records e := by
  have hindex : ∀ ids shards, StoreCall.Answers (fun _ => True)
      (store.queryIndex table.id ids shards) fun rows => ∀ row ∈ rows, True := by
    intro ids shards _ _ _ _ _
    exact ⟨trivial, fun _ _ => trivial⟩
  exact ofRecords_reads (C := fun _ => True) (R := fun _ _ => True)
    (fun _ _ => StoreCall.answers_true _) (StoreCall.answers_true _) hindex options records

variable {c : RangeColumns} {R : IndexRow → Prop} {records : List ShardRecord} {e : EligibleShards}

theorem Extracted.exists_source (h : Extracted c R records e) {shard : Shard}
    (hs : shard ∈ e.shards) :
    ∃ source ∈ records, source.isDelta = false ∧ c.Resolves R source shard := by
  obtain ⟨kept, -, -, hkept⟩ := h.shards
  obtain ⟨r, -, source, hm, -, hres⟩ := Checked.exists_of_mem_right hkept hs
  obtain ⟨hrec, hd⟩ := List.mem_filter.mp hm
  exact ⟨source, hrec, by simpa using hd, hres⟩

theorem Extracted.isDelta_eq_false (h : Extracted c R records e) {shard : Shard}
    (hs : shard ∈ e.shards) : shard.isDelta = false := by
  obtain ⟨source, -, hd, hres⟩ := h.exists_source hs
  obtain ⟨_, _, rfl⟩ := hres.exists_ranges
  exact hd

/-- Partitioning leaves out no eligible shard: on a temporal table all of them have a range. -/
theorem Extracted.keeps {C : TableColumn → Prop} (h : Extracted c R records e)
    (hc : Serves c table C) {shard : Shard} (hs : shard ∈ e.shards) : table.keeps shard = true := by
  obtain ⟨source, -, -, hres⟩ := h.exists_source hs
  have hsome := hc.isSome
  cases hcol : c.temporal with
  | none =>
    rw [hcol] at hsome
    simp [Table.keeps, ← hsome]
  | some column =>
    have htype := (hc.temporal column hcol).1
    obtain ⟨_, _, _, -, -, -, -, hr⟩ := hres.temporal hcol htype
    simp [Table.keeps, hr]

/-- Where ids are different, each eligible shard comes from the record whose place it has. -/
theorem Extracted.exists_kept (h : Extracted c R records e)
    (hids : ∀ a ∈ records, ∀ b ∈ records, a.id = b.id → a = b) :
    ∃ kept, kept.Sublist (records.filter fun r => !r.isDelta) ∧
      List.Forall₂ (c.Resolves R) kept e.shards := by
  obtain ⟨kept, hsub, -, hkept⟩ := h.shards
  have hmem : ∀ r ∈ kept, r ∈ records := fun r hr => List.mem_of_mem_filter (hsub.subset hr)
  refine ⟨kept, hsub, ?_⟩
  have hboth := (List.forall₂_and_left _ _).mpr ⟨hmem, hkept⟩
  apply hboth.imp
  intro r shard hr
  obtain ⟨hrec, source, hsource, hid, hres⟩ := hr
  rwa [hids source (List.mem_of_mem_filter hsource) r hrec hid] at hres

end Extraction

end ShardCompaction
