import ShardCompaction.Config.Json
import ShardCompaction.Metadata.Catalog
import ShardCompaction.OrganizationSet.Json
import ShardCompaction.Proofs.Config.Valid
import ShardCompaction.Proofs.Json.Records
import ShardCompaction.Proofs.OrganizationSet.OfShards
import ShardCompaction.Proofs.Uuid.Text

namespace ShardCompaction

open Json Json.FieldReader

theorem ColumnType.reads_toJson (t : ColumnType) : Reads ofJson? t.toJson t :=
  ⟨.string _, ofName?_name t⟩

namespace Value

def IsDouble : Value → Prop
  | double _ => True
  | _ => False

/-- Booleans, integers and texts are told apart by their form alone. -/
theorem reads_toJson {v : Value} (h : ¬v.IsDouble) : Reads ofJson? v.toJson v := by
  cases v with
  | boolean b => exact ⟨.bool b, rfl⟩
  | text s => exact ⟨.string _, rfl⟩
  | double d => exact absurd trivial h
  | integer i =>
    refine ⟨wellFormed_int i.toInt, ?_⟩
    have hread : asInt64? (.number (.ofInt i.toInt)) = some i := (reads_int64 i).read_eq
    rw [toJson, int, ofJson?, hread]

theorem reads_option_toJson {o : Option Value} (h : ∀ v ∈ o, ¬v.IsDouble) :
    Reads (asNullable? ofJson?) (.option toJson o) o :=
  reads_option rfl fun v hv => reads_toJson (h v hv)

end Value

/-- A range without doubles. -/
def ShardRange.NoDoubles (r : ShardRange) : Prop :=
  (∀ v ∈ r.min.values, ¬v.IsDouble) ∧ ∀ v ∈ r.max.values, ¬v.IsDouble

theorem Tuple.reads_toJson {t : Tuple} (h : ∀ v ∈ t.values, ¬v.IsDouble) :
    Reads ofJson? t.toJson t := by
  refine reads_record (by decide) rfl ?_
  refine takesAll_bind (takes_required (reads_list fun _ _ => ColumnType.reads_toJson _)) ?_
  refine takesAll_bind (takes_required (reads_list fun v hv => Value.reads_toJson (h v hv))) ?_
  exact takesAll_pure t

theorem ShardRange.reads_toJson {r : ShardRange} (h : r.NoDoubles) : Reads ofJson? r.toJson r := by
  refine reads_record (by decide) rfl ?_
  refine takesAll_bind (takes_required (Tuple.reads_toJson h.1)) ?_
  refine takesAll_bind (takes_required (Tuple.reads_toJson h.2)) ?_
  exact takesAll_pure r

theorem Table.reads_toJson (t : Table) : Reads ofJson? t.toJson t := by
  refine reads_record (by decide) rfl ?_
  refine takesAll_bind (takes_required (reads_int64 t.id)) ?_
  refine takesAll_bind (takes_defaulted none (reads_option rfl fun _ _ => reads_int64 _)) ?_
  refine takesAll_bind (takes_defaulted none (reads_option rfl fun _ _ => reads_text _)) ?_
  refine takesAll_bind (takes_defaulted none (reads_option rfl fun _ _ => reads_uint32 _)) ?_
  refine takesAll_bind (takes_defaulted none (reads_option rfl fun _ _ => reads_int64 _)) ?_
  refine takesAll_bind (takes_defaulted false (reads_bool t.organized)) ?_
  refine takesAll_bind (takes_defaulted false (reads_bool t.supportsDeltaDelete)) ?_
  exact takesAll_pure t

theorem TableColumn.reads_toJson (c : TableColumn) : Reads ofJson? c.toJson c := by
  refine reads_record (by decide) rfl ?_
  refine takesAll_bind (takes_required (reads_int64 c.table)) ?_
  refine takesAll_bind (takes_required (reads_int64 c.id)) ?_
  refine takesAll_bind (takes_required (reads_text c.name)) ?_
  refine takesAll_bind (takes_required c.type.reads_toJson) ?_
  refine takesAll_bind (takes_defaulted 0 (reads_uint32 c.ordinal)) ?_
  refine takesAll_bind (takes_defaulted none (reads_option rfl fun _ _ => reads_uint32 _)) ?_
  exact takesAll_pure c

theorem Uuid.reads_toJson (u : Uuid) : Reads ofJson? u.toJson u := ⟨.string _, ofText?_toText u⟩

theorem ShardRecord.reads_toJson (r : ShardRecord) : Reads ofJson? r.toJson r := by
  refine reads_record (by decide) rfl ?_
  refine takesAll_bind (takes_required (reads_int64 r.table)) ?_
  refine takesAll_bind (takes_required (reads_int64 r.id)) ?_
  refine takesAll_bind (takes_required r.uuid.reads_toJson) ?_
  refine takesAll_bind (takes_defaulted none (reads_option rfl fun _ _ => reads_uint32 _)) ?_
  refine takesAll_bind (takes_defaulted false (reads_bool r.isDelta)) ?_
  refine takesAll_bind (takes_defaulted none (reads_option rfl fun _ _ => Uuid.reads_toJson _)) ?_
  refine takesAll_bind (takes_defaulted 0 (reads_uint64 r.rows)) ?_
  refine takesAll_bind (takes_defaulted 0 (reads_uint64 r.compressedBytes)) ?_
  refine takesAll_bind (takes_defaulted 0 (reads_uint64 r.uncompressedBytes)) ?_
  exact takesAll_pure r

namespace Shard

/-- A shard whose ranges hold no doubles. -/
def NoDoubles (s : Shard) : Prop :=
  (∀ r ∈ s.sortRange, r.NoDoubles) ∧ ∀ r ∈ s.temporalRange, r.NoDoubles

theorem reads_toJson {s : Shard} (h : s.NoDoubles) : Reads ofJson? s.toJson s := by
  have hrange : ∀ {o : Option ShardRange}, (∀ r ∈ o, r.NoDoubles) →
      Reads (asNullable? ShardRange.ofJson?) (.option ShardRange.toJson o) o :=
    fun ho => reads_option rfl fun r hr => ShardRange.reads_toJson (ho r hr)
  refine reads_record (by decide) rfl ?_
  refine takesAll_bind (takes_required (reads_int64 s.table)) ?_
  refine takesAll_bind (takes_nullable (reads_option rfl fun _ _ => reads_uint32 _)) ?_
  refine takesAll_bind (takes_required s.uuid.reads_toJson) ?_
  refine takesAll_bind (takes_required (reads_bool s.isDelta)) ?_
  refine takesAll_bind (takes_nullable (reads_option rfl fun _ _ => Uuid.reads_toJson _)) ?_
  refine takesAll_bind (takes_required (reads_uint64 s.rows)) ?_
  refine takesAll_bind (takes_required (reads_uint64 s.bytes)) ?_
  refine takesAll_bind (takes_nullable (hrange h.1)) ?_
  refine takesAll_bind (takes_nullable (hrange h.2)) ?_
  exact takesAll_pure s

end Shard

namespace ColumnStats

/-- Statistics without doubles. -/
def NoDoubles (s : ColumnStats) : Prop := (∀ v ∈ s.min, ¬v.IsDouble) ∧ ∀ v ∈ s.max, ¬v.IsDouble

theorem reads_toJson {s : ColumnStats} (h : s.NoDoubles) : Reads ofJson? s.toJson s := by
  refine reads_record (by decide) rfl ?_
  refine takesAll_bind (takes_required (reads_int64 s.table)) ?_
  refine takesAll_bind (takes_required (reads_int64 s.shard)) ?_
  refine takesAll_bind (takes_required (reads_int64 s.column)) ?_
  refine takesAll_bind (takes_defaulted none (Value.reads_option_toJson h.1)) ?_
  refine takesAll_bind (takes_defaulted none (Value.reads_option_toJson h.2)) ?_
  exact takesAll_pure s

end ColumnStats

theorem Catalog.reads_toJson {c : Catalog} (h : ∀ s ∈ c.stats, s.NoDoubles) :
    Reads ofJson? c.toJson c := by
  refine reads_record (by decide) rfl ?_
  refine takesAll_bind (takes_defaulted [] (reads_list fun t _ => t.reads_toJson)) ?_
  refine takesAll_bind (takes_defaulted [] (reads_list fun c _ => c.reads_toJson)) ?_
  refine takesAll_bind (takes_defaulted [] (reads_list fun r _ => r.reads_toJson)) ?_
  have hstats : Reads (asList? ColumnStats.ofJson?) (.list ColumnStats.toJson c.stats) c.stats :=
    reads_list fun s hs => ColumnStats.reads_toJson (h s hs)
  refine takesAll_bind (takes_defaulted [] hstats) ?_
  exact takesAll_pure c

namespace Members

/-- Members that are entered one by one come to stand as they stood. -/
theorem ofEntries_entries (m : Members) : ofEntries m.entries = m := by
  have hperm : (ofEntries m.entries).entries.Perm
      (m.entries.map (fun e => (e.1, e.2)) ++ (∅ : MemberMap).toList) :=
    FilledMap.toList_fill_perm Prod.fst Prod.snd ∅ m.entries (by simp) m.nodup_uuids
  have hempty : (∅ : MemberMap).toList = [] := rfl
  rw [hempty, List.append_nil, List.map_id'] at hperm
  exact eq_of_perm hperm

theorem reads_toJson (m : Members) : Reads ofJson? m.toJson m := by
  have hdelta : ∀ o : Option Uuid, Reads (asNullable? Uuid.ofJson?) (.option Uuid.toJson o) o :=
    fun o => reads_option rfl fun u _ => u.reads_toJson
  constructor
  · refine .object fun field hfield => ?_
    obtain ⟨f, hf, rfl⟩ := List.mem_map.mp hfield
    obtain ⟨e, -, rfl⟩ := List.mem_map.mp hf
    exact (hdelta e.2).wellFormed
  · have hentries : (m.entries.map fun e =>
        (some e.1.toText, Json.option Uuid.toJson e.2)).mapM entryOfJson? = some m.entries := by
      refine mapM_map_eq_some fun e _ => ?_
      change (Uuid.ofText? e.1.toText >>= fun uuid =>
        (Json.option Uuid.toJson e.2).asNullable? Uuid.ofJson? >>= fun delta =>
          some (uuid, delta)) = some e
      rw [Uuid.ofText?_toText, (hdelta e.2).read_eq]
      rfl
    rw [toJson, record, List.map_map, ofJson?]
    change ((m.entries.map fun e =>
        (some e.1.toText, Json.option Uuid.toJson e.2)).mapM entryOfJson?).map ofEntries = some m
    rw [hentries, Option.map_some, ofEntries_entries]

end Members

theorem OrganizationSet.reads_toJson (s : OrganizationSet) : Reads ofJson? s.toJson s := by
  refine reads_record (by decide) rfl ?_
  refine takesAll_bind (takes_required (reads_int64 s.table)) ?_
  refine takesAll_bind (takes_required (reads_bool s.supportsDeltaDelete)) ?_
  refine takesAll_bind (takes_required s.members.reads_toJson) ?_
  refine takesAll_bind (takes_nullable (reads_option rfl fun _ _ => reads_uint32 _)) ?_
  refine takesAll_bind (takes_required (reads_int32 s.priority)) ?_
  exact takesAll_pure s

namespace Config

theorem reads_toJson (c : Config) : Reads ofJson? c.toJson c := by
  refine reads_record (by decide) rfl ?_
  refine takesAll_bind (takes_defaulted _ (reads_uint64 c.maxBytes)) ?_
  refine takesAll_bind (takes_defaulted _ (reads_uint64 c.maxRows)) ?_
  refine takesAll_bind (takes_defaulted _ (reads_text c.timeZone)) ?_
  refine takesAll_bind (takes_defaulted _ (reads_uint64 c.batchSize)) ?_
  refine takesAll_bind (takes_defaulted _ (reads_bool c.includeSortColumns)) ?_
  refine takesAll_bind (takes_defaulted _ (reads_text c.logLevel)) ?_
  exact takesAll_pure c

theorem ofText_render {c : Config} (h : c.validate = .ok ()) : ofText c.toJson.render = .ok c :=
  ofText_eq_ok_iff.mpr ⟨c.reads_toJson.parse, h⟩

end Config

/-- Documents are read back as they were written, whatever integers, texts and identifiers they
hold and whichever optional fields they leave out: catalogs whose statistics hold no doubles,
organization sets, shards whose ranges hold none, and settings that are valid. -/
theorem documents_read_back :
    (∀ c : Catalog, (∀ s ∈ c.stats, s.NoDoubles) →
      Json.parse c.toJson.render >>= Catalog.ofJson? = some c) ∧
    (∀ s : OrganizationSet, Json.parse s.toJson.render >>= OrganizationSet.ofJson? = some s) ∧
    (∀ s : Shard, s.NoDoubles → Json.parse s.toJson.render >>= Shard.ofJson? = some s) ∧
    ∀ c : Config, c.validate = .ok () → Config.ofText c.toJson.render = .ok c := by
  refine ⟨fun c h => ?_, fun s => ?_, fun s h => ?_, fun c h => Config.ofText_render h⟩
  · exact (Catalog.reads_toJson h).parse
  · exact s.reads_toJson.parse
  · exact (Shard.reads_toJson h).parse

/-- A text of quotes, backslashes, control characters and characters of several planes. -/
def awkwardText : String :=
  String.ofList (['"', '\\', '/', '\t', '\n'] ++
    [0, 8, 0x1f, 0x7f, 0xe9, 0x2028, 0x1f600].map Char.ofNat)

/-- Integers at the ends of their ranges, texts that look like something else, and no optional
field in one table. -/
def awkwardCatalog : Catalog where
  tables := [⟨1, none, none, none, none, false, false⟩,
    ⟨-9223372036854775808, some 0, some awkwardText, some 4294967295, some (-1), true, true⟩]
  columns := [⟨1, 9223372036854775807, "null", .timestampWithTimeZone, 4294967295, none⟩]
  shards := [⟨1, -1, .ofNat (2 ^ 128 - 1), none, true, some (.ofNat 0), 18446744073709551615, 0, 0⟩]
  stats := [⟨1, -1, 0, some (.integer (-9223372036854775808)), some (.integer 9223372036854775807)⟩,
    ⟨1, -1, 1, some (.text "-9223372036854775808"), some (.text "1e400")⟩,
    ⟨1, -1, 2, some (.boolean true), some (.text "true")⟩,
    ⟨1, -1, 3, none, some (.text awkwardText)⟩]

def awkwardShard : Shard where
  table := -1
  bucket := some 0
  uuid := .ofNat 10
  isDelta := false
  delta := none
  rows := 9223372036854775808
  bytes := 18446744073709551615
  sortRange := some ⟨⟨[.varchar, .bigint], [.text awkwardText]⟩, ⟨[], []⟩⟩
  temporalRange := none

/-- Limits of zero, and blanks around the zone. -/
def awkwardConfig : Config := ⟨0, 18446744073709551615, " -23:59\n", 1, true, "trace"⟩

theorem documents_read_back_of_awkward :
    (∀ s ∈ awkwardCatalog.stats, s.NoDoubles) ∧ awkwardShard.NoDoubles ∧
      awkwardConfig.validate = .ok () ∧
      Json.parse awkwardCatalog.toJson.render >>= Catalog.ofJson? = some awkwardCatalog ∧
      Json.parse awkwardShard.toJson.render >>= Shard.ofJson? = some awkwardShard ∧
      Config.ofText awkwardConfig.toJson.render = .ok awkwardConfig := by
  have hstats : ∀ s ∈ awkwardCatalog.stats, s.NoDoubles := by
    simp [awkwardCatalog, ColumnStats.NoDoubles, Value.IsDouble]
  have hshard : awkwardShard.NoDoubles := by
    simp [awkwardShard, Shard.NoDoubles, ShardRange.NoDoubles, Value.IsDouble]
  have hconfig : awkwardConfig.validate = .ok () := by decide +kernel
  obtain ⟨hcatalogs, -, hshards, hconfigs⟩ := documents_read_back
  exact ⟨hstats, hshard, hconfig, hcatalogs _ hstats, hshards _ hshard, hconfigs _ hconfig⟩

end ShardCompaction
