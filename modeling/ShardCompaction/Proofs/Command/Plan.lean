import ShardCompaction.Command.Run
import ShardCompaction.Proofs.Config.Valid
import ShardCompaction.Proofs.Json.Lines
import ShardCompaction.Proofs.Planner.Alike
import ShardCompaction.Proofs.Planner.Pass
import ShardCompaction.Proofs.RoundTrip

namespace ShardCompaction

variable {α σ : Type}

/-- How a command stops when its pass does. -/
def Abort.stop : Abort → CommandStop
  | store e => .failed (.ofMetadata e)
  | defect d => .defect d

namespace CommandRun

section Pass

variable {p : Pass σ α} {store : σ} {c : Console} {s : Session σ}

theorem pass_of_ok {a : α} (h : p (.start store c.log) = .ok a s) :
    pass store p c = .ok (a, s.metrics) { c with log := s.log } := by
  rw [pass, h]

theorem pass_of_error {a : Abort} (h : p (.start store c.log) = .error a s) :
    pass store p c = .error a.stop { c with log := s.log } := by
  rw [pass, h]
  cases a <;> rfl

end Pass

/-- A run that writes a text, or fails because the output is full. An output without a limit is
never full. -/
def Writes (x : CommandRun Unit) (text : String) : Prop :=
  ∀ c, (outcome x c = .ok () ∧ (stateAfter x c).output.text = c.output.text ++ text ∧
      (c.output.room = none → (stateAfter x c).output.room = none)) ∨
    ∃ e, outcome x c = .error (.failed e) ∧ e.kind = .output ∧ c.output.room ≠ none

namespace Writes

theorem pure : Writes (Pure.pure ()) "" := fun _ => .inl ⟨rfl, String.append_empty.symm, id⟩

theorem write (s : String) {onFull : CommandError} (h : onFull.kind = .output) :
    Writes (CommandRun.write s onFull) s := by
  intro c
  obtain ⟨⟨text, room⟩, log⟩ := c
  cases room with
  | none => exact .inl ⟨rfl, rfl, fun _ => rfl⟩
  | some room =>
    by_cases hfits : s.toList.length ≤ room
    · have hall : s.toList.take room = s.toList := List.take_of_length_le hfits
      refine .inl ⟨?_, ?_, by simp⟩
      · simp [outcome, CommandRun.write, Output.write, hfits]
      · simp [stateAfter, CommandRun.write, Output.write, hfits, hall]
    · refine .inr ⟨onFull, ?_, h, by simp⟩
      simp [outcome, CommandRun.write, Output.write, hfits]

theorem bind {x y : CommandRun Unit} {s t : String} (hx : Writes x s) (hy : Writes y t) :
    Writes (x >>= fun _ => y) (s ++ t) := by
  intro c
  rcases hx c with ⟨hout, htext, hroom⟩ | ⟨e, hout, he⟩
  · rw [outcome_bind_of_ok hout, stateAfter_bind_of_ok hout, ← String.append_assoc, ← htext]
    rcases hy (stateAfter x c) with ⟨hout', htext', hroom'⟩ | ⟨e, hout', he, hlimit⟩
    · exact .inl ⟨hout', htext', fun h => hroom' (hroom h)⟩
    · exact .inr ⟨e, hout', he, fun h => hlimit (hroom h)⟩
  · exact .inr ⟨e, outcome_bind_of_error hout, he⟩

/-- Documents are written line by line. -/
theorem forM_writeLine (docs : α → Json) (items : List α) :
    Writes (items.forM fun a => writeLine (docs a)) (Json.linesText (items.map docs)) := by
  induction items with
  | nil => exact .pure
  | cons a items ih =>
    have hline : Writes (writeLine (docs a)) ((docs a).render ++ "\n") :=
      (Writes.write _ rfl).bind (.write _ rfl)
    have htext : Json.linesText ((a :: items).map docs) =
        (docs a).render ++ "\n" ++ Json.linesText (items.map docs) := by
      simp [Json.linesText]
    rw [htext]
    exact hline.bind ih

end Writes

end CommandRun

namespace Planner

/-- What a planner makes of a store does not depend on the log. -/
theorem outcome_run_start (p : Planner σ) (job : Job) (store : σ) (log other : Log) :
    outcome (p.run job) (.start store log) = outcome (p.run job) (.start store other) :=
  (p.run_alike job (.start store log) (.start store other) rfl).1

end Planner

namespace Command

open CatalogStore

variable {files : FileTexts} {configPath catalogPath configText catalogText : String}
  {table : Option Int64} {config : Config} {catalog : Catalog} {compactor : Compactor}
  {minimum : Severity}

/-- One table, or all of them. -/
def job : Option Int64 → Planner.Job
  | some id => .table id
  | none => .all

/-- Once both documents are loaded, a plan is made and its sets are written. -/
theorem runPlan_of_loaded (table : Option Int64)
    (hconfig : loadConfig files configPath = .ok config)
    (hminimum : config.severity = .ok minimum) (hcompactor : config.compactor = .ok compactor)
    (hcatalog : loadCatalog files catalogPath = .ok catalog) (c : Console) :
    ∃ log, runPlan files configPath catalogPath table c =
      (CommandRun.pass (.ofCatalog catalog)
          (Planner.run ⟨asMetadataStore, compactor, config.extraction⟩ (job table)) >>= fun r =>
        (r.1.forM fun set => CommandRun.writeLine set.toJson) >>= fun _ =>
          CommandRun.log (·.event .metricsReported [("metrics", r.2.toJson.render)]))
        ⟨c.output, log⟩ := by
  have hjob : ∀ p : Planner CatalogStore, p.run (job table) = match table with
      | some id => p.planTable id
      | none => p.planAll := by
    cases table <;> exact fun _ => rfl
  apply Exists.intro
  rw [runPlan, hconfig]
  change (CommandRun.ofConfig config.severity >>= _) c = _
  rw [hminimum]
  change (loadStore files catalogPath >>= _) ⟨c.output, _⟩ = _
  rw [loadStore, hcatalog]
  change (CommandRun.ofConfig config.compactor >>= _) ⟨c.output, _⟩ = _
  rw [hcompactor, hjob]
  rfl

theorem runPlan_of_malformed (table : Option Int64)
    (hconfig : loadConfig files configPath = .ok config)
    (hminimum : config.severity = .ok minimum) {e : CommandError}
    (hcatalog : loadCatalog files catalogPath = .error e) (c : Console) :
    ∃ log, runPlan files configPath catalogPath table c = .error (.failed e) ⟨c.output, log⟩ := by
  apply Exists.intro
  rw [runPlan, hconfig]
  change (CommandRun.ofConfig config.severity >>= _) c = _
  rw [hminimum]
  change (loadStore files catalogPath >>= _) ⟨c.output, _⟩ = _
  rw [loadStore, hcatalog]
  rfl

/-- Two documents that can be read, and what the planner makes of them: of the store with the
catalog, by the settings. -/
def Plans (configText catalogText : String) (table : Option Int64)
    (result : Except Abort (List OrganizationSet)) : Prop :=
  ∃ config catalog compactor, Config.ofText configText = .ok config ∧
    Json.parse catalogText >>= Catalog.ofJson? = some catalog ∧ config.compactor = .ok compactor ∧
    outcome (Planner.run ⟨asMetadataStore, compactor, config.extraction⟩ (job table))
      (.start (.ofCatalog catalog) (.empty .error)) = result

section Plans

variable {result other : Except Abort (List OrganizationSet)}

theorem Plans.documents (h : Plans configText catalogText table result) :
    (∃ config, Config.ofText configText = .ok config) ∧
      ∃ catalog, Json.parse catalogText >>= Catalog.ofJson? = some catalog := by
  obtain ⟨config, catalog, _, hconfig, hcatalog, -⟩ := h
  exact ⟨⟨config, hconfig⟩, catalog, hcatalog⟩

/-- Documents have one plan. -/
theorem Plans.unique (h : Plans configText catalogText table result)
    (h' : Plans configText catalogText table other) : result = other := by
  obtain ⟨config, catalog, compactor, hconfig, hcatalog, hcompactor, rfl⟩ := h
  obtain ⟨config', catalog', compactor', hconfig', hcatalog', hcompactor', rfl⟩ := h'
  obtain rfl := Except.ok.inj (hconfig.symm.trans hconfig')
  obtain rfl := Option.some.inj (hcatalog.symm.trans hcatalog')
  obtain rfl := Except.ok.inj (hcompactor.symm.trans hcompactor')
  rfl

theorem Plans.eq_iff (h : Plans configText catalogText table result) :
    Plans configText catalogText table other ↔ result = other := by
  constructor
  · exact h.unique
  · intro he
    exact he ▸ h

theorem not_plans_of_config {cause : ConfigError} (h : Config.ofText configText = .error cause) :
    ¬Plans configText catalogText table result := by
  intro hplans
  obtain ⟨⟨config, hconfig⟩, -⟩ := hplans.documents
  simp [h] at hconfig

theorem not_plans_of_catalog (h : Json.parse catalogText >>= Catalog.ofJson? = none) :
    ¬Plans configText catalogText table result := by
  intro hplans
  obtain ⟨-, catalog, hcatalog⟩ := hplans.documents
  simp [h] at hcatalog

end Plans

/-- The report of a command that wrote nothing. -/
def Report.Fails (r : Report) (stop : CommandStop) : Prop := r.stop = some stop ∧ r.stdout = ""

/-- The report of a command that wrote sets, one on each line. -/
def Report.Completes (r : Report) (sets : List OrganizationSet) : Prop :=
  r.stop = none ∧ r.stdout = Json.linesText (sets.map OrganizationSet.toJson)

/-- The report of a command that failed with an error of a kind. -/
def Report.FailsAs (r : Report) (kind : CommandErrorKind) : Prop :=
  ∃ e, r.stop = some (.failed e) ∧ e.kind = kind

theorem Report.failsAs_iff {r : Report} {e : CommandError} (h : r.stop = some (.failed e))
    (kind : CommandErrorKind) : r.FailsAs kind ↔ e.kind = kind := by
  rw [FailsAs, h]
  constructor
  · intro he
    obtain ⟨e', he, hkind⟩ := he
    obtain rfl := CommandStop.failed.inj (Option.some.inj he)
    exact hkind
  · exact fun hkind => ⟨e, rfl, hkind⟩

/-- How planning from two documents ends. -/
inductive PlanEnds (configText catalogText : String) (table : Option Int64) (room : Option Nat)
    (r : Report) : Prop
  | config {cause : ConfigError} (h : Config.ofText configText = .error cause)
    (hr : r.Fails (.failed (.ofConfig cause)))
  | catalog {config : Config} (hconfig : Config.ofText configText = .ok config)
    (h : Json.parse catalogText >>= Catalog.ofJson? = none)
    (hr : r.Fails (.failed (.malformedCatalog "")))
  | plan {cause : MetadataError} (h : Plans configText catalogText table (.error (.store cause)))
    (hr : r.Fails (.failed (.ofMetadata cause)))
  | defect {d : Defect} (h : Plans configText catalogText table (.error (.defect d)))
    (hr : r.Fails (.defect d))
  | full {sets : List OrganizationSet} {e : CommandError}
    (h : Plans configText catalogText table (.ok sets)) (hr : r.stop = some (.failed e))
    (he : e.kind = .output) (hlimit : room ≠ none)
  | sets {sets : List OrganizationSet} (h : Plans configText catalogText table (.ok sets))
    (hr : r.Completes sets)

section Report

variable {room : Option Nat} {stop : CommandStop} {console : Console}

theorem report_of_error
    (h : runPlan files configPath catalogPath table ⟨⟨"", room⟩, .empty .info⟩ =
      .error stop console) :
    report files room (.plan configPath catalogPath table) =
      ⟨some stop, console.output.text, console.log.lines⟩ := by
  have hrun : run files (.plan configPath catalogPath table) ⟨⟨"", room⟩, .empty .info⟩ = _ := h
  rw [report, hrun]

theorem report_of_ok
    (h : runPlan files configPath catalogPath table ⟨⟨"", room⟩, .empty .info⟩ =
      .ok () console) :
    report files room (.plan configPath catalogPath table) =
      ⟨none, console.output.text, console.log.lines⟩ := by
  have hrun : run files (.plan configPath catalogPath table) ⟨⟨"", room⟩, .empty .info⟩ = _ := h
  rw [report, hrun]

end Report

theorem planEnds_of_loaded (hsettings : Config.ofText configText = .ok config)
    (hdocument : Json.parse catalogText >>= Catalog.ofJson? = some catalog)
    (hconfig : loadConfig files configPath = .ok config)
    (hcatalog : loadCatalog files catalogPath = .ok catalog) (room : Option Nat) :
    PlanEnds configText catalogText table room
      (report files room (.plan configPath catalogPath table)) := by
  obtain ⟨minimum, compactor, hminimum, hcompactor⟩ :=
    Config.exists_of_ofText hsettings
  obtain ⟨log, hrun⟩ := runPlan_of_loaded table hconfig hminimum hcompactor hcatalog
    ⟨⟨"", room⟩, .empty .info⟩
  let p : Planner CatalogStore := ⟨asMetadataStore, compactor, config.extraction⟩
  have hplans : Plans configText catalogText table
      (outcome (p.run (job table)) (.start (.ofCatalog catalog) log)) :=
    ⟨config, catalog, compactor, hsettings, hdocument, hcompactor,
      p.outcome_run_start (job table) _ _ _⟩
  cases hpass : p.run (job table) (.start (.ofCatalog catalog) log) with
  | error a s =>
    rw [(eq_error_iff.mp hpass).1] at hplans
    have hreport := report_of_error (hrun.trans (bind_of_error (CommandRun.pass_of_error hpass)))
    cases a with
    | store cause =>
      refine .plan hplans ?_
      rw [hreport]
      exact ⟨rfl, rfl⟩
    | defect d =>
      refine .defect hplans ?_
      rw [hreport]
      exact ⟨rfl, rfl⟩
  | ok sets s =>
    rw [(eq_ok_iff.mp hpass).1] at hplans
    have hrest := hrun.trans (bind_of_ok (CommandRun.pass_of_ok hpass))
    rcases CommandRun.Writes.forM_writeLine OrganizationSet.toJson sets
      ⟨⟨"", room⟩, s.log⟩ with ⟨hwritten, htext, -⟩ | ⟨e, hfull, he, hlimit⟩
    · have hreport := report_of_ok (hrest.trans (bind_of_ok (eq_ok_iff.mpr ⟨hwritten, rfl⟩)))
      refine .sets hplans ?_
      rw [hreport]
      exact ⟨rfl, htext⟩
    · have hreport := report_of_error (hrest.trans (bind_of_error (eq_error_iff.mpr ⟨hfull, rfl⟩)))
      refine .full hplans ?_ he hlimit
      rw [hreport]

/-- Planning is decided by its documents and by what the planner makes of them, unless the output
is full. -/
theorem planEnds (hconfig : files configPath = .ok configText)
    (hcatalog : files catalogPath = .ok catalogText) (room : Option Nat) :
    PlanEnds configText catalogText table room
      (report files room (.plan configPath catalogPath table)) := by
  have hloadConfig : loadConfig files configPath = Config.ofText configText := by
    rw [loadConfig, hconfig]
  cases hsettings : Config.ofText configText with
  | error cause =>
    rw [hsettings] at hloadConfig
    have hrun : ∀ c, runPlan files configPath catalogPath table c =
        .error (.failed (.ofConfig cause)) c := by
      intro c
      rw [runPlan, hloadConfig]
      rfl
    refine .config hsettings ?_
    rw [report_of_error (hrun _)]
    exact ⟨rfl, rfl⟩
  | ok config =>
    rw [hsettings] at hloadConfig
    cases hdocument : Json.parse catalogText >>= Catalog.ofJson? with
    | none =>
      have hloadCatalog : loadCatalog files catalogPath = .error (.malformedCatalog "") := by
        rw [loadCatalog, hcatalog]
        dsimp only
        rw [hdocument]
      obtain ⟨minimum, -, hminimum, -⟩ :=
        Config.exists_of_ofText hsettings
      obtain ⟨log, hrun⟩ := runPlan_of_malformed table hloadConfig hminimum hloadCatalog
        ⟨⟨"", room⟩, .empty .info⟩
      refine .catalog hsettings hdocument ?_
      rw [report_of_error hrun]
      exact ⟨rfl, rfl⟩
    | some catalog =>
      have hloadCatalog : loadCatalog files catalogPath = .ok catalog := by
        rw [loadCatalog, hcatalog]
        dsimp only
        rw [hdocument]
      exact planEnds_of_loaded hsettings hdocument hloadConfig hloadCatalog room

/-- If the output has no limit, the sets of a plan are written. -/
theorem completes_of_plans (hconfig : files configPath = .ok configText)
    (hcatalog : files catalogPath = .ok catalogText) {sets : List OrganizationSet}
    (h : Plans configText catalogText table (.ok sets)) :
    (report files none (.plan configPath catalogPath table)).Completes sets := by
  obtain ⟨⟨config, hsettings⟩, catalog, hdocument⟩ := h.documents
  have hends : PlanEnds configText catalogText table none _ := planEnds hconfig hcatalog none
  cases hends with
  | config hfails _ => simp [hsettings] at hfails
  | catalog _ hfails _ => simp [hdocument] at hfails
  | plan hfails _ => cases h.unique hfails
  | defect hfails _ => cases h.unique hfails
  | full _ _ _ hlimit => exact absurd rfl hlimit
  | sets hsets hr =>
    obtain rfl := Except.ok.inj (h.unique hsets)
    exact hr

/-- What was written is split into lines, and the lines are read as the sets. -/
theorem lines_of_completes {r : Report} {sets : List OrganizationSet} (h : r.Completes sets) :
    ∃ lines, r.stdout.toList.splitOn '\n' = lines ++ [[]] ∧
      lines.mapM (fun line => Json.parse (String.ofList line) >>= OrganizationSet.ofJson?) =
        some sets := by
  refine ⟨(sets.map OrganizationSet.toJson).map Json.chars, ?_, ?_⟩
  · rw [h.2]
    refine Json.splitOn_linesText fun j hj => ?_
    obtain ⟨set, -, rfl⟩ := List.mem_map.mp hj
    exact set.reads_toJson.wellFormed
  · rw [List.map_map]
    exact mapM_map_eq_some fun set _ => set.reads_toJson.parse

namespace PlanEnds

variable {room : Option Nat} {r : Report}

theorem completes_or_fails (h : PlanEnds configText catalogText table room r)
    (hroom : ¬r.FailsAs .output)
    (hdefect : ∀ d, ¬Plans configText catalogText table (.error (.defect d))) :
    (∃ sets, Plans configText catalogText table (.ok sets) ∧ r.Completes sets) ∨
      ∃ e, r.Fails (.failed e) := by
  cases h with
  | config _ hr => exact .inr ⟨_, hr⟩
  | catalog _ _ hr => exact .inr ⟨_, hr⟩
  | plan _ hr => exact .inr ⟨_, hr⟩
  | defect h _ => exact absurd h (hdefect _)
  | full _ hr he _ => exact absurd ⟨_, hr, he⟩ hroom
  | sets h hr => exact .inl ⟨_, h, hr⟩

/-- The settings come first, then the catalog, then what the planner finds. -/
theorem causes (h : PlanEnds configText catalogText table room r) :
    (r.FailsAs .config ↔ ∃ cause, Config.ofText configText = .error cause) ∧
    (r.FailsAs .catalog ↔ (∃ config, Config.ofText configText = .ok config) ∧
      Json.parse catalogText >>= Catalog.ofJson? = none) ∧
    (r.FailsAs .plan ↔ ∃ cause, Plans configText catalogText table (.error (.store cause))) ∧
    ∀ cause, Plans configText catalogText table (.error (.store cause)) →
      r.stop = some (.failed (.ofMetadata cause)) := by
  cases h with
  | config h hr => simp [Report.failsAs_iff hr.1, CommandError.ofConfig, h, not_plans_of_config h]
  | catalog hsettings h hr =>
    simp [Report.failsAs_iff hr.1, CommandError.malformedCatalog, hsettings, h,
      not_plans_of_catalog h]
  | plan h hr =>
    obtain ⟨⟨config, hsettings⟩, catalog, hdocument⟩ := h.documents
    simp [Report.failsAs_iff hr.1, CommandError.ofMetadata, hsettings, hdocument, h.eq_iff, hr.1]
  | defect h hr =>
    obtain ⟨⟨config, hsettings⟩, catalog, hdocument⟩ := h.documents
    simp [Report.FailsAs, hr.1, hsettings, hdocument, h.eq_iff]
  | full h hr he _ =>
    obtain ⟨⟨config, hsettings⟩, catalog, hdocument⟩ := h.documents
    simp [Report.failsAs_iff hr, he, hsettings, hdocument, h.eq_iff]
  | sets h hr =>
    obtain ⟨⟨config, hsettings⟩, catalog, hdocument⟩ := h.documents
    simp [Report.FailsAs, hr.1, hsettings, hdocument, h.eq_iff]

end PlanEnds

/-- The command writes one line for each set of the plan, in their order, and the lines can be split
and read as the sets; or it writes nothing and fails. It fails because of the settings, else because
of the catalog, else because of the store, whose error it tells. -/
theorem plan_writes_all_or_nothing (hconfig : files configPath = .ok configText)
    (hcatalog : files catalogPath = .ok catalogText) (room : Option Nat)
    (hroom : ¬(report files room (.plan configPath catalogPath table)).FailsAs .output)
    (hdefect : ∀ d, ¬Plans configText catalogText table (.error (.defect d))) :
    let r := report files room (.plan configPath catalogPath table)
    ((∃ sets, Plans configText catalogText table (.ok sets) ∧ r.Completes sets ∧
        ∃ lines, r.stdout.toList.splitOn '\n' = lines ++ [[]] ∧
          lines.mapM (fun line => Json.parse (String.ofList line) >>= OrganizationSet.ofJson?) =
            some sets) ∨
      ∃ e, r.Fails (.failed e)) ∧
    (r.FailsAs .config ↔ ∃ cause, Config.ofText configText = .error cause) ∧
    (r.FailsAs .catalog ↔ (∃ config, Config.ofText configText = .ok config) ∧
      Json.parse catalogText >>= Catalog.ofJson? = none) ∧
    (r.FailsAs .plan ↔ ∃ cause, Plans configText catalogText table (.error (.store cause))) ∧
    ∀ cause, Plans configText catalogText table (.error (.store cause)) →
      r.stop = some (.failed ⟨.plan, "[" ++ cause.code ++ "] " ++ cause.message⟩) := by
  intro r
  have hends : PlanEnds configText catalogText table room r := planEnds hconfig hcatalog room
  refine ⟨?_, hends.causes⟩
  rcases hends.completes_or_fails hroom hdefect with ⟨sets, hplans, hr⟩ | hfails
  · exact .inl ⟨sets, hplans, hr, lines_of_completes hr⟩
  · exact .inr hfails

/-- Two tables, each with two small shards. -/
def smallCatalog : Catalog where
  tables := [.plain 2, .plain 1]
  columns := []
  shards := [.plain 1 1 false, .plain 2 2 false, { ShardRecord.plain 3 3 false with table := 2 },
    { ShardRecord.plain 4 4 false with table := 2 }]
  stats := []

/-- Default settings and the catalog, as they are written. -/
def smallFiles : FileTexts := fun path =>
  .ok (if path = "settings" then Config.default.toJson.render else smallCatalog.toJson.render)

/-- Both tables are planned, and two lines are written. -/
theorem plan_writes_all_or_nothing_of_smallFiles :
    let r := report smallFiles none (.plan "settings" "catalog" none)
    ∃ sets, sets.map OrganizationSet.table = [1, 2] ∧ r.Completes sets ∧
      ∃ lines, r.stdout.toList.splitOn '\n' = lines ++ [[]] ∧
        lines.mapM (fun line => Json.parse (String.ofList line) >>= OrganizationSet.ofJson?) =
          some sets := by
  intro r
  let compactor : Compactor := ⟨.utc, Config.default.maxBytes, Config.default.maxRows⟩
  let p : Planner CatalogStore := ⟨asMetadataStore, compactor, Config.default.extraction⟩
  have hok : Pass.yields (p.run (job none)) (.start (.ofCatalog smallCatalog) (.empty .error))
      (fun sets => sets.map OrganizationSet.table = [1, 2]) = true := by
    decide +kernel
  obtain ⟨sets, s, hsets, htables⟩ := Pass.exists_ok_of_yields hok
  have hconfig : smallFiles "settings" = .ok Config.default.toJson.render := rfl
  have hcatalog : smallFiles "catalog" = .ok smallCatalog.toJson.render := rfl
  have hplans : Plans Config.default.toJson.render smallCatalog.toJson.render none (.ok sets) :=
    ⟨Config.default, smallCatalog, compactor, Config.ofText_render (by decide +kernel),
      (Catalog.reads_toJson (by simp [smallCatalog])).parse, by decide +kernel,
      (eq_ok_iff.mp hsets).1⟩
  have hcompletes : r.Completes sets := completes_of_plans hconfig hcatalog hplans
  have hroom : ¬r.FailsAs .output := by
    intro hfails
    obtain ⟨e, he, -⟩ := hfails
    simp [hcompletes.1] at he
  obtain ⟨hends, -⟩ := plan_writes_all_or_nothing hconfig hcatalog none hroom
    fun d hd => nomatch hplans.unique hd
  rcases hends with ⟨others, hothers, hr⟩ | ⟨e, he⟩
  · obtain rfl := Except.ok.inj (hplans.unique hothers)
    exact ⟨_, of_decide_eq_true htables, hr⟩
  · have hstop := he.1
    rw [hcompletes.1] at hstop
    cases hstop

end Command

end ShardCompaction
