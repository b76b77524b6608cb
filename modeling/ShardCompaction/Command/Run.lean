import ShardCompaction.Command.Arguments
import ShardCompaction.Command.Error
import ShardCompaction.Command.Files
import ShardCompaction.Config.Json
import ShardCompaction.Metadata.CatalogStore
import ShardCompaction.OrganizationSet.Json
import ShardCompaction.Planner.Basic

namespace ShardCompaction

/-- What was written so far, and how many more bytes the output takes, if there is a limit. -/
structure Output where
  text : String
  room : Option Nat

namespace Output

/-- Writes ASCII text as far as there is room for it, and tells whether all of it was written. -/
def write (out : Output) (s : String) : Output × Bool :=
  match out.room with
  | none => ({ out with text := out.text ++ s }, true)
  | some room =>
    let cs := s.toList
    ({ text := out.text ++ String.ofList (cs.take room), room := some (room - cs.length) },
      cs.length ≤ room)

/-- What the writer says when there is no more room. -/
def full : String := "write limit reached"

end Output

structure Console where
  output : Output
  log : Log

/-- Why a command stops: an error, which it reports, or a defect. -/
inductive CommandStop where
  | failed (e : CommandError)
  | defect (d : Defect)
  deriving DecidableEq

abbrev CommandRun := EStateM CommandStop Console

namespace CommandRun

def fail (e : CommandError) : CommandRun α := throw (.failed e)

def log (f : Log → Log) : CommandRun Unit := modify fun c => { c with log := f c.log }

def ofConfig (r : Except ConfigError α) : CommandRun α :=
  match r with
  | .ok a => pure a
  | .error e => fail (.ofConfig e)

def ofMetadata (r : Except MetadataError α) : CommandRun α :=
  match r with
  | .ok a => pure a
  | .error e => fail (.ofMetadata e)

def write (s : String) (onFull : CommandError) : CommandRun Unit := fun c =>
  let (output, done) := c.output.write s
  if done then .ok () { c with output } else .error (.failed onFull) { c with output }

/-- Writes a document and ends the line. -/
def writeLine (j : Json) : CommandRun Unit := do
  write j.render (.ofDocument Output.full)
  write "\n" (.ofOutput Output.full)

/-- A planning pass that starts with no counts, and the counts it ends with. -/
def pass (store : σ) (p : Pass σ α) : CommandRun (α × Metrics) := fun c =>
  match p (.start store c.log) with
  | .ok a s => .ok (a, s.metrics) { c with log := s.log }
  | .error (.store e) s => .error (.failed (.ofMetadata e)) { c with log := s.log }
  | .error (.defect d) s => .error (.defect d) { c with log := s.log }

end CommandRun

namespace Command

def loadConfig (files : FileTexts) (path : String) : Except ConfigError Config :=
  match files path with
  | .error e => .error (.unreadable (path ++ ": " ++ e.message))
  | .ok text => Config.ofText text

def loadCatalog (files : FileTexts) (path : String) : Except CommandError Catalog :=
  match files path with
  | .error e => .error (.unreadableCatalog path e.message)
  | .ok text =>
    match Json.parse text >>= Catalog.ofJson? with
    | some catalog => .ok catalog
    | none => .error (.malformedCatalog "")

def loadStore (files : FileTexts) (path : String) : CommandRun CatalogStore := do
  match loadCatalog files path with
  | .error e => CommandRun.fail e
  | .ok catalog =>
    CommandRun.log (·.event .catalogLoaded
      [("path", path), ("tables", Decimal.natText catalog.tables.length),
        ("shards", Decimal.natText catalog.shards.length)])
    pure (.ofCatalog catalog)

def configFields (path : String) (c : Config) : List LogField :=
  [("path", path),
    ("max_shard_size_bytes", Decimal.natText c.maxBytes.toNat),
    ("max_shard_rows", Decimal.natText c.maxRows.toNat),
    ("time_zone", c.timeZone)]

/-- Writes one line for each organization set, and nothing before planning has succeeded. -/
def runPlan (files : FileTexts) (configPath catalogPath : String) (table : Option Int64) :
    CommandRun Unit := do
  let config ← CommandRun.ofConfig (loadConfig files configPath)
  let minimum ← CommandRun.ofConfig config.severity
  CommandRun.log ({ · with minimum })
  CommandRun.log (·.event .configLoaded (configFields configPath config))
  let store ← loadStore files catalogPath
  let compactor ← CommandRun.ofConfig config.compactor
  let planner : Planner CatalogStore :=
    { store := CatalogStore.asMetadataStore, compactor, options := config.extraction }
  let (sets, metrics) ← CommandRun.pass store <|
    match table with
    | some id => planner.planTable id
    | none => planner.planAll
  sets.forM fun set => CommandRun.writeLine set.toJson
  CommandRun.log (·.event .metricsReported [("metrics", metrics.toJson.render)])

/-- What is told about a table: its shape, and how many shards and delete-delta shards it has. -/
def summary (table : Table) (shards : List ShardRecord) : Json :=
  let deltas := shards.countP ShardRecord.isDelta
  .record
    [("bucket_count", .option .uint32 table.bucketCount),
      ("delta_shards", .nat deltas),
      ("partitioning", .text table.partitioning),
      ("shards", .nat (shards.length - deltas)),
      ("table_id", .int64 table.id),
      ("temporal_column_id", .option .int64 table.temporalColumn)]

def runTables (files : FileTexts) (catalogPath : String) : CommandRun Unit := do
  let store ← loadStore files catalogPath
  store.tables.forM fun table => do
    let shards ← CommandRun.ofMetadata (store.shards? table.id)
    CommandRun.writeLine (summary table shards)

def run (files : FileTexts) : Command → CommandRun Unit
  | plan config catalog table => runPlan files config catalog table
  | tables catalog => runTables files catalog

/-- The files that a command reads. -/
def paths : Command → List String
  | plan config catalog _ => [config, catalog]
  | tables catalog => [catalog]

/-- What a command leaves behind: why it stopped, unless it succeeded, its output, and the lines of
its log. -/
structure Report where
  stop : Option CommandStop
  stdout : String
  log : List String

/-- Runs a command with an output of the given room. -/
def report (files : FileTexts) (room : Option Nat) (c : Command) : Report :=
  match c.run files ⟨⟨"", room⟩, .empty .info⟩ with
  | .ok () console => ⟨none, console.output.text, console.log.lines⟩
  | .error stop console => ⟨some stop, console.output.text, console.log.lines⟩

end Command

def programName : String := "shardplan"

def versionText : String := programName ++ " 0.1.0"

end ShardCompaction
