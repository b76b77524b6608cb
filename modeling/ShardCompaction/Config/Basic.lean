import ShardCompaction.Compaction.Runs
import ShardCompaction.Log.Entry
import ShardCompaction.Shard.Eligible
import ShardCompaction.Zone.Text

namespace ShardCompaction

inductive ConfigError where
  | unreadable (reason : String)
  | malformed (reason : String)
  | invalid (reason : String)
  deriving DecidableEq

namespace ConfigError

def code : ConfigError → String
  | unreadable _ => "SHARD_CONFIG_READ"
  | malformed _ => "SHARD_CONFIG_PARSE"
  | invalid _ => "SHARD_CONFIG_INVALID"

def message : ConfigError → String
  | unreadable reason => "Failed to read config: " ++ reason
  | malformed reason => "Invalid config JSON: " ++ reason
  | invalid reason => "Invalid config: " ++ reason

end ConfigError

/-- Planner settings. Zone and log level are kept as written. -/
structure Config where
  maxBytes : UInt64
  maxRows : UInt64
  timeZone : String
  batchSize : UInt64
  includeSortColumns : Bool
  logLevel : String
  deriving DecidableEq

namespace Config

def default : Config :=
  { maxBytes := 268435456
    maxRows := 1000000
    timeZone := "+00:00"
    batchSize := UInt64.ofNat ExtractionOptions.defaultBatchSize
    includeSortColumns := false
    logLevel := "info" }

def zone (c : Config) : Except ConfigError ZoneOffset :=
  match ZoneOffset.ofText? c.timeZone with
  | some zone => .ok zone
  | none =>
    .error (.invalid ("time_zone '" ++ c.timeZone ++ "' is not 'UTC' or a '+hh:mm' offset"))

def severity (c : Config) : Except ConfigError Severity :=
  match Severity.ofText? c.logLevel with
  | some severity => .ok severity
  | none => .error (.invalid (Severity.unknownMessage c.logLevel))

/-- Settings are valid if index queries name at least one shard and zone and log level can be read.
Limits of zero are valid: every shard then meets them. -/
def validate (c : Config) : Except ConfigError Unit := do
  if c.batchSize = 0 then throw (.invalid "index_batch_size must be > 0")
  let _ ← c.zone
  let _ ← c.severity
  pure ()

def compactor (c : Config) : Except ConfigError Compactor := do
  pure { zone := ← c.zone, maxBytes := c.maxBytes, maxRows := c.maxRows }

def extraction (c : Config) : ExtractionOptions := ⟨c.includeSortColumns, c.batchSize.toNat⟩

end Config

end ShardCompaction
