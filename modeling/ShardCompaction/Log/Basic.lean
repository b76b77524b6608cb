import ShardCompaction.Log.Entry

namespace ShardCompaction

/-- The entries logged so far. Entries below the minimum severity are not kept. -/
structure Log where
  minimum : Severity
  entries : Array LogEntry

namespace Log

def empty (minimum : Severity) : Log := ⟨minimum, #[]⟩

def enabled (log : Log) (severity : Severity) : Bool := log.minimum.rank ≤ severity.rank

def write (log : Log) (severity : Severity) (event : String) (fields : List LogField) : Log :=
  if log.enabled severity then { log with entries := log.entries.push ⟨severity, event, fields⟩ }
  else log

def lines (log : Log) : List String := log.entries.toList.map LogEntry.line

end Log

/-- The events of a planning pass and of the command line. -/
inductive Event where
  | configLoaded
  | catalogLoaded
  | indexBatchQueried
  | shardRangeMissing
  | shardsResolved
  | setEmitted
  | setsCreated
  | metricsReported
  deriving DecidableEq

namespace Event

def name : Event → String
  | configLoaded => "CONFIG_LOADED"
  | catalogLoaded => "CATALOG_LOADED"
  | indexBatchQueried => "SHARD_INDEX_BATCH"
  | shardRangeMissing => "SHARD_RANGE_MISSING"
  | shardsResolved => "ELIGIBLE_SHARDS_RESOLVED"
  | setEmitted => "ORGANIZATION_SET_EMITTED"
  | setsCreated => "COMPACTION_SETS_CREATED"
  | metricsReported => "PLANNER_METRICS"

end Event

/-- Events are logged as information, unless they are traced. -/
def Log.event (log : Log) (e : Event) (fields : List LogField) : Log :=
  log.write .info e.name fields

def Log.trace (log : Log) (e : Event) (fields : List LogField) : Log :=
  log.write .trace e.name fields

/-- A piece of work with the fields that its entries repeat. -/
structure Scope where
  name : String
  fields : List LogField

namespace Scope

/-- How a scope ends: with more fields, with the code and reason of a failure, or not at all. -/
inductive Ending where
  | completed (extra : List LogField)
  | failed (code reason : String)
  | abandoned

/-- The clock of the log stands still. -/
def elapsed : LogField := ("elapsed_ms", "0")

def opening (s : Scope) : LogEntry := ⟨.info, s.name ++ "_BEGIN", s.fields⟩

def closing (s : Scope) : Ending → LogEntry
  | .completed extra => ⟨.info, s.name ++ "_COMPLETE", s.fields ++ extra ++ [elapsed]⟩
  | .failed code reason =>
    ⟨.error, s.name ++ "_FAILED", s.fields ++ [("code", code), ("reason", reason), elapsed]⟩
  | .abandoned =>
    ⟨.warn, s.name ++ "_INCOMPLETE", s.fields ++ [("reason", "scope dropped without completion")]⟩

end Scope

def Log.writeEntry (log : Log) (e : LogEntry) : Log := log.write e.severity e.event e.fields

def Log.openScope (log : Log) (s : Scope) : Log := log.writeEntry s.opening

def Log.closeScope (log : Log) (s : Scope) (ending : Scope.Ending) : Log :=
  log.writeEntry (s.closing ending)

end ShardCompaction
