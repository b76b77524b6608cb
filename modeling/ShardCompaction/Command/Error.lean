import ShardCompaction.Config.Basic
import ShardCompaction.Metadata.Error

namespace ShardCompaction

inductive CommandErrorKind where
  | config
  | catalog
  | plan
  | output
  deriving DecidableEq

def CommandErrorKind.code : CommandErrorKind → String
  | config => "SHARD_CLI_CONFIG_ERROR"
  | catalog => "SHARD_CLI_CATALOG_ERROR"
  | plan => "SHARD_CLI_PLAN_FAILED"
  | output => "SHARD_CLI_IO_ERROR"

structure CommandError where
  kind : CommandErrorKind
  message : String
  deriving DecidableEq

namespace CommandError

/-- A message that carries the code of its cause. -/
def coded (code message : String) : String := "[" ++ code ++ "] " ++ message

def ofConfig (e : ConfigError) : CommandError := ⟨.config, coded e.code e.message⟩

def ofMetadata (e : MetadataError) : CommandError := ⟨.plan, coded e.code e.message⟩

def ofOutput (reason : String) : CommandError := ⟨.output, reason⟩

/-- A document that could not be written. -/
def ofDocument (reason : String) : CommandError := ofOutput ("JSON error: " ++ reason)

def unreadableCatalog (path reason : String) : CommandError :=
  ⟨.catalog, "Failed to read catalog " ++ path ++ ": " ++ reason⟩

def malformedCatalog (reason : String) : CommandError :=
  ⟨.catalog, "Invalid catalog JSON: " ++ reason⟩

def display (e : CommandError) : String := e.kind.code ++ ": " ++ e.message

end CommandError

end ShardCompaction
