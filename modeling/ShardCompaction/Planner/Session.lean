import ShardCompaction.Log.Basic
import ShardCompaction.Metadata.Store
import ShardCompaction.Metrics

namespace ShardCompaction

structure Session (σ : Type) where
  store : σ
  log : Log
  metrics : Metrics

/-- Why a pass stops early: a failure of the store, which it reports, or a defect. -/
inductive Abort where
  | store (e : MetadataError)
  | defect (d : Defect)
  deriving DecidableEq

abbrev Pass (σ : Type) := EStateM Abort (Session σ)

namespace Session

/-- A new session at a store. -/
def start (store : σ) (log : Log) : Session σ := ⟨store, log, .zero⟩

def mapLog (f : Log → Log) (s : Session σ) : Session σ := { s with log := f s.log }

def mapMetrics (f : Metrics → Metrics) (s : Session σ) : Session σ :=
  { s with metrics := f s.metrics }

end Session

namespace Pass

/-- A call of the store. -/
def call (c : StoreCall σ α) : Pass σ α := fun s =>
  match c s.store with
  | .ok a store => .ok a { s with store }
  | .error e store => .error (.store e) { s with store }

def log (f : Log → Log) : Pass σ Unit := fun s => .ok () (s.mapLog f)

def count (f : Metrics → Metrics) : Pass σ Unit := fun s => .ok () (s.mapMetrics f)

/-- A computation that stops at a defect. -/
def compute (r : Except Defect α) : Pass σ α := fun s =>
  match r with
  | .ok a => .ok a s
  | .error d => .error (.defect d) s

end Pass

end ShardCompaction
