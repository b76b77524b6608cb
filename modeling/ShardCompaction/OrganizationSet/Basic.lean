import ShardCompaction.Defect
import ShardCompaction.Shard.Basic
import ShardCompaction.Table.Basic
import Std.Data.TreeMap

namespace ShardCompaction

/-- Delete-delta shards under the shards they belong to. -/
abbrev MemberMap := Std.TreeMap Uuid (Option Uuid) Uuid.compare

/-- Shards with their delete-delta shards, in ascending order of identifiers. -/
@[ext] structure Members where
  entries : List (Uuid × Option Uuid)
  ascending : entries.Pairwise fun a b => a.1 < b.1
  deriving DecidableEq

namespace Members

def empty : Members := ⟨[], .nil⟩

/-- The entries of a map. -/
def ofMap (m : MemberMap) : Members :=
  ⟨m.toList, Std.TreeMap.ordered_keys_toList.imp Uuid.compare_eq_lt_iff.mp⟩

/-- Of several entries of one shard the last one counts. -/
def ofEntries (entries : List (Uuid × Option Uuid)) : Members :=
  ofMap (entries.foldl (fun m e => m.insert e.1 e.2) ∅)

def contains (m : Members) (uuid : Uuid) : Bool := m.entries.any fun e => e.1 = uuid

def uuids (m : Members) : List Uuid := m.entries.map Prod.fst

def size (m : Members) : Nat := m.entries.length

end Members

/-- A set of shards to be merged. All members share one bucket number or have none. -/
structure OrganizationSet where
  table : Int64
  supportsDeltaDelete : Bool
  members : Members
  bucket : Option UInt32
  priority : Int32
  deriving DecidableEq

namespace OrganizationSet

/-- The priority of sets that the planner finds on its own. -/
def automaticPriority : Int32 := 0

/-- Adds shards one by one; a foreign bucket number is found before a repeated identifier. -/
def addShards (table : Int64) (bucket : Option UInt32) :
    MemberMap → List Shard → Except Defect MemberMap
  | members, [] => .ok members
  | members, s :: shards =>
    if s.bucket ≠ bucket then .error (.mixedBuckets table bucket s.bucket)
    else if members.contains s.uuid then .error (.repeatedShard s.uuid)
    else addShards table bucket (members.insert s.uuid s.delta) shards

/-- The set of some shards of a table, at least one, all with the bucket number of the first and no
two with the same identifier. -/
def ofShards (table : Table) (shards : List Shard) (priority : Int32) :
    Except Defect OrganizationSet :=
  match shards with
  | [] => .error (.emptySet table.id)
  | first :: rest => do
    let members ← addShards table.id first.bucket ∅ (first :: rest)
    pure { table := table.id, supportsDeltaDelete := table.supportsDeltaDelete,
           members := .ofMap members, bucket := first.bucket, priority }

def size (s : OrganizationSet) : Nat := s.members.size

def isEmpty (s : OrganizationSet) : Bool := s.members.entries.isEmpty

def contains (s : OrganizationSet) (uuid : Uuid) : Bool := s.members.contains uuid

def display (s : OrganizationSet) : String :=
  "table=" ++ Decimal.int64Text s.table ++ " shards=" ++ Decimal.natText s.size ++
    (match s.bucket with
      | none => ""
      | some b => " bucket=" ++ Decimal.natText b.toNat) ++
    " priority=" ++ Decimal.intText s.priority.toInt

end OrganizationSet

end ShardCompaction
