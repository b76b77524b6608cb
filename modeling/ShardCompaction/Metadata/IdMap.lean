import ShardCompaction.Order
import Std.Data.TreeMap
import Std.Data.TreeSet

namespace ShardCompaction

abbrev compareIds : Int64 → Int64 → Ordering := compareBy Int64.toInt

instance : Std.LawfulEqCmp compareIds := lawfulEqCmp_compareBy Int64.toInt_inj.mp

abbrev IdMap (α : Type) := Std.TreeMap Int64 α compareIds

abbrev IdSet := Std.TreeSet Int64 compareIds

end ShardCompaction
