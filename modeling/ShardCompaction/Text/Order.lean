import ShardCompaction.Order

namespace ShardCompaction.Text

/-- The order of characters by code point. -/
abbrev compareChars : Char → Char → Ordering := compareBy fun c => (c.toNat : Int)

/-- Texts order lexicographically, a prefix before what it begins. -/
def compare (a b : String) : Ordering := List.compareLex compareChars a.toList b.toList

end ShardCompaction.Text
