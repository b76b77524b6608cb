namespace ShardCompaction

/-- An offset east of UTC, in seconds, of less than a day. -/
@[ext] structure ZoneOffset where
  seconds : Int
  above : -86400 < seconds := by omega
  below : seconds < 86400 := by omega
  deriving DecidableEq

namespace ZoneOffset

def utc : ZoneOffset := { seconds := 0 }

instance : Inhabited ZoneOffset := ⟨utc⟩

def ofSeconds? (seconds : Int) : Option ZoneOffset :=
  if h : -86400 < seconds ∧ seconds < 86400 then some ⟨seconds, h.1, h.2⟩ else none

end ZoneOffset

end ShardCompaction
