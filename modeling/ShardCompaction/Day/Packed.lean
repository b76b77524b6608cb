namespace ShardCompaction

/-- An instant above the twelve bits of a zone key. Its high bits that do not fit are lost. -/
def packMillis (millis : Int64) (zoneKey : UInt16) : Int64 :=
  (millis <<< 12) ||| Int64.ofNat (zoneKey &&& 0x0fff).toNat

def unpackMillis (packed : Int64) : Int64 := packed >>> 12

end ShardCompaction
