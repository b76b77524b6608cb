import ShardCompaction.Day.Packed
import ShardCompaction.Defect
import ShardCompaction.Zone.Basic

namespace ShardCompaction

def millisPerDay : Int := 86400000

/-- The instants, in milliseconds, that the calendar represents. -/
def earliestMillis : Int := -8334601228800000

def latestMillis : Int := 8210266876799999

def isCalendarInstant (millis : Int) : Bool := earliestMillis ≤ millis && millis ≤ latestMillis

/-- The floor of the mean. -/
def midpoint (a b : Int64) : Int64 := Int64.ofInt ((a.toInt + b.toInt) / 2)

/-- The number that the calendar gives to 1970-01-01. It counts from the first day of the year 1. -/
def epochDayNumber : Int64 := 719163

/-- The number of the local day of an instant of the calendar. Its local time may be out of the
calendar. -/
def localDayNumber (zone : ZoneOffset) (millis : Int64) : Except Defect Int32 :=
  let localMillis := millis.toInt + 1000 * zone.seconds
  if isCalendarInstant localMillis then
    .ok (Int32.ofInt (localMillis / millisPerDay + epochDayNumber.toInt))
  else .error .localTimeOutOfRange

/-- The local day of an instant. Outside the calendar days are counted without it. -/
def dayOfMillis (zone : ZoneOffset) (millis : Int64) : Except Defect Int64 :=
  if isCalendarInstant millis.toInt then
    (localDayNumber zone millis).map fun number => number.toInt64 - epochDayNumber
  else .ok (Int64.ofInt ((millis.toInt + 1000 * zone.seconds) / millisPerDay))

/-- The day of a range over one temporal column: the local day that holds the midpoint of its
bounds. The column's type is the one of the lower bound. -/
def ShardRange.day (zone : ZoneOffset) (r : ShardRange) : Except Defect Int64 :=
  match r.min.only?, r.max.only? with
  | some (type, min), some (_, max) =>
    match min.toInt64?, max.toInt64? with
    | some a, some b =>
      match type with
      | .date => .ok (midpoint a b)
      | .timestamp => dayOfMillis zone (midpoint a b)
      | .timestampWithTimeZone => dayOfMillis zone (midpoint (unpackMillis a) (unpackMillis b))
      | other => .error (.nonTemporalType other)
    | _, _ => .error (.nonIntegerBounds r)
  | _, _ => .error (.notSingleColumn r)

end ShardCompaction
