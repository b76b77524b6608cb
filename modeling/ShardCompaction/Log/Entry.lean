import ShardCompaction.Json.Writer
import ShardCompaction.Text.Order

namespace ShardCompaction

inductive Severity where
  | trace
  | info
  | warn
  | error
  deriving DecidableEq, Inhabited

namespace Severity

def rank : Severity → Nat
  | trace => 0
  | info => 1
  | warn => 2
  | error => 3

def name : Severity → String
  | trace => "TRACE"
  | info => "INFO"
  | warn => "WARN"
  | error => "ERROR"

def all : List Severity := [trace, info, warn, error]

/-- Severities are named in any case of the ASCII letters. -/
def ofText? (s : String) : Option Severity :=
  all.find? fun severity => severity.name.toList.map Char.toLower = s.toList.map Char.toLower

/-- Why a text is not a severity. -/
def unknownMessage (s : String) : String :=
  "unknown log level '" ++ String.ofList (s.toList.map Char.toLower) ++ "'"

end Severity

/-- A field of a log entry. -/
abbrev LogField := String × String

structure LogEntry where
  severity : Severity
  event : String
  fields : List LogField
  deriving DecidableEq

namespace LogEntry

def keyLe (a b : LogField) : Bool := (Text.compare a.1 b.1).isLE

/-- Fields with equal keys stay in the order given. -/
def sortedFields (e : LogEntry) : List LogField := e.fields.mergeSort keyLe

def fieldChars (f : LogField) : List Char := ',' :: Json.quoted f.1 ++ ':' :: Json.quoted f.2

/-- The line without its end. -/
def lineChars (e : LogEntry) : List Char :=
  "\x7b\"event\":".toList ++ Json.quoted e.event ++ ",\"severity\":".toList ++
    Json.quoted e.severity.name ++ e.sortedFields.flatMap fieldChars ++ ['}']

def line (e : LogEntry) : String := String.ofList e.lineChars

/-- The line with its newline, as it is written. -/
def render (e : LogEntry) : String := String.ofList (e.lineChars ++ ['\n'])

end LogEntry

end ShardCompaction
