import ShardCompaction.Text.Decimal

namespace ShardCompaction

inductive Command where
  | plan (config catalog : String) (table : Option Int64)
  | tables (catalog : String)
  deriving DecidableEq

/-- Why arguments give no command. Asking for help or for the version is among the reasons. -/
inductive UsageError where
  | argumentConflict
  | displayHelp
  | displayHelpOnMissingSubcommand
  | displayVersion
  | invalidSubcommand
  | invalidValue
  | missingRequiredArgument
  | tooManyValues
  | unknownArgument
  | valueValidation
  deriving DecidableEq

namespace UsageError

def name : UsageError → String
  | argumentConflict => "ArgumentConflict"
  | displayHelp => "DisplayHelp"
  | displayHelpOnMissingSubcommand => "DisplayHelpOnMissingArgumentOrSubcommand"
  | displayVersion => "DisplayVersion"
  | invalidSubcommand => "InvalidSubcommand"
  | invalidValue => "InvalidValue"
  | missingRequiredArgument => "MissingRequiredArgument"
  | tooManyValues => "TooManyValues"
  | unknownArgument => "UnknownArgument"
  | valueValidation => "ValueValidation"

/-- Only answering a question is a success. -/
def exitCode : UsageError → UInt32
  | displayHelp => 0
  | displayVersion => 0
  | _ => 2

end UsageError

namespace Arguments

inductive OptionKind where
  | path
  | integer

/-- The options of a subcommand. -/
abbrev Options := List (String × OptionKind)

def planOptions : Options := [("config", .path), ("catalog", .path), ("table", .integer)]

def tablesOptions : Options := [("catalog", .path)]

/-- A path is not empty, and an integer fits 64 bits. -/
def checkValue (kind : OptionKind) (value : String) : Except UsageError Unit :=
  match kind with
  | .path => if value = "" then .error .invalidValue else .ok ()
  | .integer => if (Decimal.toInt64? value.toList).isSome then .ok () else .error .valueValidation

/-- The option whose value has not been looked at, and the values of the options before it. -/
structure Scan where
  pending : Option (String × OptionKind × Option String)
  values : List (String × String)

/-- Looks at the value of an option: it has to be there, the first for its option, and well
formed. -/
def Scan.accept (scan : Scan) (name : String) (kind : OptionKind) (value : Option String) :
    Except UsageError Scan :=
  match value with
  | none => .error .invalidValue
  | some value =>
    if (scan.values.lookup name).isSome then .error .argumentConflict
    else do
      checkValue kind value
      pure ⟨none, (name, value) :: scan.values⟩

/-- A value that stands alone is looked at when the next option or the end is reached. -/
def Scan.settle (scan : Scan) : Except UsageError Scan :=
  match scan.pending with
  | none => .ok scan
  | some (name, kind, value) => scan.accept name kind value

/-- What an argument looks like. -/
inductive Shape where
  | separator
  | long (name : String) (value : Option String)
  | short (first : Char)
  | plain

def shape (arg : String) : Shape :=
  match arg.toList with
  | ['-', '-'] => .separator
  | '-' :: '-' :: cs =>
    let value := match cs.dropWhile (· != '=') with
      | _ :: value => some (String.ofList value)
      | [] => none
    .long (String.ofList (cs.takeWhile (· != '='))) value
  | '-' :: c :: _ => .short c
  | _ => .plain

/-- Reads the arguments of a subcommand. Nothing may follow the separator, and a value may not look
like an option. -/
def scanOptions (options : Options) : List String → Scan → Except UsageError Scan
  | [], scan => scan.settle
  | arg :: rest, scan =>
    match shape arg with
    | .separator => if rest.isEmpty then scan.settle else .error .unknownArgument
    | .long "help" none => do
      let _ ← scan.settle
      throw .displayHelp
    | .long "help" (some _) => .error .tooManyValues
    | .long name value =>
      match options.lookup name with
      | none => .error .unknownArgument
      | some kind => do
        let scan ← scan.settle
        match value with
        | some value => scanOptions options rest (← scan.accept name kind (some value))
        | none => scanOptions options rest { scan with pending := some (name, kind, none) }
    | .short c =>
      if c = 'h' then do
        let _ ← scan.settle
        throw .displayHelp
      else .error .unknownArgument
    | .plain =>
      match scan.pending with
      | some (name, kind, none) =>
        scanOptions options rest { scan with pending := some (name, kind, some arg) }
      | _ => .error .unknownArgument

def optionValues (options : Options) (args : List String) :
    Except UsageError (List (String × String)) := do
  let scan ← scanOptions options args ⟨none, []⟩
  pure scan.values

def defaultConfigPath : String := "./shardplan.json"

def parsePlan (args : List String) : Except UsageError Command := do
  let values ← optionValues planOptions args
  match values.lookup "catalog" with
  | none => throw .missingRequiredArgument
  | some catalog =>
    let config := (values.lookup "config").getD defaultConfigPath
    pure (.plan config catalog (values.lookup "table" >>= fun s => Decimal.toInt64? s.toList))

def parseTables (args : List String) : Except UsageError Command := do
  let values ← optionValues tablesOptions args
  match values.lookup "catalog" with
  | none => throw .missingRequiredArgument
  | some catalog => pure (.tables catalog)

def subcommands : List String := ["plan", "tables", "help"]

/-- Help on a subcommand that exists. No subcommand has subcommands of its own. -/
def helpOn : List String → UsageError
  | [] => .displayHelp
  | [name] => if subcommands.contains name then .displayHelp else .invalidSubcommand
  | _ => .invalidSubcommand

/-- Reads the arguments that follow the program's name. -/
def parse : List String → Except UsageError Command
  | [] => .error .displayHelpOnMissingSubcommand
  | "plan" :: rest => parsePlan rest
  | "tables" :: rest => parseTables rest
  | "help" :: rest => .error (helpOn rest)
  | arg :: rest =>
    match shape arg, rest with
    | .separator, [] => .error .displayHelpOnMissingSubcommand
    | .separator, name :: _ =>
      .error (if subcommands.contains name then .unknownArgument else .invalidSubcommand)
    | .long name value, _ =>
      if name = "help" ∨ name = "version" then
        match value with
        | some _ => .error .tooManyValues
        | none => .error (if name = "help" then .displayHelp else .displayVersion)
      else .error .unknownArgument
    | .short c, _ =>
      .error (if c = 'h' then .displayHelp else if c = 'V' then .displayVersion
        else .unknownArgument)
    | .plain, _ => .error .invalidSubcommand

end Arguments

end ShardCompaction
