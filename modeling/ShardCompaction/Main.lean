import ShardCompaction.Command.Run

namespace ShardCompaction

def helpText : String :=
  "Plans compaction of small shards into organization sets\n\n" ++
    "Usage: shardplan plan --catalog <CATALOG> [--config <CONFIG>] [--table <TABLE>]\n" ++
    "       shardplan tables --catalog <CATALOG>"

/-- Reads the text file at a path. -/
def readText (path : String) : IO (Except ReadFailure String) := do
  if let .error e := checkPath path then return .error e
  try return textOfBytes (← IO.FS.readBinFile path)
  catch
    | .noFileOrDirectory .. => return .error .notFound
    | .inappropriateType none .. => return .error .isDirectory
    | .inappropriateType (some _) .. => return .error .notDirectory
    | .invalidArgument .. => return .error .nameTooLong
    | e => return .error (.other (toString e))

end ShardCompaction

open ShardCompaction in
def main (args : List String) : IO UInt32 := do
  match Arguments.parse args with
  | .error .displayVersion => IO.println versionText; return 0
  | .error .displayHelp => IO.println helpText; return 0
  | .error e => IO.eprintln s!"error: {e.name}\n\n{helpText}"; return e.exitCode
  | .ok command =>
    let read ← command.paths.mapM fun path => do return (path, ← readText path)
    let report := command.report (fun path => (read.lookup path).getD (.error .notFound)) none
    for line in report.log do IO.eprintln line
    IO.print report.stdout
    match report.stop with
    | none => return 0
    | some (.failed e) => IO.eprintln e.display; return 1
    | some (.defect d) => IO.eprintln d.message; return 101
