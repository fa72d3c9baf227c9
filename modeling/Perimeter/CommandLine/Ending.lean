import Perimeter.CommandLine.Arguments
import Perimeter.Json.Printing
import Perimeter.Report
import Perimeter.Settings.Engine

/-!
What a run of the command line prints and how it exits. Answers go to the
output and everything else to the error output. Help and answers exit with 0,
what cannot be loaded with 1, and wrong arguments or an unanswerable question
with 2.
-/

namespace Perimeter.CommandLine

/-- Why a command could not begin. -/
inductive Failure where
  | settings
  | noSnapshot
  | load (e : LoadError)

/-- How a run ends. -/
inductive Ending where
  | stopped (s : Stop)
  | failed (f : Failure)
  | unanswered (e : QueryError)
  | answered (v : Json)

namespace Ending

def exitCode : Ending → UInt32
  | stopped .help | answered _ => 0
  | failed _ => 1
  | stopped .misuse | unanswered _ => 2

def usage : String :=
  "Usage: netreach [OPTIONS] <COMMAND>\n\n" ++
  "Commands:\n" ++
  "  validate  Load, resolve and build the graph; print a summary\n" ++
  "  query     Ask whether a flow is permitted\n" ++
  "  graph     Print the zone graph\n" ++
  "  help      Print this message\n\n" ++
  "Options:\n" ++
  "  -s, --snapshot <FILE>  Snapshot JSON file [default: snapshot.json]\n" ++
  "  -c, --config <NAME>    Config file prefix [default: netreach]\n" ++
  "      --log-json         Emit logs as JSON\n" ++
  "  -h, --help             Print help\n\n" ++
  "Options of query:\n" ++
  "      --src <ADDRESS>      Source address\n" ++
  "      --dst <ADDRESS>      Destination address\n" ++
  "      --proto <PROTOCOL>   Protocol name or number [default: tcp]\n" ++
  "      --port <PORT>        Destination port; omit for every port\n" ++
  "      --src-zone <ZONE>    Source zone as device:zone\n" ++
  "      --dst-zone <ZONE>    Destination zone as device:zone\n"

/-- A cause below its consequence, each of its lines behind four blanks. -/
def caused (message cause : String) : String :=
  "Error: " ++ message ++ "\n\nCaused by:\n    " ++ "\n    ".intercalate (cause.splitOn "\n") ++ "\n"

def complaint : Failure → String
  | .settings => caused "Config error" "the settings cannot be read"
  | .noSnapshot => caused "IO error" "the snapshot cannot be read"
  | .load e => caused e.message e.cause

/-- The text for the output. -/
def output : Ending → String
  | stopped .help => usage
  | answered v => v.indentedText ++ "\n"
  | _ => ""

/-- The text for the error output. -/
def errorOutput : Ending → String
  | stopped .misuse => "error: wrong arguments\n\n" ++ usage
  | failed f => complaint f
  | unanswered e => "query failed: " ++ e.message ++ "\n"
  | _ => ""

end Ending

namespace Action

/-- What a command makes of a loaded snapshot. -/
def run (a : Action) (e : Engine) (stamp : Stamp) : Ending :=
  match a with
  | validate => .answered e.summaryJson
  | graph => .answered e.graph.toExport.toJson
  | query q =>
    match e.query q with
    | .ok v => .answered (v.toJson stamp)
    | .error e => .unanswered e

end Action

namespace Invocation

/-- Runs a command on the text of its snapshot, if there is one. Settings are
read first; without their value they cannot be read. -/
def run (i : Invocation) (settings : Option EngineConfig) (snapshot : Option String)
    (stamp : Stamp) : Ending :=
  match settings, snapshot with
  | none, _ => .failed .settings
  | some _, none => .failed .noSnapshot
  | some config, some text =>
    match Engine.ofText text config with
    | .ok e => i.action.run e stamp
    | .error e => .failed (.load e)

end Invocation

end Perimeter.CommandLine
