import Perimeter.Reachability.Query
import Perimeter.Address.Text

/-!
Arguments of the command line. Options that hold for every command may stand
before the command or after it, and the ones after it count first. Each option
takes a value: behind an equals sign, as the next argument, or, for one of a
single letter, directly behind it. Nothing but options may follow a command.
-/

namespace Perimeter.CommandLine

/-- What a command line may ask for. -/
inductive Command where
  | validate
  | query
  | graph
deriving DecidableEq

/-- An option that takes a value. -/
inductive Flag where
  | snapshot
  | config
  | source
  | destination
  | protocol
  | port
  | sourceZone
  | destinationZone
deriving DecidableEq

/-- Why there is nothing to run: help was asked for, or the arguments are
wrong. -/
inductive Stop where
  | help
  | misuse
deriving DecidableEq

namespace Command

def names : List (String × Command) := [("validate", validate), ("query", query), ("graph", graph)]

end Command

namespace Flag

def commonNames : List (String × Flag) := [("snapshot", snapshot), ("config", config)]

def queryNames : List (String × Flag) :=
  [("src", source), ("dst", destination), ("proto", protocol), ("port", port),
    ("src-zone", sourceZone), ("dst-zone", destinationZone)]

/-- The options with long names that may follow a command, or come before all
commands. -/
def names : Option Command → List (String × Flag)
  | some .query => commonNames ++ queryNames
  | _ => commonNames

def ofLetter? : Char → Option Flag
  | 's' => some snapshot
  | 'c' => some config
  | _ => none

/-- A port number, which may have a sign. -/
def readPort? (s : String) : Option UInt16 := do
  let n ← Text.readInt64? s.toList
  if 0 ≤ n ∧ n < UInt16.size then some n.toNat.toUInt16 else none

/-- Whether a value can be the value of an option. -/
def accepts : Flag → String → Bool
  | snapshot, s => !s.isEmpty
  | config, _ => true
  | source, s | destination, s => (Address.ofText? s).isSome
  | protocol, s => (Protocol.ofText? s).isSome
  | port, s => (readPort? s).isSome
  | sourceZone, s | destinationZone, s => (ZoneRef.ofText? s).isSome

end Flag

/-- The arguments read so far on one side of the command. -/
structure Level where
  values : List (Flag × String)
  logsJson : Bool
  /-- The last option, and its value if that has been read. It is checked when
  the next option begins or the arguments end. -/
  pending : Option (Flag × Option String)

namespace Level

def empty : Level := ⟨[], false, none⟩

/-- Gives an option its value. No option has two. -/
def store (l : Level) (f : Flag) (value : String) : Except Stop Level :=
  if (l.values.lookup f).isSome || !f.accepts value then .error .misuse
  else .ok ⟨l.values ++ [(f, value)], l.logsJson, none⟩

/-- Checks the last option. -/
def settle (l : Level) : Except Stop Level :=
  match l.pending with
  | none => .ok l
  | some (_, none) => .error .misuse
  | some (f, some value) => store l f value

/-- Takes an option whose value is attached to it, or is still to come. -/
def takeFlag (l : Level) (f : Flag) (attached : Option String) : Except Stop Level := do
  let l ← l.settle
  match attached with
  | some value => l.store f value
  | none => return ⟨l.values, l.logsJson, some (f, none)⟩

/-- Takes a word that two hyphens begin. -/
def takeLong (l : Level) (command : Option Command) (word : List Char) : Except Stop Level :=
  let (name, rest) := word.span (· ≠ '=')
  let attached := rest.tail?.map String.ofList
  match String.ofList name, attached with
  | "help", none => l.settle.bind fun _ => .error .help
  | "log-json", none => do
    let l ← l.settle
    if l.logsJson then .error .misuse else return ⟨l.values, true, none⟩
  | name, attached =>
    match (Flag.names command).lookup name with
    | some f => l.takeFlag f attached
    | none => .error .misuse

/-- Takes a word that one hyphen begins. -/
def takeShort (l : Level) : List Char → Except Stop Level
  | 'h' :: _ => l.settle.bind fun _ => .error .help
  | letter :: rest =>
    match Flag.ofLetter? letter, rest with
    | some f, [] => l.takeFlag f none
    | some f, '=' :: value => l.takeFlag f (some (String.ofList value))
    | some f, value => l.takeFlag f (some (String.ofList value))
    | none, _ => .error .misuse
  | [] => .error .misuse

/-- Takes an argument that is no command. -/
def take (l : Level) (command : Option Command) (arg : String) : Except Stop Level :=
  match arg.toList, l.pending with
  | ['-'], some (f, none) => .ok ⟨l.values, l.logsJson, some (f, some arg)⟩
  | '-' :: '-' :: word, _ => l.takeLong command word
  | '-' :: word, _ => l.takeShort word
  | _, some (f, none) => .ok ⟨l.values, l.logsJson, some (f, some arg)⟩
  | _, _ => .error .misuse

/-- Whether the next argument must be the value of the last option. -/
def isWaiting (l : Level) : Bool :=
  match l.pending with
  | some (_, none) => true
  | _ => false

end Level

/-- Help on a command, or on help itself. -/
def helpOn : List String → Stop
  | [] => .help
  | [name] => if name = "help" ∨ (Command.names.lookup name).isSome then .help else .misuse
  | _ => .misuse

/-- Reads the arguments after a command. Two hyphens alone may end them. -/
def readOptions (command : Command) (l : Level) : List String → Except Stop Level
  | [] => l.settle
  | ["--"] => l.settle
  | arg :: rest => do readOptions command (← l.take (some command) arg) rest

/-- Reads arguments up to the command, and those after it. -/
def readCommand (l : Level) : List String → Except Stop (Level × Command × Level)
  | [] => .error .misuse
  | arg :: rest =>
    if l.isWaiting then do readCommand (← l.take none arg) rest
    else if arg = "help" then .error (helpOn rest)
    else match Command.names.lookup arg with
      | some command => do
        let own ← readOptions command .empty rest
        return (← l.settle, command, own)
      | none => do readCommand (← l.take none arg) rest

/-- What a command does. -/
inductive Action where
  | validate
  | query (q : FlowQuery)
  | graph

/-- A command with the files that it reads. -/
structure Invocation where
  snapshot : String
  /-- The name of the file of settings, with or without its ending. -/
  config : String
  action : Action

namespace Invocation

/-- The question that options of the query command ask. -/
def query? (values : List (Flag × String)) : Option FlowQuery := do
  let given {α : Type} (read? : String → Option α) (f : Flag) : Option α :=
    (values.lookup f).bind read?
  return {
    source := ← given Address.ofText? .source
    destination := ← given Address.ofText? .destination
    protocol := (given Protocol.ofText? .protocol).getD .tcp
    port := given Flag.readPort? .port
    sourceZone := given ZoneRef.ofText? .sourceZone
    destinationZone := given ZoneRef.ofText? .destinationZone
  }

/-- The command that arguments ask for. -/
def ofArguments (args : List String) : Except Stop Invocation := do
  let (before, command, after) ← readCommand .empty args
  let common (f : Flag) (default : String) : String :=
    ((after.values.lookup f).or (before.values.lookup f)).getD default
  let action ← match command with
    | .validate => .ok .validate
    | .graph => .ok .graph
    | .query => match query? after.values with
      | some q => .ok (.query q)
      | none => .error .misuse
  return ⟨common .snapshot "snapshot.json", common .config "netreach", action⟩

end Invocation

end Perimeter.CommandLine
