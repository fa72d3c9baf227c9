import Perimeter.Json.Number
import Perimeter.Json.Reading
import Perimeter.Settings.Value
import Perimeter.Toml.Reading

/-!
Where settings come from: a file in the TOML or the JSON format, and variables
of the environment, which are laid over the file.
-/

namespace Perimeter

namespace Setting

/-- A whole number of 64 bits, or else a number that is not too great. -/
def ofNumeral? (written : List Char) : Option Setting :=
  match Text.readInt64? written with
  | some n => some (.integer n)
  | none => (Json.magnitude? written).map fun x => .fraction (x == 0)

/-- A member before others, unless one of them has its name. -/
def addMember (name : String) (v : Setting) (ms : List (String × Setting)) :
    List (String × Setting) :=
  if ms.any (·.1 == name) then ms else (name, v) :: ms

mutual

/-- The setting that a JSON value gives, in which arrays and objects stand
within one another no deeper than there is room. Numbers must be within range.
Of members of one name the last counts, but all must be settings. -/
def ofJson? (room : Nat) : Json → Option Setting
  | .null => some .null
  | .bool b => some (.bool b)
  | .number written => ofNumeral? written
  | .string written => (Json.unescape? written).map .text
  | .array vs => if room = 0 then none else (ofItems? (room - 1) vs).map .list
  | .object ms => if room = 0 then none else (ofMembers? (room - 1) ms).map .table

def ofItems? (room : Nat) : List Json → Option (List Setting)
  | [] => some []
  | v :: vs => do return (← ofJson? room v) :: (← ofItems? room vs)

def ofMembers? (room : Nat) : List (List Char × Json) → Option (List (String × Setting))
  | [] => some []
  | (k, v) :: ms => do
    return addMember (← Json.unescape? k) (← ofJson? room v) (← ofMembers? room ms)

end

end Setting

/-- The format of a file of settings. -/
inductive SettingsFormat where
  | toml
  | json
deriving DecidableEq

namespace SettingsFormat

def extension : SettingsFormat → String
  | toml => ".toml"
  | json => ".json"

/-- How deep the arrays and objects of a file may stand within one another. -/
def depthLimit : Nat := 127

/-- The settings that a file writes: a table. A byte order mark at the front
does not count. -/
def read? (format : SettingsFormat) (text : String) : Option (List (String × Setting)) :=
  let written := match text.toList with
    | '\ufeff' :: rest => String.ofList rest
    | _ => text
  match format with
  | toml => Toml.read? written
  | json =>
    match (Json.read? written).bind (Setting.ofJson? depthLimit) with
    | some (.table ms) => some ms
    | _ => none

/-- The last name in a path of a file. -/
def fileName (path : String) : List Char := (path.toList.splitOn '/').getLastD []

/-- The format that the ending of a file tells. There must be a name before it. -/
def ofFileName? (path : String) : Option SettingsFormat :=
  let name := fileName path
  [toml, json].find? fun format =>
    let ending := format.extension.toList
    decide (ending.length < name.length) && ending.isSuffixOf name

/-- What remains of a path, back to front, without the slashes at its end and
without steps that stay in place. -/
def trimReversed : List Char → List Char
  | '/' :: rest => trimReversed rest
  | '.' :: '/' :: rest => trimReversed rest
  | path => path

/-- The files that a path stands for, in order of preference: the file of that
path, whose ending tells its format, or the one with an ending added to its last
name. The first of them that exists counts, even if no format is known for it. -/
def candidates (path : String) : List (String × Option SettingsFormat) :=
  let base := String.ofList (trimReversed path.toList.reverse).reverse
  (path, ofFileName? path) ::
    if fileName base ∈ ["".toList, ".".toList, "..".toList] then []
    else [toml, json].map fun format => (base ++ format.extension, some format)

end SettingsFormat

namespace Environment

/-- What the names of variables that hold settings begin with. -/
def start : List Char := "netreach__".toList

/-- Writes a point for every two underscores. -/
def points : List Char → List Char
  | '_' :: '_' :: rest => '.' :: points rest
  | c :: rest => c :: points rest
  | [] => []

/-- The key of the setting that a variable holds. -/
def key? (name : String) : Option String :=
  let small := (Setting.smallName name).toList
  if start.isPrefixOf small then some (String.ofList (points (small.drop start.length))) else none

/-- The settings among the variables of an environment. -/
def settings (vars : List (String × String)) : List (String × Setting) :=
  vars.filterMap fun (name, value) => (key? name).map (·, Setting.ofWord value)

end Environment

end Perimeter
