import Perimeter.Engine
import Perimeter.Settings.Path
import Perimeter.Settings.Source

/-!
The choices of an engine among settings. They stand in the table `engine`, each
under its name, or in order in a list. Without such settings the defaults hold.
-/

namespace Perimeter

namespace Setting

/-- The words that stand for truth values, in small letters. -/
def truthWords : List (String × Bool) :=
  [("1", true), ("true", true), ("on", true), ("yes", true),
    ("0", false), ("false", false), ("off", false), ("no", false)]

/-- A truth value; numbers other than zero are true. -/
def truth? : Setting → Option Bool
  | bool b => some b
  | integer n => some (n ≠ 0)
  | fraction isZero => some (!isZero)
  | text s => truthWords.lookup (smallName s)
  | _ => none

/-- A strategy by its name in either case, alone or as the only name of a
table. -/
def inference? : Setting → Option Inference
  | text s => Inference.names.lookup (smallName s)
  | table [(name, _)] => Inference.names.lookup (smallName name)
  | _ => none

/-- What a setting says, or the default if it is not given. -/
def given? {α : Type} (read? : Setting → Option α) (default : α) : Option Setting → Option α
  | some v => read? v
  | none => some default

end Setting

namespace EngineConfig

/-- The choices that are given, and the default of each that is not. -/
def ofChoices? (topology parallelResolution builtinBooks : Option Setting) :
    Option EngineConfig := do
  return ⟨← Setting.given? Setting.inference? default.topology topology,
    ← Setting.given? Setting.truth? default.parallelResolution parallelResolution,
    ← Setting.given? Setting.truth? default.builtinBooks builtinBooks⟩

/-- The choices in the settings of an engine. -/
def ofSetting? : Setting → Option EngineConfig
  | .table ms =>
    ofChoices? (ms.lookup "topology") (ms.lookup "parallel_resolution")
      (ms.lookup "builtin_books")
  | .list vs => ofChoices? vs[0]? vs[1]? vs[2]?
  | _ => none

/-- The choices in settings of a file, if there is one, and of the environment. -/
def ofSources? (file : Option (SettingsFormat × String)) (vars : List (String × String)) :
    Option EngineConfig := do
  let written ← match file with
    | some (format, text) => format.read? text
    | none => some []
  let settings := ((Setting.table []).layer written).layer (Environment.settings vars)
  match settings.members.lookup "engine" with
  | some v => ofSetting? v
  | none => some default

end EngineConfig

end Perimeter
