import Perimeter.CommandLine.Ending
import Std.Time.Format

/-!
The program. It reads the files that the arguments and the environment name and
leaves all decisions to the library.
-/

namespace Perimeter

/-- The text of a file, if it can be read. -/
def readText? (path : String) : IO (Option String) := do
  try
    return some (← IO.FS.readFile path)
  catch _ =>
    return none

/-- The first of several candidates for the file of settings that exists. -/
def readSettings? : List (String × Option SettingsFormat) → IO (Option (SettingsFormat × String))
  | [] => return none
  | (path, format) :: rest => do
    match ← readText? path with
    | some text => return format.map (·, text)
    | none => readSettings? rest

/-- The variables of the environment of this process. -/
def environment : IO (List (String × String)) := do
  let text := (← readText? "/proc/self/environ").getD ""
  return (text.splitOn "\x00").map fun line =>
    match line.splitOn "=" with
    | name :: rest => (name, "=".intercalate rest)
    | [] => (line, "")

/-- A random identifier and the time. -/
def newStamp : IO Stamp := do
  let bytes ← IO.getRandomBytes 32
  let now := Std.Time.DateTime.ofTimestamp (← Std.Time.Timestamp.now) .UTC
  let time := String.ofList ((toString now).toList.takeWhile (· ≠ '[')) ++ "Z"
  let id := Uuid.ofDigits? (Uuid.randomDigits fun i => (bytes.toList.getD i 0).toNat)
  return ⟨(id.map Uuid.text).getD "", time⟩

end Perimeter

open Perimeter CommandLine in
def main (args : List String) : IO UInt32 := do
  let ending ← match Invocation.ofArguments args with
    | .error stop => pure (.stopped stop)
    | .ok invocation => do
      let file ← readSettings? (SettingsFormat.candidates invocation.config)
      let settings := EngineConfig.ofSources? file (← environment)
      pure (invocation.run settings (← readText? invocation.snapshot) (← newStamp))
  (← IO.getStdout).putStr ending.output
  (← IO.getStderr).putStr ending.errorOutput
  return ending.exitCode
