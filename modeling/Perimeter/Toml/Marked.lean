import Perimeter.Settings.Value
import Perimeter.Toml.Moment

/-!
Moments among the settings of a document. A table whose first name is a certain
reserved one is a moment, which the text under that name writes; a moment that
stands as a bare word is kept in the same form. Once the document is complete,
moments become texts.
-/

namespace Perimeter.Toml

/-- The name that marks a moment. -/
def momentName : String := "$__toml_private_datetime"

/-- A moment that a bare word writes. -/
def ofMoment (written : List Char) : Setting :=
  .table [(momentName, .text (String.ofList written))]

/-- The text of a marked moment. -/
def momentText? : Setting → Option Setting
  | .text s => if isMoment .marked s.toList then some (.text s) else none
  | _ => none

mutual

/-- A setting with its moments as texts, unless something else stands where the
text of a moment should be. Beside that text nothing counts. -/
def unmark? : Setting → Option Setting
  | .list vs => (unmarkItems? vs).map .list
  | .table [] => some (.table [])
  | .table ((name, v) :: ms) =>
    if name = momentName then momentText? v
    else do return .table ((name, ← unmark? v) :: (← unmarkMembers? ms))
  | v => some v

def unmarkItems? : List Setting → Option (List Setting)
  | [] => some []
  | v :: vs => do return (← unmark? v) :: (← unmarkItems? vs)

def unmarkMembers? : List (String × Setting) → Option (List (String × Setting))
  | [] => some []
  | (name, v) :: ms => do return (name, ← unmark? v) :: (← unmarkMembers? ms)

end

end Perimeter.Toml
