import Perimeter.Text.Decimal

/-!
Trees of settings. Names of settings count in either case and are kept in small
letters. A later layer is laid over an earlier one: tables are joined name by
name, and any other value takes the place of the one before it.
-/

namespace Perimeter

/-- A value of a setting, as a file or the environment may give it. -/
inductive Setting where
  | null
  | bool (b : Bool)
  | integer (n : Int)
  /-- A number with a fraction or an exponent, or no finite one. All that
  settings ask of it is whether it is zero. -/
  | fraction (isZero : Bool)
  | text (s : String)
  | list (items : List Setting)
  | table (members : List (String × Setting))

namespace Setting

/-- The small form of a character, as far as it is an ASCII letter. Besides the
capital letters, only the Kelvin sign has one. -/
def smallChar (c : Char) : Char := if c = '\u212a' then 'k' else c.toLower

def smallName (s : String) : String := s.map smallChar

/-- A number with a fraction or an exponent, or the name of no finite number. -/
def ofFraction? (cs : List Char) : Option Setting :=
  let unsigned := match cs with
    | '+' :: rest | '-' :: rest => rest
    | _ => cs
  if (String.ofList unsigned).toLower ∈ ["inf", "infinity", "nan"] then some (fraction false)
  else (Text.Decimal.read? unsigned).map fun d => fraction d.isNegligible

/-- The value of a text that may write a truth value or a number. -/
def ofWord (s : String) : Setting :=
  if smallName s = "true" then bool true
  else if smallName s = "false" then bool false
  else match Text.readInt64? s.toList with
    | some n => integer n
    | none => (ofFraction? s.toList).getD (text s)

/-- The members of a table; no other value has any. -/
def members : Setting → List (String × Setting)
  | table ms => ms
  | _ => []

/-- The items of a list; no other value has any. -/
def items : Setting → List Setting
  | list vs => vs
  | _ => []

/-- Changes what stands under a name, or what is to stand there. -/
def alterMember (name : String) (f : Option Setting → Setting) :
    List (String × Setting) → List (String × Setting)
  | [] => [(name, f none)]
  | (k, v) :: rest =>
    if k = name then (k, f (some v)) :: rest else (k, v) :: alterMember name f rest

mutual

/-- A value laid over the value before it, if there is one. An empty table
changes nothing where any value stands. -/
def overlay (before : Option Setting) : Setting → Setting
  | table [] => before.getD (table [])
  | table (m :: ms) => table (overlayMembers ((before.map members).getD []) (m :: ms))
  | v => v

/-- Members laid over those of a table, one after another. -/
def overlayMembers (before : List (String × Setting)) :
    List (String × Setting) → List (String × Setting)
  | [] => before
  | (name, v) :: rest =>
    overlayMembers (alterMember (smallName name) (overlay · v) before) rest

end

end Setting

end Perimeter
