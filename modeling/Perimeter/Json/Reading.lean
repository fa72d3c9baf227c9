import Perimeter.Json.Token
import Perimeter.Json.Value
import Perimeter.Text.Decimal

/-!
Values from tokens. The reader takes one token at a time and keeps the arrays
and objects that are still open, innermost first, so nesting of any depth costs
no recursion. Exactly one value must be written, and every word in it must be a
literal or a numeral of the format.
-/

namespace Perimeter.Json

/-- Whether a word is a numeral, which may begin with a minus sign. -/
def isNumeral : List Char → Bool
  | '-' :: unsigned => Text.isUnsignedNumeral unsigned
  | unsigned => Text.isUnsignedNumeral unsigned

/-- The value that a bare word writes. -/
def ofWord? (word : List Char) : Option Json :=
  if word = "null".toList then some .null
  else if word = "true".toList then some (.bool true)
  else if word = "false".toList then some (.bool false)
  else if isNumeral word then some (.number word)
  else none

/-- An array or object that is open around the current value, with the parts
before it in reverse. -/
inductive Frame where
  | items (before : List Json)
  | member (before : List (List Char × Json)) (key : List Char)

/-- What the reader expects next, inside which open frames. -/
inductive Expecting where
  /-- A value. -/
  | value (frames : List Frame)
  /-- The first item of an array, or its end. -/
  | firstItem (frames : List Frame)
  /-- The first key of an object, or its end. -/
  | firstKey (frames : List Frame)
  /-- A key after the members before it. -/
  | key (before : List (List Char × Json)) (frames : List Frame)
  /-- The colon after a key. -/
  | colon (before : List (List Char × Json)) (key : List Char) (frames : List Frame)
  /-- The end of the frame around a complete value, or a comma; the end of the
  text outside all frames. -/
  | afterValue (v : Json) (frames : List Frame)

namespace Expecting

/-- The token that begins a value. -/
def begin? (frames : List Frame) : Token → Option Expecting
  | .openBrace => some (firstKey frames)
  | .openBracket => some (firstItem frames)
  | .string written => some (afterValue (.string written) frames)
  | .word written => (ofWord? written).map (afterValue · frames)
  | _ => none

/-- Takes one token, unless it cannot stand here. -/
def step? : Expecting → Token → Option Expecting
  | value frames, t => begin? frames t
  | firstItem frames, .closeBracket => some (afterValue (.array []) frames)
  | firstItem frames, t => begin? (.items [] :: frames) t
  | firstKey frames, .closeBrace => some (afterValue (.object []) frames)
  | firstKey frames, .string k => some (colon [] k frames)
  | key before frames, .string k => some (colon before k frames)
  | colon before k frames, .colon => some (value (.member before k :: frames))
  | afterValue v (.items before :: frames), .comma => some (value (.items (v :: before) :: frames))
  | afterValue v (.items before :: frames), .closeBracket =>
    some (afterValue (.array (v :: before).reverse) frames)
  | afterValue v (.member before k :: frames), .comma => some (key ((k, v) :: before) frames)
  | afterValue v (.member before k :: frames), .closeBrace =>
    some (afterValue (.object ((k, v) :: before).reverse) frames)
  | _, _ => none

end Expecting

/-- The one value that tokens write. -/
def ofTokens? (tokens : List Token) : Option Json :=
  match tokens.foldlM Expecting.step? (.value []) with
  | some (.afterValue v []) => some v
  | _ => none

/-- The value that a text writes. -/
def read? (s : String) : Option Json := (Token.scan? s.toList).bind ofTokens?

end Perimeter.Json
