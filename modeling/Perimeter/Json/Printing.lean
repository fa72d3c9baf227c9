import Perimeter.Json.Value

/-!
The text of JSON values, in two layouts: compact, without any blanks, and
indented by two blanks for each level with one item on a line.
-/

namespace Perimeter.Json

def quoted (written : List Char) : List Char := '"' :: (written ++ ['"'])

mutual

/-- The value without blanks. -/
def compact : Json → List Char
  | .null => "null".toList
  | .bool true => "true".toList
  | .bool false => "false".toList
  | .number written => written
  | .string written => quoted written
  | .array [] => ['[', ']']
  | .array (v :: vs) => '[' :: (compact v ++ compactItems vs)
  | .object [] => ['\x7b', '\x7d']
  | .object ((k, v) :: ms) => '\x7b' :: (quoted k ++ ':' :: (compact v ++ compactMembers ms))

/-- The items after the first, each after a comma, and the closing bracket. -/
def compactItems : List Json → List Char
  | [] => [']']
  | v :: vs => ',' :: (compact v ++ compactItems vs)

/-- The members after the first, each after a comma, and the closing brace. -/
def compactMembers : List (List Char × Json) → List Char
  | [] => ['\x7d']
  | (k, v) :: ms => ',' :: (quoted k ++ ':' :: (compact v ++ compactMembers ms))

end

/-- The value as text without blanks. -/
def compactText (v : Json) : String := String.ofList v.compact

/-- The end of a line and the blanks that begin the next one. -/
def newLine (depth : Nat) : List Char := '\n' :: List.replicate (2 * depth) ' '

mutual

/-- The value at some depth of indentation, without the blanks before it. -/
def indented (depth : Nat) : Json → List Char
  | .null => "null".toList
  | .bool true => "true".toList
  | .bool false => "false".toList
  | .number written => written
  | .string written => quoted written
  | .array [] => ['[', ']']
  | .array (v :: vs) =>
    '[' :: (newLine (depth + 1) ++ indented (depth + 1) v ++ indentedItems depth vs)
  | .object [] => ['\x7b', '\x7d']
  | .object ((k, v) :: ms) =>
    '\x7b' :: (newLine (depth + 1) ++ quoted k ++ ':' :: ' ' :: indented (depth + 1) v ++
      indentedMembers depth ms)

def indentedItems (depth : Nat) : List Json → List Char
  | [] => newLine depth ++ [']']
  | v :: vs => ',' :: (newLine (depth + 1) ++ indented (depth + 1) v ++ indentedItems depth vs)

def indentedMembers (depth : Nat) : List (List Char × Json) → List Char
  | [] => newLine depth ++ ['\x7d']
  | (k, v) :: ms =>
    ',' :: (newLine (depth + 1) ++ quoted k ++ ':' :: ' ' :: indented (depth + 1) v ++
      indentedMembers depth ms)

end

/-- The value as indented text. -/
def indentedText (v : Json) : String := String.ofList (v.indented 0)

end Perimeter.Json
