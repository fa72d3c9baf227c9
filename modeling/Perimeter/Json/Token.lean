import Perimeter.Text.Numeral

/-!
Tokens of the JSON format. Between blanks and punctuation, everything that is
not a string is one word; what words mean is decided later. Inside a string
only the form of escapes is checked, and raw control characters are refused.
-/

namespace Perimeter.Json

/-- A piece of JSON text: punctuation, a string or a bare word. -/
inductive Token where
  | openBrace
  | closeBrace
  | openBracket
  | closeBracket
  | colon
  | comma
  | string (written : List Char)
  | word (written : List Char)
deriving DecidableEq

namespace Token

def isBlank (c : Char) : Bool := c == ' ' || c == '\n' || c == '\t' || c == '\r'

def punctuation? : Char → Option Token
  | '{' => some openBrace
  | '}' => some closeBrace
  | '[' => some openBracket
  | ']' => some closeBracket
  | ':' => some colon
  | ',' => some comma
  | _ => none

/-- Where in a token a text stands. The characters seen of it are reversed. -/
inductive Place where
  | between
  | inWord (seen : List Char)
  | inString (seen : List Char)
  | afterBackslash (seen : List Char)
  | inCode (missing : Nat) (seen : List Char)

/-- The tokens of a text that begins at a place. -/
def scanFrom : Place → List Char → Option (List Token)
  | .between, [] => some []
  | .inWord seen, [] => some [word seen.reverse]
  | _, [] => none
  | .between, c :: rest =>
    if isBlank c then scanFrom .between rest
    else if c = '"' then scanFrom (.inString []) rest
    else match punctuation? c with
      | some t => (scanFrom .between rest).map (t :: ·)
      | none => scanFrom (.inWord [c]) rest
  | .inWord seen, c :: rest =>
    if isBlank c then (scanFrom .between rest).map (word seen.reverse :: ·)
    else if c = '"' then (scanFrom (.inString []) rest).map (word seen.reverse :: ·)
    else match punctuation? c with
      | some t => (scanFrom .between rest).map (word seen.reverse :: t :: ·)
      | none => scanFrom (.inWord (c :: seen)) rest
  | .inString seen, c :: rest =>
    if c = '"' then (scanFrom .between rest).map (string seen.reverse :: ·)
    else if c = '\\' then scanFrom (.afterBackslash (c :: seen)) rest
    else if c.toNat < 32 then none
    else scanFrom (.inString (c :: seen)) rest
  | .afterBackslash seen, c :: rest =>
    if c = 'u' then scanFrom (.inCode 4 (c :: seen)) rest
    else if c ∈ ['"', '\\', '/', 'b', 'f', 'n', 'r', 't'] then
      scanFrom (.inString (c :: seen)) rest
    else none
  | .inCode missing seen, c :: rest =>
    if (Text.digitValue? 16 c).isNone then none
    else if missing ≤ 1 then scanFrom (.inString (c :: seen)) rest
    else scanFrom (.inCode (missing - 1) (c :: seen)) rest

/-- The tokens of a text, unless a string in it is malformed or unfinished. -/
def scan? (cs : List Char) : Option (List Token) := scanFrom .between cs

end Token

end Perimeter.Json
