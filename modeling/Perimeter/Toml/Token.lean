import Perimeter.Toml.Moment

/-!
Tokens of the TOML format. Comments are passed over, and strings are read in
full: basic strings between double quotes, with escapes, and literal strings
between single quotes, each on one line or, between three quotes, on several.
Everything else between blanks and punctuation is one word. Lines end with a
line feed here; a carriage return before it is removed beforehand.
-/

namespace Perimeter.Toml

/-- A piece of TOML text. -/
inductive Token where
  | newline
  | blank
  | openBracket
  | closeBracket
  | openBrace
  | closeBrace
  | equals
  | comma
  | string (content : List Char) (manyLines : Bool)
  | word (written : List Char)
deriving DecidableEq

namespace Token

def punctuation? : Char → Option Token
  | '\n' => some newline
  | ' ' | '\t' => some blank
  | '[' => some openBracket
  | ']' => some closeBracket
  | '\x7b' => some openBrace
  | '\x7d' => some closeBrace
  | '=' => some equals
  | ',' => some comma
  | _ => none

/-- Where in a token a text stands. The characters seen of it are reversed. A
string is known by its quote. -/
inductive Place where
  | between
  | comment
  | inWord (seen : List Char)
  /-- After the blank that follows a date: a time of day may continue it. -/
  | afterDate (seen : List Char)
  /-- After one or two quotes of the same kind. -/
  | opened (quote : Char)
  | openedTwice (quote : Char)
  | inString (quote : Char) (seen : List Char)
  /-- After three quotes: the end of the line does not count. -/
  | begun (quote : Char)
  /-- In a string of many lines, after a run of quotes. -/
  | inLines (quote : Char) (run : Nat) (seen : List Char)
  | afterBackslash (manyLines : Bool) (seen : List Char)
  | inCode (manyLines : Bool) (missing value : Nat) (seen : List Char)
  /-- After a backslash and blanks that the end of the line must follow. -/
  | folding (seen : List Char)
  /-- After the end of that line, among blanks and empty lines. -/
  | folded (seen : List Char)

def isControl (c : Char) : Bool := (c.toNat < 32 && c ≠ '\t') || c.toNat == 127

def isQuote (c : Char) : Bool := c == '"' || c == '\''

/-- What a character outside all tokens begins. -/
def begin? (c : Char) : List Token × Place :=
  match punctuation? c with
  | some t => ([t], .between)
  | none =>
    if c = '#' then ([], .comment)
    else if isQuote c then ([], .opened c)
    else ([], .inWord [c])

/-- A finished token, and what the next character begins. -/
def then? (t : Token) (c : Char) : Option (List Token × Place) :=
  let (ts, place) := begin? c
  some (t :: ts, place)

/-- Back in the string around an escape. -/
def resume (manyLines : Bool) (seen : List Char) : Place :=
  if manyLines then .inLines '"' 0 seen else .inString '"' seen

/-- The character that a letter after a backslash stands for. -/
def escaped? : Char → Option Char
  | 'b' => some '\x08'
  | 't' => some '\t'
  | 'n' => some '\n'
  | 'f' => some '\x0c'
  | 'r' => some '\r'
  | '"' => some '"'
  | '\\' => some '\\'
  | _ => none

/-- Takes a character of a string on one line. -/
def stringStep? (quote : Char) (seen : List Char) (c : Char) : Option (List Token × Place) :=
  if c = quote then some ([string seen.reverse false], .between)
  else if isControl c then none
  else if c = '\\' ∧ quote = '"' then some ([], .afterBackslash false seen)
  else some ([], .inString quote (c :: seen))

/-- Takes a character of a string of many lines. Three quotes end it, and one or
two before them belong to it. -/
def linesStep? (quote : Char) (run : Nat) (seen : List Char) (c : Char) :
    Option (List Token × Place) :=
  if c = quote then
    if run = 5 then then? (string (seen.drop 3).reverse true) c
    else some ([], .inLines quote (run + 1) (c :: seen))
  else if 3 ≤ run then then? (string (seen.drop 3).reverse true) c
  else if isControl c ∧ c ≠ '\n' then none
  else if c = '\\' ∧ quote = '"' then some ([], .afterBackslash true seen)
  else some ([], .inLines quote 0 (c :: seen))

/-- Takes one character: the tokens it completes, and where it leads. -/
def step? : Place → Char → Option (List Token × Place)
  | .between, c => some (begin? c)
  | .comment, c =>
    if c = '\n' then some ([newline], .between)
    else if isControl c then none
    else some ([], .comment)
  | .inWord seen, c =>
    if c = ' ' ∧ isDate seen.reverse then some ([], .afterDate seen)
    else if (punctuation? c).isSome ∨ c = '#' ∨ isQuote c then then? (word seen.reverse) c
    else some ([], .inWord (c :: seen))
  | .afterDate seen, c =>
    if c.isDigit then some ([], .inWord (c :: ' ' :: seen)) else then? (word seen.reverse) c
  | .opened quote, c =>
    if c = quote then some ([], .openedTwice quote) else stringStep? quote [] c
  | .openedTwice quote, c =>
    if c = quote then some ([], .begun quote) else then? (string [] false) c
  | .inString quote seen, c => stringStep? quote seen c
  | .begun quote, c =>
    if c = '\n' then some ([], .inLines quote 0 []) else linesStep? quote 0 [] c
  | .inLines quote run seen, c => linesStep? quote run seen c
  | .afterBackslash manyLines seen, c =>
    match escaped? c with
    | some e => some ([], resume manyLines (e :: seen))
    | none =>
      if c = 'u' then some ([], .inCode manyLines 4 0 seen)
      else if c = 'U' then some ([], .inCode manyLines 8 0 seen)
      else if manyLines ∧ c = '\n' then some ([], .folded seen)
      else if manyLines ∧ (c = ' ' ∨ c = '\t') then some ([], .folding seen)
      else none
  | .inCode manyLines missing value seen, c =>
    match Text.digitValue? 16 c with
    | none => none
    | some d =>
      let n := 16 * value + d
      if 1 < missing then some ([], .inCode manyLines (missing - 1) n seen)
      else if n.isValidChar then some ([], resume manyLines (Char.ofNat n :: seen))
      else none
  | .folding seen, c =>
    if c = '\n' then some ([], .folded seen)
    else if c = ' ' ∨ c = '\t' then some ([], .folding seen)
    else none
  | .folded seen, c =>
    if c = '\n' ∨ c = ' ' ∨ c = '\t' then some ([], .folded seen) else linesStep? '"' 0 seen c

/-- The token that the end of the text completes. -/
def finish? : Place → Option (List Token)
  | .between | .comment => some []
  | .inWord seen | .afterDate seen => some [word seen.reverse]
  | .openedTwice _ => some [string [] false]
  | .inLines _ run seen => if 3 ≤ run then some [string (seen.drop 3).reverse true] else none
  | _ => none

/-- The tokens of a text that begins at a place. -/
def scanFrom? (place : Place) : List Char → Option (List Token)
  | [] => finish? place
  | c :: rest => do
    let (ts, next) ← step? place c
    return ts ++ (← scanFrom? next rest)

/-- Lines that end with a carriage return and a line feed, with the line feed
alone. -/
def plainLines : List Char → List Char
  | '\r' :: '\n' :: rest => '\n' :: plainLines rest
  | c :: rest => c :: plainLines rest
  | [] => []

/-- The tokens of a text, which may begin with a byte order mark. -/
def scan? (cs : List Char) : Option (List Token) :=
  match cs with
  | '\ufeff' :: rest => scanFrom? .between (plainLines rest)
  | _ => scanFrom? .between (plainLines cs)

end Token

end Perimeter.Toml
