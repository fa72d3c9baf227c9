import Perimeter.Toml.Table
import Perimeter.Toml.Token
import Perimeter.Toml.Word

/-!
Documents from tokens. The reader takes one token at a time and keeps the lists
and inline tables that are still open, innermost first. Every line is blank, a
header, or a key with its value; only lists go on over several lines.
-/

namespace Perimeter.Toml

/-- What a value is written for. -/
inductive Frame where
  /-- The key of a line. -/
  | entry (path : List String)
  /-- A list, with the items before it in reverse. -/
  | items (before : List Setting)
  /-- A key of an inline table, with the members before it in reverse. -/
  | member (before : List (List String × Setting)) (path : List String)

/-- What the reader expects next. -/
inductive Expecting where
  /-- The first token of a line. -/
  | line
  /-- The header that a bracket began, or its second bracket. -/
  | bracket
  | header (isElement : Bool) (pieces : List KeyPiece)
  /-- The second bracket at the end of a header. -/
  | headerEnd (path : List String)
  | lineEnd
  /-- The rest of a key of a line, and the sign after it. -/
  | key (pieces : List KeyPiece)
  | value (frames : List Frame)
  /-- An item of a list, or its end. -/
  | item (before : List Setting) (frames : List Frame)
  /-- A key of an inline table, or the end of an empty one. -/
  | memberKey (pieces : List KeyPiece) (before : List (List String × Setting))
      (frames : List Frame)
  | afterValue (v : Setting) (frames : List Frame)

namespace Expecting

/-- The pieces of a key that a token spells. -/
def pieces? : Token → Option (List KeyPiece)
  | .string content false => some [.part (String.ofList content)]
  | .word written => keyPieces? written
  | _ => none

/-- Takes the token that begins a value. One of the frames is that of the line,
and the others count as depth. -/
def begin? (frames : List Frame) : Token → Option Expecting
  | .string content _ => some (afterValue (.text (String.ofList content)) frames)
  | .word written => (ofWord? written).map (afterValue · frames)
  | .openBracket => if frames.length < depthLimit then some (item [] frames) else none
  | .openBrace => if frames.length < depthLimit then some (memberKey [] [] frames) else none
  | _ => none

/-- Takes a token after a value that is not the value of a line. -/
def close? (v : Setting) (frames : List Frame) : Frame → Token → Option Expecting
  | .items before, .newline => some (afterValue v (.items before :: frames))
  | .items before, .comma => some (item (v :: before) frames)
  | .items before, .closeBracket => some (afterValue (.list (v :: before).reverse) frames)
  | .member before path, .comma => some (memberKey [] ((path, v) :: before) frames)
  | .member before path, .closeBrace =>
    (Members.inline? ((path, v) :: before).reverse).map (afterValue · frames)
  | _, _ => none

/-- Takes a token of a header. -/
def headerStep? (d : Document) (isElement : Bool) (pieces : List KeyPiece) :
    Token → Option (Document × Expecting)
  | .blank => some (d, header isElement pieces)
  | .closeBracket => do
    let path ← keyPath? pieces
    if isElement then some (d, headerEnd path) else return (← d.enter? false path, lineEnd)
  | t => (pieces? t).map fun more => (d, header isElement (pieces ++ more))

/-- Takes one token, unless it cannot stand here. -/
def step? : Document × Expecting → Token → Option (Document × Expecting)
  | (d, line), .newline | (d, line), .blank => some (d, line)
  | (d, line), .openBracket => some (d, bracket)
  | (d, line), t => (pieces? t).map fun more => (d, key more)
  | (d, bracket), .openBracket => some (d, header true [])
  | (d, bracket), t => headerStep? d false [] t
  | (d, header isElement pieces), t => headerStep? d isElement pieces t
  | (d, headerEnd path), .closeBracket => (d.enter? true path).map (·, lineEnd)
  | (d, lineEnd), .blank => some (d, lineEnd)
  | (d, lineEnd), .newline => some (d, line)
  | (d, key pieces), .blank => some (d, key pieces)
  | (d, key pieces), .equals => (keyPath? pieces).map fun path => (d, value [.entry path])
  | (d, key pieces), t => (pieces? t).map fun more => (d, key (pieces ++ more))
  | (d, value frames), .blank => some (d, value frames)
  | (d, value frames), t => (begin? frames t).map (d, ·)
  | (d, item before frames), .blank | (d, item before frames), .newline =>
    some (d, item before frames)
  | (d, item before frames), .closeBracket => some (d, afterValue (.list before.reverse) frames)
  | (d, item before frames), t => (begin? (.items before :: frames) t).map (d, ·)
  | (d, memberKey pieces before frames), .blank => some (d, memberKey pieces before frames)
  | (d, memberKey [] [] frames), .closeBrace => some (d, afterValue (.table []) frames)
  | (d, memberKey pieces before frames), .equals =>
    (keyPath? pieces).map fun path => (d, value (.member before path :: frames))
  | (d, memberKey pieces before frames), t =>
    (pieces? t).map fun more => (d, memberKey (pieces ++ more) before frames)
  | (d, afterValue v frames), .blank => some (d, afterValue v frames)
  | (d, afterValue v (.entry path :: _)), .newline => (d.insert? path v).map (·, line)
  | (d, afterValue v (frame :: frames)), t => (close? v frames frame t).map (d, ·)
  | _, _ => none

end Expecting

/-- The document that tokens write. The end of the text ends the last line. -/
def ofTokens? (tokens : List Token) : Option Document :=
  match (tokens ++ [Token.newline]).foldlM Expecting.step? (Document.empty, .line) with
  | some (d, .line) => some d
  | _ => none

/-- The settings that a text writes: a table, which may not be a moment. -/
def read? (s : String) : Option (List (String × Setting)) := do
  let d ← ofTokens? (← Token.scan? s.toList)
  match ← unmark? (.table (Members.settings d.root)) with
  | .table ms => some ms
  | _ => none

end Perimeter.Toml
