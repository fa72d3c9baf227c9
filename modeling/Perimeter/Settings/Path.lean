import Perimeter.Settings.Value

/-!
Paths to settings. The key of a setting at the root spells a path: names after
points and positions in square brackets, in any order after the first name. A
setting is put at the end of its path, and the tables and lists on the way are
made where they are missing.
-/

namespace Perimeter

namespace Setting

/-- A step on the way to a setting: into a table or into a list. -/
inductive Step where
  | name (s : String)
  /-- A position in a list. A negative one counts from the end. -/
  | position (n : Int)
deriving DecidableEq

namespace Step

def isNameChar (c : Char) : Bool := c.isAlphanum || c == '_' || c == '-' || c == ' '

def isBlank (c : Char) : Bool := c == ' ' || c == '\t'

/-- The position that a number among blanks names, with no plus sign. -/
def ofPosition? (cs : List Char) : Option Step :=
  let written := ((cs.dropWhile isBlank).reverse.dropWhile isBlank).reverse
  if written.head? = some '+' then none else (Text.readInt64? written).map position

/-- The steps that a stretch between two points spells: a name, and positions
after it. -/
def ofStretch? (cs : List Char) : Option (List Step) :=
  match cs.splitOn '[' with
  | [] => none
  | first :: rest =>
    if first ≠ [] ∧ first.all isNameChar then
      (rest.mapM fun piece =>
        if piece.getLast? = some ']' then ofPosition? piece.dropLast else none).map
          (name (String.ofList first) :: ·)
    else none

end Step

/-- The path that a key spells. A key that spells none is a name by itself. -/
def path (key : String) : List Step :=
  match (key.toList.splitOn '.').mapM Step.ofStretch? with
  | some stretches => stretches.flatten
  | none => [.name key]

/-- Changes the item at a position. Nulls fill the list up to it. -/
def alterItem (n : Int) (f : Setting → Setting) (vs : List Setting) : List Setting :=
  let i := if n < 0 then (vs.length + n).toNat else n.toNat
  (vs ++ List.replicate (i + 1 - vs.length) null).modify i f

/-- A value with another one put at the end of a path in it. Under a name it is
laid over the value before it; a position takes it as it is. -/
def put (v : Setting) : List Step → Setting → Setting
  | [], _ => v
  | [.name s], root => table (alterMember s (overlay · v) root.members)
  | .name s :: rest, root =>
    table (alterMember s (fun before => put v rest (before.getD null)) root.members)
  | .position n :: rest, root => list (alterItem n (put v rest) root.items)

/-- Lays settings over those before, each at the path that its key spells. -/
def layer (root : Setting) (settings : List (String × Setting)) : Setting :=
  settings.foldl (fun root (key, v) => put v (path (smallName key)) root) root

end Setting

end Perimeter
