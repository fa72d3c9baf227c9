import Perimeter.Settings.Value

/-!
Tables of a TOML document while it is read. A table remembers how it came to
be, since that decides what may still be added to it: a header may open a table
that longer headers only implied, but nothing is written twice, and keys with
points reach only into tables that such keys made.
-/

namespace Perimeter.Toml

/-- How a table came to be. -/
inductive Origin where
  /-- It lies on the way to the table of a header. -/
  | implied
  /-- It lies on the way to the value of a key with points. -/
  | dotted
  | header
deriving DecidableEq

/-- What stands under a name: a value, a table, or a list of tables, the last
one first. -/
inductive Node where
  | value (v : Setting)
  | table (origin : Origin) (members : List (String × Node))
  | tables (elements : List (List (String × Node)))

abbrev Members := List (String × Node)

namespace Members

/-- Changes what stands under a name, or what is to stand there. -/
def alter? (name : String) (f : Option Node → Option Node) : Members → Option Members
  | [] => (f none).map fun node => [(name, node)]
  | (k, node) :: rest =>
    if k = name then (f (some node)).map fun node => (k, node) :: rest
    else (alter? name f rest).map ((k, node) :: ·)

/-- Changes the table at the end of a path of headers. Missing tables on the way
are implied, and a list of tables stands for its last one. -/
def within? (f : Members → Option Members) : List String → Members → Option Members
  | [], members => f members
  | name :: rest, members => members.alter? name fun
    | none => (within? f rest []).map (.table .implied)
    | some (.table origin inner) => (within? f rest inner).map (.table origin)
    | some (.tables (last :: before)) =>
      (within? f rest last).map fun last => .tables (last :: before)
    | some _ => none

/-- Writes a value under a key of one or more parts. -/
def insert? (v : Setting) : List String → Members → Option Members
  | [], _ => none
  | [name], members => members.alter? name fun
    | none => some (.value v)
    | some _ => none
  | name :: rest, members => members.alter? name fun
    | none => (insert? v rest []).map (.table .dotted)
    | some (.table .dotted inner) => (insert? v rest inner).map (.table .dotted)
    | some (.table .implied inner) =>
      if 1 < rest.length then (insert? v rest inner).map (.table .implied) else none
    | some (.tables (last :: before)) =>
      if 1 < rest.length then (insert? v rest last).map fun last => .tables (last :: before)
      else none
    | some _ => none

/-- Opens a table that was at most implied so far. It comes after all names
before it. -/
def openTable? (name : String) (members : Members) : Option Members :=
  let others := members.filter (·.1 ≠ name)
  match members.lookup name with
  | none => some (others ++ [(name, .table .header [])])
  | some (.table .implied inner) => some (others ++ [(name, .table .header inner)])
  | some _ => none

/-- Adds an empty table to a list of tables. -/
def openElement? (name : String) (members : Members) : Option Members :=
  members.alter? name fun
    | none => some (.tables [[]])
    | some (.tables elements) => some (.tables ([] :: elements))
    | some _ => none

mutual

/-- The value that a node amounts to. -/
def nodeSetting : Node → Setting
  | .value v => v
  | .table _ members => .table (settings members)
  | .tables elements => .list (elementSettings elements).reverse

/-- The values under the names of a table. -/
def settings : List (String × Node) → List (String × Setting)
  | [] => []
  | (name, node) :: rest => (name, nodeSetting node) :: settings rest

def elementSettings : List (List (String × Node)) → List Setting
  | [] => []
  | members :: rest => .table (settings members) :: elementSettings rest

end

/-- The table of values under keys, written between braces. -/
def inline? (entries : List (List String × Setting)) : Option Setting :=
  (entries.foldlM (fun members (path, v) => insert? v path members) []).map
    fun members => .table (settings members)

end Members

/-- A document read so far: its tables, and the header that the next lines
belong to. -/
structure Document where
  root : Members
  header : List String

namespace Document

def empty : Document := ⟨[], []⟩

/-- Writes a value under a key, in the table of the current header. -/
def insert? (d : Document) (path : List String) (v : Setting) : Option Document :=
  (Members.within? (Members.insert? v path) d.header d.root).map (⟨·, d.header⟩)

/-- Takes a header, of a table or of an element of a list of tables. -/
def enter? (d : Document) (isElement : Bool) (path : List String) : Option Document := do
  let name ← path.getLast?
  let opened := if isElement then Members.openElement? name else Members.openTable? name
  return ⟨← Members.within? opened path.dropLast d.root, path⟩

end Document

end Perimeter.Toml
