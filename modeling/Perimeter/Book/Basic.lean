import Perimeter.Book.Key
import Perimeter.Network.Set
import Perimeter.Service.Set

/-!
Books: named groups of networks or of services. A book includes and excludes
literal items and other books, which it names. Network books and service books
differ in their literals and in the sets they stand for, and in nothing else.
-/

namespace Perimeter

/-- One item of a book: a literal, or the name of another book. -/
inductive Entry (Literal : Type) where
  | literal (item : Literal)
  | book (name : String)
deriving DecidableEq

/-- A named group. What it excludes is taken from what it includes. -/
structure Book (Literal : Type) where
  name : String
  scope : Scope
  entries : List (Entry Literal)
  exclusions : List (Entry Literal)
deriving DecidableEq

def Book.key {Literal : Type} (b : Book Literal) : BookKey := ⟨b.scope, b.name⟩

/-- The sets that books with a kind of literal stand for. -/
class BookSet (Literal : Type) (Set : outParam Type) where
  empty : Set
  union : Set → Set → Set
  subtract : Set → Set → Set
  ofLiteral : Literal → Set

abbrev NetworkBook := Book Network

instance : BookSet Network NetworkSet where
  empty := .empty
  union := .union
  subtract := .subtract
  ofLiteral := .ofNetwork

/-- Ports of one protocol, or of every protocol when none is named. -/
structure PortEntry where
  protocol : Option Protocol
  ports : PortRange
deriving DecidableEq

abbrev ServiceBook := Book PortEntry

instance : BookSet PortEntry ServiceSet where
  empty := .empty
  union := .union
  subtract := .subtract
  ofLiteral e := .ofEntries [(e.protocol, e.ports)]

/-- The two kinds of books. -/
inductive BookKind where
  | network
  | service
deriving DecidableEq

def BookKind.text : BookKind → String
  | network => "network"
  | service => "service"

/-- What can be wrong with the books of a snapshot. -/
inductive BookError where
  /-- A book reaches itself; the path names it at both ends. -/
  | cycle (path : List BookKey)
  | unknownReference (name : String) (scope : Scope)
  | duplicate (kind : BookKind) (key : BookKey)
deriving DecidableEq

def BookError.message : BookError → String
  | cycle path => "Book reference cycle: " ++ " -> ".intercalate (path.map BookKey.text)
  | unknownReference name scope =>
    "Unknown book reference '" ++ name ++ "' in scope " ++ scope.text
  | duplicate kind key =>
    "Duplicate " ++ kind.text ++ " book '" ++ key.name ++ "' in scope " ++ key.scope.text

end Perimeter
