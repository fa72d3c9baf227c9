/-!
The identity of a book: the scope that defines it and its name. Global books
come before the books of devices, which follow in the order of device and name.
-/

namespace Perimeter

/-- Where a book is defined. -/
inductive Scope where
  | global
  | device (id : String)
deriving DecidableEq

namespace Scope

def text : Scope → String
  | global => "global"
  | device id => "device " ++ id

/-- Global before devices, devices by their text. -/
def lt : Scope → Scope → Bool
  | global, global => false
  | global, device _ => true
  | device _, global => false
  | device a, device b => a < b

end Scope

/-- A book as its scope and name identify it. -/
structure BookKey where
  scope : Scope
  name : String
deriving DecidableEq

namespace BookKey

/-- The name alone for a global book, after the device and a slash otherwise. -/
def text (k : BookKey) : String :=
  match k.scope with
  | .global => k.name
  | .device id => id ++ "/" ++ k.name

/-- The order of books: by scope, then by name. -/
def le (a b : BookKey) : Bool :=
  a.scope.lt b.scope || (a.scope == b.scope && !(b.name < a.name))

end BookKey

end Perimeter
