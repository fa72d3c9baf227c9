import Perimeter.Book.Resolution

/-!
A resolver answers questions about the books of a catalog one after another. It
reads the books resolved before it was made and remembers what it resolves
itself. A question that fails leaves behind what it completed on the way, and
nothing else.
-/

namespace Perimeter

/-- A catalog, and the tables of books resolved before. -/
structure Resolver where
  catalog : Catalog
  shared : BookTables

/-- Work of a resolver: it may fail, and keeps what it has resolved either way. -/
abbrev Resolving := ExceptT BookError (StateM BookTables)

/-- What a resolver can be asked: a name as seen from a scope, or an exact key. -/
inductive BookQuestion where
  | network (name : String) (scope : Scope)
  | service (name : String) (scope : Scope)
  | networkAt (key : BookKey)
  | serviceAt (key : BookKey)
deriving DecidableEq

/-- The set that a book stands for. -/
inductive BookAnswer where
  | network (set : NetworkSet)
  | service (set : ServiceSet)
deriving DecidableEq

namespace Resolver

/-- Work on the table of network books. -/
def onNetworks (work : Table NetworkSet → Except BookError NetworkSet × Table NetworkSet) :
    Resolving NetworkSet :=
  ExceptT.mk fun done =>
    let (answer, networks) := work done.networks
    (answer, { done with networks })

/-- Work on the table of service books. -/
def onServices (work : Table ServiceSet → Except BookError ServiceSet × Table ServiceSet) :
    Resolving ServiceSet :=
  ExceptT.mk fun done =>
    let (answer, services) := work done.services
    (answer, { done with services })

def network (r : Resolver) (name : String) (scope : Scope) : Resolving NetworkSet :=
  onNetworks (resolveName r.catalog.networks r.shared.networks name scope)

def service (r : Resolver) (name : String) (scope : Scope) : Resolving ServiceSet :=
  onServices (resolveName r.catalog.services r.shared.services name scope)

def networkAt (r : Resolver) (key : BookKey) : Resolving NetworkSet :=
  onNetworks (resolveKey r.catalog.networks r.shared.networks [] key)

def serviceAt (r : Resolver) (key : BookKey) : Resolving ServiceSet :=
  onServices (resolveKey r.catalog.services r.shared.services [] key)

def ask (r : Resolver) : BookQuestion → Resolving BookAnswer
  | .network name scope => .network <$> r.network name scope
  | .service name scope => .service <$> r.service name scope
  | .networkAt key => .network <$> r.networkAt key
  | .serviceAt key => .service <$> r.serviceAt key

/-- The answers to a list of questions, asked in order, and what was resolved. -/
def askAll (r : Resolver) (questions : List BookQuestion) :
    List (Except BookError BookAnswer) × BookTables :=
  (questions.mapM fun q => (r.ask q).run).run .empty

/-- Resolves every book of a scope: network books first, each kind in catalog order. -/
def resolveScope (r : Resolver) (scope : Scope) : Resolving Unit := do
  (r.catalog.networks.books.filter (·.scope = scope)).forM fun b => discard (r.networkAt b.key)
  (r.catalog.services.books.filter (·.scope = scope)).forM fun b => discard (r.serviceAt b.key)

end Resolver

end Perimeter
