import Mathlib.Logic.Relation
import Perimeter.Book.Catalog
import Perimeter.Proofs.Network.Membership
import Perimeter.Proofs.Service.Exactness

/-!
What books mean, apart from any way to compute it. A book covers a point, an
address or a pair of protocol and port, when some entry does and no exclusion
does. A literal covers the points that lie in it, a name those that the book it
stands for covers. That is a meaning only where every name on the way is found
and no book leads back to itself; such books are called resolvable.
-/

namespace Perimeter

/-- What it takes for a point to lie in a literal of a book or in the set of a
whole book. The operations that build such sets act on the points in them. -/
class BookMeaning (Literal : Type) {Set : outParam Type} (Point : outParam Type)
    [BookSet Literal Set] where
  covers : Literal → Point → Prop
  holds : Set → Point → Prop
  not_holds_empty : ∀ x, ¬holds (BookSet.empty Literal) x
  holds_union : ∀ s t x, holds (BookSet.union Literal s t) x ↔ holds s x ∨ holds t x
  holds_subtract : ∀ s t x, holds (BookSet.subtract Literal s t) x ↔ holds s x ∧ ¬holds t x
  holds_ofLiteral : ∀ item x, holds (BookSet.ofLiteral item) x ↔ covers item x

instance : BookMeaning Network Address where
  covers n a := n.contains a = true
  holds s a := s.contains a = true
  not_holds_empty _ := by simp [BookSet.empty]
  holds_union _ _ _ := NetworkSet.contains_union
  holds_subtract _ _ _ := NetworkSet.contains_subtract
  holds_ofLiteral n _ := NetworkSet.contains_ofNetwork n

/-- An entry without a protocol covers its ports for every protocol. -/
instance : BookMeaning PortEntry (Protocol × UInt16) where
  covers e x := (e.protocol = none ∨ e.protocol = some x.1) ∧ e.ports.lo ≤ x.2 ∧ x.2 ≤ e.ports.hi
  holds s x := s.contains x.1 x.2 = true
  not_holds_empty _ := by simp [BookSet.empty]
  holds_union _ _ _ := ServiceSet.contains_union
  holds_subtract _ _ _ := ServiceSet.contains_subtract
  holds_ofLiteral e x := by
    refine ServiceSet.contains_ofEntries.trans ?_
    simp

namespace Shelf

variable {Literal : Type}

/-- Some entry or exclusion of a book is the name. -/
def Names (shelf : Shelf Literal) (key : BookKey) (name : String) : Prop :=
  ∃ book, shelf.find? key = some book ∧
    (.book name ∈ book.entries ∨ .book name ∈ book.exclusions)

theorem names_of_entries {shelf : Shelf Literal} {key : BookKey} {book : Book Literal}
    (hfind : shelf.find? key = some book) :
    ∀ name, .book name ∈ book.entries → shelf.Names key name :=
  fun _ hname => ⟨book, hfind, Or.inl hname⟩

theorem names_of_exclusions {shelf : Shelf Literal} {key : BookKey} {book : Book Literal}
    (hfind : shelf.find? key = some book) :
    ∀ name, .book name ∈ book.exclusions → shelf.Names key name :=
  fun _ hname => ⟨book, hfind, Or.inr hname⟩

/-- A book names another one, as seen from its own scope. -/
def Refers (shelf : Shelf Literal) (key other : BookKey) : Prop :=
  ∃ name, shelf.Names key name ∧ shelf.lookup? name key.scope = some other

/-- A book is reached through what books name, itself included. -/
abbrev Reaches (shelf : Shelf Literal) : BookKey → BookKey → Prop :=
  Relation.ReflTransGen shelf.Refers

/-- A book that has a meaning: it is there, and among the books that it reaches
every name is found and no book reaches itself again. -/
structure Resolvable (shelf : Shelf Literal) (key : BookKey) : Prop where
  present : shelf.has key = true
  found : ∀ other name, shelf.Reaches key other → shelf.Names other name →
    (shelf.lookup? name other.scope).isSome = true
  acyclic : ∀ other, shelf.Reaches key other → ¬Relation.TransGen shelf.Refers other other

theorem has_of_lookup? {shelf : Shelf Literal} {name : String} {scope : Scope} {key : BookKey}
    (h : shelf.lookup? name scope = some key) : shelf.has key = true := by
  unfold lookup? at h
  split at h
  · rename_i hhere
    cases h
    exact hhere
  · split at h
    · rename_i hglobal
      cases h
      exact hglobal
    · cases h

theorem Resolvable.of_refers {shelf : Shelf Literal} {key other : BookKey}
    (h : shelf.Resolvable key) (hrefers : shelf.Refers key other) : shelf.Resolvable other := by
  obtain ⟨_, _, hlookup⟩ := id hrefers
  refine ⟨has_of_lookup? hlookup, ?_, ?_⟩
  · intro k name hreach
    exact h.found k name (.head hrefers hreach)
  · intro k hreach
    exact h.acyclic k (.head hrefers hreach)

/-- A book is resolvable when all that it names is: a way from the book back to
itself would also lead from the first book on it back to that one. -/
theorem resolvable_of_names {shelf : Shelf Literal} {key : BookKey}
    (hpresent : shelf.has key = true)
    (h : ∀ name, shelf.Names key name →
      ∃ other, shelf.lookup? name key.scope = some other ∧ shelf.Resolvable other) :
    shelf.Resolvable key := by
  have hnext : ∀ other, shelf.Refers key other → shelf.Resolvable other := by
    rintro other ⟨name, hnames, hlookup⟩
    obtain ⟨other', hlookup', hother⟩ := h name hnames
    rw [hlookup] at hlookup'
    exact Option.some.inj hlookup' ▸ hother
  refine ⟨hpresent, ?_, ?_⟩
  · intro other name hreach hnames
    rcases hreach.cases_head with rfl | ⟨next, hrefers, hrest⟩
    · obtain ⟨_, hlookup, _⟩ := h name hnames
      rw [hlookup]
      rfl
    · exact (hnext next hrefers).found other name hrest hnames
  · intro other hreach hloop
    rcases hreach.cases_head with rfl | ⟨next, hrefers, hrest⟩
    · obtain ⟨next, hrefers, hback⟩ := Relation.TransGen.head'_iff.mp hloop
      exact (hnext next hrefers).acyclic key hback hloop
    · exact (hnext next hrefers).acyclic other hrest hloop

/-- A book of literals alone is resolvable. -/
theorem resolvable_of_literals {shelf : Shelf Literal} {key : BookKey} {book : Book Literal}
    (hfind : shelf.find? key = some book)
    (h : ∀ name, .book name ∉ book.entries ++ book.exclusions) : shelf.Resolvable key := by
  have hpresent : shelf.has key = true := by
    rw [has_eq_isSome_find?, hfind]
    rfl
  apply resolvable_of_names hpresent
  rintro name ⟨book', hfind', hname⟩
  cases Option.some.inj (hfind.symm.trans hfind')
  exact absurd (List.mem_append.mpr hname) (h name)

variable {Set Point : Type} [BookSet Literal Set] [BookMeaning Literal Point]

/-- An item covers a point, when the books that names stand for cover what `M`
says: a literal that it lies in, or a name whose book covers it. -/
def ItemCovers (shelf : Shelf Literal) (M : BookKey → Point → Prop) (scope : Scope)
    (x : Point) : Entry Literal → Prop
  | .literal item => BookMeaning.covers item x
  | .book name => ∃ key, shelf.lookup? name scope = some key ∧ M key x

def Covers (shelf : Shelf Literal) (M : BookKey → Point → Prop) (scope : Scope)
    (items : List (Entry Literal)) (x : Point) : Prop :=
  ∃ item ∈ items, shelf.ItemCovers M scope x item

/-- `M` gives every book that a key reaches its meaning: what some entry covers
and no exclusion does. -/
def Interprets (shelf : Shelf Literal) (M : BookKey → Point → Prop) (key : BookKey) : Prop :=
  ∀ other book, shelf.Reaches key other → shelf.find? other = some book → ∀ x,
    M other x ↔ shelf.Covers M other.scope book.entries x ∧
      ¬shelf.Covers M other.scope book.exclusions x

/-- A book means a set of points: what it reaches can be given meanings, and its
own meaning is the set, however that is done. -/
def Means (shelf : Shelf Literal) (key : BookKey) (P : Point → Prop) : Prop :=
  (∃ M : BookKey → Point → Prop, shelf.Interprets M key) ∧
    ∀ M : BookKey → Point → Prop, shelf.Interprets M key → ∀ x, P x ↔ M key x

theorem Interprets.of_refers {shelf : Shelf Literal} {M : BookKey → Point → Prop}
    {key other : BookKey} (h : shelf.Interprets M key) (hrefers : shelf.Refers key other) :
    shelf.Interprets M other :=
  fun k book hreach => h k book (.head hrefers hreach)

end Shelf

end Perimeter
