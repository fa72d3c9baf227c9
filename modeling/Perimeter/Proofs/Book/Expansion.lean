import Perimeter.Proofs.Book.Meaning

/-!
Expansion of books as a relation, without the table that a resolver keeps. A
book expands to its entries less its exclusions, and a list of items to the
union of what they stand for. Where that goes wrong is a second relation, which
knows the books on the way to the current one. Books that expand are resolvable
and expand to what they mean; where expansion fails they are not.
-/

namespace Perimeter

namespace Shelf

/-- What is expanded: the book under a key, or items as seen from a scope. -/
inductive Subject (Literal : Type) where
  | book (key : BookKey)
  | items (scope : Scope) (entries : List (Entry Literal))

variable {Literal Set Point : Type} [BookSet Literal Set]

/-- What a subject expands to. -/
inductive Expands (shelf : Shelf Literal) : Subject Literal → Set → Prop where
  | book {key : BookKey} {book : Book Literal} {included excluded : Set}
      (hfind : shelf.find? key = some book)
      (hentries : Expands shelf (.items key.scope book.entries) included)
      (hexclusions : Expands shelf (.items key.scope book.exclusions) excluded) :
      Expands shelf (.book key) (BookSet.subtract Literal included excluded)
  | nil {scope : Scope} : Expands shelf (.items scope []) (BookSet.empty Literal)
  | literal {scope : Scope} {item : Literal} {rest : List (Entry Literal)} {set : Set}
      (hrest : Expands shelf (.items scope rest) set) :
      Expands shelf (.items scope (.literal item :: rest))
        (BookSet.union Literal (BookSet.ofLiteral item) set)
  | reference {scope : Scope} {name : String} {key : BookKey} {rest : List (Entry Literal)}
      {nested set : Set} (hlookup : shelf.lookup? name scope = some key)
      (hnested : Expands shelf (.book key) nested)
      (hrest : Expands shelf (.items scope rest) set) :
      Expands shelf (.items scope (.book name :: rest)) (BookSet.union Literal nested set)

/-- What the expansion of a subject runs into, when it comes there by way of the
books of a path. The first thing that goes wrong counts. -/
inductive Fails (shelf : Shelf Literal) : List BookKey → Subject Literal → BookError → Prop where
  | cycle {path : List BookKey} {key : BookKey} (hon : key ∈ path) :
      Fails shelf path (.book key) (.cycle (path.dropWhile (· ≠ key) ++ [key]))
  | missing {path : List BookKey} {key : BookKey} (hoff : key ∉ path)
      (hfind : shelf.find? key = none) :
      Fails shelf path (.book key) (.unknownReference key.name key.scope)
  | entries {path : List BookKey} {key : BookKey} {book : Book Literal} {e : BookError}
      (hoff : key ∉ path) (hfind : shelf.find? key = some book)
      (hentries : Fails shelf (path ++ [key]) (.items key.scope book.entries) e) :
      Fails shelf path (.book key) e
  | exclusions {path : List BookKey} {key : BookKey} {book : Book Literal} {included : Set}
      {e : BookError} (hoff : key ∉ path) (hfind : shelf.find? key = some book)
      (hentries : shelf.Expands (.items key.scope book.entries) included)
      (hexclusions : Fails shelf (path ++ [key]) (.items key.scope book.exclusions) e) :
      Fails shelf path (.book key) e
  | literal {path : List BookKey} {scope : Scope} {item : Literal}
      {rest : List (Entry Literal)} {e : BookError}
      (hrest : Fails shelf path (.items scope rest) e) :
      Fails shelf path (.items scope (.literal item :: rest)) e
  | unknown {path : List BookKey} {scope : Scope} {name : String}
      {rest : List (Entry Literal)} (hlookup : shelf.lookup? name scope = none) :
      Fails shelf path (.items scope (.book name :: rest)) (.unknownReference name scope)
  | nested {path : List BookKey} {scope : Scope} {name : String} {key : BookKey}
      {rest : List (Entry Literal)} {e : BookError}
      (hlookup : shelf.lookup? name scope = some key) (hnested : Fails shelf path (.book key) e) :
      Fails shelf path (.items scope (.book name :: rest)) e
  | later {path : List BookKey} {scope : Scope} {name : String} {key : BookKey}
      {rest : List (Entry Literal)} {set : Set} {e : BookError}
      (hlookup : shelf.lookup? name scope = some key) (hnested : shelf.Expands (.book key) set)
      (hrest : Fails shelf path (.items scope rest) e) :
      Fails shelf path (.items scope (.book name :: rest)) e

variable {shelf : Shelf Literal}

theorem Expands.unique {subject : Subject Literal} {s t : Set} (hs : shelf.Expands subject s)
    (ht : shelf.Expands subject t) : s = t := by
  induction hs generalizing t with
  | book hfind _ _ ihentries ihexclusions =>
    cases ht with
    | book hfind' hentries hexclusions =>
      cases Option.some.inj (hfind.symm.trans hfind')
      rw [ihentries hentries, ihexclusions hexclusions]
  | nil =>
    cases ht
    rfl
  | literal _ ih =>
    cases ht with
    | literal hrest => rw [ih hrest]
  | reference hlookup _ _ ihnested ihrest =>
    cases ht with
    | reference hlookup' hnested hrest =>
      cases Option.some.inj (hlookup.symm.trans hlookup')
      rw [ihnested hnested, ihrest hrest]

/-- A property of all that a subject names: of the key of a book, and of what is
found for each name among items. -/
def Each (shelf : Shelf Literal) (P : Option BookKey → Prop) : Subject Literal → Prop
  | .book key => P (some key)
  | .items scope entries => ∀ name, .book name ∈ entries → P (shelf.lookup? name scope)

section Each

variable {P : Option BookKey → Prop} {scope : Scope} {rest : List (Entry Literal)}

theorem each_nil : shelf.Each P (.items scope []) := by
  intro name hname
  cases hname

theorem Each.literal (h : shelf.Each P (.items scope rest)) (item : Literal) :
    shelf.Each P (.items scope (.literal item :: rest)) := by
  intro name hname
  rcases List.mem_cons.mp hname with hhead | hrest
  · cases hhead
  · exact h name hrest

theorem Each.reference (h : shelf.Each P (.items scope rest)) {name : String} {key : BookKey}
    (hlookup : shelf.lookup? name scope = some key) (hkey : P (some key)) :
    shelf.Each P (.items scope (.book name :: rest)) := by
  intro other hother
  rcases List.mem_cons.mp hother with hhead | hrest
  · cases hhead
    rw [hlookup]
    exact hkey
  · exact h other hrest

theorem Each.head {name : String} {key : BookKey}
    (h : shelf.Each P (.items scope (.book name :: rest)))
    (hlookup : shelf.lookup? name scope = some key) : P (some key) := by
  rw [← hlookup]
  exact h name List.mem_cons_self

theorem Each.tail {item : Entry Literal} (h : shelf.Each P (.items scope (item :: rest))) :
    shelf.Each P (.items scope rest) :=
  fun name hname => h name (List.mem_cons_of_mem _ hname)

end Each

/-- Every name in a subject stands for a resolvable book. -/
def Settled (shelf : Shelf Literal) : Subject Literal → Prop :=
  shelf.Each fun key? => key?.elim False shelf.Resolvable

theorem Expands.settled {subject : Subject Literal} {set : Set}
    (h : shelf.Expands subject set) : shelf.Settled subject := by
  induction h with
  | @book key book _ _ hfind _ _ ihentries ihexclusions =>
    have hpresent : shelf.has key = true := by
      rw [has_eq_isSome_find?, hfind]
      rfl
    refine resolvable_of_names hpresent ?_
    rintro name ⟨book', hfind', hname⟩
    cases Option.some.inj (hfind.symm.trans hfind')
    have hother := hname.elim (ihentries name) (ihexclusions name)
    cases hlookup : shelf.lookup? name key.scope with
    | none =>
      rw [hlookup] at hother
      exact hother.elim
    | some other =>
      rw [hlookup] at hother
      exact ⟨other, rfl, hother⟩
  | nil => exact each_nil
  | literal _ ih => exact ih.literal _
  | reference hlookup _ _ ihnested ihrest => exact ihrest.reference hlookup ihnested

/-- Each book of a path leads on to every book that a subject names. -/
def LeadsTo (shelf : Shelf Literal) (path : List BookKey) : Subject Literal → Prop :=
  shelf.Each fun key? => key?.elim True fun key => ∀ k ∈ path, Relation.TransGen shelf.Refers k key

/-- What a resolvable book names is settled. -/
theorem Resolvable.settled_items {key : BookKey} {items : List (Entry Literal)}
    (h : shelf.Resolvable key) (hnames : ∀ name, .book name ∈ items → shelf.Names key name) :
    shelf.Settled (.items key.scope items) := by
  intro name hname
  obtain ⟨other, hlookup⟩ := Option.isSome_iff_exists.mp (h.found key name .refl (hnames name hname))
  rw [hlookup]
  exact h.of_refers ⟨name, hnames name hname, hlookup⟩

/-- Entering a book puts it on the path, and it leads on to all that it names. -/
theorem LeadsTo.enter {path : List BookKey} {key : BookKey} {items : List (Entry Literal)}
    (h : shelf.LeadsTo path (.book key))
    (hnames : ∀ name, .book name ∈ items → shelf.Names key name) :
    shelf.LeadsTo (path ++ [key]) (.items key.scope items) := by
  intro name hname
  cases hlookup : shelf.lookup? name key.scope with
  | none => exact trivial
  | some other =>
    have hrefers : shelf.Refers key other := ⟨name, hnames name hname, hlookup⟩
    intro k hk
    rcases List.mem_append.mp hk with hpath | hkey
    · exact (h k hpath).tail hrefers
    · rw [List.mem_singleton.mp hkey]
      exact .single hrefers

/-- Where expansion fails, some book is not resolvable. The induction carries
that the path leads to the subject, so a key met again on it reaches itself. -/
theorem Fails.not_settled {path : List BookKey} {subject : Subject Literal} {e : BookError}
    (h : shelf.Fails path subject e) (hleads : shelf.LeadsTo path subject) :
    ¬shelf.Settled subject := by
  intro hsettled
  induction h with
  | @cycle _ key hon => exact Resolvable.acyclic hsettled key .refl (hleads key hon)
  | missing _ hfind =>
    have hpresent := Resolvable.present hsettled
    rw [has_eq_isSome_find?, hfind] at hpresent
    cases hpresent
  | entries _ hfind _ ih =>
    have hnames := names_of_entries hfind
    exact ih (hleads.enter hnames) (Resolvable.settled_items hsettled hnames)
  | exclusions _ hfind _ _ ih =>
    have hnames := names_of_exclusions hfind
    exact ih (hleads.enter hnames) (Resolvable.settled_items hsettled hnames)
  | literal _ ih => exact ih (Each.tail hleads) (Each.tail hsettled)
  | unknown hlookup =>
    have hnone := hsettled _ List.mem_cons_self
    rw [hlookup] at hnone
    exact hnone
  | nested hlookup _ ih => exact ih (Each.head hleads hlookup) (Each.head hsettled hlookup)
  | later _ _ _ ih => exact ih (Each.tail hleads) (Each.tail hsettled)

variable [BookMeaning Literal Point]

theorem covers_cons {M : BookKey → Point → Prop} {scope : Scope} {item : Entry Literal}
    {rest : List (Entry Literal)} {x : Point} :
    shelf.Covers M scope (item :: rest) x ↔
      shelf.ItemCovers M scope x item ∨ shelf.Covers M scope rest x := by
  simp [Covers]

/-- `M` gives all that a subject names its meaning. -/
def Interpreted (shelf : Shelf Literal) (M : BookKey → Point → Prop) : Subject Literal → Prop :=
  shelf.Each fun key? => key?.elim True (shelf.Interprets M)

/-- The points that a subject covers by `M`. -/
def SubjectCovers (shelf : Shelf Literal) (M : BookKey → Point → Prop) (x : Point) :
    Subject Literal → Prop
  | .book key => M key x
  | .items scope entries => shelf.Covers M scope entries x

theorem Interprets.items {M : BookKey → Point → Prop} {key : BookKey}
    {items : List (Entry Literal)} (h : shelf.Interprets M key)
    (hnames : ∀ name, .book name ∈ items → shelf.Names key name) :
    shelf.Interpreted M (.items key.scope items) := by
  intro name hname
  cases hlookup : shelf.lookup? name key.scope with
  | none => exact trivial
  | some other => exact h.of_refers ⟨name, hnames name hname, hlookup⟩

/-- What a subject expands to holds the points that the subject covers. -/
theorem Expands.holds_iff {subject : Subject Literal} {set : Set}
    (h : shelf.Expands subject set) {M : BookKey → Point → Prop}
    (hM : shelf.Interpreted M subject) (x : Point) :
    BookMeaning.holds Literal set x ↔ shelf.SubjectCovers M x subject := by
  induction h with
  | @book key book included excluded hfind _ _ ihentries ihexclusions =>
    have hentries : BookMeaning.holds Literal included x ↔ shelf.Covers M key.scope book.entries x :=
      ihentries (Interprets.items hM (names_of_entries hfind))
    have hexclusions :
        BookMeaning.holds Literal excluded x ↔ shelf.Covers M key.scope book.exclusions x :=
      ihexclusions (Interprets.items hM (names_of_exclusions hfind))
    rw [BookMeaning.holds_subtract, hentries, hexclusions]
    exact (hM key book .refl hfind x).symm
  | nil =>
    have hempty : ¬BookMeaning.holds Literal (BookSet.empty Literal) x :=
      BookMeaning.not_holds_empty x
    refine iff_of_false hempty ?_
    rintro ⟨_, hitem, _⟩
    cases hitem
  | literal _ ih =>
    rw [BookMeaning.holds_union, BookMeaning.holds_ofLiteral, ih (Each.tail hM)]
    exact Iff.symm covers_cons
  | @reference scope name key rest nested set hlookup _ _ ihnested ihrest =>
    have hnested : BookMeaning.holds Literal nested x ↔ shelf.ItemCovers M scope x (.book name) := by
      refine (ihnested (Each.head hM hlookup)).trans ?_
      constructor
      · intro hkey
        exact ⟨key, hlookup, hkey⟩
      · rintro ⟨other, hother, hcovers⟩
        cases Option.some.inj (hlookup.symm.trans hother)
        exact hcovers
    rw [BookMeaning.holds_union, hnested, ihrest (Each.tail hM)]
    exact Iff.symm covers_cons

/-- The meaning that expansion gives: a book covers what the set holds to which
it expands. -/
def Held (shelf : Shelf Literal) (key : BookKey) (x : Point) : Prop :=
  ∃ set, shelf.Expands (.book key) set ∧ BookMeaning.holds Literal set x

theorem Expands.held_iff {key : BookKey} {set : Set} (h : shelf.Expands (.book key) set)
    (x : Point) : shelf.Held key x ↔ BookMeaning.holds Literal set x := by
  constructor
  · rintro ⟨other, hother, hholds⟩
    rw [h.unique hother]
    exact hholds
  · intro hholds
    exact ⟨set, h, hholds⟩

/-- What expands is interpreted by what expansion holds: each book on the way is
its entries less its exclusions, and both expand in their turn. -/
theorem Expands.interpreted_held {subject : Subject Literal} {set : Set}
    (h : shelf.Expands subject set) :
    shelf.Interpreted (shelf.Held : BookKey → Point → Prop) subject := by
  induction h with
  | @book key book included excluded hfind hentries hexclusions ihentries ihexclusions =>
    intro other book' hreach hfind' x
    rcases hreach.cases_head with rfl | ⟨next, ⟨name, hnames, hlookup⟩, hrest⟩
    · cases Option.some.inj (hfind.symm.trans hfind')
      rw [(Expands.book hfind hentries hexclusions).held_iff, BookMeaning.holds_subtract,
        hentries.holds_iff ihentries, hexclusions.holds_iff ihexclusions]
      rfl
    · obtain ⟨book'', hfind'', hname⟩ := hnames
      cases Option.some.inj (hfind.symm.trans hfind'')
      have hnext := hname.elim (ihentries name) (ihexclusions name)
      rw [hlookup] at hnext
      exact hnext other book' hrest hfind' x
  | nil => exact each_nil
  | literal _ ih => exact ih.literal _
  | reference hlookup _ _ ihnested ihrest => exact ihrest.reference hlookup ihnested

/-- A book that expands means what it expands to. -/
theorem Expands.means {key : BookKey} {set : Set} (h : shelf.Expands (.book key) set) :
    shelf.Means key (BookMeaning.holds Literal set : Point → Prop) :=
  ⟨⟨_, h.interpreted_held⟩, fun _ hM x => h.holds_iff hM x⟩

end Shelf

end Perimeter
