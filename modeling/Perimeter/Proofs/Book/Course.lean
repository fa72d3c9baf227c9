import Perimeter.Book.Resolution
import Perimeter.Proofs.Book.Expansion
import Perimeter.Proofs.Book.Table

/-!
What resolution does, case by case: where each answer comes from and what joins
the table of completed books. Every invariant of resolution is an induction on
this course. It also ties resolution to expansion: as long as the tables hold
nothing but what books expand to, a set that is found is what the book expands
to, and an error is what its expansion runs into.
-/

namespace Perimeter

namespace Shelf

variable {Literal Set Point : Type} [BookSet Literal Set]

/-- A book is entered: no table has it, it is not on the path, and it is there. -/
structure Enters (shelf : Shelf Literal) (shared : Table Set) (path : List BookKey)
    (key : BookKey) (done : Table Set) (book : Book Literal) : Prop where
  unshared : shared.find? key = none
  undone : done.find? key = none
  off : key ∉ path
  find : shelf.find? key = some book

/-- The course of resolution, from the books completed before to the outcome
together with the books completed then. -/
inductive Resolves (shelf : Shelf Literal) (shared : Table Set) : List BookKey →
    Subject Literal → Table Set → Except BookError Set × Table Set → Prop where
  | shared {path : List BookKey} {key : BookKey} {done : Table Set} {set : Set}
      (hshared : shared.find? key = some set) :
      Resolves shelf shared path (.book key) done (.ok set, done)
  | known {path : List BookKey} {key : BookKey} {done : Table Set} {set : Set}
      (hshared : shared.find? key = none) (hdone : done.find? key = some set) :
      Resolves shelf shared path (.book key) done (.ok set, done)
  | cycle {path : List BookKey} {key : BookKey} {done : Table Set}
      (hshared : shared.find? key = none) (hdone : done.find? key = none) (hon : key ∈ path) :
      Resolves shelf shared path (.book key) done
        (.error (.cycle (path.dropWhile (· ≠ key) ++ [key])), done)
  | missing {path : List BookKey} {key : BookKey} {done : Table Set}
      (hshared : shared.find? key = none) (hdone : done.find? key = none) (hoff : key ∉ path)
      (hfind : shelf.find? key = none) :
      Resolves shelf shared path (.book key) done
        (.error (.unknownReference key.name key.scope), done)
  | entriesFail {path : List BookKey} {key : BookKey} {done after : Table Set}
      {book : Book Literal} {e : BookError} (henters : shelf.Enters shared path key done book)
      (hentries : Resolves shelf shared (path ++ [key]) (.items key.scope book.entries) done
        (.error e, after)) :
      Resolves shelf shared path (.book key) done (.error e, after)
  | exclusionsFail {path : List BookKey} {key : BookKey} {done between after : Table Set}
      {book : Book Literal} {included : Set} {e : BookError}
      (henters : shelf.Enters shared path key done book)
      (hentries : Resolves shelf shared (path ++ [key]) (.items key.scope book.entries) done
        (.ok included, between))
      (hexclusions : Resolves shelf shared (path ++ [key]) (.items key.scope book.exclusions)
        between (.error e, after)) :
      Resolves shelf shared path (.book key) done (.error e, after)
  | complete {path : List BookKey} {key : BookKey} {done between after : Table Set}
      {book : Book Literal} {included excluded : Set}
      (henters : shelf.Enters shared path key done book)
      (hentries : Resolves shelf shared (path ++ [key]) (.items key.scope book.entries) done
        (.ok included, between))
      (hexclusions : Resolves shelf shared (path ++ [key]) (.items key.scope book.exclusions)
        between (.ok excluded, after)) :
      Resolves shelf shared path (.book key) done
        (.ok (BookSet.subtract Literal included excluded),
          after.insert key (BookSet.subtract Literal included excluded))
  | nil {path : List BookKey} {scope : Scope} {done : Table Set} :
      Resolves shelf shared path (.items scope []) done (.ok (BookSet.empty Literal), done)
  | literalFail {path : List BookKey} {scope : Scope} {item : Literal}
      {rest : List (Entry Literal)} {done after : Table Set} {e : BookError}
      (hrest : Resolves shelf shared path (.items scope rest) done (.error e, after)) :
      Resolves shelf shared path (.items scope (.literal item :: rest)) done (.error e, after)
  | literal {path : List BookKey} {scope : Scope} {item : Literal}
      {rest : List (Entry Literal)} {done after : Table Set} {set : Set}
      (hrest : Resolves shelf shared path (.items scope rest) done (.ok set, after)) :
      Resolves shelf shared path (.items scope (.literal item :: rest)) done
        (.ok (BookSet.union Literal (BookSet.ofLiteral item) set), after)
  | unknown {path : List BookKey} {scope : Scope} {name : String}
      {rest : List (Entry Literal)} {done : Table Set}
      (hlookup : shelf.lookup? name scope = none) :
      Resolves shelf shared path (.items scope (.book name :: rest)) done
        (.error (.unknownReference name scope), done)
  | nestedFail {path : List BookKey} {scope : Scope} {name : String} {key : BookKey}
      {rest : List (Entry Literal)} {done after : Table Set} {e : BookError}
      (hlookup : shelf.lookup? name scope = some key)
      (hnested : Resolves shelf shared path (.book key) done (.error e, after)) :
      Resolves shelf shared path (.items scope (.book name :: rest)) done (.error e, after)
  | laterFail {path : List BookKey} {scope : Scope} {name : String} {key : BookKey}
      {rest : List (Entry Literal)} {done between after : Table Set} {nested : Set}
      {e : BookError} (hlookup : shelf.lookup? name scope = some key)
      (hnested : Resolves shelf shared path (.book key) done (.ok nested, between))
      (hrest : Resolves shelf shared path (.items scope rest) between (.error e, after)) :
      Resolves shelf shared path (.items scope (.book name :: rest)) done (.error e, after)
  | reference {path : List BookKey} {scope : Scope} {name : String} {key : BookKey}
      {rest : List (Entry Literal)} {done between after : Table Set} {nested set : Set}
      (hlookup : shelf.lookup? name scope = some key)
      (hnested : Resolves shelf shared path (.book key) done (.ok nested, between))
      (hrest : Resolves shelf shared path (.items scope rest) between (.ok set, after)) :
      Resolves shelf shared path (.items scope (.book name :: rest)) done
        (.ok (BookSet.union Literal nested set), after)

variable (shelf : Shelf Literal) (shared : Table Set)

/-- Once a book is entered, its entries come first and its exclusions next. -/
theorem resolveKey_of_enters {path : List BookKey} {key : BookKey} {done : Table Set}
    {book : Book Literal} (h : shelf.Enters shared path key done book) :
    resolveKey shelf shared path key done =
      match resolveEntries shelf shared (path ++ [key]) key.scope book.entries done with
      | (.error e, done) => (.error e, done)
      | (.ok included, done) =>
        match resolveEntries shelf shared (path ++ [key]) key.scope book.exclusions done with
        | (.error e, done) => (.error e, done)
        | (.ok excluded, done) =>
          (.ok (BookSet.subtract Literal included excluded),
            done.insert key (BookSet.subtract Literal included excluded)) := by
  rw [resolveKey, h.unshared]
  simp only [h.undone, dif_neg h.off]
  split
  · rename_i hfind
    rw [h.find] at hfind
    cases hfind
  · rename_i found hfind
    rw [h.find] at hfind
    cases hfind
    rfl

/-- Resolution keeps to its course. The induction is that of the two functions,
with one case for each way through them. -/
theorem resolves :
    (∀ path key done, shelf.Resolves shared path (.book key) done
      (resolveKey shelf shared path key done)) ∧
    ∀ path scope entries done, shelf.Resolves shared path (.items scope entries) done
      (resolveEntries shelf shared path scope entries done) := by
  apply resolveKey.mutual_induct shelf shared
    (fun path key done => shelf.Resolves shared path (.book key) done
      (resolveKey shelf shared path key done))
    (fun path scope entries done => shelf.Resolves shared path (.items scope entries) done
      (resolveEntries shelf shared path scope entries done))
  -- a book that some table has, that is on the path, or that is missing
  · intro path key done set hshared
    rw [resolveKey, hshared]
    exact .shared hshared
  · intro path key done hshared set hdone
    rw [resolveKey, hshared]
    simp only [hdone]
    exact .known hshared hdone
  · intro path key done hshared hdone hon
    rw [resolveKey, hshared]
    simp only [hdone, dif_pos hon]
    exact .cycle hshared hdone hon
  · intro path key done hshared hdone hoff hfind
    rw [resolveKey, hshared]
    simp only [hdone, dif_neg hoff]
    split
    · exact .missing hshared hdone hoff hfind
    · rename_i book hfound
      rw [hfind] at hfound
      cases hfound
  -- a book that is entered: its entries fail, its exclusions do, or neither
  · intro path key done hshared hdone hoff book hfind e after hfirst hentries
    have henters : shelf.Enters shared path key done book := ⟨hshared, hdone, hoff, hfind⟩
    rw [hfirst] at hentries
    rw [resolveKey_of_enters shelf shared henters, hfirst]
    exact .entriesFail henters hentries
  · intro path key done hshared hdone hoff book hfind included between hfirst e after hsecond
      hentries hexclusions
    have henters : shelf.Enters shared path key done book := ⟨hshared, hdone, hoff, hfind⟩
    rw [hfirst] at hentries
    rw [hsecond] at hexclusions
    rw [resolveKey_of_enters shelf shared henters, hfirst]
    simp only [hsecond]
    exact .exclusionsFail henters hentries hexclusions
  · intro path key done hshared hdone hoff book hfind included between hfirst excluded after
      hsecond hentries hexclusions
    have henters : shelf.Enters shared path key done book := ⟨hshared, hdone, hoff, hfind⟩
    rw [hfirst] at hentries
    rw [hsecond] at hexclusions
    rw [resolveKey_of_enters shelf shared henters, hfirst]
    simp only [hsecond]
    exact .complete henters hentries hexclusions
  -- items: none, a literal with what follows it, a name with what follows it
  · intro path scope done
    rw [resolveEntries]
    exact .nil
  · intro path scope done item rest e after hfirst hrest
    rw [hfirst] at hrest
    rw [resolveEntries, hfirst]
    exact .literalFail hrest
  · intro path scope done item rest set after hfirst hrest
    rw [hfirst] at hrest
    rw [resolveEntries, hfirst]
    exact .literal hrest
  · intro path scope done name rest hlookup
    rw [resolveEntries, hlookup]
    exact .unknown hlookup
  · intro path scope done name rest key hlookup e after hfirst hnested
    rw [hfirst] at hnested
    rw [resolveEntries, hlookup]
    simp only [hfirst]
    exact .nestedFail hlookup hnested
  · intro path scope done name rest key hlookup nested between hfirst e after hsecond hnested hrest
    rw [hfirst] at hnested
    rw [hsecond] at hrest
    rw [resolveEntries, hlookup]
    simp only [hfirst, hsecond]
    exact .laterFail hlookup hnested hrest
  · intro path scope done name rest key hlookup nested between hfirst set after hsecond hnested
      hrest
    rw [hfirst] at hnested
    rw [hsecond] at hrest
    rw [resolveEntries, hlookup]
    simp only [hfirst, hsecond]
    exact .reference hlookup hnested hrest

end Shelf

end Perimeter
