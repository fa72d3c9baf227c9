import Perimeter.Book.Catalog
import Perimeter.Book.Table
import Perimeter.Counting

/-!
Resolution of books: the set that a book stands for, with the books it names
expanded. Expansion keeps the keys on the way to the current book; reaching one
of them again is a cycle. Sets that are complete are kept in a table, also when
the question that needed them fails further on. A table of books resolved
before, which this resolution may read, comes first.
-/

namespace Perimeter

variable {Literal Set : Type} [BookSet Literal Set]

namespace Shelf

/-- What is left to do at most when the books on a path have been entered: two steps
for each other book and one for each of its items. -/
def workOff (shelf : Shelf Literal) (path : List BookKey) : Nat :=
  sumOver (fun b => if b.key ∈ path then 0 else b.entries.length + b.exclusions.length + 2)
    shelf.books

/-- Entering a book of the shelf takes the work on its items from what is left. -/
theorem workOff_concat_le {shelf : Shelf Literal} {path : List BookKey} {key : BookKey}
    {book : Book Literal} (hoff : key ∉ path) (hfind : shelf.find? key = some book) :
    shelf.workOff (path ++ [key]) + (book.entries.length + book.exclusions.length + 2) ≤
      shelf.workOff path := by
  obtain ⟨hmem, rfl⟩ := Shelf.mem_of_find? hfind
  apply sumOver_add_le_sumOver _ hmem
  · simp [hoff]
  · intro b _
    by_cases hb : b.key ∈ path
    · simp [hb]
    · rw [if_neg hb]
      split
      · exact Nat.zero_le _
      · exact Nat.le_refl _

end Shelf

mutual

/-- The set of the book under a key, and the table with all that was completed
on the way. `path` holds the keys of the books being expanded, outermost first. -/
def resolveKey (shelf : Shelf Literal) (shared : Table Set) (path : List BookKey)
    (key : BookKey) (done : Table Set) : Except BookError Set × Table Set :=
  match shared.find? key with
  | some set => (.ok set, done)
  | none =>
    match done.find? key with
    | some set => (.ok set, done)
    | none =>
      if _ : key ∈ path then
        (.error (.cycle (path.dropWhile (· ≠ key) ++ [key])), done)
      else
        match _ : shelf.find? key with
        | none => (.error (.unknownReference key.name key.scope), done)
        | some book =>
          match resolveEntries shelf shared (path ++ [key]) key.scope book.entries done with
          | (.error e, done) => (.error e, done)
          | (.ok included, done) =>
            match resolveEntries shelf shared (path ++ [key]) key.scope book.exclusions done with
            | (.error e, done) => (.error e, done)
            | (.ok excluded, done) =>
              let set := BookSet.subtract Literal included excluded
              (.ok set, done.insert key set)
termination_by shelf.workOff path
decreasing_by
  all_goals
    have := Shelf.workOff_concat_le ‹_› ‹_›
    omega

/-- The union of the items of a list, whose names are looked up from a scope. -/
def resolveEntries (shelf : Shelf Literal) (shared : Table Set) (path : List BookKey)
    (scope : Scope) (entries : List (Entry Literal)) (done : Table Set) :
    Except BookError Set × Table Set :=
  match entries with
  | [] => (.ok (BookSet.empty Literal), done)
  | .literal item :: rest =>
    match resolveEntries shelf shared path scope rest done with
    | (.error e, done) => (.error e, done)
    | (.ok set, done) => (.ok (BookSet.union Literal (BookSet.ofLiteral item) set), done)
  | .book name :: rest =>
    match shelf.lookup? name scope with
    | none => (.error (.unknownReference name scope), done)
    | some key =>
      match resolveKey shelf shared path key done with
      | (.error e, done) => (.error e, done)
      | (.ok nested, done) =>
        match resolveEntries shelf shared path scope rest done with
        | (.error e, done) => (.error e, done)
        | (.ok set, done) => (.ok (BookSet.union Literal nested set), done)
termination_by shelf.workOff path + entries.length + 1

end

/-- The set of the book that a name stands for in a scope. -/
def resolveName (shelf : Shelf Literal) (shared : Table Set) (name : String) (scope : Scope)
    (done : Table Set) : Except BookError Set × Table Set :=
  match shelf.lookup? name scope with
  | none => (.error (.unknownReference name scope), done)
  | some key => resolveKey shelf shared [] key done

end Perimeter
