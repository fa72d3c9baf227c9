import Perimeter.Proofs.Book.Course

/-!
Resolution with a stack that is kept from one question to the next. Entering a
book puts its key on the stack, and leaving it, with a set or with an error,
takes the last key off again. This comes to the same as resolution along a path:
whatever happens on the way, the stack is in the end as it was.
-/

namespace Perimeter

/-- What resolution works on: the keys of the books that are being expanded,
outermost first, and the books completed so far. -/
structure Bench (Set : Type) where
  stack : List BookKey
  done : Table Set

namespace Bench

variable {Set : Type}

def push (b : Bench Set) (key : BookKey) : Bench Set := { b with stack := b.stack ++ [key] }

def pop (b : Bench Set) : Bench Set := { b with stack := b.stack.dropLast }

def complete (b : Bench Set) (key : BookKey) (s : Set) : Bench Set :=
  { b with done := b.done.insert key s }

@[simp] theorem stack_push (b : Bench Set) (key : BookKey) :
    (b.push key).stack = b.stack ++ [key] := rfl

@[simp] theorem stack_pop (b : Bench Set) : b.pop.stack = b.stack.dropLast := rfl

@[simp] theorem stack_complete (b : Bench Set) (key : BookKey) (s : Set) :
    (b.complete key s).stack = b.stack := rfl

theorem pop_concat (path : List BookKey) (key : BookKey) (done : Table Set) :
    (⟨path ++ [key], done⟩ : Bench Set).pop = ⟨path, done⟩ := by
  simp [pop]

theorem pop_push (b : Bench Set) (key : BookKey) : (b.push key).pop = b :=
  pop_concat b.stack key b.done

end Bench

namespace Shelf

variable {Literal Set : Type} [BookSet Literal Set]

/-- How a subject is worked on: the bench before, the answer and the bench after. -/
inductive Performs (shelf : Shelf Literal) (shared : Table Set) : Subject Literal → Bench Set →
    Except BookError Set → Bench Set → Prop where
  | shared {key : BookKey} {b : Bench Set} {set : Set} (hshared : shared.find? key = some set) :
      Performs shelf shared (.book key) b (.ok set) b
  | known {key : BookKey} {b : Bench Set} {set : Set} (hshared : shared.find? key = none)
      (hdone : b.done.find? key = some set) : Performs shelf shared (.book key) b (.ok set) b
  | cycle {key : BookKey} {b : Bench Set} (hshared : shared.find? key = none)
      (hdone : b.done.find? key = none) (hon : key ∈ b.stack) :
      Performs shelf shared (.book key) b
        (.error (.cycle (b.stack.dropWhile (· ≠ key) ++ [key]))) b
  | missing {key : BookKey} {b : Bench Set} (hshared : shared.find? key = none)
      (hdone : b.done.find? key = none) (hoff : key ∉ b.stack) (hfind : shelf.find? key = none) :
      Performs shelf shared (.book key) b (.error (.unknownReference key.name key.scope))
        (b.push key).pop
  | entriesFail {key : BookKey} {b after : Bench Set} {book : Book Literal} {e : BookError}
      (henters : shelf.Enters shared b.stack key b.done book)
      (hentries : Performs shelf shared (.items key.scope book.entries) (b.push key) (.error e)
        after) :
      Performs shelf shared (.book key) b (.error e) after.pop
  | exclusionsFail {key : BookKey} {b between after : Bench Set} {book : Book Literal}
      {included : Set} {e : BookError} (henters : shelf.Enters shared b.stack key b.done book)
      (hentries : Performs shelf shared (.items key.scope book.entries) (b.push key)
        (.ok included) between)
      (hexclusions : Performs shelf shared (.items key.scope book.exclusions) between (.error e)
        after) :
      Performs shelf shared (.book key) b (.error e) after.pop
  | complete {key : BookKey} {b between after : Bench Set} {book : Book Literal}
      {included excluded : Set} (henters : shelf.Enters shared b.stack key b.done book)
      (hentries : Performs shelf shared (.items key.scope book.entries) (b.push key)
        (.ok included) between)
      (hexclusions : Performs shelf shared (.items key.scope book.exclusions) between
        (.ok excluded) after) :
      Performs shelf shared (.book key) b (.ok (BookSet.subtract Literal included excluded))
        (after.pop.complete key (BookSet.subtract Literal included excluded))
  | nil {scope : Scope} {b : Bench Set} :
      Performs shelf shared (.items scope []) b (.ok (BookSet.empty Literal)) b
  | literal {scope : Scope} {item : Literal} {rest : List (Entry Literal)} {b after : Bench Set}
      {answer : Except BookError Set}
      (hrest : Performs shelf shared (.items scope rest) b answer after) :
      Performs shelf shared (.items scope (.literal item :: rest)) b
        (answer.map (BookSet.union Literal (BookSet.ofLiteral item))) after
  | unknown {scope : Scope} {name : String} {rest : List (Entry Literal)} {b : Bench Set}
      (hlookup : shelf.lookup? name scope = none) :
      Performs shelf shared (.items scope (.book name :: rest)) b
        (.error (.unknownReference name scope)) b
  | nestedFail {scope : Scope} {name : String} {key : BookKey} {rest : List (Entry Literal)}
      {b after : Bench Set} {e : BookError} (hlookup : shelf.lookup? name scope = some key)
      (hnested : Performs shelf shared (.book key) b (.error e) after) :
      Performs shelf shared (.items scope (.book name :: rest)) b (.error e) after
  | reference {scope : Scope} {name : String} {key : BookKey} {rest : List (Entry Literal)}
      {b between after : Bench Set} {nested : Set} {answer : Except BookError Set}
      (hlookup : shelf.lookup? name scope = some key)
      (hnested : Performs shelf shared (.book key) b (.ok nested) between)
      (hrest : Performs shelf shared (.items scope rest) between answer after) :
      Performs shelf shared (.items scope (.book name :: rest)) b
        (answer.map (BookSet.union Literal nested)) after

variable {shelf : Shelf Literal} {shared : Table Set} {subject : Subject Literal}

/-- Every push is undone: the stack is as it was, also after an error. The
induction carries the stack as the path along which resolution goes. -/
theorem Performs.resolves {b after : Bench Set} {answer : Except BookError Set}
    (h : shelf.Performs shared subject b answer after) :
    after.stack = b.stack ∧
      shelf.Resolves shared b.stack subject b.done (answer, after.done) := by
  induction h with
  | shared hshared => exact ⟨rfl, .shared hshared⟩
  | known hshared hdone => exact ⟨rfl, .known hshared hdone⟩
  | cycle hshared hdone hon => exact ⟨rfl, .cycle hshared hdone hon⟩
  | missing hshared hdone hoff hfind =>
    exact ⟨by simp, .missing hshared hdone hoff hfind⟩
  | entriesFail henters _ ih =>
    exact ⟨by simp [ih.1], .entriesFail henters ih.2⟩
  | exclusionsFail henters _ _ ihentries ihexclusions =>
    have hstack := ihexclusions.1.trans ihentries.1
    have hexclusions := ihexclusions.2
    rw [ihentries.1] at hexclusions
    exact ⟨by simp [hstack], .exclusionsFail henters ihentries.2 hexclusions⟩
  | complete henters _ _ ihentries ihexclusions =>
    have hstack := ihexclusions.1.trans ihentries.1
    have hexclusions := ihexclusions.2
    rw [ihentries.1] at hexclusions
    exact ⟨by simp [hstack], .complete henters ihentries.2 hexclusions⟩
  | nil => exact ⟨rfl, .nil⟩
  | @literal _ _ _ _ _ answer _ ih =>
    cases answer with
    | ok set => exact ⟨ih.1, .literal ih.2⟩
    | error e => exact ⟨ih.1, .literalFail ih.2⟩
  | unknown hlookup => exact ⟨rfl, .unknown hlookup⟩
  | nestedFail hlookup _ ih => exact ⟨ih.1, .nestedFail hlookup ih.2⟩
  | @reference _ _ _ _ _ _ _ _ answer hlookup _ _ ihnested ihrest =>
    have hstack := ihrest.1.trans ihnested.1
    have hrest := ihrest.2
    rw [ihnested.1] at hrest
    cases answer with
    | ok set => exact ⟨hstack, .reference hlookup ihnested.2 hrest⟩
    | error e => exact ⟨hstack, .laterFail hlookup ihnested.2 hrest⟩

/-- Resolution along a path is what is done with that path on the stack. -/
theorem Resolves.performs {path : List BookKey} {done : Table Set}
    {r : Except BookError Set × Table Set} (h : shelf.Resolves shared path subject done r) :
    shelf.Performs shared subject ⟨path, done⟩ r.1 ⟨path, r.2⟩ := by
  induction h with
  | shared hshared => exact .shared hshared
  | known hshared hdone => exact .known hshared hdone
  | cycle hshared hdone hon => exact .cycle hshared hdone hon
  | @missing path key done hshared hdone hoff hfind =>
    have hbook := Performs.missing (b := ⟨path, done⟩) hshared hdone hoff hfind
    rwa [Bench.pop_push] at hbook
  | @entriesFail path key done _ _ _ henters _ ih =>
    have hbook := Performs.entriesFail (b := ⟨path, done⟩) henters ih
    rwa [Bench.pop_concat] at hbook
  | @exclusionsFail path key done _ _ _ _ _ henters _ _ ihentries ihexclusions =>
    have hbook := Performs.exclusionsFail (b := ⟨path, done⟩) henters ihentries ihexclusions
    rwa [Bench.pop_concat] at hbook
  | @complete path key done _ _ _ _ _ henters _ _ ihentries ihexclusions =>
    have hbook := Performs.complete (b := ⟨path, done⟩) henters ihentries ihexclusions
    rwa [Bench.pop_concat] at hbook
  | nil => exact .nil
  | literalFail _ ih => exact .literal ih
  | literal _ ih => exact .literal ih
  | unknown hlookup => exact .unknown hlookup
  | nestedFail hlookup _ ih => exact .nestedFail hlookup ih
  | laterFail hlookup _ _ ihnested ihrest => exact .reference hlookup ihnested ihrest
  | reference hlookup _ _ ihnested ihrest => exact .reference hlookup ihnested ihrest

end Shelf

end Perimeter
