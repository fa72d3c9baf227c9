import Mathlib.Data.List.Permutation
import Perimeter.Proofs.Book.Catalog
import Perimeter.Proofs.Book.History

/-!
The evidence for an error. What a resolver says went wrong can be found in the
books, starting from the book that was asked for: a cycle that it reaches, or a
name in a book that it reaches, which look-up does not find from there. No table
has a part in this. A set that is known already only ends a way through the
books, so nothing is assumed of the tables and they may even be wrong.
-/

namespace Perimeter

namespace Shelf

variable {Literal : Type} {shelf : Shelf Literal} {root : BookKey}

/-- What is resolved for the sake of a book: a book that it reaches, or items of one. -/
def ReachedFrom (shelf : Shelf Literal) (root : BookKey) : Subject Literal → Prop
  | .book key => shelf.Reaches root key
  | .items scope entries =>
    ∃ key, shelf.Reaches root key ∧ key.scope = scope ∧
      ∀ name, .book name ∈ entries → shelf.Names key name

/-- The books bear an error about one of them out. It reaches the first key of a
cycle; or it is missing itself; or it reaches a book of the scope that has the
name in it, and look-up finds nothing there. -/
def Confirms (shelf : Shelf Literal) (root : BookKey) : BookError → Prop
  | .cycle path => shelf.IsCycle path ∧ ∃ first, path.head? = some first ∧ shelf.Reaches root first
  | .unknownReference name scope =>
    (root = ⟨scope, name⟩ ∧ shelf.has root = false) ∨
      ∃ key, shelf.Reaches root key ∧ key.scope = scope ∧ shelf.Names key name ∧
        shelf.lookup? name scope = none
  | .duplicate _ _ => False

section ReachedFrom

variable {scope : Scope} {rest : List (Entry Literal)}

theorem ReachedFrom.tail {item : Entry Literal}
    (h : shelf.ReachedFrom root (.items scope (item :: rest))) :
    shelf.ReachedFrom root (.items scope rest) := by
  obtain ⟨key, hreach, hscope, hnames⟩ := h
  exact ⟨key, hreach, hscope, fun name hname => hnames name (List.mem_cons_of_mem _ hname)⟩

theorem ReachedFrom.head {name : String} {key : BookKey}
    (h : shelf.ReachedFrom root (.items scope (.book name :: rest)))
    (hlookup : shelf.lookup? name scope = some key) : shelf.ReachedFrom root (.book key) := by
  obtain ⟨other, hreach, rfl, hnames⟩ := h
  exact hreach.tail ⟨name, hnames name List.mem_cons_self, hlookup⟩

end ReachedFrom

/-- A book that is reached is there, unless no step led to it. -/
theorem eq_or_has_of_reaches {key : BookKey} (h : shelf.Reaches root key) :
    key = root ∨ shelf.has key = true := by
  rcases h.cases_tail with hroot | ⟨_, _, _, _, hlookup⟩
  · exact Or.inl hroot
  · exact Or.inr (has_of_lookup? hlookup)

/-- A key that is reached and met again on the path closes a cycle that is reached. -/
theorem confirms_cycle {path : List BookKey} {key : BookKey} (hreach : shelf.Reaches root key)
    (hcycle : shelf.IsCycle (path.dropWhile (· ≠ key) ++ [key])) :
    shelf.Confirms root (.cycle (path.dropWhile (· ≠ key) ++ [key])) := by
  refine ⟨hcycle, ?_⟩
  obtain ⟨first, rest, heq, _⟩ := hcycle
  have hlast := congrArg List.getLast? heq
  simp only [List.getLast?_append, List.getLast?_singleton, Option.some_or,
    Option.some.injEq] at hlast
  subst hlast
  rw [heq]
  exact ⟨key, rfl, hreach⟩

theorem confirms_missing {key : BookKey} (hreach : shelf.Reaches root key)
    (hfind : shelf.find? key = none) :
    shelf.Confirms root (.unknownReference key.name key.scope) := by
  have hmissing : shelf.has key = false := by
    rw [has_eq_isSome_find?, hfind]
    rfl
  rcases eq_or_has_of_reaches hreach with rfl | hthere
  · exact Or.inl ⟨rfl, hmissing⟩
  · rw [hmissing] at hthere
    cases hthere

theorem Confirms.bearsOut {e : BookError} (h : shelf.Confirms root e)
    (hthere : shelf.has root = true) : shelf.BearsOut e := by
  cases e with
  | cycle path => exact h.1
  | unknownReference name scope =>
    rcases h with ⟨_, hmissing⟩ | ⟨key, _, hscope, hnames, hlookup⟩
    · rw [hmissing] at hthere
      cases hthere
    · exact ⟨hlookup, key, hscope, hnames⟩
  | duplicate kind key => exact h

variable {Set : Type} [BookSet Literal Set] {shared : Table Set}

/-- Resolution fails only with an error that the books bear out. Along the course
three things hold of the path and the subject: what is resolved is reached from the
book that was asked for, the path runs along references to it, and no book is on the
path twice. -/
theorem Resolves.confirms {path : List BookKey} {subject : Subject Literal} {done : Table Set}
    {outcome : Except BookError Set × Table Set} {e : BookError}
    (h : shelf.Resolves shared path subject done outcome) (hfail : outcome.1 = .error e)
    (hreached : shelf.ReachedFrom root subject) (hcontinues : shelf.Continues path subject)
    (hnodup : path.Nodup) : shelf.Confirms root e := by
  have hlonger : ∀ {path : List BookKey} {key : BookKey}, path.Nodup → key ∉ path →
      (path ++ [key]).Nodup := by
    intro path key hpath hoff
    rw [← List.concat_eq_append]
    exact hpath.concat hoff
  induction h generalizing e with
  | shared | known | complete | nil | literal | reference => cases hfail
  | cycle _ _ hon =>
    cases hfail
    exact confirms_cycle hreached (isCycle_of_mem hon hnodup hcontinues)
  | missing _ _ _ hfind =>
    cases hfail
    exact confirms_missing hreached hfind
  | @entriesFail _ key _ _ _ _ henters _ ih =>
    have hnames := names_of_entries henters.find
    exact ih hfail ⟨key, hreached, rfl, hnames⟩ (hcontinues.enter hnames)
      (hlonger hnodup henters.off)
  | @exclusionsFail _ key _ _ _ _ _ _ henters _ _ _ ih =>
    have hnames := names_of_exclusions henters.find
    exact ih hfail ⟨key, hreached, rfl, hnames⟩ (hcontinues.enter hnames)
      (hlonger hnodup henters.off)
  | literalFail _ ih => exact ih hfail hreached.tail (Each.tail hcontinues) hnodup
  | unknown hlookup =>
    cases hfail
    obtain ⟨key, hreach, hscope, hnames⟩ := hreached
    exact Or.inr ⟨key, hreach, hscope, hnames _ List.mem_cons_self, hlookup⟩
  | nestedFail hlookup _ ih =>
    exact ih hfail (hreached.head hlookup) (Each.head hcontinues hlookup) hnodup
  | laterFail _ _ _ _ ih => exact ih hfail hreached.tail (Each.tail hcontinues) hnodup

/-- An error about a book that is resolved with nothing on the stack is borne out. -/
theorem Performs.confirms {b after : Bench Set} {key : BookKey} {e : BookError}
    (h : shelf.Performs shared (.book key) b (.error e) after) (hstack : b.stack = []) :
    shelf.Confirms key e := by
  have hresolves := h.resolves.2
  rw [hstack] at hresolves
  exact hresolves.confirms rfl .refl (List.isChain_singleton key) List.nodup_nil

end Shelf

/-- The books of a catalog bear out what a resolver says went wrong with a
question: something with the book that look-up finds, or that it finds none. -/
inductive Catalog.Explains (c : Catalog) : BookQuestion → BookError → Prop where
  | networkAt {key : BookKey} {e : BookError} (h : c.networks.Confirms key e) :
      Explains c (.networkAt key) e
  | serviceAt {key : BookKey} {e : BookError} (h : c.services.Confirms key e) :
      Explains c (.serviceAt key) e
  | network {name : String} {scope : Scope} {key : BookKey} {e : BookError}
      (hlookup : c.networks.lookup? name scope = some key) (h : c.networks.Confirms key e) :
      Explains c (.network name scope) e
  | noNetwork {name : String} {scope : Scope} (hlookup : c.networks.lookup? name scope = none) :
      Explains c (.network name scope) (.unknownReference name scope)
  | service {name : String} {scope : Scope} {key : BookKey} {e : BookError}
      (hlookup : c.services.lookup? name scope = some key) (h : c.services.Confirms key e) :
      Explains c (.service name scope) e
  | noService {name : String} {scope : Scope} (hlookup : c.services.lookup? name scope = none) :
      Explains c (.service name scope) (.unknownReference name scope)

namespace Resolver

theorem map_eq_error {α β : Type} {f : α → β} {x : Except BookError α} {e : BookError} :
    x.map f = .error e ↔ x = .error e := by
  cases x with
  | ok a => simp [Except.map]
  | error e => simp [Except.map]

/-- A resolver that serves a question with an empty stack fails only with an
error that the books bear out. -/
theorem Serves.explains {r : Resolver} {q : BookQuestion} {s after : ResolverState}
    {answer : Except BookError BookAnswer} {e : BookError} (h : r.Serves q s answer after)
    (hstack : s.stack = []) (hfail : answer = .error e) : r.catalog.Explains q e := by
  induction h with
  | networkAt hperforms =>
    rw [map_eq_error] at hfail
    subst hfail
    exact .networkAt (hperforms.confirms hstack)
  | serviceAt hperforms =>
    rw [map_eq_error] at hfail
    subst hfail
    exact .serviceAt (hperforms.confirms hstack)
  | network hlookup _ ih =>
    cases ih hstack hfail with
    | networkAt h => exact .network hlookup h
  | noNetwork hlookup =>
    cases hfail
    exact .noNetwork hlookup
  | service hlookup _ ih =>
    cases ih hstack hfail with
    | serviceAt h => exact .service hlookup h
  | noService hlookup =>
    cases hfail
    exact .noService hlookup

/-- What a resolver says went wrong is so. Whatever it has resolved before and
whichever tables it reads, when it is not in the middle of a question and fails
with a cycle, then the keys of the path refer each to the next and the last is the
first again, no other comes twice, and the book that was asked for reaches them; and
when it fails with an unknown reference, then either what was asked for is not there,
or it reaches a book with this name in it that look-up does not find from there. -/
theorem errors_explained (r : Resolver) (q : BookQuestion) (e : BookError) :
    (∀ s after, s.stack = [] → r.Serves q s (.error e) after → r.catalog.Explains q e) ∧
      ∀ done, (r.reply q done).1 = .error e → r.catalog.Explains q e := by
  refine ⟨fun s after hstack hserves => hserves.explains hstack rfl, ?_⟩
  intro done hfail
  exact (serves_reply r q done).explains rfl hfail

/-- A device's book names a global book. That one excludes another global book, which
has the name of the device's and leads back. -/
def entangled : Catalog :=
  ⟨.ofDistinct [⟨"lan", .device "fw", [.book "dmz"], []⟩,
      ⟨"dmz", .global, [.literal ⟨⟨.v4, 169738241, by decide⟩, 31, by decide⟩], [.book "lan"]⟩,
      ⟨"lan", .global, [.book "dmz"], []⟩] (by decide), .empty⟩

theorem entangled_explained :
    let r : Resolver := ⟨entangled, .empty⟩
    let q : BookQuestion := .network "lan" (.device "fw")
    let path : List BookKey := [⟨.global, "dmz"⟩, ⟨.global, "lan"⟩, ⟨.global, "dmz"⟩]
    (r.reply q .empty).1 = .error (.cycle path) ∧ entangled.Explains q (.cycle path) := by
  intro r q path
  have hfail : (r.reply q .empty).1 = .error (.cycle path) := by
    have hlookup : entangled.networks.lookup? "lan" (.device "fw") = some ⟨.device "fw", "lan"⟩ := by
      decide
    rw [reply_network r .empty hlookup, reply_networkAt]
    decide +kernel
  exact ⟨hfail, (errors_explained r q _).2 _ hfail⟩

end Resolver

end Perimeter
