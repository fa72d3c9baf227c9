import Mathlib.Data.List.Chain
import Perimeter.Proofs.Book.Expansion

/-!
The errors of expansion. A subject that no path leads back to either expands or
fails, and in only one way: the order of entries settles which name is met
first. What it takes for an error to be true of the shelf is said here too. The
keys of a cycle refer each to the next and back to the first, and an unknown
reference is a name in some book that look-up does not find from there.
-/

namespace Perimeter

namespace Shelf

variable {Literal Set : Type} [BookSet Literal Set] {shelf : Shelf Literal}

theorem Fails.not_expands {path : List BookKey} {subject : Subject Literal} {e : BookError}
    {set : Set} (h : shelf.Fails path subject e) (hleads : shelf.LeadsTo path subject) :
    ¬shelf.Expands subject set :=
  fun hexpands => h.not_settled hleads hexpands.settled

/-- Expansion fails with one error at most. Two derivations could part only
where one goes on behind something that the other fails on. -/
theorem Fails.unique {path : List BookKey} {subject : Subject Literal} {e e' : BookError}
    (h : shelf.Fails path subject e) (h' : shelf.Fails path subject e')
    (hleads : shelf.LeadsTo path subject) : e = e' := by
  induction h with
  | cycle hon =>
    cases h' with
    | cycle => rfl
    | missing hoff => exact absurd hon hoff
    | entries hoff => exact absurd hon hoff
    | exclusions hoff => exact absurd hon hoff
  | missing hoff hfind =>
    cases h' with
    | cycle hon => exact absurd hon hoff
    | missing => rfl
    | entries _ hfind' => cases hfind.symm.trans hfind'
    | exclusions _ hfind' => cases hfind.symm.trans hfind'
  | @entries _ key book _ hoff hfind hentries ih =>
    have hinside := hleads.enter (names_of_entries hfind)
    cases h' with
    | cycle hon => exact absurd hon hoff
    | missing _ hfind' => cases hfind.symm.trans hfind'
    | entries _ hfind' hentries' =>
      cases Option.some.inj (hfind.symm.trans hfind')
      exact ih hentries' hinside
    | exclusions _ hfind' hexpands =>
      cases Option.some.inj (hfind.symm.trans hfind')
      exact absurd hexpands (hentries.not_expands hinside)
  | @exclusions _ key book _ _ hoff hfind hexpands _ ih =>
    cases h' with
    | cycle hon => exact absurd hon hoff
    | missing _ hfind' => cases hfind.symm.trans hfind'
    | entries _ hfind' hentries' =>
      cases Option.some.inj (hfind.symm.trans hfind')
      exact absurd hexpands (hentries'.not_expands (hleads.enter (names_of_entries hfind)))
    | exclusions _ hfind' _ hexclusions' =>
      cases Option.some.inj (hfind.symm.trans hfind')
      exact ih hexclusions' (hleads.enter (names_of_exclusions hfind))
  | literal _ ih =>
    cases h' with
    | literal hrest' => exact ih hrest' (Each.tail hleads)
  | unknown hlookup =>
    cases h' with
    | unknown => rfl
    | nested hlookup' => cases hlookup.symm.trans hlookup'
    | later hlookup' => cases hlookup.symm.trans hlookup'
  | nested hlookup hnested ih =>
    cases h' with
    | unknown hlookup' => cases hlookup.symm.trans hlookup'
    | nested hlookup' hnested' =>
      cases Option.some.inj (hlookup.symm.trans hlookup')
      exact ih hnested' (Each.head hleads hlookup)
    | later hlookup' hexpands =>
      cases Option.some.inj (hlookup.symm.trans hlookup')
      exact absurd hexpands (hnested.not_expands (Each.head hleads hlookup))
  | later hlookup hexpands _ ih =>
    cases h' with
    | unknown hlookup' => cases hlookup.symm.trans hlookup'
    | nested hlookup' hnested' =>
      cases Option.some.inj (hlookup.symm.trans hlookup')
      exact absurd hexpands (hnested'.not_expands (Each.head hleads hlookup))
    | later _ _ hrest' => exact ih hrest' (Each.tail hleads)

theorem leadsTo_nil (subject : Subject Literal) : shelf.LeadsTo [] subject := by
  have heach : ∀ key? : Option BookKey,
      key?.elim True fun key => ∀ k ∈ ([] : List BookKey), Relation.TransGen shelf.Refers k key := by
    intro key?
    cases key? <;> simp
  cases subject with
  | book key => exact heach (some key)
  | items scope entries => exact fun name _ => heach (shelf.lookup? name scope)

/-- A list of keys runs along references, each book naming the next, and comes
back to where it starts, and to no other book twice. -/
def IsCycle (shelf : Shelf Literal) (cycle : List BookKey) : Prop :=
  ∃ key rest, cycle = key :: rest ++ [key] ∧ (key :: rest).Nodup ∧ cycle.IsChain shelf.Refers

/-- What an error says is so: the path is a cycle, or a book of the scope has
the name in it and look-up finds nothing there. -/
def BearsOut (shelf : Shelf Literal) : BookError → Prop
  | .cycle path => shelf.IsCycle path
  | .unknownReference name scope =>
    shelf.lookup? name scope = none ∧ ∃ key, key.scope = scope ∧ shelf.Names key name
  | .duplicate _ _ => False

/-- A path runs along references, and so it does with any book that the subject
names put at its end. -/
def Continues (shelf : Shelf Literal) (path : List BookKey) : Subject Literal → Prop :=
  shelf.Each fun key? => key?.elim True fun key => (path ++ [key]).IsChain shelf.Refers

theorem Continues.enter {path : List BookKey} {key : BookKey} {items : List (Entry Literal)}
    (h : shelf.Continues path (.book key))
    (hnames : ∀ name, .book name ∈ items → shelf.Names key name) :
    shelf.Continues (path ++ [key]) (.items key.scope items) := by
  intro name hname
  cases hlookup : shelf.lookup? name key.scope with
  | none => exact trivial
  | some other =>
    have hrefers : shelf.Refers key other := ⟨name, hnames name hname, hlookup⟩
    have hchain : (path ++ [key]).IsChain shelf.Refers := h
    apply hchain.append (List.isChain_singleton other)
    intro last hlast first hfirst
    simp only [List.getLast?_append, List.getLast?_singleton, Option.some_or,
      Option.mem_def, Option.some.injEq] at hlast
    simp only [List.head?_cons, Option.mem_def, Option.some.injEq] at hfirst
    exact hlast ▸ hfirst ▸ hrefers

/-- Meeting a key again on a path closes a cycle. -/
theorem isCycle_of_mem {path : List BookKey} {key : BookKey} (hon : key ∈ path)
    (hnodup : path.Nodup) (hchain : (path ++ [key]).IsChain shelf.Refers) :
    shelf.IsCycle (path.dropWhile (· ≠ key) ++ [key]) := by
  obtain ⟨before, after, rfl⟩ := List.append_of_mem hon
  have hparts := List.nodup_append.mp hnodup
  have hbefore : ∀ k ∈ before, k ≠ key :=
    fun k hk => hparts.2.2 k hk key List.mem_cons_self
  have hdrop : (before ++ key :: after).dropWhile (· ≠ key) = key :: after := by
    rw [List.dropWhile_append_of_pos (by simpa using hbefore)]
    simp
  rw [hdrop]
  refine ⟨key, after, rfl, hparts.2.1, ?_⟩
  apply hchain.suffix
  rw [List.append_assoc]
  exact List.suffix_append before _

end Shelf

end Perimeter
