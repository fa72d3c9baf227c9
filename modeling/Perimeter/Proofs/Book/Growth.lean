import Perimeter.Proofs.Book.Course

/-!
How the table of completed books grows. Resolution keeps what is there, adds a
key at most once, and adds only keys of books of the scope it started from or of
global books, and of those only what no shared table has.
-/

namespace Perimeter

namespace Shelf

variable {Literal Set : Type} {shelf : Shelf Literal}
variable {shared done between after : Table Set} {scope : Scope}

/-- A name is found in the scope that it is looked up from, or globally; so a
look-up from a scope or from the global one stays within the two. -/
theorem scope_of_lookup? {other : Scope} {name : String} {key : BookKey}
    (h : shelf.lookup? name other = some key) (hother : other = scope ∨ other = .global) :
    key.scope = scope ∨ key.scope = .global := by
  unfold lookup? at h
  split at h
  · cases h
    exact hother
  · split at h
    · cases h
      exact Or.inr rfl
    · cases h

/-- The table after some resolution that started from a scope. -/
structure Grows (shelf : Shelf Literal) (shared : Table Set) (scope : Scope)
    (done after : Table Set) : Prop where
  kept : ∀ key ∈ done.keys, key ∈ after.keys
  added : ∀ key ∈ after.keys, key ∈ done.keys ∨
    key ∉ shared.keys ∧ shelf.has key = true ∧ (key.scope = scope ∨ key.scope = .global)
  distinct : done.keys.Nodup → after.keys.Nodup

theorem Grows.refl (shared done : Table Set) (scope : Scope) :
    shelf.Grows shared scope done done :=
  ⟨fun _ hkey => hkey, fun _ hkey => Or.inl hkey, id⟩

theorem Grows.trans (h₁ : shelf.Grows shared scope done between)
    (h₂ : shelf.Grows shared scope between after) : shelf.Grows shared scope done after := by
  refine ⟨fun key hkey => h₂.kept key (h₁.kept key hkey), ?_, h₂.distinct ∘ h₁.distinct⟩
  intro key hkey
  rcases h₂.added key hkey with hbetween | hnew
  · exact h₁.added key hbetween
  · exact Or.inr hnew

/-- A book that is entered may be added. -/
theorem Grows.insert {path : List BookKey} {key : BookKey} {book : Book Literal}
    (h : shelf.Grows shared scope done after) (henters : shelf.Enters shared path key done book)
    (hscope : key.scope = scope ∨ key.scope = .global) (set : Set) :
    shelf.Grows shared scope done (after.insert key set) := by
  have hthere : shelf.has key = true := by
    rw [has_eq_isSome_find?, henters.find]
    rfl
  refine ⟨?_, ?_, fun hdistinct => Table.nodup_keys_insert (h.distinct hdistinct) key set⟩
  · intro other hother
    exact Table.mem_keys_insert.mpr (Or.inr (h.kept other hother))
  · intro other hother
    rcases Table.mem_keys_insert.mp hother with rfl | hold
    · exact Or.inr ⟨Table.not_mem_keys_iff.mpr henters.unshared, hthere, hscope⟩
    · exact h.added other hold

/-- A subject belongs to a scope: what it names is found there or globally. -/
def Subject.Within (scope : Scope) : Subject Literal → Prop
  | .book key => key.scope = scope ∨ key.scope = .global
  | .items other _ => other = scope ∨ other = .global

variable [BookSet Literal Set]

theorem Resolves.grows {path : List BookKey} {subject : Subject Literal}
    {r : Except BookError Set × Table Set} (h : shelf.Resolves shared path subject done r)
    (hwithin : subject.Within scope) : shelf.Grows shared scope done r.2 := by
  induction h with
  | shared => exact .refl ..
  | known => exact .refl ..
  | cycle => exact .refl ..
  | missing => exact .refl ..
  | entriesFail _ _ ih => exact ih hwithin
  | exclusionsFail _ _ _ ihentries ihexclusions =>
    exact (ihentries hwithin).trans (ihexclusions hwithin)
  | complete henters _ _ ihentries ihexclusions =>
    exact ((ihentries hwithin).trans (ihexclusions hwithin)).insert henters hwithin _
  | nil => exact .refl ..
  | literalFail _ ih => exact ih hwithin
  | literal _ ih => exact ih hwithin
  | unknown => exact .refl ..
  | nestedFail hlookup _ ih => exact ih (scope_of_lookup? hlookup hwithin)
  | laterFail hlookup _ _ ihnested ihrest =>
    exact (ihnested (scope_of_lookup? hlookup hwithin)).trans (ihrest hwithin)
  | reference hlookup _ _ ihnested ihrest =>
    exact (ihnested (scope_of_lookup? hlookup hwithin)).trans (ihrest hwithin)

/-- A book that is resolved has its set in one of the tables from then on. -/
theorem Resolves.mem_keys {path : List BookKey} {key : BookKey} {set : Set}
    (h : shelf.Resolves shared path (.book key) done (.ok set, after)) :
    key ∈ shared.keys ∨ key ∈ after.keys := by
  cases h with
  | shared hfind => exact Or.inl (Table.mem_keys_of_find? hfind)
  | known _ hfind => exact Or.inr (Table.mem_keys_of_find? hfind)
  | complete => exact Or.inr (Table.mem_keys_insert.mpr (Or.inl rfl))

end Shelf

end Perimeter
