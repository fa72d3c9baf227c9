import Perimeter.Proofs.Book.Catalog
import Perimeter.Proofs.Book.Growth

/-!
Tables that share out the books of a shelf by scope. Resolution in a scope that
may read all global books adds books of the scope only; so the tables of
different scopes have no key in common, and joined in any order they make one
map, with one entry for every book of the shelf.
-/

namespace Perimeter

namespace Shelf

variable {Literal Set : Type} {shelf : Shelf Literal} {scope : Scope} {t : Table Set}

/-- A table of books of one scope. -/
structure Owned (shelf : Shelf Literal) (scope : Scope) (t : Table Set) : Prop where
  scope : ∀ key ∈ t.keys, key.scope = scope
  there : ∀ key ∈ t.keys, shelf.has key = true
  distinct : t.keys.Nodup

/-- A table with all books of a scope. -/
def Full (shelf : Shelf Literal) (scope : Scope) (t : Table Set) : Prop :=
  ∀ key, shelf.has key = true → key.scope = scope → key ∈ t.keys

theorem Owned.apart {other : Scope} {u : Table Set} (ht : shelf.Owned scope t)
    (hu : shelf.Owned other u) (hne : scope ≠ other) : t.Apart u := by
  intro key hkey hkey'
  exact hne ((ht.scope key hkey).symm.trans (hu.scope key hkey'))

/-- The first tables have global books only. -/
theorem Grows.owned_global (h : shelf.Grows .empty .global .empty t) :
    shelf.Owned .global t := by
  have hadded : ∀ key ∈ t.keys, shelf.has key = true ∧ key.scope = .global := by
    intro key hkey
    rcases h.added key hkey with hold | ⟨_, hthere, hscope⟩
    · exact absurd hold Table.not_mem_keys_empty
    · exact ⟨hthere, hscope.elim id id⟩
  exact ⟨fun key hkey => (hadded key hkey).2, fun key hkey => (hadded key hkey).1,
    h.distinct List.nodup_nil⟩

/-- Where all global books can be read, none of them is added. -/
theorem Grows.owned {shared : Table Set} (h : shelf.Grows shared scope .empty t)
    (hshared : shelf.Full .global shared) : shelf.Owned scope t := by
  have hadded : ∀ key ∈ t.keys, shelf.has key = true ∧ key.scope = scope := by
    intro key hkey
    rcases h.added key hkey with hold | ⟨hoff, hthere, hhere | hglobal⟩
    · exact absurd hold Table.not_mem_keys_empty
    · exact ⟨hthere, hhere⟩
    · exact absurd (hshared key hthere hglobal) hoff
  exact ⟨fun key hkey => (hadded key hkey).2, fun key hkey => (hadded key hkey).1,
    h.distinct List.nodup_nil⟩

/-- Tables for the scopes of all books, one for each scope. -/
structure Split (shelf : Shelf Literal) (parts : List (Scope × Table Set)) : Prop where
  scopes : (parts.map Prod.fst).Nodup
  owned : ∀ p ∈ parts, shelf.Owned p.1 p.2
  full : ∀ p ∈ parts, shelf.Full p.1 p.2
  complete : ∀ b ∈ shelf.books, b.scope ∈ parts.map Prod.fst

namespace Split

variable {parts : List (Scope × Table Set)}

theorem apart (h : shelf.Split parts) : (parts.map Prod.snd).Pairwise Table.Apart := by
  have hscopes := List.pairwise_map.mp h.scopes
  apply List.pairwise_map.mpr
  apply hscopes.imp_of_mem
  intro p q hp hq hne
  exact (h.owned p hp).apart (h.owned q hq) hne

/-- Each book of the shelf has its key in one of the tables, once. -/
theorem keys_perm (h : shelf.Split parts) :
    (parts.flatMap (·.2.keys)).Perm (shelf.books.map Book.key) := by
  have hnodup : (parts.flatMap (·.2.keys)).Nodup := by
    rw [List.nodup_flatMap]
    refine ⟨fun p hp => (h.owned p hp).distinct, ?_⟩
    exact (List.pairwise_map.mp h.apart).imp fun happart key hp hq => happart key hp hq
  rw [List.perm_ext_iff_of_nodup hnodup shelf.distinct]
  intro key
  rw [List.mem_flatMap]
  constructor
  · rintro ⟨p, hp, hkey⟩
    exact has_iff.mp ((h.owned p hp).there key hkey)
  · intro hkey
    have hthere := has_iff.mpr hkey
    obtain ⟨b, hb, rfl⟩ := List.mem_map.mp hkey
    obtain ⟨p, hp, hscope⟩ := List.mem_map.mp (h.complete b hb)
    exact ⟨p, hp, h.full p hp b.key hthere hscope.symm⟩

variable {globals : Table Set} {owners : List (Scope × Table Set)} {tables : List (Table Set)}

/-- Joined in any order, the tables of all scopes make up the same entries. -/
theorem entries_foldl_merge (h : shelf.Split ((.global, globals) :: owners))
    (hperm : tables.Perm (owners.map Prod.snd)) :
    (tables.foldl .merge globals).entries.Perm
      (globals.entries ++ owners.flatMap (·.2.entries)) := by
  obtain ⟨hglobals, howners⟩ := List.pairwise_cons.mp h.apart
  have hapart : tables.Pairwise Table.Apart := hperm.symm.pairwise howners fun hab => hab.symm
  have hstart : ∀ u ∈ tables, u.Apart globals := by
    intro u hu
    exact (hglobals u (hperm.mem_iff.mp hu)).symm
  have hdistinct : ∀ u ∈ tables, u.keys.Nodup := by
    intro u hu
    obtain ⟨p, hp, rfl⟩ := List.mem_map.mp (hperm.mem_iff.mp hu)
    exact (h.owned p (List.mem_cons_of_mem _ hp)).distinct
  apply (Table.entries_foldl_merge hapart hstart hdistinct).trans
  apply List.Perm.append_left
  rw [← List.flatMap_map Prod.snd Table.entries]
  exact hperm.flatMap_right _

/-- The joined table has an entry for every book of the shelf, and no other. -/
theorem keys_foldl_merge (h : shelf.Split ((.global, globals) :: owners))
    (hperm : tables.Perm (owners.map Prod.snd)) :
    (tables.foldl .merge globals).keys.Perm (shelf.books.map Book.key) := by
  apply ((h.entries_foldl_merge hperm).map Prod.fst).trans
  rw [List.map_append, List.map_flatMap]
  exact h.keys_perm

/-- The order in which tables are joined makes no difference. -/
theorem find?_foldl_merge {tables' : List (Table Set)}
    (h : shelf.Split ((.global, globals) :: owners)) (hperm : tables.Perm (owners.map Prod.snd))
    (hperm' : tables'.Perm (owners.map Prod.snd)) (key : BookKey) :
    (tables.foldl .merge globals).find? key = (tables'.foldl .merge globals).find? key := by
  have hentries := (h.entries_foldl_merge hperm).trans (h.entries_foldl_merge hperm').symm
  apply Table.find?_eq_of_perm hentries
  exact (h.keys_foldl_merge hperm).nodup_iff.mpr shelf.distinct

end Split

end Shelf

end Perimeter
