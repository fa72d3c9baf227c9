import Perimeter.Proofs.Book.Resolution

/-!
The work of a resolver, which may fail and keeps what it has resolved either
way. It finds something when, as long as the tables it reads and adds to hold
what books expand to, so they do afterwards, and every result has a property.
What a piece of work finds follows from what its parts find; at the bottom are
questions for the set of one book.
-/

namespace Perimeter

namespace Shelf

variable {Literal Set : Type} [BookSet Literal Set] {shelf : Shelf Literal}

/-- A name stands in a scope for a book that expands to the set. -/
def StandsFor (shelf : Shelf Literal) (name : String) (scope : Scope) (set : Set) : Prop :=
  ∃ key, shelf.lookup? name scope = some key ∧ shelf.Expands (.book key) set

theorem resolveName_standsFor {shared done : Table Set} (hshared : shelf.Sound shared)
    (hdone : shelf.Sound done) (name : String) (scope : Scope) :
    shelf.Sound (resolveName shelf shared name scope done).2 ∧
      ∀ set, (resolveName shelf shared name scope done).1 = .ok set →
        shelf.StandsFor name scope set := by
  unfold resolveName
  cases hlookup : shelf.lookup? name scope with
  | none =>
    refine ⟨hdone, ?_⟩
    intro set hset
    cases hset
  | some key =>
    have hanswers := resolveKey_answers hshared hdone [] key
    exact ⟨hanswers.sound, fun set hset => ⟨key, hlookup, hanswers.ok set hset⟩⟩

end Shelf

namespace Catalog

/-- Every set in the tables is what its book expands to. -/
structure Sound (c : Catalog) (t : BookTables) : Prop where
  networks : c.networks.Sound t.networks
  services : c.services.Sound t.services

variable {c : Catalog} {α β : Type}

theorem sound_empty : c.Sound .empty := ⟨Shelf.sound_empty, Shelf.sound_empty⟩

/-- Sound tables are joined to sound tables. -/
theorem Sound.foldl_merge {tables : List BookTables} {t : BookTables} (ht : c.Sound t)
    (h : ∀ u ∈ tables, c.Sound u) : c.Sound (tables.foldl .merge t) := by
  induction tables generalizing t with
  | nil => exact ht
  | cons u rest ih =>
    have hu := h u List.mem_cons_self
    exact ih ⟨ht.networks.merge hu.networks, ht.services.merge hu.services⟩
      fun v hv => h v (List.mem_cons_of_mem _ hv)

/-- The work keeps tables sound, and what it results in has the property. -/
def Finds (c : Catalog) (work : Resolving α) (P : α → Prop) : Prop :=
  ∀ done, c.Sound done →
    c.Sound (work.run.run done).2 ∧ ∀ a, (work.run.run done).1 = .ok a → P a

theorem finds_pure {P : α → Prop} {a : α} (h : P a) : c.Finds (pure a) P := by
  intro done hdone
  refine ⟨hdone, ?_⟩
  intro b hb
  cases hb
  exact h

/-- One piece of work after another: the second starts from the tables that the
first leaves, unless the first fails. -/
theorem run_bind (work : Resolving α) (next : α → Resolving β) (done : BookTables) :
    (work >>= next).run.run done =
      match work.run.run done with
      | (.ok a, after) => (next a).run.run after
      | (.error e, after) => (.error e, after) := by
  rw [ExceptT.run_bind, StateT.run_bind]
  generalize work.run.run done = outcome
  obtain ⟨result, after⟩ := outcome
  cases result with
  | ok a => rfl
  | error e => rfl

theorem Finds.bind {work : Resolving α} {next : α → Resolving β} {P : α → Prop} {Q : β → Prop}
    (hwork : c.Finds work P) (hnext : ∀ a, P a → c.Finds (next a) Q) :
    c.Finds (work >>= next) Q := by
  intro done hdone
  obtain ⟨hsound, hresult⟩ := hwork done hdone
  rw [run_bind]
  cases hrun : work.run.run done with
  | mk result after =>
    rw [hrun] at hsound hresult
    cases result with
    | ok a => exact hnext a (hresult a rfl) after hsound
    | error e =>
      refine ⟨hsound, ?_⟩
      intro b hb
      cases hb

theorem Finds.mono {work : Resolving α} {P Q : α → Prop} (h : c.Finds work P)
    (himp : ∀ a, P a → Q a) : c.Finds work Q := by
  intro done hdone
  obtain ⟨hsound, hresult⟩ := h done hdone
  exact ⟨hsound, fun a ha => himp a (hresult a ha)⟩

theorem Finds.discard {work : Resolving α} {P : α → Prop} (h : c.Finds work P) :
    c.Finds (Functor.discard work) fun _ => True :=
  h.bind fun _ _ => finds_pure trivial

theorem finds_mapM {f : α → Resolving β} {R : α → β → Prop} {xs : List α}
    (h : ∀ x ∈ xs, c.Finds (f x) (R x)) : c.Finds (xs.mapM f) (List.Forall₂ R xs) := by
  induction xs with
  | nil =>
    rw [List.mapM_nil]
    exact finds_pure .nil
  | cons x rest ih =>
    rw [List.mapM_cons]
    apply (h x List.mem_cons_self).bind
    intro y hy
    apply (ih fun z hz => h z (List.mem_cons_of_mem _ hz)).bind
    intro ys hys
    exact finds_pure (.cons hy hys)

theorem finds_forM {f : α → Resolving Unit} {xs : List α}
    (h : ∀ x ∈ xs, c.Finds (f x) fun _ => True) : c.Finds (xs.forM f) fun _ => True := by
  induction xs with
  | nil => exact finds_pure trivial
  | cons x rest ih =>
    change c.Finds (f x >>= fun _ => rest.forM f) _
    apply (h x List.mem_cons_self).bind
    intro _ _
    exact ih fun z hz => h z (List.mem_cons_of_mem _ hz)

theorem finds_networkAt {r : Resolver} (hshared : r.catalog.Sound r.shared) (key : BookKey) :
    r.catalog.Finds (r.networkAt key) fun set => r.catalog.networks.Expands (.book key) set := by
  intro done hdone
  have hanswers := Shelf.resolveKey_answers hshared.networks hdone.networks [] key
  exact ⟨⟨hanswers.sound, hdone.services⟩, hanswers.ok⟩

theorem finds_serviceAt {r : Resolver} (hshared : r.catalog.Sound r.shared) (key : BookKey) :
    r.catalog.Finds (r.serviceAt key) fun set => r.catalog.services.Expands (.book key) set := by
  intro done hdone
  have hanswers := Shelf.resolveKey_answers hshared.services hdone.services [] key
  exact ⟨⟨hdone.networks, hanswers.sound⟩, hanswers.ok⟩

/-- The set that is found for a name is what the book expands to for which the
name stands in its scope. -/
theorem finds_network {r : Resolver} (hshared : r.catalog.Sound r.shared) (name : String)
    (scope : Scope) :
    r.catalog.Finds (r.network name scope) fun set =>
      r.catalog.networks.StandsFor name scope set := by
  intro done hdone
  have hname := Shelf.resolveName_standsFor hshared.networks hdone.networks name scope
  exact ⟨⟨hname.1, hdone.services⟩, hname.2⟩

theorem finds_service {r : Resolver} (hshared : r.catalog.Sound r.shared) (name : String)
    (scope : Scope) :
    r.catalog.Finds (r.service name scope) fun set =>
      r.catalog.services.StandsFor name scope set := by
  intro done hdone
  have hname := Shelf.resolveName_standsFor hshared.services hdone.services name scope
  exact ⟨⟨hdone.networks, hname.1⟩, hname.2⟩

theorem finds_resolveScope {r : Resolver} (hshared : r.catalog.Sound r.shared) (scope : Scope) :
    r.catalog.Finds (r.resolveScope scope) fun _ => True := by
  apply Finds.bind (P := fun _ => True)
  · apply finds_forM
    intro b _
    exact (finds_networkAt hshared b.key).discard
  · intro _ _
    apply finds_forM
    intro b _
    exact (finds_serviceAt hshared b.key).discard

end Catalog

end Perimeter
