import Perimeter.Proofs.Book.Questions

/-!
What comes of pursuing questions. As long as the resolver is idle between them,
they are all answered exactly when a new resolver answers each, and otherwise
they end in the answer that a new resolver gives to one of them. The tables grow
only by books of the scope that is asked about and by global books that no shared
table has, and they come to hold every book that is asked for by its key. Work of
a resolver inherits all this from its questions.
-/

namespace Perimeter

namespace Resolver

/-- What a new resolver of a catalog answers. -/
def answer (c : Catalog) (q : BookQuestion) : Except BookError BookAnswer :=
  outcome ((fresh c).ask q)

end Resolver

/-- The scope from which a question looks up a name, or that of its key. -/
def BookQuestion.scope : BookQuestion → Scope
  | .network _ scope | .service _ scope => scope
  | .networkAt key | .serviceAt key => key.scope

/-- The tables have the book that is asked for by its key. -/
def BookTables.Holds (t : BookTables) : BookQuestion → Prop
  | .networkAt key => key ∈ t.networks.keys
  | .serviceAt key => key ∈ t.services.keys
  | .network _ _ | .service _ _ => True

namespace Resolver

/-- The tables after some questions about a scope. -/
structure Grows (r : Resolver) (scope : Scope) (done after : BookTables) : Prop where
  networks : r.catalog.networks.Grows r.shared.networks scope done.networks after.networks
  services : r.catalog.services.Grows r.shared.services scope done.services after.services

section Pursue

variable {r : Resolver} {scope : Scope} {done between after : BookTables} {questions : List BookQuestion}

theorem Grows.refl (r : Resolver) (scope : Scope) (done : BookTables) : r.Grows scope done done :=
  ⟨.refl .., .refl ..⟩

theorem Grows.trans (h₁ : r.Grows scope done between) (h₂ : r.Grows scope between after) :
    r.Grows scope done after :=
  ⟨h₁.networks.trans h₂.networks, h₁.services.trans h₂.services⟩

theorem Grows.holds (h : r.Grows scope done after) {q : BookQuestion} (hq : done.Holds q) :
    after.Holds q := by
  cases q with
  | networkAt key => exact h.networks.kept key hq
  | serviceAt key => exact h.services.kept key hq
  | network => exact trivial
  | service => exact trivial

theorem grows_networkAt (done : BookTables) {key : BookKey}
    (hkey : key.scope = scope ∨ key.scope = .global) :
    r.Grows scope done (r.reply (.networkAt key) done).2 := by
  have hresolves := (Shelf.resolves r.catalog.networks r.shared.networks).1 [] key done.networks
  rw [reply_networkAt]
  exact ⟨hresolves.grows hkey, .refl ..⟩

theorem grows_serviceAt (done : BookTables) {key : BookKey}
    (hkey : key.scope = scope ∨ key.scope = .global) :
    r.Grows scope done (r.reply (.serviceAt key) done).2 := by
  have hresolves := (Shelf.resolves r.catalog.services r.shared.services).1 [] key done.services
  rw [reply_serviceAt]
  exact ⟨.refl .., hresolves.grows hkey⟩

theorem grows_reply (r : Resolver) (q : BookQuestion) (done : BookTables) :
    r.Grows q.scope done (r.reply q done).2 := by
  cases q with
  | networkAt key => exact grows_networkAt done (Or.inl rfl)
  | serviceAt key => exact grows_serviceAt done (Or.inl rfl)
  | network name scope =>
    cases hlookup : r.catalog.networks.lookup? name scope with
    | none =>
      rw [reply_noNetwork r done hlookup]
      exact .refl ..
    | some key =>
      rw [reply_network r done hlookup]
      exact grows_networkAt done (Shelf.scope_of_lookup? hlookup (Or.inl rfl))
  | service name scope =>
    cases hlookup : r.catalog.services.lookup? name scope with
    | none =>
      rw [reply_noService r done hlookup]
      exact .refl ..
    | some key =>
      rw [reply_service r done hlookup]
      exact grows_serviceAt done (Shelf.scope_of_lookup? hlookup (Or.inl rfl))

theorem holds_of_reply {q : BookQuestion} {a : BookAnswer}
    (h : r.reply q done = (.ok a, after)) : r.shared.Holds q ∨ after.Holds q := by
  cases q with
  | networkAt key =>
    have hresolves := (Shelf.resolves r.catalog.networks r.shared.networks).1 [] key done.networks
    rw [reply_networkAt] at h
    cases hrun : resolveKey r.catalog.networks r.shared.networks [] key done.networks with
    | mk result networks =>
      rw [hrun] at h hresolves
      cases result with
      | ok set =>
        cases h
        exact hresolves.mem_keys
      | error e => cases h
  | serviceAt key =>
    have hresolves := (Shelf.resolves r.catalog.services r.shared.services).1 [] key done.services
    rw [reply_serviceAt] at h
    cases hrun : resolveKey r.catalog.services r.shared.services [] key done.services with
    | mk result services =>
      rw [hrun] at h hresolves
      cases result with
      | ok set =>
        cases h
        exact hresolves.mem_keys
      | error e => cases h
  | network => exact Or.inl trivial
  | service => exact Or.inl trivial

/-- An idle resolver answers as a new one, and is idle afterwards. -/
theorem Idle.reply (hshared : r.catalog.Sound r.shared) (h : r.Idle ⟨[], done⟩)
    {q : BookQuestion} {a : Except BookError BookAnswer} (hreply : r.reply q done = (a, after)) :
    r.Idle ⟨[], after⟩ ∧ a = answer r.catalog q := by
  have hserves := r.serves_reply q done
  rw [hreply] at hserves
  exact hserves.idle hshared h

theorem run_pursue_cons (r : Resolver) (q : BookQuestion) (rest : List BookQuestion)
    (done : BookTables) :
    (r.pursue (q :: rest)).run.run done =
      match r.reply q done with
      | (.ok _, after) => (r.pursue rest).run.run after
      | (.error e, after) => (.error e, after) := by
  have hstep : r.pursue (q :: rest) = r.ask q >>= fun _ => r.pursue rest := by
    change (Functor.discard (r.ask q) >>= fun _ => r.pursue rest) = _
    exact bind_map_left _ _ _
  rw [hstep, Catalog.run_bind, reply]
  obtain ⟨result, after⟩ := (r.ask q).run.run done
  cases result <;> rfl

/-- Questions that are pursued are all answered, or end in the error of one of
them. -/
theorem Idle.pursue (hshared : r.catalog.Sound r.shared) (h : r.Idle ⟨[], done⟩)
    {result : Except BookError Unit} (hrun : (r.pursue questions).run.run done = (result, after)) :
    (result = .ok () ↔ ∀ q ∈ questions, ∃ a, answer r.catalog q = .ok a) ∧
      ∀ e, result = .error e → ∃ q ∈ questions, answer r.catalog q = .error e := by
  induction questions generalizing done with
  | nil =>
    cases hrun
    simp
  | cons q rest ih =>
    rw [run_pursue_cons] at hrun
    cases hreply : r.reply q done with
    | mk first between =>
      rw [hreply] at hrun
      obtain ⟨hidle, hfirst⟩ := h.reply hshared hreply
      cases first with
      | ok a =>
        obtain ⟨hok, herror⟩ := ih hidle hrun
        refine ⟨?_, ?_⟩
        · rw [hok, List.forall_mem_cons, ← hfirst]
          simp
        · intro e he
          obtain ⟨q', hq', hanswer⟩ := herror e he
          exact ⟨q', List.mem_cons_of_mem _ hq', hanswer⟩
      | error e =>
        cases hrun
        refine ⟨?_, ?_⟩
        · rw [List.forall_mem_cons, ← hfirst]
          simp
        · intro e' he
          cases he
          exact ⟨q, List.mem_cons_self, hfirst.symm⟩

theorem grows_pursue (hscope : ∀ q ∈ questions, q.scope = scope) {result : Except BookError Unit}
    (hrun : (r.pursue questions).run.run done = (result, after)) : r.Grows scope done after := by
  induction questions generalizing done with
  | nil =>
    cases hrun
    exact .refl ..
  | cons q rest ih =>
    rw [run_pursue_cons] at hrun
    have hfirst := r.grows_reply q done
    rw [hscope q List.mem_cons_self] at hfirst
    cases hreply : r.reply q done with
    | mk first between =>
      rw [hreply] at hrun hfirst
      cases first with
      | ok a => exact hfirst.trans (ih (fun q' hq' => hscope q' (List.mem_cons_of_mem _ hq')) hrun)
      | error e =>
        cases hrun
        exact hfirst

theorem holds_of_pursue (hscope : ∀ q ∈ questions, q.scope = scope)
    (hrun : (r.pursue questions).run.run done = (.ok (), after)) :
    ∀ q ∈ questions, r.shared.Holds q ∨ after.Holds q := by
  induction questions generalizing done with
  | nil =>
    intro q hq
    cases hq
  | cons q rest ih =>
    have hrest : ∀ q' ∈ rest, q'.scope = scope :=
      fun q' hq' => hscope q' (List.mem_cons_of_mem _ hq')
    rw [run_pursue_cons] at hrun
    cases hreply : r.reply q done with
    | mk first between =>
      rw [hreply] at hrun
      cases first with
      | ok a =>
        have hlater := grows_pursue hrest hrun
        rw [List.forall_mem_cons]
        refine ⟨?_, ih hrest hrun⟩
        rcases holds_of_reply hreply with hshared | hhere
        · exact Or.inl hshared
        · exact Or.inr (hlater.holds hhere)
      | error e => cases hrun

end Pursue

section FromEmpty

variable {r : Resolver} {α : Type} {work : Resolving α} {questions : List BookQuestion} {scope : Scope}

/-- Work that asks questions leaves the tables that the questions leave, and
fails with the error with which they fail. -/
theorem Asks.run (h : r.Asks work questions) (done : BookTables) :
    (r.pursue questions).run.run done =
      ((work.run.run done).1.map fun _ => (), (work.run.run done).2) := by
  rw [← h, run_map]

theorem fromEmpty_eq_ok {a : α} {tables : BookTables} :
    fromEmpty work = .ok (a, tables) ↔ work.run.run .empty = (.ok a, tables) := by
  unfold fromEmpty
  obtain ⟨result, after⟩ := work.run.run .empty
  constructor
  · intro h
    cases result with
    | ok b =>
      cases h
      rfl
    | error e => cases h
  · intro h
    cases h
    rfl

theorem fromEmpty_eq_error {e : BookError} :
    fromEmpty work = .error e ↔ (work.run.run .empty).1 = .error e := by
  unfold fromEmpty
  cases work.run.run .empty with
  | mk result after => cases result <;> simp [Except.map]

/-- Work comes to a result exactly when a new resolver answers each question
that it asks. -/
theorem Asks.ok_iff (h : r.Asks work questions) (hshared : r.catalog.Sound r.shared) :
    (∃ result, fromEmpty work = .ok result) ↔
      ∀ q ∈ questions, ∃ a, answer r.catalog q = .ok a := by
  rw [← (idle_start.pursue hshared (h.run .empty)).1]
  unfold fromEmpty
  cases work.run.run .empty with
  | mk result after => cases result <;> simp [Except.map]

/-- Work fails with what a new resolver answers to one of its questions. -/
theorem Asks.error (h : r.Asks work questions) (hshared : r.catalog.Sound r.shared)
    {e : BookError} (hfails : fromEmpty work = .error e) :
    ∃ q ∈ questions, answer r.catalog q = .error e := by
  apply (idle_start.pursue hshared (h.run .empty)).2
  rw [fromEmpty_eq_error.mp hfails]
  rfl

theorem Asks.grows (h : r.Asks work questions) (hscope : ∀ q ∈ questions, q.scope = scope) :
    r.Grows scope .empty (work.run.run .empty).2 :=
  grows_pursue hscope (h.run .empty)

theorem Asks.holds (h : r.Asks work questions) (hscope : ∀ q ∈ questions, q.scope = scope)
    {a : α} {tables : BookTables} (hok : fromEmpty work = .ok (a, tables)) :
    ∀ q ∈ questions, r.shared.Holds q ∨ tables.Holds q := by
  have hrun := h.run .empty
  rw [fromEmpty_eq_ok.mp hok] at hrun
  exact holds_of_pursue hscope hrun

end FromEmpty

end Resolver

end Perimeter
