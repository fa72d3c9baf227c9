import Perimeter.Proofs.Book.Catalog
import Perimeter.Proofs.Book.History
import Perimeter.Snapshot.Resolution

/-!
The questions behind the work of a resolver. Apart from its result, work on a
device is the same as asking a list of questions in order until one fails: for
the books of its scope, for the books that its rules name, and for those that
its zones name. So whether it succeeds, with which error it fails and what it
leaves in the tables follow from the questions.
-/

namespace Perimeter

namespace Resolver

/-- Asks questions in order until one fails. -/
def pursue (r : Resolver) (questions : List BookQuestion) : Resolving Unit :=
  questions.forM fun q => discard (r.ask q)

/-- Up to its result, the work is to ask these questions. -/
def Asks {α : Type} (r : Resolver) (work : Resolving α) (questions : List BookQuestion) : Prop :=
  (fun _ => ()) <$> work = r.pursue questions

section Asks

variable {r : Resolver} {α β : Type} {questions later : List BookQuestion}

theorem pursue_append (r : Resolver) (questions later : List BookQuestion) :
    r.pursue (questions ++ later) = r.pursue questions >>= fun _ => r.pursue later :=
  List.forM_append

theorem asks_pure (a : α) : r.Asks (pure a) [] :=
  map_pure _ a

theorem Asks.bind {work : Resolving α} {next : α → Resolving β} (hwork : r.Asks work questions)
    (hnext : ∀ a, r.Asks (next a) later) : r.Asks (work >>= next) (questions ++ later) := by
  unfold Asks at *
  rw [map_bind, pursue_append, ← hwork, bind_map_left]
  simp only [hnext]

theorem Asks.then_pure {work : Resolving α} (hwork : r.Asks work questions) (f : α → β) :
    r.Asks (work >>= fun a => pure (f a)) questions := by
  have hboth := hwork.bind fun a => asks_pure (f a)
  rwa [List.append_nil] at hboth

theorem Asks.discard {work : Resolving α} (hwork : r.Asks work questions) :
    r.Asks (Functor.discard work) questions :=
  hwork.then_pure fun _ => ()

theorem asks_mapM {f : α → Resolving β} {ask : α → List BookQuestion} {xs : List α}
    (h : ∀ x ∈ xs, r.Asks (f x) (ask x)) : r.Asks (xs.mapM f) (xs.flatMap ask) := by
  induction xs with
  | nil =>
    rw [List.mapM_nil]
    exact asks_pure []
  | cons x rest ih =>
    rw [List.mapM_cons, List.flatMap_cons]
    apply (h x List.mem_cons_self).bind
    intro y
    exact (ih fun z hz => h z (List.mem_cons_of_mem _ hz)).then_pure fun ys => y :: ys

theorem asks_forM {f : α → Resolving Unit} {ask : α → List BookQuestion} {xs : List α}
    (h : ∀ x ∈ xs, r.Asks (f x) (ask x)) : r.Asks (xs.forM f) (xs.flatMap ask) := by
  induction xs with
  | nil => exact asks_pure ()
  | cons x rest ih =>
    rw [List.flatMap_cons]
    change r.Asks (f x >>= fun _ => rest.forM f) _
    apply (h x List.mem_cons_self).bind
    intro _
    exact ih fun z hz => h z (List.mem_cons_of_mem _ hz)

/-- Asking is asking, whatever is made of the answer. -/
theorem asks_of_map {work : Resolving α} {f : α → BookAnswer} {q : BookQuestion}
    (h : r.ask q = f <$> work) : r.Asks work [q] := by
  have hpursue : r.pursue [q] = (fun _ => ()) <$> r.ask q := by
    change (Functor.discard (r.ask q) >>= fun _ => pure ()) = _
    exact bind_pure_unit
  rw [Asks, hpursue, h, Functor.map_map]

theorem asks_network (name : String) (scope : Scope) :
    r.Asks (r.network name scope) [.network name scope] := asks_of_map rfl

theorem asks_service (name : String) (scope : Scope) :
    r.Asks (r.service name scope) [.service name scope] := asks_of_map rfl

theorem asks_networkAt (key : BookKey) : r.Asks (r.networkAt key) [.networkAt key] :=
  asks_of_map rfl

theorem asks_serviceAt (key : BookKey) : r.Asks (r.serviceAt key) [.serviceAt key] :=
  asks_of_map rfl

end Asks

end Resolver

/-- The question for a book that may be named. -/
def askFor (ask : String → BookQuestion) (book : Option String) : List BookQuestion :=
  book.toList.map ask

/-- The questions for the books that a rule names. -/
def AclRule.questions (rule : AclRule) (scope : Scope) : List BookQuestion :=
  askFor (.network · scope) rule.sourceBook ++ askFor (.network · scope) rule.destinationBook ++
    askFor (.service · scope) rule.serviceBook

/-- The question for the book that a zone names. -/
def Zone.questions (z : Zone) (scope : Scope) : List BookQuestion :=
  askFor (.network · scope) z.addressBook

/-- The questions for all books of a scope. -/
def Catalog.questions (c : Catalog) (scope : Scope) : List BookQuestion :=
  ((c.networks.books.filter (·.scope = scope)).map fun b => .networkAt b.key) ++
    (c.services.books.filter (·.scope = scope)).map fun b => .serviceAt b.key

/-- The questions for the books that are named anywhere on a device. -/
def Device.questions (d : Device) : List BookQuestion :=
  (d.ruleSets.flatMap fun rs => rs.rules.flatMap (·.questions (.device d.id))) ++
    d.zones.flatMap (·.questions (.device d.id))

/-- A rule or a zone of a device names a network book. -/
def Device.NamesNetwork (d : Device) (name : String) : Prop :=
  (∃ rs ∈ d.ruleSets, ∃ r ∈ rs.rules, r.sourceBook = some name ∨ r.destinationBook = some name) ∨
    ∃ z ∈ d.zones, z.addressBook = some name

/-- A rule of a device names a service book. -/
def Device.NamesService (d : Device) (name : String) : Prop :=
  ∃ rs ∈ d.ruleSets, ∃ r ∈ rs.rules, r.serviceBook = some name

theorem mem_askFor {ask : String → BookQuestion} {book : Option String} {q : BookQuestion} :
    q ∈ askFor ask book ↔ ∃ name, book = some name ∧ q = ask name := by
  cases book <;> simp [askFor]

/-- The questions about a device are those for the names on it. -/
theorem Device.mem_questions {d : Device} {q : BookQuestion} :
    q ∈ d.questions ↔
      (∃ name, d.NamesNetwork name ∧ q = .network name (.device d.id)) ∨
        ∃ name, d.NamesService name ∧ q = .service name (.device d.id) := by
  unfold questions AclRule.questions Zone.questions
  simp only [List.mem_append, List.mem_flatMap, mem_askFor]
  constructor
  · rintro (⟨rs, hrs, r, hr, (⟨name, hname, hq⟩ | ⟨name, hname, hq⟩) | ⟨name, hname, hq⟩⟩ |
      ⟨z, hz, name, hname, hq⟩)
    · exact Or.inl ⟨name, Or.inl ⟨rs, hrs, r, hr, Or.inl hname⟩, hq⟩
    · exact Or.inl ⟨name, Or.inl ⟨rs, hrs, r, hr, Or.inr hname⟩, hq⟩
    · exact Or.inr ⟨name, ⟨rs, hrs, r, hr, hname⟩, hq⟩
    · exact Or.inl ⟨name, Or.inr ⟨z, hz, hname⟩, hq⟩
  · rintro (⟨name, ⟨rs, hrs, r, hr, hname⟩ | ⟨z, hz, hname⟩, hq⟩ | ⟨name, ⟨rs, hrs, r, hr, hname⟩, hq⟩)
    · refine Or.inl ⟨rs, hrs, r, hr, Or.inl ?_⟩
      exact hname.imp (fun hsource => ⟨name, hsource, hq⟩) fun hdestination =>
        ⟨name, hdestination, hq⟩
    · exact Or.inr ⟨z, hz, name, hname, hq⟩
    · exact Or.inl ⟨rs, hrs, r, hr, Or.inr ⟨name, hname, hq⟩⟩

/-- The questions about a scope are those for the books that have it. -/
theorem Catalog.mem_questions {c : Catalog} {scope : Scope} {q : BookQuestion} :
    q ∈ c.questions scope ↔
      (∃ key, c.networks.has key = true ∧ key.scope = scope ∧ q = .networkAt key) ∨
        ∃ key, c.services.has key = true ∧ key.scope = scope ∧ q = .serviceAt key := by
  have hbooks : ∀ {Literal : Type} (shelf : Shelf Literal) (ask : BookKey → BookQuestion),
      q ∈ (shelf.books.filter (·.scope = scope)).map (fun b => ask b.key) ↔
        ∃ key, shelf.has key = true ∧ key.scope = scope ∧ q = ask key := by
    intro Literal shelf ask
    simp only [List.mem_map, List.mem_filter, decide_eq_true_eq]
    constructor
    · rintro ⟨b, ⟨hb, hscope⟩, rfl⟩
      exact ⟨b.key, Shelf.has_iff.mpr (List.mem_map_of_mem hb), hscope, rfl⟩
    · rintro ⟨key, hthere, hscope, rfl⟩
      obtain ⟨b, hb, rfl⟩ := List.mem_map.mp (Shelf.has_iff.mp hthere)
      exact ⟨b, ⟨hb, hscope⟩, rfl⟩
  unfold questions
  rw [List.mem_append, hbooks c.networks .networkAt, hbooks c.services .serviceAt]

namespace Resolver

variable {r : Resolver}

theorem asks_networkOrAny (book : Option String) (scope : Scope) :
    r.Asks (r.networkOrAny book scope) (askFor (.network · scope) book) := by
  cases book with
  | none => exact asks_pure _
  | some name => exact asks_network name scope

theorem asks_serviceOrAny (book : Option String) (scope : Scope) :
    r.Asks (r.serviceOrAny book scope) (askFor (.service · scope) book) := by
  cases book with
  | none => exact asks_pure _
  | some name => exact asks_service name scope

theorem asks_rule (scope : Scope) (rule : AclRule) :
    r.Asks (r.rule scope rule) (rule.questions scope) := by
  unfold AclRule.questions
  rw [List.append_assoc]
  apply (asks_networkOrAny rule.sourceBook scope).bind
  intro source
  apply (asks_networkOrAny rule.destinationBook scope).bind
  intro destination
  exact (asks_serviceOrAny rule.serviceBook scope).then_pure _

theorem asks_ruleSet (device : String) (rs : RuleSet) :
    r.Asks (r.ruleSet device rs) (rs.rules.flatMap (·.questions (.device device))) := by
  apply Asks.then_pure
  apply asks_mapM
  intro rule _
  exact (asks_rule (.device device) rule).then_pure _

theorem asks_zoneBooks (d : Device) :
    r.Asks (r.zoneBooks d) (d.zones.flatMap (·.questions (.device d.id))) := by
  apply Asks.then_pure
  apply asks_mapM
  intro z _
  unfold Zone.questions
  cases z.addressBook with
  | none => exact asks_pure _
  | some book => exact (asks_network book (.device d.id)).then_pure _

theorem asks_resolveScope (scope : Scope) :
    r.Asks (r.resolveScope scope) (r.catalog.questions scope) := by
  unfold Catalog.questions
  rw [← List.flatMap_singleton' (List.map _ (r.catalog.networks.books.filter _)),
    ← List.flatMap_singleton' (List.map _ (r.catalog.services.books.filter _)), List.flatMap_map,
    List.flatMap_map]
  apply Asks.bind
  · exact asks_forM fun b _ => (asks_networkAt b.key).discard
  · intro _
    exact asks_forM fun b _ => (asks_serviceAt b.key).discard

theorem asks_device (d : Device) :
    r.Asks (r.device d) (r.catalog.questions (.device d.id) ++ d.questions) := by
  apply (asks_resolveScope (.device d.id)).bind
  intro _
  apply (asks_mapM fun rs _ => asks_ruleSet d.id rs).bind
  intro ruleSets
  exact (asks_zoneBooks d).then_pure _

end Resolver

end Perimeter
