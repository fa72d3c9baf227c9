import Perimeter.Proofs.Book.Errors
import Perimeter.Proofs.Book.Growth
import Perimeter.Proofs.Book.Stack
import Perimeter.Proofs.Book.Work

/-!
A resolver with a history. Whatever it was asked before, and whatever failed, it
answers each question as a new resolver does that reads no table; its stack is
empty between questions; and its table holds only books that can be resolved,
each with its whole set, and none that a table has which it reads.
-/

namespace Perimeter

namespace Shelf

variable {Literal Set : Type} [BookSet Literal Set] {shelf : Shelf Literal}

/-- What resolution answers is settled by the books alone. -/
theorem Answers.unique {subject : Subject Literal} {r r' : Except BookError Set × Table Set}
    (h : shelf.Answers [] subject r) (h' : shelf.Answers [] subject r') : r.1 = r'.1 := by
  have hleads := shelf.leadsTo_nil subject
  cases hr : r.1 with
  | ok set =>
    have hexpands := h.ok set hr
    cases hr' : r'.1 with
    | ok set' => rw [hexpands.unique (h'.ok set' hr')]
    | error e => exact absurd hexpands ((h'.error e hr').not_expands hleads)
  | error e =>
    have hfails := h.error e hr
    cases hr' : r'.1 with
    | ok set => exact absurd (h'.ok set hr') (hfails.not_expands hleads)
    | error e' => rw [hfails.unique (h'.error e' hr') hleads]

variable {shared done : Table Set}

theorem resolveName_of_lookup? (shared : Table Set) {name : String} {scope : Scope} {key : BookKey}
    (h : shelf.lookup? name scope = some key) :
    resolveName shelf shared name scope = resolveKey shelf shared [] key := by
  funext done
  rw [resolveName, h]

theorem resolveName_of_unknown (shared : Table Set) {name : String} {scope : Scope}
    (h : shelf.lookup? name scope = none) :
    resolveName shelf shared name scope = fun done =>
      (.error (.unknownReference name scope), done) := by
  funext done
  rw [resolveName, h]

/-- What a sound table has under a key is what a new resolver finds. -/
theorem Sound.fresh_of_find? (hdone : shelf.Sound done) {key : BookKey} {set : Set}
    (h : done.find? key = some set) : (resolveKey shelf .empty [] key .empty).1 = .ok set := by
  have hfound : shelf.Answers [] (.book key) (.ok set, done) := .of_expands (hdone key set h) hdone
  exact (resolveKey_answers sound_empty sound_empty [] key).unique hfound

omit [BookSet Literal Set] in
theorem Grows.apart {after : Table Set} {scope : Scope}
    (h : shelf.Grows shared scope done after) (hdone : done.Apart shared) :
    after.Apart shared := by
  intro key hkey
  exact (h.added key hkey).elim (hdone key) (·.1)

/-- Work on the book under a key that starts from an empty stack ends with one;
it answers as a new resolver does, and keeps the table sound and apart from the
one that is read. -/
theorem Performs.fresh {b after : Bench Set} {answer : Except BookError Set} {key : BookKey}
    (h : shelf.Performs shared (.book key) b answer after) (hstack : b.stack = [])
    (hshared : shelf.Sound shared) (hsound : shelf.Sound b.done) (hapart : b.done.Apart shared) :
    after.stack = [] ∧ answer = (resolveKey shelf .empty [] key .empty).1 ∧
      shelf.Sound after.done ∧ after.done.Apart shared := by
  obtain ⟨hrestored, hresolves⟩ := h.resolves
  rw [hstack] at hrestored hresolves
  have hanswers := hresolves.answers hshared hsound
  have hwithin : (Subject.book key : Subject Literal).Within key.scope := Or.inl rfl
  refine ⟨hrestored, ?_, hanswers.sound, (hresolves.grows hwithin).apart hapart⟩
  exact hanswers.unique (resolveKey_answers sound_empty sound_empty [] key)

end Shelf

/-- A resolver between questions, or in the middle of one: the keys of the books
that it is expanding, and what it has resolved. -/
structure ResolverState where
  stack : List BookKey
  done : BookTables

namespace ResolverState

def start : ResolverState := ⟨[], .empty⟩

def onNetworks (s : ResolverState) : Bench NetworkSet := ⟨s.stack, s.done.networks⟩

def onServices (s : ResolverState) : Bench ServiceSet := ⟨s.stack, s.done.services⟩

def withNetworks (s : ResolverState) (b : Bench NetworkSet) : ResolverState :=
  ⟨b.stack, { s.done with networks := b.done }⟩

def withServices (s : ResolverState) (b : Bench ServiceSet) : ResolverState :=
  ⟨b.stack, { s.done with services := b.done }⟩

end ResolverState

namespace Resolver

/-- How a resolver serves a question: from one state, with an answer, to the
next. -/
inductive Serves (r : Resolver) : BookQuestion → ResolverState → Except BookError BookAnswer →
    ResolverState → Prop where
  | networkAt {key : BookKey} {s : ResolverState} {answer : Except BookError NetworkSet}
      {after : Bench NetworkSet}
      (h : r.catalog.networks.Performs r.shared.networks (.book key) s.onNetworks answer after) :
      Serves r (.networkAt key) s (answer.map .network) (s.withNetworks after)
  | serviceAt {key : BookKey} {s : ResolverState} {answer : Except BookError ServiceSet}
      {after : Bench ServiceSet}
      (h : r.catalog.services.Performs r.shared.services (.book key) s.onServices answer after) :
      Serves r (.serviceAt key) s (answer.map .service) (s.withServices after)
  | network {name : String} {scope : Scope} {key : BookKey} {s after : ResolverState}
      {answer : Except BookError BookAnswer}
      (hlookup : r.catalog.networks.lookup? name scope = some key)
      (h : Serves r (.networkAt key) s answer after) : Serves r (.network name scope) s answer after
  | noNetwork {name : String} {scope : Scope} {s : ResolverState}
      (hlookup : r.catalog.networks.lookup? name scope = none) :
      Serves r (.network name scope) s (.error (.unknownReference name scope)) s
  | service {name : String} {scope : Scope} {key : BookKey} {s after : ResolverState}
      {answer : Except BookError BookAnswer}
      (hlookup : r.catalog.services.lookup? name scope = some key)
      (h : Serves r (.serviceAt key) s answer after) : Serves r (.service name scope) s answer after
  | noService {name : String} {scope : Scope} {s : ResolverState}
      (hlookup : r.catalog.services.lookup? name scope = none) :
      Serves r (.service name scope) s (.error (.unknownReference name scope)) s

/-- Questions served one after another, each from the state that the one before
leaves. -/
inductive Session (r : Resolver) : List BookQuestion → ResolverState →
    List (Except BookError BookAnswer) → ResolverState → Prop where
  | nil (s : ResolverState) : Session r [] s [] s
  | cons {q : BookQuestion} {qs : List BookQuestion} {s between after : ResolverState}
      {answer : Except BookError BookAnswer} {answers : List (Except BookError BookAnswer)}
      (hfirst : r.Serves q s answer between) (hrest : Session r qs between answers after) :
      Session r (q :: qs) s (answer :: answers) after

theorem run_map {α β : Type} (f : α → β) (work : Resolving α) (done : BookTables) :
    (f <$> work).run.run done = ((work.run.run done).1.map f, (work.run.run done).2) := by
  rw [ExceptT.run_map, StateT.run_map]
  rfl

/-- What a resolver makes of a question when it has some tables already. -/
def reply (r : Resolver) (q : BookQuestion) (done : BookTables) :
    Except BookError BookAnswer × BookTables :=
  (r.ask q).run.run done

section Reply

variable (r : Resolver) (done : BookTables)

theorem reply_networkAt (key : BookKey) :
    r.reply (.networkAt key) done =
      let outcome := resolveKey r.catalog.networks r.shared.networks [] key done.networks
      (outcome.1.map .network, { done with networks := outcome.2 }) :=
  run_map _ _ done

theorem reply_serviceAt (key : BookKey) :
    r.reply (.serviceAt key) done =
      let outcome := resolveKey r.catalog.services r.shared.services [] key done.services
      (outcome.1.map .service, { done with services := outcome.2 }) :=
  run_map _ _ done

theorem reply_network {name : String} {scope : Scope} {key : BookKey}
    (h : r.catalog.networks.lookup? name scope = some key) :
    r.reply (.network name scope) done = r.reply (.networkAt key) done := by
  have hname : r.network name scope = r.networkAt key :=
    congrArg onNetworks (Shelf.resolveName_of_lookup? r.shared.networks h)
  simp only [reply, ask, hname]

theorem reply_service {name : String} {scope : Scope} {key : BookKey}
    (h : r.catalog.services.lookup? name scope = some key) :
    r.reply (.service name scope) done = r.reply (.serviceAt key) done := by
  have hname : r.service name scope = r.serviceAt key :=
    congrArg onServices (Shelf.resolveName_of_lookup? r.shared.services h)
  simp only [reply, ask, hname]

theorem reply_noNetwork {name : String} {scope : Scope}
    (h : r.catalog.networks.lookup? name scope = none) :
    r.reply (.network name scope) done = (.error (.unknownReference name scope), done) := by
  have hname := congrArg onNetworks (Shelf.resolveName_of_unknown r.shared.networks h)
  change r.network name scope = _ at hname
  simp only [reply, ask, hname]
  rfl

theorem reply_noService {name : String} {scope : Scope}
    (h : r.catalog.services.lookup? name scope = none) :
    r.reply (.service name scope) done = (.error (.unknownReference name scope), done) := by
  have hname := congrArg onServices (Shelf.resolveName_of_unknown r.shared.services h)
  change r.service name scope = _ at hname
  simp only [reply, ask, hname]
  rfl

end Reply

/-- A resolver between questions: nothing is being expanded, and its tables hold
what books expand to and no book that it could have read. -/
structure Idle (r : Resolver) (s : ResolverState) : Prop where
  stack : s.stack = []
  sound : r.catalog.Sound s.done
  networks : s.done.networks.Apart r.shared.networks
  services : s.done.services.Apart r.shared.services

variable {r : Resolver}

theorem idle_start : r.Idle .start where
  stack := rfl
  sound := Catalog.sound_empty
  networks _ hkey := absurd hkey Table.not_mem_keys_empty
  services _ hkey := absurd hkey Table.not_mem_keys_empty

/-- An idle resolver that has served a question is idle again, and has answered
as a new one. -/
theorem Serves.idle (hshared : r.catalog.Sound r.shared) {q : BookQuestion}
    {s after : ResolverState} {answer : Except BookError BookAnswer}
    (h : r.Serves q s answer after) (hidle : r.Idle s) :
    r.Idle after ∧ answer = outcome ((fresh r.catalog).ask q) := by
  change r.Idle after ∧ answer = ((fresh r.catalog).reply q .empty).1
  induction h with
  | @networkAt key _ _ _ hperforms =>
    obtain ⟨hstack, hanswer, hsound, hapart⟩ :=
      hperforms.fresh hidle.stack hshared.networks hidle.sound.networks hidle.networks
    refine ⟨⟨hstack, ⟨hsound, hidle.sound.services⟩, hapart, hidle.services⟩, ?_⟩
    rw [reply_networkAt, hanswer]
    rfl
  | @serviceAt key _ _ _ hperforms =>
    obtain ⟨hstack, hanswer, hsound, hapart⟩ :=
      hperforms.fresh hidle.stack hshared.services hidle.sound.services hidle.services
    refine ⟨⟨hstack, ⟨hidle.sound.networks, hsound⟩, hidle.networks, hapart⟩, ?_⟩
    rw [reply_serviceAt, hanswer]
    rfl
  | network hlookup _ ih =>
    rw [reply_network (fresh r.catalog) .empty hlookup]
    exact ih hidle
  | noNetwork hlookup =>
    rw [reply_noNetwork (fresh r.catalog) .empty hlookup]
    exact ⟨hidle, rfl⟩
  | service hlookup _ ih =>
    rw [reply_service (fresh r.catalog) .empty hlookup]
    exact ih hidle
  | noService hlookup =>
    rw [reply_noService (fresh r.catalog) .empty hlookup]
    exact ⟨hidle, rfl⟩

theorem Session.idle (hshared : r.catalog.Sound r.shared) {questions : List BookQuestion}
    {s after : ResolverState} {answers : List (Except BookError BookAnswer)}
    (h : r.Session questions s answers after) (hidle : r.Idle s) :
    r.Idle after ∧ answers = questions.map fun q => outcome ((fresh r.catalog).ask q) := by
  induction h with
  | nil => exact ⟨hidle, rfl⟩
  | cons hfirst _ ih =>
    obtain ⟨hbetween, hanswer⟩ := hfirst.idle hshared hidle
    obtain ⟨hafter, hanswers⟩ := ih hbetween
    exact ⟨hafter, by rw [hanswer, hanswers, List.map_cons]⟩

theorem serves_networkAt (r : Resolver) (key : BookKey) (done : BookTables) :
    r.Serves (.networkAt key) ⟨[], done⟩ (r.reply (.networkAt key) done).1
      ⟨[], (r.reply (.networkAt key) done).2⟩ := by
  have hresolves := (Shelf.resolves r.catalog.networks r.shared.networks).1 [] key done.networks
  rw [reply_networkAt]
  exact .networkAt (s := ⟨[], done⟩) hresolves.performs

theorem serves_serviceAt (r : Resolver) (key : BookKey) (done : BookTables) :
    r.Serves (.serviceAt key) ⟨[], done⟩ (r.reply (.serviceAt key) done).1
      ⟨[], (r.reply (.serviceAt key) done).2⟩ := by
  have hresolves := (Shelf.resolves r.catalog.services r.shared.services).1 [] key done.services
  rw [reply_serviceAt]
  exact .serviceAt (s := ⟨[], done⟩) hresolves.performs

/-- What a resolver replies is one way to serve the question. -/
theorem serves_reply (r : Resolver) (q : BookQuestion) (done : BookTables) :
    r.Serves q ⟨[], done⟩ (r.reply q done).1 ⟨[], (r.reply q done).2⟩ := by
  cases q with
  | networkAt key => exact serves_networkAt r key done
  | serviceAt key => exact serves_serviceAt r key done
  | network name scope =>
    cases hlookup : r.catalog.networks.lookup? name scope with
    | none =>
      rw [reply_noNetwork r done hlookup]
      exact .noNetwork hlookup
    | some key =>
      rw [reply_network r done hlookup]
      exact .network hlookup (serves_networkAt r key done)
  | service name scope =>
    cases hlookup : r.catalog.services.lookup? name scope with
    | none =>
      rw [reply_noService r done hlookup]
      exact .noService hlookup
    | some key =>
      rw [reply_service r done hlookup]
      exact .service hlookup (serves_serviceAt r key done)

theorem session_mapM (r : Resolver) (questions : List BookQuestion) (done : BookTables) :
    let result := (questions.mapM fun q => (r.ask q).run).run done
    r.Session questions ⟨[], done⟩ result.1 ⟨[], result.2⟩ := by
  induction questions generalizing done with
  | nil => exact .nil _
  | cons q rest ih =>
    rw [List.mapM_cons]
    exact .cons (serves_reply r q done) (ih (r.reply q done).2)

/-- What a resolver answers to a list of questions is a session. -/
theorem session_askAll (r : Resolver) (questions : List BookQuestion) :
    r.Session questions .start (r.askAll questions).1 ⟨[], (r.askAll questions).2⟩ :=
  session_mapM r questions .empty

end Resolver

/-- How a table comes about that a resolver may read: it is empty, or it is what
a resolver that read such a table itself has left of some questions, or it is
two such tables in one. -/
inductive Provenance where
  | nothing
  | asked (reads : Provenance) (questions : List BookQuestion)
  | joined (first second : Provenance)

namespace Provenance

def tables (c : Catalog) : Provenance → BookTables
  | nothing => .empty
  | asked reads questions => (Resolver.askAll ⟨c, reads.tables c⟩ questions).2
  | joined first second => (first.tables c).merge (second.tables c)

/-- However a table came about, it holds what books expand to. -/
theorem sound (c : Catalog) (prior : Provenance) : c.Sound (prior.tables c) := by
  induction prior with
  | nothing => exact Catalog.sound_empty
  | asked reads questions ih =>
    have hsession := Resolver.session_askAll ⟨c, reads.tables c⟩ questions
    exact (hsession.idle ih Resolver.idle_start).1.sound
  | joined first second ihfirst ihsecond =>
    exact ⟨ihfirst.networks.merge ihsecond.networks, ihfirst.services.merge ihsecond.services⟩

end Provenance

namespace Resolver

/-- History has no part in what a resolver answers. In every session of a
resolver that has just been made and may read tables of books resolved before,
each question is answered, with a set or with an error, as a resolver answers it
that is asked nothing else and reads no table. The stack is empty after every
question, and the table then holds only books that can be resolved, each with its
set, and none of the books that could be read. -/
theorem session_answers_fresh (c : Catalog) (prior : Provenance)
    (questions : List BookQuestion) :
    let r : Resolver := ⟨c, prior.tables c⟩
    r.Session questions .start (r.askAll questions).1 ⟨[], (r.askAll questions).2⟩ ∧
      ∀ answers final, r.Session questions .start answers final →
        (answers = questions.map fun q => outcome ((fresh c).ask q)) ∧
          final.stack = [] ∧
          (∀ key set, final.done.networks.find? key = some set →
            outcome ((fresh c).networkAt key) = .ok set ∧ r.shared.networks.find? key = none) ∧
          ∀ key set, final.done.services.find? key = some set →
            outcome ((fresh c).serviceAt key) = .ok set ∧ r.shared.services.find? key = none := by
  intro r
  refine ⟨session_askAll r questions, ?_⟩
  intro answers final hsession
  obtain ⟨hidle, hanswers⟩ := hsession.idle (prior.sound c) idle_start
  refine ⟨hanswers, hidle.stack, ?_, ?_⟩
  · intro key set hfind
    have hunread := hidle.networks key (Table.mem_keys_of_find? hfind)
    exact ⟨hidle.sound.networks.fresh_of_find? hfind, Table.not_mem_keys_iff.mp hunread⟩
  · intro key set hfind
    have hunread := hidle.services key (Table.mem_keys_of_find? hfind)
    exact ⟨hidle.sound.services.fresh_of_find? hfind, Table.not_mem_keys_iff.mp hunread⟩

end Resolver

end Perimeter
