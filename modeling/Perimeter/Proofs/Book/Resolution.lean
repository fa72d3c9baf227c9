import Perimeter.Book.Resolver
import Perimeter.Proofs.Book.Course

/-!
Resolution computes what books mean. While the tables hold nothing but what
books expand to, every set that resolution finds is what the book expands to,
and every error is one that its expansion runs into. So a book can be resolved
exactly when it is resolvable, and the set found holds what the book means.
-/

namespace Perimeter

namespace Shelf

variable {Literal Set Point : Type} [BookSet Literal Set] {shelf : Shelf Literal}

/-- Every set in a table is what its book expands to. -/
def Sound (shelf : Shelf Literal) (t : Table Set) : Prop :=
  ∀ key set, t.find? key = some set → shelf.Expands (.book key) set

theorem sound_empty : shelf.Sound (.empty : Table Set) := by
  intro key set h
  cases h

theorem Sound.insert {t : Table Set} (ht : shelf.Sound t) {key : BookKey} {set : Set}
    (h : shelf.Expands (.book key) set) : shelf.Sound (t.insert key set) := by
  intro other found hfind
  rw [Table.find?_insert] at hfind
  split at hfind
  · rename_i hother
    cases hfind
    rw [hother]
    exact h
  · exact ht other found hfind

theorem Sound.merge {t u : Table Set} (ht : shelf.Sound t) (hu : shelf.Sound u) :
    shelf.Sound (t.merge u) := by
  intro key set hfind
  rw [Table.find?_merge, Option.or_eq_some_iff] at hfind
  rcases hfind with hlater | ⟨_, hearlier⟩
  · exact hu key set hlater
  · exact ht key set hearlier

/-- What resolution has to answer about a subject. -/
structure Answers (shelf : Shelf Literal) (path : List BookKey) (subject : Subject Literal)
    (r : Except BookError Set × Table Set) : Prop where
  ok : ∀ set, r.1 = .ok set → shelf.Expands subject set
  error : ∀ e, r.1 = .error e → shelf.Fails path subject e
  sound : shelf.Sound r.2

theorem Answers.of_expands {path : List BookKey} {subject : Subject Literal} {set : Set}
    {after : Table Set} (h : shelf.Expands subject set) (hsound : shelf.Sound after) :
    shelf.Answers path subject (.ok set, after) := by
  refine ⟨?_, ?_, hsound⟩
  · intro found hfound
    cases hfound
    exact h
  · intro e he
    cases he

theorem Answers.of_fails {path : List BookKey} {subject : Subject Literal} {e : BookError}
    {after : Table Set} (h : shelf.Fails path subject e) (hsound : shelf.Sound after) :
    shelf.Answers path subject (.error e, after) := by
  refine ⟨?_, ?_, hsound⟩
  · intro set hset
    cases hset
  · intro e' he
    cases he
    exact h

theorem Resolves.answers {shared : Table Set} {path : List BookKey} {subject : Subject Literal}
    {done : Table Set} {r : Except BookError Set × Table Set}
    (h : shelf.Resolves shared path subject done r) (hshared : shelf.Sound shared)
    (hdone : shelf.Sound done) : shelf.Answers path subject r := by
  induction h with
  | shared hfind => exact .of_expands (hshared _ _ hfind) hdone
  | known _ hfind => exact .of_expands (hdone _ _ hfind) hdone
  | cycle _ _ hon => exact .of_fails (.cycle hon) hdone
  | missing _ _ hoff hfind => exact .of_fails (.missing hoff hfind) hdone
  | entriesFail henters _ ih =>
    have hentries := ih hdone
    exact .of_fails (.entries henters.off henters.find (hentries.error _ rfl)) hentries.sound
  | exclusionsFail henters _ _ ihentries ihexclusions =>
    have hentries := ihentries hdone
    have hexclusions := ihexclusions hentries.sound
    exact .of_fails (.exclusions henters.off henters.find (hentries.ok _ rfl)
      (hexclusions.error _ rfl)) hexclusions.sound
  | complete henters _ _ ihentries ihexclusions =>
    have hentries := ihentries hdone
    have hexclusions := ihexclusions hentries.sound
    have hbook := Expands.book henters.find (hentries.ok _ rfl) (hexclusions.ok _ rfl)
    exact .of_expands hbook (hexclusions.sound.insert hbook)
  | nil => exact .of_expands .nil hdone
  | literalFail _ ih =>
    have hrest := ih hdone
    exact .of_fails (.literal (hrest.error _ rfl)) hrest.sound
  | literal _ ih =>
    have hrest := ih hdone
    exact .of_expands (.literal (hrest.ok _ rfl)) hrest.sound
  | unknown hlookup => exact .of_fails (.unknown hlookup) hdone
  | nestedFail hlookup _ ih =>
    have hnested := ih hdone
    exact .of_fails (.nested hlookup (hnested.error _ rfl)) hnested.sound
  | laterFail hlookup _ _ ihnested ihrest =>
    have hnested := ihnested hdone
    have hrest := ihrest hnested.sound
    exact .of_fails (.later hlookup (hnested.ok _ rfl) (hrest.error _ rfl)) hrest.sound
  | reference hlookup _ _ ihnested ihrest =>
    have hnested := ihnested hdone
    have hrest := ihrest hnested.sound
    exact .of_expands (.reference hlookup (hnested.ok _ rfl) (hrest.ok _ rfl)) hrest.sound

/-- Resolution with sound tables answers what expansion does. -/
theorem resolveKey_answers {shared done : Table Set} (hshared : shelf.Sound shared)
    (hdone : shelf.Sound done) (path : List BookKey) (key : BookKey) :
    shelf.Answers path (.book key) (resolveKey shelf shared path key done) :=
  ((resolves shelf shared).1 path key done).answers hshared hdone

/-- A book that no other leads to is resolved exactly when it is resolvable. -/
theorem resolveKey_ok_iff {shared done : Table Set} (hshared : shelf.Sound shared)
    (hdone : shelf.Sound done) (key : BookKey) :
    (∃ set, (resolveKey shelf shared [] key done).1 = .ok set) ↔ shelf.Resolvable key := by
  have hanswers := resolveKey_answers hshared hdone [] key
  constructor
  · rintro ⟨set, hset⟩
    exact (hanswers.ok set hset).settled
  · intro hresolvable
    cases houtcome : (resolveKey shelf shared [] key done).1 with
    | ok set => exact ⟨set, rfl⟩
    | error e =>
      have hleads : shelf.LeadsTo [] (.book key) := by
        intro k hk
        cases hk
      exact absurd hresolvable ((hanswers.error e houtcome).not_settled hleads)

theorem means_of_resolveKey [BookMeaning Literal Point] {shared done : Table Set}
    (hshared : shelf.Sound shared) (hdone : shelf.Sound done) {key : BookKey} {set : Set}
    (h : (resolveKey shelf shared [] key done).1 = .ok set) :
    shelf.Means key (BookMeaning.holds Literal set : Point → Prop) :=
  ((resolveKey_answers hshared hdone [] key).ok set h).means

end Shelf

namespace Resolver

/-- A resolver of a catalog that has resolved nothing and reads no table. -/
def fresh (catalog : Catalog) : Resolver := ⟨catalog, .empty⟩

/-- The outcome of work as the first question to a resolver. -/
def outcome {Answer : Type} (work : Resolving Answer) : Except BookError Answer :=
  (work.run.run .empty).1

/-- A new resolver resolves exactly the books that are resolvable. What it finds
holds an address exactly when the book means it: when some entry covers it, by
itself or through the book that it names, and no exclusion does. The same goes
for service books and their pairs of protocol and port. -/
theorem fresh_resolves_meaning (catalog : Catalog) (key : BookKey) :
    ((∃ set, outcome ((fresh catalog).networkAt key) = .ok set) ↔
        catalog.networks.Resolvable key) ∧
      (∀ set, outcome ((fresh catalog).networkAt key) = .ok set →
        catalog.networks.Means key fun a => set.contains a = true) ∧
      ((∃ set, outcome ((fresh catalog).serviceAt key) = .ok set) ↔
        catalog.services.Resolvable key) ∧
      ∀ set, outcome ((fresh catalog).serviceAt key) = .ok set →
        catalog.services.Means key fun x => set.contains x.1 x.2 = true := by
  have hnetworks : outcome ((fresh catalog).networkAt key) =
      (resolveKey catalog.networks .empty [] key .empty).1 := rfl
  have hservices : outcome ((fresh catalog).serviceAt key) =
      (resolveKey catalog.services .empty [] key .empty).1 := rfl
  rw [hnetworks, hservices]
  refine ⟨Shelf.resolveKey_ok_iff Shelf.sound_empty Shelf.sound_empty key, ?_,
    Shelf.resolveKey_ok_iff Shelf.sound_empty Shelf.sound_empty key, ?_⟩
  · intro set h
    exact Shelf.means_of_resolveKey Shelf.sound_empty Shelf.sound_empty h
  · intro set h
    exact Shelf.means_of_resolveKey Shelf.sound_empty Shelf.sound_empty h

end Resolver

end Perimeter
