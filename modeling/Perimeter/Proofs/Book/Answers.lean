import Perimeter.Proofs.Book.Evidence
import Perimeter.Proofs.Book.Pursuit

/-!
What a new resolver answers. It answers a question about a key when the book is
resolvable, and one about a name when the name is found and stands for such a
book. All books of a shelf are resolvable when every name in them is found and
none reaches itself. An answer that is an error tells of something that is so.
-/

namespace Perimeter

namespace Shelf

variable {Literal Set : Type} [BookSet Literal Set] {shelf : Shelf Literal}

/-- Every name in a book is found, and no book reaches itself. -/
structure Closed (shelf : Shelf Literal) : Prop where
  found : ∀ key name, shelf.Names key name → (shelf.lookup? name key.scope).isSome = true
  acyclic : ∀ key, ¬Relation.TransGen shelf.Refers key key

omit [BookSet Literal Set] in
theorem has_of_names {key : BookKey} {name : String} (h : shelf.Names key name) :
    shelf.has key = true := by
  obtain ⟨book, hfind, _⟩ := h
  rw [has_eq_isSome_find?, hfind]
  rfl

omit [BookSet Literal Set] in
/-- A shelf is closed exactly when all its books are resolvable. -/
theorem closed_iff : shelf.Closed ↔ ∀ key, shelf.has key = true → shelf.Resolvable key := by
  constructor
  · intro h key hthere
    exact ⟨hthere, fun other name _ hnames => h.found other name hnames,
      fun other _ => h.acyclic other⟩
  · intro h
    refine ⟨?_, ?_⟩
    · intro key name hnames
      exact (h key (has_of_names hnames)).found key name .refl hnames
    · intro key hloop
      obtain ⟨_, ⟨_, hnames, _⟩, _⟩ := Relation.TransGen.head'_iff.mp hloop
      exact (h key (has_of_names hnames)).acyclic key .refl hloop

omit [BookSet Literal Set] in
/-- Along a chain of references the first key leads to the last. -/
theorem transGen_of_isChain {key last : BookKey} {between : List BookKey}
    (h : (key :: between ++ [last]).IsChain shelf.Refers) :
    Relation.TransGen shelf.Refers key last := by
  induction between generalizing key with
  | nil => exact .single (List.isChain_cons_cons.mp h).1
  | cons next rest ih =>
    obtain ⟨hrefers, hchain⟩ := List.isChain_cons_cons.mp h
    exact .head hrefers (ih hchain)

omit [BookSet Literal Set] in
/-- No error about books tells of a closed shelf. -/
theorem BearsOut.not_closed {e : BookError} (h : shelf.BearsOut e) : ¬shelf.Closed := by
  intro hclosed
  cases e with
  | cycle path =>
    obtain ⟨key, rest, rfl, _, hchain⟩ := h
    exact hclosed.acyclic key (transGen_of_isChain hchain)
  | unknownReference name scope =>
    obtain ⟨hlookup, key, rfl, hnames⟩ := h
    have hfound := hclosed.found key name hnames
    rw [hlookup] at hfound
    cases hfound
  | duplicate kind key => exact h

theorem resolveKey_fresh_ok_iff (shelf : Shelf Literal) (key : BookKey) :
    (∃ set, (resolveKey shelf .empty [] key .empty).1 = .ok set) ↔ shelf.Resolvable key :=
  resolveKey_ok_iff sound_empty sound_empty key

/-- An error about a book that is there tells of something that is so. -/
theorem bearsOut_of_resolveKey {key : BookKey} {e : BookError} (hthere : shelf.has key = true)
    (h : (resolveKey shelf .empty [] key .empty).1 = .error e) : shelf.BearsOut e :=
  (((resolves shelf .empty).1 [] key .empty).confirms h .refl (List.isChain_singleton key)
    List.nodup_nil).bearsOut hthere

end Shelf

/-- A catalog of two closed shelves. -/
structure Catalog.Closed (c : Catalog) : Prop where
  networks : c.networks.Closed
  services : c.services.Closed

/-- Look-up finds what a question names. -/
def BookQuestion.Known (c : Catalog) : BookQuestion → Prop
  | .network name scope => (c.networks.lookup? name scope).isSome = true
  | .service name scope => (c.services.lookup? name scope).isSome = true
  | .networkAt key => c.networks.has key = true
  | .serviceAt key => c.services.has key = true

namespace Resolver

variable {c : Catalog} {key : BookKey} {name : String} {scope : Scope} {e : BookError}

theorem answer_networkAt (c : Catalog) (key : BookKey) :
    answer c (.networkAt key) =
      (resolveKey c.networks .empty [] key .empty).1.map .network :=
  congrArg Prod.fst (reply_networkAt (fresh c) .empty key)

theorem answer_serviceAt (c : Catalog) (key : BookKey) :
    answer c (.serviceAt key) =
      (resolveKey c.services .empty [] key .empty).1.map .service :=
  congrArg Prod.fst (reply_serviceAt (fresh c) .empty key)

theorem answer_network (h : c.networks.lookup? name scope = some key) :
    answer c (.network name scope) = answer c (.networkAt key) :=
  congrArg Prod.fst (reply_network (fresh c) .empty h)

theorem answer_service (h : c.services.lookup? name scope = some key) :
    answer c (.service name scope) = answer c (.serviceAt key) :=
  congrArg Prod.fst (reply_service (fresh c) .empty h)

theorem answer_noNetwork (h : c.networks.lookup? name scope = none) :
    answer c (.network name scope) = .error (.unknownReference name scope) :=
  congrArg Prod.fst (reply_noNetwork (fresh c) .empty h)

theorem answer_noService (h : c.services.lookup? name scope = none) :
    answer c (.service name scope) = .error (.unknownReference name scope) :=
  congrArg Prod.fst (reply_noService (fresh c) .empty h)

theorem map_ok_iff {α β : Type} {f : α → β} {x : Except BookError α} :
    (∃ b, x.map f = .ok b) ↔ ∃ a, x = .ok a := by
  cases x with
  | ok a => simp [Except.map]
  | error e => simp [Except.map]

theorem answer_networkAt_ok_iff :
    (∃ a, answer c (.networkAt key) = .ok a) ↔ c.networks.Resolvable key := by
  rw [answer_networkAt, map_ok_iff, Shelf.resolveKey_fresh_ok_iff]

theorem answer_serviceAt_ok_iff :
    (∃ a, answer c (.serviceAt key) = .ok a) ↔ c.services.Resolvable key := by
  rw [answer_serviceAt, map_ok_iff, Shelf.resolveKey_fresh_ok_iff]

/-- In a closed catalog a new resolver answers what it can look up. -/
theorem answer_ok_iff (h : c.Closed) {q : BookQuestion} :
    (∃ a, answer c q = .ok a) ↔ q.Known c := by
  cases q with
  | networkAt key =>
    rw [answer_networkAt_ok_iff]
    exact ⟨fun hres => hres.present, Shelf.closed_iff.mp h.networks key⟩
  | serviceAt key =>
    rw [answer_serviceAt_ok_iff]
    exact ⟨fun hres => hres.present, Shelf.closed_iff.mp h.services key⟩
  | network name scope =>
    change _ ↔ (c.networks.lookup? name scope).isSome = true
    cases hlookup : c.networks.lookup? name scope with
    | none => simp [answer_noNetwork hlookup]
    | some key =>
      have hresolvable := Shelf.closed_iff.mp h.networks key (Shelf.has_of_lookup? hlookup)
      rw [answer_network hlookup, answer_networkAt_ok_iff]
      exact iff_of_true hresolvable rfl
  | service name scope =>
    change _ ↔ (c.services.lookup? name scope).isSome = true
    cases hlookup : c.services.lookup? name scope with
    | none => simp [answer_noService hlookup]
    | some key =>
      have hresolvable := Shelf.closed_iff.mp h.services key (Shelf.has_of_lookup? hlookup)
      rw [answer_service hlookup, answer_serviceAt_ok_iff]
      exact iff_of_true hresolvable rfl

theorem bearsOut_of_answer_networkAt (hthere : c.networks.has key = true)
    (h : answer c (.networkAt key) = .error e) : c.networks.BearsOut e := by
  rw [answer_networkAt, map_eq_error] at h
  exact Shelf.bearsOut_of_resolveKey hthere h

theorem bearsOut_of_answer_serviceAt (hthere : c.services.has key = true)
    (h : answer c (.serviceAt key) = .error e) : c.services.BearsOut e := by
  rw [answer_serviceAt, map_eq_error] at h
  exact Shelf.bearsOut_of_resolveKey hthere h

end Resolver

end Perimeter
