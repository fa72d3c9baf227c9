import Perimeter.Proofs.Book.Answers
import Perimeter.Proofs.Snapshot.Resolution
import Perimeter.Proofs.Snapshot.Validation

/-!
Which snapshots can be resolved, and what it means when one cannot. The work is
split into global books and devices, but all of it comes to the same questions:
every book of the catalog, and every name that a rule or a zone uses. So a valid
snapshot can be resolved exactly when its catalog is closed and look-up finds the
names on its devices.
-/

namespace Perimeter

namespace Catalog

variable {c : Catalog} {globals : BookTables}

theorem exists_resolveGlobals_iff :
    (∃ globals, c.resolveGlobals = .ok globals) ↔
      ∀ q ∈ c.questions .global, ∃ a, Resolver.answer c q = .ok a := by
  rw [← (Resolver.asks_resolveScope (r := ⟨c, .empty⟩) .global).ok_iff sound_empty]
  exact Resolver.map_ok_iff

theorem error_of_resolveGlobals {e : BookError} (h : c.resolveGlobals = .error e) :
    ∃ q ∈ c.questions .global, Resolver.answer c q = .error e :=
  (Resolver.asks_resolveScope (r := ⟨c, .empty⟩) .global).error sound_empty
    (Resolver.map_eq_error.mp h)

theorem exists_resolveDevice_iff (hglobals : c.resolveGlobals = .ok globals) (d : Device) :
    (∃ result, c.resolveDevice globals d = .ok result) ↔
      ∀ q ∈ c.questions (.device d.id) ++ d.questions, ∃ a, Resolver.answer c q = .ok a :=
  (Resolver.asks_device (r := ⟨c, globals⟩) d).ok_iff (sound_resolveGlobals hglobals)

theorem error_of_resolveDevice (hglobals : c.resolveGlobals = .ok globals) {d : Device}
    {e : BookError} (h : c.resolveDevice globals d = .error e) :
    ∃ q ∈ c.questions (.device d.id) ++ d.questions, Resolver.answer c q = .error e :=
  (Resolver.asks_device (r := ⟨c, globals⟩) d).error (sound_resolveGlobals hglobals) h

end Catalog

/-- Look-up from a device finds every name on it. -/
structure Device.NamesKnown (d : Device) (c : Catalog) : Prop where
  networks : ∀ name, d.NamesNetwork name →
    (c.networks.lookup? name (.device d.id)).isSome = true
  services : ∀ name, d.NamesService name →
    (c.services.lookup? name (.device d.id)).isSome = true

theorem Device.namesKnown_iff {d : Device} {c : Catalog} :
    d.NamesKnown c ↔ ∀ q ∈ d.questions, q.Known c := by
  constructor
  · intro h q hq
    rcases mem_questions.mp hq with ⟨name, hname, rfl⟩ | ⟨name, hname, rfl⟩
    · exact h.networks name hname
    · exact h.services name hname
  · intro h
    refine ⟨?_, ?_⟩
    · exact fun name hname => h _ (mem_questions.mpr (Or.inl ⟨name, hname, rfl⟩))
    · exact fun name hname => h _ (mem_questions.mpr (Or.inr ⟨name, hname, rfl⟩))

namespace Snapshot

/-- What can be wrong with the books of a snapshot, or with the names for them,
each with the error that states it. -/
inductive HasBookFault (s : Snapshot) (builtins : Bool) : BookError → Prop where
  | repeated {kind : BookKind} {key : BookKey}
      (h : (kind.keys s.networkBooks s.serviceBooks).Duplicate key) :
      HasBookFault s builtins (.duplicate kind key)
  | networks {c : Catalog} {e : BookError}
      (hcatalog : Catalog.ofBooks s.networkBooks s.serviceBooks builtins = .ok c)
      (h : c.networks.BearsOut e) : HasBookFault s builtins e
  | services {c : Catalog} {e : BookError}
      (hcatalog : Catalog.ofBooks s.networkBooks s.serviceBooks builtins = .ok c)
      (h : c.services.BearsOut e) : HasBookFault s builtins e
  | networkName {c : Catalog} {d : Device} {name : String}
      (hcatalog : Catalog.ofBooks s.networkBooks s.serviceBooks builtins = .ok c)
      (hd : d ∈ s.devices) (hname : d.NamesNetwork name)
      (hlookup : c.networks.lookup? name (.device d.id) = none) :
      HasBookFault s builtins (.unknownReference name (.device d.id))
  | serviceName {c : Catalog} {d : Device} {name : String}
      (hcatalog : Catalog.ofBooks s.networkBooks s.serviceBooks builtins = .ok c)
      (hd : d ∈ s.devices) (hname : d.NamesService name)
      (hlookup : c.services.lookup? name (.device d.id) = none) :
      HasBookFault s builtins (.unknownReference name (.device d.id))

/-- Books whose keys are distinct, which make up a closed catalog, and devices
whose names are found in it. -/
structure BooksValid (s : Snapshot) (builtins : Bool) : Prop where
  networkKeys : (s.networkBooks.map Book.key).Nodup
  serviceKeys : (s.serviceBooks.map Book.key).Nodup
  closed : ∀ c, Catalog.ofBooks s.networkBooks s.serviceBooks builtins = .ok c → c.Closed
  known : ∀ c, Catalog.ofBooks s.networkBooks s.serviceBooks builtins = .ok c →
    ∀ d ∈ s.devices, d.NamesKnown c

variable {s : Snapshot} {builtins : Bool} {c : Catalog} {globals : BookTables}

/-- The books of the catalog are global or belong to a device. -/
theorem hasScope_of_ofBooks (hvalid : s.Valid)
    (hcatalog : Catalog.ofBooks s.networkBooks s.serviceBooks builtins = .ok c) :
    (∀ b ∈ c.networks.books, s.HasScope b.scope) ∧ ∀ b ∈ c.services.books, s.HasScope b.scope := by
  obtain ⟨_, _, hnetworks, hservices⟩ := Catalog.of_ofBooks hcatalog
  constructor
  · intro b hb
    exact (hnetworks b hb).elim (hvalid.networkScopes b) Or.inl
  · intro b hb
    exact (hservices b hb).elim (hvalid.serviceScopes b) Or.inl

/-- When the global books and all devices have been resolved, every book of the
catalog has been asked for: its scope is global or that of a device. -/
theorem closed_of_answers (hvalid : s.Valid)
    (hcatalog : Catalog.ofBooks s.networkBooks s.serviceBooks builtins = .ok c)
    (hglobal : ∀ q ∈ c.questions .global, ∃ a, Resolver.answer c q = .ok a)
    (hdevices : ∀ d ∈ s.devices, ∀ q ∈ c.questions (.device d.id),
      ∃ a, Resolver.answer c q = .ok a) : c.Closed := by
  have hall : ∀ scope, s.HasScope scope → ∀ q ∈ c.questions scope,
      ∃ a, Resolver.answer c q = .ok a := by
    rintro scope (rfl | ⟨d, hd, rfl⟩)
    · exact hglobal
    · exact hdevices d hd
  obtain ⟨hnetworks, hservices⟩ := hasScope_of_ofBooks hvalid hcatalog
  constructor
  · apply Shelf.closed_iff.mpr
    intro key hthere
    obtain ⟨b, hb, rfl⟩ := List.mem_map.mp (Shelf.has_iff.mp hthere)
    have hasked := Catalog.mem_questions.mpr (Or.inl ⟨b.key, hthere, rfl, rfl⟩)
    exact Resolver.answer_networkAt_ok_iff.mp (hall b.scope (hnetworks b hb) _ hasked)
  · apply Shelf.closed_iff.mpr
    intro key hthere
    obtain ⟨b, hb, rfl⟩ := List.mem_map.mp (Shelf.has_iff.mp hthere)
    have hasked := Catalog.mem_questions.mpr (Or.inr ⟨b.key, hthere, rfl, rfl⟩)
    exact Resolver.answer_serviceAt_ok_iff.mp (hall b.scope (hservices b hb) _ hasked)

theorem booksValid_of_resolve {resolved : ResolvedSnapshot}
    (h : s.resolve builtins = .ok resolved) : s.Valid ∧ s.BooksValid builtins := by
  obtain ⟨hfault, c, globals, devices, hcatalog, hglobals, hdevices, _⟩ := resolve_eq_ok_iff.mp h
  have hvalid := valid_of_fault? hfault
  have hglobal := Catalog.exists_resolveGlobals_iff.mp ⟨globals, hglobals⟩
  have hdevice : ∀ d ∈ s.devices, ∀ q ∈ c.questions (.device d.id) ++ d.questions,
      ∃ a, Resolver.answer c q = .ok a := by
    intro d hd
    exact (Catalog.exists_resolveDevice_iff hglobals d).mp (mapM_ok_iff.mp ⟨devices, hdevices⟩ d hd)
  have hclosed : c.Closed := closed_of_answers hvalid hcatalog hglobal
    fun d hd q hq => hdevice d hd q (List.mem_append_left _ hq)
  obtain ⟨hnetworkKeys, hserviceKeys, _⟩ := Catalog.of_ofBooks hcatalog
  refine ⟨hvalid, hnetworkKeys, hserviceKeys, ?_, ?_⟩
  · intro c' hcatalog'
    cases hcatalog.symm.trans hcatalog'
    exact hclosed
  · intro c' hcatalog' d hd
    cases hcatalog.symm.trans hcatalog'
    apply Device.namesKnown_iff.mpr
    intro q hq
    exact (Resolver.answer_ok_iff hclosed).mp (hdevice d hd q (List.mem_append_right _ hq))

/-- An answer that is an error, to a question for a book or for a name on a
device, states a fault. -/
theorem hasBookFault_of_answer {d : Device} {e : BookError}
    (hcatalog : Catalog.ofBooks s.networkBooks s.serviceBooks builtins = .ok c)
    (hd : d ∈ s.devices) {q : BookQuestion} (hq : q ∈ d.questions)
    (h : Resolver.answer c q = .error e) : s.HasBookFault builtins e := by
  rcases Device.mem_questions.mp hq with ⟨name, hname, rfl⟩ | ⟨name, hname, rfl⟩
  · cases hlookup : c.networks.lookup? name (.device d.id) with
    | none =>
      rw [Resolver.answer_noNetwork hlookup] at h
      cases h
      exact .networkName hcatalog hd hname hlookup
    | some key =>
      rw [Resolver.answer_network hlookup] at h
      have hthere := Shelf.has_of_lookup? hlookup
      exact .networks hcatalog (Resolver.bearsOut_of_answer_networkAt hthere h)
  · cases hlookup : c.services.lookup? name (.device d.id) with
    | none =>
      rw [Resolver.answer_noService hlookup] at h
      cases h
      exact .serviceName hcatalog hd hname hlookup
    | some key =>
      rw [Resolver.answer_service hlookup] at h
      have hthere := Shelf.has_of_lookup? hlookup
      exact .services hcatalog (Resolver.bearsOut_of_answer_serviceAt hthere h)

theorem hasBookFault_of_book {e : BookError} {scope : Scope}
    (hcatalog : Catalog.ofBooks s.networkBooks s.serviceBooks builtins = .ok c)
    {q : BookQuestion} (hq : q ∈ c.questions scope)
    (h : Resolver.answer c q = .error e) : s.HasBookFault builtins e := by
  rcases Catalog.mem_questions.mp hq with ⟨_, hthere, _, rfl⟩ | ⟨_, hthere, _, rfl⟩
  · exact .networks hcatalog (Resolver.bearsOut_of_answer_networkAt hthere h)
  · exact .services hcatalog (Resolver.bearsOut_of_answer_serviceAt hthere h)

/-- Where a snapshot is not resolved, the error states a fault that it has. -/
theorem fault_of_resolve {e : SnapshotError} (h : s.resolve builtins = .error e) :
    s.HasFault e ∨ ∃ e', e = .book e' ∧ s.HasBookFault builtins e' := by
  unfold resolve at h
  cases hfault : s.fault? with
  | some first =>
    rw [hfault] at h
    cases h
    exact Or.inl (hasFault_of_fault? hfault)
  | none =>
    rw [hfault] at h
    right
    rcases bind_eq_error.mp h with hcatalog | ⟨c, hcatalog, hrest⟩
    · obtain ⟨e', he', rfl⟩ := mapError_eq_error.mp hcatalog
      obtain ⟨kind, key, rfl, hrepeat⟩ := Catalog.ofBooks_eq_error he'
      exact ⟨_, rfl, .repeated hrepeat⟩
    have hcatalog := mapError_eq_ok.mp hcatalog
    rcases bind_eq_error.mp hrest with hglobals | ⟨globals, hglobals, hlast⟩
    · obtain ⟨e', he', rfl⟩ := mapError_eq_error.mp hglobals
      obtain ⟨q, hq, hanswer⟩ := Catalog.error_of_resolveGlobals he'
      exact ⟨e', rfl, hasBookFault_of_book hcatalog hq hanswer⟩
    have hglobals := mapError_eq_ok.mp hglobals
    rcases bind_eq_error.mp hlast with hdevices | ⟨devices, _, hdone⟩
    · obtain ⟨e', he', rfl⟩ := mapError_eq_error.mp hdevices
      obtain ⟨d, hd, hdevice⟩ := exists_of_mapM_eq_error he'
      obtain ⟨q, hq, hanswer⟩ := Catalog.error_of_resolveDevice hglobals hdevice
      refine ⟨e', rfl, ?_⟩
      rcases List.mem_append.mp hq with hbook | hname
      · exact hasBookFault_of_book hcatalog hbook hanswer
      · exact hasBookFault_of_answer hcatalog hd hname hanswer
    · cases hdone

theorem HasBookFault.not_booksValid {e : BookError} (h : s.HasBookFault builtins e) :
    ¬s.BooksValid builtins := by
  intro hvalid
  cases h with
  | @repeated kind key hrepeat =>
    cases kind with
    | network => exact hrepeat.not_nodup hvalid.networkKeys
    | service => exact hrepeat.not_nodup hvalid.serviceKeys
  | networks hcatalog hso => exact hso.not_closed (hvalid.closed _ hcatalog).networks
  | services hcatalog hso => exact hso.not_closed (hvalid.closed _ hcatalog).services
  | networkName hcatalog hd hname hlookup =>
    have hfound := (hvalid.known _ hcatalog _ hd).networks _ hname
    rw [hlookup] at hfound
    cases hfound
  | serviceName hcatalog hd hname hlookup =>
    have hfound := (hvalid.known _ hcatalog _ hd).services _ hname
    rw [hlookup] at hfound
    cases hfound

/-- Valid books always make up a catalog, so there is one that is closed and has
what devices name. -/
theorem BooksValid.exists_catalog (h : s.BooksValid builtins) :
    ∃ c, Catalog.ofBooks s.networkBooks s.serviceBooks builtins = .ok c ∧ c.Closed ∧
      ∀ d ∈ s.devices, d.NamesKnown c := by
  cases hcatalog : Catalog.ofBooks s.networkBooks s.serviceBooks builtins with
  | ok c => exact ⟨c, rfl, h.closed c hcatalog, h.known c hcatalog⟩
  | error e =>
    obtain ⟨kind, key, rfl, hrepeat⟩ := Catalog.ofBooks_eq_error hcatalog
    exact absurd h (HasBookFault.repeated hrepeat).not_booksValid

/-- A snapshot can be resolved exactly when its structure and its books are valid. -/
theorem exists_resolve_iff :
    (∃ resolved, s.resolve builtins = .ok resolved) ↔ s.Valid ∧ s.BooksValid builtins := by
  constructor
  · rintro ⟨resolved, h⟩
    exact booksValid_of_resolve h
  · rintro ⟨hvalid, hbooks⟩
    cases hrun : s.resolve builtins with
    | ok resolved => exact ⟨resolved, rfl⟩
    | error e =>
      rcases fault_of_resolve hrun with hfault | ⟨e', rfl, hfault⟩
      · exact absurd hvalid hfault.not_valid
      · exact absurd hbooks hfault.not_booksValid

end Snapshot

end Perimeter
