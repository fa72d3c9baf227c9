import Perimeter.Engine
import Perimeter.Proofs.Book.Catalog
import Perimeter.Proofs.Book.Ownership
import Perimeter.Proofs.Snapshot.Acceptance

/-!
Devices are resolved apart from each other. What the resolver of a device
completes are books of that device only, since it reads the global books from a
table that has them all. So it makes no difference in which order devices are
resolved or their tables joined, and the joined tables have one entry for every
book of the catalog.
-/

namespace Perimeter

namespace BookTables

/-- No book is in both. -/
def Apart (t u : BookTables) : Prop :=
  t.networks.Apart u.networks ∧ t.services.Apart u.services

/-- The same sets under the same keys. -/
def Same (t u : BookTables) : Prop :=
  (∀ key, t.networks.find? key = u.networks.find? key) ∧
    ∀ key, t.services.find? key = u.services.find? key

/-- All books in the tables belong to a scope. -/
def Within (t : BookTables) (scope : Scope) : Prop :=
  (∀ key ∈ t.networks.keys, key.scope = scope) ∧ ∀ key ∈ t.services.keys, key.scope = scope

/-- An entry for each book of the catalog, and no other. -/
def Lists (t : BookTables) (c : Catalog) : Prop :=
  t.networks.keys.Perm (c.networks.books.map Book.key) ∧
    t.services.keys.Perm (c.services.books.map Book.key)

theorem networks_foldl_merge (tables : List BookTables) (t : BookTables) :
    (tables.foldl .merge t).networks = (tables.map (·.networks)).foldl .merge t.networks := by
  induction tables generalizing t with
  | nil => rfl
  | cons u rest ih => exact ih (t.merge u)

theorem services_foldl_merge (tables : List BookTables) (t : BookTables) :
    (tables.foldl .merge t).services = (tables.map (·.services)).foldl .merge t.services := by
  induction tables generalizing t with
  | nil => rfl
  | cons u rest ih => exact ih (t.merge u)

end BookTables

namespace Catalog

variable {c : Catalog} {scope : Scope}

theorem scope_of_mem_questions {q : BookQuestion} (h : q ∈ c.questions scope) :
    q.scope = scope := by
  rcases mem_questions.mp h with ⟨key, _, hscope, rfl⟩ | ⟨key, _, hscope, rfl⟩
  · exact hscope
  · exact hscope

/-- Tables of books of one scope. -/
structure Owned (c : Catalog) (scope : Scope) (t : BookTables) : Prop where
  networks : c.networks.Owned scope t.networks
  services : c.services.Owned scope t.services

theorem Owned.within {t : BookTables} (h : c.Owned scope t) : t.Within scope :=
  ⟨h.networks.scope, h.services.scope⟩

theorem Owned.apart {t u : BookTables} {scope' : Scope} (h : c.Owned scope t)
    (h' : c.Owned scope' u) (hne : scope ≠ scope') : t.Apart u :=
  ⟨h.networks.apart h'.networks hne, h.services.apart h'.services hne⟩

/-- Tables with all books of a scope. -/
structure Full (c : Catalog) (scope : Scope) (t : BookTables) : Prop where
  networks : c.networks.Full scope t.networks
  services : c.services.Full scope t.services

/-- Tables that hold all that is asked about a scope, and that no other table
could hold, are full. -/
theorem full_of_holds {shared t : BookTables} (hnetworks : ∀ key ∈ shared.networks.keys,
      key.scope ≠ scope) (hservices : ∀ key ∈ shared.services.keys, key.scope ≠ scope)
    (h : ∀ q ∈ c.questions scope, shared.Holds q ∨ t.Holds q) : c.Full scope t := by
  constructor
  · rintro key hthere rfl
    have hasked := mem_questions.mpr (Or.inl ⟨key, hthere, rfl, rfl⟩)
    rcases h _ hasked with hshared | hhere
    · exact absurd rfl (hnetworks key hshared)
    · exact hhere
  · rintro key hthere rfl
    have hasked := mem_questions.mpr (Or.inr ⟨key, hthere, rfl, rfl⟩)
    rcases h _ hasked with hshared | hhere
    · exact absurd rfl (hservices key hshared)
    · exact hhere

variable {globals : BookTables}

theorem of_resolveGlobals (h : c.resolveGlobals = .ok globals) :
    c.Owned .global globals ∧ c.Full .global globals := by
  have hasks := Resolver.asks_resolveScope (r := ⟨c, .empty⟩) .global
  have hscope : ∀ q ∈ c.questions .global, q.scope = .global := fun q => scope_of_mem_questions
  unfold resolveGlobals at h
  cases hwork : Resolver.fromEmpty (Resolver.resolveScope ⟨c, .empty⟩ .global) with
  | error e =>
    rw [hwork] at h
    cases h
  | ok result =>
    rw [hwork] at h
    cases h
    have hgrows := hasks.grows hscope
    rw [Resolver.fromEmpty_eq_ok.mp hwork] at hgrows
    refine ⟨⟨hgrows.networks.owned_global, hgrows.services.owned_global⟩, ?_⟩
    apply full_of_holds _ _ (hasks.holds hscope hwork)
    · exact fun key hkey => absurd hkey Table.not_mem_keys_empty
    · exact fun key hkey => absurd hkey Table.not_mem_keys_empty

/-- What the resolver of a device has in its own tables in the end, also where
it fails. -/
def privateTables (c : Catalog) (globals : BookTables) (d : Device) : BookTables :=
  ((Resolver.device ⟨c, globals⟩ d).run.run .empty).2

variable {d : Device}

theorem resolveDevice_eq_ok {result : ResolvedDevice × BookTables}
    (h : c.resolveDevice globals d = .ok result) : result.2 = c.privateTables globals d := by
  rw [privateTables, Resolver.fromEmpty_eq_ok.mp h]

theorem scope_of_mem_deviceQuestions :
    ∀ q ∈ c.questions (.device d.id) ++ d.questions, q.scope = .device d.id := by
  intro q hq
  rcases List.mem_append.mp hq with hbook | hname
  · exact scope_of_mem_questions hbook
  · rcases Device.mem_questions.mp hname with ⟨_, _, rfl⟩ | ⟨_, _, rfl⟩
    · rfl
    · rfl

/-- The resolver of a device completes books of the device only, also where it
fails: the global ones it finds in the tables that it reads. -/
theorem owned_privateTables (h : c.resolveGlobals = .ok globals) (d : Device) :
    c.Owned (.device d.id) (c.privateTables globals d) := by
  obtain ⟨_, hfull⟩ := of_resolveGlobals h
  have hasks := Resolver.asks_device (r := ⟨c, globals⟩) d
  have hgrows := hasks.grows scope_of_mem_deviceQuestions
  exact ⟨hgrows.networks.owned hfull.networks, hgrows.services.owned hfull.services⟩

theorem full_privateTables (h : c.resolveGlobals = .ok globals)
    {result : ResolvedDevice × BookTables} (hdevice : c.resolveDevice globals d = .ok result) :
    c.Full (.device d.id) (c.privateTables globals d) := by
  obtain ⟨howned, _⟩ := of_resolveGlobals h
  have hasks := Resolver.asks_device (r := ⟨c, globals⟩) d
  have hholds := hasks.holds scope_of_mem_deviceQuestions hdevice
  rw [resolveDevice_eq_ok hdevice] at hholds
  apply full_of_holds _ _ fun q hq => hholds q (List.mem_append_left _ hq)
  · intro key hkey
    rw [howned.networks.scope key hkey]
    exact Scope.noConfusion
  · intro key hkey
    rw [howned.services.scope key hkey]
    exact Scope.noConfusion

end Catalog

/-- The tables of devices share out the books of a shelf with those of the
global scope. -/
theorem Shelf.split_devices {Literal Set : Type} {shelf : Shelf Literal} {globals : Table Set}
    {devices : List Device} {tables : Device → Table Set} (hids : (devices.map (·.id)).Nodup)
    (hglobals : shelf.Owned .global globals) (hfull : shelf.Full .global globals)
    (howned : ∀ d ∈ devices, shelf.Owned (.device d.id) (tables d))
    (hfull' : ∀ d ∈ devices, shelf.Full (.device d.id) (tables d))
    (hscopes : ∀ b ∈ shelf.books, b.scope = .global ∨ ∃ d ∈ devices, b.scope = .device d.id) :
    shelf.Split ((.global, globals) :: devices.map fun d => (.device d.id, tables d)) := by
  refine ⟨?_, ?_, ?_, ?_⟩
  · rw [List.map_cons, List.map_map, List.nodup_cons]
    constructor
    · simp
    · have hdevices : devices.map (Prod.fst ∘ fun d => (Scope.device d.id, tables d)) =
          (devices.map (·.id)).map Scope.device := by
        simp [Function.comp_def]
      rw [hdevices]
      exact hids.map fun _ _ h => Scope.device.inj h
  · rw [List.forall_mem_cons, List.forall_mem_map]
    exact ⟨hglobals, howned⟩
  · rw [List.forall_mem_cons, List.forall_mem_map]
    exact ⟨hfull, hfull'⟩
  · intro b hb
    rcases hscopes b hb with hglobal | ⟨d, hd, hscope⟩
    · simp [hglobal]
    · simp only [List.map_cons, List.map_map, List.mem_cons, List.mem_map]
      exact Or.inr ⟨d, hd, hscope.symm⟩

namespace Snapshot

variable {s : Snapshot} {builtins : Bool} {c : Catalog} {globals : BookTables}

/-- A resolved device comes with its own tables. -/
theorem tables_of_mapM {order : List Device} {results : List (ResolvedDevice × BookTables)}
    (h : order.mapM (c.resolveDevice globals) = .ok results) :
    results.map (·.2) = order.map (c.privateTables globals) := by
  symm
  apply map_eq_map_of_forall₂ (mapM_eq_ok_iff.mp h)
  intro d result hdevice
  exact (Catalog.resolveDevice_eq_ok hdevice).symm

/-- One device that is not resolved stops the whole, and an error is reported
that some device fails with. -/
theorem exists_mapM_eq_error {order : List Device}
    (h : ∃ d ∈ order, ∃ e, c.resolveDevice globals d = .error e) :
    ∃ d ∈ order, ∃ e, c.resolveDevice globals d = .error e ∧
      order.mapM (c.resolveDevice globals) = .error e := by
  cases hrun : order.mapM (c.resolveDevice globals) with
  | ok results =>
    obtain ⟨d, hd, e, he⟩ := h
    obtain ⟨result, hresult⟩ := mapM_ok_iff.mp ⟨results, hrun⟩ d hd
    cases he.symm.trans hresult
  | error e =>
    obtain ⟨d, hd, he⟩ := exists_of_mapM_eq_error hrun
    exact ⟨d, hd, e, he, rfl⟩

theorem load_of_mapM_eq_error {config : EngineConfig} {e : BookError} (hvalid : s.fault? = none)
    (hcatalog : Catalog.ofBooks s.networkBooks s.serviceBooks config.builtinBooks = .ok c)
    (hglobals : c.resolveGlobals = .ok globals)
    (h : s.devices.mapM (c.resolveDevice globals) = .error e) :
    Engine.load s config = .error (.snapshot (.book e)) := by
  unfold Engine.load resolve
  rw [hvalid, hcatalog]
  simp only [Except.mapError, hglobals, h, bind, Except.bind]

/-- Where every device is resolved, its tables joined with the others in any
order list the whole catalog, and any two orders give the same. -/
theorem foldl_merge_privateTables (hvalid : s.Valid)
    (hcatalog : Catalog.ofBooks s.networkBooks s.serviceBooks builtins = .ok c)
    (hglobals : c.resolveGlobals = .ok globals)
    (hall : ∀ d ∈ s.devices, ∃ result, c.resolveDevice globals d = .ok result)
    {tables tables' : List BookTables}
    (hperm : tables.Perm (s.devices.map (c.privateTables globals)))
    (hperm' : tables'.Perm (s.devices.map (c.privateTables globals))) :
    (tables.foldl .merge globals).Lists c ∧
      (tables.foldl .merge globals).Same (tables'.foldl .merge globals) := by
  obtain ⟨howned, hfull⟩ := Catalog.of_resolveGlobals hglobals
  obtain ⟨hnetworks, hservices⟩ := hasScope_of_ofBooks hvalid hcatalog
  have hprivate : ∀ d ∈ s.devices, c.Full (.device d.id) (c.privateTables globals d) := by
    intro d hd
    obtain ⟨result, hresult⟩ := hall d hd
    exact Catalog.full_privateTables hglobals hresult
  have hsplitNetworks := Shelf.split_devices hvalid.distinct howned.networks hfull.networks
    (fun d _ => (Catalog.owned_privateTables hglobals d).networks)
    (fun d hd => (hprivate d hd).networks) hnetworks
  have hsplitServices := Shelf.split_devices hvalid.distinct howned.services hfull.services
    (fun d _ => (Catalog.owned_privateTables hglobals d).services)
    (fun d hd => (hprivate d hd).services) hservices
  have hparts : ∀ {Set : Type} (kind : BookTables → Table Set) {ts : List BookTables},
      ts.Perm (s.devices.map (c.privateTables globals)) →
        (ts.map kind).Perm ((s.devices.map fun d =>
          (Scope.device d.id, kind (c.privateTables globals d))).map Prod.snd) := by
    intro Set kind ts hts
    have hmapped := hts.map kind
    rw [List.map_map] at hmapped ⊢
    exact hmapped
  unfold BookTables.Lists BookTables.Same
  simp only [BookTables.networks_foldl_merge, BookTables.services_foldl_merge]
  refine ⟨⟨?_, ?_⟩, ?_, ?_⟩
  · exact hsplitNetworks.keys_foldl_merge (hparts _ hperm)
  · exact hsplitServices.keys_foldl_merge (hparts _ hperm)
  · exact hsplitNetworks.find?_foldl_merge (hparts _ hperm) (hparts _ hperm')
  · exact hsplitServices.find?_foldl_merge (hparts _ hperm) (hparts _ hperm')

/-- No book is written to two of the tables. -/
theorem pairwise_apart (hids : (s.devices.map (·.id)).Nodup)
    (hglobals : c.resolveGlobals = .ok globals) :
    (globals :: s.devices.map (c.privateTables globals)).Pairwise BookTables.Apart := by
  obtain ⟨howned, _⟩ := Catalog.of_resolveGlobals hglobals
  have hprivate := Catalog.owned_privateTables hglobals
  rw [List.pairwise_cons, List.forall_mem_map, List.pairwise_map]
  constructor
  · intro d _
    exact howned.apart (hprivate d) Scope.noConfusion
  · apply (List.pairwise_map.mp hids).imp
    intro d d' hne
    have hscopes : Scope.device d.id ≠ .device d'.id := fun h => hne (Scope.device.inj h)
    exact (hprivate d).apart (hprivate d') hscopes

/-- Resolution takes devices in any order. In a valid snapshot whose global
books are resolved, a device's own tables hold books of the device only, whether
it is resolved or not, so no two resolvers complete the same book. If all devices
are resolved, they are so in every order and with the same results; their tables
joined in every order are the tables that the snapshot is resolved with, and have
one entry for each book of the catalog. If some are not, resolution fails in
every order with the error of one of these, and the snapshot is not loaded. -/
theorem resolution_order_free (config : EngineConfig) (hvalid : s.fault? = none)
    (hcatalog : Catalog.ofBooks s.networkBooks s.serviceBooks config.builtinBooks = .ok c)
    (hglobals : c.resolveGlobals = .ok globals) :
    (globals.Within .global ∧
      ∀ d ∈ s.devices, (c.privateTables globals d).Within (.device d.id)) ∧
    (globals :: s.devices.map (c.privateTables globals)).Pairwise BookTables.Apart ∧
    ((∀ d ∈ s.devices, ∃ result, c.resolveDevice globals d = .ok result) →
      ∃ resolved, s.resolve config.builtinBooks = .ok resolved ∧ resolved.books.Lists c ∧
        ∀ order : List Device, order.Perm s.devices →
          ∃ results, order.mapM (c.resolveDevice globals) = .ok results ∧
            (results.map (·.1)).Perm resolved.devices ∧
            ∀ tables : List BookTables, tables.Perm (results.map (·.2)) →
              (tables.foldl .merge globals).Lists c ∧
                (tables.foldl .merge globals).Same resolved.books) ∧
    ((∃ d ∈ s.devices, ∃ e, c.resolveDevice globals d = .error e) →
      (∀ order : List Device, order.Perm s.devices →
        ∃ d ∈ s.devices, ∃ e, c.resolveDevice globals d = .error e ∧
          order.mapM (c.resolveDevice globals) = .error e) ∧
      ∃ d ∈ s.devices, ∃ e, c.resolveDevice globals d = .error e ∧
        Engine.load s config = .error (.snapshot (.book e))) := by
  have hstructure := valid_of_fault? hvalid
  obtain ⟨howned, _⟩ := Catalog.of_resolveGlobals hglobals
  have hprivate := Catalog.owned_privateTables hglobals
  refine ⟨⟨howned.within, fun d _ => (hprivate d).within⟩, ?_, ?_, ?_⟩
  · exact pairwise_apart hstructure.distinct hglobals
  · intro hall
    obtain ⟨devices, hdevices⟩ := mapM_ok_iff.mpr hall
    have htables := tables_of_mapM hdevices
    refine ⟨_, resolve_eq_ok_iff.mpr
      ⟨hvalid, c, globals, devices, hcatalog, hglobals, hdevices, rfl⟩, ?_, ?_⟩
    · have hown : (devices.map (·.2)).Perm (s.devices.map (c.privateTables globals)) :=
        .of_eq htables
      exact (foldl_merge_privateTables hstructure hcatalog hglobals hall hown hown).1
    · intro order horder
      obtain ⟨results, hresults, hperm⟩ := mapM_eq_ok_of_perm hdevices horder
      refine ⟨results, hresults, hperm.map (·.1), ?_⟩
      intro tables htables'
      have hhere := htables'.trans ((hperm.map (·.2)).trans (.of_eq htables))
      exact foldl_merge_privateTables hstructure hcatalog hglobals hall hhere (.of_eq htables)
  · intro hfails
    constructor
    · intro order horder
      obtain ⟨d, hd, e, he⟩ := hfails
      obtain ⟨d', hd', hfirst⟩ := exists_mapM_eq_error ⟨d, horder.mem_iff.mpr hd, e, he⟩
      exact ⟨d', horder.mem_iff.mp hd', hfirst⟩
    · obtain ⟨d, hd, e, he, hrun⟩ := exists_mapM_eq_error hfails
      exact ⟨d, hd, e, he, load_of_mapM_eq_error hvalid hcatalog hglobals hrun⟩

/-- Two devices with a book of one name each, one of which names a global book. -/
def neighbours : Snapshot where
  toolRunId := none
  devices := [⟨"east", [], [⟨"lan", [], some "own"⟩], [], [], []⟩,
    ⟨"west", [], [⟨"lan", [], some "own"⟩], [], [], []⟩]
  networkBooks := [⟨"hosts", .global, [.literal ⟨⟨.v4, 168427520, by decide⟩, 30, by decide⟩], []⟩,
    ⟨"own", .device "east", [.book "hosts"], []⟩,
    ⟨"own", .device "west", [.literal ⟨⟨.v4, 168493056, by decide⟩, 27, by decide⟩], []⟩]
  serviceBooks := []

private def neighboursCatalog : Catalog := ⟨.ofDistinct neighbours.networkBooks (by decide), .empty⟩

private theorem neighboursCatalog_closed : neighboursCatalog.Closed := by
  have hglobal : neighboursCatalog.networks.Resolvable ⟨.global, "hosts"⟩ :=
    Shelf.resolvable_of_literals rfl (by simp)
  constructor
  · apply Shelf.closed_iff.mpr
    intro key hthere
    have hkey := Shelf.has_iff.mp hthere
    simp only [neighboursCatalog, neighbours, Shelf.ofDistinct, List.map_cons, List.map_nil,
      List.mem_cons, List.not_mem_nil, or_false, Book.key] at hkey
    rcases hkey with rfl | rfl | rfl
    · exact hglobal
    · apply Shelf.resolvable_of_names hthere
      rintro name ⟨book, hfind, hname⟩
      cases hfind
      obtain rfl : name = "hosts" := by simpa using hname
      exact ⟨_, rfl, hglobal⟩
    · exact Shelf.resolvable_of_literals rfl (by simp)
  · apply Shelf.closed_iff.mpr
    intro key hthere
    cases hthere

private theorem neighbours_resolves : ∃ resolved, neighbours.resolve false = .ok resolved := by
  apply exists_resolve_iff.mpr
  refine ⟨valid_of_fault? (by decide), by decide, by decide, ?_, ?_⟩
  · intro c hcatalog
    cases hcatalog
    exact neighboursCatalog_closed
  · intro c hcatalog d hd
    cases hcatalog
    apply Device.namesKnown_iff.mpr
    intro q hq
    simp only [neighbours, List.mem_cons, List.not_mem_nil, or_false] at hd
    rcases hd with rfl | rfl
    · obtain rfl := List.mem_singleton.mp hq
      rfl
    · obtain rfl := List.mem_singleton.mp hq
      rfl

theorem neighbours_order_free :
    ∃ c globals resolved results,
      Catalog.ofBooks neighbours.networkBooks neighbours.serviceBooks false = .ok c ∧
        c.resolveGlobals = .ok globals ∧ neighbours.resolve false = .ok resolved ∧
        neighbours.devices.reverse.mapM (c.resolveDevice globals) = .ok results ∧
        resolved.books.Lists c ∧
        ((results.map (·.2)).foldl .merge globals).Same resolved.books := by
  obtain ⟨_, hresolves⟩ := neighbours_resolves
  obtain ⟨hfault, c, globals, devices, hcatalog, hglobals, hdevices, _⟩ :=
    resolve_eq_ok_iff.mp hresolves
  obtain ⟨_, _, hok, _⟩ :=
    resolution_order_free ⟨.explicitOnly, true, false⟩ hfault hcatalog hglobals
  obtain ⟨resolved, hresolved, hlists, horder⟩ := hok (mapM_ok_iff.mp ⟨devices, hdevices⟩)
  obtain ⟨results, hresults, _, htables⟩ := horder _ (List.reverse_perm neighbours.devices)
  exact ⟨c, globals, resolved, results, hcatalog, hglobals, hresolved, hresults, hlists,
    (htables _ (.refl _)).2⟩

end Snapshot

end Perimeter
