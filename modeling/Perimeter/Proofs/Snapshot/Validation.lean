import Mathlib.Data.List.Chain
import Mathlib.Data.List.Duplicate
import Perimeter.Snapshot.Validation

/-!
What the check of a snapshot's structure comes to. A snapshot passes exactly
when it is valid, and a fault that is reported is one that the snapshot has.
-/

namespace Perimeter

section Repeated

variable {α κ : Type} [DecidableEq κ] {key : α → κ} {seen : List κ} {xs : List α}

theorem firstRepeated?_eq_none (h : firstRepeated? key seen xs = none) :
    (∀ a ∈ xs, key a ∉ seen) ∧ (xs.map key).Nodup := by
  induction xs generalizing seen with
  | nil => simp
  | cons a rest ih =>
    unfold firstRepeated? at h
    split at h
    · cases h
    · rename_i hnew
      obtain ⟨hoff, hnodup⟩ := ih h
      constructor
      · intro b hb
        rcases List.mem_cons.mp hb with rfl | hb
        · exact hnew
        · exact fun hseen => hoff b hb (List.mem_cons_of_mem _ hseen)
      · rw [List.map_cons, List.nodup_cons]
        refine ⟨?_, hnodup⟩
        intro hrepeat
        obtain ⟨b, hb, hkey⟩ := List.mem_map.mp hrepeat
        exact hoff b hb (hkey ▸ List.mem_cons_self)

omit [DecidableEq κ] in
/-- A key that was met before, or is met now, and comes again repeats. -/
theorem duplicate_cons {k k' : κ} {ks : List κ} (hmem : k ∈ ks)
    (h : k ∈ k' :: seen ∨ ks.Duplicate k) : k ∈ seen ∨ (k' :: ks).Duplicate k := by
  rcases h with hseen | hlater
  · rcases List.mem_cons.mp hseen with rfl | hseen
    · exact Or.inr (.cons_mem hmem)
    · exact Or.inl hseen
  · exact Or.inr (.cons_duplicate hlater)

theorem firstRepeated?_eq_some {a : α} (h : firstRepeated? key seen xs = some a) :
    key a ∈ xs.map key ∧ (key a ∈ seen ∨ (xs.map key).Duplicate (key a)) := by
  induction xs generalizing seen with
  | nil => cases h
  | cons b rest ih =>
    unfold firstRepeated? at h
    split at h
    · rename_i hold
      cases h
      exact ⟨List.mem_cons_self, Or.inl hold⟩
    · obtain ⟨hmem, hrepeat⟩ := ih h
      exact ⟨List.mem_cons_of_mem _ hmem, duplicate_cons hmem hrepeat⟩

end Repeated

/-- A rule names a zone that is not the one its rule set has in that place. -/
def AclRule.Strays (r : AclRule) (rs : RuleSet) (zone : String) : Prop :=
  (r.sourceZone = some zone ∧ zone ≠ rs.fromZone) ∨
    (r.destinationZone = some zone ∧ zone ≠ rs.toZone)

def RuleSet.direction (rs : RuleSet) : String × String := (rs.fromZone, rs.toZone)

/-- A rule set whose rules stand in the order of their indices and name no zones
but its own. -/
structure RuleSet.Valid (rs : RuleSet) : Prop where
  ascending : (rs.rules.map (·.index)).Pairwise (· < ·)
  source : ∀ r ∈ rs.rules, r.sourceZone = none ∨ r.sourceZone = some rs.fromZone
  destination : ∀ r ∈ rs.rules, r.destinationZone = none ∨ r.destinationZone = some rs.toZone

structure Device.Valid (d : Device) : Prop where
  zones : (d.zones.map Zone.name).Nodup
  directions : (d.ruleSets.map RuleSet.direction).Nodup
  ruleSets : ∀ rs ∈ d.ruleSets, rs.Valid

/-- The scopes that a snapshot has: the global one and those of its devices. -/
def Snapshot.HasScope (s : Snapshot) (scope : Scope) : Prop :=
  scope = .global ∨ ∃ d ∈ s.devices, scope = .device d.id

/-- A snapshot of valid devices whose books have scopes and ports of their own. -/
structure Snapshot.Valid (s : Snapshot) : Prop where
  distinct : (s.devices.map (·.id)).Nodup
  devices : ∀ d ∈ s.devices, d.Valid
  networkScopes : ∀ b ∈ s.networkBooks, s.HasScope b.scope
  serviceScopes : ∀ b ∈ s.serviceBooks, s.HasScope b.scope
  ports : ∀ b ∈ s.serviceBooks, ∀ e, .literal e ∈ b.entries ++ b.exclusions →
    e.ports.lo ≤ e.ports.hi

/-- The faults that a device has by itself, each with the error that states it. -/
inductive Device.HasFault (d : Device) : SnapshotError → Prop where
  | zone {zone : String} (h : (d.zones.map Zone.name).Duplicate zone) :
      HasFault d (.duplicateZone d.id zone)
  | direction {fromZone toZone : String}
      (h : (d.ruleSets.map RuleSet.direction).Duplicate (fromZone, toZone)) :
      HasFault d (.duplicateRuleSet d.id fromZone toZone)
  | index {rs : RuleSet} {previous index : UInt32} (hrs : rs ∈ d.ruleSets)
      (hnext : [previous, index] <:+: rs.rules.map (·.index)) (hle : index ≤ previous) :
      HasFault d (.ruleIndexOrder (rs.id d.id) previous index)
  | stray {rs : RuleSet} {r : AclRule} {zone : String} (hrs : rs ∈ d.ruleSets)
      (hr : r ∈ rs.rules) (h : r.Strays rs zone) :
      HasFault d (.ruleZoneMismatch (rs.id d.id) r.index zone)

/-- The faults that a snapshot has in its structure. -/
inductive Snapshot.HasFault (s : Snapshot) : SnapshotError → Prop where
  | device {d : Device} {e : SnapshotError} (hd : d ∈ s.devices) (h : d.HasFault e) : HasFault s e
  | repeated {id : String} (h : (s.devices.map (·.id)).Duplicate id) :
      HasFault s (.duplicateDevice id)
  | networkScope {b : NetworkBook} {id : String} (hb : b ∈ s.networkBooks)
      (hscope : b.scope = .device id) (hid : id ∉ s.devices.map (·.id)) :
      HasFault s (.unknownDevice id b.name)
  | serviceScope {b : ServiceBook} {id : String} (hb : b ∈ s.serviceBooks)
      (hscope : b.scope = .device id) (hid : id ∉ s.devices.map (·.id)) :
      HasFault s (.unknownDevice id b.name)
  | ports {b : ServiceBook} {e : PortEntry} (hb : b ∈ s.serviceBooks)
      (he : .literal e ∈ b.entries ++ b.exclusions) (h : e.ports.hi < e.ports.lo) :
      HasFault s (.invalidPortRange b.name e.ports)

namespace AclRule

variable {r : AclRule} {rs : RuleSet}

theorem foreignZone?_eq_none (h : r.foreignZone? rs = none) :
    (r.sourceZone = none ∨ r.sourceZone = some rs.fromZone) ∧
      (r.destinationZone = none ∨ r.destinationZone = some rs.toZone) := by
  obtain ⟨hsource, hdestination⟩ := Option.or_eq_none_iff.mp h
  constructor
  · cases hzone : r.sourceZone with
    | none => exact Or.inl rfl
    | some zone =>
      rw [hzone] at hsource
      simpa using hsource
  · cases hzone : r.destinationZone with
    | none => exact Or.inl rfl
    | some zone =>
      rw [hzone] at hdestination
      simpa using hdestination

theorem strays_of_foreignZone? {zone : String} (h : r.foreignZone? rs = some zone) :
    r.Strays rs zone := by
  rcases Option.or_eq_some_iff.mp h with hsource | ⟨_, hdestination⟩
  · exact Or.inl (by simpa using Option.filter_eq_some_iff.mp hsource)
  · exact Or.inr (by simpa using Option.filter_eq_some_iff.mp hdestination)

end AclRule

namespace RuleSet

variable {rs : RuleSet} {id : RuleSetId} {previous : Option UInt32} {rules : List AclRule}

/-- Rules without a fault ascend from the index before them on. -/
theorem ruleFault?_eq_none (h : rs.ruleFault? id previous rules = none) :
    (previous.toList ++ rules.map (·.index)).IsChain (· < ·) ∧
      ∀ r ∈ rules, r.foreignZone? rs = none := by
  induction rules generalizing previous with
  | nil => cases previous <;> simp
  | cons r rest ih =>
    unfold ruleFault? at h
    split at h
    · cases h
    · rename_i hfollows
      split at h
      · cases h
      · rename_i hown
        obtain ⟨hchain, hzones⟩ := ih h
        refine ⟨?_, List.forall_mem_cons.mpr ⟨hown, hzones⟩⟩
        cases previous with
        | none => exact hchain
        | some p =>
          have hlt : p < r.index := by simpa using hfollows
          exact .cons_cons hlt hchain

theorem ruleFault?_eq_some {e : SnapshotError}
    (h : rs.ruleFault? id previous rules = some e) :
    (∃ p i, e = .ruleIndexOrder id p i ∧ i ≤ p ∧
        [p, i] <:+: previous.toList ++ rules.map (·.index)) ∨
      ∃ r ∈ rules, ∃ zone, e = .ruleZoneMismatch id r.index zone ∧ r.Strays rs zone := by
  induction rules generalizing previous with
  | nil => cases h
  | cons r rest ih =>
    unfold ruleFault? at h
    split at h
    · rename_i p hlate
      cases h
      obtain ⟨rfl, hle⟩ := Option.filter_eq_some_iff.mp hlate
      refine Or.inl ⟨p, r.index, rfl, by simpa using hle, ?_⟩
      exact ⟨[], rest.map (·.index), rfl⟩
    · split at h
      · rename_i zone hforeign
        cases h
        exact Or.inr ⟨r, List.mem_cons_self, zone, rfl, AclRule.strays_of_foreignZone? hforeign⟩
      · rcases ih h with ⟨p, i, he, hle, hnext⟩ | ⟨r', hr', zone, he, hstrays⟩
        · refine Or.inl ⟨p, i, he, hle, hnext.trans ?_⟩
          exact (List.suffix_append previous.toList _).isInfix
        · exact Or.inr ⟨r', List.mem_cons_of_mem _ hr', zone, he, hstrays⟩

theorem valid_of_ruleFault? (h : rs.ruleFault? id none rs.rules = none) : rs.Valid := by
  obtain ⟨hchain, hzones⟩ := ruleFault?_eq_none h
  refine ⟨?_, ?_, ?_⟩
  · exact List.isChain_iff_pairwise.mp hchain
  · exact fun r hr => (AclRule.foreignZone?_eq_none (hzones r hr)).1
  · exact fun r hr => (AclRule.foreignZone?_eq_none (hzones r hr)).2

end RuleSet

namespace Device

variable {d : Device} {e : SnapshotError}

theorem ruleSetFault?_eq_none {seen : List (String × String)} {sets : List RuleSet}
    (h : d.ruleSetFault? seen sets = none) :
    (∀ rs ∈ sets, rs.direction ∉ seen ∧ rs.Valid) ∧ (sets.map RuleSet.direction).Nodup := by
  induction sets generalizing seen with
  | nil => simp
  | cons rs rest ih =>
    unfold ruleSetFault? at h
    split at h
    · cases h
    · rename_i hnew
      obtain ⟨hhead, hrest⟩ := Option.or_eq_none_iff.mp h
      obtain ⟨hall, hnodup⟩ := ih hrest
      constructor
      · rw [List.forall_mem_cons]
        refine ⟨⟨hnew, RuleSet.valid_of_ruleFault? hhead⟩, ?_⟩
        intro other hother
        obtain ⟨hoff, hvalid⟩ := hall other hother
        exact ⟨fun hseen => hoff (List.mem_cons_of_mem _ hseen), hvalid⟩
      · rw [List.map_cons, List.nodup_cons]
        refine ⟨?_, hnodup⟩
        intro hrepeat
        obtain ⟨other, hother, hdirection⟩ := List.mem_map.mp hrepeat
        exact (hall other hother).1 (hdirection ▸ List.mem_cons_self)

theorem ruleSetFault?_eq_some {seen : List (String × String)} {sets : List RuleSet}
    (h : d.ruleSetFault? seen sets = some e) :
    (∃ rs ∈ sets, e = .duplicateRuleSet d.id rs.fromZone rs.toZone ∧
        (rs.direction ∈ seen ∨ (sets.map RuleSet.direction).Duplicate rs.direction)) ∨
      ∃ rs ∈ sets, rs.ruleFault? (rs.id d.id) none rs.rules = some e := by
  induction sets generalizing seen with
  | nil => cases h
  | cons rs rest ih =>
    unfold ruleSetFault? at h
    split at h
    · rename_i hold
      cases h
      exact Or.inl ⟨rs, List.mem_cons_self, rfl, Or.inl hold⟩
    · rcases Option.or_eq_some_iff.mp h with hhead | ⟨_, hrest⟩
      · exact Or.inr ⟨rs, List.mem_cons_self, hhead⟩
      · rcases ih hrest with ⟨other, hother, he, hrepeat⟩ | ⟨other, hother, he⟩
        · have hmem := List.mem_map_of_mem (f := RuleSet.direction) hother
          exact Or.inl ⟨other, List.mem_cons_of_mem _ hother, he, duplicate_cons hmem hrepeat⟩
        · exact Or.inr ⟨other, List.mem_cons_of_mem _ hother, he⟩

theorem valid_of_fault? (h : d.fault? = none) : d.Valid := by
  unfold fault? at h
  split at h
  · cases h
  · rename_i hzones
    obtain ⟨hall, hnodup⟩ := ruleSetFault?_eq_none h
    exact ⟨(firstRepeated?_eq_none hzones).2, hnodup, fun rs hrs => (hall rs hrs).2⟩

theorem hasFault_of_fault? (h : d.fault? = some e) : d.HasFault e := by
  unfold fault? at h
  split at h
  · rename_i z hzone
    cases h
    rcases (firstRepeated?_eq_some hzone).2 with hseen | hrepeat
    · cases hseen
    · exact .zone hrepeat
  · rcases ruleSetFault?_eq_some h with ⟨rs, _, rfl, hseen | hrepeat⟩ | ⟨rs, hrs, hrule⟩
    · cases hseen
    · exact .direction hrepeat
    · rcases RuleSet.ruleFault?_eq_some hrule with ⟨p, i, rfl, hle, hnext⟩ | ⟨r, hr, zone, rfl, hstrays⟩
      · exact .index hrs hnext hle
      · exact .stray hrs hr hstrays

/-- Among devices without a fault no identifier is repeated, also among those
met before. -/
theorem listFault?_eq_none {seen : List String} {ds : List Device}
    (h : listFault? seen ds = none) :
    (∀ d ∈ ds, d.id ∉ seen ∧ d.fault? = none) ∧ (ds.map (·.id)).Nodup := by
  induction ds generalizing seen with
  | nil => simp
  | cons d rest ih =>
    unfold listFault? at h
    split at h
    · cases h
    · rename_i hnew
      obtain ⟨hhead, hrest⟩ := Option.or_eq_none_iff.mp h
      obtain ⟨hall, hnodup⟩ := ih hrest
      constructor
      · intro b hb
        rcases List.mem_cons.mp hb with rfl | hb
        · exact ⟨hnew, hhead⟩
        · obtain ⟨hoff, hfault⟩ := hall b hb
          exact ⟨fun hseen => hoff (List.mem_cons_of_mem _ hseen), hfault⟩
      · rw [List.map_cons, List.nodup_cons]
        refine ⟨?_, hnodup⟩
        intro hrepeat
        obtain ⟨b, hb, hid⟩ := List.mem_map.mp hrepeat
        exact (hall b hb).1 (hid ▸ List.mem_cons_self)

theorem listFault?_eq_some {seen : List String} {ds : List Device}
    (h : listFault? seen ds = some e) :
    (∃ d ∈ ds, e = .duplicateDevice d.id ∧ (d.id ∈ seen ∨ (ds.map (·.id)).Duplicate d.id)) ∨
      ∃ d ∈ ds, d.fault? = some e := by
  induction ds generalizing seen with
  | nil => cases h
  | cons d rest ih =>
    unfold listFault? at h
    split at h
    · rename_i hold
      cases h
      exact Or.inl ⟨d, List.mem_cons_self, rfl, Or.inl hold⟩
    · rcases Option.or_eq_some_iff.mp h with hhead | ⟨_, hrest⟩
      · exact Or.inr ⟨d, List.mem_cons_self, hhead⟩
      · rcases ih hrest with ⟨other, hother, he, hrepeat⟩ | ⟨other, hother, he⟩
        · have hmem := List.mem_map_of_mem (f := Device.id) hother
          exact Or.inl ⟨other, List.mem_cons_of_mem _ hother, he, duplicate_cons hmem hrepeat⟩
        · exact Or.inr ⟨other, List.mem_cons_of_mem _ hother, he⟩

theorem HasFault.not_valid (h : d.HasFault e) : ¬d.Valid := by
  intro hvalid
  cases h with
  | zone hrepeat => exact hrepeat.not_nodup hvalid.zones
  | direction hrepeat => exact hrepeat.not_nodup hvalid.directions
  | index hrs hnext hle =>
    have hpair := (hvalid.ruleSets _ hrs).ascending.sublist hnext.sublist
    have hlt := List.rel_of_pairwise_cons hpair List.mem_cons_self
    exact absurd hle (UInt32.not_le.mpr hlt)
  | stray hrs hr hstrays =>
    have hrules := hvalid.ruleSets _ hrs
    rcases hstrays with ⟨hzone, hother⟩ | ⟨hzone, hother⟩
    · rcases hrules.source _ hr with hnone | hsome
      · cases hzone.symm.trans hnone
      · exact hother (Option.some.inj (hzone.symm.trans hsome))
    · rcases hrules.destination _ hr with hnone | hsome
      · cases hzone.symm.trans hnone
      · exact hother (Option.some.inj (hzone.symm.trans hsome))

end Device

namespace Book

theorem mem_literals {Literal : Type} {b : Book Literal} {item : Literal} :
    item ∈ b.literals ↔ .literal item ∈ b.entries ++ b.exclusions := by
  unfold literals
  rw [List.mem_filterMap]
  constructor
  · rintro ⟨entry, hentry, hitem⟩
    cases entry with
    | literal other =>
      cases hitem
      exact hentry
    | book name => cases hitem
  · intro hentry
    exact ⟨_, hentry, rfl⟩

theorem hasScope_of_scopeFault? {Literal : Type} {b : Book Literal} {s : Snapshot}
    (h : b.scopeFault? (s.devices.map (·.id)) = none) : s.HasScope b.scope := by
  unfold scopeFault? at h
  cases hscope : b.scope with
  | global => exact Or.inl rfl
  | device id =>
    rw [hscope] at h
    by_cases hid : id ∈ s.devices.map (·.id)
    · obtain ⟨d, hd, rfl⟩ := List.mem_map.mp hid
      exact Or.inr ⟨d, hd, rfl⟩
    · simp only [if_neg hid] at h
      cases h

theorem scopeFault?_eq_some {Literal : Type} {b : Book Literal} {ids : List String}
    {e : SnapshotError} (h : b.scopeFault? ids = some e) :
    ∃ id, b.scope = .device id ∧ id ∉ ids ∧ e = .unknownDevice id b.name := by
  unfold scopeFault? at h
  split at h
  · cases h
  · rename_i id hscope
    split at h
    · cases h
    · rename_i hid
      cases h
      exact ⟨id, hscope, hid, rfl⟩

theorem portFault?_eq_none {b : ServiceBook} (h : b.portFault? = none) :
    ∀ e, .literal e ∈ b.entries ++ b.exclusions → e.ports.lo ≤ e.ports.hi := by
  intro e he
  have hall := List.find?_eq_none.mp (Option.map_eq_none_iff.mp h) e (mem_literals.mpr he)
  simpa [PortRange.isValid] using hall

theorem portFault?_eq_some {b : ServiceBook} {e : SnapshotError} (h : b.portFault? = some e) :
    ∃ entry, .literal entry ∈ b.entries ++ b.exclusions ∧ entry.ports.hi < entry.ports.lo ∧
      e = .invalidPortRange b.name entry.ports := by
  obtain ⟨entry, hfind, rfl⟩ := Option.map_eq_some_iff.mp h
  have hinvalid := List.find?_some hfind
  refine ⟨entry, mem_literals.mp (List.mem_of_find?_eq_some hfind), ?_, rfl⟩
  simpa [PortRange.isValid] using hinvalid

end Book

namespace Snapshot

variable {s : Snapshot} {e : SnapshotError}

theorem HasScope.mem_devices {id : String} (h : s.HasScope (.device id)) :
    id ∈ s.devices.map (·.id) := by
  rcases h with hglobal | ⟨d, hd, hscope⟩
  · cases hglobal
  · cases hscope
    exact List.mem_map_of_mem hd

theorem valid_of_fault? (h : s.fault? = none) : s.Valid := by
  obtain ⟨hdevices, h⟩ := Option.or_eq_none_iff.mp h
  obtain ⟨hnetworks, hservices⟩ := Option.or_eq_none_iff.mp h
  obtain ⟨hall, hnodup⟩ := Device.listFault?_eq_none hdevices
  have hservice : ∀ b ∈ s.serviceBooks,
      b.scopeFault? (s.devices.map (·.id)) = none ∧ b.portFault? = none :=
    fun b hb => Option.or_eq_none_iff.mp (List.findSome?_eq_none_iff.mp hservices b hb)
  refine ⟨hnodup, ?_, ?_, ?_, ?_⟩
  · exact fun d hd => Device.valid_of_fault? (hall d hd).2
  · exact fun b hb => Book.hasScope_of_scopeFault? (List.findSome?_eq_none_iff.mp hnetworks b hb)
  · exact fun b hb => Book.hasScope_of_scopeFault? (hservice b hb).1
  · exact fun b hb => Book.portFault?_eq_none (hservice b hb).2

/-- A fault that is reported is there. -/
theorem hasFault_of_fault? (h : s.fault? = some e) : s.HasFault e := by
  rcases Option.or_eq_some_iff.mp h with hdevices | ⟨_, h⟩
  · rcases Device.listFault?_eq_some hdevices with ⟨d, _, rfl, hseen | hrepeat⟩ | ⟨d, hd, hfault⟩
    · cases hseen
    · exact .repeated hrepeat
    · exact .device hd (Device.hasFault_of_fault? hfault)
  · rcases Option.or_eq_some_iff.mp h with hnetworks | ⟨_, hservices⟩
    · obtain ⟨b, hb, hfault⟩ := List.exists_of_findSome?_eq_some hnetworks
      obtain ⟨id, hscope, hid, rfl⟩ := Book.scopeFault?_eq_some hfault
      exact .networkScope hb hscope hid
    · obtain ⟨b, hb, hfault⟩ := List.exists_of_findSome?_eq_some hservices
      rcases Option.or_eq_some_iff.mp hfault with hother | ⟨_, hports⟩
      · obtain ⟨id, hscope, hid, rfl⟩ := Book.scopeFault?_eq_some hother
        exact .serviceScope hb hscope hid
      · obtain ⟨entry, hentry, hlt, rfl⟩ := Book.portFault?_eq_some hports
        exact .ports hb hentry hlt

theorem HasFault.not_valid (h : s.HasFault e) : ¬s.Valid := by
  intro hvalid
  cases h with
  | device hd hfault => exact hfault.not_valid (hvalid.devices _ hd)
  | repeated hrepeat => exact hrepeat.not_nodup hvalid.distinct
  | @networkScope b _ hb hscope hid =>
    have hthere := hvalid.networkScopes b hb
    rw [hscope] at hthere
    exact hid hthere.mem_devices
  | @serviceScope b _ hb hscope hid =>
    have hthere := hvalid.serviceScopes b hb
    rw [hscope] at hthere
    exact hid hthere.mem_devices
  | ports hb he hlt => exact UInt16.not_le.mpr hlt (hvalid.ports _ hb _ he)

/-- A snapshot has no fault that is reported exactly when it is valid. -/
theorem fault?_eq_none_iff : s.fault? = none ↔ s.Valid := by
  constructor
  · exact valid_of_fault?
  · intro hvalid
    cases hfault : s.fault? with
    | none => rfl
    | some e => exact absurd hvalid (hasFault_of_fault? hfault).not_valid

end Snapshot

end Perimeter
