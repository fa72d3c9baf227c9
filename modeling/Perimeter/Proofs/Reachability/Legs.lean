import Mathlib.Data.List.Infix
import Perimeter.Proofs.Reachability.Certificate
import Perimeter.Proofs.Reachability.Decision

/-!
What arrives at the hops of an answer. The first hop gets what the question asks
about and every other one what the hop before it let through. Something arrives
at each of them, since nothing is followed beyond a hop where all is denied; that
hop comes last and gives the reason.
-/

namespace Perimeter

/-- Each item of a list is zipped with what comes from the one before it. -/
theorem exists_zip_concat {α β : Type} (f : α → β) (start : β) (before : List α) (last : α) :
    ∃ init arriving, (start :: (before ++ [last]).map f).zip (before ++ [last]) =
      init ++ [(arriving, last)] := by
  induction before generalizing start with
  | nil => exact ⟨[], start, rfl⟩
  | cons x rest ih =>
    obtain ⟨init, arriving, hrest⟩ := ih (f x)
    exact ⟨(start, x) :: init, arriving, congrArg ((start, x) :: ·) hrest⟩

/-- The hops of the path, each with the services that arrive at it. -/
def Verdict.legs (v : Verdict) : List (ServiceSet × PathHop) :=
  (v.query.offered :: v.narrowing).zip v.path

/-- Every hop of the path has one leg, in order. -/
theorem Verdict.map_snd_legs (v : Verdict) : v.legs.map (·.2) = v.path := by
  have hlength : v.path.length ≤ (v.query.offered :: v.narrowing).length := by simp [narrowing]
  exact List.map_snd_zip hlength

/-- Some of the services that a question asks about. -/
structure FlowQuery.Carries (q : FlowQuery) (arriving : ServiceSet) : Prop where
  specific : arriving.Specific
  hasPair : arriving.HasPair
  asked : ∀ p port, arriving.contains p port = true → p = q.protocol ∧ ∀ n ∈ q.port, port = n

/-- The hop shows what a rule set makes of the services that arrive. -/
structure PathHop.DecidedBy (hop : PathHop) (q : FlowQuery) (arriving : ServiceSet)
    (rs : ResolvedRuleSet) : Prop where
  carries : q.Carries arriving
  decision : hop.decision =
    (rs.evaluateServices q.source q.destination arriving).decision rs.defaultAction
  services : hop.services = (rs.evaluateServices q.source q.destination arriving).permitted

namespace FlowQuery

variable {q : FlowQuery} {arriving : ServiceSet}

theorem carries_offered (q : FlowQuery) : q.Carries q.offered := by
  refine ⟨q.specific_offered, ServiceSet.hasPair_ofFlow q.protocol q.port, ?_⟩
  intro p port hin
  unfold offered ServiceSet.ofFlow at hin
  cases hport : q.port with
  | none =>
    rw [hport] at hin
    have hprotocol := (ServiceSet.contains_ofProtocol.mp hin).1
    exact ⟨hprotocol, by simp⟩
  | some asked =>
    rw [hport] at hin
    obtain ⟨hprotocol, hmem⟩ := ServiceSet.contains_ofProtocol.mp hin
    have hsame : port.toNat = asked.toNat ∧ asked.toNat ≤ lastPort := by simpa using hmem
    have heq := UInt16.toNat_inj.mp hsame.1
    exact ⟨hprotocol, by simp [heq]⟩

theorem Carries.passed (h : q.Carries arriving) (k : EdgeKind)
    (hsome : (k.passed q.ends arriving).HasPair) : q.Carries (k.passed q.ends arriving) := by
  refine ⟨k.specific_passed q.ends h.specific, hsome, ?_⟩
  intro p port hin
  exact h.asked p port ((k.contains_passed_iff q.ends arriving p port).mp hin).1

end FlowQuery

namespace Graph

variable {g : Graph} {q : FlowQuery}

/-- The hop is made over an edge of the graph by some of what is asked about. -/
structure Leg (g : Graph) (q : FlowQuery) (arriving : ServiceSet) (hop : PathHop) : Prop where
  carries : q.Carries arriving
  crosses : ∃ i, ∃ e ∈ g.leaving i, hop = g.cross i e q.ends arriving

theorem Leg.exists_decidedBy {s : ResolvedSnapshot} {inference : Inference}
    (hbuild : build s inference = .ok g) {arriving : ServiceSet} {hop : PathHop}
    (h : g.Leg q arriving hop) {id : RuleSetId} (hid : hop.ruleSet = some id) :
    ∃ rs ∈ s.ruleSets, rs.id = id ∧ hop.DecidedBy q arriving rs := by
  obtain ⟨i, ⟨target, kind⟩, hedge, rfl⟩ := h.crosses
  cases kind with
  | filtered rs =>
    have hmem := mem_ruleSets_of_leaving hbuild hedge rfl
    exact ⟨rs, hmem, Option.some.inj hid, h.carries, rfl, rfl⟩
  | transit reason => cases hid

theorem Passes.leg {i j : Fin g.size} {arriving : ServiceSet} {hop : PathHop}
    (h : g.Passes q.ends i arriving hop j) (hcarries : q.Carries arriving) :
    g.Leg q arriving hop := by
  obtain ⟨e, hedge, _, hcross⟩ := passes_iff.mp h
  exact ⟨hcarries, i, e, hedge, hcross⟩

/-- What a hop lets on is still asked about, if it is something. -/
theorem Leg.carries_services {arriving : ServiceSet} {hop : PathHop} (h : g.Leg q arriving hop)
    (hsome : hop.services.HasPair) : q.Carries hop.services := by
  obtain ⟨_, e, _, rfl⟩ := h.crosses
  exact h.carries.passed e.kind hsome

/-- The induction is on the replay: what its first hop lets on arrives at those
of the rest. -/
theorem Replays.legs {i j : Fin g.size} {arriving : ServiceSet} {path : List PathHop}
    (h : g.Replays q.ends i arriving path j) (hcarries : q.Carries arriving)
    (hladen : ∀ hop ∈ path.dropLast, hop.services.HasPair) :
    ∀ leg ∈ (arriving :: path.map (·.services)).zip path, g.Leg q leg.1 leg.2 := by
  induction h with
  | nil => simp
  | @cons i j k arriving hop path hhop _ ih =>
    have hfirst := hhop.leg hcarries
    rw [List.map_cons, List.zip_cons_cons]
    intro leg hleg
    rcases List.mem_cons.mp hleg with rfl | hleg
    · exact hfirst
    · cases path with
      | nil => cases hleg
      | cons second later =>
        -- Only a hop with another one after it is known to let something through.
        rw [List.dropLast_cons_cons] at hladen
        obtain ⟨hsome, hlater⟩ := List.forall_mem_cons.mp hladen
        exact ih (hfirst.carries_services hsome) hlater leg hleg

end Graph

namespace Verdict

variable {g : Graph} {source destination : Fin g.size} {v : Verdict}

/-- On the path of a certified verdict something gets through every hop but the
last. -/
theorem Certified.laden (h : v.Certified g source destination) :
    ∀ hop ∈ v.path.dropLast, hop.services.HasPair := by
  cases hreason : v.reason with
  | permitted =>
    obtain ⟨_, _, _, _, hladen, _⟩ := h.arrived hreason
    intro hop hmem
    exact hladen hop (List.mem_of_mem_dropLast hmem)
  | intraZone => simp [(h.stayed hreason).1]
  | noPath => simp [(h.unconnected hreason).1]
  | deniedByRule ruleSet index =>
    obtain ⟨_, before, last, _, _, hpath, hladen, _⟩ := h.stopped ruleSet (by rw [hreason]; rfl)
    rwa [hpath, List.dropLast_concat]
  | deniedByDefault ruleSet =>
    obtain ⟨_, before, last, _, _, hpath, hladen, _⟩ := h.stopped ruleSet (by rw [hreason]; rfl)
    rwa [hpath, List.dropLast_concat]

theorem Certified.legs (h : v.Certified g source destination) :
    ∀ leg ∈ v.legs, g.Leg v.query leg.1 leg.2 := by
  obtain ⟨_, hreplay⟩ := h.replay
  unfold Verdict.legs
  rw [h.narrowing]
  exact hreplay.legs v.query.carries_offered h.laden

theorem getLast?_legs {before : List PathHop} {last : PathHop} (h : v.path = before ++ [last]) :
    ∃ arriving, v.legs.getLast? = some (arriving, last) := by
  obtain ⟨init, arriving, hzip⟩ :=
    exists_zip_concat PathHop.services v.query.offered before last
  refine ⟨arriving, ?_⟩
  unfold Verdict.legs narrowing
  rw [h, hzip, List.getLast?_concat]

end Verdict

namespace Graph

variable {g : Graph} {q : FlowQuery} {digest : String} {v : Verdict}

/-- The last hop of an answer that denies lets nothing through and gives the
reason. -/
theorem denial_of_query (h : g.query q digest = .ok v) {ruleSet : RuleSetId}
    (hdenied : v.reason.deniedBy? = some ruleSet) :
    ∃ arriving hop, v.legs.getLast? = some (arriving, hop) ∧ hop.services = .empty ∧
      hop.denial? = some v.reason := by
  obtain ⟨source, destination, _, _, hanswer⟩ := query_eq_ok_iff.mp h
  unfold answer at hanswer
  split at hanswer
  · cases hanswer
    cases hdenied
  · split at hanswer
    · cases hanswer
      cases hdenied
    · rename_i path reason hsearch
      cases hanswer
      obtain ⟨_, _, before, last, _, _, _, hpath, _, hempty, hdenial, _⟩ :=
        search_denied_at_last q.specific_offered hsearch
      obtain ⟨arriving, hlast⟩ := Verdict.getLast?_legs
        (v := g.verdict source destination q digest false reason path .empty) hpath
      exact ⟨arriving, last, hlast, hempty, hdenial⟩
    · cases hanswer
      cases hdenied

end Graph

end Perimeter
