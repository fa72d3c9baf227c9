import Perimeter.Proofs.Reachability.Completeness

/-!
What the hops of a path account for. A search follows nothing on from a hop that
lets nothing through, so each hop of a visit's trail lets something through; a
denial adds one hop to such a trail, which gives the reason. And since every
edge only takes services away, the services along a path keep narrowing.
-/

namespace Perimeter

namespace Search

variable {g : Graph} {task : Task g} {source : Fin g.size} {offered : ServiceSet}

/-- Something got through every hop on the trail of a visit. -/
def Visit.Laden (v : Visit g) : Prop := ∀ hop ∈ v.trail, ¬hop.services.isEmpty = true

theorem Visit.Laden.along {v : Visit g} {e : Edge g.size} (h : v.Laden)
    (hsome : ¬(v.along task e).services.isEmpty = true) : (v.along task e).Laden := by
  intro hop hmem
  rcases List.mem_cons.mp hmem with rfl | hmem
  · exact hsome
  · exact h hop hmem

/-- The last hop of its path gives the reason for a denial, and something got
through all hops before it. -/
def Denial.Explained (d : Denial) : Prop :=
  ∃ before last, d.path = before ++ [last] ∧ last.denial? = some d.reason ∧
    ∀ hop ∈ before, ¬hop.services.isEmpty = true

theorem Visit.Laden.refusal {v : Visit g} {e : Edge g.size} (h : v.Laden) {d : Denial}
    (hd : v.refusal? task e = some d) : d.Explained := by
  obtain ⟨reason, hreason, rfl⟩ := Option.map_eq_some_iff.mp hd
  refine ⟨v.trail.reverse, g.cross v.node e task.ends v.services, ?_, hreason, ?_⟩
  · exact List.reverse_cons
  · intro hop hmem
    exact h hop (List.mem_reverse.mp hmem)

structure Moment.Laden (m : Moment g) : Prop where
  visit : m.visit.Laden
  queue : ∀ w ∈ m.queue, w.Laden
  denial : ∀ d, m.denial = some d → d.Explained

theorem laden_opening (source : Fin g.size) (offered : ServiceSet) :
    (opening g source offered).Laden := by
  refine ⟨?_, ?_, ?_⟩
  · intro hop hmem
    cases hmem
  · intro w hw
    cases hw
  · intro d hd
    cases hd

theorem Moment.Laden.advance {m m' : Moment g} (h : m.Laden) (hstep : Advance task m m') :
    m'.Laden := by
  cases hstep with
  | cutOff _ => exact ⟨h.visit, h.queue, h.denial⟩
  | repeated _ _ _ _ => exact ⟨h.visit, h.queue, h.denial⟩
  | refused _ _ =>
    refine ⟨h.visit, h.queue, ?_⟩
    intro d hd
    rcases Option.or_eq_some_iff.mp hd with hold | ⟨_, hrefusal⟩
    · exact h.denial d hold
    · exact h.visit.refusal hrefusal
  | fresh _ hsome _ _ =>
    refine ⟨h.visit, ?_, h.denial⟩
    intro w hw
    rcases List.mem_append.mp hw with hold | hlast
    · exact h.queue w hold
    · rw [List.mem_singleton.mp hlast]
      exact h.visit.along hsome
  | turn =>
    exact ⟨h.queue _ List.mem_cons_self, fun w hw => h.queue w (List.mem_cons_of_mem _ hw),
      h.denial⟩

theorem Runs.laden {m : Moment g} (h : Runs task (opening g source offered) m) : m.Laden := by
  induction h with
  | refl => exact laden_opening source offered
  | tail _ hstep ih => exact ih.advance hstep

end Search

theorem EdgeKind.isSubset_passed (k : EdgeKind) (ends : Ends) {arriving : ServiceSet}
    (h : arriving.Specific) : (k.passed ends arriving).isSubset arriving = true := by
  apply ((k.specific_passed ends h).isSubset_iff arriving).mpr
  intro p port hin
  exact ((k.contains_passed_iff ends arriving p port).mp hin).1

namespace Graph

variable {g : Graph} {source destination : Fin g.size} {ends : Ends} {offered : ServiceSet}

theorem specific_hops (hoffered : offered.Specific) (i : Fin g.size) (es : List (Edge g.size)) :
    ∀ hop ∈ g.hops ends i offered es, hop.services.Specific := by
  induction es generalizing i offered with
  | nil =>
    intro hop hmem
    cases hmem
  | cons e rest ih =>
    have hpassed := e.kind.specific_passed ends hoffered
    intro hop hmem
    rcases List.mem_cons.mp hmem with rfl | hmem
    · exact hpassed
    · exact ih hpassed e.target hop hmem

/-- The services along a walk narrow from the offer on. -/
theorem pairwise_hops (hoffered : offered.Specific) (i : Fin g.size) (es : List (Edge g.size)) :
    (offered :: (g.hops ends i offered es).map (·.services)).Pairwise
      fun before after => after.isSubset before = true := by
  induction es generalizing i offered with
  | nil => exact List.pairwise_singleton _ _
  | cons e rest ih =>
    have hlater := ih (e.kind.specific_passed ends hoffered) e.target
    have hfirst := e.kind.isSubset_passed ends hoffered
    apply List.Pairwise.cons _ hlater
    intro services hmem
    rcases List.mem_cons.mp hmem with rfl | hmem
    · exact hfirst
    · exact ServiceSet.isSubset_trans ((List.pairwise_cons.mp hlater).1 services hmem) hfirst

/-- Where something is left after a walk, something got through all its hops. -/
theorem hasPair_hops (i : Fin g.size) (es : List (Edge g.size))
    (h : (carried ends offered es).HasPair) :
    ∀ hop ∈ g.hops ends i offered es, hop.services.HasPair := by
  induction es generalizing i offered with
  | nil =>
    intro hop hmem
    cases hmem
  | cons e rest ih =>
    have hrest : (carried ends (e.kind.passed ends offered) rest).HasPair := h
    intro hop hmem
    rcases List.mem_cons.mp hmem with rfl | hmem
    · obtain ⟨p, port, hin⟩ := hrest
      exact ⟨p, port, ((contains_carried_iff ends _ rest p port).mp hin).1⟩
    · exact ih e.target hrest hop hmem

/-- The last hop of a walk leads to its end, with what is left of the offer. -/
theorem exists_last_hop {i j : Fin g.size} {es : List (Edge g.size)} (h : g.Walk i es j)
    (hes : es ≠ []) (ends : Ends) (offered : ServiceSet) :
    ∃ before last, g.hops ends i offered es = before ++ [last] ∧ last.target = g.zone j ∧
      last.services = carried ends offered es := by
  rcases List.eq_nil_or_concat es with hnil | ⟨init, e, rfl⟩
  · exact absurd hnil hes
  · rw [List.concat_eq_append] at h ⊢
    obtain ⟨rfl, k, hwalk, _⟩ := h.eq_target_of_snoc
    exact ⟨_, _, hops_snoc hwalk offered e, rfl, (carried_snoc ends offered init e).symm⟩

/-- The hop at the end of a denied path lets nothing through and gives the
reason; something gets through all others. Its target reaches the destination. -/
theorem search_denied_at_last (hoffered : offered.Specific) {path : List PathHop}
    {reason : Reason} (h : g.search source destination ends offered = .denied path reason) :
    ∃ es target before last rest, g.Walk source es target ∧
      path = g.hops ends source offered es ∧ path = before ++ [last] ∧
      (∀ hop ∈ before, hop.services.HasPair) ∧ last.services = .empty ∧
      last.denial? = some reason ∧ last.target = g.zone target ∧
      g.Walk target rest destination := by
  by_cases hreach : source ∈ g.nodesReaching destination
  · obtain ⟨m, hruns, hfinal⟩ := search_final ends offered hreach
    have hmoment := Search.Runs.backed hoffered hruns
    rw [h] at hfinal
    cases hfinal with
    | @denied _ _ d =>
      obtain ⟨before, last, hpath, hreason, hladen⟩ := hruns.laden.denial d rfl
      obtain ⟨es, e, hbacked⟩ := hmoment.denial d rfl
      obtain ⟨rest, hrest⟩ := mem_nodesReaching_iff.mp hbacked.reaching
      have hspecific : ∀ hop ∈ d.path, hop.services.Specific := by
        rw [hbacked.path]
        exact specific_hops hoffered source (es ++ [e])
      obtain ⟨before', last', hpath', htarget, hservices⟩ :=
        exists_last_hop hbacked.walk (List.concat_ne_nil e es) ends offered
      -- The hop that gives the reason is the one over the last edge of the walk.
      have hends : before ++ [last] = before' ++ [last'] := by
        rw [← hpath, ← hpath']
        exact hbacked.path
      obtain ⟨rfl, hlast⟩ := List.append_inj' hends rfl
      cases hlast
      refine ⟨es ++ [e], e.target, before, last, rest, hbacked.walk, hbacked.path, hpath, ?_, ?_,
        hreason, htarget, hrest⟩
      · intro hop hmem
        have hin : hop ∈ d.path := hpath ▸ List.mem_append_left _ hmem
        exact (hspecific hop hin).exists_contains (Bool.eq_false_iff.mpr (hladen hop hmem))
      · rw [hservices]
        exact ServiceSet.eq_empty_of_isEmpty hbacked.nothing
  · rw [search_of_not_mem ends offered hreach] at h
    cases h

end Graph

end Perimeter
