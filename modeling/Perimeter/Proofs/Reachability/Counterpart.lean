import Perimeter.Proofs.Reachability.Location
import Perimeter.Proofs.Reachability.Portwise
import Perimeter.Proofs.Topology.Joins

/-!
Two graphs of the same zones, compared by what their edges join. A walk of the one
goes along in the other if that has an edge of the same kind wherever the first one
has. So more edges only ever allow more, and graphs with edges in the same places
give answers of one kind, whatever the order in which they list nodes and edges.
-/

namespace Perimeter

/-- Edges with one rule set, or links of any reason. -/
inductive EdgeKind.Alike : EdgeKind → EdgeKind → Prop where
  | filtered (rs : ResolvedRuleSet) : Alike (.filtered rs) (.filtered rs)
  | transit (reason reason' : LinkReason) : Alike (.transit reason) (.transit reason')

namespace EdgeKind

variable {k k' : EdgeKind}

theorem Alike.refl (k : EdgeKind) : k.Alike k := by
  cases k with
  | filtered rs => exact .filtered rs
  | transit reason => exact .transit reason reason

theorem Alike.admits {flow : Flow} (h : k.Alike k') (hadmits : k.Admits flow) : k'.Admits flow := by
  cases h with
  | filtered rs => exact hadmits
  | transit _ _ => trivial

end EdgeKind

/-- A graph has its zones and its edges in another one too. The order of nodes and the
reasons for links may differ. -/
structure Graph.Within (g g' : Graph) : Prop where
  nodes : g.nodes.toList.Perm g'.nodes.toList
  distinct : Function.Injective g'.zone
  joins : ∀ source target kind, g.Joins source target kind →
    ∃ kind', kind.Alike kind' ∧ g'.Joins source target kind'

namespace Graph

variable {g g' : Graph} {i j : Fin g.size} {i' j' : Fin g'.size}

namespace Within

/-- A walk goes along in the other graph, over edges of the same kinds. -/
theorem exists_walk (h : g.Within g') {es : List (Edge g.size)} (hwalk : g.Walk i es j)
    (hi : g.zone i = g'.zone i') (hj : g.zone j = g'.zone j') :
    ∃ es', g'.Walk i' es' j' ∧ List.Forall₂ (fun e e' => e.kind.Alike e'.kind) es es' := by
  induction hwalk generalizing i' with
  | nil =>
    obtain rfl := h.distinct (hi.symm.trans hj)
    exact ⟨[], .nil i', .nil⟩
  | cons hedge _ ih =>
    obtain ⟨kind', halike, hjoins⟩ := h.joins _ _ _ (joins_of_leaving hedge)
    rw [hi] at hjoins
    obtain ⟨e', hedge', htarget, rfl⟩ := hjoins.exists_edge h.distinct
    obtain ⟨es', hwalk', hkinds⟩ := ih htarget.symm hj
    exact ⟨e' :: es', .cons hedge' hwalk', .cons halike hkinds⟩

theorem exists_letsThrough (h : g.Within g') {ends : Ends} {offered : ServiceSet}
    {es : List (Edge g.size)} (hthrough : g.LetsThrough ends offered i j es)
    (hi : g.zone i = g'.zone i') (hj : g.zone j = g'.zone j') :
    ∃ es', g'.LetsThrough ends offered i' j' es' := by
  obtain ⟨hwalk, p, port, hin, hadmits⟩ := hthrough
  obtain ⟨es', hwalk', hkinds⟩ := h.exists_walk hwalk hi hj
  refine ⟨es', hwalk', p, port, hin, ?_⟩
  intro e' he'
  obtain ⟨e, he, halike⟩ := exists_of_mem_right hkinds he'
  exact halike.admits (hadmits e he)

variable {q : FlowQuery} {digest digest' : String}

theorem answer_allowed (h : g.Within g') (hi : g.zone i = g'.zone i') (hj : g.zone j = g'.zone j')
    (hallowed : (g.answer i j q digest).allowed = true) :
    (g'.answer i' j' q digest').allowed = true := by
  rw [answer_allowed_iff] at hallowed ⊢
  rcases hallowed with rfl | ⟨es, hthrough⟩
  · exact Or.inl (h.distinct (hi.symm.trans hj))
  · exact Or.inr (h.exists_letsThrough hthrough hi hj)

theorem answer_noPath (h : g.Within g') (hi : g.zone i = g'.zone i') (hj : g.zone j = g'.zone j')
    (hnone : (g'.answer i' j' q digest').reason = .noPath) :
    (g.answer i j q digest).reason = .noPath := by
  rw [answer_noPath_iff] at hnone ⊢
  obtain ⟨hne, hunconnected⟩ := hnone
  refine ⟨?_, ?_⟩
  · rintro rfl
    exact hne (h.distinct (hi.symm.trans hj))
  · rintro ⟨es, hwalk⟩
    obtain ⟨es', hwalk', _⟩ := h.exists_walk hwalk hi hj
    exact hunconnected ⟨es', hwalk'⟩

/-- What is allowed is allowed as well where there are more edges. -/
theorem query_allowed (h : g.Within g') {v : Verdict} (hquery : g.query q digest = .ok v)
    (hallowed : v.allowed = true) : ∃ v', g'.query q digest' = .ok v' ∧ v'.allowed = true := by
  obtain ⟨source, destination, hsource, hdestination, rfl⟩ := query_eq_ok_iff.mp hquery
  obtain ⟨source', hsource', hi⟩ := (locatesAlike h.nodes q.source q.sourceZone).exists_found hsource
  obtain ⟨destination', hdestination', hj⟩ :=
    (locatesAlike h.nodes q.destination q.destinationZone).exists_found hdestination
  exact ⟨_, query_eq_ok_iff.mpr ⟨source', destination', hsource', hdestination', rfl⟩,
    h.answer_allowed hi hj hallowed⟩

/-- Where there is no path, there is none where there are fewer edges. -/
theorem query_noPath (h : g.Within g') {v' : Verdict} (hquery : g'.query q digest' = .ok v')
    (hnone : v'.reason = .noPath) : ∃ v, g.query q digest = .ok v ∧ v.reason = .noPath := by
  obtain ⟨source', destination', hsource', hdestination', rfl⟩ := query_eq_ok_iff.mp hquery
  obtain ⟨source, hsource, hi⟩ :=
    (locatesAlike h.nodes.symm q.source q.sourceZone).exists_found hsource'
  obtain ⟨destination, hdestination, hj⟩ :=
    (locatesAlike h.nodes.symm q.destination q.destinationZone).exists_found hdestination'
  exact ⟨_, query_eq_ok_iff.mpr ⟨source, destination, hsource, hdestination, rfl⟩,
    h.answer_noPath hi.symm hj.symm hnone⟩

end Within

end Graph

/-- What an answer comes to, but for the rule set that denies it. -/
inductive AnswerKind where
  | intraZone
  | permitted
  | denied
  | noPath
deriving DecidableEq

def Reason.kind : Reason → AnswerKind
  | intraZone => .intraZone
  | permitted => .permitted
  | deniedByRule _ _ => .denied
  | deniedByDefault _ => .denied
  | noPath => .noPath

theorem Reason.kind_of_deniedBy? {reason : Reason} {ruleSet : RuleSetId}
    (h : reason.deniedBy? = some ruleSet) : reason.kind = .denied := by
  cases reason with
  | deniedByRule _ _ => rfl
  | deniedByDefault _ => rfl
  | _ => cases h

namespace Graph

variable {g g' : Graph} {source destination : Fin g.size} {q : FlowQuery} {digest : String}

/-- Three questions settle what an answer comes to. -/
theorem kind_answer (g : Graph) (source destination : Fin g.size) (q : FlowQuery)
    (digest : String) :
    (g.answer source destination q digest).reason.kind =
      if source = destination then .intraZone
      else if (g.answer source destination q digest).allowed = true then .permitted
      else if (g.answer source destination q digest).reason = .noPath then .noPath
      else .denied := by
  unfold answer
  by_cases hsame : source = destination
  · simp [hsame, verdict, Reason.kind]
  · simp only [if_neg hsame]
    split
    · rfl
    · rename_i path reason hsearch
      obtain ⟨_, _, _, _, _, _, _, _, _, _, hdenial, _⟩ :=
        search_denied_at_last q.specific_offered hsearch
      obtain ⟨ruleSet, hdenied, _⟩ := PathHop.deniedBy_of_denial? hdenial
      have hother : reason ≠ .noPath := by
        rintro rfl
        cases hdenied
      simp [verdict, hother, Reason.kind_of_deniedBy? hdenied]
    · rfl

/-- A question about one port permits it or nothing. -/
theorem permitted_of_port {n : UInt16} (hport : q.port = some n) :
    (g.answer source destination q digest).permitted =
      if (g.answer source destination q digest).allowed = true then q.offered else .empty := by
  unfold answer
  by_cases hsame : source = destination
  · simp [hsame, verdict]
  · simp only [if_neg hsame]
    split
    · rename_i hsearch
      obtain ⟨es, _, _, _, rfl, hsome⟩ := search_reached q.specific_offered hsearch
      have hcarried := specific_carried q.ends q.specific_offered es
      obtain ⟨p, port, hpair⟩ := hcarried.exists_contains hsome
      obtain ⟨hin, hadmits⟩ := (contains_carried_iff _ _ es p port).mp hpair
      have hall : ∀ p' port', q.offered.contains p' port' = true → p' = p ∧ port' = port := by
        have hq : q = q.atPort n := by rw [FlowQuery.atPort, ← hport]
        rw [hq, FlowQuery.contains_offered_atPort] at hin
        intro p' port' hin'
        rw [hq, FlowQuery.contains_offered_atPort] at hin'
        exact ⟨hin'.1.trans hin.1.symm, hin'.2.trans hin.2.symm⟩
      refine ServiceSet.eq_iff.mpr ⟨?_, fun p' port' => ?_⟩
      · exact Eq.trans hcarried q.specific_offered.symm
      · constructor
        · intro hin'
          exact ((contains_carried_iff _ _ es p' port').mp hin').1
        · intro hin'
          obtain ⟨rfl, rfl⟩ := hall p' port' hin'
          exact hpair
    · rfl
    · rfl

end Graph

/-- Answers to one question that differ in no more than the route and in what denied
it: about one port, they permit the same. -/
structure Verdict.Alike (v v' : Verdict) : Prop where
  query : v.query = v'.query
  sourceZone : v.sourceZone = v'.sourceZone
  destinationZone : v.destinationZone = v'.destinationZone
  allowed : v.allowed = v'.allowed
  kind : v.reason.kind = v'.reason.kind
  permitted : ∀ n, v.query.port = some n → v.permitted = v'.permitted

/-- Answers that are alike, or errors that are. -/
inductive AnsweredAlike : Except QueryError Verdict → Except QueryError Verdict → Prop where
  | answered {v v' : Verdict} (h : v.Alike v') : AnsweredAlike (.ok v) (.ok v')
  | failed {e e' : QueryError} (h : e.Alike e') : AnsweredAlike (.error e) (.error e')

namespace Graph

variable {g g' : Graph} {i j : Fin g.size} {i' j' : Fin g'.size} {q : FlowQuery}

theorem answer_alike (h : g.Within g') (h' : g'.Within g) (hi : g.zone i = g'.zone i')
    (hj : g.zone j = g'.zone j') (digest digest' : String) :
    (g.answer i j q digest).Alike (g'.answer i' j' q digest') := by
  have hquery : ∀ (g : Graph) (i j : Fin g.size) (digest : String),
      (g.answer i j q digest).query = q ∧ (g.answer i j q digest).sourceZone = g.zone i ∧
        (g.answer i j q digest).destinationZone = g.zone j := by
    intro g i j digest
    unfold answer
    split
    · exact ⟨rfl, rfl, rfl⟩
    · split <;> exact ⟨rfl, rfl, rfl⟩
  obtain ⟨hq, hsource, hdestination⟩ := hquery g i j digest
  obtain ⟨hq', hsource', hdestination'⟩ := hquery g' i' j' digest'
  have hsame : i = j ↔ i' = j' := by
    constructor
    · rintro rfl
      exact h.distinct (hi.symm.trans hj)
    · rintro rfl
      exact h'.distinct (hi.trans hj.symm)
  have hallowed : (g.answer i j q digest).allowed = true ↔
      (g'.answer i' j' q digest').allowed = true :=
    ⟨h.answer_allowed hi hj, h'.answer_allowed hi.symm hj.symm⟩
  have hnone : (g.answer i j q digest).reason = .noPath ↔
      (g'.answer i' j' q digest').reason = .noPath :=
    ⟨h'.answer_noPath hi.symm hj.symm, h.answer_noPath hi hj⟩
  constructor
  · rw [hq, hq']
  · rw [hsource, hsource', hi]
  · rw [hdestination, hdestination', hj]
  · exact Bool.eq_iff_iff.mpr hallowed
  · rw [kind_answer, kind_answer]
    simp only [hsame, hallowed, hnone]
  · intro n hport
    rw [hq] at hport
    rw [permitted_of_port hport, permitted_of_port hport]
    simp only [hallowed]

/-- Graphs with edges in the same places answer every question alike. -/
theorem query_alike (h : g.Within g') (h' : g'.Within g) (q : FlowQuery) (digest digest' : String) :
    AnsweredAlike (g.query q digest) (g'.query q digest') := by
  rw [query_eq_answer, query_eq_answer]
  cases locatesAlike h.nodes q.source q.sourceZone with
  | failed he he' halike =>
    rw [he, he']
    exact .failed halike
  | found i i' hi hi' hsource =>
    rw [hi, hi']
    cases locatesAlike h.nodes q.destination q.destinationZone with
    | failed he he' halike =>
      dsimp only [bind, Except.bind]
      rw [he, he']
      exact .failed halike
    | found j j' hj hj' hdestination =>
      dsimp only [bind, Except.bind]
      rw [hj, hj']
      exact .answered (answer_alike h h' hsource hdestination digest digest')

end Graph

end Perimeter
