import Perimeter.Proofs.Reachability.Completeness

/-!
No path at all, as opposed to a denial. A link stops nothing, and a rule set
that stops everything makes a denial. So as long as there is none, something has
got over every edge that was followed, and by the end of a search something has
been brought along every walk to the destination. Finding no path therefore
means that there is no walk, and a search that neither arrives nor finds this
reports a denial.
-/

namespace Perimeter

namespace Search

variable {g : Graph} {task : Task g} {source : Fin g.size} {offered : ServiceSet}

/-- An edge without a denial to show for it lets everything through. -/
theorem Visit.services_along_of_refusal {v : Visit g} {e : Edge g.size}
    (h : v.refusal? task e = none) : (v.along task e).services = v.services := by
  have hfree : e.kind.ruleSetId? = none := by
    have hnone := Option.map_eq_none_iff.mp h
    exact Option.map_eq_none_iff.mp hnone
  change e.kind.passed task.ends v.services = v.services
  cases hkind : e.kind with
  | filtered rs =>
    rw [hkind] at hfree
    cases hfree
  | transit reason => rfl

/-- Unless there is a denial afterwards, something gets over the edge dealt with. -/
theorem Advance.hasPair_along {m m' : Moment g} (hoffered : offered.Specific)
    (hbacked : m.Backed task source offered) (hstep : Advance task m m')
    (hdenial : m'.denial = none) {e : Edge g.size} (he : e ∈ m.edges.head?)
    (hreach : e.target ∈ task.reaching) (hin : m.visit.services.HasPair) :
    (m.visit.along task e).services.HasPair := by
  have hsomething : ¬(m.visit.along task e).services.isEmpty = true →
      (m.visit.along task e).services.HasPair := by
    intro hsome
    obtain ⟨walked, hvisit⟩ := hbacked.visit
    have hspecific := hvisit.specific_along hoffered e
    exact hspecific.exists_contains (Bool.eq_false_iff.mpr hsome)
  cases hstep with
  | cutOff hoff =>
    cases he
    exact absurd hreach hoff
  | refused _ hempty =>
    cases he
    have hrefusal := (Option.or_eq_none_iff.mp hdenial).2
    rw [Visit.services_along_of_refusal hrefusal]
    exact hin
  | repeated _ hsome _ _ =>
    cases he
    exact hsomething hsome
  | fresh _ hsome _ _ =>
    cases he
    exact hsomething hsome
  | turn => cases he

theorem Advance.denial_eq_none {m m' : Moment g} (hstep : Advance task m m')
    (h : m'.denial = none) : m.denial = none := by
  cases hstep with
  | refused _ _ => exact (Option.or_eq_none_iff.mp h).1
  | _ => exact h

/-- As long as there is no denial, whatever has been brought to a node has led
to something behind each of its edges. -/
theorem Runs.relays_hasPair {m : Moment g} (hoffered : offered.Specific)
    (h : Runs task (opening g source offered) m) (hdenial : m.denial = none) :
    m.Relays task ServiceSet.HasPair fun _ => True := by
  induction h with
  | refl => exact relays_opening cargo_hasPair task _ source offered
  | tail hruns hstep ih =>
    have hbefore := ih (hstep.denial_eq_none hdenial)
    apply hbefore.advance cargo_hasPair hstep
    intro e he hreach hin _
    exact hstep.hasPair_along hoffered (Runs.backed hoffered hruns) hdenial he hreach hin

end Search

namespace Graph

variable {g : Graph} {source destination : Fin g.size} {ends : Ends} {offered : ServiceSet}

/-- Where a walk leads, a search between distinct nodes finds some path. -/
theorem search_ne_noPath (hoffered : offered.Specific) (hpair : offered.HasPair)
    (hne : source ≠ destination) {es : List (Edge g.size)}
    (hwalk : g.Walk source es destination) :
    g.search source destination ends offered ≠ .noPath := by
  intro hnone
  have hreach : source ∈ g.nodesReaching destination := hwalk.mem_nodesReaching
  obtain ⟨m, hruns, hfinal⟩ := search_final ends offered hreach
  have hseen : (m.explored.seen source).HasPair := by
    apply hruns.has_seen Search.cargo_hasPair
    exact (Search.cargo_hasPair.seen_add_iff _ source source offered).mpr (Or.inr ⟨rfl, hpair⟩)
  rw [hnone] at hfinal
  cases hfinal with
  | exhausted =>
    have hrelays := Search.Runs.relays_hasPair hoffered hruns rfl
    exact hrelays.no_walk rfl rfl hwalk hne hseen fun _ _ => trivial

/-- Between distinct nodes a search for the services that a question offers
finds no path exactly when no walk connects them, whatever the rules say. When
walks do but none admits an offered pair of protocol and port on all its edges,
the search reports a denial. -/
theorem search_noPath_iff (g : Graph) (source destination : Fin g.size)
    (hne : source ≠ destination) (ends : Ends) (protocol : Protocol) (port? : Option UInt16) :
    (g.search source destination ends (.ofFlow protocol port?) = .noPath ↔
        ¬∃ es, g.Walk source es destination) ∧
      ((∃ es, g.Walk source es destination) →
        (∀ es p port, g.Walk source es destination →
          (ServiceSet.ofFlow protocol port?).contains p port = true →
            ¬∀ e ∈ es, e.kind.Admits (ends.flow p port)) →
        ∃ path reason,
          g.search source destination ends (.ofFlow protocol port?) = .denied path reason) := by
  have hspecific := ServiceSet.specific_ofFlow protocol port?
  have hpair := ServiceSet.hasPair_ofFlow protocol port?
  constructor
  · constructor
    · rintro hnone ⟨es, hwalk⟩
      exact search_ne_noPath hspecific hpair hne hwalk hnone
    · intro hnowalk
      apply search_of_not_mem
      intro hreach
      exact hnowalk (mem_nodesReaching_iff.mp hreach)
  · rintro ⟨es, hwalk⟩ hrefused
    cases houtcome : g.search source destination ends (.ofFlow protocol port?) with
    | reached path permitted =>
      obtain ⟨fs, _, hroute, _, rfl, hsome⟩ := search_reached hspecific houtcome
      obtain ⟨p, port, hcarried⟩ := (specific_carried ends hspecific fs).exists_contains hsome
      obtain ⟨hin, hadmits⟩ := (contains_carried_iff ends _ fs p port).mp hcarried
      exact absurd hadmits (hrefused fs p port hroute hin)
    | denied path reason => exact ⟨path, reason, rfl⟩
    | noPath => exact absurd houtcome (search_ne_noPath hspecific hpair hne hwalk)

/-- A rule set that permits some ports and denies everything else. -/
private def onlyPorts (fromZone toZone : String) (lo hi : Nat) : ResolvedRuleSet where
  id := ⟨"fw", fromZone, toZone, none⟩
  defaultAction := .deny
  rules := [⟨1, .permit, .any, .any, .ofProtocol .tcp (.ofBounds [(lo, hi)]), none⟩]

/-- Two rule sets in a row, each of which permits ports that the other denies,
with a loop in front of them. -/
def mismatched : Graph where
  size := 3
  nodes := #v[⟨⟨"fw", "in"⟩, .empty⟩, ⟨⟨"fw", "mid"⟩, .empty⟩, ⟨⟨"fw", "out"⟩, .empty⟩]
  edges := #v[[⟨⟨0, by decide⟩, .transit .declared⟩,
      ⟨⟨1, by decide⟩, .filtered (onlyPorts "in" "mid" 20 25)⟩],
    [⟨⟨0, by decide⟩, .transit .declared⟩,
      ⟨⟨2, by decide⟩, .filtered (onlyPorts "mid" "out" 80 443)⟩], []]

private def mismatchedNode (n : Nat) (h : n < 3) : Fin mismatched.size := ⟨n, h⟩

private def mismatchedEnds : Ends := ⟨⟨.v4, 2, by decide⟩, ⟨.v4, 3, by decide⟩⟩

private theorem admits_onlyPorts {fromZone toZone : String} {lo hi : Nat} {p : Protocol}
    {port : UInt16}
    (h : (EdgeKind.filtered (onlyPorts fromZone toZone lo hi)).Admits (mismatchedEnds.flow p port)) :
    lo ≤ port.toNat ∧ port.toNat ≤ hi := by
  have hcovered : (ServiceSet.ofProtocol .tcp (.ofBounds [(lo, hi)])).contains p port = true := by
    refine Classical.byContradiction fun hnot => ?_
    simp [EdgeKind.Admits, ResolvedRuleSet.evaluate, onlyPorts, ResolvedRule.covers, Ends.flow,
      hnot] at h
  obtain ⟨_, hmem⟩ := ServiceSet.contains_ofProtocol.mp hcovered
  obtain ⟨bounds, hbounds, hlo, hhi, _⟩ := IntervalSet.mem_ofBounds.mp hmem
  rw [List.mem_singleton] at hbounds
  subst hbounds
  exact ⟨hlo, hhi⟩

/-- A pair that a walk admits gets no further than the second zone, and only
there by the ports that the first rule set permits. -/
private theorem mismatched_refuses {i j : Fin mismatched.size} {es : List (Edge mismatched.size)}
    (p : Protocol) (port : UInt16) (hwalk : mismatched.Walk i es j)
    (hadmits : ∀ e ∈ es, e.kind.Admits (mismatchedEnds.flow p port))
    (hstart : i.val = 0 ∨ (i.val = 1 ∧ port.toNat ≤ 25)) : j.val ≠ 2 := by
  induction hwalk with
  | nil => omega
  | @cons i j e es hedge hrest ih =>
    apply ih fun f hf => hadmits f (List.mem_cons_of_mem _ hf)
    have hhead := hadmits e List.mem_cons_self
    obtain ⟨n, hn⟩ := i
    rcases hstart with rfl | ⟨rfl, hport⟩
    · rcases List.mem_cons.mp hedge with rfl | hedge
      · exact Or.inl rfl
      · rw [List.mem_singleton.mp hedge] at hhead ⊢
        exact Or.inr ⟨rfl, (admits_onlyPorts hhead).2⟩
    · rcases List.mem_cons.mp hedge with rfl | hedge
      · exact Or.inl rfl
      · rw [List.mem_singleton.mp hedge] at hhead
        have := (admits_onlyPorts hhead).1
        omega

theorem mismatched_denied :
    mismatchedNode 0 (by decide) ≠ mismatchedNode 2 (by decide) ∧
      ∃ path reason, mismatched.search (mismatchedNode 0 (by decide))
        (mismatchedNode 2 (by decide)) mismatchedEnds (.ofFlow .tcp none) = .denied path reason := by
  refine ⟨by decide, (search_noPath_iff mismatched _ _ (by decide) mismatchedEnds .tcp none).2
    ⟨[⟨mismatchedNode 1 (by decide), .filtered (onlyPorts "in" "mid" 20 25)⟩,
      ⟨mismatchedNode 2 (by decide), .filtered (onlyPorts "mid" "out" 80 443)⟩], ?_⟩ ?_⟩
  · exact .cons (.tail _ (.head _)) (.cons (.tail _ (.head _)) (.nil _))
  · intro es p port hwalk _
    exact fun hadmits => mismatched_refuses p port hwalk hadmits (Or.inl rfl) rfl

end Graph

end Perimeter
