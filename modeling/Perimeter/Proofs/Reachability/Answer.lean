import Perimeter.Proofs.Reachability.Certificate
import Perimeter.Proofs.Reachability.Connection
import Perimeter.Proofs.Reachability.Earliest

/-!
What a question comes to once its ends are found. Whether it is allowed depends
on the walks that let an offered pair through, and whether there is no path on
whether there are walks at all.
-/

namespace Perimeter

namespace Graph

variable {g : Graph} {q : FlowQuery} {digest : String}

theorem exists_answer_iff {P : Verdict → Prop} :
    (∃ v, g.query q digest = .ok v ∧ P v) ↔ ∃ source destination,
      g.locate q.source q.sourceZone = .ok source ∧
        g.locate q.destination q.destinationZone = .ok destination ∧
        P (g.answer source destination q digest) := by
  simp only [query_eq_ok_iff]
  constructor
  · rintro ⟨_, ⟨source, destination, hsource, hdestination, rfl⟩, h⟩
    exact ⟨source, destination, hsource, hdestination, h⟩
  · rintro ⟨source, destination, hsource, hdestination, h⟩
    exact ⟨_, ⟨source, destination, hsource, hdestination, rfl⟩, h⟩

theorem query_eq_error_iff {e : QueryError} :
    g.query q digest = .error e ↔ g.locate q.source q.sourceZone = .error e ∨
      ∃ source, g.locate q.source q.sourceZone = .ok source ∧
        g.locate q.destination q.destinationZone = .error e := by
  rw [query_eq_answer, bind_eq_error]
  apply or_congr_right
  apply exists_congr
  intro source
  apply and_congr_right
  intro _
  rw [bind_eq_error]
  constructor
  · rintro (h | ⟨_, _, h⟩)
    · exact h
    · cases h
  · exact Or.inl

variable {source destination : Fin g.size}

/-- A question is allowed within one zone, and else when a walk lets one of the
offered pairs through. -/
theorem answer_allowed_iff :
    (g.answer source destination q digest).allowed = true ↔
      source = destination ∨ ∃ es, g.LetsThrough q.ends q.offered source destination es := by
  unfold answer
  by_cases hne : source = destination
  · simp [hne, verdict]
  · rw [if_neg hne, or_iff_right hne]
    split
    · rename_i hsearch
      obtain ⟨es, _, hwalk, _, rfl, hsome⟩ := search_reached q.specific_offered hsearch
      obtain ⟨p, port, hcarried⟩ :=
        (specific_carried q.ends q.specific_offered es).exists_contains hsome
      exact iff_of_true rfl ⟨es, hwalk, p, port, (contains_carried_iff _ _ es p port).mp hcarried⟩
    all_goals
      rename_i hsearch
      refine iff_of_false Bool.false_ne_true ?_
      rintro ⟨es, hthrough⟩
      obtain ⟨path, permitted, hreached⟩ := hthrough.exists_reached hne
      cases hsearch.symm.trans hreached

/-- What is allowed between two nodes comes along the earliest itinerary on which
something of the offer gets through. -/
theorem earliest_of_allowed (hne : source ≠ destination)
    (h : (g.answer source destination q digest).allowed = true) :
    ∃ ps es, g.Earliest q.ends q.offered source destination ps es ∧
      (g.answer source destination q digest).path = g.hops q.ends source q.offered es ∧
      (g.answer source destination q digest).permitted = carried q.ends q.offered es := by
  unfold answer at h ⊢
  rw [if_neg hne] at h ⊢
  split at h
  · rename_i hsearch
    obtain ⟨ps, es, hearliest, hpath, hpermitted, _⟩ :=
      search_earliest q.specific_offered hne hsearch
    exact ⟨ps, es, hearliest, hpath, hpermitted⟩
  · cases h
  · cases h

theorem answer_of_same (node : Fin g.size) (q : FlowQuery) (digest : String) :
    g.answer node node q digest = g.verdict node node q digest true .intraZone [] q.offered :=
  if_pos rfl

/-- There is no path when no walk connects the ends of a question. -/
theorem answer_noPath_iff :
    (g.answer source destination q digest).reason = .noPath ↔
      source ≠ destination ∧ ¬∃ es, g.Walk source es destination := by
  unfold answer
  by_cases hne : source = destination
  · simp [hne, verdict]
  · rw [if_neg hne, and_iff_right hne]
    split
    · rename_i hsearch
      obtain ⟨es, _, hwalk, _⟩ := search_reached q.specific_offered hsearch
      exact iff_of_false Reason.noConfusion fun hnone => hnone ⟨es, hwalk⟩
    · rename_i path reason hsearch
      obtain ⟨es, target, _, _, rest, hwalk, _, _, _, _, hdenial, _, hrest⟩ :=
        search_denied_at_last q.specific_offered hsearch
      obtain ⟨ruleSet, hdenied, _⟩ := PathHop.deniedBy_of_denial? hdenial
      refine iff_of_false ?_ fun hnone => hnone ⟨es ++ rest, hwalk.append hrest⟩
      rintro rfl
      cases hdenied
    · rename_i hsearch
      refine iff_of_true rfl ?_
      rintro ⟨es, hwalk⟩
      have hpair := ServiceSet.hasPair_ofFlow q.protocol q.port
      exact search_ne_noPath q.specific_offered hpair hne hwalk hsearch

/-- What is permitted was offered, and a walk lets it through unless the question
stays within one zone. -/
theorem walk_of_permitted {p : Protocol} {port : UInt16}
    (h : (g.answer source destination q digest).permitted.contains p port = true) :
    q.offered.contains p port = true ∧ (source = destination ∨
      ∃ es, g.Walk source es destination ∧ ∀ e ∈ es, e.kind.Admits (q.ends.flow p port)) := by
  unfold answer at h
  by_cases hne : source = destination
  · rw [if_pos hne] at h
    exact ⟨h, Or.inl hne⟩
  · rw [if_neg hne] at h
    split at h
    · rename_i hsearch
      obtain ⟨es, _, hwalk, _, rfl, _⟩ := search_reached q.specific_offered hsearch
      obtain ⟨hin, hadmits⟩ := (contains_carried_iff _ _ es p port).mp h
      exact ⟨hin, Or.inr ⟨es, hwalk, hadmits⟩⟩
    all_goals
      have hnothing : ServiceSet.empty.contains p port = true := h
      rw [ServiceSet.not_contains_of_isEmpty (by decide)] at hnothing
      cases hnothing

end Graph

end Perimeter
