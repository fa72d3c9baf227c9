import Perimeter.Proofs.Reachability.Relay

/-!
What the decision of a rule set stands for. Every hit holds some of the services
that were offered, and for these the rule set answers as the hit says. So the
decision that explains an evaluation is the answer for one of the offered flows;
and where nothing passes it is that of the first rule that covers any of them.
-/

namespace Perimeter

namespace HopDecision

/-- The decision that states the answer for a single flow. -/
def ofAnswer : Action × Option UInt32 → HopDecision
  | (action, some index) => .rule index action
  | (action, none) => .default action

/-- What a decision of a rule set does. -/
def action? : HopDecision → Option Action
  | rule _ action => some action
  | default action => some action
  | transit _ => none

theorem action?_ofAnswer (answer : Action × Option UInt32) :
    (ofAnswer answer).action? = some answer.1 := by
  obtain ⟨action, _ | index⟩ := answer
  · rfl
  · rfl

theorem ofAnswer_eq_rule {answer : Action × Option UInt32} {index : UInt32} {action : Action} :
    ofAnswer answer = .rule index action ↔ answer = (action, some index) := by
  obtain ⟨action', _ | index'⟩ := answer
  · simp [ofAnswer]
  · simp [ofAnswer, and_comm]

theorem ofAnswer_eq_default {answer : Action × Option UInt32} {action : Action} :
    ofAnswer answer = .default action ↔ answer = (action, none) := by
  obtain ⟨action', _ | index'⟩ := answer
  · simp [ofAnswer]
  · simp [ofAnswer]

end HopDecision

/-- Some flow of the services between the ends is covered by the rule. -/
def ResolvedRule.Touches (r : ResolvedRule) (ends : Ends) (services : ServiceSet) : Prop :=
  ∃ p port, services.contains p port = true ∧ r.covers (ends.flow p port) = true

namespace ResolvedRuleSet

variable {ends : Ends} {offered : ServiceSet} {defaultAction : Action} {rules : List ResolvedRule}

/-- A rule that takes nothing of an offer covers no flow of it. -/
theorem touches_iff (r : ResolvedRule) (hspecific : offered.Specific) :
    r.Touches ends offered ↔ (r.share ends.source ends.destination offered).isEmpty = false := by
  constructor
  · rintro ⟨p, port, hin, hcovers⟩
    have hshare := (r.contains_share ends.source ends.destination offered p port).mpr ⟨hin, hcovers⟩
    rw [Bool.eq_false_iff]
    intro hempty
    rw [ServiceSet.not_contains_of_isEmpty hempty] at hshare
    cases hshare
  · intro hsome
    have hshare := r.specific_share ends.source ends.destination hspecific
    obtain ⟨p, port, hin⟩ := hshare.exists_contains hsome
    exact ⟨p, port, (r.contains_share ends.source ends.destination offered p port).mp hin⟩

theorem not_isEmpty_of_mem_claims {source destination : Address} {hit : Hit}
    (h : hit ∈ claims defaultAction source destination offered rules) :
    hit.services.isEmpty = false := by
  induction rules generalizing offered with
  | nil =>
    unfold claims at h
    split at h
    · cases h
    · rename_i hsome
      rw [List.mem_singleton.mp h]
      exact Bool.eq_false_iff.mpr hsome
  | cons rule rest ih =>
    rw [claims_cons] at h
    split at h
    · exact ih h
    · rename_i hsome
      rcases List.mem_cons.mp h with rfl | hlater
      · exact Bool.eq_false_iff.mpr hsome
      · exact ih hlater

/-- Each hit is the answer for some flow that was offered. -/
theorem exists_flow_of_hit (rs : ResolvedRuleSet) (hspecific : offered.Specific) {hit : Hit}
    (h : hit ∈ (rs.evaluateServices ends.source ends.destination offered).hits) :
    ∃ p port, offered.contains p port = true ∧
      rs.evaluate (ends.flow p port) = (hit.action, hit.rule) := by
  have hservices := specific_claims _ _ _ _ hspecific hit h
  obtain ⟨p, port, hin⟩ := hservices.exists_contains (not_isEmpty_of_mem_claims h)
  have hanswer := mem_answersFor.mpr ⟨hit, h, hin, rfl⟩
  change _ ∈ answersFor p port (claims _ _ _ _ _) at hanswer
  rw [answersFor_claims] at hanswer
  split at hanswer
  · rename_i hoffered
    exact ⟨p, port, hoffered, (List.mem_singleton.mp hanswer).symm⟩
  · cases hanswer

/-- Where something is offered, some hit claims it. -/
theorem hits_ne_nil (rs : ResolvedRuleSet) (ends : Ends) (hsome : offered.HasPair) :
    (rs.evaluateServices ends.source ends.destination offered).hits ≠ [] := by
  obtain ⟨p, port, hin⟩ := hsome
  have hanswers := answersFor_claims rs.defaultAction ends.source ends.destination rs.rules offered
    p port
  rw [if_pos hin] at hanswers
  intro hnone
  change claims _ _ _ _ _ = [] at hnone
  rw [hnone] at hanswers
  cases hanswers

/-- The hit that explains an evaluation permits if anything passes and denies
otherwise. -/
theorem exists_decidingHit (rs : ResolvedRuleSet) (ends : Ends)
    (hspecific : offered.Specific) (hsome : offered.HasPair) :
    let evaluation := rs.evaluateServices ends.source ends.destination offered
    ∃ hit ∈ evaluation.hits, evaluation.decidingHit? = some hit ∧
      hit.action = if evaluation.permitted.isEmpty then .deny else .permit := by
  intro evaluation
  unfold Evaluation.decidingHit?
  by_cases hempty : evaluation.permitted.isEmpty = true
  · obtain ⟨first, rest, hhits⟩ := List.exists_cons_of_ne_nil (rs.hits_ne_nil ends hsome)
    have hmem : first ∈ evaluation.hits := hhits ▸ List.mem_cons_self
    obtain ⟨p, port, hin, hanswer⟩ := rs.exists_flow_of_hit hspecific hmem
    refine ⟨first, hmem, ?_, ?_⟩
    · rw [if_pos hempty]
      exact congrArg List.head? hhits
    · rw [if_pos hempty]
      cases haction : first.action with
      | deny => rfl
      | permit =>
        have hpasses := (rs.contains_permitted_iff ends.source ends.destination offered p port).mpr
          ⟨hin, (congrArg Prod.fst hanswer).trans haction⟩
        rw [ServiceSet.not_contains_of_isEmpty hempty] at hpasses
        cases hpasses
  · have hspecific' := rs.specific_permitted ends.source ends.destination hspecific
    obtain ⟨p, port, hin⟩ := hspecific'.exists_contains (Bool.eq_false_iff.mpr hempty)
    obtain ⟨hit, hmem, haction, _⟩ := (contains_permittedBy _ p port).mp hin
    have hfound : (evaluation.hits.find? (·.action == .permit)).isSome = true :=
      List.find?_isSome.mpr ⟨hit, hmem, by simp [haction]⟩
    obtain ⟨found, hfind⟩ := Option.isSome_iff_exists.mp hfound
    refine ⟨found, List.mem_of_find?_eq_some hfind, ?_, ?_⟩
    · rw [if_neg hempty]
      exact hfind
    · rw [if_neg hempty]
      simpa using List.find?_some hfind

theorem decision_of_decidingHit {evaluation : Evaluation} {hit : Hit} (defaultAction : Action)
    (h : evaluation.decidingHit? = some hit) :
    evaluation.decision defaultAction = .ofAnswer (hit.action, hit.rule) := by
  obtain ⟨rule, action, services⟩ := hit
  unfold Evaluation.decision
  rw [h]
  cases rule with
  | none => rfl
  | some index => rfl

/-- The decision on an offer is the answer for one of the flows in it, and it
permits exactly if something passes. -/
theorem decision_answers (rs : ResolvedRuleSet) (ends : Ends) (hspecific : offered.Specific)
    (hsome : offered.HasPair) :
    let evaluation := rs.evaluateServices ends.source ends.destination offered
    ∃ p port, offered.contains p port = true ∧
      evaluation.decision rs.defaultAction = .ofAnswer (rs.evaluate (ends.flow p port)) ∧
      (evaluation.decision rs.defaultAction).action? =
        some (if evaluation.permitted.isEmpty then .deny else .permit) := by
  intro evaluation
  obtain ⟨hit, hmem, hdeciding, haction⟩ := rs.exists_decidingHit ends hspecific hsome
  obtain ⟨p, port, hin, hanswer⟩ := rs.exists_flow_of_hit hspecific hmem
  have hdecision := decision_of_decidingHit rs.defaultAction hdeciding
  refine ⟨p, port, hin, ?_, ?_⟩
  · rw [hanswer]
    exact hdecision
  · rw [hdecision, HopDecision.action?_ofAnswer, haction]

/-- The first hit is that of the first rule that covers any flow of the offer,
and that of the default where there is no such rule. -/
theorem head_claims (hspecific : offered.Specific) {hit : Hit} {later : List Hit}
    (h : claims defaultAction ends.source ends.destination offered rules = hit :: later) :
    (∃ before rule after, rules = before ++ rule :: after ∧ hit.rule = some rule.index ∧
        rule.Touches ends offered ∧ ∀ r ∈ before, ¬r.Touches ends offered) ∨
      (hit.rule = none ∧ ∀ r ∈ rules, ¬r.Touches ends offered) := by
  induction rules with
  | nil =>
    unfold claims at h
    split at h
    · cases h
    · cases h
      exact Or.inr ⟨rfl, fun r hr => absurd hr List.not_mem_nil⟩
  | cons rule rest ih =>
    rw [claims_cons] at h
    split at h
    · rename_i hempty
      have huntouched : ¬rule.Touches ends offered := by
        rw [touches_iff rule hspecific, hempty]
        exact Bool.noConfusion
      rcases ih h with ⟨before, first, after, rfl, hrule, htouches, hbefore⟩ | ⟨hrule, hnone⟩
      · refine Or.inl ⟨rule :: before, first, after, rfl, hrule, htouches, ?_⟩
        exact List.forall_mem_cons.mpr ⟨huntouched, hbefore⟩
      · exact Or.inr ⟨hrule, List.forall_mem_cons.mpr ⟨huntouched, hnone⟩⟩
    · rename_i hsome
      cases h
      refine Or.inl ⟨[], rule, rest, rfl, rfl, ?_, fun r hr => absurd hr List.not_mem_nil⟩
      exact (touches_iff rule hspecific).mpr (Bool.eq_false_iff.mpr hsome)

variable {rs : ResolvedRuleSet}

/-- A decision that lets nothing through comes from the first hit. -/
theorem exists_first_hit (ends : Ends) (hsome : offered.HasPair)
    (hempty : (rs.evaluateServices ends.source ends.destination offered).permitted.isEmpty = true) :
    ∃ hit later,
      claims rs.defaultAction ends.source ends.destination offered rs.rules = hit :: later ∧
      (rs.evaluateServices ends.source ends.destination offered).decision rs.defaultAction =
        .ofAnswer (hit.action, hit.rule) := by
  obtain ⟨hit, later, hhits⟩ := List.exists_cons_of_ne_nil (rs.hits_ne_nil ends hsome)
  refine ⟨hit, later, hhits, decision_of_decidingHit _ ?_⟩
  unfold Evaluation.decidingHit?
  rw [if_pos hempty]
  exact congrArg List.head? hhits

/-- The rule that denies an offer as a whole covers some flow of it, and no rule
of a lower index does. -/
theorem lowest_of_denying_rule (ends : Ends)
    (hascending : (rs.rules.map (·.index)).Pairwise (· < ·))
    (hspecific : offered.Specific) (hsome : offered.HasPair)
    (hempty : (rs.evaluateServices ends.source ends.destination offered).permitted.isEmpty = true)
    {index : UInt32} {action : Action}
    (h : (rs.evaluateServices ends.source ends.destination offered).decision rs.defaultAction =
      .rule index action) :
    (∃ r ∈ rs.rules, r.index = index ∧ r.Touches ends offered) ∧
      ∀ r ∈ rs.rules, r.Touches ends offered → index ≤ r.index := by
  obtain ⟨hit, later, hhits, hdecision⟩ := exists_first_hit ends hsome hempty
  rw [hdecision, HopDecision.ofAnswer_eq_rule] at h
  rcases head_claims hspecific hhits with ⟨before, rule, after, hrules, hrule, htouches, hbefore⟩ |
    ⟨hrule, _⟩
  · obtain rfl : rule.index = index := Option.some.inj (hrule.symm.trans (Prod.mk.inj h).2)
    rw [hrules] at hascending ⊢
    refine ⟨⟨rule, by simp, rfl, htouches⟩, ?_⟩
    intro r hr hother
    rw [List.map_append, List.map_cons, List.pairwise_append, List.pairwise_cons] at hascending
    rcases List.mem_append.mp hr with hearlier | hlater
    · exact absurd hother (hbefore r hearlier)
    · rcases List.mem_cons.mp hlater with rfl | hlater
      · exact UInt32.le_refl _
      · exact UInt32.le_of_lt (hascending.2.1.1 r.index (List.mem_map_of_mem hlater))
  · cases hrule.symm.trans (Prod.mk.inj h).2

/-- Where the default denies an offer as a whole, no rule covers any flow of it. -/
theorem untouched_of_denying_default (ends : Ends) (hspecific : offered.Specific)
    (hsome : offered.HasPair)
    (hempty : (rs.evaluateServices ends.source ends.destination offered).permitted.isEmpty = true)
    {action : Action}
    (h : (rs.evaluateServices ends.source ends.destination offered).decision rs.defaultAction =
      .default action) : ∀ r ∈ rs.rules, ¬r.Touches ends offered := by
  obtain ⟨hit, later, hhits, hdecision⟩ := exists_first_hit ends hsome hempty
  rw [hdecision, HopDecision.ofAnswer_eq_default] at h
  rcases head_claims hspecific hhits with ⟨_, rule, _, _, hrule, _, _⟩ | ⟨_, hnone⟩
  · cases hrule.symm.trans (Prod.mk.inj h).2
  · exact hnone

end ResolvedRuleSet

end Perimeter
