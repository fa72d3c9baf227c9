import Perimeter.Rule.Evaluation
import Perimeter.Proofs.Service.Exactness

/-!
The evaluation of a set of services against the evaluation of single flows. A
pair of protocol and port stays in the remainder as long as no rule has covered
its flow, so exactly one hit holds it: that of the first rule that covers the
flow, or that of the default. Membership in the permitted services is then the
answer for the single flow.
-/

namespace Perimeter

namespace ResolvedRule

/-- With a port, a rule covers a flow by its addresses and by one pair. -/
theorem covers_port_iff (r : ResolvedRule) (source destination : Address) (p : Protocol)
    (port : UInt16) :
    r.covers ⟨source, destination, p, some port⟩ = true ↔
      r.matchesAddresses source destination = true ∧ r.services.contains p port = true := by
  simp [covers]

/-- What a rule takes of a remainder of services between two addresses. -/
def share (r : ResolvedRule) (source destination : Address) (remaining : ServiceSet) :
    ServiceSet :=
  if r.matchesAddresses source destination then remaining.intersect r.services else .empty

theorem contains_share (r : ResolvedRule) (source destination : Address)
    (remaining : ServiceSet) (p : Protocol) (port : UInt16) :
    (r.share source destination remaining).contains p port = true ↔
      remaining.contains p port = true ∧
        r.covers ⟨source, destination, p, some port⟩ = true := by
  rw [covers_port_iff]
  unfold share
  split
  · rename_i haddresses
    simp [haddresses]
  · rename_i haddresses
    simp [haddresses]

theorem specific_share (r : ResolvedRule) (source destination : Address) {remaining : ServiceSet}
    (h : remaining.Specific) : (r.share source destination remaining).Specific := by
  unfold share
  split
  · exact h.intersect r.services
  · exact ServiceSet.specific_empty

end ResolvedRule

/-- The answers of the hits that hold a pair. -/
def answersFor (p : Protocol) (port : UInt16) (hits : List Hit) : List (Action × Option UInt32) :=
  (hits.filter fun h => h.services.contains p port).map fun h => (h.action, h.rule)

theorem answersFor_cons (p : Protocol) (port : UInt16) (h : Hit) (hits : List Hit) :
    answersFor p port (h :: hits) =
      if h.services.contains p port then (h.action, h.rule) :: answersFor p port hits
      else answersFor p port hits := by
  unfold answersFor
  rw [List.filter_cons]
  cases h.services.contains p port <;> rfl

theorem mem_answersFor {p : Protocol} {port : UInt16} {hits : List Hit}
    {answer : Action × Option UInt32} :
    answer ∈ answersFor p port hits ↔
      ∃ h ∈ hits, h.services.contains p port = true ∧ (h.action, h.rule) = answer := by
  simp [answersFor, and_assoc]

namespace ResolvedRuleSet

/-- The answer that rules before a default give for one flow. -/
def answer (defaultAction : Action) (rules : List ResolvedRule) (flow : Flow) :
    Action × Option UInt32 :=
  match rules.find? (·.covers flow) with
  | some rule => (rule.action, some rule.index)
  | none => (defaultAction, none)

theorem evaluate_eq_answer (rs : ResolvedRuleSet) (flow : Flow) :
    rs.evaluate flow = answer rs.defaultAction rs.rules flow := rfl

theorem answer_cons (defaultAction : Action) (rule : ResolvedRule) (rest : List ResolvedRule)
    (flow : Flow) :
    answer defaultAction (rule :: rest) flow =
      if rule.covers flow then (rule.action, some rule.index)
      else answer defaultAction rest flow := by
  unfold answer
  rw [List.find?_cons]
  cases rule.covers flow <;> rfl

/-- A rule that takes nothing makes no claim; any other takes its share away. -/
theorem claims_cons (defaultAction : Action) (source destination : Address)
    (remaining : ServiceSet) (rule : ResolvedRule) (rest : List ResolvedRule) :
    claims defaultAction source destination remaining (rule :: rest) =
      if (rule.share source destination remaining).isEmpty then
        claims defaultAction source destination remaining rest
      else
        ⟨some rule.index, rule.action, rule.share source destination remaining⟩ ::
          claims defaultAction source destination
            (remaining.subtract (rule.share source destination remaining)) rest := by
  rw [claims]
  unfold ResolvedRule.share
  split <;> rfl

/-- One hit holds a pair of the remainder, and it answers as the rules ahead do
for the pair's flow; no hit holds any other pair. The induction runs over the
rules for every remainder: a rule that claims the pair ends its presence there. -/
theorem answersFor_claims (defaultAction : Action) (source destination : Address)
    (rules : List ResolvedRule) (remaining : ServiceSet) (p : Protocol) (port : UInt16) :
    answersFor p port (claims defaultAction source destination remaining rules) =
      if remaining.contains p port then
        [answer defaultAction rules ⟨source, destination, p, some port⟩]
      else [] := by
  induction rules generalizing remaining with
  | nil =>
    by_cases hempty : remaining.isEmpty = true
    · simp [claims, hempty, answersFor, ServiceSet.not_contains_of_isEmpty hempty]
    · simp only [claims, hempty, Bool.false_eq_true, if_false, answersFor_cons]
      rfl
  | cons rule rest ih =>
    have hshare := rule.contains_share source destination remaining p port
    rw [claims_cons, answer_cons]
    by_cases hempty : (rule.share source destination remaining).isEmpty = true
    · rw [if_pos hempty, ih]
      rw [ServiceSet.not_contains_of_isEmpty hempty p port] at hshare
      by_cases hremaining : remaining.contains p port = true
      · have hcovers : ¬rule.covers ⟨source, destination, p, some port⟩ = true :=
          fun h => Bool.false_ne_true (hshare.mpr ⟨hremaining, h⟩)
        rw [if_pos hremaining, if_pos hremaining, if_neg hcovers]
      · rw [if_neg hremaining, if_neg hremaining]
    · rw [if_neg hempty, answersFor_cons, ih]
      simp only [ServiceSet.contains_subtract, hshare]
      by_cases hremaining : remaining.contains p port = true
      · by_cases hcovers : rule.covers ⟨source, destination, p, some port⟩ = true
        · simp [hremaining, hcovers]
        · simp [hremaining, hcovers]
      · simp [hremaining]

/-- Hits follow the order of the rules, and that of the default comes last. -/
theorem claims_sublist (defaultAction : Action) (source destination : Address)
    (rules : List ResolvedRule) (remaining : ServiceSet) :
    ((claims defaultAction source destination remaining rules).map
      fun h => (h.rule, h.action)).Sublist
      ((rules.map fun r => (some r.index, r.action)) ++ [(none, defaultAction)]) := by
  induction rules generalizing remaining with
  | nil =>
    unfold claims
    split
    · exact List.nil_sublist _
    · exact List.Sublist.refl _
  | cons rule rest ih =>
    rw [claims_cons]
    split
    · exact (ih remaining).cons _
    · exact (ih _).cons_cons _

theorem contains_foldl_union (sets : List ServiceSet) (start : ServiceSet) (p : Protocol)
    (port : UInt16) :
    (sets.foldl .union start).contains p port = true ↔
      start.contains p port = true ∨ ∃ s ∈ sets, s.contains p port = true := by
  induction sets generalizing start with
  | nil => simp
  | cons s rest ih =>
    rw [List.foldl_cons, ih, ServiceSet.contains_union]
    simp [or_assoc]

theorem contains_permittedBy (hits : List Hit) (p : Protocol) (port : UInt16) :
    (permittedBy hits).contains p port = true ↔
      ∃ h ∈ hits, h.action = .permit ∧ h.services.contains p port = true := by
  unfold permittedBy
  rw [contains_foldl_union, ServiceSet.not_contains_empty]
  simp only [Bool.false_eq_true, false_or, List.mem_map, List.mem_filter, beq_iff_eq]
  constructor
  · rintro ⟨_, ⟨h, ⟨hmem, haction⟩, rfl⟩, hcontains⟩
    exact ⟨h, hmem, haction, hcontains⟩
  · rintro ⟨h, hmem, haction, hcontains⟩
    exact ⟨_, ⟨h, ⟨hmem, haction⟩, rfl⟩, hcontains⟩

/-- The services that pass are the offered pairs whose single flows pass. -/
theorem contains_permitted_iff (rs : ResolvedRuleSet) (source destination : Address)
    (offered : ServiceSet) (p : Protocol) (port : UInt16) :
    (rs.evaluateServices source destination offered).permitted.contains p port = true ↔
      offered.contains p port = true ∧
        (rs.evaluate ⟨source, destination, p, some port⟩).1 = .permit := by
  have hanswers := answersFor_claims rs.defaultAction source destination rs.rules offered p port
  rw [← evaluate_eq_answer] at hanswers
  change (permittedBy (claims _ _ _ _ _)).contains p port = true ↔ _
  rw [contains_permittedBy]
  constructor
  · rintro ⟨h, hmem, haction, hcontains⟩
    have hin := mem_answersFor.mpr ⟨h, hmem, hcontains, rfl⟩
    rw [hanswers] at hin
    split at hin
    · rename_i hoffered
      rw [List.mem_singleton] at hin
      exact ⟨hoffered, hin ▸ haction⟩
    · cases hin
  · rintro ⟨hoffered, hpermit⟩
    rw [if_pos hoffered] at hanswers
    obtain ⟨h, hmem, hcontains, hanswer⟩ :=
      mem_answersFor.mp (hanswers ▸ List.mem_singleton.mpr rfl)
    exact ⟨h, hmem, by rw [← hpermit, ← hanswer], hcontains⟩

theorem specific_claims (defaultAction : Action) (source destination : Address)
    (rules : List ResolvedRule) {remaining : ServiceSet} (hremaining : remaining.Specific) :
    ∀ h ∈ claims defaultAction source destination remaining rules, h.services.Specific := by
  induction rules generalizing remaining with
  | nil =>
    intro h hmem
    unfold claims at hmem
    split at hmem
    · cases hmem
    · rw [List.mem_singleton] at hmem
      exact hmem ▸ hremaining
  | cons rule rest ih =>
    have hshare := rule.specific_share source destination hremaining
    intro h hmem
    rw [claims_cons] at hmem
    split at hmem
    · exact ih hremaining h hmem
    · rcases List.mem_cons.mp hmem with rfl | hrest
      · exact hshare
      · exact ih (hremaining.subtract _) h hrest

theorem specific_foldl_union (sets : List ServiceSet) {start : ServiceSet} (hstart : start.Specific)
    (hsets : ∀ s ∈ sets, s.Specific) : (sets.foldl .union start).Specific := by
  induction sets generalizing start with
  | nil => exact hstart
  | cons s rest ih =>
    apply ih (hstart.union (hsets s (by simp)))
    intro t ht
    exact hsets t (by simp [ht])

theorem specific_permitted (rs : ResolvedRuleSet) (source destination : Address)
    {offered : ServiceSet} (h : offered.Specific) :
    (rs.evaluateServices source destination offered).permitted.Specific := by
  apply specific_foldl_union _ ServiceSet.specific_empty
  intro s hs
  obtain ⟨hit, hmem, rfl⟩ := List.mem_map.mp hs
  exact specific_claims _ _ _ _ h hit (List.mem_filter.mp hmem).1

/-- Evaluating a set of services and evaluating the flow of one pair agree: of
the hits exactly one holds an offered pair, with the action and the rule of the
single evaluation, and none holds a pair that was not offered; the pair passes
exactly when its flow does; and the hits are in the order of the rules, with
that of the default last. -/
theorem evaluateServices_agrees (rs : ResolvedRuleSet) (source destination : Address)
    (offered : ServiceSet) (p : Protocol) (port : UInt16) :
    let evaluation := rs.evaluateServices source destination offered
    let single := rs.evaluate ⟨source, destination, p, some port⟩
    ((evaluation.hits.filter fun h => h.services.contains p port).map
        fun h => (h.action, h.rule)) = (if offered.contains p port then [single] else []) ∧
      (evaluation.permitted.contains p port = true ↔
        offered.contains p port = true ∧ single.1 = .permit) ∧
      (evaluation.hits.map fun h => (h.rule, h.action)).Sublist
        ((rs.rules.map fun r => (some r.index, r.action)) ++ [(none, rs.defaultAction)]) := by
  refine ⟨?_, rs.contains_permitted_iff source destination offered p port, ?_⟩
  · exact answersFor_claims rs.defaultAction source destination rs.rules offered p port
  · exact claims_sublist rs.defaultAction source destination rs.rules offered

end ResolvedRuleSet

end Perimeter
