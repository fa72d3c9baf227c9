import Perimeter.Proofs.Rule.Meaning

/-!
Evaluation of a flow that names no port, against that of the flows which name
one. A rule covers all ports together when it covers each of them, so whatever
covers the flow without a port covers every flow with one. Evaluation with a port
can therefore only stop earlier, and only at a rule that covers some ports and
not others. A single hit on all services of the protocol shows that there is no
such rule in the way.
-/

namespace Perimeter

namespace ResolvedRule

/-- The rule covers some ports of a protocol and not others. -/
def Splits (r : ResolvedRule) (p : Protocol) : Prop :=
  (∃ port, r.services.contains p port = true) ∧ ∃ port, ¬r.services.contains p port = true

section Ports

variable {r : ResolvedRule} {source destination : Address} {p : Protocol} {port : UInt16}

theorem covers_allPorts_iff :
    r.covers ⟨source, destination, p, none⟩ = true ↔
      ∀ port, r.covers ⟨source, destination, p, some port⟩ = true := by
  have hasked : ∀ port, Flow.AsksFor ⟨source, destination, p, none⟩ port :=
    fun _ _ hn => nomatch hn
  simp only [covers_port_iff]
  rw [covers_iff, matchesAddresses, Bool.and_eq_true]
  constructor
  · rintro ⟨haddresses, hservices⟩ port
    exact ⟨haddresses, hservices port (hasked port)⟩
  · intro h
    exact ⟨(h 0).1, fun port _ => (h port).2⟩

/-- A rule that covers the flow to one port and not the flow to all of them. -/
theorem splits_of_covers (hcovers : r.covers ⟨source, destination, p, some port⟩ = true)
    (hmisses : ¬r.covers ⟨source, destination, p, none⟩ = true) :
    r.matchesAddresses source destination = true ∧ r.Splits p := by
  obtain ⟨haddresses, hport⟩ := (r.covers_port_iff source destination p port).mp hcovers
  refine ⟨haddresses, ⟨port, hport⟩, ?_⟩
  by_contra hall
  apply hmisses
  rw [covers_allPorts_iff]
  intro other
  rw [covers_port_iff]
  exact ⟨haddresses, Classical.not_not.mp fun hother => hall ⟨other, hother⟩⟩

end Ports

end ResolvedRule

namespace ResolvedRuleSet

/-- Evaluation stops at a rule: it covers the flow, those before it do not, and
it is what the answer names. -/
structure Picks (rs : ResolvedRuleSet) (flow : Flow) (before : List ResolvedRule)
    (rule : ResolvedRule) (after : List ResolvedRule) : Prop where
  rules : rs.rules = before ++ rule :: after
  misses : ∀ other ∈ before, ¬other.covers flow = true
  covers : rule.covers flow = true
  answer : rs.evaluate flow = (rule.action, some rule.index)

/-- Evaluation stops at no rule, and the default is the answer. -/
structure FallsThrough (rs : ResolvedRuleSet) (flow : Flow) : Prop where
  misses : ∀ rule ∈ rs.rules, ¬rule.covers flow = true
  answer : rs.evaluate flow = (rs.defaultAction, none)

section Picks

variable {rs : ResolvedRuleSet} {flow : Flow} {before after : List ResolvedRule}

theorem picks_of_first {rule : ResolvedRule} (hrules : rs.rules = before ++ rule :: after)
    (hmisses : ∀ other ∈ before, ¬other.covers flow = true) (hcovers : rule.covers flow = true) :
    rs.Picks flow before rule after := by
  have hfind : rs.rules.find? (·.covers flow) = some rule := by
    rw [List.find?_eq_some_iff_append]
    exact ⟨hcovers, before, after, hrules, by simpa using hmisses⟩
  refine ⟨hrules, hmisses, hcovers, ?_⟩
  rw [evaluate, hfind]

theorem fallsThrough_of_misses (hmisses : ∀ rule ∈ rs.rules, ¬rule.covers flow = true) :
    rs.FallsThrough flow := by
  have hfind : rs.rules.find? (·.covers flow) = none := List.find?_eq_none.mpr hmisses
  refine ⟨hmisses, ?_⟩
  rw [evaluate, hfind]

/-- When the first rules miss the flow, evaluation stops at a later one or at none. -/
theorem picks_or_fallsThrough (hrules : rs.rules = before ++ after)
    (hmisses : ∀ other ∈ before, ¬other.covers flow = true) :
    (∃ between rule later, after = between ++ rule :: later ∧
      rs.Picks flow (before ++ between) rule later) ∨ rs.FallsThrough flow := by
  cases hfind : after.find? (·.covers flow) with
  | none =>
    refine Or.inr (fallsThrough_of_misses ?_)
    rw [hrules, List.forall_mem_append]
    exact ⟨hmisses, List.find?_eq_none.mp hfind⟩
  | some rule =>
    obtain ⟨hcovers, between, later, rfl, hbetween⟩ := List.find?_eq_some_iff_append.mp hfind
    refine Or.inl ⟨between, rule, later, rfl, picks_of_first ?_ ?_ hcovers⟩
    · rw [hrules, List.append_assoc]
    · rw [List.forall_mem_append]
      exact ⟨hmisses, by simpa using hbetween⟩

end Picks

section Ports

variable {rs : ResolvedRuleSet} {source destination : Address} {p : Protocol} {port : UInt16}

/-- Rules that miss the flow to one port miss the flow to all of them. -/
theorem misses_allPorts {rules : List ResolvedRule}
    (h : ∀ rule ∈ rules, ¬rule.covers ⟨source, destination, p, some port⟩ = true) :
    ∀ rule ∈ rules, ¬rule.covers ⟨source, destination, p, none⟩ = true :=
  fun rule hrule hall => h rule hrule (ResolvedRule.covers_allPorts_iff.mp hall port)

/-- Where the answers differ, a rule is picked with the port, and it does not cover all
ports. Otherwise it would be picked without one too, since no rule before it covers as
much as the port. -/
theorem exists_picks_of_ne (hne : rs.evaluate ⟨source, destination, p, none⟩ ≠
      rs.evaluate ⟨source, destination, p, some port⟩) :
    ∃ before rule after, rs.Picks ⟨source, destination, p, some port⟩ before rule after ∧
      ¬rule.covers ⟨source, destination, p, none⟩ = true := by
  have hrules : rs.rules = [] ++ rs.rules := rfl
  have hport := @picks_or_fallsThrough rs ⟨source, destination, p, some port⟩ [] rs.rules hrules
    (List.forall_mem_nil _)
  rcases hport with ⟨before, rule, after, _, hpicks⟩ | hfalls
  · refine ⟨_, rule, after, hpicks, fun hcovers => hne ?_⟩
    have hall := picks_of_first hpicks.rules (misses_allPorts hpicks.misses) hcovers
    exact hall.answer.trans hpicks.answer.symm
  · have hall := fallsThrough_of_misses (misses_allPorts hfalls.misses)
    exact absurd (hall.answer.trans hfalls.answer.symm) hne

/-- Evaluation without a port goes on behind a rule that is picked with one and does
not cover all ports. -/
theorem Picks.goes_on {before after : List ResolvedRule} {rule : ResolvedRule}
    (h : rs.Picks ⟨source, destination, p, some port⟩ before rule after)
    (hmisses : ¬rule.covers ⟨source, destination, p, none⟩ = true) :
    (∃ between other later, after = between ++ other :: later ∧
        rs.Picks ⟨source, destination, p, none⟩ (before ++ rule :: between) other later) ∨
      rs.FallsThrough ⟨source, destination, p, none⟩ := by
  have hrules : rs.rules = before ++ [rule] ++ after := by simp [h.rules]
  have hfirst : ∀ other ∈ before ++ [rule],
      ¬other.covers ⟨source, destination, p, none⟩ = true := by
    rw [List.forall_mem_append, List.forall_mem_singleton]
    exact ⟨misses_allPorts h.misses, hmisses⟩
  simpa only [List.append_assoc, List.singleton_append] using picks_or_fallsThrough hrules hfirst

end Ports

/-- A single claim on services with all ports of a protocol is what the rules answer
for the flow to all ports. In the induction, a rule that takes nothing covers no
port, and one that takes everything covers them all. -/
theorem answer_eq_of_claims_singleton {defaultAction : Action} {source destination : Address}
    {rules : List ResolvedRule} {remaining : ServiceSet} {p : Protocol} {hit : Hit}
    (hall : ∀ port, remaining.contains p port = true)
    (h : claims defaultAction source destination remaining rules = [hit]) :
    answer defaultAction rules ⟨source, destination, p, none⟩ = (hit.action, hit.rule) := by
  induction rules with
  | nil =>
    rw [claims] at h
    split at h
    · cases h
    · cases h
      rfl
  | cons rule rest ih =>
    have hshare := fun port => rule.contains_share source destination remaining p port
    rw [claims_cons] at h
    rw [answer_cons]
    by_cases hempty : (rule.share source destination remaining).isEmpty = true
    · have hmisses : ¬rule.covers ⟨source, destination, p, none⟩ = true := by
        intro hcovers
        have hport := ResolvedRule.covers_allPorts_iff.mp hcovers 0
        have htaken := (hshare 0).mpr ⟨hall 0, hport⟩
        rw [ServiceSet.not_contains_of_isEmpty hempty] at htaken
        cases htaken
      rw [if_pos hempty] at h
      rw [if_neg hmisses]
      exact ih h
    · rw [if_neg hempty] at h
      obtain ⟨rfl, hrest⟩ := List.cons.inj h
      have hcovers : rule.covers ⟨source, destination, p, none⟩ = true := by
        rw [ResolvedRule.covers_allPorts_iff]
        intro port
        -- What the rule left of the port would be claimed after it, and nothing is.
        have hleft := answersFor_claims defaultAction source destination rest
          (remaining.subtract (rule.share source destination remaining)) p port
        rw [hrest] at hleft
        by_contra hport
        rw [if_pos] at hleft
        · cases hleft
        · rw [ServiceSet.contains_subtract, hshare]
          exact ⟨hall port, fun htaken => hport htaken.2⟩
      rw [if_pos hcovers]

theorem evaluate_eq_of_hits_singleton {rs : ResolvedRuleSet} {source destination : Address}
    {offered : ServiceSet} {p : Protocol} {hit : Hit}
    (hall : ∀ port, offered.contains p port = true)
    (h : (rs.evaluateServices source destination offered).hits = [hit]) (port : Option UInt16) :
    rs.evaluate ⟨source, destination, p, port⟩ = (hit.action, hit.rule) := by
  have hclaims : claims rs.defaultAction source destination offered rs.rules = [hit] := h
  rw [evaluate_eq_answer]
  cases port with
  | none => exact answer_eq_of_claims_singleton hall hclaims
  | some port =>
    have hanswers := answersFor_claims rs.defaultAction source destination rs.rules offered p port
    rw [hclaims, if_pos (hall port), answersFor_cons] at hanswers
    split at hanswers
    · exact (List.cons.inj hanswers).1.symm
    · cases hanswers

/-- Where evaluation without a port can mislead. When the flow to some port gets
another answer than the flow to all of them, the rule picked for it matches the
addresses, covers some ports of the protocol and not others, and stands before the
rule picked for all ports, if any is. And when all services of the protocol make
one hit, that is the answer for all ports and for each. -/
theorem allPorts_misleads_by_splitting_rule (rs : ResolvedRuleSet) (source destination : Address)
    (p : Protocol) :
    (∀ port, rs.evaluate ⟨source, destination, p, none⟩ ≠
        rs.evaluate ⟨source, destination, p, some port⟩ →
      ∃ before rule after, rs.Picks ⟨source, destination, p, some port⟩ before rule after ∧
        rule.matchesAddresses source destination = true ∧ rule.Splits p ∧
        ((∃ between other later, after = between ++ other :: later ∧
            rs.Picks ⟨source, destination, p, none⟩ (before ++ rule :: between) other later) ∨
          rs.FallsThrough ⟨source, destination, p, none⟩)) ∧
    ∀ hit, (rs.evaluateServices source destination (.ofFlow p none)).hits = [hit] →
      ∀ port, rs.evaluate ⟨source, destination, p, port⟩ = (hit.action, hit.rule) := by
  constructor
  · intro port hne
    obtain ⟨before, rule, after, hpicks, hmisses⟩ := exists_picks_of_ne hne
    obtain ⟨haddresses, hsplits⟩ := ResolvedRule.splits_of_covers hpicks.covers hmisses
    exact ⟨before, rule, after, hpicks, haddresses, hsplits, hpicks.goes_on hmisses⟩
  · intro hit hhits
    exact evaluate_eq_of_hits_singleton (fun _ => ServiceSet.contains_ofFlow_allPorts) hhits

/-- A denial of one port, then a permit for all ports of the protocol. -/
example :
    let flow : Option UInt16 → Flow := fun port =>
      ⟨⟨.v4, 167772161, by decide⟩, ⟨.v4, 167772162, by decide⟩, .tcp, port⟩
    let rs : ResolvedRuleSet := ⟨⟨"fw", "lan", "wan", none⟩, .deny,
      [⟨1, .deny, .any, .any, .ofFlow .tcp (some 22), none⟩,
        ⟨2, .permit, .any, .any, .ofFlow .tcp none, none⟩]⟩
    rs.evaluate (flow none) = (.permit, some 2) ∧
      rs.evaluate (flow (some 22)) = (.deny, some 1) ∧
      rs.evaluate (flow (some 23)) = (.permit, some 2) := by
  decide

end ResolvedRuleSet

end Perimeter
