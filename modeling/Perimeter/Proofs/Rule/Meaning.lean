import Perimeter.Proofs.Book.Work
import Perimeter.Proofs.Rule.FirstMatch

/-!
What the configured rules of a set say about a flow, before any name in them is
resolved. A rule applies when it is enabled and nothing that it states excludes
the flow; the first rule that applies decides, and the default where none does.
The evaluation of a resolved set decides the same as soon as its rules stand for
the enabled ones among those configured.
-/

namespace Perimeter

namespace Shelf

variable {Literal Set Point : Type} [BookSet Literal Set] [BookMeaning Literal Point]
variable {shelf : Shelf Literal}

/-- A name covers a point in a scope: the book that it stands for there means a
set of points with this one among them. -/
def NameCovers (shelf : Shelf Literal) (name : String) (scope : Scope) (x : Point) : Prop :=
  ∃ key P, shelf.lookup? name scope = some key ∧ shelf.Means key P ∧ P x

theorem Means.unique {key : BookKey} {P Q : Point → Prop} (hP : shelf.Means key P)
    (hQ : shelf.Means key Q) (x : Point) : P x ↔ Q x := by
  obtain ⟨M, hM⟩ := hP.1
  exact (hP.2 M hM x).trans (hQ.2 M hM x).symm

theorem StandsFor.nameCovers_iff {name : String} {scope : Scope} {set : Set}
    (h : shelf.StandsFor name scope set) (x : Point) :
    shelf.NameCovers name scope x ↔ BookMeaning.holds Literal set x := by
  obtain ⟨key, hlookup, hexpands⟩ := h
  constructor
  · rintro ⟨other, P, hother, hmeans, hx⟩
    cases Option.some.inj (hlookup.symm.trans hother)
    exact (hmeans.unique hexpands.means x).mp hx
  · intro hx
    exact ⟨key, _, hlookup, hexpands.means, hx⟩

end Shelf

/-- A flow asks for a port: the one that it names, or any where it names none. -/
def Flow.AsksFor (flow : Flow) (port : UInt16) : Prop := ∀ n ∈ flow.port, n = port

theorem Flow.exists_asksFor (flow : Flow) : ∃ port, flow.AsksFor port := by
  refine ⟨flow.port.getD 0, ?_⟩
  intro n hn
  rw [Option.mem_def.mp hn]
  rfl

/-- A configured rule applies to a flow. What the rule leaves out, it does not
restrict; a flow without a port must be covered for every one. -/
structure AclRule.Applies (rule : AclRule) (c : Catalog) (scope : Scope) (flow : Flow) : Prop where
  enabled : rule.enabled = true
  source : ∀ name ∈ rule.sourceBook, c.networks.NameCovers name scope flow.source
  destination : ∀ name ∈ rule.destinationBook, c.networks.NameCovers name scope flow.destination
  protocol : ∀ p ∈ rule.protocol, p = flow.protocol
  services : ∀ name ∈ rule.serviceBook, ∀ port, flow.AsksFor port →
    c.services.NameCovers name scope (flow.protocol, port)

theorem AclRule.not_applies_of_disabled {rule : AclRule} (h : rule.enabled = false) (c : Catalog)
    (scope : Scope) (flow : Flow) : ¬rule.Applies c scope flow := by
  intro happlies
  rw [happlies.enabled] at h
  cases h

namespace ResolvedRule

theorem covers_iff (r : ResolvedRule) (flow : Flow) :
    r.covers flow = true ↔
      (r.source.contains flow.source = true ∧ r.destination.contains flow.destination = true) ∧
        ∀ port, flow.AsksFor port → r.services.contains flow.protocol port = true := by
  unfold covers matchesAddresses
  rw [Bool.and_eq_true, Bool.and_eq_true]
  apply and_congr_right
  intro _
  unfold Flow.AsksFor
  cases flow.port with
  | some port => simp
  | none =>
    simp only [IntervalSet.isFull, beq_iff_eq, ServiceSet.portsFor_eq_full_iff]
    simp

/-- A resolved rule stands for a configured one: its sets hold what the names in
the rule cover, and everything where there is no name. -/
structure Reflects (resolved : ResolvedRule) (c : Catalog) (scope : Scope) (rule : AclRule) :
    Prop where
  index : resolved.index = rule.index
  action : resolved.action = rule.action
  source : ∀ a, resolved.source.contains a = true ↔
    ∀ name ∈ rule.sourceBook, c.networks.NameCovers name scope a
  destination : ∀ a, resolved.destination.contains a = true ↔
    ∀ name ∈ rule.destinationBook, c.networks.NameCovers name scope a
  services : ∀ p port, resolved.services.contains p port = true ↔
    (∀ q ∈ rule.protocol, q = p) ∧
      ∀ name ∈ rule.serviceBook, c.services.NameCovers name scope (p, port)

/-- It then covers exactly the flows to which that rule applies. -/
theorem Reflects.covers_iff {resolved : ResolvedRule} {c : Catalog} {scope : Scope}
    {rule : AclRule} (h : resolved.Reflects c scope rule) (henabled : rule.enabled = true)
    (flow : Flow) : resolved.covers flow = true ↔ rule.Applies c scope flow := by
  rw [ResolvedRule.covers_iff, h.source, h.destination]
  constructor
  · rintro ⟨⟨hsource, hdestination⟩, hservices⟩
    have hpairs := fun port hasked => (h.services flow.protocol port).mp (hservices port hasked)
    -- The restriction to a protocol shows in any one pair that is covered.
    obtain ⟨port, hport⟩ := flow.exists_asksFor
    refine ⟨henabled, hsource, hdestination, (hpairs port hport).1, ?_⟩
    intro name hname port hasked
    exact (hpairs port hasked).2 name hname
  · intro happlies
    refine ⟨⟨happlies.source, happlies.destination⟩, ?_⟩
    intro port hasked
    apply (h.services flow.protocol port).mpr
    exact ⟨happlies.protocol, fun name hname => happlies.services name hname port hasked⟩

end ResolvedRule

namespace Catalog

/-- What configured rules before a default answer for a flow: the first that
applies decides, and the default only where none does. -/
inductive Decides (c : Catalog) (scope : Scope) (flow : Flow) (defaultAction : Action) :
    List AclRule → Action × Option UInt32 → Prop where
  | rule {before after : List AclRule} {rule : AclRule}
      (hbefore : ∀ r ∈ before, ¬r.Applies c scope flow) (happlies : rule.Applies c scope flow) :
      Decides c scope flow defaultAction (before ++ rule :: after) (rule.action, some rule.index)
  | default {rules : List AclRule} (hnone : ∀ r ∈ rules, ¬r.Applies c scope flow) :
      Decides c scope flow defaultAction rules (defaultAction, none)

section Decides

variable {c : Catalog} {scope : Scope} {flow : Flow} {defaultAction : Action}
variable {rule : AclRule} {rest : List AclRule} {answer : Action × Option UInt32}

theorem decides_nil_iff :
    c.Decides scope flow defaultAction [] answer ↔ answer = (defaultAction, none) := by
  constructor
  · intro h
    generalize hrules : ([] : List AclRule) = rules at h
    cases h with
    | rule => cases List.append_ne_nil_of_right_ne_nil _ (List.cons_ne_nil _ _) hrules.symm
    | default => rfl
  · rintro rfl
    apply Decides.default
    intro r hr
    cases hr

theorem decides_cons_of_applies (h : rule.Applies c scope flow) :
    c.Decides scope flow defaultAction (rule :: rest) answer ↔
      answer = (rule.action, some rule.index) := by
  constructor
  · intro hdecides
    generalize hrules : rule :: rest = rules at hdecides
    cases hdecides with
    | @rule before after r hbefore happlies =>
      cases before with
      | nil =>
        cases hrules
        rfl
      | cons first others =>
        cases hrules
        exact absurd h (hbefore rule List.mem_cons_self)
    | default hnone =>
      cases hrules
      exact absurd h (hnone rule List.mem_cons_self)
  · rintro rfl
    refine @Decides.rule c scope flow defaultAction [] rest rule ?_ h
    intro r hr
    cases hr

theorem decides_cons_of_not_applies (h : ¬rule.Applies c scope flow) :
    c.Decides scope flow defaultAction (rule :: rest) answer ↔
      c.Decides scope flow defaultAction rest answer := by
  constructor
  · intro hdecides
    generalize hrules : rule :: rest = rules at hdecides
    cases hdecides with
    | @rule before after r hbefore happlies =>
      cases before with
      | nil =>
        cases hrules
        exact absurd happlies h
      | cons first others =>
        cases hrules
        exact .rule (fun r hr => hbefore r (List.mem_cons_of_mem _ hr)) happlies
    | default hnone =>
      cases hrules
      exact .default fun r hr => hnone r (List.mem_cons_of_mem _ hr)
  · intro hdecides
    cases hdecides with
    | @rule before after r hbefore happlies =>
      rw [← List.cons_append]
      exact .rule (List.forall_mem_cons.mpr ⟨h, hbefore⟩) happlies
    | default hnone => exact .default (List.forall_mem_cons.mpr ⟨h, hnone⟩)

/-- Rules that are not enabled have no part in the answer. -/
theorem decides_filter_enabled (rules : List AclRule) :
    c.Decides scope flow defaultAction (rules.filter (·.enabled)) answer ↔
      c.Decides scope flow defaultAction rules answer := by
  induction rules with
  | nil => exact Iff.rfl
  | cons rule rest ih =>
    cases henabled : rule.enabled with
    | false =>
      have hnot := AclRule.not_applies_of_disabled henabled c scope flow
      rw [List.filter_cons_of_neg (by simp [henabled]), decides_cons_of_not_applies hnot]
      exact ih
    | true =>
      rw [List.filter_cons_of_pos henabled]
      by_cases happlies : rule.Applies c scope flow
      · rw [decides_cons_of_applies happlies, decides_cons_of_applies happlies]
      · rw [decides_cons_of_not_applies happlies, decides_cons_of_not_applies happlies]
        exact ih

/-- Resolved rules that stand one by one for the enabled rules of a list answer
what the whole list decides. -/
theorem answer_eq_iff_decides {rules : List AclRule} {slots : List (Option ResolvedRule)}
    (h : List.Forall₂ (fun rule slot => ∃ resolved : ResolvedRule,
      resolved.Reflects c scope rule ∧
        slot = if rule.enabled then some resolved else none) rules slots) :
    ResolvedRuleSet.answer defaultAction (slots.filterMap id) flow = answer ↔
      c.Decides scope flow defaultAction rules answer := by
  induction h with
  | nil =>
    rw [decides_nil_iff]
    exact eq_comm
  | @cons rule slot rest slots hhead _ ih =>
    obtain ⟨resolved, hreflects, rfl⟩ := hhead
    cases henabled : rule.enabled with
    | false =>
      -- The slot is empty, and the rule is one that never applies.
      have hnot := AclRule.not_applies_of_disabled henabled c scope flow
      rw [decides_cons_of_not_applies hnot]
      exact ih
    | true =>
      have hcovers := hreflects.covers_iff henabled flow
      change ResolvedRuleSet.answer defaultAction (resolved :: slots.filterMap id) flow = answer ↔ _
      rw [ResolvedRuleSet.answer_cons]
      by_cases happlies : rule.Applies c scope flow
      · rw [if_pos (hcovers.mpr happlies), decides_cons_of_applies happlies, hreflects.index,
          hreflects.action]
        exact eq_comm
      · rw [if_neg (mt hcovers.mp happlies), decides_cons_of_not_applies happlies]
        exact ih

end Decides

end Catalog

end Perimeter
