import Perimeter.Proofs.Network.Membership
import Perimeter.Proofs.Rule.FirstMatch

/-!
The bound that a rule set puts on all flows at once. A rule that applies between all
addresses settles the pairs it covers, and every other rule may or may not meet the
flow. So a pair stays in the bound as long as some choice of addresses could still
let it pass. Where all rules apply between all addresses there is no choice, and the
bound is what evaluation permits.
-/

namespace Perimeter

namespace ResolvedRule

/-- A rule covers all sources and all destinations. -/
def CoversAllAddresses (r : ResolvedRule) : Prop :=
  (∀ a, r.source.contains a = true) ∧ ∀ a, r.destination.contains a = true

theorem isUniversal_iff {r : ResolvedRule} : r.isUniversal = true ↔ r.CoversAllAddresses := by
  rw [isUniversal, Bool.and_eq_true, NetworkSet.isAny_iff, NetworkSet.isAny_iff]
  rfl

/-- A rule that applies between all addresses covers a flow by its pair alone. -/
theorem CoversAllAddresses.covers_iff {r : ResolvedRule} (h : r.CoversAllAddresses)
    (source destination : Address) (p : Protocol) (port : UInt16) :
    r.covers ⟨source, destination, p, some port⟩ = true ↔ r.services.contains p port = true := by
  rw [covers_port_iff, matchesAddresses, h.1, h.2]
  simp

/-- What is left of a remainder of services after the rule, for flows between any
addresses. -/
def leftover (r : ResolvedRule) (remaining : ServiceSet) : ServiceSet :=
  if r.isUniversal then remaining.subtract (remaining.intersect r.services) else remaining

/-- The rule ends the presence of a pair in the remainder. -/
def Settles (r : ResolvedRule) (p : Protocol) (port : UInt16) : Prop :=
  r.isUniversal = true ∧ r.services.contains p port = true

theorem contains_leftover (r : ResolvedRule) (remaining : ServiceSet) (p : Protocol)
    (port : UInt16) :
    (r.leftover remaining).contains p port = true ↔
      remaining.contains p port = true ∧ ¬r.Settles p port := by
  unfold leftover Settles
  split
  · rename_i huniversal
    simp only [ServiceSet.contains_subtract, ServiceSet.contains_intersect, huniversal]
    tauto
  · rename_i hrestricted
    simp [hrestricted]

end ResolvedRule

namespace ResolvedRuleSet

theorem envelopeFrom_cons (defaultAction : Action) (remaining : ServiceSet) (rule : ResolvedRule)
    (rest : List ResolvedRule) :
    envelopeFrom defaultAction remaining (rule :: rest) =
      if rule.action = .permit then
        (remaining.intersect rule.services).union
          (envelopeFrom defaultAction (rule.leftover remaining) rest)
      else envelopeFrom defaultAction (rule.leftover remaining) rest := rfl

/-- Some rule permits the pair, or the default does, and no rule before settles it. -/
def MayPass (defaultAction : Action) (p : Protocol) (port : UInt16) : List ResolvedRule → Prop
  | [] => defaultAction = .permit
  | rule :: rest =>
    (rule.action = .permit ∧ rule.services.contains p port = true) ∨
      (¬rule.Settles p port ∧ MayPass defaultAction p port rest)

/-- The bound holds the pairs of the remainder that may pass. The induction is on the
rules for every remainder, since a rule passes on what it leaves over. -/
theorem contains_envelopeFrom_iff (defaultAction : Action) (rules : List ResolvedRule)
    (remaining : ServiceSet) (p : Protocol) (port : UInt16) :
    (envelopeFrom defaultAction remaining rules).contains p port = true ↔
      remaining.contains p port = true ∧ MayPass defaultAction p port rules := by
  induction rules generalizing remaining with
  | nil =>
    unfold envelopeFrom MayPass
    split
    · rename_i hpermit
      simp [hpermit]
    · rename_i hdeny
      simp [hdeny]
  | cons rule rest ih =>
    rw [envelopeFrom_cons, MayPass]
    split
    · rename_i hpermit
      rw [ServiceSet.contains_union, ServiceSet.contains_intersect, ih, rule.contains_leftover]
      simp only [hpermit, true_and]
      tauto
    · rename_i hdeny
      rw [ih, rule.contains_leftover]
      simp only [hdeny, false_and, false_or, and_assoc]

theorem contains_envelope_iff (rs : ResolvedRuleSet) (p : Protocol) (port : UInt16) :
    rs.envelope.contains p port = true ↔ MayPass rs.defaultAction p port rs.rules := by
  rw [envelope, contains_envelopeFrom_iff, ServiceSet.contains_any]
  simp

/-- What the rules let pass between two addresses may pass: a rule that does not cover
the flow does not settle its pair. -/
theorem mayPass_of_answer {defaultAction : Action} {rules : List ResolvedRule}
    {source destination : Address} {p : Protocol} {port : UInt16}
    (h : (answer defaultAction rules ⟨source, destination, p, some port⟩).1 = .permit) :
    MayPass defaultAction p port rules := by
  induction rules with
  | nil => exact h
  | cons rule rest ih =>
    rw [answer_cons] at h
    split at h
    · rename_i hcovers
      exact Or.inl ⟨h, ((rule.covers_port_iff source destination p port).mp hcovers).2⟩
    · rename_i hmisses
      refine Or.inr ⟨?_, ih h⟩
      rintro ⟨huniversal, hcontains⟩
      have hall := ResolvedRule.isUniversal_iff.mp huniversal
      exact hmisses ((hall.covers_iff source destination p port).mpr hcontains)

/-- Where all rules apply between all addresses, what may pass does. -/
theorem mayPass_iff_answer {defaultAction : Action} {rules : List ResolvedRule}
    (hall : ∀ rule ∈ rules, rule.CoversAllAddresses) (source destination : Address)
    (p : Protocol) (port : UInt16) :
    MayPass defaultAction p port rules ↔
      (answer defaultAction rules ⟨source, destination, p, some port⟩).1 = .permit := by
  refine ⟨?_, mayPass_of_answer⟩
  induction rules with
  | nil => exact fun h => h
  | cons rule rest ih =>
    obtain ⟨hrule, hrest⟩ := List.forall_mem_cons.mp hall
    have hcovers := hrule.covers_iff source destination p port
    rw [answer_cons]
    rintro (⟨hpermit, hcontains⟩ | ⟨hopen, hlater⟩)
    · rw [if_pos (hcovers.mpr hcontains)]
      exact hpermit
    · have hmisses : ¬rule.covers ⟨source, destination, p, some port⟩ = true := fun h =>
        hopen ⟨ResolvedRule.isUniversal_iff.mpr hrule, hcovers.mp h⟩
      rw [if_neg hmisses]
      exact ih hrest hlater

/-- The bound holds all that is permitted between any two addresses. -/
theorem contains_envelope_of_evaluate (rs : ResolvedRuleSet) {source destination : Address}
    {p : Protocol} {port : UInt16}
    (h : (rs.evaluate ⟨source, destination, p, some port⟩).1 = .permit) :
    rs.envelope.contains p port = true :=
  (rs.contains_envelope_iff p port).mpr (mayPass_of_answer h)

/-- The bound is exact where all rules apply between all addresses. -/
theorem contains_envelope_iff_evaluate (rs : ResolvedRuleSet)
    (hall : ∀ rule ∈ rs.rules, rule.CoversAllAddresses) (source destination : Address)
    (p : Protocol) (port : UInt16) :
    rs.envelope.contains p port = true ↔
      (rs.evaluate ⟨source, destination, p, some port⟩).1 = .permit := by
  rw [contains_envelope_iff, mayPass_iff_answer hall source destination, evaluate_eq_answer]

end ResolvedRuleSet

end Perimeter
