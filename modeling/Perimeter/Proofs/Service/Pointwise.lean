import Perimeter.Proofs.Interval.NormalForm
import Perimeter.Proofs.Service.Exactness

/-!
Operations on service sets, pair by pair. A protocol may be listed by both sets, by
one of them or by neither, and an operation changes the ports of the rest together
with those of the protocols. Nothing of this shows in the pairs. What is listed
afterwards is found anew: a protocol whose ports have become those of the rest is
dropped, and all others are kept.
-/

namespace Perimeter

namespace ServiceSet

variable {s t : ServiceSet} {p : Protocol} {ports : PortSet}

/-- The shape of a set: every set of ports is in normal form, and the protocols that
are listed, each with its ports, are those whose ports differ from the rest. -/
structure NormalForm (s : ServiceSet) : Prop where
  rest : IntervalSet.Canonical lastPort s.rest.bounds
  ports : ∀ entry ∈ s.listed, IntervalSet.Canonical lastPort entry.2.bounds
  listed : ∀ p ports, (p, ports) ∈ s.listed ↔ s.portsFor p = ports ∧ ports ≠ s.rest

theorem normalForm (s : ServiceSet) : s.NormalForm where
  rest := IntervalSet.canonical_map_bounds s.rest.separated
  ports entry _ := IntervalSet.canonical_map_bounds entry.2.separated
  listed _ _ := mem_listed

/-- An operation on ports lists the protocols for which its outcome differs from its
outcome on the rest, whichever of the two sets lists them. -/
theorem mem_listed_combine {op : PortSet → PortSet → PortSet} :
    (p, ports) ∈ (combine op s t).listed ↔
      op (s.portsFor p) (t.portsFor p) = ports ∧ ports ≠ op s.rest t.rest := by
  rw [mem_listed, portsFor_combine]
  rfl

/-- Every operation acts on each pair of protocol and port by itself, a list of port
ranges stands for the pairs that some range of it allows, and every set that comes
out is in normal form. -/
theorem operations_pointwise (s t : ServiceSet) :
    (∀ p port,
      (s.union t).contains p port = (s.contains p port || t.contains p port) ∧
      (s.intersect t).contains p port = (s.contains p port && t.contains p port) ∧
      (s.subtract t).contains p port = (s.contains p port && !t.contains p port) ∧
      ∀ q, (s.restrictTo q).contains p port = (decide (p = q) && s.contains p port)) ∧
    (∀ entries p port, (ofEntries entries).contains p port = true ↔
      ∃ e ∈ entries, (e.1 = some p ∨ e.1 = none) ∧ e.2.lo ≤ port ∧ port ≤ e.2.hi) ∧
    (∀ op p ports, (p, ports) ∈ (combine op s t).listed ↔
      op (s.portsFor p) (t.portsFor p) = ports ∧ ports ≠ op s.rest t.rest) ∧
    s.NormalForm := by
  refine ⟨fun p port => ⟨?_, ?_, ?_, fun q => ?_⟩, fun entries p port => ?_,
    fun op p ports => mem_listed_combine, s.normalForm⟩
  · rw [Bool.eq_iff_iff, contains_union, Bool.or_eq_true]
  · rw [Bool.eq_iff_iff, contains_intersect, Bool.and_eq_true]
  · rw [Bool.eq_iff_iff, contains_subtract, Bool.and_eq_true, Bool.not_eq_true',
      Bool.not_eq_true]
  · rw [Bool.eq_iff_iff, contains_restrictTo, Bool.and_eq_true, decide_eq_true_eq,
      eq_comm (a := p)]
  · rw [contains_ofEntries]
    simp only [or_comm]

/-- A protocol is no longer listed once its ports and those of the rest are the same. -/
example : (ServiceSet.any.subtract (.ofProtocol .tcp (.single 22))).listed.map (·.1) = [.tcp] ∧
    ((ServiceSet.any.subtract (.ofProtocol .tcp (.single 22))).union
      (.ofProtocol .tcp (.single 22))).listed.map (·.1) = [] := by decide

end ServiceSet

end Perimeter
