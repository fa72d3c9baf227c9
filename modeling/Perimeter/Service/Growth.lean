import Perimeter.Counting
import Perimeter.Service.Membership

/-!
What a service set leaves uncovered, as a number. A union never leaves more
uncovered, and it leaves less whenever the second set is no subset of the
first. The ports of the rest count as well, because a set that lists every
protocol can still grow there.
-/

namespace Perimeter

namespace PortSet

/-- The number of ports outside the set. -/
def uncovered (ports : PortSet) : Nat :=
  (List.range (lastPort + 1)).countP fun n => !ports.contains n

theorem uncovered_union_le (a b : PortSet) : uncovered (a.union b) ≤ uncovered a :=
  List.countP_mono_left fun n _ h => by
    simp only [Bool.not_eq_true', Bool.eq_false_iff, ne_eq, IntervalSet.contains_iff,
      IntervalSet.mem_union, not_or] at h ⊢
    exact h.1

theorem uncovered_union_lt {a b : PortSet} (h : ¬b.isSubset a) :
    uncovered (a.union b) < uncovered a := by
  rw [IntervalSet.isSubset_iff] at h
  simp only [Classical.not_forall] at h
  obtain ⟨n, hb, ha⟩ := h
  have hn := IntervalSet.le_top_of_mem hb
  refine countP_lt_countP (fun m _ hm => ?_) (List.mem_range.2 (Nat.lt_succ_of_le hn)) ?_ ?_
  · simp only [Bool.not_eq_true', Bool.eq_false_iff, ne_eq, IntervalSet.contains_iff,
      IntervalSet.mem_union, not_or] at hm ⊢
    exact hm.1
  · simp [IntervalSet.contains_iff, hb]
  · simp [Bool.eq_false_iff, IntervalSet.contains_iff, ha]

end PortSet

namespace Protocol

/-- Every protocol, in order. -/
def all : List Protocol := (List.range 256).map fun n => ⟨n.toUInt8⟩

theorem mem_all (p : Protocol) : p ∈ all :=
  List.mem_map.2 ⟨p.number.toNat, List.mem_range.2 p.number.toNat_lt, by cases p; simp⟩

end Protocol

namespace ServiceSet

/-- The number of ports that the rest and the protocols leave uncovered. -/
def uncovered (s : ServiceSet) : Nat :=
  PortSet.uncovered s.rest + sumOver (fun p => PortSet.uncovered (s.portsFor p)) Protocol.all

theorem rest_union {s t : ServiceSet} : (s.union t).rest = s.rest.union t.rest := rfl

theorem portsFor_union {s t : ServiceSet} {p : Protocol} :
    (s.union t).portsFor p = (s.portsFor p).union (t.portsFor p) := portsFor_combine

theorem uncovered_union_lt {s t : ServiceSet} (h : ¬t.isSubset s) :
    uncovered (s.union t) < uncovered s := by
  rw [isSubset_iff_forall_portsFor, Classical.not_and_iff_not_or_not] at h
  simp only [uncovered, rest_union, portsFor_union]
  have mono : ∀ p ∈ Protocol.all, PortSet.uncovered ((s.portsFor p).union (t.portsFor p)) ≤
      PortSet.uncovered (s.portsFor p) := fun p _ => PortSet.uncovered_union_le _ _
  rcases h with h | h
  · have := PortSet.uncovered_union_lt h
    have := sumOver_le_sumOver mono
    omega
  · simp only [Classical.not_forall] at h
    obtain ⟨p, hp⟩ := h
    have := PortSet.uncovered_union_le s.rest t.rest
    have := sumOver_lt_sumOver mono (Protocol.mem_all p) (PortSet.uncovered_union_lt hp)
    omega

end ServiceSet

end Perimeter
