import Perimeter.Service.Growth

/-!
What a search has brought to each node so far. Services that a node has not
seen leave less of it unexplored once they are added.
-/

namespace Perimeter

/-- The services that visits have brought to each of `n` nodes. -/
structure Explored (n : Nat) where
  sets : Vector ServiceSet n

namespace Explored

variable {n : Nat}

/-- Nothing has been brought to any node. -/
def nothing (n : Nat) : Explored n := ⟨Vector.replicate n .empty⟩

/-- The services brought to a node. -/
def seen (x : Explored n) (i : Fin n) : ServiceSet := x.sets.get i

/-- Brings services to a node besides those it has seen. -/
def add (x : Explored n) (i : Fin n) (s : ServiceSet) : Explored n :=
  ⟨x.sets.set i.val ((x.seen i).union s) i.isLt⟩

theorem seen_add_self {x : Explored n} {i : Fin n} {s : ServiceSet} :
    (x.add i s).seen i = (x.seen i).union s :=
  Vector.getElem_set_self i.isLt

theorem seen_add_of_ne {x : Explored n} {i j : Fin n} {s : ServiceSet} (h : i ≠ j) :
    (x.add i s).seen j = x.seen j :=
  Vector.getElem_set_ne i.isLt j.isLt fun hval => h (Fin.ext hval)

/-- What the nodes together leave uncovered. -/
def uncovered (x : Explored n) : Nat :=
  sumOver (fun i => (x.seen i).uncovered) (List.finRange n)

/-- Services that are new to a node leave less uncovered. -/
theorem uncovered_add_lt {x : Explored n} {i : Fin n} {s : ServiceSet}
    (h : ¬s.isSubset (x.seen i)) : (x.add i s).uncovered < x.uncovered := by
  have hless : ((x.add i s).seen i).uncovered < (x.seen i).uncovered := by
    rw [seen_add_self]
    exact ServiceSet.uncovered_union_lt h
  refine sumOver_lt_sumOver (fun j _ => ?_) (List.mem_finRange i) hless
  by_cases hij : i = j
  · exact hij ▸ Nat.le_of_lt hless
  · exact Nat.le_of_eq (congrArg _ (seen_add_of_ne hij))

end Explored

end Perimeter
