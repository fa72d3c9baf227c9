import Mathlib.Data.List.Shortlex
import Perimeter.Proofs.Topology.Walk

/-!
Walks by the positions of their edges. At each node an itinerary names the
position at which the next edge is listed, so it determines the walk, and
itineraries are ordered by length and then position by position. This is the
order in which a breadth-first search comes upon walks.
-/

namespace Perimeter

/-- Shorter sequences come earlier, and of those of one length the one with the
lower number at the first place where they differ. -/
abbrev Earlier : List Nat → List Nat → Prop := List.Shortlex (· < ·)

namespace Earlier

variable {us vs ws : List Nat}

theorem trans (h : Earlier us vs) (h' : Earlier vs ws) : Earlier us ws := by
  rcases List.shortlex_def.mp h with hless | ⟨hsame, hlex⟩
  · rcases List.shortlex_def.mp h' with hless' | ⟨hsame', _⟩
    · exact .of_length_lt (hless.trans hless')
    · exact .of_length_lt (hsame' ▸ hless)
  · rcases List.shortlex_def.mp h' with hless' | ⟨hsame', hlex'⟩
    · exact .of_length_lt (hsame ▸ hless')
    · have hlt : us < vs := hlex
      exact .of_lex (hsame.trans hsame') (hlt.trans hlex')

theorem asymm (h : Earlier us vs) : ¬Earlier vs us := Std.Asymm.asymm us vs h

theorem eq_of_not (h : ¬Earlier us vs) (h' : ¬Earlier vs us) : us = vs :=
  Std.Trichotomous.trichotomous us vs h h'

theorem lex_append {xs ys : List Nat} (h : List.Lex (· < ·) us vs)
    (hlength : us.length = vs.length) : List.Lex (· < ·) (us ++ xs) (vs ++ ys) := by
  induction h with
  | nil => cases hlength
  | cons _ ih => exact .cons (ih (Nat.succ.inj hlength))
  | rel hlt => exact .rel hlt

/-- Going on by equally many numbers keeps the order. -/
theorem append (h : Earlier us vs) {xs ys : List Nat} (hlength : xs.length = ys.length) :
    Earlier (us ++ xs) (vs ++ ys) := by
  rcases List.shortlex_def.mp h with hless | ⟨hsame, hlex⟩
  · apply List.Shortlex.of_length_lt
    rw [List.length_append, List.length_append, hlength]
    exact Nat.add_lt_add_right hless _
  · apply List.Shortlex.of_lex
    · rw [List.length_append, List.length_append, hlength, hsame]
    · exact lex_append hlex hsame

theorem of_snoc (us : List Nat) (k : Nat) : Earlier us (us ++ [k]) :=
  .of_length_lt (by simp)

theorem snoc_of_lt (us : List Nat) {j k : Nat} (h : j < k) : Earlier (us ++ [j]) (us ++ [k]) :=
  List.Shortlex.append_left ((List.shortlex_singleton_iff j k).mpr h) us

end Earlier

namespace Graph

/-- The positions lead from one node to another over the edges listed there. -/
inductive Itinerary (g : Graph) :
    Fin g.size → List Nat → List (Edge g.size) → Fin g.size → Prop where
  | nil (i : Fin g.size) : Itinerary g i [] [] i
  | cons {i j : Fin g.size} {p : Nat} {ps : List Nat} {e : Edge g.size}
      {es : List (Edge g.size)} (hedge : (g.leaving i)[p]? = some e)
      (hrest : Itinerary g e.target ps es j) : Itinerary g i (p :: ps) (e :: es) j

namespace Itinerary

variable {g : Graph} {i j k : Fin g.size} {ps qs : List Nat} {es fs : List (Edge g.size)}

theorem walk (h : g.Itinerary i ps es j) : g.Walk i es j := by
  induction h with
  | nil i => exact .nil i
  | cons hedge _ ih => exact .cons (List.mem_of_getElem? hedge) ih

theorem of_walk (h : g.Walk i es j) : ∃ ps, g.Itinerary i ps es j := by
  induction h with
  | nil i => exact ⟨[], .nil i⟩
  | cons hedge _ ih =>
    obtain ⟨p, hp⟩ := List.getElem?_of_mem hedge
    obtain ⟨ps, hrest⟩ := ih
    exact ⟨p :: ps, .cons hp hrest⟩

theorem length_eq (h : g.Itinerary i ps es j) : ps.length = es.length := by
  induction h with
  | nil => rfl
  | cons _ _ ih => rw [List.length_cons, List.length_cons, ih]

/-- The positions determine the edges and where they lead. -/
theorem unique (h : g.Itinerary i ps es j) (h' : g.Itinerary i ps fs k) : es = fs ∧ j = k := by
  induction h generalizing fs with
  | nil =>
    cases h'
    exact ⟨rfl, rfl⟩
  | cons hedge _ ih =>
    cases h' with
    | cons hedge' hrest' =>
      cases Option.some.inj (hedge.symm.trans hedge')
      obtain ⟨rfl, rfl⟩ := ih hrest'
      exact ⟨rfl, rfl⟩

theorem append (h : g.Itinerary i ps es j) (h' : g.Itinerary j qs fs k) :
    g.Itinerary i (ps ++ qs) (es ++ fs) k := by
  induction h with
  | nil => exact h'
  | cons hedge _ ih => exact .cons hedge (ih h')

theorem snoc (h : g.Itinerary i ps es j) {p : Nat} {e : Edge g.size}
    (hedge : (g.leaving j)[p]? = some e) : g.Itinerary i (ps ++ [p]) (es ++ [e]) e.target :=
  h.append (.cons hedge (.nil e.target))

theorem of_append (h : g.Itinerary i (ps ++ qs) fs k) :
    ∃ es es' j, fs = es ++ es' ∧ g.Itinerary i ps es j ∧ g.Itinerary j qs es' k := by
  induction ps generalizing i fs with
  | nil => exact ⟨[], fs, i, rfl, .nil i, h⟩
  | cons p rest ih =>
    cases h with
    | cons hedge hrest =>
      obtain ⟨es, es', j, rfl, hfirst, hsecond⟩ := ih hrest
      exact ⟨_, es', j, rfl, .cons hedge hfirst, hsecond⟩

/-- From where a part of an itinerary leads, the rest goes on. -/
theorem of_append_left (h : g.Itinerary i ps es j) (h' : g.Itinerary i (ps ++ qs) fs k) :
    ∃ es', fs = es ++ es' ∧ g.Itinerary j qs es' k := by
  obtain ⟨first, es', j', rfl, hfirst, hsecond⟩ := of_append h'
  obtain ⟨rfl, rfl⟩ := h.unique hfirst
  exact ⟨es', rfl, hsecond⟩

end Itinerary

end Graph

end Perimeter
