import Mathlib.Logic.Relation
import Perimeter.Reachability.Search

/-!
The course of a search, edge by edge. A moment holds the visit being followed
with the edges it has left, the visits queued after it, what the nodes have
seen and the first denial. An advance deals with one edge, or turns to the next
visit when no edge is left. Every search runs from its start through advances
to a final moment, and its outcome is read off there. An invariant of searches
is therefore a property of moments that every advance keeps. There is only one
way to advance, so the loop of a search and any course that is written out for
it come to the same outcome.
-/

namespace Perimeter

namespace Search

variable {g : Graph}

/-- The visit that an edge makes of the one it is followed from. -/
def Visit.along (v : Visit g) (task : Task g) (e : Edge g.size) : Visit g :=
  let hop := g.cross v.node e task.ends v.services
  ⟨e.target, hop.services, hop :: v.trail⟩

/-- The denial at an edge that lets nothing through, if a rule set filters it. -/
def Visit.refusal? (v : Visit g) (task : Task g) (e : Edge g.size) : Option Denial :=
  (g.cross v.node e task.ends v.services).denial?.map fun reason =>
    ⟨(v.along task e).trail.reverse, reason⟩

/-- Where a search stands. -/
structure Moment (g : Graph) where
  visit : Visit g
  /-- The edges of the visit that are still to be followed. -/
  edges : List (Edge g.size)
  queue : List (Visit g)
  explored : Explored g.size
  denial : Option Denial

variable (task : Task g)

/-- What a search does next, as long as it does not end. -/
inductive Advance : Moment g → Moment g → Prop where
  | cutOff {v : Visit g} {e : Edge g.size} {es : List (Edge g.size)} {queue : List (Visit g)}
      {explored : Explored g.size} {denial : Option Denial}
      (hreach : e.target ∉ task.reaching) :
      Advance ⟨v, e :: es, queue, explored, denial⟩ ⟨v, es, queue, explored, denial⟩
  | refused {v : Visit g} {e : Edge g.size} {es : List (Edge g.size)} {queue : List (Visit g)}
      {explored : Explored g.size} {denial : Option Denial}
      (hreach : e.target ∈ task.reaching)
      (hempty : (v.along task e).services.isEmpty = true) :
      Advance ⟨v, e :: es, queue, explored, denial⟩
        ⟨v, es, queue, explored, denial.or (v.refusal? task e)⟩
  | repeated {v : Visit g} {e : Edge g.size} {es : List (Edge g.size)} {queue : List (Visit g)}
      {explored : Explored g.size} {denial : Option Denial}
      (hreach : e.target ∈ task.reaching)
      (hsome : ¬(v.along task e).services.isEmpty = true)
      (hother : e.target ≠ task.destination)
      (hseen : (v.along task e).services.isSubset (explored.seen e.target) = true) :
      Advance ⟨v, e :: es, queue, explored, denial⟩ ⟨v, es, queue, explored, denial⟩
  | fresh {v : Visit g} {e : Edge g.size} {es : List (Edge g.size)} {queue : List (Visit g)}
      {explored : Explored g.size} {denial : Option Denial}
      (hreach : e.target ∈ task.reaching)
      (hsome : ¬(v.along task e).services.isEmpty = true)
      (hother : e.target ≠ task.destination)
      (hnew : ¬(v.along task e).services.isSubset (explored.seen e.target) = true) :
      Advance ⟨v, e :: es, queue, explored, denial⟩
        ⟨v, es, queue ++ [v.along task e], explored.add e.target (v.along task e).services, denial⟩
  | turn {v w : Visit g} {queue : List (Visit g)} {explored : Explored g.size}
      {denial : Option Denial} :
      Advance ⟨v, [], w :: queue, explored, denial⟩
        ⟨w, g.leaving w.node, queue, explored, denial⟩

/-- A search ends when an edge arrives at the destination or nothing is left. -/
inductive Final : Moment g → Outcome → Prop where
  | arrived {v : Visit g} {e : Edge g.size} {es : List (Edge g.size)} {queue : List (Visit g)}
      {explored : Explored g.size} {denial : Option Denial}
      (hreach : e.target ∈ task.reaching)
      (hsome : ¬(v.along task e).services.isEmpty = true)
      (hthere : e.target = task.destination) :
      Final ⟨v, e :: es, queue, explored, denial⟩
        (.reached (v.along task e).trail.reverse (v.along task e).services)
  | denied {v : Visit g} {explored : Explored g.size} {denial : Denial} :
      Final ⟨v, [], [], explored, some denial⟩ (.denied denial.path denial.reason)
  | exhausted {v : Visit g} {explored : Explored g.size} :
      Final ⟨v, [], [], explored, none⟩ .noPath

abbrev Runs : Moment g → Moment g → Prop := Relation.ReflTransGen (Advance task)

/-- The advances from a moment bear out what following its edges gives: they
lead to an arrival with the same path, or to the same new visits in the queue. -/
def Leads (m : Moment g) : Step g → Prop
  | .arrived path permitted => ∃ m', Runs task m m' ∧ Final task m' (.reached path permitted)
  | .moved explored visits denial => Runs task m ⟨m.visit, [], m.queue ++ visits, explored, denial⟩

theorem Leads.head {m m' : Moment g} {step : Step g} (h : Advance task m m')
    (hvisit : m'.visit = m.visit) (hqueue : m'.queue = m.queue) (hleads : Leads task m' step) :
    Leads task m step := by
  cases step with
  | arrived path permitted =>
    obtain ⟨m'', hruns, hfinal⟩ := hleads
    exact ⟨m'', hruns.head h, hfinal⟩
  | moved explored visits denial =>
    have hruns : Runs task m' ⟨m'.visit, [], m'.queue ++ visits, explored, denial⟩ := hleads
    rw [hvisit, hqueue] at hruns
    exact hruns.head h

theorem Leads.addVisit {m m' : Moment g} {w : Visit g} {step : Step g} (h : Advance task m m')
    (hvisit : m'.visit = m.visit) (hqueue : m'.queue = m.queue ++ [w])
    (hleads : Leads task m' step) : Leads task m (step.addVisit w) := by
  cases step with
  | arrived path permitted =>
    obtain ⟨m'', hruns, hfinal⟩ := hleads
    exact ⟨m'', hruns.head h, hfinal⟩
  | moved explored visits denial =>
    have hruns : Runs task m' ⟨m'.visit, [], m'.queue ++ visits, explored, denial⟩ := hleads
    rw [hvisit, hqueue, List.append_assoc] at hruns
    exact hruns.head h

theorem follow_cons (v : Visit g) (e : Edge g.size) (rest : List (Edge g.size))
    (explored : Explored g.size) (denial : Option Denial) :
    follow task v explored denial (e :: rest) =
      if task.reaching.contains e.target then
        if (v.along task e).services.isEmpty then
          follow task v explored (denial.or (v.refusal? task e)) rest
        else if e.target = task.destination then
          .arrived (v.along task e).trail.reverse (v.along task e).services
        else if (v.along task e).services.isSubset (explored.seen e.target) then
          follow task v explored denial rest
        else
          (follow task v (explored.add e.target (v.along task e).services) denial rest).addVisit
            (v.along task e)
      else follow task v explored denial rest := by
  rw [follow]
  rfl

/-- The induction is on the edges left, for every queue: each branch of
following one edge is one advance, or the arrival. -/
theorem follow_leads (v : Visit g) (es : List (Edge g.size)) (queue : List (Visit g))
    (explored : Explored g.size) (denial : Option Denial) :
    Leads task ⟨v, es, queue, explored, denial⟩ (follow task v explored denial es) := by
  induction es generalizing queue explored denial with
  | nil =>
    have hruns : Runs task ⟨v, [], queue, explored, denial⟩ ⟨v, [], queue ++ [], explored, denial⟩ := by
      rw [List.append_nil]
    exact hruns
  | cons e rest ih =>
    rw [follow_cons]
    by_cases hreach : e.target ∈ task.reaching
    · rw [if_pos (List.contains_iff_mem.mpr hreach)]
      by_cases hempty : (v.along task e).services.isEmpty = true
      · rw [if_pos hempty]
        exact (ih queue explored _).head task (.refused hreach hempty) rfl rfl
      · rw [if_neg hempty]
        by_cases hthere : e.target = task.destination
        · rw [if_pos hthere]
          exact ⟨_, .refl, .arrived hreach hempty hthere⟩
        · rw [if_neg hthere]
          by_cases hseen : (v.along task e).services.isSubset (explored.seen e.target) = true
          · rw [if_pos hseen]
            exact (ih queue explored denial).head task
              (.repeated hreach hempty hthere hseen) rfl rfl
          · rw [if_neg hseen]
            exact (ih _ _ denial).addVisit task (.fresh hreach hempty hthere hseen) rfl rfl
    · rw [if_neg fun hin => hreach (List.contains_iff_mem.mp hin)]
      exact (ih queue explored denial).head task (.cutOff hreach) rfl rfl

theorem run_cons (explored : Explored g.size) (denial : Option Denial) (v : Visit g)
    (ahead : List (Visit g)) :
    run task explored denial (v :: ahead) =
      match follow task v explored denial (g.leaving v.node) with
      | .arrived path permitted => .reached path permitted
      | .moved explored visits denial => run task explored denial (ahead ++ visits) := by
  rw [run]
  split <;> rename_i hstep <;> rw [hstep]

/-- The outcome of a search is that of a final moment on its course. -/
theorem run_final (explored : Explored g.size) (denial : Option Denial) (v : Visit g)
    (ahead : List (Visit g)) :
    ∃ m, Runs task ⟨v, g.leaving v.node, ahead, explored, denial⟩ m ∧
      Final task m (run task explored denial (v :: ahead)) := by
  have hleads := follow_leads task v (g.leaving v.node) ahead explored denial
  rw [run]
  split
  · rename_i path permitted hstep
    rw [hstep] at hleads
    exact hleads
  · rename_i explored' visits denial' hstep
    rw [hstep] at hleads
    have hruns : Runs task ⟨v, g.leaving v.node, ahead, explored, denial⟩
        ⟨v, [], ahead ++ visits, explored', denial'⟩ := hleads
    cases hahead : ahead ++ visits with
    | nil =>
      rw [hahead] at hruns
      cases denial' with
      | some d =>
        rw [run]
        exact ⟨_, hruns, .denied⟩
      | none =>
        rw [run]
        exact ⟨_, hruns, .exhausted⟩
    | cons w queue =>
      rw [hahead] at hruns
      obtain ⟨m, hrest, hfinal⟩ := run_final explored' denial' w queue
      exact ⟨m, (hruns.tail .turn).trans hrest, hfinal⟩
termination_by (explored.uncovered, ahead.length)
decreasing_by
  rcases uncovered_follow ‹_› with ⟨rfl, rfl⟩ | h
  · rw [List.append_nil] at hahead
    rw [hahead]
    exact Prod.Lex.right _ (Nat.lt_succ_self _)
  · exact Prod.Lex.left _ _ h

variable {task}

/-- A search can advance in one way only: the tests on an edge exclude each other. -/
theorem Advance.unique {m m₁ m₂ : Moment g} (h₁ : Advance task m m₁) (h₂ : Advance task m m₂) :
    m₁ = m₂ := by
  cases h₁ with
  | cutOff hoff =>
    cases h₂ with
    | cutOff _ => rfl
    | refused hreach _ => exact absurd hreach hoff
    | repeated hreach _ _ _ => exact absurd hreach hoff
    | fresh hreach _ _ _ => exact absurd hreach hoff
  | refused hreach hempty =>
    cases h₂ with
    | cutOff hoff => exact absurd hreach hoff
    | refused _ _ => rfl
    | repeated _ hsome _ _ => exact absurd hempty hsome
    | fresh _ hsome _ _ => exact absurd hempty hsome
  | repeated hreach hsome _ hseen =>
    cases h₂ with
    | cutOff hoff => exact absurd hreach hoff
    | refused _ hempty => exact absurd hempty hsome
    | repeated _ _ _ _ => rfl
    | fresh _ _ _ hnew => exact absurd hseen hnew
  | fresh hreach hsome _ hnew =>
    cases h₂ with
    | cutOff hoff => exact absurd hreach hoff
    | refused _ hempty => exact absurd hempty hsome
    | repeated _ _ _ hseen => exact absurd hseen hnew
    | fresh _ _ _ _ => rfl
  | turn =>
    cases h₂ with
    | turn => rfl

/-- At a final moment a search does not go on. -/
theorem Final.not_advance {m m' : Moment g} {outcome : Outcome} (h : Final task m outcome) :
    ¬Advance task m m' := by
  intro hstep
  cases h with
  | arrived hreach hsome hthere =>
    cases hstep with
    | cutOff hoff => exact hoff hreach
    | refused _ hempty => exact hsome hempty
    | repeated _ _ hother _ => exact hother hthere
    | fresh _ _ hother _ => exact hother hthere
  | denied => cases hstep
  | exhausted => cases hstep

theorem Final.unique {m : Moment g} {outcome outcome' : Outcome} (h : Final task m outcome)
    (h' : Final task m outcome') : outcome = outcome' := by
  cases h with
  | arrived _ _ _ =>
    cases h' with
    | arrived _ _ _ => rfl
  | denied =>
    cases h' with
    | denied => rfl
  | exhausted =>
    cases h' with
    | exhausted => rfl

theorem Final.eq_of_runs {m m' : Moment g} {outcome : Outcome} (h : Final task m outcome)
    (hruns : Runs task m m') : m' = m := by
  rcases hruns.cases_head with hsame | ⟨_, hstep, _⟩
  · exact hsame.symm
  · exact absurd hstep h.not_advance

/-- All courses from one moment to a final one come to the same outcome. -/
theorem Runs.outcome_unique {m m₁ m₂ : Moment g} {outcome₁ outcome₂ : Outcome}
    (h₁ : Runs task m m₁) (hfinal₁ : Final task m₁ outcome₁) (h₂ : Runs task m m₂)
    (hfinal₂ : Final task m₂ outcome₂) : outcome₁ = outcome₂ := by
  have honly : Relator.RightUnique (Advance task) := fun _ _ _ => Advance.unique
  have hsame : m₂ = m₁ := by
    rcases Relation.ReflTransGen.total_of_right_unique honly h₁ h₂ with hon | hon
    · exact hfinal₁.eq_of_runs hon
    · exact (hfinal₂.eq_of_runs hon).symm
  rw [hsame] at hfinal₂
  exact hfinal₁.unique hfinal₂

/-- The task of a search between two nodes of a graph. -/
def Task.toward (g : Graph) (destination : Fin g.size) (ends : Ends) : Task g :=
  ⟨destination, g.nodesReaching destination, ends⟩

/-- The moment at which a search begins. -/
def opening (g : Graph) (source : Fin g.size) (offered : ServiceSet) : Moment g :=
  ⟨⟨source, offered, []⟩, g.leaving source, [], (Explored.nothing g.size).add source offered, none⟩

/-- What the loop of a search holds each time it begins: what the nodes have seen,
the first denial and the queue, from which it takes the first visit to follow it. -/
inductive Loops (task : Task g) (source : Fin g.size) (offered : ServiceSet) :
    Explored g.size → Option Denial → List (Visit g) → Prop where
  | start : Loops task source offered ((Explored.nothing g.size).add source offered) none
      [⟨source, offered, []⟩]
  | again {explored explored' : Explored g.size} {denial denial' : Option Denial} {v : Visit g}
      {ahead visits : List (Visit g)} (hloop : Loops task source offered explored denial (v :: ahead))
      (hmoved : follow task v explored denial (g.leaving v.node) =
        .moved explored' visits denial') :
      Loops task source offered explored' denial' (ahead ++ visits)

namespace Loops

variable {source : Fin g.size} {offered : ServiceSet} {explored : Explored g.size}
  {denial : Option Denial} {queue : List (Visit g)}

/-- The loop has the outcome with which it was first entered. -/
theorem run_eq (h : Loops task source offered explored denial queue) :
    run task explored denial queue =
      run task ((Explored.nothing g.size).add source offered) none [⟨source, offered, []⟩] := by
  induction h with
  | start => rfl
  | again _ hmoved ih =>
    rw [← ih, run_cons, hmoved]

/-- Where the loop takes a visit from its queue, the search turns to it on its course,
with the same visits queued behind it. -/
theorem runs {v : Visit g} {ahead : List (Visit g)}
    (h : Loops task source offered explored denial (v :: ahead)) :
    Runs task (opening g source offered) ⟨v, g.leaving v.node, ahead, explored, denial⟩ := by
  generalize hqueue : v :: ahead = queue at h
  induction h generalizing v ahead with
  | start =>
    cases hqueue
    exact .refl
  | @again explored explored' denial denial' w behind visits _ hmoved ih =>
    have hleads := follow_leads task w (g.leaving w.node) behind explored denial
    rw [hmoved] at hleads
    have hfollowed : Runs task ⟨w, g.leaving w.node, behind, explored, denial⟩
        ⟨w, [], behind ++ visits, explored', denial'⟩ := hleads
    rw [← hqueue] at hfollowed
    exact ((ih rfl).trans hfollowed).tail .turn

end Loops

end Search

namespace Graph

variable {g : Graph} {source destination : Fin g.size}

theorem search_final (ends : Ends) (offered : ServiceSet)
    (hreach : source ∈ g.nodesReaching destination) :
    ∃ m, Search.Runs (.toward g destination ends) (Search.opening g source offered) m ∧
      Search.Final (.toward g destination ends) m (g.search source destination ends offered) := by
  unfold search
  rw [if_pos (List.contains_iff_mem.mpr hreach)]
  exact Search.run_final _ _ _ _ _

/-- The outcome of a search is the one to which its course leads. -/
theorem search_eq_iff {ends : Ends} {offered : ServiceSet} {outcome : Outcome}
    (hreach : source ∈ g.nodesReaching destination) :
    g.search source destination ends offered = outcome ↔
      ∃ m, Search.Runs (.toward g destination ends) (Search.opening g source offered) m ∧
        Search.Final (.toward g destination ends) m outcome := by
  obtain ⟨m, hruns, hfinal⟩ := search_final ends offered hreach
  constructor
  · rintro rfl
    exact ⟨m, hruns, hfinal⟩
  · rintro ⟨m', hruns', hfinal'⟩
    exact hruns.outcome_unique hfinal hruns' hfinal'

/-- A course from the edges of the source to a final moment gives the outcome. -/
theorem search_of_runs {ends : Ends} {offered : ServiceSet} {outcome : Outcome}
    {es : List (Edge g.size)} {m : Search.Moment g} (hreach : source ∈ g.nodesReaching destination)
    (hleaving : g.leaving source = es)
    (hruns : Search.Runs (.toward g destination ends) ⟨⟨source, offered, []⟩, es, [],
      (Explored.nothing g.size).add source offered, none⟩ m)
    (hfinal : Search.Final (.toward g destination ends) m outcome) :
    g.search source destination ends offered = outcome := by
  subst hleaving
  exact (search_eq_iff hreach).mpr ⟨m, hruns, hfinal⟩

theorem run_eq_search {ends : Ends} {offered : ServiceSet} {explored : Explored g.size}
    {denial : Option Search.Denial} {queue : List (Search.Visit g)}
    (hreach : source ∈ g.nodesReaching destination)
    (h : Search.Loops (.toward g destination ends) source offered explored denial queue) :
    Search.run (.toward g destination ends) explored denial queue =
      g.search source destination ends offered := by
  rw [h.run_eq]
  unfold search
  rw [if_pos (List.contains_iff_mem.mpr hreach)]
  rfl

theorem search_of_not_mem (ends : Ends) (offered : ServiceSet)
    (hreach : source ∉ g.nodesReaching destination) :
    g.search source destination ends offered = .noPath := by
  unfold search
  rw [if_neg (fun h => hreach (List.contains_iff_mem.mp h))]

end Graph

end Perimeter
