import Perimeter.Reachability.Explored
import Perimeter.Reachability.Path

/-!
Breadth-first search for a path that lets some offered service through. A visit
of a node carries the services that are still permitted on its path. A node is
visited again only with services that no earlier visit brought, so every new
visit adds to what the nodes have seen, and the search ends on any graph. Edges
into nodes that no walk connects to the destination are never followed.
-/

namespace Perimeter

/-- What a search finds: a path to the destination with the services that
arrive, the path to the first denial, or no connection at all. -/
inductive Outcome where
  | reached (path : List PathHop) (permitted : ServiceSet)
  | denied (path : List PathHop) (reason : Reason)
  | noPath
deriving DecidableEq

namespace Search

/-- What stays fixed during a search. -/
structure Task (g : Graph) where
  destination : Fin g.size
  /-- The nodes that some walk connects to the destination. -/
  reaching : List (Fin g.size)
  ends : Ends

/-- A node with the services that got there; its path is kept in reverse. -/
structure Visit (g : Graph) where
  node : Fin g.size
  services : ServiceSet
  trail : List PathHop

/-- A path that ends at a hop which lets nothing through. -/
structure Denial where
  path : List PathHop
  reason : Reason

/-- The result of following the edges of one visit. -/
inductive Step (g : Graph) where
  | arrived (path : List PathHop) (permitted : ServiceSet)
  | moved (explored : Explored g.size) (visits : List (Visit g)) (denial : Option Denial)

/-- Puts a new visit before those of the edges after it. -/
def Step.addVisit {g : Graph} (v : Visit g) : Step g → Step g
  | arrived path permitted => arrived path permitted
  | moved explored visits denial => moved explored (v :: visits) denial

/-- Follows the edges that leave the node of a visit, in order, up to one that
arrives at the destination. The first denial of the search is kept. -/
def follow {g : Graph} (task : Task g) (v : Visit g) (explored : Explored g.size)
    (denial : Option Denial) : List (Edge g.size) → Step g
  | [] => .moved explored [] denial
  | e :: rest =>
    if task.reaching.contains e.target then
      let hop := g.cross v.node e task.ends v.services
      let trail := hop :: v.trail
      if hop.services.isEmpty then
        follow task v explored
          (denial.or (hop.denial?.map fun reason => ⟨trail.reverse, reason⟩)) rest
      else if e.target = task.destination then .arrived trail.reverse hop.services
      else if hop.services.isSubset (explored.seen e.target) then follow task v explored denial rest
      else
        (follow task v (explored.add e.target hop.services) denial rest).addVisit
          ⟨e.target, hop.services, trail⟩
    else follow task v explored denial rest

/-- New visits come with less that is unexplored; without any, nothing changed. -/
theorem uncovered_follow {g : Graph} {task : Task g} {v : Visit g} {explored after : Explored g.size}
    {denial denial' : Option Denial} {edges : List (Edge g.size)} {visits : List (Visit g)}
    (h : follow task v explored denial edges = .moved after visits denial') :
    (visits = [] ∧ after = explored) ∨ after.uncovered < explored.uncovered := by
  induction edges generalizing explored denial visits with
  | nil =>
    cases h
    exact Or.inl ⟨rfl, rfl⟩
  | cons e rest ih =>
    unfold follow at h
    split at h
    · dsimp only at h
      split at h
      · exact ih h
      · split at h
        · cases h
        · split at h
          · exact ih h
          · rename_i hnew
            have hless := Explored.uncovered_add_lt hnew
            generalize hstep : follow task v _ denial rest = step at h
            cases step with
            | arrived path permitted => cases h
            | moved after' visits' denial'' =>
              cases h
              rcases ih hstep with ⟨_, rfl⟩ | hmore
              · exact Or.inr hless
              · exact Or.inr (Nat.lt_trans hmore hless)
    · exact ih h

/-- The outcome of a search with the given visits ahead. -/
def run {g : Graph} (task : Task g) (explored : Explored g.size) (denial : Option Denial) :
    List (Visit g) → Outcome
  | [] =>
    match denial with
    | some d => .denied d.path d.reason
    | none => .noPath
  | v :: ahead =>
    match _ : follow task v explored denial (g.leaving v.node) with
    | .arrived path permitted => .reached path permitted
    | .moved explored visits denial => run task explored denial (ahead ++ visits)
termination_by ahead => (explored.uncovered, ahead.length)
decreasing_by
  rcases uncovered_follow ‹_› with ⟨rfl, rfl⟩ | h
  · exact Prod.Lex.right _ (by simp)
  · exact Prod.Lex.left _ _ h

end Search

/-- Searches from one node to another for the offered services between two addresses. -/
def Graph.search (g : Graph) (source destination : Fin g.size) (ends : Ends)
    (offered : ServiceSet) : Outcome :=
  let reaching := g.nodesReaching destination
  if reaching.contains source then
    Search.run ⟨destination, reaching, ends⟩
      ((Explored.nothing g.size).add source offered) none [⟨source, offered, []⟩]
  else .noPath

end Perimeter
