import Perimeter.Reachability.Path
import Perimeter.Proofs.Rule.FirstMatch
import Perimeter.Proofs.Topology.Walk

/-!
What gets through a walk. Every edge takes services away from those that arrive
at it, and what is left after a walk are the offered pairs of protocol and port
that each of its edges admits.
-/

namespace Perimeter

/-- The flow of one protocol to one port between two addresses. -/
def Ends.flow (ends : Ends) (p : Protocol) (port : UInt16) : Flow :=
  ⟨ends.source, ends.destination, p, some port⟩

namespace EdgeKind

/-- A rule set admits the flows it permits; nothing stops a flow on a link. -/
def Admits (k : EdgeKind) (flow : Flow) : Prop :=
  match k with
  | filtered rs => (rs.evaluate flow).1 = .permit
  | transit _ => True

instance (k : EdgeKind) (flow : Flow) : Decidable (k.Admits flow) :=
  match k with
  | filtered rs => inferInstanceAs (Decidable ((rs.evaluate flow).1 = .permit))
  | transit _ => inferInstanceAs (Decidable True)

/-- An edge lets a pair through when it arrives and its flow is admitted. -/
theorem contains_passed_iff (k : EdgeKind) (ends : Ends) (arriving : ServiceSet) (p : Protocol)
    (port : UInt16) :
    (k.passed ends arriving).contains p port = true ↔
      arriving.contains p port = true ∧ k.Admits (ends.flow p port) := by
  cases k with
  | filtered rs => exact rs.contains_permitted_iff ends.source ends.destination arriving p port
  | transit reason => simp [passed, Admits]

theorem specific_passed (k : EdgeKind) (ends : Ends) {arriving : ServiceSet}
    (h : arriving.Specific) : (k.passed ends arriving).Specific := by
  cases k with
  | filtered rs => exact rs.specific_permitted ends.source ends.destination h
  | transit reason => exact h

end EdgeKind

/-- The services that are left of an offer after a walk. -/
def carried {n : Nat} (ends : Ends) (offered : ServiceSet) (es : List (Edge n)) : ServiceSet :=
  es.foldl (fun s e => e.kind.passed ends s) offered

theorem carried_snoc {n : Nat} (ends : Ends) (offered : ServiceSet) (es : List (Edge n))
    (e : Edge n) : carried ends offered (es ++ [e]) = e.kind.passed ends (carried ends offered es) := by
  simp [carried]

/-- A pair survives a walk when it was offered and every edge admits its flow. -/
theorem contains_carried_iff {n : Nat} (ends : Ends) (offered : ServiceSet) (es : List (Edge n))
    (p : Protocol) (port : UInt16) :
    (carried ends offered es).contains p port = true ↔
      offered.contains p port = true ∧ ∀ e ∈ es, e.kind.Admits (ends.flow p port) := by
  induction es generalizing offered with
  | nil => simp [carried]
  | cons e rest ih =>
    change (carried ends (e.kind.passed ends offered) rest).contains p port = true ↔ _
    rw [ih, e.kind.contains_passed_iff]
    simp [and_assoc]

theorem specific_carried {n : Nat} (ends : Ends) {offered : ServiceSet} (h : offered.Specific)
    (es : List (Edge n)) : (carried ends offered es).Specific := by
  induction es generalizing offered with
  | nil => exact h
  | cons e rest ih => exact ih (e.kind.specific_passed ends h)

namespace Graph

/-- The hops that traffic makes along a walk. -/
def hops (g : Graph) (ends : Ends) : Fin g.size → ServiceSet → List (Edge g.size) → List PathHop
  | _, _, [] => []
  | i, arriving, e :: rest =>
    g.cross i e ends arriving :: g.hops ends e.target (e.kind.passed ends arriving) rest

variable {g : Graph} {ends : Ends}

theorem hops_snoc {i j : Fin g.size} {es : List (Edge g.size)} (h : g.Walk i es j)
    (offered : ServiceSet) (e : Edge g.size) :
    g.hops ends i offered (es ++ [e]) =
      g.hops ends i offered es ++ [g.cross j e ends (carried ends offered es)] := by
  induction h generalizing offered with
  | nil => rfl
  | cons hedge _ ih =>
    rw [List.cons_append, hops, hops, ih, List.cons_append]
    rfl

/-- The hops of a walk leave the zones of its stops, all but the last. -/
theorem map_source_hops (i : Fin g.size) (offered : ServiceSet) (es : List (Edge g.size)) :
    (g.hops ends i offered es).map (·.source) = (g.stops i es).dropLast.map g.zone := by
  induction es generalizing i offered with
  | nil => rfl
  | cons e rest ih =>
    have hstops : g.stops i (e :: rest) = i :: g.stops e.target rest := rfl
    rw [hops, List.map_cons, ih, hstops, List.dropLast_cons_of_ne_nil (by simp [stops]),
      List.map_cons]
    rfl

end Graph

end Perimeter
