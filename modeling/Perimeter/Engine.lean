import Perimeter.Reachability.Query

/-!
A loaded snapshot: resolved, with the graph of its zones, ready to answer
questions.
-/

namespace Perimeter

/-- Choices that govern how a snapshot is loaded. -/
structure EngineConfig where
  topology : Inference
  /-- Whether devices may be resolved at the same time. Their results do not
  depend on it. -/
  parallelResolution : Bool
  builtinBooks : Bool
deriving DecidableEq

def EngineConfig.default : EngineConfig := ⟨.sharedSubnet, true, true⟩

/-- Why a snapshot could not be loaded. -/
inductive LoadError where
  /-- The document describes no snapshot. -/
  | unreadable
  | snapshot (e : SnapshotError)
  | graph (e : GraphError)
deriving DecidableEq

namespace LoadError

/-- The cause by itself. -/
def cause : LoadError → String
  | unreadable => "Serialization error: the document describes no snapshot"
  | snapshot e => e.message
  | graph e => e.message

/-- The cause after the part of loading that it stopped. -/
def message (e : LoadError) : String :=
  match e with
  | graph _ => "Graph error: " ++ e.cause
  | _ => "Snapshot error: " ++ e.cause

end LoadError

structure Engine where
  resolved : ResolvedSnapshot
  graph : Graph

namespace Engine

/-- Checks and resolves a snapshot and builds its graph. -/
def load (s : Snapshot) (config : EngineConfig) : Except LoadError Engine := do
  let resolved ← (s.resolve config.builtinBooks).mapError .snapshot
  let graph ← (Graph.build resolved config.topology).mapError .graph
  return ⟨resolved, graph⟩

/-- Loads the snapshot that a document describes. -/
def ofText (text : String) (config : EngineConfig) : Except LoadError Engine :=
  match Snapshot.ofText? text with
  | some s => load s config
  | none => .error .unreadable

def digest (e : Engine) : String := e.resolved.digest

def query (e : Engine) (q : FlowQuery) : Except QueryError Verdict := e.graph.query q e.digest

end Engine

end Perimeter
