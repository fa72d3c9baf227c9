import Perimeter.Service.Ports
import Perimeter.Service.Protocol

/-!
Sets of pairs of a protocol and a destination port. A set lists its ports for
each protocol that differs from the rest, in ascending order, and one port set
for all protocols it does not list. No listed protocol repeats the ports of the
rest, so equal coverage means equal sets.
-/

namespace Perimeter

/-- A set of pairs of protocol and port. -/
structure ServiceSet where
  /-- The ports of every protocol that is not listed. -/
  rest : PortSet
  listed : List (Protocol × PortSet)
  ascending : listed.Pairwise fun a b => a.1.number < b.1.number
  distinct : ∀ entry ∈ listed, entry.2 ≠ rest
deriving DecidableEq

namespace ServiceSet

/-- Adds a protocol to an ascending list, once. -/
def insertKey (p : Protocol) : List Protocol → List Protocol
  | [] => [p]
  | q :: qs =>
    if p.number < q.number then p :: q :: qs
    else if q.number < p.number then q :: insertKey p qs
    else q :: qs

theorem mem_insertKey {p q : Protocol} {ps : List Protocol} :
    q ∈ insertKey p ps ↔ q = p ∨ q ∈ ps := by
  induction ps with
  | nil => simp [insertKey]
  | cons r rest ih =>
    unfold insertKey
    split
    · simp
    · split
      · simp only [List.mem_cons, ih]
        constructor <;> rintro (h | h | h) <;> simp [h]
      · rename_i h₁ h₂
        have : p = r := by
          cases p; cases r
          congr 1
          exact UInt8.le_antisymm (UInt8.not_lt.1 h₂) (UInt8.not_lt.1 h₁)
        subst this
        simp

theorem ascending_insertKey {p : Protocol} {ps : List Protocol}
    (h : ps.Pairwise fun a b => a.number < b.number) :
    (insertKey p ps).Pairwise fun a b => a.number < b.number := by
  induction ps with
  | nil => simp [insertKey]
  | cons q rest ih =>
    obtain ⟨hq, hrest⟩ := List.pairwise_cons.1 h
    unfold insertKey
    split
    · rename_i hp
      refine List.pairwise_cons.2 ⟨fun r hr => ?_, h⟩
      rcases List.mem_cons.1 hr with rfl | hr
      · exact hp
      · exact UInt8.lt_trans hp (hq r hr)
    · split
      · rename_i hp
        refine List.pairwise_cons.2 ⟨fun r hr => ?_, ih hrest⟩
        rcases mem_insertKey.1 hr with rfl | hr
        · exact hp
        · exact hq r hr
      · exact h

/-- The protocols of a list, ascending and without repetition. -/
def keys (ps : List Protocol) : List Protocol := ps.foldr insertKey []

theorem mem_keys {p : Protocol} {ps : List Protocol} : p ∈ keys ps ↔ p ∈ ps := by
  unfold keys
  induction ps with
  | nil => simp
  | cons q rest ih => simp [mem_insertKey, ih]

theorem ascending_keys (ps : List Protocol) :
    (keys ps).Pairwise fun a b => a.number < b.number := by
  unfold keys
  induction ps with
  | nil => exact .nil
  | cons q rest ih => exact ascending_insertKey ih

/-- The set that gives the protocols of a list their own ports and `rest` to
all others. Protocols whose own ports are those of the rest are not listed. -/
def build (rest : PortSet) (ps : List Protocol) (ports : Protocol → PortSet) : ServiceSet where
  rest := rest
  listed := ((keys ps).map fun p => (p, ports p)).filter fun entry => entry.2 ≠ rest
  ascending := by
    refine List.Pairwise.filter _ (List.pairwise_map.2 ?_)
    exact ascending_keys ps
  distinct := by simp

/-- The ports that the set holds for a protocol. -/
def portsFor (s : ServiceSet) (p : Protocol) : PortSet :=
  match s.listed.find? (·.1 == p) with
  | some entry => entry.2
  | none => s.rest

def empty : ServiceSet := ⟨.empty, [], .nil, by simp⟩

/-- Every port of every protocol. -/
def any : ServiceSet := ⟨.full, [], .nil, by simp⟩

/-- Ports of one protocol. -/
def ofProtocol (p : Protocol) (ports : PortSet) : ServiceSet :=
  build .empty [p] fun _ => ports

/-- What a flow of a protocol asks for: one port, or every port when none is named. -/
def ofFlow (p : Protocol) (port : Option UInt16) : ServiceSet :=
  ofProtocol p (match port with
    | some n => .single n.toNat
    | none => .full)

def contains (s : ServiceSet) (p : Protocol) (port : UInt16) : Bool :=
  (s.portsFor p).contains port.toNat

def isEmpty (s : ServiceSet) : Bool := s.rest.isEmpty && s.listed.isEmpty

def isAny (s : ServiceSet) : Bool := s.rest.isFull && s.listed.isEmpty

/-- The protocols that either set lists. -/
def keysWith (s t : ServiceSet) : List Protocol := s.listed.map (·.1) ++ t.listed.map (·.1)

/-- Applies an operation on port sets to every protocol. -/
def combine (op : PortSet → PortSet → PortSet) (s t : ServiceSet) : ServiceSet :=
  build (op s.rest t.rest) (s.keysWith t) fun p => op (s.portsFor p) (t.portsFor p)

def union : ServiceSet → ServiceSet → ServiceSet := combine .union

def intersect : ServiceSet → ServiceSet → ServiceSet := combine .intersect

def subtract : ServiceSet → ServiceSet → ServiceSet := combine .subtract

def isSubset (s t : ServiceSet) : Bool :=
  s.rest.isSubset t.rest &&
    (s.keysWith t).all fun p => (s.portsFor p).isSubset (t.portsFor p)

/-- The part of the set that belongs to one protocol. -/
def restrictTo (s : ServiceSet) (p : Protocol) : ServiceSet := ofProtocol p (s.portsFor p)

/-- The pairs of a list of port ranges, each of one protocol or of every one. -/
def ofEntries (entries : List (Option Protocol × PortRange)) : ServiceSet :=
  let portsOf (wanted : Option Protocol → Bool) : PortSet :=
    .ofBounds ((entries.filter (wanted ·.1)).map fun e => (e.2.lo.toNat, e.2.hi.toNat))
  build (portsOf (·.isNone)) (entries.filterMap (·.1)) fun p =>
    portsOf fun q => q.isNone || q == some p

/-- The text of the set: the rest under `any` unless it is empty, then every
listed protocol with its ports. -/
def texts (s : ServiceSet) : List (String × List String) :=
  (if s.rest.isEmpty then [] else [("any", PortSet.texts s.rest)]) ++
    s.listed.map fun entry => (entry.1.text, PortSet.texts entry.2)

end ServiceSet

end Perimeter
