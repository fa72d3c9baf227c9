import Mathlib.Data.List.Nodup
import Perimeter.Proofs.Address.Text
import Perimeter.Proofs.Json.Codec
import Perimeter.Proofs.Service.Canonical
import Perimeter.Proofs.Text.Names
import Perimeter.Report

/-!
A service set is read back from its document. Each list of ports says which ports
it is for, since no range is written as the word for all ports; and each name says
whose ports they are, since no protocol has the name of the rest. A rest that is
empty is the only part that goes unwritten. So the parts of a set, in whatever
order, give the set again, and sets with equal documents are equal.
-/

namespace Perimeter

open Json

namespace PortSet

/-- The run of ports that a text writes: one number, or two around a hyphen. -/
def rangeOfText? (text : String) : Option (Range lastPort) :=
  match text.toList.splitOn '-' with
  | [port] => (Text.readNat? 10 port).bind fun n => Range.between? lastPort n n
  | [lo, hi] => do
    let first ← Text.readNat? 10 lo
    let last ← Text.readNat? 10 hi
    Range.between? lastPort first last
  | _ => none

/-- The set of ports that a list of texts writes: all of them by one word, or runs. -/
def ofTexts? (texts : List String) : Option PortSet :=
  if texts = ["any"] then some .full else (texts.mapM rangeOfText?).map .ofRanges

theorem rangeOfText?_rangeText (r : Range lastPort) : rangeOfText? (rangeText r) = some r := by
  have hhyphen : ∀ n, '-' ∉ Nat.toDigits 10 n :=
    Text.not_mem_toDigits (by decide) (by decide) (by decide)
  have hread : ∀ n, Text.readNat? 10 (Nat.toDigits 10 n) = some n :=
    Text.readNat?_toDigits (by decide) (by decide)
  have hbetween : Range.between? lastPort r.lo r.hi = some r :=
    Range.between?_eq_some.mpr ⟨rfl, rfl⟩
  by_cases hone : r.lo = r.hi
  · have hwritten : (rangeText r).toList = Nat.toDigits 10 r.lo := by
      rw [rangeText, if_pos hone, Text.toList_decimal]
    rw [← hone] at hbetween
    rw [rangeOfText?, hwritten, List.splitOn_eq_singleton (hhyphen r.lo)]
    simp only [hread, Option.bind_some, hbetween]
  · have hwritten : (rangeText r).toList = Nat.toDigits 10 r.lo ++ '-' :: Nat.toDigits 10 r.hi := by
      rw [rangeText, if_neg hone]
      simp [Text.toList_decimal]
    rw [rangeOfText?, hwritten, splitOn_pair (hhyphen r.lo) (hhyphen r.hi)]
    simp only [hread, Option.bind_eq_bind, Option.bind_some, hbetween]

/-- The ranges of a set make it up. -/
theorem ofRanges_ranges (ports : PortSet) : IntervalSet.ofRanges ports.ranges = ports :=
  IntervalSet.ext_mem fun _ => IntervalSet.mem_ofRanges

theorem ofTexts?_texts (ports : PortSet) : ofTexts? (texts ports) = some ports := by
  by_cases hfull : ports.isFull = true
  · have hports : ports = .full := by simpa [IntervalSet.isFull] using hfull
    rw [texts, if_pos hfull, ofTexts?, if_pos rfl, hports]
  · have hread : (ports.ranges.map rangeText).mapM rangeOfText? = some ports.ranges :=
      mapM_map_eq_some rangeOfText?_rangeText ports.ranges
    -- The word for all ports is no range, so no list of ranges is written as it.
    have hword : ports.ranges.map rangeText ≠ ["any"] := by
      intro hany
      have hnone : ["any"].mapM rangeOfText? = none := by decide
      rw [hany, hnone] at hread
      cases hread
    rw [texts, if_neg hfull, ofTexts?, if_neg hword, hread, Option.map_some, ofRanges_ranges]

end PortSet

namespace ServiceSet

/-- Ports with whose they are: those of a protocol, or of all that are not named. -/
structure Part where
  whose : Option Protocol
  ports : PortSet

namespace Part

/-- The name that the ports are written under. -/
def name (part : Part) : String := part.whose.elim "any" Protocol.text

def texts (part : Part) : String × List String := (part.name, PortSet.texts part.ports)

/-- Whose ports a name says they are. -/
def ofName? (name : String) : Option (Option Protocol) :=
  if name = "any" then some none else (Protocol.ofText? name).map some

def ofTexts? (member : String × List String) : Option Part := do
  let whose ← ofName? member.1
  let ports ← PortSet.ofTexts? member.2
  return ⟨whose, ports⟩

theorem ofName?_name (part : Part) : ofName? part.name = some part.whose := by
  obtain ⟨_ | p, ports⟩ := part
  · rfl
  · change ofName? p.text = some (some p)
    rw [ofName?, if_neg p.text_ne_any, Protocol.ofText?_text, Option.map_some]

theorem ofTexts?_texts (part : Part) : ofTexts? part.texts = some part := by
  rw [ofTexts?, texts, ofName?_name, PortSet.ofTexts?_texts]
  rfl

end Part

/-- The parts of a set that are written. -/
def parts (s : ServiceSet) : List Part :=
  (if s.rest.isEmpty then [] else [⟨none, s.rest⟩]) ++
    s.listed.map fun entry => ⟨some entry.1, entry.2⟩

/-- The ports that a list of parts has for a protocol, or for all that are not named. -/
def portsOf? (ps : List Part) (whose : Option Protocol) : Option PortSet :=
  (ps.find? (·.whose == whose)).map Part.ports

/-- The set that parts make up. Where no part is for the rest, the rest is empty. -/
def ofParts (ps : List Part) : ServiceSet :=
  let rest := (portsOf? ps none).getD .empty
  build rest (ps.filterMap Part.whose) fun p => (portsOf? ps (some p)).getD rest

/-- The set that a map from names to ports writes. -/
def ofTexts? (members : List (String × List String)) : Option ServiceSet :=
  (members.mapM Part.ofTexts?).map ofParts

/-- The texts of one member of a document. -/
def memberTexts? (member : String × Json) : Option (String × List String) :=
  (list? text? member.2).map (member.1, ·)

/-- The set that a document writes. -/
def ofJson? : Decoder ServiceSet
  | .object members => do
    let members ← textMembers? members
    let members ← members.mapM memberTexts?
    ofTexts? members
  | _ => none

section Parts

variable {s : ServiceSet} {ps : List Part} {ports : PortSet}

theorem mem_parts_rest : ⟨none, ports⟩ ∈ s.parts ↔ s.rest = ports ∧ s.rest.isEmpty = false := by
  unfold parts
  rw [List.mem_append]
  split
  · rename_i hempty
    simp [hempty]
  · rename_i hsome
    simp [hsome, eq_comm]

theorem mem_parts_listed {p : Protocol} : ⟨some p, ports⟩ ∈ s.parts ↔ (p, ports) ∈ s.listed := by
  unfold parts
  rw [List.mem_append]
  split <;> simp

theorem nodup_whose (s : ServiceSet) : (s.parts.map Part.whose).Nodup := by
  have hlisted : ((s.listed.map (·.1)).map some).Nodup :=
    s.nodup_listed.map fun _ _ => Option.some.inj
  rw [List.map_map] at hlisted
  unfold parts
  rw [List.map_append, List.map_map]
  split
  · exact hlisted
  · exact List.nodup_cons.mpr ⟨by simp, hlisted⟩

theorem portsOf?_eq_some_iff (h : ps.Perm s.parts) {whose : Option Protocol} :
    portsOf? ps whose = some ports ↔ ⟨whose, ports⟩ ∈ s.parts := by
  have hdistinct : ∀ a ∈ ps, ∀ b ∈ ps, a.whose = b.whose → a = b := fun a ha b hb =>
    List.inj_on_of_nodup_map s.nodup_whose (h.mem_iff.mp ha) (h.mem_iff.mp hb)
  rw [portsOf?, Option.map_eq_some_iff]
  constructor
  · rintro ⟨part, hfind, rfl⟩
    obtain ⟨hpart, rfl⟩ := (find?_key_eq_some_iff hdistinct).mp hfind
    exact h.mem_iff.mp hpart
  · intro hpart
    exact ⟨_, (find?_key_eq_some_iff hdistinct).mpr ⟨h.mem_iff.mpr hpart, rfl⟩, rfl⟩

/-- A rest that is not among the parts is empty. -/
theorem portsOf?_none (h : ps.Perm s.parts) : (portsOf? ps none).getD .empty = s.rest := by
  cases hports : portsOf? ps none with
  | some ports =>
    obtain ⟨hrest, _⟩ := mem_parts_rest.mp ((portsOf?_eq_some_iff h).mp hports)
    exact hrest.symm
  | none =>
    have hempty : s.rest.isEmpty = true := by
      by_contra hsome
      rw [Bool.not_eq_true] at hsome
      rw [(portsOf?_eq_some_iff h).mpr (mem_parts_rest.mpr ⟨rfl, hsome⟩)] at hports
      cases hports
    rw [Option.getD_none, PortSet.isEmpty_iff_eq_empty.mp hempty]

/-- Protocols that are not among the parts have the ports of the rest. -/
theorem ofParts_of_perm (h : ps.Perm s.parts) : ofParts ps = s := by
  have hrest : (ofParts ps).rest = s.rest := portsOf?_none h
  apply ext_portsFor hrest
  intro p
  unfold ofParts
  rw [portsFor_build]
  by_cases hlisted : p ∈ s.listed.map (·.1)
  · obtain ⟨⟨_, ports⟩, hentry, rfl⟩ := List.mem_map.mp hlisted
    have hpart := mem_parts_listed.mpr hentry
    have hnamed : _ ∈ ps.filterMap Part.whose :=
      List.mem_filterMap.mpr ⟨_, h.mem_iff.mpr hpart, rfl⟩
    rw [if_pos hnamed, (portsOf?_eq_some_iff h).mpr hpart, Option.getD_some, (mem_listed.mp hentry).1]
  · have hnamed : p ∉ ps.filterMap Part.whose := by
      intro hin
      obtain ⟨⟨_, ports⟩, hpart, rfl⟩ := List.mem_filterMap.mp hin
      exact hlisted (List.mem_map_of_mem (mem_parts_listed.mp (h.mem_iff.mp hpart)))
    rw [if_neg hnamed, portsOf?_none h, portsFor_eq_rest hlisted]

end Parts

section Texts

variable {s : ServiceSet}

theorem texts_eq_map_parts (s : ServiceSet) : s.texts = s.parts.map Part.texts := by
  rw [texts, parts, List.map_append, List.map_map]
  split <;> rfl

/-- The map that a set is written as has each name once. -/
theorem nodup_names (s : ServiceSet) : (s.texts.map (·.1)).Nodup := by
  have hread : (s.texts.map (·.1)).map Part.ofName? = (s.parts.map Part.whose).map some := by
    rw [texts_eq_map_parts, List.map_map, List.map_map, List.map_map]
    exact List.map_congr_left fun part _ => part.ofName?_name
  apply List.Nodup.of_map Part.ofName?
  rw [hread]
  exact s.nodup_whose.map fun _ _ => Option.some.inj

/-- The members of the map may stand in any order. -/
theorem ofTexts?_of_perm {members : List (String × List String)} (h : members.Perm s.texts) :
    ofTexts? members = some s := by
  rw [texts_eq_map_parts] at h
  have hread : ∀ member ∈ members, (Part.ofTexts? member).isSome := by
    intro member hmember
    obtain ⟨part, _, rfl⟩ := List.mem_map.mp (h.mem_iff.mp hmember)
    rw [Part.ofTexts?_texts]
    rfl
  have hwritten : Part.ofTexts? ∘ Part.texts = some := funext Part.ofTexts?_texts
  have hparts : (members.filterMap Part.ofTexts?).Perm s.parts := by
    have hperm := h.filterMap Part.ofTexts?
    rwa [List.filterMap_map, hwritten, List.filterMap_some] at hperm
  rw [ofTexts?, mapM_eq_some_filterMap hread, Option.map_some, ofParts_of_perm hparts]

theorem ofJson?_record (fields : List (String × Json)) :
    ofJson? (record fields) = (fields.mapM memberTexts?).bind ofTexts? := by
  unfold ofJson? record
  dsimp only
  rw [textMembers?_record]
  rfl

/-- A set is read back from its document, in which the members are in order of names. -/
theorem codec : Codec toJson ofJson? where
  plain s := by
    apply Plain.record
    intro field hfield
    obtain ⟨member, _, rfl⟩ := List.mem_map.mp hfield
    exact Codec.text.list.plain member.2
  read_write s := by
    have hread : ∀ member : String × List String,
        memberTexts? (member.1, ofList ofText member.2) = some member := by
      intro member
      rw [memberTexts?, Codec.text.list.read_write, Option.map_some]
    let sorted := s.texts.mergeSort fun a b => decide (a.1 ≤ b.1)
    let fields := sorted.map fun member => (member.1, ofList ofText member.2)
    calc ofJson? s.toJson
      _ = (fields.mapM memberTexts?).bind ofTexts? := ofJson?_record fields
      _ = (some sorted).bind ofTexts? := by rw [mapM_map_eq_some hread]
      _ = some s := ofTexts?_of_perm (List.mergeSort_perm s.texts _)

/-- What a set is written as loses nothing. The names in its map are distinct, and the
set is read back from the members of the map in any order, from its document and from
the text of that. So no other set is written as the same map or the same document. -/
theorem rendering_faithful (s : ServiceSet) :
    (s.texts.map (·.1)).Nodup ∧
    (∀ members, members.Perm s.texts → ofTexts? members = some s) ∧
    ofJson? s.toJson = some s ∧
    (read? s.toJson.compactText).bind ofJson? = some s ∧
    ∀ t : ServiceSet, (t.texts.Perm s.texts ↔ t = s) ∧ (t.toJson = s.toJson ↔ t = s) := by
  refine ⟨s.nodup_names, fun _ => ofTexts?_of_perm, codec.read_write s, codec.read?_compactText s, ?_⟩
  intro t
  constructor
  · constructor
    · intro hperm
      exact Option.some.inj ((ofTexts?_of_perm (.refl t.texts)).symm.trans (ofTexts?_of_perm hperm))
    · rintro rfl
      exact .refl _
  · constructor
    · intro hdocument
      have hread := codec.read_write t
      rw [hdocument, codec.read_write s] at hread
      exact (Option.some.inj hread).symm
    · rintro rfl
      rfl

/-- One port for every protocol but three: no port, more ports or all of them. -/
def motley : ServiceSet :=
  (ofEntries [(none, ⟨22, 22⟩), (some .udp, ⟨8000, 8080⟩), (some ⟨47⟩, .all)]).subtract
    (ofProtocol .tcp .full)

theorem motley_read_back :
    ofTexts? [("47", ["any"]), ("any", ["22"]), ("tcp", []), ("udp", ["22", "8000-8080"])] =
      some motley :=
  (rendering_faithful motley).2.1 _ (by decide)

end Texts

end ServiceSet

end Perimeter
