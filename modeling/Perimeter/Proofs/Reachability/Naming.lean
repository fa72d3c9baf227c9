import Perimeter.Proofs.CommandLine.Options
import Perimeter.Proofs.Json.Writing
import Perimeter.Proofs.Reachability.Location
import Perimeter.Proofs.Reachability.Certificate
import Perimeter.Proofs.Snapshot.Loading
import Perimeter.Proofs.Topology.Joins
import Perimeter.Report

/-!
Zones by name. The text of a zone parts at its first colon, so it reads back just
when the device has no colon in its name and neither name is empty. Nothing about a
snapshot that loads ensures this, and the zones without it cannot be named in a
question, neither in a document nor on the command line.
-/

namespace Perimeter

namespace ZoneRef

/-- The names of a zone and of its device can be told apart in a text. -/
def Writable (z : ZoneRef) : Prop := z.device ≠ "" ∧ ':' ∉ z.device.toList ∧ z.zone ≠ ""

instance (z : ZoneRef) : Decidable z.Writable := inferInstanceAs (Decidable (_ ∧ _ ∧ _))

variable {z w : ZoneRef} {s : String}

theorem toList_text (z : ZoneRef) : z.text.toList = z.device.toList ++ ':' :: z.zone.toList := by
  simp [text]

/-- What is read as a zone is its text. -/
theorem text_of_ofText? (h : ofText? s = some z) : z.text = s ∧ z.Writable := by
  unfold ofText? at h
  split at h
  · rename_i d device first zone hspan
    obtain ⟨hjoin, hcolon⟩ := append_of_span hspan
    cases h
    refine ⟨String.toList_inj.mp ?_, ?_, ?_, ?_⟩
    · rw [toList_text, String.toList_ofList, String.toList_ofList, hjoin]
    · simp
    · rw [String.toList_ofList]
      exact hcolon
    · simp
  · cases h

/-- The text of a zone is read as the zone, if its names can be told apart. -/
theorem Writable.ofText?_text (h : z.Writable) : ofText? z.text = some z := by
  obtain ⟨device, zone⟩ := z
  obtain ⟨hdevice, hcolon, hzone⟩ := h
  obtain ⟨d, ds, hd⟩ := List.exists_cons_of_ne_nil (mt String.toList_eq_nil_iff.mp hdevice)
  obtain ⟨c, cs, hc⟩ := List.exists_cons_of_ne_nil (mt String.toList_eq_nil_iff.mp hzone)
  unfold ofText?
  rw [toList_text, span_append_cons hcolon]
  simp only [hd, hc]
  rw [← hd, ← hc, String.ofList_toList, String.ofList_toList]

/-- Zones whose names can be told apart have texts of their own. -/
theorem Writable.text_inj (hz : z.Writable) (hw : w.Writable) (h : z.text = w.text) : z = w := by
  have hread := hz.ofText?_text
  rw [h, hw.ofText?_text] at hread
  exact (Option.some.inj hread).symm

end ZoneRef

namespace Json.Slot

variable {α : Type} {value : Decoder α}

theorem required_eq_some {slot : Slot} {a : α} (h : slot.required value = some a) :
    ∃ v, slot = present v ∧ value v = some a := by
  cases slot with
  | present v => exact ⟨v, rfl, h⟩
  | absent => cases h
  | cutOff => cases h

/-- A field that need not be written is worth some value, null if need be. -/
theorem optional_eq_some {slot : Slot} {a : Option α} (h : slot.optional value = some a) :
    ∃ v, nullable? value v = some a := by
  cases slot with
  | present v => exact ⟨v, h⟩
  | absent => exact ⟨.null, h⟩
  | cutOff => exact ⟨.null, h⟩

end Json.Slot

namespace FlowQuery

/-- The same question about other zones. -/
def between (q : FlowQuery) (source destination : Option ZoneRef) : FlowQuery :=
  ⟨q.source, q.destination, q.protocol, q.port, source, destination⟩

/-- A zone, if one is named, has a name that can be read. -/
def Readable (zone : Option ZoneRef) : Prop := ∀ z ∈ zone, z.Writable

theorem readable_of_optional {slot : Json.Slot} {zone : Option ZoneRef}
    (h : slot.optional ZoneRef.ofJson? = some zone) : Readable zone := by
  obtain ⟨v, hv⟩ := Json.Slot.optional_eq_some h
  rintro z rfl
  unfold Json.nullable? at hv
  split at hv
  · cases hv
  · obtain ⟨z', hz', hsome⟩ := Option.map_eq_some_iff.mp hv
    cases hsome
    obtain ⟨s, hs⟩ := Json.exists_of_parsed? hz'
    exact (ZoneRef.text_of_ofText? hs).2

theorem optional_of_readable {zone : Option ZoneRef} (h : Readable zone) :
    (Json.Slot.present (Json.ofOption ZoneRef.toJson zone)).optional ZoneRef.ofJson? =
      some zone := by
  cases zone with
  | none => rfl
  | some z =>
    have hread : ZoneRef.ofJson? z.toJson = some z := by
      rw [ZoneRef.ofJson?, ZoneRef.toJson, Json.parsed?_ofText]
      exact (h z rfl).ofText?_text
    have hslot : (Json.Slot.present (Json.ofOption ZoneRef.toJson (some z))).optional
        ZoneRef.ofJson? = (ZoneRef.ofJson? z.toJson).map some := rfl
    rw [hslot, hread]
    rfl

/-- The parts of a question are what the fields of its document say. -/
theorem ofJson?_eq_some_iff {v : Json} {q : FlowQuery} :
    ofJson? v = some q ↔ ∃ source destination protocol port sourceZone destinationZone,
      Json.slots? ["source", "destination", "protocol", "port", "source_zone",
        "destination_zone"] v =
          some [source, destination, protocol, port, sourceZone, destinationZone] ∧
      source.required Address.ofJson? = some q.source ∧
      destination.required Address.ofJson? = some q.destination ∧
      protocol.required Protocol.ofJson? = some q.protocol ∧
      port.optional Json.uint16? = some q.port ∧
      sourceZone.optional ZoneRef.ofJson? = some q.sourceZone ∧
      destinationZone.optional ZoneRef.ofJson? = some q.destinationZone := by
  unfold ofJson?
  constructor
  · intro h
    obtain ⟨slots, hslots, h⟩ := Option.bind_eq_some_iff.mp h
    split at h
    · rename_i source destination protocol port sourceZone destinationZone
      obtain ⟨_, hsource, h⟩ := Option.bind_eq_some_iff.mp h
      obtain ⟨_, hdestination, h⟩ := Option.bind_eq_some_iff.mp h
      obtain ⟨_, hprotocol, h⟩ := Option.bind_eq_some_iff.mp h
      obtain ⟨_, hport, h⟩ := Option.bind_eq_some_iff.mp h
      obtain ⟨_, hsourceZone, h⟩ := Option.bind_eq_some_iff.mp h
      obtain ⟨_, hdestinationZone, h⟩ := Option.bind_eq_some_iff.mp h
      cases h
      exact ⟨_, _, _, _, _, _, hslots, hsource, hdestination, hprotocol, hport, hsourceZone,
        hdestinationZone⟩
    · cases h
  · rintro ⟨source, destination, protocol, port, sourceZone, destinationZone, hslots, hsource,
      hdestination, hprotocol, hport, hsourceZone, hdestinationZone⟩
    simp [hslots, hsource, hdestination, hprotocol, hport, hsourceZone, hdestinationZone]

/-- A document that asks a question, made up of the values of its fields. -/
def document (source destination protocol port : Json) (sourceZone destinationZone : Option ZoneRef) :
    Json :=
  .record [("source", source), ("destination", destination), ("protocol", protocol), ("port", port),
    ("source_zone", Json.ofOption ZoneRef.toJson sourceZone),
    ("destination_zone", Json.ofOption ZoneRef.toJson destinationZone)]

theorem slots?_document (source destination protocol port : Json)
    (sourceZone destinationZone : Option ZoneRef) :
    Json.slots? ["source", "destination", "protocol", "port", "source_zone", "destination_zone"]
        (document source destination protocol port sourceZone destinationZone) =
      some [.present source, .present destination, .present protocol, .present port,
        .present (Json.ofOption ZoneRef.toJson sourceZone),
        .present (Json.ofOption ZoneRef.toJson destinationZone)] := by
  have hnames : ["source", "destination", "protocol", "port", "source_zone",
      "destination_zone"].Nodup := by decide
  exact Json.slots?_record hnames

theorem readable_of_document {v : Json} {q : FlowQuery} (h : ofJson? v = some q) :
    Readable q.sourceZone ∧ Readable q.destinationZone := by
  obtain ⟨_, _, _, _, _, _, _, _, _, _, _, hsource, hdestination⟩ := ofJson?_eq_some_iff.mp h
  exact ⟨readable_of_optional hsource, readable_of_optional hdestination⟩

/-- Where a document asks a question, another asks it about other zones that can be
read. -/
theorem exists_document {v : Json} {q : FlowQuery} (h : ofJson? v = some q)
    {source destination : Option ZoneRef} (hsource : Readable source)
    (hdestination : Readable destination) :
    ∃ v', ofJson? v' = some (q.between source destination) := by
  obtain ⟨_, _, _, _, _, _, _, hfrom, hto, hover, hport, _, _⟩ := ofJson?_eq_some_iff.mp h
  obtain ⟨sourceJson, rfl, hfrom⟩ := Json.Slot.required_eq_some hfrom
  obtain ⟨destinationJson, rfl, hto⟩ := Json.Slot.required_eq_some hto
  obtain ⟨protocolJson, rfl, hover⟩ := Json.Slot.required_eq_some hover
  obtain ⟨portJson, hport⟩ := Json.Slot.optional_eq_some hport
  have hslots := slots?_document sourceJson destinationJson protocolJson portJson source destination
  exact ⟨_, ofJson?_eq_some_iff.mpr ⟨_, _, _, _, _, _, hslots, hfrom, hto, hover, hport,
    optional_of_readable hsource, optional_of_readable hdestination⟩⟩

end FlowQuery

namespace CommandLine

variable {values : List (Flag × String)} {source destination : Option ZoneRef}

/-- The values of options, those of the zones replaced. Texts that say nothing are
left out, since they would keep the arguments from being read. -/
def revalued (values : List (Flag × String)) (source destination : Option ZoneRef) :
    Flag → Option String
  | .sourceZone => source.map ZoneRef.text
  | .destinationZone => destination.map ZoneRef.text
  | f => (values.lookup f).filter f.accepts

theorem bind_text {zone : Option ZoneRef} (h : FlowQuery.Readable zone) :
    (zone.map ZoneRef.text).bind ZoneRef.ofText? = zone := by
  cases zone with
  | none => rfl
  | some z => exact (h z rfl).ofText?_text

theorem accepts_revalued (hsource : FlowQuery.Readable source)
    (hdestination : FlowQuery.Readable destination) (f : Flag) (value : String)
    (h : revalued values source destination f = some value) : f.accepts value = true := by
  have hzone : ∀ {zone : Option ZoneRef}, FlowQuery.Readable zone →
      zone.map ZoneRef.text = some value → (ZoneRef.ofText? value).isSome = true := by
    intro zone hzone hvalue
    obtain ⟨z, hz, rfl⟩ := Option.map_eq_some_iff.mp hvalue
    rw [(hzone z hz).ofText?_text]
    rfl
  cases f with
  | sourceZone => exact hzone hsource h
  | destinationZone => exact hzone hdestination h
  | _ => exact (Option.filter_eq_some_iff.mp h).2

/-- Nothing is lost with the texts that could not be read. -/
theorem bind_filter {α : Type} {text : Option String} {accepts : String → Bool}
    {read? : String → Option α} (h : ∀ s, accepts s = (read? s).isSome) :
    (text.filter accepts).bind read? = text.bind read? := by
  cases text with
  | none => rfl
  | some s =>
    cases hread : read? s with
    | none => simp [Option.filter, h, hread]
    | some a => simp [Option.filter, h, hread]

/-- Where arguments ask a question, others ask it about other zones that can be read. -/
theorem exists_arguments {q : FlowQuery} (h : Invocation.query? values = some q)
    (hsource : FlowQuery.Readable source) (hdestination : FlowQuery.Readable destination) :
    ∃ args inv, Invocation.ofArguments args = .ok inv ∧
      inv.action = .query (q.between source destination) := by
  obtain ⟨hfrom, hto, hover, hport, _, _⟩ := Invocation.query?_eq_some_iff.mp h
  have hprotocol : ((values.lookup .protocol).filter (Flag.accepts .protocol)).bind
      Protocol.ofText? = (values.lookup .protocol).bind Protocol.ofText? := bind_filter fun _ => rfl
  have hquery : Invocation.query? (tabulate (revalued values source destination)) =
      some (q.between source destination) := by
    rw [Invocation.query?_eq_some_iff]
    repeat rw [lookup_tabulate (by decide)]
    refine ⟨?_, ?_, ?_, ?_, bind_text hsource, bind_text hdestination⟩
    · exact (bind_filter fun _ => rfl).trans hfrom
    · exact (bind_filter fun _ => rfl).trans hto
    · have hkept := congrArg (Option.getD · Protocol.tcp) hprotocol
      exact hkept.trans hover
    · exact (bind_filter fun _ => rfl).trans hport
  have hvalid : Valid (tabulate (revalued values source destination)) :=
    valid_tabulate (accepts_revalued hsource hdestination)
  obtain ⟨inv, hinv, haction⟩ := Invocation.ofArguments_query hvalid hquery
  exact ⟨_, inv, hinv, haction⟩

end CommandLine

/-- The ways to ask a question. -/
inductive Channel where
  | document
  | commandLine

/-- A question is asked by some document, or by some arguments. -/
def FlowQuery.AskedBy : Channel → FlowQuery → Prop
  | .document, q => ∃ v, ofJson? v = some q
  | .commandLine, q => ∃ args inv, CommandLine.Invocation.ofArguments args = .ok inv ∧
      inv.action = .query q

namespace FlowQuery

variable {channel : Channel} {q : FlowQuery}

/-- Questions only name zones that can be read. -/
theorem AskedBy.readable (h : q.AskedBy channel) :
    Readable q.sourceZone ∧ Readable q.destinationZone := by
  cases channel with
  | document =>
    obtain ⟨v, hv⟩ := h
    exact readable_of_document hv
  | commandLine =>
    obtain ⟨args, inv, hinv, haction⟩ := h
    obtain ⟨values, hvalues⟩ := CommandLine.Invocation.exists_values hinv haction
    obtain ⟨_, _, _, _, hsource, hdestination⟩ :=
      CommandLine.Invocation.query?_eq_some_iff.mp hvalues
    have hread : ∀ {text : Option String} {zone : Option ZoneRef},
        text.bind ZoneRef.ofText? = zone → Readable zone := by
      rintro text _ rfl z hz
      obtain ⟨s, _, hs⟩ := Option.bind_eq_some_iff.mp hz
      exact (ZoneRef.text_of_ofText? hs).2
    exact ⟨hread hsource, hread hdestination⟩

/-- A question can be asked about whatever zones can be read. -/
theorem AskedBy.between (h : q.AskedBy channel) {source destination : Option ZoneRef}
    (hsource : Readable source) (hdestination : Readable destination) :
    (q.between source destination).AskedBy channel := by
  cases channel with
  | document =>
    obtain ⟨v, hv⟩ := h
    exact exists_document hv hsource hdestination
  | commandLine =>
    obtain ⟨args, inv, hinv, haction⟩ := h
    obtain ⟨values, hvalues⟩ := CommandLine.Invocation.exists_values hinv haction
    exact CommandLine.exists_arguments hvalues hsource hdestination

end FlowQuery

/-- Some question can be asked in each way. -/
theorem FlowQuery.exists_askedBy (channel : Channel) : ∃ q : FlowQuery, q.AskedBy channel := by
  obtain ⟨s, a, hread⟩ : ∃ s a, Address.ofText? s = some a :=
    ⟨"0.0.0.0", ⟨.v4, 0, Nat.zero_le _⟩, by decide +kernel⟩
  cases channel with
  | document =>
    have haddress : Address.ofJson? (.ofText s) = some a := by
      rw [Address.ofJson?, Json.parsed?_ofText, hread]
    have hprotocol : Protocol.ofJson? (.ofText "tcp") = some .tcp := by
      rw [Protocol.ofJson?, Json.parsed?_ofText]
      decide +kernel
    have hslots := slots?_document (.ofText s) (.ofText s) (.ofText "tcp") .null none none
    exact ⟨⟨a, a, .tcp, none, none, none⟩, _, ofJson?_eq_some_iff.mpr ⟨_, _, _, _, _, _, hslots,
      haddress, haddress, hprotocol, rfl, rfl, rfl⟩⟩
  | commandLine =>
    have hvalid : CommandLine.Valid [(.source, s), (.destination, s)] := by
      have hdistinct : [CommandLine.Flag.source, CommandLine.Flag.destination].Nodup := by decide
      refine ⟨?_, hdistinct⟩
      simp [CommandLine.Flag.accepts, hread]
    have hquery : CommandLine.Invocation.query? [(.source, s), (.destination, s)] =
        some ⟨a, a, .tcp, none, none, none⟩ :=
      CommandLine.Invocation.query?_eq_some_iff.mpr ⟨hread, hread, rfl, rfl, rfl, rfl⟩
    obtain ⟨inv, hinv, haction⟩ := CommandLine.Invocation.ofArguments_query hvalid hquery
    exact ⟨_, _, inv, hinv, haction⟩

/-- What can be done with a node by the name of its zone: its text is read as its
zone, some question names it at both ends, and every question that is asked in some way
can be asked with the node as its source, and as its destination. -/
structure Graph.Named (g : Graph) (i : Fin g.size) : Prop where
  parses : ZoneRef.ofText? (g.zone i).text = some (g.zone i)
  asked : ∀ channel, ∃ q : FlowQuery, q.AskedBy channel ∧ q.sourceZone = some (g.zone i) ∧
    q.destinationZone = some (g.zone i)
  asSource : ∀ channel (q : FlowQuery), q.AskedBy channel →
    (q.between (some (g.zone i)) q.destinationZone).AskedBy channel
  asDestination : ∀ channel (q : FlowQuery), q.AskedBy channel →
    (q.between q.sourceZone (some (g.zone i))).AskedBy channel
  located : ∀ a, g.locate a (some (g.zone i)) = .ok i

/-- No text is read as the zone of a node, and no question names it. -/
structure Graph.Nameless (g : Graph) (i : Fin g.size) : Prop where
  unread : ∀ text, ZoneRef.ofText? text ≠ some (g.zone i)
  unasked : ∀ channel (q : FlowQuery), q.AskedBy channel →
    q.sourceZone ≠ some (g.zone i) ∧ q.destinationZone ≠ some (g.zone i)

/-- The names of all zones of a snapshot can be told apart from those of devices. -/
def Snapshot.NamesWritable (s : Snapshot) : Prop :=
  ∀ d ∈ s.devices, ∀ z ∈ d.zones, (⟨d.id, z.name⟩ : ZoneRef).Writable

namespace Graph

variable {g : Graph} {i : Fin g.size}

theorem named_of_writable (hdistinct : Function.Injective g.zone) (h : (g.zone i).Writable) :
    g.Named i := by
  have hreadable : FlowQuery.Readable (some (g.zone i)) := by
    rintro z hz
    cases hz
    exact h
  refine ⟨h.ofText?_text, ?_, ?_, ?_, locate_zone hdistinct i⟩
  · intro channel
    obtain ⟨q, hq⟩ := FlowQuery.exists_askedBy channel
    exact ⟨_, hq.between hreadable hreadable, rfl, rfl⟩
  · intro channel q hq
    exact hq.between hreadable hq.readable.2
  · intro channel q hq
    exact hq.between hq.readable.1 hreadable

theorem nameless_of_not_writable (h : ¬(g.zone i).Writable) : g.Nameless i := by
  constructor
  · intro text hread
    exact h (ZoneRef.text_of_ofText? hread).2
  · intro channel q hq
    exact ⟨fun hz => h (hq.readable.1 _ hz), fun hz => h (hq.readable.2 _ hz)⟩

/-- Zones whose names can be read are exported under distinct texts. -/
theorem nodup_texts (hdistinct : (g.nodes.toList.map (·.zone)).Nodup)
    (hwritable : ∀ i, (g.zone i).Writable) :
    (g.toExport.nodes.map (·.zone.text)).Nodup := by
  have hzones : ∀ z ∈ g.nodes.toList.map (·.zone), z.Writable := by
    intro z hz
    obtain ⟨n, hn, rfl⟩ := List.mem_map.mp hz
    obtain ⟨i, rfl⟩ := exists_node hn
    exact hwritable i
  have htexts := hdistinct.map_on fun z hz w hw => (hzones z hz).text_inj (hzones w hw)
  rw [List.map_map] at htexts
  exact htexts

end Graph

namespace Engine

variable {s : Snapshot} {config : EngineConfig} {e : Engine}

/-- Which zones can be named. In a loaded engine, a node can be named wherever it is
asked for if the names of its device and its zone can be told apart in a text, and
nowhere if they cannot. When they can for all zones of the snapshot, all nodes are
named, and exported under distinct texts. -/
theorem nodes_named_or_nameless (hload : load s config = .ok e) :
    (∀ i, (e.graph.zone i).Writable → e.graph.Named i) ∧
      (∀ i, ¬(e.graph.zone i).Writable → e.graph.Nameless i) ∧
      ((∀ i, (e.graph.zone i).Writable) ↔ s.NamesWritable) ∧
      (s.NamesWritable → (e.graph.toExport.nodes.map (·.zone.text)).Nodup) := by
  obtain ⟨hresolve, hbuild⟩ := load_eq_ok_iff.mp hload
  obtain ⟨hfault, _, _, _, _, _, _, hresolved⟩ := Snapshot.resolve_eq_ok_iff.mp hresolve
  have hunderlies := Snapshot.underlies_of_resolve hresolve
  have hvalid : e.resolved.snapshot.fault? = none := by rw [hunderlies.same, hfault]
  have hnodes := Graph.nodes_of_build hbuild
  have hdistinct := Graph.zone_injective hbuild hvalid
  have hall : (∀ i, (e.graph.zone i).Writable) ↔ s.NamesWritable := by
    constructor
    · intro h d hd z hz
      have hdeclared : s.Declares ⟨d.id, z.name⟩ := ⟨d, hd, rfl, List.mem_map_of_mem hz⟩
      obtain ⟨n, hn, hzone⟩ := List.mem_map.mp ((hunderlies.nodes _).mpr hdeclared)
      obtain ⟨i, rfl⟩ := Graph.exists_node (hnodes ▸ hn)
      exact hzone ▸ h i
    · intro h i
      have hn : e.graph.zone i ∈ e.resolved.nodes.map (·.zone) :=
        List.mem_map_of_mem (hnodes ▸ Graph.node_mem i)
      obtain ⟨d, hd, hid, hname⟩ := (hunderlies.nodes _).mp hn
      obtain ⟨z, hz, hzone⟩ := List.mem_map.mp hname
      have hwritable := h d hd z hz
      rw [hid, hzone] at hwritable
      exact hwritable
  refine ⟨fun i => Graph.named_of_writable hdistinct, fun i => Graph.nameless_of_not_writable, hall,
    fun h => Graph.nodup_texts ?_ (hall.mpr h)⟩
  rw [hnodes]
  exact ResolvedSnapshot.nodup_zones hvalid

/-- Two devices of one zone each, with texts that differ. -/
def paired : Snapshot where
  toolRunId := none
  devices := [⟨"edge", [], [⟨"lan", [], none⟩], [], [], []⟩,
    ⟨"core", [], [⟨"lan", [], none⟩], [], [], []⟩]
  networkBooks := []
  serviceBooks := []

private def bareDevices (s : Snapshot) : List ResolvedDevice := s.devices.map fun d => ⟨d.id, [], []⟩

private def bareResolved (s : Snapshot) : ResolvedSnapshot := ⟨s, s.digest, .empty, bareDevices s⟩

private def bareEngine (s : Snapshot) : Engine := ⟨bareResolved s, .ofArcs (bareResolved s).nodes []⟩

private def namingConfig : EngineConfig := ⟨.explicitOnly, false, false⟩

private theorem paired_load : load paired namingConfig = .ok (bareEngine paired) := by
  have hresolve : paired.resolve false = .ok (bareResolved paired) :=
    Snapshot.resolve_eq_ok_iff.mpr ⟨by decide, ⟨.empty, .empty⟩, .empty,
      (bareDevices paired).map (·, .empty), rfl, rfl, rfl, rfl⟩
  exact load_eq_ok_iff.mpr ⟨hresolve, rfl⟩

theorem paired_named : ∃ e, load paired namingConfig = .ok e ∧ (∀ i, e.graph.Named i) ∧
    (e.graph.toExport.nodes.map (·.zone.text)).Nodup := by
  obtain ⟨hnamed, _, hwritable, hnodup⟩ := nodes_named_or_nameless paired_load
  have hnames : paired.NamesWritable := by
    unfold Snapshot.NamesWritable
    decide
  exact ⟨_, paired_load, fun i => hnamed i (hwritable.mpr hnames i), hnodup hnames⟩

/-- Two devices of one zone each, where the one has a colon in its name and the other
in that of its zone. -/
def confused : Snapshot where
  toolRunId := none
  devices := [⟨"a:b", [], [⟨"c", [], none⟩], [], [], []⟩, ⟨"a", [], [⟨"b:c", [], none⟩], [], [], []⟩]
  networkBooks := []
  serviceBooks := []

/-- The snapshot loads, but both nodes are exported under one text. It is read as the
zone of the second one, and no text is read as that of the first. -/
theorem confused_texts :
    ∃ e, load confused namingConfig = .ok e ∧ ∃ i j : Fin e.graph.size, i ≠ j ∧
      e.graph.zone i = ⟨"a:b", "c"⟩ ∧ e.graph.zone j = ⟨"a", "b:c"⟩ ∧
      e.graph.toExport.nodes.map (·.zone.text) = ["a:b:c", "a:b:c"] ∧
      ZoneRef.ofText? (e.graph.zone i).text = some (e.graph.zone j) ∧
      ∀ channel (q : FlowQuery), q.AskedBy channel → q.sourceZone ≠ some (e.graph.zone i) := by
  have hresolve : confused.resolve false = .ok (bareResolved confused) :=
    Snapshot.resolve_eq_ok_iff.mpr ⟨by decide, ⟨.empty, .empty⟩, .empty,
      (bareDevices confused).map (·, .empty), rfl, rfl, rfl, rfl⟩
  have hload : load confused namingConfig = .ok (bareEngine confused) :=
    load_eq_ok_iff.mpr ⟨hresolve, rfl⟩
  refine ⟨_, hload, ⟨0, by decide⟩, ⟨1, by decide⟩, by decide, rfl, rfl, by decide, by decide, ?_⟩
  intro channel q hq hsource
  have hwritable : (⟨"a:b", "c"⟩ : ZoneRef).Writable := hq.readable.1 _ hsource
  exact absurd hwritable (by decide)

end Engine

end Perimeter
