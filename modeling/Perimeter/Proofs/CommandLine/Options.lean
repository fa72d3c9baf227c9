import Mathlib.Data.List.TakeDrop
import Mathlib.Data.List.TakeWhile
import Perimeter.CommandLine.Arguments
import Perimeter.Proofs.Checked

/-!
Options as a query command reads them. Every option can be given under its long
name with its value behind an equals sign, whatever characters the value has, and
a list of such arguments is read as what it says. So a question can be asked on
the command line just when texts for its parts can be.
-/

namespace Perimeter

/-- A text is parted before the first of some character. -/
theorem span_append_cons {c : Char} {xs : List Char} (h : c ∉ xs) (ys : List Char) :
    (xs ++ c :: ys).span (· ≠ c) = (xs, c :: ys) := by
  have hbefore : ∀ x ∈ xs, decide (x ≠ c) = true := by
    intro x hx
    exact decide_eq_true fun heq => h (heq ▸ hx)
  rw [List.span_eq_takeWhile_dropWhile, List.takeWhile_append_of_pos hbefore,
    List.dropWhile_append_of_pos hbefore]
  simp

/-- The parts make up the text, and the character is not in the first of them. -/
theorem append_of_span {c : Char} {cs xs ys : List Char} (h : cs.span (· ≠ c) = (xs, ys)) :
    xs ++ ys = cs ∧ c ∉ xs := by
  rw [List.span_eq_takeWhile_dropWhile] at h
  obtain ⟨rfl, rfl⟩ := Prod.mk.inj h
  refine ⟨List.takeWhile_append_dropWhile, ?_⟩
  intro hmem
  have hne := List.mem_takeWhile_imp hmem
  simp at hne

namespace CommandLine

namespace Flag

/-- The name of an option behind two hyphens. -/
def longName : Flag → String
  | snapshot => "snapshot"
  | config => "config"
  | source => "src"
  | destination => "dst"
  | protocol => "proto"
  | port => "port"
  | sourceZone => "src-zone"
  | destinationZone => "dst-zone"

theorem equals_not_mem_longName (f : Flag) : '=' ∉ f.longName.toList := by
  cases f <;> decide

/-- An argument that gives an option a value. -/
def assign (f : Flag) (value : String) : String := "--" ++ f.longName ++ "=" ++ value

theorem toList_assign (f : Flag) (value : String) :
    (f.assign value).toList = '-' :: '-' :: (f.longName.toList ++ '=' :: value.toList) := by
  simp [assign]

end Flag

namespace Level

variable {l : Level} {f : Flag} {value : String}

theorem settle_of_idle (hidle : l.pending = none) : l.settle = .ok l := by
  rw [settle, hidle]

/-- An option takes a value that it accepts, unless it has one. -/
theorem store_eq_ok (hnew : l.values.lookup f = none) (haccepts : f.accepts value = true) :
    l.store f value = .ok ⟨l.values ++ [(f, value)], l.logsJson, none⟩ := by
  simp [store, hnew, haccepts]

/-- The first equals sign parts the name of an option from its value. -/
theorem takeLong_assigned (l : Level) (f : Flag) (value : String) :
    l.takeLong (some .query) (f.longName.toList ++ '=' :: value.toList) =
      l.takeFlag f (some value) := by
  have hspan := span_append_cons f.equals_not_mem_longName value.toList
  unfold takeLong
  simp only [hspan, List.tail?_cons, Option.map_some, String.ofList_toList]
  cases f <;> rfl

theorem take_assigned (hidle : l.pending = none) (hnew : l.values.lookup f = none)
    (haccepts : f.accepts value = true) :
    l.take (some .query) (f.assign value) =
      .ok ⟨l.values ++ [(f, value)], l.logsJson, none⟩ := by
  have htake : l.take (some .query) (f.assign value) = l.takeFlag f (some value) := by
    rw [take, Flag.toList_assign]
    exact takeLong_assigned l f value
  rw [htake, takeFlag, settle_of_idle hidle]
  exact store_eq_ok hnew haccepts

end Level

/-- Arguments that give options values. -/
def assignments (values : List (Flag × String)) : List String :=
  values.map fun (f, value) => f.assign value

/-- Values that options can have: each accepts its own, and none has two. -/
structure Valid (values : List (Flag × String)) : Prop where
  accepted : ∀ p ∈ values, p.1.accepts p.2 = true
  distinct : (values.map (·.1)).Nodup

/-- What the arguments after a command say is what is read of them. -/
theorem readOptions_assignments {values : List (Flag × String)} (h : Valid values) {l : Level}
    (hidle : l.pending = none) (hnew : ∀ p ∈ values, l.values.lookup p.1 = none) :
    readOptions .query l (assignments values) =
      .ok ⟨l.values ++ values, l.logsJson, none⟩ := by
  induction values generalizing l with
  | nil =>
    rw [List.append_nil, ← hidle]
    exact Level.settle_of_idle hidle
  | cons p rest ih =>
    obtain ⟨haccepted, hothers⟩ := List.forall_mem_cons.mp h.accepted
    obtain ⟨hoff, hdistinct⟩ := List.nodup_cons.mp h.distinct
    have htake := Level.take_assigned hidle (hnew p List.mem_cons_self) haccepted
    have hread : readOptions .query l (assignments (p :: rest)) =
        (l.take (some .query) (p.1.assign p.2)).bind (readOptions .query · (assignments rest)) := by
      have hlong : p.1.assign p.2 ≠ "--" := by
        intro heq
        have hlength := congrArg (·.toList.length) heq
        simp [Flag.toList_assign] at hlength
      exact readOptions.eq_3 _ _ _ _ fun heq => absurd heq hlong
    rw [hread, htake]
    have hlater : ∀ q ∈ rest, (l.values ++ [p]).lookup q.1 = none := by
      intro q hq
      have hne : q.1 ≠ p.1 := fun heq => hoff (List.mem_map.mpr ⟨q, hq, heq⟩)
      rw [List.lookup_append, hnew q (List.mem_cons_of_mem _ hq)]
      simp [hne]
    have hrest := ih ⟨hothers, hdistinct⟩ (l := ⟨l.values ++ [p], l.logsJson, none⟩) rfl hlater
    rw [List.append_assoc] at hrest
    exact hrest

/-- The options that a question is made up of. -/
def Flag.asked : List Flag := [source, destination, protocol, port, sourceZone, destinationZone]

/-- The values that a table has for the options of a question. -/
def tabulate (table : Flag → Option String) : List (Flag × String) :=
  Flag.asked.filterMap fun f => (table f).map (f, ·)

variable {table : Flag → Option String}

theorem lookup_filterMap (f : Flag) (flags : List Flag) :
    (flags.filterMap fun f => (table f).map (f, ·)).lookup f =
      if f ∈ flags then table f else none := by
  induction flags with
  | nil => rfl
  | cons first rest ih =>
    by_cases hfirst : f = first
    · subst hfirst
      cases hvalue : table f with
      | none => simp [hvalue, ih]
      | some value => simp [hvalue]
    · cases hvalue : table first with
      | none => simp [hvalue, ih, hfirst]
      | some value => simp [hvalue, List.lookup_cons, ih, hfirst, beq_eq_false_iff_ne.mpr hfirst]

theorem lookup_tabulate {f : Flag} (hf : f ∈ Flag.asked) : (tabulate table).lookup f = table f := by
  rw [tabulate, lookup_filterMap, if_pos hf]

/-- A table of values that their options accept can be given to a query. -/
theorem valid_tabulate (h : ∀ f value, table f = some value → f.accepts value = true) :
    Valid (tabulate table) := by
  constructor
  · intro p hp
    obtain ⟨f, _, hentry⟩ := List.mem_filterMap.mp hp
    obtain ⟨value, hvalue, rfl⟩ := Option.map_eq_some_iff.mp hentry
    exact h f value hvalue
  · have hsublist : ∀ flags : List Flag,
        ((flags.filterMap fun f => (table f).map (f, ·)).map (·.1)).Sublist flags := by
      intro flags
      induction flags with
      | nil => exact .slnil
      | cons f rest ih =>
        cases hvalue : table f with
        | none => simpa [hvalue] using ih.cons f
        | some value => simpa [hvalue] using ih
    exact (hsublist Flag.asked).nodup (by decide)

namespace Invocation

variable {values : List (Flag × String)} {q : FlowQuery}

/-- The parts of a question are what the texts of its options say. -/
theorem query?_eq_some_iff :
    query? values = some q ↔
      (values.lookup .source).bind Address.ofText? = some q.source ∧
      (values.lookup .destination).bind Address.ofText? = some q.destination ∧
      ((values.lookup .protocol).bind Protocol.ofText?).getD .tcp = q.protocol ∧
      (values.lookup .port).bind Flag.readPort? = q.port ∧
      (values.lookup .sourceZone).bind ZoneRef.ofText? = q.sourceZone ∧
      (values.lookup .destinationZone).bind ZoneRef.ofText? = q.destinationZone := by
  obtain ⟨source, destination, protocol, port, sourceZone, destinationZone⟩ := q
  simp [query?, Option.bind_eq_some_iff]

/-- Values that make up a question, given to a query command, ask it. -/
theorem ofArguments_query (h : Valid values) (hq : query? values = some q) :
    ∃ inv, ofArguments ("query" :: assignments values) = .ok inv ∧ inv.action = .query q := by
  have hoptions : readOptions .query .empty (assignments values) = .ok ⟨values, false, none⟩ :=
    readOptions_assignments h rfl fun _ _ => rfl
  have hcommand : readCommand .empty ("query" :: assignments values) =
      .ok (.empty, .query, ⟨values, false, none⟩) := by
    have hread : readCommand .empty ("query" :: assignments values) =
        (readOptions .query .empty (assignments values)).bind fun own =>
          .ok (.empty, .query, own) := rfl
    rw [hread, hoptions]
    rfl
  unfold ofArguments
  rw [hcommand]
  simp only [bind, Except.bind, hq]
  exact ⟨_, rfl, rfl⟩

/-- A question asked on the command line is made up of values of options. -/
theorem exists_values {args : List String} {inv : Invocation} (h : ofArguments args = .ok inv)
    (hq : inv.action = .query q) : ∃ values, query? values = some q := by
  obtain ⟨⟨before, command, after⟩, _, h⟩ := bind_eq_ok.mp h
  cases command with
  | validate =>
    cases h
    cases hq
  | graph =>
    cases h
    cases hq
  | query =>
    cases hvalues : query? after.values with
    | none =>
      simp only [hvalues] at h
      cases h
    | some q' =>
      simp only [hvalues] at h
      cases h
      cases hq
      exact ⟨after.values, hvalues⟩

end Invocation

end CommandLine

end Perimeter
