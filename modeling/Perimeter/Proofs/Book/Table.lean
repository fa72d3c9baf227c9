import Mathlib.Data.List.Nodup
import Mathlib.Data.List.Perm.Basic
import Perimeter.Book.Table
import Perimeter.Proofs.Checked

/-!
Tables of resolved books as maps: what they have under a key after an insertion
or after another table was taken over, and for which keys they have something.
-/

namespace Perimeter

namespace Table

variable {Set : Type}

/-- Where both tables have a set, that of the table which is taken over counts. -/
theorem find?_merge (t u : Table Set) (key : BookKey) :
    (t.merge u).find? key = (u.find? key).or (t.find? key) := by
  obtain ⟨entries⟩ := u
  induction entries with
  | nil => rfl
  | cons entry rest ih =>
    change ((t.merge ⟨rest⟩).insert entry.1 entry.2).find? key = _
    rw [find?_insert, ih]
    by_cases h : key = entry.1
    · simp [find?, h]
    · have hother : ¬entry.1 = key := fun hkey => h hkey.symm
      simp [find?, h, hother]

/-- The keys that a table has sets for. -/
def keys (t : Table Set) : List BookKey := t.entries.map (·.1)

theorem mem_keys_iff {t : Table Set} {key : BookKey} :
    key ∈ t.keys ↔ ∃ set, t.find? key = some set := by
  have hsome : key ∈ t.keys ↔ (t.find? key).isSome = true := by
    simp [keys, find?]
  rw [hsome, Option.isSome_iff_exists]

theorem not_mem_keys_iff {t : Table Set} {key : BookKey} :
    key ∉ t.keys ↔ t.find? key = none := by
  rw [mem_keys_iff, ← Option.isSome_iff_exists, Bool.not_eq_true, Option.isSome_eq_false_iff,
    Option.isNone_iff_eq_none]

theorem mem_keys_of_find? {t : Table Set} {key : BookKey} {set : Set}
    (h : t.find? key = some set) : key ∈ t.keys :=
  mem_keys_iff.mpr ⟨set, h⟩

@[simp] theorem not_mem_keys_empty {key : BookKey} : key ∉ (empty : Table Set).keys :=
  List.not_mem_nil

@[simp] theorem mem_keys_insert {t : Table Set} {key other : BookKey} {s : Set} :
    other ∈ (t.insert key s).keys ↔ other = key ∨ other ∈ t.keys := by
  rw [mem_keys_iff, find?_insert, mem_keys_iff]
  by_cases h : other = key
  · simp [h]
  · simp [h]

theorem nodup_keys_insert {t : Table Set} (h : t.keys.Nodup) (key : BookKey) (s : Set) :
    (t.insert key s).keys.Nodup := by
  have hothers : (t.insert key s).keys = key :: t.keys.filter (· != key) := by
    simp [keys, insert, List.filter_map, Function.comp_def]
  rw [hothers]
  exact List.nodup_cons.mpr ⟨by simp, h.filter _⟩

theorem mem_keys_merge {t u : Table Set} {key : BookKey} :
    key ∈ (t.merge u).keys ↔ key ∈ t.keys ∨ key ∈ u.keys := by
  simp only [mem_keys_iff, find?_merge]
  cases u.find? key <;> simp

/-- No key of one table is a key of the other. -/
def Apart (t u : Table Set) : Prop := ∀ key ∈ t.keys, key ∉ u.keys

theorem Apart.symm {t u : Table Set} (h : t.Apart u) : u.Apart t :=
  fun key hu ht => h key ht hu

theorem find?_eq_some_iff {t : Table Set} (h : t.keys.Nodup) {key : BookKey} {set : Set} :
    t.find? key = some set ↔ (key, set) ∈ t.entries := by
  have hkeys : ∀ entry ∈ t.entries, ∀ other ∈ t.entries, entry.1 = other.1 → entry = other :=
    fun _ hentry _ hother hkey => List.inj_on_of_nodup_map h hentry hother hkey
  unfold find?
  rw [Option.map_eq_some_iff]
  constructor
  · rintro ⟨entry, hfind, rfl⟩
    obtain ⟨hmem, rfl⟩ := (find?_key_eq_some_iff hkeys).mp hfind
    exact hmem
  · intro hmem
    exact ⟨_, (find?_key_eq_some_iff hkeys).mpr ⟨hmem, rfl⟩, rfl⟩

/-- Tables with the same entries, and one for each key, are the same map. -/
theorem find?_eq_of_perm {t u : Table Set} (h : t.entries.Perm u.entries) (hdistinct : t.keys.Nodup)
    (key : BookKey) : t.find? key = u.find? key := by
  have hdistinct' : u.keys.Nodup := (h.map Prod.fst).nodup_iff.mp hdistinct
  apply Option.ext
  intro set
  rw [find?_eq_some_iff hdistinct, find?_eq_some_iff hdistinct', h.mem_iff]

theorem entries_insert {t : Table Set} {key : BookKey} (h : key ∉ t.keys) (s : Set) :
    (t.insert key s).entries = (key, s) :: t.entries := by
  have hothers : t.entries.filter (·.1 != key) = t.entries := by
    rw [List.filter_eq_self]
    intro entry hentry
    have hne : entry.1 ≠ key := fun hkey => h (hkey ▸ List.mem_map_of_mem hentry)
    simpa using hne
  rw [insert, hothers]

/-- Taking over a table that has no key in common loses nothing. -/
theorem entries_merge {t u : Table Set} (happart : u.Apart t) (hdistinct : u.keys.Nodup) :
    (t.merge u).entries = u.entries ++ t.entries := by
  obtain ⟨entries⟩ := u
  induction entries with
  | nil => rfl
  | cons entry rest ih =>
    obtain ⟨hoff, hrest⟩ := List.nodup_cons.mp hdistinct
    have hmerged := ih (fun key hkey => happart key (List.mem_cons_of_mem _ hkey)) hrest
    change ((t.merge ⟨rest⟩).insert entry.1 entry.2).entries = _
    rw [entries_insert _ entry.2, hmerged]
    · rfl
    · rw [mem_keys_merge]
      exact fun hmem => hmem.elim (happart entry.1 List.mem_cons_self) hoff

/-- Tables that have no keys in common are joined into one that has all of their
entries. -/
theorem entries_foldl_merge {tables : List (Table Set)} {t : Table Set}
    (happart : tables.Pairwise Apart) (hstart : ∀ u ∈ tables, u.Apart t)
    (hdistinct : ∀ u ∈ tables, u.keys.Nodup) :
    (tables.foldl merge t).entries.Perm (t.entries ++ tables.flatMap (·.entries)) := by
  induction tables generalizing t with
  | nil => simp
  | cons u rest ih =>
    obtain ⟨hfirst, hrest⟩ := List.pairwise_cons.mp happart
    rw [List.forall_mem_cons] at hstart hdistinct
    have hlater : ∀ v ∈ rest, v.Apart (t.merge u) := by
      intro v hv key hkey hmem
      rcases mem_keys_merge.mp hmem with ht | hu
      · exact hstart.2 v hv key hkey ht
      · exact hfirst v hv key hu hkey
    rw [List.foldl_cons, List.flatMap_cons, ← List.append_assoc]
    apply (ih hrest hlater hdistinct.2).trans
    rw [entries_merge hstart.1 hdistinct.1]
    exact List.perm_append_comm.append_right _

end Table

end Perimeter
