import Mathlib.Data.List.Nodup
import Perimeter.Service.Membership

/-!
The normal form of service sets. A set is determined by its rest and by the
ports that it gives to each protocol, because it lists exactly those protocols
whose ports differ from the rest. So every test on sets asks of the rest what it
asks of the pairs of protocol and port.
-/

namespace Perimeter

/-- Port sets that agree on every port are equal. -/
theorem PortSet.ext_port {a b : PortSet} (h : ∀ port : UInt16, port.toNat ∈ a ↔ port.toNat ∈ b) :
    a = b := by
  apply IntervalSet.ext_mem
  intro n
  constructor
  · intro hn
    obtain ⟨port, rfl⟩ := ServiceSet.exists_port_of_le (IntervalSet.le_top_of_mem hn)
    exact (h port).mp hn
  · intro hn
    obtain ⟨port, rfl⟩ := ServiceSet.exists_port_of_le (IntervalSet.le_top_of_mem hn)
    exact (h port).mpr hn

theorem PortSet.isEmpty_iff_eq_empty {ports : PortSet} : ports.isEmpty = true ↔ ports = .empty := by
  constructor
  · intro h
    apply IntervalSet.ext_mem
    intro n
    exact iff_of_false (IntervalSet.isEmpty_iff.mp h n) IntervalSet.not_mem_empty
  · rintro rfl
    rfl

namespace ServiceSet

variable {s t : ServiceSet}

theorem nodup_listed (s : ServiceSet) : (s.listed.map (·.1)).Nodup := by
  apply List.pairwise_map.mpr
  apply s.ascending.imp
  intro a b hlt heq
  rw [heq] at hlt
  exact UInt8.lt_irrefl _ hlt

/-- What is listed is what differs from the rest. -/
theorem mem_listed {p : Protocol} {ports : PortSet} :
    (p, ports) ∈ s.listed ↔ s.portsFor p = ports ∧ ports ≠ s.rest := by
  cases hfind : s.listed.find? (·.1 == p) with
  | some entry =>
    have hports : s.portsFor p = entry.2 := by rw [portsFor, hfind]
    have hmem := List.mem_of_find?_eq_some hfind
    have hkey : entry.1 = p := by simpa using List.find?_some hfind
    rw [hports]
    constructor
    · intro hin
      have heq := List.inj_on_of_nodup_map s.nodup_listed hmem hin hkey
      exact ⟨by rw [heq], s.distinct _ hin⟩
    · rintro ⟨rfl, _⟩
      rw [← hkey]
      exact hmem
  | none =>
    have hports : s.portsFor p = s.rest := by rw [portsFor, hfind]
    rw [hports]
    constructor
    · intro hin
      have hoff := List.find?_eq_none.mp hfind _ hin
      exact absurd (beq_self_eq_true p) hoff
    · rintro ⟨rfl, hne⟩
      exact absurd rfl hne

theorem listed_eq_nil_iff : s.listed = [] ↔ ∀ p, s.portsFor p = s.rest := by
  constructor
  · intro hnil p
    exact portsFor_eq_rest (by simp [hnil])
  · intro hall
    apply List.eq_nil_iff_forall_not_mem.mpr
    rintro ⟨p, ports⟩ hin
    obtain ⟨rfl, hne⟩ := mem_listed.mp hin
    exact hne (hall p)

/-- Both lists ascend, so they are equal as soon as they have the same members. -/
theorem ext_portsFor (hrest : s.rest = t.rest) (hports : ∀ p, s.portsFor p = t.portsFor p) :
    s = t := by
  have hmem : ∀ entry, entry ∈ s.listed ↔ entry ∈ t.listed := by
    rintro ⟨p, ports⟩
    rw [mem_listed, mem_listed, hrest, hports]
  have hperm : s.listed.Perm t.listed :=
    (List.perm_ext_iff_of_nodup (.of_map _ s.nodup_listed) (.of_map _ t.nodup_listed)).mpr hmem
  have hlisted : s.listed = t.listed := by
    apply List.Perm.eq_of_pairwise _ s.ascending t.ascending hperm
    intro a b _ _ hab hba
    exact absurd hab (UInt8.lt_asymm hba)
  cases s
  cases t
  cases hrest
  cases hlisted
  rfl

theorem portsFor_eq_iff {p q : Protocol} :
    s.portsFor p = t.portsFor q ↔
      ∀ port, s.contains p port = true ↔ t.contains q port = true := by
  constructor
  · intro hports port
    rw [contains_iff, contains_iff, hports]
  · intro h
    apply PortSet.ext_port
    intro port
    rw [← contains_iff, ← contains_iff]
    exact h port

theorem portsFor_eq_empty_iff {p : Protocol} :
    s.portsFor p = .empty ↔ ∀ port, ¬s.contains p port = true := by
  constructor
  · intro hports port
    rw [contains_iff, hports]
    exact IntervalSet.not_mem_empty
  · intro h
    apply PortSet.ext_port
    intro port
    rw [← contains_iff]
    exact iff_of_false (h port) IntervalSet.not_mem_empty

theorem portsFor_eq_full_iff {p : Protocol} :
    s.portsFor p = .full ↔ ∀ port, s.contains p port = true := by
  have hfull : ∀ port : UInt16, port.toNat ∈ (IntervalSet.full : PortSet) := fun port =>
    IntervalSet.mem_full.mpr (Nat.le_of_lt_succ port.toNat_lt)
  constructor
  · intro hports port
    rw [contains_iff, hports]
    exact hfull port
  · intro h
    apply PortSet.ext_port
    intro port
    rw [← contains_iff]
    exact iff_of_true (h port) (hfull port)

theorem isEmpty_iff : s.isEmpty = true ↔ s.rest = .empty ∧ ∀ p port, ¬s.contains p port = true := by
  rw [isEmpty, Bool.and_eq_true, List.isEmpty_iff, listed_eq_nil_iff, PortSet.isEmpty_iff_eq_empty]
  apply and_congr_right
  intro hempty
  rw [hempty]
  exact forall_congr' fun p => portsFor_eq_empty_iff

theorem isAny_iff : s.isAny = true ↔ s.rest = .full ∧ ∀ p port, s.contains p port = true := by
  rw [isAny, Bool.and_eq_true, List.isEmpty_iff, listed_eq_nil_iff, IntervalSet.isFull, beq_iff_eq]
  apply and_congr_right
  intro hfull
  rw [hfull]
  exact forall_congr' fun p => portsFor_eq_full_iff

theorem isSubset_iff :
    s.isSubset t = true ↔ s.rest.isSubset t.rest = true ∧
      ∀ p port, s.contains p port = true → t.contains p port = true := by
  rw [isSubset_iff_forall_portsFor]
  apply and_congr_right
  intro _
  constructor
  · intro hports p port hin
    exact contains_iff.mpr (IntervalSet.isSubset_iff.mp (hports p) _ (contains_iff.mp hin))
  · intro h p
    apply IntervalSet.isSubset_iff.mpr
    intro n hn
    obtain ⟨port, rfl⟩ := exists_port_of_le (IntervalSet.le_top_of_mem hn)
    exact contains_iff.mp (h p port (contains_iff.mpr hn))

theorem eq_iff :
    s = t ↔ s.rest = t.rest ∧ ∀ p port, s.contains p port = true ↔ t.contains p port = true := by
  constructor
  · rintro rfl
    exact ⟨rfl, fun _ _ => Iff.rfl⟩
  · rintro ⟨hrest, h⟩
    exact ext_portsFor hrest fun p => portsFor_eq_iff.mpr (h p)

end ServiceSet

end Perimeter
