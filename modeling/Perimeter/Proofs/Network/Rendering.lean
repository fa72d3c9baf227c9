import Mathlib.Data.List.Perm.Subperm
import Perimeter.Proofs.Interval.Tests
import Perimeter.Proofs.Network.Blocks
import Perimeter.Proofs.Network.Membership

/-!
Sets of addresses as lists of networks. Each maximal range of either family is
written as blocks, so the list is ordered and holds what the set holds. No other
list of networks that does so is shorter: a network inside the set lies inside one
range, and if it holds the first address of a block of the list it begins there, so
every block of the list needs a network of its own.
-/

namespace Perimeter

namespace Network

/-- The block of a network ends before that of another begins, or the one is of the
first family and the other of the second. -/
def Precedes (n m : Network) : Prop :=
  (n.address.family = .v4 ∧ m.address.family = .v6) ∨
    (n.address.family = m.address.family ∧ n.last < m.first)

theorem Precedes.not_contains {n m : Network} (h : n.Precedes m) {a : Address}
    (hn : n.contains a = true) : ¬m.contains a = true := by
  intro hm
  obtain ⟨hnfamily, _, hlast⟩ := contains_iff.mp hn
  obtain ⟨hmfamily, hfirst, _⟩ := contains_iff.mp hm
  rcases h with ⟨hv4, hv6⟩ | ⟨_, hbefore⟩
  · rw [hnfamily.trans hmfamily.symm, hv6] at hv4
    cases hv4
  · omega

/-- The family of a network and the first address of its block. -/
def start (n : Network) : Family × Nat := (n.address.family, n.first)

/-- The first address of a block belongs to every network that starts there. -/
theorem contains_of_start_eq {n m : Network} (h : m.start = n.start) :
    m.contains n.masked.address = true := by
  obtain ⟨hfamily, hfirst⟩ := Prod.mk.inj h
  have hlast : n.first ≤ m.last := hfirst ▸ m.first_le_last
  exact contains_iff.mpr ⟨hfamily, Nat.le_of_eq hfirst, hlast⟩

theorem Precedes.start_ne {n m : Network} (h : n.Precedes m) : n.start ≠ m.start := fun hstart =>
  h.not_contains (contains_of_start_eq rfl) (contains_of_start_eq hstart.symm)

section Written

variable {family : Family} {t : IntervalSet family.top}

/-- The addresses of one family as networks, range after range. -/
def written (family : Family) (t : IntervalSet family.top) : List Network :=
  t.ranges.flatMap (cover family)

theorem masked_of_mem_written {n : Network} (h : n ∈ written family t) :
    n.address.family = family ∧ n.masked = n := by
  obtain ⟨r, _, hn⟩ := List.mem_flatMap.mp h
  exact (yields_cover r).masked n hn

theorem covers_written {x : Nat} :
    (∃ n ∈ written family t, n.first ≤ x ∧ x ≤ n.last) ↔ x ∈ t := by
  constructor
  · rintro ⟨n, hn, hx⟩
    obtain ⟨r, hr, hn⟩ := List.mem_flatMap.mp hn
    exact ⟨r, hr, (yields_cover r).covers.mp ⟨n, hn, hx⟩⟩
  · rintro ⟨r, hr, hx⟩
    obtain ⟨n, hn, hx⟩ := (yields_cover r).covers.mpr hx
    exact ⟨n, List.mem_flatMap.mpr ⟨r, hr, hn⟩, hx⟩

/-- Blocks of one range ascend, and those of a range lie between its bounds. -/
theorem pairwise_written : (written family t).Pairwise Precedes := by
  have hascending : (written family t).Pairwise fun n m => n.last < m.first := by
    apply List.pairwise_flatMap.mpr
    refine ⟨fun r _ => (yields_cover r).ascending, t.separated.imp ?_⟩
    intro r q hbefore n hn m hm
    have hlast := (yields_cover r).covers.mp ⟨n, hn, n.first_le_last, Nat.le_refl _⟩
    have hfirst := (yields_cover q).covers.mp ⟨m, hm, Nat.le_refl _, m.first_le_last⟩
    simp only [Range.Before] at hbefore
    omega
  apply hascending.imp_of_mem
  intro n m hn hm hbefore
  refine Or.inr ⟨?_, hbefore⟩
  rw [(masked_of_mem_written hn).1, (masked_of_mem_written hm).1]

/-- A network inside the set that holds the first address of a block begins with it. -/
theorem first_eq_of_mem_written {n b : Network} (hn : n ∈ written family t)
    (hfamily : b.address.family = family) (hinside : ∀ x, b.first ≤ x → x ≤ b.last → x ∈ t)
    (hfirst : b.first ≤ n.first) (hlast : n.first ≤ b.last) : b.first = n.first := by
  obtain ⟨r, hr, hn⟩ := List.mem_flatMap.mp hn
  obtain ⟨q, hq, hlo, hhi⟩ := IntervalSet.exists_range_of_run b.first_le_last hinside
  have hnr := (yields_cover r).covers.mp ⟨n, hn, Nat.le_refl _, n.first_le_last⟩
  have hnq : n.first ∈ q := ⟨Nat.le_trans hlo hfirst, Nat.le_trans hlast hhi⟩
  obtain rfl := IntervalSet.eq_of_mem t.separated hr hq hnr hnq
  exact (yields_cover r).first_eq hn hfamily hlo hhi hfirst hlast

end Written

end Network

namespace NetworkSet

variable {s t : NetworkSet}

theorem toNetworks_eq (s : NetworkSet) :
    s.toNetworks = Network.written .v4 (s.part .v4) ++ Network.written .v6 (s.part .v6) := rfl

theorem mem_toNetworks_iff {n : Network} :
    n ∈ s.toNetworks ↔ n ∈ Network.written n.address.family (s.part n.address.family) := by
  rw [toNetworks_eq, List.mem_append]
  constructor
  · rintro (h | h)
    · rwa [(Network.masked_of_mem_written h).1]
    · rwa [(Network.masked_of_mem_written h).1]
  · cases n.address.family with
    | v4 => exact Or.inl
    | v6 => exact Or.inr

theorem covers_toNetworks {a : Address} :
    (∃ n ∈ s.toNetworks, n.contains a = true) ↔ s.contains a = true := by
  rw [contains_iff, ← Network.covers_written]
  constructor
  · rintro ⟨n, hn, hcontains⟩
    obtain ⟨hfamily, hvalue⟩ := Network.contains_iff.mp hcontains
    rw [mem_toNetworks_iff, hfamily] at hn
    exact ⟨n, hn, hvalue⟩
  · rintro ⟨n, hn, hvalue⟩
    have hfamily := (Network.masked_of_mem_written hn).1
    refine ⟨n, ?_, Network.contains_iff.mpr ⟨hfamily, hvalue⟩⟩
    rwa [mem_toNetworks_iff, hfamily]

theorem pairwise_toNetworks (s : NetworkSet) : s.toNetworks.Pairwise Network.Precedes := by
  rw [toNetworks_eq]
  refine List.pairwise_append.mpr ⟨Network.pairwise_written, Network.pairwise_written, ?_⟩
  intro n hn m hm
  exact Or.inl ⟨(Network.masked_of_mem_written hn).1, (Network.masked_of_mem_written hm).1⟩

/-- Among networks that hold what a set holds, one begins wherever a network of its
own list does. -/
theorem exists_start {others : List Network}
    (h : ∀ a, (∃ n ∈ others, n.contains a = true) ↔ s.contains a = true) {n : Network}
    (hn : n ∈ s.toNetworks) : ∃ b ∈ others, b.start = n.start := by
  have hhead : n.contains n.masked.address = true := Network.contains_of_start_eq rfl
  obtain ⟨b, hb, hcontains⟩ := (h _).mpr (covers_toNetworks.mp ⟨n, hn, hhead⟩)
  obtain ⟨hfamily, hfirst, hlast⟩ := Network.contains_iff.mp hcontains
  have hinside : ∀ x, b.first ≤ x → x ≤ b.last → x ∈ s.part n.address.family := by
    intro x hlo hhi
    have htop : x ≤ n.address.family.top := hfamily ▸ Nat.le_trans hhi b.last_le_top
    exact contains_iff.mp ((h ⟨n.address.family, x, htop⟩).mp
      ⟨b, hb, Network.contains_iff.mpr ⟨hfamily, hlo, hhi⟩⟩)
  have hwritten := mem_toNetworks_iff.mp hn
  have hsame := Network.first_eq_of_mem_written hwritten hfamily hinside hfirst hlast
  exact ⟨b, hb, Prod.ext hfamily hsame⟩

/-- A set is written as networks in order, those of version four first, no two of them
with an address in common. They hold what the set holds and make up the set again, and
no list of networks that holds the same addresses is shorter. -/
theorem toNetworks_minimal (s : NetworkSet) :
    s.toNetworks.Pairwise (fun n m => n.Precedes m ∧
      ∀ a, ¬(n.contains a = true ∧ m.contains a = true)) ∧
    (∀ n ∈ s.toNetworks, n.masked = n) ∧
    (∀ a, (∃ n ∈ s.toNetworks, n.contains a = true) ↔ s.contains a = true) ∧
    ofNetworks s.toNetworks = s ∧
    ∀ others : List Network,
      (∀ a, (∃ n ∈ others, n.contains a = true) ↔ s.contains a = true) →
        s.toNetworks.length ≤ others.length := by
  refine ⟨?_, ?_, fun a => covers_toNetworks, ?_, ?_⟩
  · apply (pairwise_toNetworks s).imp
    intro n m hprecedes
    exact ⟨hprecedes, fun a h => hprecedes.not_contains h.1 h.2⟩
  · intro n hn
    exact (Network.masked_of_mem_written (mem_toNetworks_iff.mp hn)).2
  · apply ext_contains
    intro a
    rw [contains_ofNetworks, covers_toNetworks]
  · intro others hsame
    have hnodup : (s.toNetworks.map Network.start).Nodup := by
      apply List.pairwise_map.mpr
      apply (pairwise_toNetworks s).imp
      intro n m hprecedes
      exact hprecedes.start_ne
    have hsubset : s.toNetworks.map Network.start ⊆ others.map Network.start := by
      intro start hstart
      obtain ⟨n, hn, rfl⟩ := List.mem_map.mp hstart
      obtain ⟨b, hb, hstarts⟩ := exists_start hsame hn
      exact List.mem_map.mpr ⟨b, hb, hstarts⟩
    have hle := (List.subperm_of_subset hnodup hsubset).length_le
    rwa [List.length_map, List.length_map] at hle

/-- Every address but the first of version four: one network of each length down to that
of half the space, and all of version six. -/
example :
    let first : Network := ⟨⟨.v4, 0, by decide⟩, 32, by decide⟩
    (NetworkSet.any.subtract (.ofNetworks [first])).toNetworks.map Network.length =
      (List.range 32).reverse.map (· + 1) ++ [0] := by decide +kernel

end NetworkSet

end Perimeter
