import Perimeter.Book.Basic

/-!
Tables of what is known of books, each under its key: the sets that resolved books
stand for, or the places of books on their shelf.
-/

namespace Perimeter

/-- Sets by the key of the book that stands for them, or whatever else books have. -/
structure Table (Set : Type) where
  entries : List (BookKey × Set)

namespace Table

variable {Set : Type}

def empty : Table Set := ⟨[]⟩

def find? (t : Table Set) (key : BookKey) : Option Set :=
  (t.entries.find? (·.1 == key)).map (·.2)

/-- Puts a set under a key in place of the one that was there. -/
def insert (t : Table Set) (key : BookKey) (s : Set) : Table Set :=
  ⟨(key, s) :: t.entries.filter (·.1 != key)⟩

theorem find?_insert (t : Table Set) (key other : BookKey) (s : Set) :
    (t.insert key s).find? other = if other = key then some s else t.find? other := by
  unfold find? insert
  by_cases h : other = key
  · rw [if_pos h]
    simp [h]
  · rw [if_neg h, List.find?_cons_of_neg (by simpa using fun hkey => h hkey.symm), List.find?_filter]
    congr 2
    funext entry
    by_cases hentry : entry.1 = other
    · simp [hentry, h]
    · simp [hentry]

/-- Takes over every entry of another table. -/
def merge (t u : Table Set) : Table Set := u.entries.foldr (fun e t => t.insert e.1 e.2) t

def size (t : Table Set) : Nat := t.entries.length

/-- The entries in the order of their keys. -/
def sorted (t : Table Set) : List (BookKey × Set) :=
  t.entries.mergeSort fun a b => a.1.le b.1

end Table

/-- Resolved books of both kinds. -/
structure BookTables where
  networks : Table NetworkSet
  services : Table ServiceSet

namespace BookTables

def empty : BookTables := ⟨.empty, .empty⟩

def merge (t u : BookTables) : BookTables :=
  ⟨t.networks.merge u.networks, t.services.merge u.services⟩

end BookTables

end Perimeter
