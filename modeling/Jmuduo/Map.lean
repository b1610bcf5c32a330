-- A finite map (`std::map`): an association list with one entry for a key.
-- Its values do not depend on their keys, so a key can be rewritten.
import Mathlib.Data.List.AList

namespace maps

abbrev Map (α β : Type) := AList (fun _ : α => β)

namespace Map

variable {α β : Type} [DecidableEq α]

def find (m : Map α β) (a : α) : Option β := m.lookup a

/-- The number of the entries. -/
def size (m : Map α β) : Nat := m.keys.length

@[simp] theorem find_empty (a : α) : find (∅ : Map α β) a = none := rfl

@[simp] theorem find_insert_self (m : Map α β) (a : α) (b : β) :
    find (m.insert a b) a = some b :=
  AList.lookup_insert m

theorem find_insert_ne {m : Map α β} {a a' : α} {b : β} (h : a' ≠ a) :
    find (m.insert a b) a' = find m a' :=
  AList.lookup_insert_ne h

@[simp] theorem find_erase_self (m : Map α β) (a : α) : find (m.erase a) a = none :=
  AList.lookup_erase a m

theorem find_erase_ne {m : Map α β} {a a' : α} (h : a' ≠ a) :
    find (m.erase a) a' = find m a' :=
  AList.lookup_erase_ne h

theorem find_insert (m : Map α β) (a a' : α) (b : β) :
    find (m.insert a b) a' = if a' = a then some b else find m a' := by
  split
  · rename_i h
    rw [h, find_insert_self]
  · rename_i h
    exact find_insert_ne h

theorem find_erase (m : Map α β) (a a' : α) :
    find (m.erase a) a' = if a' = a then none else find m a' := by
  split
  · rename_i h
    rw [h, find_erase_self]
  · rename_i h
    exact find_erase_ne h

theorem size_insert_new {m : Map α β} {a : α} (h : find m a = none) (b : β) :
    size (m.insert a b) = size m + 1 := by
  have hmem : a ∉ m.keys := AList.lookup_eq_none.mp h
  simp [size, AList.keys_insert, List.erase_of_not_mem hmem]

theorem size_erase_old {m : Map α β} {a : α} {b : β} (h : find m a = some b) :
    size (m.erase a) + 1 = size m := by
  have hmem : a ∈ m.keys := by
    rw [← AList.mem_keys, ← AList.lookup_isSome]
    exact Option.isSome_of_mem h
  have hpos := List.length_pos_of_mem hmem
  simp only [size, AList.keys_erase, List.length_erase_of_mem hmem]
  omega

end Map

end maps
