-- A set with an order (`std::set`): its elements in a list that grows. The
-- list carries the proof that it does.
import Mathlib.Data.List.Sort
import Mathlib.Order.Basic

namespace sets

structure OrderedSet (α : Type) [LinearOrder α] where
  toList : List α
  sorted : toList.Pairwise (· < ·)

namespace OrderedSet

variable {α : Type} [LinearOrder α]

def empty : OrderedSet α := ⟨[], .nil⟩

instance : Membership α (OrderedSet α) := ⟨fun s x => x ∈ s.toList⟩

theorem mem_def {s : OrderedSet α} {x : α} : x ∈ s ↔ x ∈ s.toList := Iff.rfl

theorem nodup (s : OrderedSet α) : s.toList.Nodup := s.sorted.imp ne_of_lt

theorem sorted_orderedInsert {l : List α} (h : l.Pairwise (· < ·)) {x : α} (hx : x ∉ l) :
    (l.orderedInsert (· ≤ ·) x).Pairwise (· < ·) := by
  have hle : (l.orderedInsert (· ≤ ·) x).Pairwise (· ≤ ·) := (h.imp le_of_lt).orderedInsert x l
  have hperm : (l.orderedInsert (· ≤ ·) x).Nodup :=
    (List.perm_orderedInsert (· ≤ ·) x l).nodup_iff.mpr
      (List.nodup_cons.mpr ⟨hx, h.imp ne_of_lt⟩)
  exact (hle.and hperm).imp fun hab => lt_of_le_of_ne hab.1 hab.2

/-- The second result says whether the element is new. -/
def insert (x : α) (s : OrderedSet α) : OrderedSet α × Bool :=
  if h : x ∈ s.toList then (s, false)
  else (⟨s.toList.orderedInsert (· ≤ ·) x, sorted_orderedInsert s.sorted h⟩, true)

/-- The first element, if there is one. -/
def begin (s : OrderedSet α) : Option α := s.toList.head?

/-- The elements before `lower_bound(x)`. -/
def below (x : α) (s : OrderedSet α) : List α := s.toList.filter (· < x)

/-- The set without the elements before `lower_bound(x)`. -/
def eraseBelow (x : α) (s : OrderedSet α) : OrderedSet α :=
  ⟨s.toList.filter (x ≤ ·), s.sorted.filter _⟩

@[simp] theorem not_mem_empty (x : α) : x ∉ (empty : OrderedSet α) := List.not_mem_nil

theorem insert_new {s : OrderedSet α} {x : α} (h : x ∉ s) :
    (s.insert x).2 = true ∧ ∀ y, y ∈ (s.insert x).1 ↔ y = x ∨ y ∈ s := by
  have hx : x ∉ s.toList := h
  simp only [insert, dif_neg hx, mem_def, List.mem_orderedInsert, implies_true, and_self]

theorem begin_eq_none {s : OrderedSet α} : s.begin = none ↔ ∀ x, x ∉ s := by
  simp only [begin, List.head?_eq_none_iff, mem_def, List.eq_nil_iff_forall_not_mem]

/-- The first element is the least one. -/
theorem begin_eq_some {s : OrderedSet α} {x : α} :
    s.begin = some x ↔ x ∈ s ∧ ∀ y, y ∈ s → x ≤ y := by
  obtain ⟨l, hl⟩ := s
  cases l with
  | nil => simp [begin, mem_def]
  | cons a l =>
    have hmin : ∀ y, y ∈ l → a < y := fun y hy => List.rel_of_pairwise_cons hl hy
    simp only [begin, List.head?_cons, Option.some.injEq, mem_def, List.mem_cons]
    constructor
    · rintro rfl
      refine ⟨Or.inl rfl, ?_⟩
      rintro y (rfl | hy)
      · exact le_rfl
      · exact le_of_lt (hmin y hy)
    · rintro ⟨rfl | hx, h⟩
      · rfl
      · exact absurd (hmin x hx) (not_lt_of_ge (h a (Or.inl rfl)))

theorem mem_eraseBelow {s : OrderedSet α} {x y : α} :
    y ∈ s.eraseBelow x ↔ y ∈ s ∧ x ≤ y := by
  simp [eraseBelow, mem_def]

end OrderedSet

end sets
