-- A block of memory, and the loops of `std::copy` over it. A copy to the
-- left inside one block reads each element before it writes over it, so it
-- moves the elements as they were at its start.
import Jmuduo.Outcome

open outcome

namespace memory

variable {α : Type}

/-! ## Slices -/

/-- The elements from index `i` up to index `j`. -/
def slice (mem : List α) (i j : Nat) : List α := (mem.drop i).take (j - i)

/-- The block with `xs` in place of its elements from index `i` on. -/
def splice (mem : List α) (i : Nat) (xs : List α) : List α :=
  mem.take i ++ xs ++ mem.drop (i + xs.length)

theorem slice_length {mem : List α} {i j : Nat} (h : j ≤ mem.length) :
    (slice mem i j).length = j - i := by
  simp only [slice, List.length_take, List.length_drop]
  omega

@[simp] theorem slice_self (mem : List α) (i : Nat) : slice mem i i = [] := by
  simp [slice]

theorem slice_getElem? (mem : List α) (i j k : Nat) :
    (slice mem i j)[k]? = if k < j - i then mem[i + k]? else none := by
  simp only [slice, List.getElem?_take, List.getElem?_drop]

theorem splice_length {mem xs : List α} {i : Nat} (h : i + xs.length ≤ mem.length) :
    (splice mem i xs).length = mem.length := by
  simp only [splice, List.length_append, List.length_take, List.length_drop]
  omega

theorem splice_nil (mem : List α) (i : Nat) : splice mem i [] = mem := by
  simp [splice]

theorem splice_getElem? {mem xs : List α} {i : Nat} (h : i ≤ mem.length) (k : Nat) :
    (splice mem i xs)[k]? =
      if k < i then mem[k]? else if k < i + xs.length then xs[k - i]? else mem[k]? := by
  have hlen : (mem.take i).length = i := by simp [h]
  unfold splice
  rw [List.append_assoc]
  split
  · rw [List.getElem?_append_left (by omega), List.getElem?_take_of_lt (by omega)]
  · rw [List.getElem?_append_right (by omega), hlen]
    split
    · rw [List.getElem?_append_left (by omega)]
    · rw [List.getElem?_append_right (by omega), List.getElem?_drop]
      congr 1
      omega

/-- A write of `x :: xs` is a write of `x`, and then of `xs` after it. -/
theorem splice_cons {mem xs : List α} {i : Nat} {x : α} (h : i < mem.length) :
    splice mem i (x :: xs) = splice (mem.set i x) (i + 1) xs := by
  apply List.ext_getElem?
  intro k
  rw [splice_getElem? (by omega), splice_getElem? (by simp; omega), List.getElem?_set]
  rcases Nat.lt_trichotomy k i with hk | rfl | hk
  · simp [hk, show k < i + 1 by omega, show i ≠ k by omega]
  · simp [h]
  · have hcons : (x :: xs)[k - i]? = xs[k - (i + 1)]? := by
      rw [show k - i = (k - (i + 1)) + 1 by omega, List.getElem?_cons_succ]
    simp only [List.length_cons, show ¬ k < i by omega, show ¬ k < i + 1 by omega, if_false,
      show i ≠ k by omega, hcons, show i + (xs.length + 1) = i + 1 + xs.length by omega]

theorem slice_append {mem : List α} {i j k : Nat} (hij : i ≤ j) (hjk : j ≤ k) :
    slice mem i j ++ slice mem j k = slice mem i k := by
  unfold slice
  rw [show k - i = (j - i) + (k - j) by omega, List.take_add, List.drop_drop,
    show i + (j - i) = j by omega]

theorem slice_splice_self {mem xs : List α} {i : Nat} (h : i ≤ mem.length) :
    slice (splice mem i xs) i (i + xs.length) = xs := by
  apply List.ext_getElem?
  intro k
  rw [slice_getElem?, splice_getElem? h, show i + k - i = k by omega]
  by_cases hk : k < xs.length
  · rw [if_pos (by omega), if_neg (by omega), if_pos (by omega)]
  · rw [if_neg (by omega), List.getElem?_eq_none (by omega)]

theorem slice_splice_before {mem xs : List α} {i a b : Nat} (h : i ≤ mem.length) (hb : b ≤ i) :
    slice (splice mem i xs) a b = slice mem a b := by
  apply List.ext_getElem?
  intro k
  rw [slice_getElem?, slice_getElem?, splice_getElem? h]
  split
  · rw [if_pos (by omega)]
  · rfl

theorem slice_splice_after {mem xs : List α} {i a b : Nat} (h : i ≤ mem.length)
    (ha : i + xs.length ≤ a) : slice (splice mem i xs) a b = slice mem a b := by
  apply List.ext_getElem?
  intro k
  rw [slice_getElem?, slice_getElem?, splice_getElem? h]
  split
  · rw [if_neg (by omega), if_neg (by omega)]
  · rfl

/-- The elements after the first `n` ones of a slice. -/
theorem slice_drop {mem : List α} {i j n : Nat} :
    slice mem (i + n) j = (slice mem i j).drop n := by
  unfold slice
  rw [List.drop_take, List.drop_drop, show j - (i + n) = j - i - n by omega]

/-- The first `n` elements of a slice. -/
theorem slice_take {mem : List α} {i j n : Nat} (h : i + n ≤ j) :
    slice mem i (i + n) = (slice mem i j).take n := by
  unfold slice
  rw [List.take_take, show min n (j - i) = n by omega, show i + n - i = n by omega]

/-- A longer block has the same slices as the block it grew from. -/
theorem slice_append_right {mem more : List α} {i j : Nat} (h : j ≤ mem.length) :
    slice (mem ++ more) i j = slice mem i j := by
  apply List.ext_getElem?
  intro k
  rw [slice_getElem?, slice_getElem?]
  split
  · rw [List.getElem?_append_left (by omega)]
  · rfl

/-! ## The copy loops -/

def load (mem : List α) (i : Nat) : Outcome α := demand .outOfRange mem[i]?

def store (mem : List α) (i : Nat) (x : α) : Outcome (List α) :=
  if i < mem.length then .ok (mem.set i x) else .error .outOfRange

/-- `std::copy` from other memory, front to back. -/
def copyIn (mem : List α) (dest : Nat) : List α → Outcome (List α)
  | [] => pure mem
  | x :: xs => do
    let mem ← store mem dest x
    copyIn mem (dest + 1) xs

/-- `std::copy` of `n` elements inside one block, front to back. -/
def copyWithin (mem : List α) (first dest : Nat) : Nat → Outcome (List α)
  | 0 => pure mem
  | n + 1 => do
    let x ← load mem first
    let mem ← store mem dest x
    copyWithin mem (first + 1) (dest + 1) n

theorem store_of_lt {mem : List α} {i : Nat} {x : α} (h : i < mem.length) :
    store mem i x = .ok (mem.set i x) := by
  simp [store, h]

theorem load_of_lt {mem : List α} {i : Nat} (h : i < mem.length) :
    load mem i = .ok mem[i] := by
  simp [load, List.getElem?_eq_getElem h]

theorem copyIn_eq {xs : List α} {mem : List α} {dest : Nat}
    (h : dest + xs.length ≤ mem.length) : copyIn mem dest xs = .ok (splice mem dest xs) := by
  induction xs generalizing mem dest with
  | nil => simp [copyIn, splice_nil]
  | cons x xs ih =>
    simp only [List.length_cons] at h
    simp only [copyIn, store_of_lt (show dest < mem.length by omega), ok_bind]
    rw [ih (by simp; omega), splice_cons (by omega)]

/-- A copy that returns ended inside of the block, or copied nothing. -/
theorem copyIn_fits {xs mem mem' : List α} {dest : Nat} (h : copyIn mem dest xs = .ok mem') :
    dest + xs.length ≤ max dest mem.length := by
  induction xs generalizing mem dest with
  | nil => exact Nat.le_max_left _ _
  | cons x xs ih =>
    simp only [copyIn, bind_eq_ok] at h
    obtain ⟨mem₁, hstore, hrest⟩ := h
    have hle := ih hrest
    unfold store at hstore
    split at hstore
    · cases hstore
      rw [List.length_set] at hle
      rw [List.length_cons]
      omega
    · cases hstore

/-- A copy to the left moves the elements as they were at its start. -/
theorem copyWithin_eq {n : Nat} {mem : List α} {first dest : Nat} (hleft : dest ≤ first)
    (h : first + n ≤ mem.length) :
    copyWithin mem first dest n = .ok (splice mem dest (slice mem first (first + n))) := by
  induction n generalizing mem first dest with
  | zero => simp [copyWithin, splice_nil]
  | succ n ih =>
    have hf : first < mem.length := by omega
    have hd : dest < mem.length := by omega
    have hhead : slice mem first (first + (n + 1)) =
        mem[first] :: slice (mem.set dest mem[first]) (first + 1) (first + 1 + n) := by
      apply List.ext_getElem?
      intro k
      cases k with
      | zero => simp [slice_getElem?, hf]
      | succ k =>
        simp only [List.getElem?_cons_succ, slice_getElem?, List.getElem?_set,
          show dest ≠ first + 1 + k by omega, if_false,
          show first + (k + 1) = first + 1 + k by omega,
          show k + 1 < first + (n + 1) - first ↔ k < first + 1 + n - (first + 1) by omega]
    simp only [copyWithin, load_of_lt hf, store_of_lt hd, ok_bind]
    rw [ih (by omega) (by simp; omega), hhead, splice_cons hd]

theorem store_length {mem mem' : List α} {i : Nat} {x : α} (h : store mem i x = .ok mem') :
    mem'.length = mem.length := by
  unfold store at h
  split at h
  · cases h
    exact List.length_set ..
  · cases h

/-- A copy, to the left or to the right, keeps the size of its block. -/
theorem copyWithin_length {n : Nat} {mem mem' : List α} {first dest : Nat}
    (h : copyWithin mem first dest n = .ok mem') : mem'.length = mem.length := by
  induction n generalizing mem first dest with
  | zero =>
    cases h
    rfl
  | succ n ih =>
    simp only [copyWithin, bind_eq_ok] at h
    obtain ⟨x, _, mem₁, hstore, hrest⟩ := h
    rw [ih hrest, store_length hstore]

/-- A copy that does not return left its block. -/
theorem copyWithin_error {n : Nat} {mem : List α} {first dest : Nat} {e : Fault}
    (h : copyWithin mem first dest n = .error e) : e = .outOfRange := by
  induction n generalizing mem first dest with
  | zero => cases h
  | succ n ih =>
    simp only [copyWithin, bind_eq_error] at h
    rcases h with h | ⟨x, _, h | ⟨mem₁, _, h⟩⟩
    · exact (demand_eq_error.mp h).2
    · unfold store at h
      split at h
      · cases h
      · cases h
        rfl
    · exact ih h

/-- After any number of its turns, a copy to the left has changed no
element that it has still to read. -/
theorem copyWithin_ahead {n : Nat} {mem mem' : List α} {first dest : Nat} (hleft : dest ≤ first)
    (hn : first + n ≤ mem.length) (h : copyWithin mem first dest n = .ok mem') :
    ∀ i, first + n ≤ i → mem'[i]? = mem[i]? := by
  intro i hi
  rw [copyWithin_eq hleft hn] at h
  cases h
  rw [splice_getElem? (by omega), slice_length hn, if_neg (by omega), if_neg (by omega)]

/-! ## A removal by a swap with the last element -/

/-- `std::iter_swap`. -/
def iterSwap (l : List α) (i j : Nat) : List α :=
  match l[i]?, l[j]? with
  | some x, some y => (l.set i y).set j x
  | _, _ => l

@[simp] theorem iterSwap_length (l : List α) (i j : Nat) :
    (iterSwap l i j).length = l.length := by
  unfold iterSwap
  split <;> simp

theorem dropLast_getElem? (l : List α) (j : Nat) :
    l.dropLast[j]? = if j + 1 < l.length then l[j]? else none := by
  split
  · rw [List.getElem?_dropLast, if_pos (by omega)]
  · rw [List.getElem?_dropLast, if_neg (by omega)]

/-- After the swap and `pop_back()`, the last element stands at index `i`,
and every other one where it stood. -/
theorem iterSwap_dropLast_getElem? {l : List α} {i : Nat} (h : i + 1 < l.length) (j : Nat) :
    (iterSwap l i (l.length - 1)).dropLast[j]? =
      if j + 1 < l.length then (if j = i then l[l.length - 1]? else l[j]?) else none := by
  have hi : l[i]? = some l[i] := List.getElem?_eq_getElem (by omega)
  have hlast : l[l.length - 1]? = some l[l.length - 1] := List.getElem?_eq_getElem (by omega)
  have hswap : iterSwap l i (l.length - 1) =
      (l.set i l[l.length - 1]).set (l.length - 1) l[i] := by
    simp only [iterSwap, hi, hlast]
  rw [hswap, dropLast_getElem?]
  simp only [List.length_set]
  split
  · rw [List.getElem?_set_ne (by omega), List.getElem?_set, hlast]
    by_cases hji : j = i
    · subst hji
      simp [show j < l.length by omega]
    · simp [hji, Ne.symm hji]
  · rfl

end memory
