-- Tickets: numbers that are given out once each. One is in the hand of an owner
-- or on a list, and a step of one owner moves the tickets that it reaches.
import Mathlib.Data.List.Nodup
import Mathlib.Data.List.Perm.Subperm

namespace tickets

variable {τ : Type}

/-- The tickets below `next` were given out. Each is in one place at most: in the
hand of one owner, or once on the list. -/
structure Tickets (next : Nat) (hand : τ → Option Nat) (kept : List Nat) : Prop where
  once : kept.Nodup
  below : ∀ n ∈ kept, n < next
  held : ∀ t n, hand t = some n → n < next ∧ n ∉ kept
  alone : ∀ t u n, hand t = some n → hand u = some n → u = t

namespace Tickets

variable {next next' : Nat} {hand hand' : τ → Option Nat} {kept kept' new : List Nat} {t u : τ}

/-- No ticket was given out. -/
theorem start (h : ∀ t, hand t = none) : Tickets next hand [] where
  once := List.nodup_nil
  below n hn := by cases hn
  held t n ht := by
    rw [h t] at ht
    cases ht
  alone t u n ht := by
    rw [h t] at ht
    cases ht

/-- The tickets in the reach of an owner. -/
def reach (hand : τ → Option Nat) (kept : List Nat) (t : τ) : List Nat :=
  (hand t).toList ++ kept

theorem reach_nodup (h : Tickets next hand kept) (t : τ) : (reach hand kept t).Nodup := by
  unfold reach
  cases ht : hand t with
  | none => exact h.once
  | some n => exact List.nodup_cons.mpr ⟨(h.held t n ht).2, h.once⟩

theorem reach_below (h : Tickets next hand kept) {n : Nat} (hn : n ∈ reach hand kept t) :
    n < next := by
  rcases List.mem_append.mp hn with hn | hn
  · rw [Option.mem_toList] at hn
    exact (h.held t n hn).1
  · exact h.below n hn

/-- The hand of another owner is out of reach. -/
theorem not_mem_reach (h : Tickets next hand kept) (hu : u ≠ t) {n : Nat} (hn : hand u = some n) :
    n ∉ reach hand kept t := by
  intro hmem
  rcases List.mem_append.mp hmem with hmem | hmem
  · rw [Option.mem_toList] at hmem
    exact hu (h.alone t u n hmem hn)
  · exact (h.held u n hn).2 hmem

/-- The rule of a step: an owner keeps some of the tickets in its reach, in its hand
or on the list, with some new ones. -/
theorem move (h : Tickets next hand kept) (hothers : ∀ u, u ≠ t → hand' u = hand u)
    (hle : next ≤ next') (hnew : ∀ n ∈ new, next ≤ n ∧ n < next') (hnodup : new.Nodup)
    (hsub : (reach hand' kept' t).Subperm (new ++ reach hand kept t)) :
    Tickets next' hand' kept' := by
  have hall : (new ++ reach hand kept t).Nodup := by
    refine List.nodup_append'.mpr ⟨hnodup, h.reach_nodup t, ?_⟩
    intro n hn hold
    have h1 := (hnew n hn).1
    have h2 := h.reach_below hold
    omega
  have hreach : (reach hand' kept' t).Nodup := by
    obtain ⟨l, hperm, hl⟩ := hsub
    exact hperm.nodup_iff.mp (hall.sublist hl)
  have hbelow : ∀ n ∈ reach hand' kept' t, n < next' := by
    intro n hn
    rcases List.mem_append.mp (hsub.subset hn) with hn | hn
    · exact (hnew n hn).2
    · exact Nat.lt_of_lt_of_le (h.reach_below hn) hle
  have hout : ∀ u n, u ≠ t → hand u = some n → n ∉ reach hand' kept' t := by
    intro u n hu hn hmem
    rcases List.mem_append.mp (hsub.subset hmem) with hmem | hmem
    · have h1 := (hnew n hmem).1
      have h2 := (h.held u n hn).1
      omega
    · exact h.not_mem_reach hu hn hmem
  refine ⟨(List.nodup_append'.mp hreach).2.1, fun n hn => hbelow n (List.mem_append_right _ hn),
    ?_, ?_⟩
  · intro u n hn
    by_cases hu : u = t
    · subst hu
      have hmine : n ∈ (hand' u).toList := by rw [Option.mem_toList]; exact hn
      exact ⟨hbelow n (List.mem_append_left _ hmine),
        fun hk => (List.nodup_append'.mp hreach).2.2 hmine hk⟩
    · rw [hothers u hu] at hn
      exact ⟨Nat.lt_of_lt_of_le (h.held u n hn).1 hle,
        fun hk => hout u n hu hn (List.mem_append_right _ hk)⟩
  · have hhand : ∀ u n, hand' t = some n → hand' u = some n → u = t := by
      intro u n hn hn'
      by_contra hu
      rw [hothers u hu] at hn'
      exact hout u n hu hn' (List.mem_append_left _ (by rw [Option.mem_toList]; exact hn))
    intro v u n hn hn'
    by_cases hv : v = t
    · rw [hv] at hn
      rw [hhand u n hn hn', hv]
    · by_cases hu : u = t
      · rw [hu] at hn'
        exact absurd (hhand v n hn' hn) hv
      · rw [hothers v hv] at hn
        rw [hothers u hu] at hn'
        exact h.alone v u n hn hn'

end Tickets

end tickets
