-- The laws of the wakeups of the bounded queue: a value that nobody has taken
-- is never left beside a consumer that nobody woke, nor a free slot beside a
-- producer.
import Jmuduo.BoundedBlockingQueue
import Jmuduo.Sections

open outcome runs monitors

namespace jmuduo

namespace BoundedBlockingQueue

variable {α : Type}

/-! ## What the conditions count -/

/-- The condition that a call waits on. -/
def Call.on : Call α → Option Condition
  | .put _ => some .notFull_
  | .take => some .notEmpty_
  | .empty | .full | .size | .capacity => none

/-- A consumer waits for a value, a producer for a free slot. -/
def available : Condition → BoundedBlockingQueue α → Nat
  | .notEmpty_, q => q.deque_.elems.length
  | .notFull_, q => q.deque_.capacity - q.deque_.elems.length

theorem put_elems {q : BoundedBlockingQueue α} (h : q.deque_.full = false) (x : α) :
    (q.put x).deque_ = { q.deque_ with elems := q.deque_.elems ++ [x] } := by
  simp [put, CircularBuffer.put_back, h]

/-- Each `put` adds a value and takes a slot, each `take` the other way. -/
theorem code_counts (bound : Nat) :
    Monitor.Counts code (Fifo bound : BoundedBlockingQueue α → Prop) Call.on available where
  waits k q c hq hc := by
    cases k with
    | put x =>
      simp only [code] at hc
      split at hc
      · rename_i hfull
        cases hc
        refine ⟨rfl, ?_⟩
        have hlen : q.deque_.elems.length = q.deque_.capacity := by
          simpa [CircularBuffer.full] using hfull
        show q.deque_.capacity - q.deque_.elems.length = 0
        omega
      · cases hc
    | take =>
      simp only [code] at hc
      split at hc
      · rename_i hempty
        cases hc
        refine ⟨rfl, ?_⟩
        simpa [available, CircularBuffer.empty] using hempty
      · cases hc
    | empty | full | size | capacity => cases hc
  keeps k q q' r hq hpass hok := body_fifo hq hpass hok
  moves k q q' r c hq hpass hok _ := by
    have hsize := hq.size
    have hfixed := hq.fixed
    cases k with
    | put x =>
      have hfull : q.deque_.full = false := by simpa [code] using hpass
      have hlen : q.deque_.elems.length ≠ q.deque_.capacity := by
        simpa [CircularBuffer.full] using hfull
      cases hok
      cases c with
      | notEmpty_ => simp [available, put_elems hfull, Call.on, code]
      | notFull_ =>
        simp only [available, put_elems hfull, Call.on, code, List.length_append,
          List.length_singleton]
        simp
        omega
    | take =>
      obtain ⟨x, xs, hx, htake⟩ := take.spec (q := q) (by simpa [code] using hpass)
      simp only [code, htake, ok_bind, pure_eq_ok, Except.ok.injEq, Prod.mk.injEq] at hok
      obtain ⟨rfl, -⟩ := hok
      rw [hx, List.length_cons] at hsize
      cases c with
      | notEmpty_ => simp [available, hx, Call.on, code]
      | notFull_ =>
        simp only [available, hx, Call.on, code, List.length_cons]
        simp
        omega
    | empty | full | size | capacity =>
      cases hok
      simp [Call.on, code]

/-! ## The law -/

variable {τ : Type} [DecidableEq τ]

theorem reachable_served {size : Nat}
    {s : Monitor τ (Call α) Condition (BoundedBlockingQueue α) (Value α)}
    (h : (Monitor.sections code (construct size)).Reachable s) :
    s.Served (Fifo size) Call.on available :=
  Monitor.reachable_served (code_counts size) h ⟨rfl, rfl, Nat.zero_le _⟩

omit [DecidableEq τ] in
theorem notified_consumers (s : Monitor τ (Call α) Condition (BoundedBlockingQueue α) (Value α)) :
    s.notified Call.on .notEmpty_ = {t | s.place t = .notified .take} := by
  ext t
  constructor
  · rintro ⟨k, hk, hon⟩
    cases k with
    | take => exact hk
    | _ => cases hon
  · intro ht
    exact ⟨.take, ht, rfl⟩

omit [DecidableEq τ] in
theorem notified_producers (s : Monitor τ (Call α) Condition (BoundedBlockingQueue α) (Value α)) :
    s.notified Call.on .notFull_ = {t | ∃ x, s.place t = .notified (.put x)} := by
  ext t
  constructor
  · rintro ⟨k, hk, hon⟩
    cases k with
    | put x => exact ⟨x, hk⟩
    | _ => cases hon
  · rintro ⟨x, hx⟩
    exact ⟨.put x, hx, rfl⟩

/-- Where a consumer waits, as many consumers are on their way as there are
values, and where a producer waits, as many producers as free slots. -/
theorem waiting_le_notified {size : Nat}
    {s : Monitor τ (Call α) Condition (BoundedBlockingQueue α) (Value α)}
    (h : (Monitor.sections code (construct size)).Reachable s) :
    ((∃ t, s.place t = .waiting .take .notEmpty_) →
      (s.data.deque_.elems.length : ℕ∞) ≤ {t | s.place t = .notified .take}.encard) ∧
    ((∃ t x, s.place t = .waiting (.put x) .notFull_) →
      ((size - s.data.deque_.elems.length : Nat) : ℕ∞) ≤
        {t | ∃ x, s.place t = .notified (.put x)}.encard) := by
  have hserved := reachable_served h
  constructor
  · rintro ⟨t, ht⟩
    rw [← notified_consumers]
    exact hserved.served .notEmpty_ ⟨t, _, ht⟩
  · rintro ⟨t, x, ht⟩
    rw [← notified_producers, ← hserved.data.fixed]
    exact hserved.served .notFull_ ⟨t, _, ht⟩

/-- The queue loses no wakeup. Between any two sections, where a consumer waits
and nobody notified it, there are no more values in the queue than consumers
that were notified and have yet to resume, and where a producer waits so, no
more free slots than producers. So the threads are never all blocked while a
consumer waits beside a value, or a producer beside a free slot. -/
theorem the_queue_loses_no_wakeup (size : Nat)
    (s : Monitor τ (Call α) Condition (BoundedBlockingQueue α) (Value α)) :
    ((Monitor.sections code (construct size)).Reachable s →
      ((∃ t, s.place t = .waiting .take .notEmpty_) →
        (s.data.deque_.elems.length : ℕ∞) ≤ {t | s.place t = .notified .take}.encard) ∧
      ((∃ t x, s.place t = .waiting (.put x) .notFull_) →
        ((size - s.data.deque_.elems.length : Nat) : ℕ∞) ≤
          {t | ∃ x, s.place t = .notified (.put x)}.encard)) ∧
    ((Monitor.machine code (construct size)).Reachable s →
      (∀ t, s.place t = .outside ∨ ∃ k c, s.place t = .waiting k c) →
      ¬ ((∃ t, s.place t = .waiting .take .notEmpty_) ∧ s.data.deque_.elems ≠ []) ∧
      ¬ ((∃ t x, s.place t = .waiting (.put x) .notFull_) ∧
        s.data.deque_.elems.length < size)) := by
  refine ⟨waiting_le_notified, fun h hblocked => ?_⟩
  have hfree : s.holder = none := by
    cases hs : s.holder with
    | none => rfl
    | some t =>
      have hplace := ((Monitor.reachable_inv h).holder t).mpr hs
      rcases hblocked t with e | ⟨k, c, e⟩ <;> rw [e] at hplace <;> exact hplace.elim
  have hnone : ∀ t k, s.place t ≠ .notified k := by
    intro t k ht
    rcases hblocked t with e | ⟨j, c, e⟩ <;> rw [ht] at e <;> cases e
  obtain ⟨hvalues, hslots⟩ := waiting_le_notified (Monitor.sections_reachable_iff.mpr ⟨h, hfree⟩)
  constructor
  · rintro ⟨hwait, hne⟩
    have hle := hvalues hwait
    rw [show {t | s.place t = .notified .take} = ∅ by simp [hnone], Set.encard_empty] at hle
    rw [nonpos_iff_eq_zero, Nat.cast_eq_zero, List.length_eq_zero_iff] at hle
    exact hne hle
  · rintro ⟨hwait, hlt⟩
    have hle := hslots hwait
    rw [show {t | ∃ x, s.place t = .notified (.put x)} = ∅ by simp [hnone],
      Set.encard_empty, nonpos_iff_eq_zero, Nat.cast_eq_zero] at hle
    omega

/-- Two consumers wait, and the value of a producer wakes one of them. -/
theorem the_queue_loses_no_wakeup_of_two :
    ∃ s : Monitor Nat (Call Nat) Condition (BoundedBlockingQueue Nat) (Value Nat),
      (Monitor.sections code (construct 1)).Reachable s ∧ s.place 1 = .waiting .take .notEmpty_ ∧
      s.data.deque_.elems = [7] ∧
      (s.data.deque_.elems.length : ℕ∞) ≤ {t | s.place t = .notified .take}.encard := by
  have h0 : (Monitor.sections code (construct 1)).Reachable
      (Monitor.start (construct 1) :
        Monitor Nat (Call Nat) Condition (BoundedBlockingQueue Nat) (Value Nat)) := .start rfl
  have h1 := h0.next (.call (.call (t := 0) (k := .take) rfl))
  have h2 := h1.next (.call (.call (t := 1) (k := .take) rfl))
  have h3 := h2.next (.wait (.lock (.lock (t := 0) (k := .take) (Or.inl rfl) rfl))
    (.wait (k := .take) (c := .notEmpty_) rfl rfl) rfl)
  have h4 := h3.next (.wait (.lock (.lock (t := 1) (k := .take) (Or.inl rfl) rfl))
    (.wait (k := .take) (c := .notEmpty_) rfl rfl) rfl)
  have h5 := h4.next (.call (.call (t := 2) (k := .put 7) rfl))
  have h6 := h5.next (.run (.notify (.body (.test
    (.lock (.lock (t := 2) (k := .put 7) (Or.inl rfl) rfl))
    (.pass (k := .put 7) rfl rfl) rfl) (.body (k := .put 7) rfl rfl))
    (.notifyOne (k := .put 7) (u := 0) (j := .take) rfl rfl rfl)) (.unlock rfl))
  obtain ⟨hvalues, _⟩ := (the_queue_loses_no_wakeup 1 _).1 h6
  exact ⟨_, h6, rfl, rfl, hvalues ⟨1, rfl⟩⟩

end BoundedBlockingQueue

end jmuduo
