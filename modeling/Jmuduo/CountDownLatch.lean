-- The latch of a start signal (CountDownLatch.h): a monitor whose waiters leave
-- when its count is down to 0, and that tells them all at that count only.
import Jmuduo.Sections

open outcome runs monitors

namespace jmuduo

/-! ## The latch of the source -/

/-- The data under `mutex_`. -/
structure CountDownLatch where
  count_ : Int
  deriving DecidableEq, Repr

namespace CountDownLatch

inductive Condition
  | cond_
  deriving DecidableEq, Repr

inductive Call
  | wait
  | countdown
  | getCount
  deriving DecidableEq, Repr

/-- What a call returns. -/
inductive Value
  | none
  | count (n : Int)
  deriving DecidableEq, Repr

/-- `--count_`, undefined below an `int`. -/
def countdown (l : CountDownLatch) : Outcome CountDownLatch := do
  let count ← intAdd l.count_ (-1)
  pure { l with count_ := count }

def code : Code Call Condition CountDownLatch Value where
  waitsFor
    | .wait, l => if l.count_ > 0 then some .cond_ else none
    | .countdown, _ | .getCount, _ => none
  body
    | .wait, l => pure (l, .none)
    | .countdown, l => do
      let l ← l.countdown
      pure (l, .none)
    | .getCount, l => pure (l, .count l.count_)
  notice
    | .countdown, l => if l.count_ = 0 then .all .cond_ else .none
    | .wait, _ | .getCount, _ => .none

/-! ## The law -/

theorem countdown_eq {l l' : CountDownLatch} (h : l.countdown = .ok l') :
    l'.count_ = l.count_ - 1 := by
  unfold countdown at h
  rw [bind_eq_ok] at h
  obtain ⟨n, hn, h⟩ := h
  cases h
  exact intAdd_eq_ok hn

/-- A count that is no longer above 0 was told to all that wait. -/
theorem body_keeps_reasons {k : Call} {l l' : CountDownLatch} {r : Value}
    (hok : code.body k l = .ok (l', r)) {j : Call} {c : Condition}
    (hj : code.waitsFor j l = some c) :
    code.waitsFor j l' = some c ∨ code.notice k l' = .all c := by
  cases k with
  | wait | getCount =>
    cases hok
    exact Or.inl hj
  | countdown =>
    simp only [code, bind_eq_ok, pure_eq_ok, Except.ok.injEq, Prod.mk.injEq] at hok
    obtain ⟨l₁, hl, rfl, _⟩ := hok
    have hcount := countdown_eq hl
    cases j with
    | wait =>
      simp only [code] at hj
      split at hj
      · rename_i hpos
        cases hj
        by_cases hzero : l₁.count_ = 0
        · exact Or.inr (if_pos hzero)
        · exact Or.inl (if_pos (by omega))
      · cases hj
    | countdown | getCount => cases hj

variable {τ : Type} [DecidableEq τ]

/-- The count is the initial one without the countdowns that ran. -/
theorem count_of_ran {count : Int} {ran : List (Call × Value)}
    {s : Monitor τ Call Condition CountDownLatch Value}
    (h : Monitor.Ran code (Monitor.start ⟨count⟩) ran s) :
    s.data.count_ = count - ran.count (.countdown, .none) := by
  apply h.data (P := fun ran l => l.count_ = count - ran.count (.countdown, .none))
  · simp
  · intro ran k l l' r hl _ hok
    cases k with
    | wait | getCount =>
      cases hok
      simpa [List.count_append] using hl
    | countdown =>
      simp only [code, bind_eq_ok, pure_eq_ok, Except.ok.injEq, Prod.mk.injEq] at hok
      obtain ⟨l₁, hrun, rfl, rfl⟩ := hok
      rw [countdown_eq hrun, hl, List.count_append, List.count_singleton_self]
      push_cast
      omega

/-- The latch lets its waiters go exactly at its last count. With any initial
count, any threads and any wakeups, as long as no countdown leaves an `int`, a
`wait` returns only where the count is not above 0, and between any two sections
with such a count no thread waits un-notified. The count is always the initial
one without the countdowns that ran. -/
theorem the_latch_opens_at_the_last_count (count : Int)
    (s : Monitor τ Call Condition CountDownLatch Value)
    (h : (Monitor.sections code ⟨count⟩).Reachable s) :
    (∀ t s', Monitor.Turn code s (.turn t) s' →
      s.place t = .locking .wait ∨ s.place t = .notified .wait → s'.place t = .outside →
      s.data.count_ ≤ 0 ∧ s'.data.count_ ≤ 0) ∧
    (s.data.count_ ≤ 0 → ∀ t k, s.place t ≠ .waiting k .cond_) ∧
    (∀ ran, Monitor.Ran code (Monitor.start ⟨count⟩) ran s →
      s.data.count_ = count - ran.count (.countdown, .none)) := by
  refine ⟨?_, ?_, fun ran hran => count_of_ran hran⟩
  · intro t s' hs ht hout
    obtain ⟨_, k, hk, hb | hf⟩ := hs.turn_cases
    · obtain ⟨c, _, hplace⟩ := hb.waits
      rw [hout] at hplace
      cases hplace
    · have hwait : k = .wait := by
        rcases ht with e | e <;> rw [e] at hk <;> rcases hk with e' | e' <;> cases e' <;> rfl
      have hpass := hf.passes
      obtain ⟨r, hok⟩ := hf.body
      subst hwait
      simp only [code, pure_eq_ok, Except.ok.injEq, Prod.mk.injEq] at hok
      have hle : s.data.count_ ≤ 0 := by simpa [code] using hpass
      exact ⟨hle, hok.1 ▸ hle⟩
  · intro hcount t k ht
    have hall := Monitor.waiting_has_reason (P := fun _ => True) h trivial
      fun k d d' r _ _ hok => ⟨trivial, fun j c hj => body_keeps_reasons hok hj⟩
    have hreason := hall.2 t k .cond_ ht
    cases k with
    | wait =>
      simp only [code] at hreason
      split at hreason
      · omega
      · cases hreason
    | countdown | getCount => cases hreason

/-- A thread that waits for a count of two. The first countdown leaves it waiting,
and the second one lets it go. -/
theorem the_latch_of_two_opens_at_the_second_countdown :
    ∃ s s' : Monitor Bool Call Condition CountDownLatch Value,
      (Monitor.sections code ⟨2⟩).Reachable s ∧ s.data.count_ = 1 ∧
      s.place false = .waiting .wait .cond_ ∧
      (Monitor.sections code ⟨2⟩).Reachable s' ∧ s'.place false = .notified .wait ∧
      s'.data.count_ ≤ 0 ∧ (∀ t k, s'.place t ≠ .waiting k .cond_) ∧
      ∃ ran, Monitor.Ran code (Monitor.start ⟨2⟩) ran s' ∧ ran.count (.countdown, .none) = 2 := by
  have h0 : (Monitor.sections code ⟨2⟩).Reachable
      (Monitor.start ⟨2⟩ : Monitor Bool Call Condition CountDownLatch Value) := .start rfl
  have h1 := h0.next (.call (.call (t := false) (k := .wait) rfl))
  have h2 := h1.next (.wait (.lock (.lock (t := false) (k := .wait) (Or.inl rfl) rfl))
    (.wait (k := .wait) (c := .cond_) rfl rfl) rfl)
  have h3 := h2.next (.call (.call (t := true) (k := .countdown) rfl))
  have h4 := h3.next (.run (.notify (.body (.test
    (.lock (.lock (t := true) (k := .countdown) (Or.inl rfl) rfl))
    (.pass (k := .countdown) rfl rfl) rfl) (.body (k := .countdown) rfl rfl))
    (.notifyNone (k := .countdown) rfl rfl)) (.unlock rfl))
  have h5 := h4.next (.call (.call (t := true) (k := .countdown) rfl))
  have h6 := h5.next (.run (.notify (.body (.test
    (.lock (.lock (t := true) (k := .countdown) (Or.inl rfl) rfl))
    (.pass (k := .countdown) rfl rfl) rfl) (.body (k := .countdown) rfl rfl))
    (.notifyAll (k := .countdown) rfl rfl)) (.unlock rfl))
  obtain ⟨hreturns, hnone, hcounts⟩ := the_latch_opens_at_the_last_count 2 _ h6
  obtain ⟨hcount, _⟩ := hreturns false _ (.run (.notify (.body (.test
    (.lock (.lock (t := false) (k := .wait) (Or.inr rfl) rfl))
    (.pass (k := .wait) rfl rfl) rfl) (.body (k := .wait) rfl rfl))
    (.notifyNone (k := .wait) rfl rfl)) (.unlock rfl)) (Or.inr rfl) rfl
  obtain ⟨ran, hran⟩ := Monitor.exists_ran (Monitor.sections_reachable h6).1
  refine ⟨_, _, h4, rfl, rfl, h6, rfl, hcount, hnone hcount, ran, hran, ?_⟩
  have htwo := hcounts ran hran
  change (0 : Int) = 2 - (ran.count (.countdown, .none) : Nat) at htwo
  omega

end CountDownLatch

end jmuduo
