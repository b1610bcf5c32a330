-- When the timers run (TimerQueue.cc, Timer.cc): a timer that repeats is due
-- again one interval behind the clock of its last run. So no run comes early,
-- whatever the clock does, and the runs of a timer never come too close.
import Jmuduo.TimerRuns

open outcome runs

namespace jmuduo.net

/-! ## The times of the runs -/

/-- A queue with the timers that it was given, and with each run the time
that its `handleRead` read from the clock. -/
structure ClockedQueue where
  queue : TimerQueue
  created : List Timer
  fired : List (Int × Timer)

namespace ClockedQueue

open TimerQueue

def construct : ClockedQueue := ⟨.construct, [], []⟩

/-- The runs of a step, which leads the queue from `s` to `s'`. -/
def fires (s s' : TimerQueue) : Op → List (Int × Timer)
  | .addTimerInLoop _ _ => []
  | .handleRead _ now _ => (s'.ran.drop s.ran.length).map fun r => (now, r.2)

def apply (s : ClockedQueue) (op : Op) : Outcome ClockedQueue := do
  let queue ← op.run s.queue
  pure ⟨queue, s.created ++ (op.news s.queue).map Prod.snd, s.fired ++ fires s.queue queue op⟩

/-- All runs, with any clock, where the allocator and the counter of the
timers do their work. -/
def machine : Machine ClockedQueue Op where
  init s := s = construct
  step s op s' := (op.Legal s.queue ∧ Counted s.queue.seen (op.news s.queue)) ∧ s.apply op = .ok s'

/-! ## The next expiration -/

/-- The last run of a timer. -/
def lastRun (q : Int) (fired : List (Int × Timer)) : Option (Int × Timer) :=
  (fired.filter fun f => f.2.sequence_ = q).getLast?

/-- When a timer is due: at first when it was made for, and then one interval
behind its last run. -/
def due (t : Timer) (fired : List (Int × Timer)) : Int :=
  match lastRun t.sequence_ fired with
  | none => t.expiration_
  | some f => addTime f.1 t.interval_

/-- How often a timer ran. -/
def runs (q : Int) (fired : List (Int × Timer)) : Nat :=
  (fired.filter fun f => f.2.sequence_ = q).length

section

variable {t : Timer} {q : Int} {fired fs : List (Int × Timer)} {f : Int × Timer}

theorem filter_skip (h : ∀ f ∈ fs, f.2.sequence_ ≠ q) :
    (fired ++ fs).filter (fun f => f.2.sequence_ = q) =
      fired.filter fun f => f.2.sequence_ = q := by
  have hnone : fs.filter (fun f => f.2.sequence_ = q) = [] := by
    rw [List.filter_eq_nil_iff]
    intro f hf
    simpa using h f hf
  rw [List.filter_append, hnone, List.append_nil]

/-- The runs of other timers do not matter. -/
theorem due_skip (h : ∀ f ∈ fs, f.2.sequence_ ≠ t.sequence_) :
    due t (fired ++ fs) = due t fired := by
  unfold due lastRun
  rw [filter_skip h]

theorem due_nil (h : ∀ f ∈ fired, f.2.sequence_ ≠ t.sequence_) : due t fired = t.expiration_ := by
  have hskip : due t ([] ++ fired) = due t [] := due_skip h
  rw [List.nil_append] at hskip
  rw [hskip]
  rfl

theorem due_run (h : f.2.sequence_ = t.sequence_) :
    due t (fired ++ [f]) = addTime f.1 t.interval_ := by
  unfold due lastRun
  rw [List.filter_append, List.filter_cons_of_pos (by simpa using h), List.filter_nil,
    List.getLast?_concat]

end

/-! ## The invariant -/

variable {s s' : ClockedQueue}

/-- A timer of the queue or of a run is one that was made, due at the time
that its runs before give. -/
structure Inv (s : ClockedQueue) : Prop where
  queue : s.queue.Inv []
  history : s.queue.History
  seen : s.created.map Timer.sequence_ = s.queue.seen
  once : (s.created.map Timer.sequence_).Nodup
  ran : s.fired.map Prod.snd = s.queue.ran.map Prod.snd
  live : ∀ p u, s.queue.heap p = some u →
    ∃ t ∈ s.created, u = { t with expiration_ := due t s.fired }
  fired : ∀ before now u after, s.fired = before ++ (now, u) :: after →
    u.expiration_ ≤ now ∧ ∃ t ∈ s.created, u = { t with expiration_ := due t before }

/-- The timer of a run has a number of the counter. -/
theorem Inv.fired_seen (h : s.Inv) {f : Int × Timer} (hf : f ∈ s.fired) :
    f.2.sequence_ ∈ s.queue.seen := by
  have hmem : f.2 ∈ s.queue.ran.map Prod.snd := by
    rw [← h.ran]
    exact List.mem_map_of_mem hf
  obtain ⟨r, hr, e⟩ := List.mem_map.mp hmem
  rw [← e]
  exact h.history.ran r hr

/-- A timer that is new has not run. -/
theorem Inv.due_new (h : s.Inv) {news : List (Nat × Timer)} (hc : Counted s.queue.seen news)
    {x : Nat × Timer} (hx : x ∈ news) : due x.2 s.fired = x.2.expiration_ := by
  apply due_nil
  intro f hf e
  apply hc.fresh x hx
  rw [← e]
  exact h.fired_seen hf

/-- The timers that run in one `handleRead` have different numbers. -/
theorem runs_apart {q : TimerQueue} (h : q.History) {rs : List (Nat × Timer)}
    (hnodup : (rs.map Prod.fst).Nodup) (hlive : ∀ r ∈ rs, q.heap r.1 = some r.2) :
    (rs.map fun r => r.2.sequence_).Nodup := by
  refine (List.nodup_map_iff_inj_on (List.Nodup.of_map _ hnodup)).mpr ?_
  intro r hr r' hr' heq
  have hp := h.distinct _ _ _ _ (hlive r hr) (hlive r' hr') heq
  exact List.inj_on_of_nodup_map hnodup hr hr' hp

/-- A new timer joins those that were made. -/
theorem Inv.created_once (h : s.Inv) {news : List (Nat × Timer)}
    (hc : Counted s.queue.seen news) :
    ((s.created ++ news.map Prod.snd).map Timer.sequence_).Nodup := by
  rw [List.map_append, List.map_map, List.nodup_append]
  refine ⟨h.once, hc.nodup, ?_⟩
  intro q hq q' hq' e
  rw [h.seen] at hq
  obtain ⟨x, hx, rfl⟩ := List.mem_map.mp hq'
  apply hc.fresh x hx
  rw [← show q = x.2.sequence_ from e]
  exact hq

theorem Inv.addTimer (h : s.Inv) {endKey : Nat → Int} {new : Nat × Timer}
    (hl : (Op.addTimerInLoop endKey new).Legal s.queue) (hc : Counted s.queue.seen [new])
    (hok : s.apply (.addTimerInLoop endKey new) = .ok s') : s'.Inv := by
  simp only [apply, bind_eq_ok] at hok
  obtain ⟨queue, hrun, e⟩ := hok
  cases e
  have hhist := step_history h.queue h.history hl hc hrun
  obtain ⟨hfree, hp⟩ := hl.free new (List.mem_singleton_self new)
  obtain ⟨queue', hok', hinv, ha⟩ := addTimer.spec endKey h.queue hfree hp
  have heq : Op.run s.queue (.addTimerInLoop endKey new) = .ok queue' := hok'
  rw [hrun] at heq
  cases heq
  refine ⟨hinv, hhist, ?_, h.created_once hc, ?_, fun p u hu => ?_, fun before now u after e => ?_⟩
  · simp only [List.map_append, h.seen, ha.seen, Op.news, List.map_cons, List.map_nil]
  · simp only [fires, List.append_nil, h.ran, ha.ran]
  · simp only [fires, List.append_nil] at hu ⊢
    rw [ha.heap] at hu
    by_cases hpn : p = new.1
    · subst hpn
      rw [Function.update_self] at hu
      cases hu
      have hmem : new.2 ∈ [new].map Prod.snd := List.mem_singleton_self _
      refine ⟨new.2, List.mem_append_right _ hmem, ?_⟩
      rw [h.due_new hc (List.mem_singleton_self new)]
    · rw [Function.update_of_ne hpn] at hu
      obtain ⟨t, ht, e⟩ := h.live p u hu
      exact ⟨t, List.mem_append_left _ ht, e⟩
  · simp only [fires, List.append_nil] at e
    obtain ⟨hnow, t, ht, e'⟩ := h.fired before now u after e
    exact ⟨hnow, t, List.mem_append_left _ ht, e'⟩

/-- A `handleRead` fires the timers that are due, each once. -/
theorem Inv.handleRead_fires (h : s.Inv) {endKey : Nat → Int} {now : Int}
    {adds : Nat → List (Nat × Timer)} (hl : (Op.handleRead endKey now adds).Legal s.queue)
    (hok : s.apply (.handleRead endKey now adds) = .ok s') :
    ∃ rs, s'.queue.Inv [] ∧ Fired now (added adds (s.queue.expired now)) s.queue s'.queue ∧
      s'.queue.ran = s.queue.ran ++ rs ∧ (rs.map fun r => r.2.sequence_).Nodup ∧
      (∀ p u, (p, u) ∈ rs ↔ s.queue.heap p = some u ∧ u.expiration_ ≤ now) ∧
      s'.created = s.created ++ (added adds (s.queue.expired now)).map Prod.snd ∧
      s'.fired = s.fired ++ rs.map fun r => (now, r.2) := by
  simp only [apply, bind_eq_ok] at hok
  obtain ⟨queue, hrun, e⟩ := hok
  cases e
  obtain ⟨queue', hok', hinv, hf, _⟩ := handleRead.spec endKey now h.queue hl
  have heq : Op.run s.queue (.handleRead endKey now adds) = .ok queue' := hok'
  rw [hrun] at heq
  cases heq
  obtain ⟨rs, hran, hnodup, hmem, _⟩ := hf.runs h.queue
  have hlive : ∀ r ∈ rs, s.queue.heap r.1 = some r.2 := fun r hr => ((hmem r.1 r.2).mp hr).1
  refine ⟨rs, hinv, hf, hran, runs_apart h.history hnodup hlive, hmem, rfl, ?_⟩
  simp only [fires, hran, List.drop_left]

theorem Inv.handleRead (h : s.Inv) {endKey : Nat → Int} {now : Int}
    {adds : Nat → List (Nat × Timer)} (hl : (Op.handleRead endKey now adds).Legal s.queue)
    (hc : Counted s.queue.seen (added adds (s.queue.expired now)))
    (hok : s.apply (.handleRead endKey now adds) = .ok s') : s'.Inv := by
  have hrun : Op.run s.queue (.handleRead endKey now adds) = .ok s'.queue := by
    simp only [apply, bind_eq_ok] at hok
    obtain ⟨queue, hrun, e⟩ := hok
    cases e
    exact hrun
  obtain ⟨rs, hinv, hf, hran, hnodup, hmem, hcreated, hfired⟩ := h.handleRead_fires hl hok
  -- another run of the batch is one of another timer
  have hother : ∀ {pre post : List (Nat × Timer)} {r : Nat × Timer}, rs = pre ++ r :: post →
      ∀ f ∈ (pre.map fun r => (now, r.2)) ++ post.map fun r => (now, r.2),
        f.2.sequence_ ≠ r.2.sequence_ := by
    intro pre post r e f hfm
    rw [e, List.map_append, List.map_cons, List.nodup_middle, List.nodup_cons] at hnodup
    rw [← List.map_append] at hfm hnodup
    obtain ⟨r', hr', rfl⟩ := List.mem_map.mp hfm
    intro hsame
    exact hnodup.1 (hsame ▸ List.mem_map_of_mem hr')
  have hbatch_run : ∀ {pre post : List (Nat × Timer)} {r : Nat × Timer}, rs = pre ++ r :: post →
      r.2.expiration_ ≤ now ∧ ∃ t ∈ s'.created,
        r.2 = { t with expiration_ := due t (s.fired ++ pre.map fun r => (now, r.2)) } := by
    intro pre post r hsplit
    obtain ⟨hlive, hdue⟩ := (hmem r.1 r.2).mp (by rw [hsplit]; simp)
    obtain ⟨t, ht, e⟩ := h.live r.1 r.2 hlive
    refine ⟨hdue, t, by rw [hcreated]; exact List.mem_append_left _ ht, ?_⟩
    rw [due_skip]
    · exact e
    · intro f hfm
      have hseq : r.2.sequence_ = t.sequence_ := by rw [e]
      rw [← hseq]
      exact hother hsplit f (List.mem_append_left _ hfm)
  refine ⟨hinv, step_history h.queue h.history hl hc hrun, ?_, ?_, ?_, fun p u hu => ?_,
    fun before now' u after e => ?_⟩
  · rw [hcreated, hf.seen, List.map_append, h.seen, List.map_map]
    rfl
  · rw [hcreated]
    exact h.created_once hc
  · rw [hfired, hran, List.map_append, List.map_append, h.ran, List.map_map]
    rfl
  · cases hold : s.queue.heap p with
    | none =>
      -- a timer that a callback made
      by_cases hin : p ∈ (added adds (s.queue.expired now)).map Prod.fst
      · obtain ⟨x, hx, rfl⟩ := List.mem_map.mp hin
        rw [hf.new x hx] at hu
        cases hu
        refine ⟨x.2, ?_, ?_⟩
        · rw [hcreated]
          exact List.mem_append_right _ (List.mem_map_of_mem hx)
        · rw [hfired, due_skip, h.due_new hc hx]
          intro f hfm e
          obtain ⟨r, hr, rfl⟩ := List.mem_map.mp hfm
          apply hc.fresh x hx
          rw [← e]
          exact h.history.live r.1 r.2 ((hmem r.1 r.2).mp hr).1
      · rw [hf.free p hold hin] at hu
        cases hu
    | some t₀ =>
      obtain ⟨t, ht, e⟩ := h.live p t₀ hold
      refine ⟨t, by rw [hcreated]; exact List.mem_append_left _ ht, ?_⟩
      by_cases hdue : t₀.expiration_ ≤ now
      · -- it ran, and repeats
        rw [hf.due p t₀ hold hdue] at hu
        obtain ⟨hrep, rfl⟩ := renewed_some hu
        obtain ⟨pre, post, hsplit⟩ := List.append_of_mem ((hmem p t₀).mpr ⟨hold, hdue⟩)
        have hseq : t₀.sequence_ = t.sequence_ := by rw [e]
        have hlast : due t s'.fired = addTime now t.interval_ := by
          rw [hfired, hsplit, List.map_append, List.map_cons, ← List.append_assoc,
            List.append_cons, due_skip, due_run hseq]
          intro f hfm
          rw [← hseq]
          exact hother hsplit f (List.mem_append_right _ hfm)
        rw [hlast, Timer.restart, if_pos hrep, e]
      · rw [hf.kept p t₀ hold (by omega)] at hu
        cases hu
        rw [hfired, due_skip]
        · exact e
        · intro f hfm hsame
          obtain ⟨r, hr, rfl⟩ := List.mem_map.mp hfm
          obtain ⟨hlive, hdue'⟩ := (hmem r.1 r.2).mp hr
          have hseq : r.2.sequence_ = u.sequence_ := by
            rw [e]
            exact hsame
          have hp := h.history.distinct _ _ _ _ hlive hold hseq
          rw [hp, hold] at hlive
          cases hlive
          exact hdue hdue'
  · rw [hfired] at e
    rcases List.append_eq_append_iff.mp e with ⟨pre, rfl, hbatch⟩ | ⟨post, hold, hbatch⟩
    · obtain ⟨pre', rest, hsplit, rfl, hrest⟩ := List.map_eq_append_iff.mp hbatch
      obtain ⟨r, post', rfl, hr, _⟩ := List.map_eq_cons_iff.mp hrest
      cases hr
      exact hbatch_run hsplit
    · cases post with
      | nil =>
        rw [List.append_nil] at hold
        rw [List.nil_append] at hbatch
        obtain ⟨r, post', hsplit, hr, _⟩ := List.map_eq_cons_iff.mp hbatch.symm
        cases hr
        have hfirst := hbatch_run (show rs = [] ++ r :: post' from hsplit)
        rw [List.map_nil, List.append_nil, hold] at hfirst
        exact hfirst
      | cons f post =>
        rw [List.cons_append, List.cons.injEq] at hbatch
        obtain ⟨rfl, _⟩ := hbatch
        obtain ⟨hnow, t, ht, e'⟩ := h.fired before now' u post hold
        exact ⟨hnow, t, by rw [hcreated]; exact List.mem_append_left _ ht, e'⟩

theorem reachable_inv (h : machine.Reachable s) : s.Inv := by
  apply h.invariant
  · rintro s rfl
    exact ⟨construct_inv, by constructor <;> simp [construct, TimerQueue.construct], rfl, .nil,
      rfl, by simp [construct, TimerQueue.construct], by simp [construct]⟩
  · rintro s op s' hinv ⟨⟨hl, hc⟩, hok⟩
    cases op with
    | addTimerInLoop endKey new => exact hinv.addTimer hl hc hok
    | handleRead endKey now adds => exact hinv.handleRead hl hc hok

/-! ## The law -/

end ClockedQueue

end jmuduo.net
