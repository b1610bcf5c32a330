-- The keys that the timer queue reads. Two conditions of TimerQueue.cc are joined
-- by `|`, which evaluates both of its operands, so that the key behind an iterator
-- is read also when the iterator is end().
import Jmuduo.TimerRuns

open outcome sets runs

namespace jmuduo.net

namespace TimerQueue

/-! ## The reads of the source -/

/-- `it->first`. There is no key at `end()`. -/
def keyAt (it : Option Entry) : Outcome Int := demand .badPointer (it.map Entry.first)

/-! The functions of the queue once more, where each key is read as the source
reads it. -/

namespace Strict

def insert (p : Nat) (s : TimerQueue) : Outcome (Bool × TimerQueue) := do
  let timer ← s.deref p
  let whenExpired := timer.expiration_
  let it := s.timers_.begin
  let first ← keyAt it
  let earliestChanged := it.isNone || whenExpired < first
  let result := s.timers_.insert (timer.entry p)
  check "result.second == true" (result.2 = true)
  pure (earliestChanged, { s with timers_ := result.1 })

def addTimerInLoop (p : Nat) (s : TimerQueue) : Outcome TimerQueue := do
  let (earliestChanged, s) ← insert p s
  if earliestChanged then
    let timer ← s.deref p
    pure (s.resetTimerfd timer.expiration_)
  else pure s

def addTimer (s : TimerQueue) (new : Nat × Timer) : Outcome TimerQueue :=
  addTimerInLoop new.1 (s.create new.1 new.2)

/-- The iterator of `lower_bound` is the begin of what stays. -/
def getExpired (now : Int) (s : TimerQueue) : Outcome (List Entry × TimerQueue) := do
  let sentry : Entry := toLex (now, UINTPTR_MAX)
  let expired := s.timers_.below sentry
  let s := { s with timers_ := s.timers_.eraseBelow sentry }
  let it := s.timers_.begin
  let first ← keyAt it
  check "it == timers_.end() | now < it->first" (it.isNone || now < first)
  pure (expired, s)

def resetOne (now : Int) (s : TimerQueue) (e : Entry) : Outcome TimerQueue := do
  let timer ← s.deref e.second
  if timer.repeated_ then
    let (_, s) ← insert e.second
      { s with heap := Function.update s.heap e.second (some (timer.restart now)) }
    pure s
  else pure { s with heap := Function.update s.heap e.second none }

/-- `reset` tests `timers_.empty()` before it reads the key. -/
def rearm (s : TimerQueue) : Outcome TimerQueue := do
  let nextExpired ← if s.timers_.begin.isNone then pure 0 else keyAt s.timers_.begin
  pure (if nextExpired > 0 then s.resetTimerfd nextExpired else s)

def reset (now : Int) (expired : List Entry) (s : TimerQueue) : Outcome TimerQueue := do
  let s ← expired.foldlM (resetOne now) s
  rearm s

end Strict

/-! ## Where the reads are the same -/

/-- There is a first entry. -/
def Nonempty (s : TimerQueue) : Prop := ∃ e, e ∈ s.timers_

theorem nonempty_iff {s : TimerQueue} : s.Nonempty ↔ ∃ e, s.timers_.begin = some e := by
  unfold Nonempty
  constructor
  · rintro ⟨e, he⟩
    cases hb : s.timers_.begin with
    | none => exact absurd he (OrderedSet.begin_eq_none.mp hb e)
    | some m => exact ⟨m, rfl⟩
  · rintro ⟨e, he⟩
    exact ⟨e, (OrderedSet.begin_eq_some.mp he).1⟩

theorem begin_of_empty {s : TimerQueue} (h : ¬ s.Nonempty) : s.timers_.begin = none := by
  cases hb : s.timers_.begin with
  | none => rfl
  | some m => exact absurd (nonempty_iff.mpr ⟨m, hb⟩) h

theorem strict_insert_eq {s : TimerQueue} (h : s.Nonempty) (endKey : Nat → Int) (p : Nat) :
    Strict.insert p s = s.insert endKey p := by
  obtain ⟨e, he⟩ := nonempty_iff.mp h
  unfold Strict.insert insert keyAt beginKey
  simp only [he, Option.map_some, demand_some, ok_bind]

/-- The first timer is compared with what stands at `end()`. -/
theorem strict_insert_empty {s : TimerQueue} (h : ¬ s.Nonempty) {p : Nat} {timer : Timer}
    (hp : s.heap p = some timer) : Strict.insert p s = .error .badPointer := by
  unfold Strict.insert keyAt
  rw [deref, hp, begin_of_empty h]
  rfl

theorem strict_addTimer_eq {s : TimerQueue} (h : s.Nonempty) (endKey : Nat → Int)
    (new : Nat × Timer) : Strict.addTimer s new = s.addTimer endKey new := by
  have hcreate : (s.create new.1 new.2).Nonempty := h
  unfold Strict.addTimer Strict.addTimerInLoop addTimer addTimerInLoop
  rw [strict_insert_eq hcreate endKey]

theorem strict_addTimer_empty {s : TimerQueue} (h : ¬ s.Nonempty) (new : Nat × Timer) :
    Strict.addTimer s new = .error .badPointer := by
  have hcreate : ¬ (s.create new.1 new.2).Nonempty := h
  have hheap : (s.create new.1 new.2).heap new.1 = some new.2 := Function.update_self _ _ _
  unfold Strict.addTimer Strict.addTimerInLoop
  rw [strict_insert_empty hcreate hheap]
  rfl

/-- Some timer is later than `now`. -/
def Later (s : TimerQueue) (now : Int) : Prop := ∃ e, e ∈ s.timers_ ∧ now < e.first

theorem later_iff {s : TimerQueue} {out : List Entry} (h : s.Inv out) (now : Int) :
    ({ s with timers_ := s.timers_.eraseBelow (toLex (now, UINTPTR_MAX)) } :
      TimerQueue).Nonempty ↔ s.Later now := by
  refine exists_congr fun e => ?_
  rw [OrderedSet.mem_eraseBelow]
  refine and_congr_right fun he => ?_
  obtain ⟨timer, ht, _⟩ := h.entry_of_mem he
  rw [← not_lt, Entry.lt_sentry (h.address _ _ ht), not_le]

theorem strict_getExpired_eq {s : TimerQueue} {out : List Entry} (h : s.Inv out) {now : Int}
    (hl : s.Later now) (endKey : Nat → Int) :
    Strict.getExpired now s = s.getExpired endKey now := by
  obtain ⟨e, he⟩ := nonempty_iff.mp ((later_iff h now).mpr hl)
  unfold Strict.getExpired getExpired keyAt beginKey
  simp only [he, Option.map_some, demand_some, ok_bind]

/-- When all timers are expired, `lower_bound` is `end()`. -/
theorem strict_getExpired_end {s : TimerQueue} {out : List Entry} (h : s.Inv out) {now : Int}
    (hl : ¬ s.Later now) : Strict.getExpired now s = .error .badPointer := by
  rw [← later_iff h] at hl
  unfold Strict.getExpired keyAt
  simp only [begin_of_empty hl]
  rfl

theorem strict_rearm_eq (s : TimerQueue) : Strict.rearm s = .ok s.rearm := by
  unfold Strict.rearm rearm beginKey keyAt
  cases s.timers_.begin <;> rfl

/-- The entry is one of a repeating timer, which comes back. -/
def Repeats (s : TimerQueue) (e : Entry) : Prop :=
  ∃ timer, s.heap e.second = some timer ∧ timer.repeated_ = true

theorem strict_resetOne_eq {s : TimerQueue} {e : Entry} (h : s.Nonempty ∨ ¬ s.Repeats e)
    (endKey : Nat → Int) (now : Int) : Strict.resetOne now s e = s.resetOne endKey now e := by
  unfold Strict.resetOne resetOne deref
  cases ht : s.heap e.second with
  | none => rfl
  | some timer =>
    simp only [demand_some, ok_bind]
    split
    · rename_i hrep
      have hne : s.Nonempty := h.resolve_right fun hno => hno ⟨timer, ht, hrep⟩
      have hheap : ({ s with heap := Function.update s.heap e.second (some (timer.restart now)) } :
          TimerQueue).Nonempty := hne
      rw [strict_insert_eq hheap endKey]
    · rfl

theorem strict_resetOne_empty {s : TimerQueue} {e : Entry} (h : ¬ s.Nonempty) (hr : s.Repeats e)
    (now : Int) : Strict.resetOne now s e = .error .badPointer := by
  obtain ⟨timer, ht, hrep⟩ := hr
  unfold Strict.resetOne deref
  have hempty : ¬ ({ s with
      heap := Function.update s.heap e.second (some (timer.restart now)) } :
        TimerQueue).Nonempty := h
  rw [ht, demand_some, ok_bind, if_pos hrep,
    strict_insert_empty hempty (Function.update_self _ _ _)]
  rfl

/-- Every key that `reset` reads is there: the set has an entry, or no timer comes
back into it. -/
def Returns (s : TimerQueue) (out : List Entry) : Prop :=
  s.Nonempty ∨ ∀ e ∈ out, ¬ s.Repeats e

/-- What one reset leaves for the others. -/
theorem Renewed.rest {s s' : TimerQueue} {e : Entry} {out : List Entry} {now : Int}
    (hr : s.Renewed now e s') (h : s.Inv (e :: out)) :
    ∀ e' ∈ out, s'.Repeats e' ↔ s.Repeats e' := by
  intro e' he'
  unfold Repeats
  rw [hr.other _ (h.head_apart e' he')]

/-- A reset takes no entry of the others out, and adds one for a repeating timer
only. -/
theorem Renewed.nonempty {s s' : TimerQueue} {e : Entry} {out : List Entry} {now : Int}
    (hr : s.Renewed now e s') (h : s.Inv (e :: out)) (h' : s'.Inv out) :
    (s.Nonempty → s'.Nonempty) ∧ (¬ s.Repeats e → s'.Nonempty → s.Nonempty) := by
  obtain ⟨timer, ht, hte⟩ := (h.live e).mp (Or.inr List.mem_cons_self)
  constructor
  · rintro ⟨x, hx⟩
    have hlive := (h.live x).mp (Or.inl hx)
    have hne : x.second ≠ e.second := by
      intro hp
      have hsame := hlive.unique ⟨timer, ht, hte⟩ hp
      exact h.apart e List.mem_cons_self (hsame ▸ hx)
    have hlive' : s'.Live x := by
      unfold Live
      rw [hr.other _ hne]
      exact hlive
    refine ⟨x, ((h'.live x).mpr hlive').resolve_right fun hout => ?_⟩
    exact h.apart x (List.mem_cons_of_mem _ hout) hx
  · rintro hno ⟨x, hx⟩
    obtain ⟨timer', ht', hx'⟩ := (h'.live x).mp (Or.inl hx)
    have hne : x.second ≠ e.second := by
      intro hp
      rw [hp, hr.self timer ht, renewed, if_neg fun hrep => hno ⟨timer, ht, hrep⟩] at ht'
      cases ht'
    rw [hr.other _ hne] at ht'
    rcases (h.live x).mpr ⟨timer', ht', hx'⟩ with hin | hin
    · exact ⟨x, hin⟩
    · rcases List.mem_cons.mp hin with rfl | hout
      · exact absurd rfl hne
      · exact absurd hx (h'.apart x hout)

/-- The loop of `reset` reads the same keys, or it comes to a repeating timer while
the set is empty. -/
theorem strict_resets {s : TimerQueue} {es : List Entry} (h : s.Inv es) (endKey : Nat → Int)
    (now : Int) :
    (s.Returns es → es.foldlM (Strict.resetOne now) s = es.foldlM (resetOne endKey now) s) ∧
    (¬ s.Returns es → es.foldlM (Strict.resetOne now) s = .error .badPointer) := by
  induction es generalizing s with
  | nil => exact ⟨fun _ => rfl, fun hno => absurd (Or.inr (by simp)) hno⟩
  | cons e es ih =>
    obtain ⟨s₁, hok, h1, hr⟩ := resetOne.spec endKey now h
    obtain ⟨hgrow, hback⟩ := hr.nonempty h h1
    by_cases hhead : s.Nonempty ∨ ¬ s.Repeats e
    · have hreturns : s.Returns (e :: es) ↔ s₁.Returns es := by
        unfold Returns
        constructor
        · rintro (hne | hall)
          · exact Or.inl (hgrow hne)
          · refine Or.inr fun e' he' => ?_
            rw [hr.rest h e' he']
            exact hall e' (List.mem_cons_of_mem _ he')
        · intro hor
          by_cases hne : s.Nonempty
          · exact Or.inl hne
          · have hno := hhead.resolve_left hne
            refine Or.inr fun e' he' => ?_
            rcases List.mem_cons.mp he' with rfl | hin
            · exact hno
            · rw [← hr.rest h e' hin]
              exact hor.resolve_left (fun hne' => hne (hback hno hne')) e' hin
      rw [List.foldlM_cons, List.foldlM_cons, strict_resetOne_eq hhead endKey, hok, ok_bind,
        ok_bind, hreturns]
      exact ih h1
    · rw [not_or, not_not] at hhead
      refine ⟨fun hreturns => ?_, fun _ => ?_⟩
      · rcases hreturns with hne | hall
        · exact absurd hne hhead.1
        · exact absurd hhead.2 (hall e List.mem_cons_self)
      · rw [List.foldlM_cons, strict_resetOne_empty hhead.1 hhead.2]
        rfl

theorem strict_reset_eq {s : TimerQueue} {out : List Entry} (h : s.Inv out)
    (hreturns : s.Returns out) (endKey : Nat → Int) (now : Int) :
    Strict.reset now out s = s.reset endKey now out := by
  unfold Strict.reset reset
  rw [(strict_resets h endKey now).1 hreturns]
  simp only [strict_rearm_eq, pure_eq_ok]

theorem strict_reset_end {s : TimerQueue} {out : List Entry} (h : s.Inv out)
    (hno : ¬ s.Returns out) (now : Int) : Strict.reset now out s = .error .badPointer := by
  unfold Strict.reset
  rw [(strict_resets h (fun _ => 0) now).2 hno]
  rfl

end TimerQueue

/-! ## The calls, also within a handleRead -/

/-- The queue, and within a `handleRead` its `now` and the expired entries, which
`getExpired` took out and `reset` will renew. -/
structure TimerTurn where
  queue : TimerQueue
  batch : Option (Int × List Entry)

namespace TimerTurn

open TimerQueue

/-- A timer is added, by a functor of the loop or by a callback of an expired timer,
or `handleRead` comes to its `getExpired` or its `reset`. -/
inductive Call
  | addTimer (new : Nat × Timer)
  | getExpired (now : Int)
  | reset

/-- The call where the key at `end()` is what stands there. -/
def Call.run (endKey : Nat → Int) (s : TimerTurn) : Call → Outcome TimerTurn
  | .addTimer new => do
    let queue ← s.queue.addTimer endKey new
    pure { s with queue := queue }
  | .getExpired now => do
    let (expired, queue) ← s.queue.readTimerfd.getExpired endKey now
    pure ⟨queue, some (now, expired)⟩
  | .reset =>
    match s.batch with
    | none => pure s
    | some (now, expired) => do
      let queue ← s.queue.reset endKey now expired
      pure ⟨queue, none⟩

/-- The call where a read through `end()` is a fault. -/
def Call.strict (s : TimerTurn) : Call → Outcome TimerTurn
  | .addTimer new => do
    let queue ← Strict.addTimer s.queue new
    pure { s with queue := queue }
  | .getExpired now => do
    let (expired, queue) ← Strict.getExpired now s.queue.readTimerfd
    pure ⟨queue, some (now, expired)⟩
  | .reset =>
    match s.batch with
    | none => pure s
    | some (now, expired) => do
      let queue ← Strict.reset now expired s.queue
      pure ⟨queue, none⟩

/-- When the call can come. A new timer has an address that is free. -/
def Call.Enabled (s : TimerTurn) : Call → Prop
  | .addTimer new => Allocated s.queue.heap [new]
  | .getExpired _ => s.batch = none
  | .reset => s.batch ≠ none

/-- All the calls, whatever keys the reads through `end()` give. -/
def calls : Machine TimerTurn ((Nat → Int) × Call) where
  init s := s = ⟨.construct, none⟩
  step s a s' := a.2.Enabled s ∧ a.2.run a.1 s = .ok s'

/-- The entries that `getExpired` took out and `reset` did not renew yet. -/
def out (s : TimerTurn) : List Entry :=
  match s.batch with
  | none => []
  | some (_, expired) => expired

/-- Where the call reads no key through `end()`: `insert` not into an empty set, and
`getExpired` not when all timers are expired. -/
def Call.Inside (s : TimerTurn) : Call → Prop
  | .addTimer _ => s.queue.Nonempty
  | .getExpired now => s.queue.Later now
  | .reset => s.queue.Returns s.out

/-- Each call returns, whatever stands at `end()`, and keeps the invariant. -/
theorem Call.returns {s : TimerTurn} {call : Call} (h : s.queue.Inv s.out)
    (he : call.Enabled s) (endKey : Nat → Int) :
    ∃ s', call.run endKey s = .ok s' ∧ s'.queue.Inv s'.out := by
  cases call with
  | addTimer new =>
    obtain ⟨hfree, hp⟩ := he.free new (List.mem_singleton_self new)
    obtain ⟨queue, hok, hinv, _⟩ := addTimer.spec endKey h hfree hp
    exact ⟨{ s with queue := queue }, by rw [run, hok]; rfl, hinv⟩
  | getExpired now =>
    have hbatch : s.batch = none := he
    have hread : s.queue.readTimerfd.Inv [] := by
      rw [out, hbatch] at h
      exact h.congr rfl rfl
    obtain ⟨timers, hok, hinv, _⟩ := getExpired.spec endKey now hread
    exact ⟨⟨_, some (now, _)⟩, by rw [run, hok]; rfl, hinv⟩
  | reset =>
    unfold run
    cases hb : s.batch with
    | none => exact absurd hb he
    | some batch =>
      obtain ⟨now, expired⟩ := batch
      rw [out, hb] at h
      obtain ⟨queue, hok, hinv, _⟩ := resets.spec endKey now h
      obtain ⟨hheap, htimers, _⟩ := rearm_fields queue
      refine ⟨⟨queue.rearm, none⟩, ?_, hinv.congr hheap htimers⟩
      simp only [TimerQueue.reset, hok, ok_bind, pure_eq_ok]

theorem reachable_inv {s : TimerTurn} (h : calls.Reachable s) : s.queue.Inv s.out := by
  apply h.invariant
  · rintro s rfl
    exact construct_inv
  · rintro s ⟨endKey, call⟩ s' hs ⟨he, hok⟩
    obtain ⟨s₁, hok', h1⟩ := Call.returns hs he endKey
    rw [hok'] at hok
    cases hok
    exact h1

/-- Inside, both readings of the call agree. -/
theorem Call.strict_eq {s : TimerTurn} {call : Call} (h : s.queue.Inv s.out)
    (he : call.Enabled s) (hin : call.Inside s) (endKey : Nat → Int) :
    call.strict s = call.run endKey s := by
  cases call with
  | addTimer new =>
    simp only [strict, run]
    rw [strict_addTimer_eq hin endKey]
  | getExpired now =>
    have hread : s.queue.readTimerfd.Inv s.out := h.congr rfl rfl
    simp only [strict, run]
    rw [strict_getExpired_eq hread hin endKey]
  | reset =>
    simp only [strict, run]
    cases hb : s.batch with
    | none => rfl
    | some batch =>
      have hreturns : s.queue.Returns s.out := hin
      rw [out, hb] at h hreturns
      simp only [strict_reset_eq h hreturns endKey]

/-- Elsewhere the call reads through `end()`. -/
theorem Call.strict_end {s : TimerTurn} {call : Call} (h : s.queue.Inv s.out)
    (he : call.Enabled s) (hin : ¬ call.Inside s) : call.strict s = .error .badPointer := by
  cases call with
  | addTimer new =>
    simp only [strict]
    rw [strict_addTimer_empty hin]
    rfl
  | getExpired now =>
    have hread : s.queue.readTimerfd.Inv s.out := h.congr rfl rfl
    simp only [strict]
    rw [strict_getExpired_end hread hin]
    rfl
  | reset =>
    simp only [strict]
    cases hb : s.batch with
    | none => exact absurd hb he
    | some batch =>
      have hno : ¬ s.queue.Returns s.out := hin
      rw [out, hb] at h hno
      simp only [strict_reset_end h hno]
      rfl

/-- In every state, each call reads no key through `end()` exactly if it is inside.
Its asserts hold in any case, whatever stands at `end()`. -/
theorem keys_are_read_inside_the_set_exactly (s : TimerTurn) (h : calls.Reachable s)
    (call : Call) (he : call.Enabled s) :
    ((∃ s', call.strict s = .ok s') ↔ call.Inside s) ∧
    (¬ call.Inside s → call.strict s = .error .badPointer) ∧
    ∀ endKey, (∃ s', call.run endKey s = .ok s') ∧
      (call.Inside s → call.strict s = call.run endKey s) := by
  have hinv := reachable_inv h
  refine ⟨⟨?_, fun hin => ?_⟩, Call.strict_end hinv he, fun endKey => ⟨?_, ?_⟩⟩
  · rintro ⟨s', hok⟩
    by_contra hno
    rw [Call.strict_end hinv he hno] at hok
    cases hok
  · obtain ⟨s', hok, _⟩ := Call.returns hinv he fun _ => 0
    exact ⟨s', by rw [Call.strict_eq hinv he hin fun _ => 0, hok]⟩
  · obtain ⟨s', hok, _⟩ := Call.returns hinv he endKey
    exact ⟨s', hok⟩
  · exact fun hin => Call.strict_eq hinv he hin endKey

/-- The second timer is compared with the first one. -/
theorem the_key_of_the_first_timer_is_read :
    ∃ s s', calls.Reachable s ∧ s.queue.Nonempty ∧
      (Call.addTimer (2, ⟨7, false, 0, 2⟩)).strict s = .ok s' := by
  have h0 : calls.Reachable ⟨.construct, none⟩ := .start rfl
  obtain ⟨s, hok, hp⟩ := exists_of_passes
    (x := (Call.addTimer (1, ⟨5, false, 0, 1⟩)).run (fun _ => 0) ⟨.construct, none⟩)
    (p := fun s => s.queue.timers_.begin.isSome &&
      decide (Allocated s.queue.heap [(2, ⟨7, false, 0, 2⟩)])) (by decide +kernel)
  have hfree : Allocated construct.heap [(1, ⟨5, false, 0, 1⟩)] := by decide
  have h1 := h0.next (a := (fun _ => 0, .addTimer (1, ⟨5, false, 0, 1⟩)))
    (by exact ⟨hfree, hok⟩)
  rw [Bool.and_eq_true, Option.isSome_iff_exists, decide_eq_true_eq] at hp
  have hne := nonempty_iff.mpr hp.1
  obtain ⟨hiff, _⟩ := keys_are_read_inside_the_set_exactly s h1
    (.addTimer (2, ⟨7, false, 0, 2⟩)) hp.2
  obtain ⟨s', hok'⟩ := hiff.mpr hne
  exact ⟨s, s', h1, hne, hok'⟩

/-- The first timer is compared with the key at `end()`. -/
theorem the_first_timer_is_compared_with_the_end :
    calls.Reachable ⟨.construct, none⟩ ∧
      (Call.addTimer (1, ⟨5, false, 0, 1⟩)).Enabled ⟨.construct, none⟩ ∧
      (Call.addTimer (1, ⟨5, false, 0, 1⟩)).strict ⟨.construct, none⟩ = .error .badPointer ∧
      (Call.getExpired 5).strict ⟨.construct, none⟩ = .error .badPointer := by
  have hfree : Allocated construct.heap [(1, ⟨5, false, 0, 1⟩)] := by decide
  exact ⟨.start rfl, hfree, rfl, rfl⟩

end TimerTurn

end jmuduo.net
