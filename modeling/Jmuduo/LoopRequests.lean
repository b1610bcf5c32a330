-- The laws of what an event loop is asked to do: the functors run once and
-- in their order, and when a request that comes before `loop` is kept.
import Jmuduo.EventLoop

open runs

namespace jmuduo.net

namespace EventLoop

variable {τ κ φ : Type} [DecidableEq τ] [DecidableEq κ]

theorem reachable_inv {threadId : τ} {wakeChannel : κ} {s : EventLoop τ κ φ}
    (h : (machine threadId wakeChannel).Reachable s) : s.Inv := by
  apply h.invariant
  · rintro s rfl
    exact construct_inv threadId wakeChannel
  · rintro s a s' hs ⟨he, rfl⟩
    exact hs.apply he

/-! ## The batches -/

/-- Only a swap brings functors into the batch: any other step calls the
functors that are in it, and puts new ones behind the pending ones. -/
theorem batch_apply {s : EventLoop τ κ φ} {a : Act τ κ φ} (h : s.Inv) (he : a.Enabled s)
    (hswap : a ≠ .swap) :
    (a.apply s).ran ++ (a.apply s).functors = s.ran ++ s.functors ∧
      ∃ later, (a.apply s).pendingFunctors_ = s.pendingFunctors_ ++ later := by
  have hsame : s.pendingFunctors_ = s.pendingFunctors_ ++ [] := (List.append_nil _).symm
  cases a with
  | queueInLoop t cb => exact ⟨rfl, [cb], rfl⟩
  | callReturns t =>
    simp only [Act.apply, EventLoop.callReturns]
    split
    · exact ⟨rfl, [], hsame⟩
    · exact ⟨rfl, [], hsame⟩
  | whileTest =>
    simp only [Act.apply, EventLoop.whileTest]
    split
    · exact ⟨rfl, [], hsame⟩
    · exact ⟨rfl, [], hsame⟩
  | handleEvent =>
    obtain ⟨counter, pc, _, e⟩ := handleEvent.spec s
    have happly : Act.handleEvent.apply s = s.handleEvent := rfl
    rw [happly, e]
    exact ⟨rfl, [], hsame⟩
  | doPendingFunctors_ =>
    have hnone := h.functors_nil he.1 (by decide) (by decide)
    refine ⟨?_, [], hsame⟩
    rw [hnone]
    rfl
  | swap => exact absurd rfl hswap
  | callFunctor =>
    simp only [Act.apply, EventLoop.callFunctor]
    split
    · exact ⟨rfl, [], hsame⟩
    · rename_i f fs hf
      refine ⟨?_, [], hsame⟩
      rw [hf, List.append_assoc, List.singleton_append]
  | quit t => exact ⟨rfl, [], hsame⟩
  | loop => exact ⟨rfl, [], hsame⟩
  | clearQuit => exact ⟨rfl, [], hsame⟩
  | poll active => exact ⟨rfl, [], hsame⟩
  | handlerReturns => exact ⟨rfl, [], hsame⟩
  | functorReturns => exact ⟨rfl, [], hsame⟩
  | clearCalling => exact ⟨rfl, [], hsame⟩

/-- The functors that ran, the rest of the batch and the pending functors are
the functors that were queued, in their order. A functor that is queued while
a batch runs stays pending until the next swap, and up to then only functors
of the batch run. -/
theorem functors_run_once_in_queue_order (threadId : τ) (wakeChannel : κ) (s : EventLoop τ κ φ)
    (h : (machine threadId wakeChannel).Reachable s) :
    s.ran ++ s.functors ++ s.pendingFunctors_ = s.queued ∧
    ∀ t cb as s', s.CanCall t →
      ((machine threadId wakeChannel).restrict fun _ a _ => a ≠ .swap).Run
        (s.queueInLoop t cb) as s' →
      s'.ran ++ s'.functors = s.ran ++ s.functors ∧
        ∃ later, s'.pendingFunctors_ = s.pendingFunctors_ ++ cb :: later := by
  have hinv := reachable_inv h
  refine ⟨hinv.order, fun t cb as s' hcall hrun => ?_⟩
  have hpushed : (s.queueInLoop t cb).Inv := hinv.apply (a := .queueInLoop t cb) hcall
  have hall : s'.Inv ∧ s'.ran ++ s'.functors = s.ran ++ s.functors ∧
      ∃ later, s'.pendingFunctors_ = s.pendingFunctors_ ++ cb :: later := by
    apply hrun.keeps (P := fun u => u.Inv ∧ u.ran ++ u.functors = s.ran ++ s.functors ∧
      ∃ later, u.pendingFunctors_ = s.pendingFunctors_ ++ cb :: later)
    · rintro u a u' ⟨hu, hran, later, hlater⟩ ⟨⟨he, rfl⟩, hswap⟩
      obtain ⟨hbatch, more, hmore⟩ := batch_apply hu he hswap
      refine ⟨hu.apply he, hbatch.trans hran, later ++ more, ?_⟩
      rw [hmore, hlater, List.append_assoc, List.cons_append]
    · exact ⟨hpushed, rfl, [], rfl⟩
  exact hall.2

/-- The first functor of a batch queues another one, which stays behind. -/
theorem functors_run_once_where_one_queues_another :
    ∃ s : EventLoop Bool Unit Nat, (machine false ()).Reachable s ∧ s.pc = .functor ∧
      s.ran ++ s.functors ++ s.pendingFunctors_ = [7, 8] ∧
      ∀ as s', ((machine false ()).restrict fun _ a _ => a ≠ .swap).Run
        (s.queueInLoop false 9) as s' →
        s'.ran ++ s'.functors = [7, 8] ∧ ∃ later, s'.pendingFunctors_ = 9 :: later := by
  have h0 : (machine false ()).Reachable (construct false () : EventLoop Bool Unit Nat) :=
    .start rfl
  have h1 := h0.next (a := .loop) (by exact ⟨⟨⟨rfl, rfl⟩, rfl⟩, rfl⟩)
  have h2 := h1.next (a := .clearQuit) (by exact ⟨⟨rfl, rfl⟩, rfl⟩)
  have h3 := h2.next (a := .whileTest) (by exact ⟨⟨rfl, rfl⟩, rfl⟩)
  have h4 := h3.next (a := .queueInLoop true 7) (by exact ⟨⟨rfl, by decide⟩, rfl⟩)
  have h5 := h4.next (a := .callReturns true)
    (by exact ⟨show Phase.pushed ≠ .idle by decide, rfl⟩)
  have h6 := h5.next (a := .queueInLoop true 8) (by exact ⟨⟨rfl, by decide⟩, rfl⟩)
  have h7 := h6.next (a := .poll [()]) (by exact ⟨⟨rfl, rfl⟩, rfl⟩)
  have h8 := h7.next (a := .handleEvent) (by exact ⟨⟨⟨rfl, rfl⟩, by decide⟩, rfl⟩)
  have h9 := h8.next (a := .doPendingFunctors_) (by exact ⟨⟨⟨rfl, rfl⟩, rfl⟩, rfl⟩)
  have h10 := h9.next (a := .swap) (by exact ⟨⟨rfl, rfl⟩, rfl⟩)
  have h11 := h10.next (a := .callFunctor) (by exact ⟨⟨⟨rfl, rfl⟩, by decide⟩, rfl⟩)
  obtain ⟨horder, hlater⟩ := functors_run_once_in_queue_order _ _ _ h11
  exact ⟨_, h11, rfl, horder, fun as s' hrun => hlater false 9 as s' ⟨rfl, fun _ => by decide⟩ hrun⟩

end EventLoop

/-! ## The requests before the loop -/

/-- A loop, with what the requests so far ask of it. `asked` says whether
`quit` was called since the constructor, or since `loop` last returned, and
`iterations` counts the iterations that began since then. The first `own`
functors of the queue end with the last one that the loop's own thread
queued, `early` is `own` when `loop` was entered, and `polled` says whether
`loop` has polled since. -/
structure Requests (τ κ φ : Type) where
  loop : EventLoop τ κ φ
  asked : Bool
  iterations : Nat
  own : Nat
  early : Nat
  polled : Bool

namespace EventLoop

theorem callReturns_fields {τ κ φ : Type} [DecidableEq τ] (s : EventLoop τ κ φ) (t : τ) :
    (s.callReturns t).ran = s.ran ∧ (s.callReturns t).functors = s.functors ∧
    (s.callReturns t).queued = s.queued ∧ (s.callReturns t).quit_ = s.quit_ ∧
    ((s.callReturns t).wakeupFd_ = 0 → s.wakeupFd_ = 0) := by
  unfold callReturns
  split
  · exact ⟨rfl, rfl, rfl, rfl, fun hz => absurd hz s.wakeup_ne_zero⟩
  · exact ⟨rfl, rfl, rfl, rfl, id⟩

end EventLoop

namespace Requests

open EventLoop

variable {τ κ φ : Type} [DecidableEq τ] [DecidableEq κ]

def construct (threadId : τ) (wakeChannel : κ) : Requests τ κ φ where
  loop := EventLoop.construct threadId wakeChannel
  asked := false
  iterations := 0
  own := 0
  early := 0
  polled := false

/-- The loop takes the step, and the requests are counted. -/
def apply (s : Requests τ κ φ) (a : Act τ κ φ) : Requests τ κ φ :=
  let s' := { s with loop := a.apply s.loop }
  match a with
  | .queueInLoop t _ =>
    if t = s.loop.threadId_ then { s' with own := s'.loop.queued.length } else s'
  | .quit _ => { s' with asked := true, iterations := if s.asked then s.iterations else 0 }
  | .loop => { s' with early := s.own, polled := false }
  | .whileTest =>
    if s.loop.quit_ then { s' with asked := false } else { s' with iterations := s.iterations + 1 }
  | .poll _ => { s' with polled := true }
  | _ => s'

def machine (threadId : τ) (wakeChannel : κ) : Machine (Requests τ κ φ) (Act τ κ φ) where
  init s := s = construct threadId wakeChannel
  step s a s' := a.Enabled s.loop ∧ s' = s.apply a

/-- No request is lost: once `quit` was called, `quit_` stays set until `loop`
returns, so that at most one iteration begins. And when the loop polls with
no wakeup in its eventfd, the functors that its own thread queued before
`loop` have run. -/
structure Kept (s : Requests τ κ φ) : Prop where
  quit : s.asked = true → s.loop.quit_ = true
  iterations : s.asked = true → s.iterations ≤ 1
  functors : s.loop.pc = .poll → s.loop.wakeupFd_ = 0 → s.early ≤ s.loop.ran.length

/-- `loop` clears `quit_` when no `quit` was called. It begins its first poll
with a wakeup in the eventfd, when functors are left that its own thread
queued before. -/
def Heeded (s : Requests τ κ φ) : Act τ κ φ → Prop
  | .clearQuit => s.asked = false
  | .whileTest => s.polled = false → s.loop.quit_ = false → s.loop.ran.length < s.early →
      s.loop.wakeupFd_ ≠ 0
  | _ => True

/-- What holds along a run whose steps are all heeded. After its first poll
the loop has the early functors in its batch, and then behind it. -/
structure Inv (s : Requests τ κ φ) : Prop where
  loop : s.loop.Inv
  own : s.own ≤ s.loop.queued.length
  early : s.early ≤ s.loop.queued.length
  none : s.asked = true → s.iterations = 0
  entered : s.loop.pc = .entered → s.polled = false
  batch : s.polled = true → s.loop.pc = .functors ∨ s.loop.pc = .functor →
    s.early ≤ s.loop.ran.length + s.loop.functors.length
  done : s.polled = true → s.loop.pc = .whileTest → s.early ≤ s.loop.ran.length
  kept : s.Kept

omit [DecidableEq τ] [DecidableEq κ] in
/-- A step that leaves the requests alone, and takes the loop to a place where
the early functors are as far as they have to be. -/
theorem Inv.move {s : Requests τ κ φ} (h : s.Inv) {l : EventLoop τ κ φ} (hl : l.Inv)
    (hq : l.queued = s.loop.queued) (hquit : l.quit_ = s.loop.quit_) (hpc : l.pc ≠ .entered)
    (hbatch : s.polled = true → l.pc = .functors ∨ l.pc = .functor →
      s.early ≤ l.ran.length + l.functors.length)
    (hdone : s.polled = true → l.pc = .whileTest → s.early ≤ l.ran.length)
    (hpoll : l.pc ≠ .poll) : ({ s with loop := l } : Requests τ κ φ).Inv where
  loop := hl
  own := hq ▸ h.own
  early := hq ▸ h.early
  none := h.none
  entered hc := absurd hc hpc
  batch := hbatch
  done := hdone
  kept := ⟨fun ha => hquit.trans (h.kept.quit ha), h.kept.iterations, fun hc => absurd hc hpoll⟩

omit [DecidableEq τ] [DecidableEq κ] in
/-- In the handlers, and up to the next batch, the loop owes nothing. -/
theorem Inv.handlers {s : Requests τ κ φ} (h : s.Inv) {l : EventLoop τ κ φ} (hl : l.Inv)
    (hq : l.queued = s.loop.queued) (hquit : l.quit_ = s.loop.quit_)
    (hpc : l.pc = .handlers ∨ l.pc = .handler ∨ l.pc = .flagged) :
    ({ s with loop := l } : Requests τ κ φ).Inv := by
  refine h.move hl hq hquit ?_ ?_ ?_ ?_ <;> rcases hpc with e | e | e <;> simp [e]

omit [DecidableEq τ] [DecidableEq κ] in
/-- A call of any thread keeps what the loop owes. -/
theorem Inv.call {s s' : Requests τ κ φ} (h : s.Inv) (hl : s'.loop.Inv)
    (hpc : s'.loop.pc = s.loop.pc) (hran : s'.loop.ran = s.loop.ran)
    (hfun : s'.loop.functors = s.loop.functors) (hearly : s'.early = s.early)
    (hpolled : s'.polled = s.polled) (hown : s'.own ≤ s'.loop.queued.length)
    (hq : s.loop.queued.length ≤ s'.loop.queued.length)
    (hnone : s'.asked = true → s'.iterations = 0)
    (hquit : s'.asked = true → s'.loop.quit_ = true)
    (hwake : s'.loop.wakeupFd_ = 0 → s.loop.wakeupFd_ = 0) : s'.Inv where
  loop := hl
  own := hown
  early := by
    rw [hearly]
    exact le_trans h.early hq
  none := hnone
  entered := by
    rw [hpc, hpolled]
    exact h.entered
  batch := by
    rw [hpc, hpolled, hran, hfun, hearly]
    exact h.batch
  done := by
    rw [hpc, hpolled, hran, hearly]
    exact h.done
  kept := by
    refine ⟨hquit, fun ha => ?_, fun hc hz => ?_⟩
    · rw [hnone ha]
      omega
    · rw [hearly, hran]
      exact h.kept.functors (hpc ▸ hc) (hwake hz)

theorem Inv.apply {s : Requests τ κ φ} {a : Act τ κ φ} (h : s.Inv) (he : a.Enabled s.loop)
    (hh : s.Heeded a) : (s.apply a).Inv := by
  have hl := h.loop.apply he
  cases a with
  | queueInLoop t cb =>
    have hlen : s.loop.queued.length ≤ (s.loop.queueInLoop t cb).queued.length := by
      simp [EventLoop.queueInLoop, setPhase]
    simp only [Requests.apply]
    split
    · exact h.call hl rfl rfl rfl rfl rfl le_rfl hlen h.none h.kept.quit id
    · exact h.call hl rfl rfl rfl rfl rfl (le_trans h.own hlen) hlen h.none h.kept.quit id
  | quit t =>
    refine h.call hl rfl rfl rfl rfl rfl h.own le_rfl (fun _ => ?_) (fun _ => rfl) id
    simp only [Requests.apply]
    split
    · rename_i ha
      exact h.none ha
    · rfl
  | callReturns t =>
    obtain ⟨hran, hfun, hq, hquit, hwake⟩ := s.loop.callReturns_fields t
    refine h.call hl (callReturns_pc s.loop t) hran hfun rfl rfl ?_ (le_of_eq (congrArg _ hq.symm))
      h.none (fun ha => hquit.trans (h.kept.quit ha)) hwake
    exact le_of_le_of_eq h.own (congrArg _ hq.symm)
  | loop =>
    have hown := h.own
    exact ⟨hl, hown, hown, h.none, fun _ => rfl, (fun hp => by cases hp), (fun hp => by cases hp),
      h.kept.quit, h.kept.iterations, (fun hpc => by cases hpc)⟩
  | clearQuit =>
    have hnew := h.entered he.1
    have hasked : s.asked = false := hh
    have hask : (s.apply .clearQuit).asked ≠ true := by simp [Requests.apply, hasked]
    have hpoll : (s.apply .clearQuit).polled ≠ true := by simp [Requests.apply, hnew]
    exact ⟨hl, h.own, h.early, h.none, (fun hpc => by cases hpc), fun hp => absurd hp hpoll,
      fun hp => absurd hp hpoll, fun ha => absurd ha hask, fun ha => absurd ha hask,
      (fun hpc => by cases hpc)⟩
  | whileTest =>
    simp only [Requests.apply, Act.apply, EventLoop.whileTest] at hl ⊢
    by_cases hq : s.loop.quit_ = true
    · simp only [hq, if_true] at hl ⊢
      exact ⟨hl, h.own, h.early, by simp, by simp, by simp, by simp, by simp, by simp, by simp⟩
    · have hask : ¬ s.asked = true := fun ha => hq (h.kept.quit ha)
      simp only [hq, Bool.false_eq_true, if_false] at hl ⊢
      refine ⟨hl, h.own, h.early, fun ha => absurd ha hask, by simp, by simp, by simp,
        fun ha => absurd ha hask, fun ha => absurd ha hask, fun _ hzero => ?_⟩
      -- the first poll has its wakeup, and before a later one the batch is behind
      by_cases hp : s.polled = true
      · exact h.done hp he.1
      · by_contra hlt
        exact hh (by simpa using hp) (by simpa using hq) (Nat.lt_of_not_le hlt) hzero
  | poll active =>
    have hpc : (Act.apply s.loop (.poll active)).pc = .handlers := rfl
    exact ⟨hl, h.own, h.early, h.none, by simp [Requests.apply, hpc], by simp [Requests.apply, hpc],
      by simp [Requests.apply, hpc], h.kept.quit, h.kept.iterations, by simp [Requests.apply, hpc]⟩
  | handleEvent =>
    obtain ⟨counter, pc, hpc, e⟩ := EventLoop.handleEvent.spec s.loop
    rw [he.1.1] at hpc
    simp only [Requests.apply, Act.apply, e] at hl ⊢
    exact h.handlers hl rfl rfl (hpc.elim Or.inl fun e => Or.inr (Or.inl e))
  | handlerReturns => exact h.handlers hl rfl rfl (Or.inl rfl)
  | doPendingFunctors_ => exact h.handlers hl rfl rfl (Or.inr (Or.inr rfl))
  | swap =>
    have hpc : (Act.apply s.loop .swap).pc = .functors := rfl
    refine h.move hl rfl rfl (by simp [hpc]) (fun _ _ => ?_) (by simp [hpc]) (by simp [hpc])
    have hall := congrArg List.length hl.order
    have hnone := h.loop.functors_nil he (by decide) (by decide)
    simp only [Act.apply, hnone, List.append_nil, List.length_append] at hall
    simp only [Act.apply]
    rw [hall]
    exact h.early
  | callFunctor =>
    simp only [Requests.apply, Act.apply, EventLoop.callFunctor] at hl ⊢
    split at hl
    · exact h
    · rename_i f fs hf
      refine h.move hl rfl rfl (by simp) (fun hp _ => ?_) (by simp) (by simp)
      have hold := h.batch hp (Or.inl he.1.1)
      rw [hf, List.length_cons] at hold
      simp only [List.length_append, List.length_singleton]
      omega
  | functorReturns =>
    have hpc : (Act.apply s.loop .functorReturns).pc = .functors := rfl
    exact h.move hl rfl rfl (by simp [hpc]) (fun hp _ => h.batch hp (Or.inr he.1))
      (by simp [hpc]) (by simp [hpc])
  | clearCalling =>
    have hpc : (Act.apply s.loop .clearCalling).pc = .whileTest := rfl
    refine h.move hl rfl rfl (by simp [hpc]) (by simp [hpc]) (fun hp _ => ?_) (by simp [hpc])
    have hold := h.batch hp (Or.inl he.1.1)
    rw [he.2] at hold
    exact hold

omit [DecidableEq τ] [DecidableEq κ] in
theorem construct_inv (threadId : τ) (wakeChannel : κ) :
    (construct threadId wakeChannel : Requests τ κ φ).Inv where
  loop := EventLoop.construct_inv threadId wakeChannel
  own := le_rfl
  early := le_rfl
  none ha := by cases ha
  entered hpc := by cases hpc
  batch hp := by cases hp
  done hp := by cases hp
  kept := ⟨(fun ha => by cases ha), (fun ha => by cases ha), (fun hpc => by cases hpc)⟩

/-- A step that is not heeded loses a request. -/
theorem heeded_of_kept {s : Requests τ κ φ} {a : Act τ κ φ} (h : (s.apply a).Kept) :
    s.Heeded a := by
  cases a with
  | clearQuit =>
    by_contra ha
    have hasked : s.asked = true := by simpa [Heeded] using ha
    have hquit := h.quit hasked
    cases hquit
  | whileTest =>
    intro hp hq hlt hzero
    have hfun := h.functors
    simp only [Requests.apply, Act.apply, EventLoop.whileTest, hq, Bool.false_eq_true,
      if_false] at hfun
    exact absurd (hfun trivial hzero) (Nat.not_le_of_lt hlt)
  | _ => trivial

/-- The requests are kept in all the states of a run, exactly when all its
steps heed them. -/
theorem requests_are_kept_exactly_in_the_heeded_runs (threadId : τ) (wakeChannel : κ)
    (as : List (Act τ κ φ)) (s : Requests τ κ φ) :
    ((machine threadId wakeChannel).restrict fun s a _ => s.Heeded a).Run
        (construct threadId wakeChannel) as s ↔
      ((machine threadId wakeChannel).restrict fun _ _ s' => s'.Kept).Run
        (construct threadId wakeChannel) as s := by
  apply Machine.Run.restrict_iff (construct_inv threadId wakeChannel)
  · rintro s a s' hi ⟨he, rfl⟩
    exact ⟨fun hh => (hi.apply he hh).kept, heeded_of_kept⟩
  · rintro s a s' hi ⟨he, rfl⟩ hh
    exact hi.apply he hh

/-- A `quit` that comes before `loop` is cleared, and a functor that the
loop's own thread queued before `loop` waits at a poll without a wakeup. -/
theorem requests_before_the_loop_are_lost :
    (∃ s : Requests Bool Unit Nat, (machine false ()).Reachable s ∧ s.asked = true ∧
      s.loop.quit_ = false ∧ ¬ s.Kept) ∧
    (∃ s : Requests Bool Unit Nat, (machine false ()).Reachable s ∧ s.loop.pc = .poll ∧
      s.loop.wakeupFd_ = 0 ∧ s.loop.pendingFunctors_ = [7] ∧ ¬ s.Kept) := by
  have h0 : (machine false ()).Reachable (construct false () : Requests Bool Unit Nat) :=
    .start rfl
  constructor
  · have h1 := h0.next (a := .quit true) (by exact ⟨⟨rfl, by decide⟩, rfl⟩)
    have h2 := h1.next (a := .callReturns true)
      (by exact ⟨show Phase.quitting ≠ .idle by decide, rfl⟩)
    have h3 := h2.next (a := .loop) (by exact ⟨⟨⟨rfl, rfl⟩, rfl⟩, rfl⟩)
    have h4 := h3.next (a := .clearQuit) (by exact ⟨⟨rfl, rfl⟩, rfl⟩)
    exact ⟨_, h4, rfl, rfl, fun hk => absurd (hk.quit rfl) Bool.false_ne_true⟩
  · have h1 := h0.next (a := .queueInLoop false 7) (by exact ⟨⟨rfl, fun _ => by decide⟩, rfl⟩)
    have h2 := h1.next (a := .callReturns false)
      (by exact ⟨show Phase.pushed ≠ .idle by decide, rfl⟩)
    have h3 := h2.next (a := .loop) (by exact ⟨⟨⟨rfl, rfl⟩, rfl⟩, rfl⟩)
    have h4 := h3.next (a := .clearQuit) (by exact ⟨⟨rfl, rfl⟩, rfl⟩)
    have h5 := h4.next (a := .whileTest) (by exact ⟨⟨rfl, rfl⟩, rfl⟩)
    exact ⟨_, h5, rfl, rfl, rfl, fun hk => absurd (hk.functors rfl rfl) (by decide)⟩

end Requests

end jmuduo.net
