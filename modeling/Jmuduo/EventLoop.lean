-- An event loop (EventLoop.h): its thread polls, runs the handlers of the
-- active channels and then the functors, while any thread queues functors.
import Jmuduo.Runs
import Mathlib.Logic.Function.Basic

open runs

namespace jmuduo.net

/-! ## The loop of the source -/

/-- Where the thread of the loop stands. Each place but the first is in
`loop`, and the last three are in `doPendingFunctors_`. -/
inductive Pc
  | outside
  | entered
  | whileTest
  | poll
  | handlers
  | handler
  | flagged
  | functors
  | functor
  deriving DecidableEq, Repr

/-- The thread runs code of the user, or has yet to enter `loop`. -/
def Pc.UserCode (pc : Pc) : Prop := pc = .outside ∨ pc = .handler ∨ pc = .functor

instance : DecidablePred Pc.UserCode := fun _ => inferInstanceAs (Decidable (_ ∨ _ ∨ _))

/-- The thread is in `doPendingFunctors_`. -/
def Pc.Calling (pc : Pc) : Prop := pc = .flagged ∨ pc = .functors ∨ pc = .functor

/-- The thread polls before it swaps the functors again. -/
def Pc.Watched (pc : Pc) : Prop :=
  pc = .entered ∨ pc = .whileTest ∨ pc = .poll ∨ pc = .functors ∨ pc = .functor

/-- Where a thread stands in a call of `queueInLoop` or `quit`. -/
inductive Phase
  | idle
  | pushed
  | quitting
  deriving DecidableEq, Repr

/-- `τ` names threads, `κ` channels and `φ` functors. `wakeupFd_` is the
counter of the eventfd, and `functors` what the batch of `doPendingFunctors_`
has not called yet. `queued` and `ran` record the functors so far. -/
structure EventLoop (τ κ φ : Type) where
  looping_ : Bool
  quit_ : Bool
  threadId_ : τ
  activeChannels_ : List κ
  callingPendingFunctor_ : Bool
  pendingFunctors_ : List φ
  wakeupFd_ : Nat
  wakeChannel_ : κ
  functors : List φ
  pc : Pc
  phase : τ → Phase
  queued : List φ
  ran : List φ

namespace EventLoop

variable {τ κ φ : Type}

/-- The constructor. -/
def construct (threadId : τ) (wakeChannel : κ) : EventLoop τ κ φ where
  looping_ := false
  quit_ := false
  threadId_ := threadId
  activeChannels_ := []
  callingPendingFunctor_ := false
  pendingFunctors_ := []
  wakeupFd_ := 0
  wakeChannel_ := wakeChannel
  functors := []
  pc := .outside
  phase := fun _ => .idle
  queued := []
  ran := []

/-- The largest counter of an eventfd. A write that would exceed it fails. -/
def eventfdMax : Nat := 2 ^ 64 - 2

def wakeup (s : EventLoop τ κ φ) : EventLoop τ κ φ :=
  { s with wakeupFd_ := if s.wakeupFd_ < eventfdMax then s.wakeupFd_ + 1 else s.wakeupFd_ }

theorem wakeup_ne_zero (s : EventLoop τ κ φ) : s.wakeup.wakeupFd_ ≠ 0 := by
  unfold wakeup eventfdMax
  simp only
  split <;> omega

/-- The handler of the wake channel. -/
def handleRead (s : EventLoop τ κ φ) : EventLoop τ κ φ := { s with wakeupFd_ := 0 }

section

variable [DecidableEq τ]

def isInLoopThread (t : τ) (s : EventLoop τ κ φ) : Bool := s.threadId_ = t

def setPhase (t : τ) (p : Phase) (s : EventLoop τ κ φ) : EventLoop τ κ φ :=
  { s with phase := Function.update s.phase t p }

/-- `queueInLoop`, as far as it holds the lock. -/
def queueInLoop (t : τ) (cb : φ) (s : EventLoop τ κ φ) : EventLoop τ κ φ :=
  setPhase t .pushed
    { s with pendingFunctors_ := s.pendingFunctors_ ++ [cb], queued := s.queued ++ [cb] }

/-- `quit`, up to its condition. -/
def quit (t : τ) (s : EventLoop τ κ φ) : EventLoop τ κ φ :=
  setPhase t .quitting { s with quit_ := true }

/-- Whether the call that the thread is in ends with a `wakeup`. -/
def wakes (t : τ) (s : EventLoop τ κ φ) : Bool :=
  match s.phase t with
  | .pushed => !s.isInLoopThread t || s.callingPendingFunctor_
  | .quitting => !s.isInLoopThread t
  | .idle => false

/-- The rest of the call that the thread is in. -/
def callReturns (t : τ) (s : EventLoop τ κ φ) : EventLoop τ κ φ :=
  setPhase t .idle (if s.wakes t then s.wakeup else s)

/-- The condition of the loop. -/
def whileTest (s : EventLoop τ κ φ) : EventLoop τ κ φ :=
  if s.quit_ then { s with looping_ := false, pc := .outside } else { s with pc := .poll }

/-- The next active channel. The handler of the wake channel runs at once. -/
def handleEvent [DecidableEq κ] (s : EventLoop τ κ φ) : EventLoop τ κ φ :=
  match s.activeChannels_ with
  | [] => s
  | c :: cs =>
    if c = s.wakeChannel_ then { s with activeChannels_ := cs }.handleRead
    else { s with activeChannels_ := cs, pc := .handler }

/-- The next functor of the batch. -/
def callFunctor (s : EventLoop τ κ φ) : EventLoop τ κ φ :=
  match s.functors with
  | [] => s
  | f :: fs => { s with functors := fs, ran := s.ran ++ [f], pc := .functor }

/-! ## The steps -/

/-- A step. The first three are of any thread, the others of the loop's. -/
inductive Act (τ κ φ : Type)
  | queueInLoop (t : τ) (cb : φ)
  | quit (t : τ)
  | callReturns (t : τ)
  | loop
  | clearQuit
  | whileTest
  | poll (active : List κ)
  | handleEvent
  | handlerReturns
  | doPendingFunctors_
  | swap
  | callFunctor
  | functorReturns
  | clearCalling

def Act.apply [DecidableEq κ] (s : EventLoop τ κ φ) : Act τ κ φ → EventLoop τ κ φ
  | .queueInLoop t cb => s.queueInLoop t cb
  | .quit t => s.quit t
  | .callReturns t => s.callReturns t
  | .loop => { s with looping_ := true, pc := .entered }
  | .clearQuit => { s with quit_ := false, pc := .whileTest }
  | .whileTest => s.whileTest
  | .poll active => { s with activeChannels_ := active, pc := .handlers }
  | .handleEvent => s.handleEvent
  | .handlerReturns => { s with pc := .handlers }
  | .doPendingFunctors_ => { s with functors := [], callingPendingFunctor_ := true, pc := .flagged }
  | .swap =>
    { s with functors := s.pendingFunctors_, pendingFunctors_ := s.functors, pc := .functors }
  | .callFunctor => s.callFunctor
  | .functorReturns => { s with pc := .functors }
  | .clearCalling => { s with callingPendingFunctor_ := false, pc := .whileTest }

/-- A thread can begin a call. -/
def CanCall (t : τ) (s : EventLoop τ κ φ) : Prop :=
  s.phase t = .idle ∧ (t = s.threadId_ → s.pc.UserCode)

/-- The thread whose call the step is part of. -/
def Act.caller : Act τ κ φ → Option τ
  | .queueInLoop t _ | .quit t | .callReturns t => some t
  | _ => none

/-- The thread of the loop is at the place, and in no call. -/
def At (pc : Pc) (s : EventLoop τ κ φ) : Prop := s.pc = pc ∧ s.phase s.threadId_ = .idle

/-- When the step can be taken. `loop` asserts that it does not loop yet. -/
def Act.Enabled (s : EventLoop τ κ φ) : Act τ κ φ → Prop
  | .queueInLoop t _ => s.CanCall t
  | .quit t => s.CanCall t
  | .callReturns t => s.phase t ≠ .idle
  | .loop => s.At .outside ∧ s.looping_ = false
  | .clearQuit => s.At .entered
  | .whileTest => s.At .whileTest
  | .poll _ => s.At .poll
  | .handleEvent => s.At .handlers ∧ s.activeChannels_ ≠ []
  | .handlerReturns => s.At .handler
  | .doPendingFunctors_ => s.At .handlers ∧ s.activeChannels_ = []
  | .swap => s.At .flagged
  | .callFunctor => s.At .functors ∧ s.functors ≠ []
  | .functorReturns => s.At .functor
  | .clearCalling => s.At .functors ∧ s.functors = []

instance (t : τ) (s : EventLoop τ κ φ) : Decidable (s.CanCall t) :=
  inferInstanceAs (Decidable (_ ∧ (_ → _)))

instance (pc : Pc) (s : EventLoop τ κ φ) : Decidable (s.At pc) :=
  inferInstanceAs (Decidable (_ ∧ _))

instance (s : EventLoop τ κ φ) : (a : Act τ κ φ) → Decidable (a.Enabled s)
  | .queueInLoop t _ | .quit t => inferInstanceAs (Decidable (s.CanCall t))
  | .callReturns t => inferInstanceAs (Decidable (s.phase t ≠ .idle))
  | .clearQuit => inferInstanceAs (Decidable (s.At .entered))
  | .whileTest => inferInstanceAs (Decidable (s.At .whileTest))
  | .poll _ => inferInstanceAs (Decidable (s.At .poll))
  | .handlerReturns => inferInstanceAs (Decidable (s.At .handler))
  | .swap => inferInstanceAs (Decidable (s.At .flagged))
  | .functorReturns => inferInstanceAs (Decidable (s.At .functor))
  | .loop | .handleEvent | .doPendingFunctors_ | .callFunctor | .clearCalling =>
    inferInstanceAs (Decidable (_ ∧ _))

/-- All the interleavings of the threads, from the constructor on. -/
def machine [DecidableEq κ] (threadId : τ) (wakeChannel : κ) :
    Machine (EventLoop τ κ φ) (Act τ κ φ) where
  init s := s = construct threadId wakeChannel
  step s a s' := a.Enabled s ∧ s' = a.apply s

end

/-! ## What the steps keep -/

/-- The places of the thread of the loop agree with the fields, and every
functor so far ran, is in the batch or is pending, in this order. -/
structure Inv (s : EventLoop τ κ φ) : Prop where
  called : s.phase s.threadId_ ≠ .idle → s.pc.UserCode
  calling : s.callingPendingFunctor_ = true ↔ s.pc.Calling
  batch : s.functors ≠ [] → s.pc = .functors ∨ s.pc = .functor
  order : s.ran ++ s.functors ++ s.pendingFunctors_ = s.queued

/-- Pending functors have a wakeup, which is in the eventfd or still to come
from a thread that pushed. -/
def Awake (s : EventLoop τ κ φ) : Prop :=
  s.pendingFunctors_ ≠ [] → s.wakeupFd_ ≠ 0 ∨ ∃ t, s.phase t = .pushed

theorem construct_inv (threadId : τ) (wakeChannel : κ) :
    (construct threadId wakeChannel : EventLoop τ κ φ).Inv := by
  refine ⟨fun hp => absurd rfl hp, ?_, fun hf => absurd rfl hf, rfl⟩
  simp [construct, Pc.Calling]

/-- The thread of the loop goes from one place to another. -/
theorem Inv.move {s : EventLoop τ κ φ} (h : s.Inv) {pc pc' : Pc} (hat : s.At pc)
    (hcalling : pc.Calling ↔ pc'.Calling)
    (hbatch : pc = .functors ∨ pc = .functor → pc' = .functors ∨ pc' = .functor)
    (looping quit : Bool) (active : List κ) (counter : Nat) :
    ({ s with
      looping_ := looping
      quit_ := quit
      activeChannels_ := active
      wakeupFd_ := counter
      pc := pc' } : EventLoop τ κ φ).Inv := by
  obtain ⟨rfl, hidle⟩ := hat
  exact ⟨fun hp => absurd hidle hp, h.calling.trans hcalling, fun hf => hbatch (h.batch hf),
    h.order⟩

/-- A dispatch takes the next active channel, reads the eventfd for the wake
channel, and calls a handler for any other. -/
theorem handleEvent.spec [DecidableEq κ] (s : EventLoop τ κ φ) :
    ∃ counter pc, (pc = s.pc ∨ pc = .handler) ∧ s.handleEvent = { s with
      activeChannels_ := s.activeChannels_.tail, wakeupFd_ := counter, pc := pc } := by
  unfold handleEvent
  split
  · rename_i hnone
    refine ⟨s.wakeupFd_, s.pc, Or.inl rfl, ?_⟩
    rw [hnone, List.tail_nil, ← hnone]
  · rename_i c cs hnext
    rw [hnext, List.tail_cons]
    split
    · exact ⟨0, s.pc, Or.inl rfl, rfl⟩
    · exact ⟨s.wakeupFd_, .handler, Or.inr rfl, rfl⟩

/-- There is no batch outside of its loop. -/
theorem Inv.functors_nil {s : EventLoop τ κ φ} (h : s.Inv) {pc : Pc} (hat : s.At pc)
    (hpc : pc ≠ .functors) (hpc' : pc ≠ .functor) : s.functors = [] := by
  by_contra hf
  rw [← hat.1] at hpc hpc'
  rcases h.batch hf with hc | hc
  · exact hpc hc
  · exact hpc' hc

section

variable [DecidableEq τ]

/-- A call of the thread of the loop begins where the loop runs user code. -/
theorem called_of_call {s : EventLoop τ κ φ} (h : s.Inv) {t : τ} {p : Phase}
    (hc : t = s.threadId_ → s.pc.UserCode)
    (hp : Function.update s.phase t p s.threadId_ ≠ .idle) : s.pc.UserCode := by
  by_cases ht : t = s.threadId_
  · exact hc ht
  · rw [Function.update_of_ne (Ne.symm ht)] at hp
    exact h.called hp

theorem Inv.queueInLoop {s : EventLoop τ κ φ} (h : s.Inv) {t : τ} (cb : φ)
    (hc : t = s.threadId_ → s.pc.UserCode) : (s.queueInLoop t cb).Inv := by
  refine ⟨called_of_call h hc, h.calling, h.batch, ?_⟩
  have horder : s.ran ++ s.functors ++ (s.pendingFunctors_ ++ [cb]) = s.queued ++ [cb] := by
    rw [← List.append_assoc, h.order]
  exact horder

theorem Inv.callReturns {s : EventLoop τ κ φ} (h : s.Inv) (t : τ) : (s.callReturns t).Inv := by
  have hcalled : Function.update s.phase t .idle s.threadId_ ≠ .idle → s.pc.UserCode := by
    intro hp
    by_cases ht : t = s.threadId_
    · rw [ht, Function.update_self] at hp
      exact absurd rfl hp
    · rw [Function.update_of_ne (Ne.symm ht)] at hp
      exact h.called hp
  unfold EventLoop.callReturns
  split
  · exact ⟨hcalled, h.calling, h.batch, h.order⟩
  · exact ⟨hcalled, h.calling, h.batch, h.order⟩

theorem Inv.apply [DecidableEq κ] {s : EventLoop τ κ φ} {a : Act τ κ φ} (h : s.Inv)
    (he : a.Enabled s) : (a.apply s).Inv := by
  cases a with
  | queueInLoop t cb => exact h.queueInLoop cb he.2
  | quit t => exact ⟨called_of_call h he.2, h.calling, h.batch, h.order⟩
  | callReturns t => exact h.callReturns t
  | loop => exact h.move he.1 (by simp [Pc.Calling]) (by simp) _ _ _ _
  | clearQuit => exact h.move he (by simp [Pc.Calling]) (by simp) _ _ _ _
  | whileTest =>
    simp only [Act.apply, EventLoop.whileTest]
    split
    · exact h.move he (by simp [Pc.Calling]) (by simp) _ _ _ _
    · exact h.move he (by simp [Pc.Calling]) (by simp) _ _ _ _
  | poll active => exact h.move he (by simp [Pc.Calling]) (by simp) _ _ _ _
  | handleEvent =>
    obtain ⟨counter, pc, hpc, e⟩ := handleEvent.spec s
    simp only [Act.apply, e]
    refine h.move he.1 ?_ ?_ _ _ _ _
    · rcases hpc with rfl | rfl <;> simp [he.1.1, Pc.Calling]
    · rcases hpc with rfl | rfl <;> simp [he.1.1]
  | handlerReturns => exact h.move he (by simp [Pc.Calling]) (by simp) _ _ _ _
  | doPendingFunctors_ =>
    have hnone := h.functors_nil he.1 (by decide) (by decide)
    simp only [Act.apply]
    refine ⟨fun hp => absurd he.1.2 hp, by simp [Pc.Calling], fun hf => absurd rfl hf, ?_⟩
    rw [← h.order, hnone]
  | swap =>
    have hnone := h.functors_nil he (by decide) (by decide)
    simp only [Act.apply]
    refine ⟨fun hp => absurd he.2 hp, ?_, fun _ => Or.inl rfl, ?_⟩
    · rw [h.calling, he.1]
      simp [Pc.Calling]
    · rw [← h.order, hnone, List.append_nil, List.append_nil]
  | callFunctor =>
    simp only [Act.apply, EventLoop.callFunctor]
    split
    · exact h
    · rename_i f fs hf
      refine ⟨fun hp => absurd he.1.2 hp, ?_, fun _ => Or.inr rfl, ?_⟩
      · rw [h.calling, he.1.1]
        simp [Pc.Calling]
      · rw [← h.order, hf, List.append_cons]
  | functorReturns => exact h.move he (by simp [Pc.Calling]) (by simp) _ _ _ _
  | clearCalling =>
    simp only [Act.apply]
    exact ⟨fun hp => absurd he.1.2 hp, by simp [Pc.Calling], fun hf => absurd he.2 hf, h.order⟩

end

/-! ## The queue -/

/-- The functors that wait for their call, in their order. -/
def waiting (s : EventLoop τ κ φ) : List φ := s.functors ++ s.pendingFunctors_

/-- The functor that the step queues. -/
def Act.queued : Act τ κ φ → List φ
  | .queueInLoop _ cb => [cb]
  | _ => []

/-- The functor that the step calls. -/
def Act.called (s : EventLoop τ κ φ) : Act τ κ φ → List φ
  | .callFunctor => s.functors.take 1
  | _ => []

theorem waiting_callReturns [DecidableEq τ] (s : EventLoop τ κ φ) (t : τ) :
    (s.callReturns t).waiting = s.waiting := by
  unfold callReturns
  split <;> rfl

/-- The loop is a queue: functors join at its back and leave at its front. -/
theorem waiting_apply [DecidableEq τ] [DecidableEq κ] {s : EventLoop τ κ φ} {a : Act τ κ φ}
    (h : s.Inv) (he : a.Enabled s) : s.waiting ++ a.queued = a.called s ++ (a.apply s).waiting := by
  cases a with
  | queueInLoop t cb => exact List.append_assoc _ _ _
  | callReturns t =>
    simp only [Act.queued, Act.called, Act.apply, waiting_callReturns, List.append_nil,
      List.nil_append]
  | whileTest =>
    simp only [Act.queued, Act.called, Act.apply, EventLoop.whileTest, List.append_nil,
      List.nil_append]
    split <;> rfl
  | handleEvent =>
    simp only [Act.queued, Act.called, Act.apply, EventLoop.handleEvent, List.append_nil,
      List.nil_append]
    split
    · rfl
    · split <;> rfl
  | doPendingFunctors_ =>
    have hnone := h.functors_nil he.1 (by decide) (by decide)
    simp [Act.queued, Act.called, Act.apply, waiting, hnone]
  | swap =>
    have hnone := h.functors_nil he (by decide) (by decide)
    simp [Act.queued, Act.called, Act.apply, waiting, hnone]
  | callFunctor =>
    simp only [Act.queued, Act.called, Act.apply, EventLoop.callFunctor, List.append_nil]
    split
    · rename_i hf
      simp [hf]
    · rename_i f fs hf
      simp [waiting, hf]
  | quit t => exact List.append_nil _
  | loop => exact List.append_nil _
  | clearQuit => exact List.append_nil _
  | poll active => exact List.append_nil _
  | handlerReturns => exact List.append_nil _
  | functorReturns => exact List.append_nil _
  | clearCalling => exact List.append_nil _

/-- A step keeps the thread of the loop and the phases of the threads that it
is not a call of, and only the poll brings active channels. -/
theorem apply_fields [DecidableEq τ] [DecidableEq κ] (s : EventLoop τ κ φ) (a : Act τ κ φ) :
    (a.apply s).threadId_ = s.threadId_ ∧
    (∀ u, a.caller ≠ some u → (a.apply s).phase u = s.phase u) ∧
    ∀ c, c ∈ (a.apply s).activeChannels_ →
      c ∈ s.activeChannels_ ∨ ∃ active, a = .poll active ∧ c ∈ active := by
  cases a with
  | queueInLoop t cb =>
    refine ⟨rfl, fun u hu => ?_, fun c hc => Or.inl hc⟩
    exact Function.update_of_ne (fun e => hu (congrArg some e.symm)) _ _
  | quit t =>
    refine ⟨rfl, fun u hu => ?_, fun c hc => Or.inl hc⟩
    exact Function.update_of_ne (fun e => hu (congrArg some e.symm)) _ _
  | callReturns t =>
    have hphase : ∀ u, Act.caller (.callReturns t : Act τ κ φ) ≠ some u →
        Function.update s.phase t .idle u = s.phase u :=
      fun u hu => Function.update_of_ne (fun e => hu (congrArg some e.symm)) _ _
    simp only [Act.apply, callReturns]
    split <;> exact ⟨rfl, hphase, fun c hc => Or.inl hc⟩
  | poll active => exact ⟨rfl, fun u _ => rfl, fun c hc => Or.inr ⟨active, rfl, hc⟩⟩
  | whileTest =>
    simp only [Act.apply, EventLoop.whileTest]
    split <;> exact ⟨rfl, fun u _ => rfl, fun c hc => Or.inl hc⟩
  | handleEvent =>
    obtain ⟨counter, pc, _, e⟩ := handleEvent.spec s
    have happly : Act.handleEvent.apply s = s.handleEvent := rfl
    rw [happly, e]
    exact ⟨rfl, fun u _ => rfl, fun c hc => Or.inl (List.mem_of_mem_tail hc)⟩
  | callFunctor =>
    simp only [Act.apply, EventLoop.callFunctor]
    split <;> exact ⟨rfl, fun u _ => rfl, fun c hc => Or.inl hc⟩
  | _ => exact ⟨rfl, fun u _ => rfl, fun c hc => Or.inl hc⟩

theorem callReturns_phase [DecidableEq τ] (s : EventLoop τ κ φ) (t : τ) :
    (s.callReturns t).phase t = .idle := Function.update_self t _ _

/-! ## No wakeup is lost -/

/-- The wakeups are a matter of three fields. -/
theorem Awake.of_same {s s' : EventLoop τ κ φ} (h : s.Awake)
    (hpending : s'.pendingFunctors_ = s.pendingFunctors_) (hcounter : s'.wakeupFd_ = s.wakeupFd_)
    (hphase : s'.phase = s.phase) : s'.Awake := by
  unfold Awake at h ⊢
  rw [hpending, hcounter, hphase]
  exact h

theorem Awake.of_nil {s : EventLoop τ κ φ} (h : s.pendingFunctors_ = []) : s.Awake :=
  fun hne => absurd h hne

variable [DecidableEq τ]

/-- A thread that leaves `queueInLoop` has written the eventfd, unless it is
the thread of the loop before it swaps. -/
theorem Awake.callReturns {s : EventLoop τ κ φ} (h : s.Awake) (hinv : s.Inv) {t : τ}
    (hw : s.pc.Watched) : (s.callReturns t).Awake := by
  intro hne
  unfold EventLoop.callReturns at hne ⊢
  cases hwk : s.wakes t with
  | true =>
    rw [if_pos rfl]
    exact Or.inl s.wakeup_ne_zero
  | false =>
    rw [hwk] at hne
    simp only [Bool.false_eq_true, if_false] at hne ⊢
    rcases h hne with hc | ⟨u, hu⟩
    · exact Or.inl hc
    · refine Or.inr ⟨u, ?_⟩
      have hut : u ≠ t := by
        rintro rfl
        -- the thread of the loop would run a functor, and wake
        have hself : s.threadId_ = u ∧ s.callingPendingFunctor_ = false := by
          simpa [wakes, hu, isInLoopThread] using hwk
        have hpc := hinv.called (by rw [hself.1, hu]; decide)
        have hcalling := hinv.calling.mpr
        rw [hself.2] at hcalling
        rcases hpc with hp | hp | hp
        · rw [hp] at hw
          simp [Pc.Watched] at hw
        · rw [hp] at hw
          simp [Pc.Watched] at hw
        · exact absurd (hcalling (Or.inr (Or.inr hp))) (by decide)
      simp only [setPhase, Function.update_of_ne hut]
      exact hu

/-- What the proof of the wakeups carries along a run. -/
def Wakeful (s : EventLoop τ κ φ) : Prop := s.Inv ∧ (s.pc.Watched → s.Awake)

@[simp] theorem callReturns_pc (s : EventLoop τ κ φ) (t : τ) : (s.callReturns t).pc = s.pc := by
  unfold callReturns
  split <;> rfl

theorem Wakeful.apply [DecidableEq κ] {s : EventLoop τ κ φ} {a : Act τ κ φ} (h : s.Wakeful)
    (he : a.Enabled s) (hloop : a = .loop → s.pendingFunctors_ = []) : (a.apply s).Wakeful := by
  obtain ⟨hinv, hawake⟩ := h
  refine ⟨hinv.apply he, fun hw => ?_⟩
  cases a with
  | queueInLoop t cb => exact fun _ => Or.inr ⟨t, Function.update_self t _ _⟩
  | quit t =>
    intro hne
    rcases hawake hw hne with hc | ⟨u, hu⟩
    · exact Or.inl hc
    · refine Or.inr ⟨u, ?_⟩
      have hut : u ≠ t := by
        rintro rfl
        rw [he.1] at hu
        cases hu
      exact (Function.update_of_ne hut _ _).trans hu
  | callReturns t =>
    simp only [Act.apply, callReturns_pc] at hw
    exact (hawake hw).callReturns hinv hw
  | loop => exact .of_nil (hloop rfl)
  | clearQuit => exact (hawake (by simp [he.1, Pc.Watched])).of_same rfl rfl rfl
  | whileTest =>
    have ha := hawake (by simp [he.1, Pc.Watched])
    simp only [Act.apply, EventLoop.whileTest]
    split <;> exact ha.of_same rfl rfl rfl
  | poll active => simp [Act.apply, Pc.Watched] at hw
  | handleEvent =>
    have hpc := he.1.1
    obtain ⟨counter, pc, hat, e⟩ := handleEvent.spec s
    simp only [Act.apply, e] at hw
    rcases hat with rfl | rfl <;> simp [hpc, Pc.Watched] at hw
  | handlerReturns => simp [Act.apply, Pc.Watched] at hw
  | doPendingFunctors_ => simp [Act.apply, Pc.Watched] at hw
  | swap => exact .of_nil (hinv.functors_nil he (by decide) (by decide))
  | callFunctor =>
    have ha := hawake (by simp [he.1.1, Pc.Watched])
    simp only [Act.apply, EventLoop.callFunctor]
    split <;> exact ha.of_same rfl rfl rfl
  | functorReturns => exact (hawake (by simp [he.1, Pc.Watched])).of_same rfl rfl rfl
  | clearCalling => exact (hawake (by simp [he.1.1, Pc.Watched])).of_same rfl rfl rfl

/-- At the poll with functors pending, the eventfd is readable, or another
thread has pushed and its `wakeup` is still to come. -/
theorem no_wakeup_is_lost [DecidableEq κ] {threadId : τ} {wakeChannel : κ}
    {s : EventLoop τ κ φ}
    (h : ((machine threadId wakeChannel).restrict
      fun s a _ => a = .loop → s.pendingFunctors_ = []).Reachable s)
    (hpoll : s.pc = .poll) (hne : s.pendingFunctors_ ≠ []) :
    s.wakeupFd_ ≠ 0 ∨ ∃ t, t ≠ s.threadId_ ∧ s.phase t = .pushed ∧
      (s.callReturns t).wakeupFd_ ≠ 0 := by
  have hwakeful : s.Wakeful := by
    refine h.invariant ?_ ?_
    · rintro s rfl
      refine ⟨construct_inv threadId wakeChannel, fun hw => ?_⟩
      simp [construct, Pc.Watched] at hw
    · rintro s a s' hs ⟨⟨he, rfl⟩, hloop⟩
      exact hs.apply he hloop
  obtain ⟨hinv, hawake⟩ := hwakeful
  rcases hawake (by simp [hpoll, Pc.Watched]) hne with hc | ⟨t, ht⟩
  · exact Or.inl hc
  · have hother : t ≠ s.threadId_ := by
      rintro rfl
      have huser := hinv.called (by rw [ht]; decide)
      rw [hpoll] at huser
      simp [Pc.UserCode] at huser
    refine Or.inr ⟨t, hother, ht, ?_⟩
    have hwakes : s.wakes t = true := by
      simp [wakes, ht, isInLoopThread, Ne.symm hother]
    unfold callReturns
    rw [if_pos hwakes]
    exact s.wakeup_ne_zero

/-- The loop polls while another thread has pushed and not yet woken it. -/
theorem no_wakeup_of_a_pushed_functor_is_lost :
    ∃ s : EventLoop Bool Unit Nat, s.pc = .poll ∧ s.pendingFunctors_ = [7] ∧ s.wakeupFd_ = 0 ∧
      ∃ t, t ≠ s.threadId_ ∧ s.phase t = .pushed ∧ (s.callReturns t).wakeupFd_ ≠ 0 := by
  have h0 : ((machine false ()).restrict
      fun (s : EventLoop Bool Unit Nat) a _ => a = .loop → s.pendingFunctors_ = []).Run
      (construct false ()) [] (construct false ()) := .nil
  have h1 := h0.snoc (a := Act.loop) (by exact ⟨⟨⟨⟨rfl, rfl⟩, rfl⟩, rfl⟩, fun _ => rfl⟩)
  have h2 := h1.snoc (a := Act.clearQuit) (by exact ⟨⟨⟨rfl, rfl⟩, rfl⟩, by simp⟩)
  have h3 := h2.snoc (a := Act.whileTest) (by exact ⟨⟨⟨rfl, rfl⟩, rfl⟩, by simp⟩)
  have h4 := h3.snoc (a := Act.queueInLoop true 7)
    (by exact ⟨⟨⟨rfl, by decide⟩, rfl⟩, by simp⟩)
  have hlaw := no_wakeup_is_lost ⟨_, _, rfl, h4⟩ rfl (by simp [Act.apply, queueInLoop, setPhase])
  refine ⟨_, ?_, ?_, ?_, hlaw.resolve_left ?_⟩
  · rfl
  · rfl
  · rfl
  · exact fun hc => hc rfl

end EventLoop

end jmuduo.net
