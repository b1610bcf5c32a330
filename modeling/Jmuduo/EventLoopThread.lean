-- A loop in a thread of its own (EventLoopThread.h): `startLoop` waits until the
-- new thread has its loop, and the destructor asks it to quit and joins it.
import Jmuduo.LoopRequests
import Jmuduo.Monitor

open runs monitors

namespace jmuduo.net

/-! ## The thread of the source -/

/-- Where the owner of the object stands. The last four places are in the
destructor, and two of them in its `quit`. -/
inductive OwnerPc
  | created
  | starting
  | returned (loop : Bool)
  | quitting
  | waking
  | joining
  | destroyed
  deriving DecidableEq, Repr

/-- Where the new thread stands in `threadFunc`. -/
inductive FuncPc
  | none
  | entered
  | constructed
  | publishing
  | looping
  | cleared
  | ended
  deriving DecidableEq, Repr

/-- The sections of `mutex_`. -/
inductive Section
  | startLoop
  | publish
  deriving DecidableEq, Repr

/-- The sections as the calls of a monitor. Its data says whether `loop_` is
not NULL, and its condition is `cond_`. -/
def Section.code : Code Section Unit Bool Unit where
  waitsFor
    | .startLoop, loop_ => if loop_ then none else some ()
    | .publish, _ => none
  body
    | .startLoop, loop_ => pure (loop_, ())
    | .publish, _ => pure (true, ())
  notice
    | .startLoop, _ => .none
    | .publish, _ => .one ()

/-- `loop` is the local variable of `threadFunc`, as long as it lives.
`started_` and `joined_` are of `thread_`, and `detached` says whether its
destructor has detached the thread. `dangling` says whether the destructor has
used a loop that was gone. -/
structure EventLoopThread (τ κ φ : Type) where
  monitor : Monitor τ Section Unit Bool Unit
  started_ : Bool
  joined_ : Bool
  detached : Bool
  loop : Option (EventLoop τ κ φ)
  owner : OwnerPc
  func : FuncPc
  dangling : Bool

namespace EventLoopThread

variable {τ κ φ : Type}

def construct : EventLoopThread τ κ φ where
  monitor := Monitor.start false
  started_ := false
  joined_ := false
  detached := false
  loop := none
  owner := .created
  func := .none
  dangling := false

/-- Whether `loop_` is not NULL. -/
def loop_ (s : EventLoopThread τ κ φ) : Bool := s.monitor.data

/-- `startLoop` has returned, so that others than the object know the loop. -/
def Shared (s : EventLoopThread τ κ φ) : Prop := s.owner ≠ .created ∧ s.owner ≠ .starting

/-- The owner is in no call of the object. -/
def OwnerFree (s : EventLoopThread τ κ φ) : Prop := ∃ p, s.owner = .returned p

/-- The destructor of `thread_`. -/
def releaseThread (s : EventLoopThread τ κ φ) : EventLoopThread τ κ φ :=
  { s with detached := s.started_ && !s.joined_, owner := .destroyed }

/-- The store of `loop_->quit()` in the destructor. -/
def quit [DecidableEq τ] (owner : τ) (s : EventLoopThread τ κ φ) : EventLoopThread τ κ φ :=
  { s with
    loop := s.loop.map (EventLoop.quit owner)
    owner := .waking
    dangling := s.dangling || s.loop.isNone }

/-- The rest of `loop_->quit()` in the destructor. -/
def quitReturns [DecidableEq τ] (owner : τ) (s : EventLoopThread τ κ φ) : EventLoopThread τ κ φ :=
  { s with
    loop := s.loop.map (EventLoop.callReturns owner)
    owner := .joining
    dangling := s.dangling || s.loop.isNone }

/-! ## The steps -/

/-- A step of the owner, of the new thread, or of any thread that uses the
loop. `start` says whether `pthread_create` made a thread. -/
inductive Act (τ κ φ : Type)
  | start (created : Bool)
  | construct
  | publish
  | inSection (a : Monitor.Act τ Section)
  | startReturns
  | loop (a : EventLoop.Act τ κ φ)
  | clear
  | ends
  | destroy
  | quit
  | quitReturns
  | join

/-- Who takes the step of the loop: the new thread enters `loop` behind its
section, and a call of another function is of one who knows the loop. -/
def Allowed (owner thread : τ) (s : EventLoopThread τ κ φ) : EventLoop.Act τ κ φ → Prop
  | .loop => s.func = .publishing ∧ s.monitor.place thread = .outside
  | .queueInLoop t _ | .quit t => s.Shared ∧ (t = owner → s.OwnerFree)
  | .callReturns t => t = owner → s.OwnerFree
  | _ => True

/-- The place of the new thread after a step of its loop. -/
def funcAfter (func : FuncPc) : EventLoop.Act τ κ φ → FuncPc
  | .loop => .looping
  | _ => func

inductive Step [DecidableEq τ] [DecidableEq κ] (owner thread : τ) (wakeChannel : κ)
    (s : EventLoopThread τ κ φ) : Act τ κ φ → EventLoopThread τ κ φ → Prop
  | start : s.owner = .created → s.started_ = false → Step owner thread wakeChannel s (.start true)
    { s with
      started_ := true
      owner := .starting
      func := .entered
      monitor := s.monitor.go owner (.locking .startLoop) }
  | startFails : s.owner = .created → s.started_ = false →
    Step owner thread wakeChannel s (.start false)
    { s with owner := .starting, monitor := s.monitor.go owner (.locking .startLoop) }
  | construct : s.func = .entered → Step owner thread wakeChannel s .construct
    { s with loop := some (EventLoop.construct thread wakeChannel), func := .constructed }
  | publish : s.func = .constructed → Step owner thread wakeChannel s .publish
    { s with func := .publishing, monitor := s.monitor.go thread (.locking .publish) }
  | inSection {a : Monitor.Act τ Section} {m : Monitor τ Section Unit Bool Unit} :
    (∀ t k, a ≠ .call t k) → Monitor.Step Section.code s.monitor a m →
    Step owner thread wakeChannel s (.inSection a) { s with monitor := m }
  | startReturns : s.owner = .starting → s.monitor.place owner = .outside →
    Step owner thread wakeChannel s .startReturns { s with owner := .returned s.loop_ }
  | loop {l : EventLoop τ κ φ} {a : EventLoop.Act τ κ φ} : s.loop = some l → a.Enabled l →
    s.Allowed owner thread a → Step owner thread wakeChannel s (.loop a)
    { s with loop := some (a.apply l), func := funcAfter s.func a }
  | clear {l : EventLoop τ κ φ} : s.func = .looping → s.loop = some l → l.At .outside →
    Step owner thread wakeChannel s .clear
    { s with monitor := { s.monitor with data := false }, func := .cleared }
  | ends : s.func = .cleared →
    Step owner thread wakeChannel s .ends { s with loop := none, func := .ended }
  | destroyNull : s.owner = .created ∨ s.OwnerFree → (∀ l ∈ s.loop, l.phase owner = .idle) →
    s.loop_ = false → Step owner thread wakeChannel s .destroy s.releaseThread
  | destroyLoop : s.owner = .created ∨ s.OwnerFree → (∀ l ∈ s.loop, l.phase owner = .idle) →
    s.loop_ = true → Step owner thread wakeChannel s .destroy { s with owner := .quitting }
  | quit : s.owner = .quitting → Step owner thread wakeChannel s .quit (s.quit owner)
  | quitReturns : s.owner = .waking →
    Step owner thread wakeChannel s .quitReturns (s.quitReturns owner)
  | join : s.owner = .joining → s.func = .ended → s.started_ = true → s.joined_ = false →
    Step owner thread wakeChannel s .join { s with joined_ := true }.releaseThread

/-- All the interleavings of the owner, the new thread and the others. -/
def machine [DecidableEq τ] [DecidableEq κ] (owner thread : τ) (wakeChannel : κ) :
    Machine (EventLoopThread τ κ φ) (Act τ κ φ) where
  init s := s = construct
  step := Step owner thread wakeChannel

/-- The machine in which nobody but the destructor calls `quit`. -/
def quitting [DecidableEq τ] [DecidableEq κ] (owner thread : τ) (wakeChannel : κ) :
    Machine (EventLoopThread τ κ φ) (Act τ κ φ) :=
  (machine owner thread wakeChannel).restrict fun _ a _ => ∀ t, a ≠ .loop (.quit t)

end EventLoopThread

/-! ## What a step of the loop does -/

namespace EventLoop

variable {τ κ φ : Type} [DecidableEq τ] [DecidableEq κ]

/-- Only `quit` sets `quit_`, and only `loop` clears it. -/
theorem quit_apply (l : EventLoop τ κ φ) (a : Act τ κ φ) :
    ((∃ t, a = .quit t) ∧ (a.apply l).quit_ = true) ∨
    (a = .clearQuit ∧ (a.apply l).quit_ = false) ∨
    ((∀ t, a ≠ .quit t) ∧ a ≠ .clearQuit ∧ (a.apply l).quit_ = l.quit_) := by
  cases a with
  | quit t => exact Or.inl ⟨⟨t, rfl⟩, rfl⟩
  | clearQuit => exact Or.inr (Or.inl ⟨rfl, rfl⟩)
  | callReturns t =>
    obtain ⟨_, _, _, hquit, _⟩ := l.callReturns_fields t
    exact Or.inr (Or.inr ⟨by simp, by simp, hquit⟩)
  | whileTest =>
    refine Or.inr (Or.inr ⟨by simp, by simp, ?_⟩)
    simp only [Act.apply, EventLoop.whileTest]
    split <;> rfl
  | handleEvent =>
    obtain ⟨counter, pc, _, e⟩ := handleEvent.spec l
    refine Or.inr (Or.inr ⟨by simp, by simp, ?_⟩)
    simp only [Act.apply, e]
  | callFunctor =>
    refine Or.inr (Or.inr ⟨by simp, by simp, ?_⟩)
    simp only [Act.apply, EventLoop.callFunctor]
    split <;> rfl
  | _ => exact Or.inr (Or.inr ⟨by simp, by simp, rfl⟩)

/-- `looping_` is set while the thread is in `loop`. -/
def Framed (l : EventLoop τ κ φ) : Prop := l.looping_ = true ↔ l.pc ≠ .outside

omit [DecidableEq κ] in
/-- A call keeps where the thread of the loop stands. -/
theorem callReturns_looping (l : EventLoop τ κ φ) (t : τ) :
    (l.callReturns t).looping_ = l.looping_ := by
  unfold callReturns
  split <;> rfl

/-- The thread enters by `loop`, and leaves by the test of `quit_`. Inside, a
step leads to a place behind the entry, and `clearQuit` is the step from the
entry. -/
theorem place_apply {l : EventLoop τ κ φ} {a : Act τ κ φ} (he : a.Enabled l) :
    (a = .loop ∧ l.pc = .outside ∧ (a.apply l).pc = .entered ∧ (a.apply l).looping_ = true) ∨
    (a = .whileTest ∧ l.quit_ = true ∧ (a.apply l).pc = .outside ∧
      (a.apply l).looping_ = false) ∨
    ((∃ t, a.caller = some t) ∧ (a.apply l).pc = l.pc ∧ (a.apply l).looping_ = l.looping_) ∨
    (a ≠ .loop ∧ (a = .clearQuit ↔ l.pc = .entered) ∧ l.pc ≠ .outside ∧
      (a.apply l).pc ≠ .outside ∧ (a.apply l).pc ≠ .entered ∧
      (a.apply l).looping_ = l.looping_) := by
  cases a with
  | queueInLoop t cb => exact Or.inr (Or.inr (Or.inl ⟨⟨t, rfl⟩, rfl, rfl⟩))
  | quit t => exact Or.inr (Or.inr (Or.inl ⟨⟨t, rfl⟩, rfl, rfl⟩))
  | callReturns t =>
    exact Or.inr (Or.inr (Or.inl ⟨⟨t, rfl⟩, callReturns_pc l t, callReturns_looping l t⟩))
  | loop => exact Or.inl ⟨rfl, he.1.1, rfl, rfl⟩
  | whileTest =>
    simp only [Act.apply, EventLoop.whileTest]
    split
    · rename_i hq
      exact Or.inr (Or.inl ⟨trivial, hq, rfl, rfl⟩)
    · exact Or.inr (Or.inr (Or.inr (by simp [he.1])))
  | handleEvent =>
    obtain ⟨counter, pc, hpc, e⟩ := handleEvent.spec l
    simp only [Act.apply, e]
    rcases hpc with rfl | rfl <;> exact Or.inr (Or.inr (Or.inr (by simp [he.1.1])))
  | callFunctor =>
    simp only [Act.apply, EventLoop.callFunctor]
    split <;> exact Or.inr (Or.inr (Or.inr (by simp [he.1.1])))
  | clearQuit => exact Or.inr (Or.inr (Or.inr (by simp [Act.apply, he.1])))
  | poll active => exact Or.inr (Or.inr (Or.inr (by simp [Act.apply, he.1])))
  | handlerReturns => exact Or.inr (Or.inr (Or.inr (by simp [Act.apply, he.1])))
  | doPendingFunctors_ => exact Or.inr (Or.inr (Or.inr (by simp [Act.apply, he.1.1])))
  | swap => exact Or.inr (Or.inr (Or.inr (by simp [Act.apply, he.1])))
  | functorReturns => exact Or.inr (Or.inr (Or.inr (by simp [Act.apply, he.1])))
  | clearCalling => exact Or.inr (Or.inr (Or.inr (by simp [Act.apply, he.1.1])))

theorem Framed.apply {l : EventLoop τ κ φ} {a : Act τ κ φ} (h : l.Framed) (he : a.Enabled l) :
    (a.apply l).Framed := by
  unfold Framed at h ⊢
  rcases place_apply he with ⟨_, _, hpc, hl⟩ | ⟨_, _, hpc, hl⟩ | ⟨_, hpc, hl⟩ |
    ⟨_, _, hin, hpc, _, hl⟩
  · simp [hpc, hl]
  · simp [hpc, hl]
  · rw [hpc, hl]
    exact h
  · rw [hl, h]
    exact ⟨fun _ => hpc, fun _ => hin⟩

end EventLoop

namespace EventLoopThread

/-! ## What a step of the sections does -/

/-- The owner is in the section of `startLoop`, or in none. -/
def AtStart (p : Place Section Unit Unit) : Prop :=
  p = .outside ∨ p = .locking .startLoop ∨ p = .testing .startLoop ∨ p = .waiting .startLoop () ∨
  p = .notified .startLoop ∨ p = .acting .startLoop ∨ p = .notifying .startLoop () ∨
  p = .leaving ()

/-- The new thread is in its section, or in none. It never waits. -/
def AtPublish (q : Place Section Unit Unit) : Prop :=
  q = .outside ∨ q = .locking .publish ∨ q = .testing .publish ∨ q = .acting .publish ∨
  q = .notifying .publish () ∨ q = .leaving ()

/-- What a step does to the place of the owner, the place of the new thread
and `loop_`. -/
inductive Move : Place Section Unit Unit → Place Section Unit Unit → Bool →
    Place Section Unit Unit → Place Section Unit Unit → Bool → Prop
  | lock {q d} : Move (.locking .startLoop) q d (.testing .startLoop) q d
  | relock {q d} : Move (.notified .startLoop) q d (.testing .startLoop) q d
  | wait {q} : Move (.testing .startLoop) q false (.waiting .startLoop ()) q false
  | pass {q} : Move (.testing .startLoop) q true (.acting .startLoop) q true
  | read {q d} : Move (.acting .startLoop) q d (.notifying .startLoop ()) q d
  | done {q d} : Move (.notifying .startLoop ()) q d (.leaving ()) q d
  | unlock {q d} : Move (.leaving ()) q d .outside q d
  | wake {q d} : Move (.waiting .startLoop ()) q d (.notified .startLoop) q d
  | lockNew {p d} : Move p (.locking .publish) d p (.testing .publish) d
  | passNew {p d} : Move p (.testing .publish) d p (.acting .publish) d
  | store {p d} : Move p (.acting .publish) d p (.notifying .publish ()) true
  | notify {d} : Move (.waiting .startLoop ()) (.notifying .publish ()) d
      (.notified .startLoop) (.leaving ()) d
  | notifyNobody {p d} : p ≠ .waiting .startLoop () →
    Move p (.notifying .publish ()) d p (.leaving ()) d
  | unlockNew {p d} : Move p (.leaving ()) d p .outside d

variable {τ : Type} [DecidableEq τ] {owner thread : τ}
  {m m' : Monitor τ Section Unit Bool Unit}

/-- The places of the threads. Only two are ever in a section. -/
structure Placed (owner thread : τ) (m : Monitor τ Section Unit Bool Unit) : Prop where
  start : AtStart (m.place owner)
  publish : AtPublish (m.place thread)
  others : ∀ t, t ≠ owner → t ≠ thread → m.place t = .outside

omit [DecidableEq τ] in
theorem Placed.cases (h : Placed owner thread m) {t : τ} {p : Place Section Unit Unit}
    (ht : m.place t = p) (hp : p ≠ .outside) : t = owner ∨ t = thread := by
  by_contra hno
  rw [not_or] at hno
  rw [h.others t hno.1 hno.2] at ht
  exact hp ht.symm

/-- The owner moves. -/
theorem Placed.ownerGoes (h : Placed owner thread m) (hne : owner ≠ thread)
    {p : Place Section Unit Unit} (hp : AtStart p)
    (hm : m'.place = Function.update m.place owner p) :
    Placed owner thread m' ∧ m'.place owner = p ∧ m'.place thread = m.place thread := by
  have hself : m'.place owner = p := by rw [hm, Function.update_self]
  have hother : ∀ t, t ≠ owner → m'.place t = m.place t := fun t ht => by
    rw [hm, Function.update_of_ne ht]
  have hnew := hother thread (Ne.symm hne)
  refine ⟨⟨hself ▸ hp, hnew ▸ h.publish, fun t ht ht' => ?_⟩, hself, hnew⟩
  rw [hother t ht]
  exact h.others t ht ht'

/-- The new thread moves. -/
theorem Placed.threadGoes (h : Placed owner thread m) (hne : owner ≠ thread)
    {q : Place Section Unit Unit} (hq : AtPublish q)
    (hm : m'.place = Function.update m.place thread q) :
    Placed owner thread m' ∧ m'.place owner = m.place owner ∧ m'.place thread = q := by
  have hself : m'.place thread = q := by rw [hm, Function.update_self]
  have hother : ∀ t, t ≠ thread → m'.place t = m.place t := fun t ht => by
    rw [hm, Function.update_of_ne ht]
  have hold := hother owner hne
  refine ⟨⟨hold ▸ h.start, hself ▸ hq, fun t ht ht' => ?_⟩, hold, hself⟩
  rw [hother t ht']
  exact h.others t ht ht'

theorem Placed.goOwner (h : Placed owner thread m) (hne : owner ≠ thread)
    {p : Place Section Unit Unit} (hp : AtStart p)
    (hmove : Move (m.place owner) (m.place thread) m.data p (m.place thread) m'.data)
    (hm : m'.place = Function.update m.place owner p) :
    Placed owner thread m' ∧ Move (m.place owner) (m.place thread) m.data
      (m'.place owner) (m'.place thread) m'.data := by
  obtain ⟨hplaced, hself, hother⟩ := h.ownerGoes hne hp hm
  refine ⟨hplaced, ?_⟩
  rw [hself, hother]
  exact hmove

theorem Placed.goThread (h : Placed owner thread m) (hne : owner ≠ thread)
    {q : Place Section Unit Unit} (hq : AtPublish q)
    (hmove : Move (m.place owner) (m.place thread) m.data (m.place owner) q m'.data)
    (hm : m'.place = Function.update m.place thread q) :
    Placed owner thread m' ∧ Move (m.place owner) (m.place thread) m.data
      (m'.place owner) (m'.place thread) m'.data := by
  obtain ⟨hplaced, hother, hself⟩ := h.threadGoes hne hq hm
  refine ⟨hplaced, ?_⟩
  rw [hself, hother]
  exact hmove

/-- The two threads make the steps of their own sections. -/
theorem Placed.move (h : Placed owner thread m) (hne : owner ≠ thread)
    {a : Monitor.Act τ Section} (hcall : ∀ t k, a ≠ .call t k)
    (hs : Monitor.Step Section.code m a m') :
    Placed owner thread m' ∧ Move (m.place owner) (m.place thread) m.data
      (m'.place owner) (m'.place thread) m'.data := by
  have hstart := h.start
  have hpublish := h.publish
  cases hs with
  | call ht => exact absurd rfl (hcall _ _)
  | @lock t k ht hfree =>
    rcases ht with ht | ht
    · rcases h.cases ht (by simp) with rfl | rfl
      · obtain rfl : k = .startLoop := by simpa [AtStart, ht] using hstart
        exact h.goOwner hne (by simp [AtStart]) (ht ▸ .lock) rfl
      · obtain rfl : k = .publish := by simpa [AtPublish, ht] using hpublish
        exact h.goThread hne (by simp [AtPublish]) (ht ▸ .lockNew) rfl
    · rcases h.cases ht (by simp) with rfl | rfl
      · obtain rfl : k = .startLoop := by simpa [AtStart, ht] using hstart
        exact h.goOwner hne (by simp [AtStart]) (ht ▸ .relock) rfl
      · simp [AtPublish, ht] at hpublish
  | @wait t k c ht hc =>
    rcases h.cases ht (by simp) with rfl | rfl
    · obtain rfl : k = .startLoop := by simpa [AtStart, ht] using hstart
      have hnull : m.data = false := by simpa [Section.code] using hc
      refine h.goOwner hne (by simp [AtStart]) ?_ rfl
      rw [ht]
      simp only [Monitor.go, hnull]
      exact .wait
    · obtain rfl : k = .publish := by simpa [AtPublish, ht] using hpublish
      cases hc
  | @pass t k ht hc =>
    rcases h.cases ht (by simp) with rfl | rfl
    · obtain rfl : k = .startLoop := by simpa [AtStart, ht] using hstart
      have hset : m.data = true := by simpa [Section.code] using hc
      refine h.goOwner hne (by simp [AtStart]) ?_ rfl
      rw [ht]
      simp only [Monitor.go, hset]
      exact .pass
    · obtain rfl : k = .publish := by simpa [AtPublish, ht] using hpublish
      exact h.goThread hne (by simp [AtPublish]) (ht ▸ .passNew) rfl
  | @body t k d r ht hb =>
    rcases h.cases ht (by simp) with rfl | rfl
    · obtain rfl : k = .startLoop := by simpa [AtStart, ht] using hstart
      cases hb
      exact h.goOwner hne (by simp [AtStart]) (ht ▸ .read) rfl
    · obtain rfl : k = .publish := by simpa [AtPublish, ht] using hpublish
      cases hb
      exact h.goThread hne (by simp [AtPublish]) (ht ▸ .store) rfl
  | @notifyNone t k r ht hn =>
    rcases h.cases ht (by simp) with rfl | rfl
    · obtain rfl : k = .startLoop := by simpa [AtStart, ht] using hstart
      exact h.goOwner hne (by simp [AtStart]) (ht ▸ .done) rfl
    · obtain rfl : k = .publish := by simpa [AtPublish, ht] using hpublish
      cases hn
  | @notifyOne t u k j r c ht hn hu =>
    rcases h.cases ht (by simp) with rfl | rfl
    · obtain rfl : k = .startLoop := by simpa [AtStart, ht] using hstart
      cases hn
    · obtain rfl : k = .publish := by simpa [AtPublish, ht] using hpublish
      rcases h.cases hu (by simp) with rfl | rfl
      · -- the owner waits, and is told while the new thread goes on
        obtain rfl : j = .startLoop := by simpa [AtStart, hu] using hstart
        refine ⟨⟨?_, ?_, fun v hv hv' => ?_⟩, ?_⟩
        · simp [Monitor.go, hne, AtStart]
        · simp [Monitor.go, AtPublish]
        · simp only [Monitor.go, Function.update_of_ne hv, Function.update_of_ne hv']
          exact h.others v hv hv'
        · simp only [Monitor.go, ht, hu, Function.update_self, Function.update_of_ne hne]
          exact .notify
      · simp [AtPublish, hu] at hpublish
  | @notifyNobody t k r c ht hn hnone =>
    rcases h.cases ht (by simp) with rfl | rfl
    · obtain rfl : k = .startLoop := by simpa [AtStart, ht] using hstart
      cases hn
    · obtain rfl : k = .publish := by simpa [AtPublish, ht] using hpublish
      exact h.goThread hne (by simp [AtPublish]) (ht ▸ .notifyNobody (hnone _ _)) rfl
  | @notifyAll t k r c ht hn => cases k <;> cases hn
  | @wake t k c ht =>
    rcases h.cases ht (by simp) with rfl | rfl
    · obtain rfl : k = .startLoop := by simpa [AtStart, ht] using hstart
      exact h.goOwner hne (by simp [AtStart]) (ht ▸ .wake) rfl
    · simp [AtPublish, ht] at hpublish
  | @unlock t r ht =>
    rcases h.cases ht (by simp) with rfl | rfl
    · exact h.goOwner hne (by simp [AtStart]) (ht ▸ .unlock) rfl
    · exact h.goThread hne (by simp [AtPublish]) (ht ▸ .unlockNew) rfl

/-! ## The hand-off -/

/-- The owner found a loop, or is behind its section. -/
def Passed (p : Place Section Unit Unit) : Prop :=
  p = .outside ∨ p = .acting .startLoop ∨ p = .notifying .startLoop () ∨ p = .leaving ()

/-- The new thread has stored its loop. -/
def Stored (q : Place Section Unit Unit) : Prop :=
  q = .outside ∨ q = .notifying .publish () ∨ q = .leaving ()

/-- How the two threads, with the places `p` and `q`, and `loop_` agree. -/
structure Hand (o : OwnerPc) (f : FuncPc) (p q : Place Section Unit Unit) (loop_ : Bool) :
    Prop where
  atOwner : o ≠ .starting → p = .outside
  atThread : f ≠ .publishing → q = .outside
  stored : loop_ = true ↔ f = .looping ∨ (f = .publishing ∧ Stored q)
  passed : o = .starting → Passed p → loop_ = true
  waiting : p = .waiting .startLoop () → loop_ = false ∨ q = .notifying .publish ()

theorem Hand.move {o : OwnerPc} {f : FuncPc} {p q p' q' : Place Section Unit Unit} {d d' : Bool}
    (h : Hand o f p q d) (hm : Move p q d p' q' d') : Hand o f p' q' d' := by
  obtain ⟨hown, hthr, hst, hpass, hwait⟩ := h
  cases hm <;> constructor <;> simp_all [Passed, Stored]

variable {κ φ : Type} [DecidableEq κ]

/-- What holds of the loop of a thread at the place `f`: outside of `loop`, it
was not entered, or it has returned after a `quit`. -/
structure LoopAt (thread : τ) (f : FuncPc) (l : EventLoop τ κ φ) : Prop where
  inv : l.Inv
  framed : l.Framed
  threadId : l.threadId_ = thread
  outside : f ≠ .looping → l.pc = .outside
  left : f = .looping → l.pc = .outside → l.quit_ = true

/-- The life of the thread, as the owner knows it. -/
structure Life (s : EventLoopThread τ κ φ) : Prop where
  created : s.owner = .created → s.func = .none
  started : s.started_ = true ↔ s.func ≠ .none
  joined : s.joined_ = true → s.owner = .destroyed ∧ s.func = .ended
  alive : s.loop = none ↔ s.func = .none ∨ s.func = .entered ∨ s.func = .ended
  unshared : ¬ s.Shared →
    s.func ≠ .cleared ∧ s.func ≠ .ended ∧ ∀ l ∈ s.loop, l.quit_ = false
  returned : ∀ p, s.owner = .returned p → p = true
  shared : s.Shared → s.owner ≠ .destroyed →
    s.loop_ = true ∨ s.func = .cleared ∨ s.func = .ended
  destroyed : s.owner = .destroyed → (s.func = .none ∨ s.func = .cleared ∨ s.func = .ended) ∧
    s.detached = (s.started_ && !s.joined_)
  held : s.owner ≠ .destroyed → s.detached = false

/-- What holds in every state of a run. -/
structure Inv (owner thread : τ) (s : EventLoopThread τ κ φ) : Prop where
  placed : Placed owner thread s.monitor
  hand : Hand s.owner s.func (s.monitor.place owner) (s.monitor.place thread) s.loop_
  loop : ∀ l ∈ s.loop, LoopAt thread s.func l
  life : s.Life

omit [DecidableEq τ] [DecidableEq κ] in
theorem construct_inv (owner thread : τ) :
    (construct : EventLoopThread τ κ φ).Inv owner thread where
  placed := ⟨by simp [construct, Monitor.start, AtStart], by simp [construct, Monitor.start,
    AtPublish], fun _ _ _ => rfl⟩
  hand := by constructor <;> simp [construct, Monitor.start, loop_]
  loop l hl := by cases hl
  life := by constructor <;> simp [construct, Shared, loop_, Monitor.start]

omit [DecidableEq τ] [DecidableEq κ] in
theorem funcAfter_of_ne {f : FuncPc} {a : EventLoop.Act τ κ φ} (ha : a ≠ .loop) :
    funcAfter f a = f := by
  cases a <;> first | rfl | exact absurd rfl ha

theorem LoopAt.apply {thread : τ} {f : FuncPc} {l : EventLoop τ κ φ} {a : EventLoop.Act τ κ φ}
    (h : LoopAt thread f l) (he : a.Enabled l) : LoopAt thread (funcAfter f a) (a.apply l) := by
  refine ⟨h.inv.apply he, h.framed.apply he, (l.apply_fields a).1.trans h.threadId, ?_, ?_⟩
  · intro hf
    have ha : a ≠ .loop := by
      rintro rfl
      exact hf rfl
    rw [funcAfter_of_ne ha] at hf
    have hout := h.outside hf
    rcases EventLoop.place_apply he with ⟨e, _⟩ | ⟨_, _, hpc, _⟩ | ⟨_, hpc, _⟩ | ⟨_, _, hin, _⟩
    · exact absurd e ha
    · exact hpc
    · exact hpc.trans hout
    · exact absurd hout hin
  · intro hf hout
    rcases EventLoop.place_apply he with ⟨_, _, hpc, _⟩ | ⟨rfl, hq, _⟩ | ⟨⟨t, hcall⟩, hpc, _⟩ |
      ⟨_, _, _, hin, _⟩
    · rw [hpc] at hout
      cases hout
    · rcases l.quit_apply .whileTest with ⟨_, e⟩ | ⟨e, _⟩ | ⟨_, _, e⟩
      · exact e
      · cases e
      · exact e.trans hq
    · have ha : a ≠ .loop := by
        rintro rfl
        cases hcall
      rw [funcAfter_of_ne ha] at hf
      have hq := h.left hf (hpc.symm.trans hout)
      rcases l.quit_apply a with ⟨_, e⟩ | ⟨rfl, _⟩ | ⟨_, _, e⟩
      · exact e
      · cases hcall
      · exact e.trans hq
    · exact absurd hout hin

/-- The thread enters its loop behind its section. -/
theorem Hand.enter {o : OwnerPc} {p q : Place Section Unit Unit} {d : Bool}
    (h : Hand o .publishing p q d) (hq : q = .outside) : Hand o .looping p q d := by
  obtain ⟨hown, hthr, hst, hpass, hwait⟩ := h
  constructor <;> simp_all [Stored]

/-- The thread clears `loop_` when the owner is not in `startLoop`. -/
theorem Hand.clear {o : OwnerPc} {p q : Place Section Unit Unit} {d : Bool}
    (h : Hand o .looping p q d) (ho : o ≠ .starting) : Hand o .cleared p q false := by
  obtain ⟨hown, hthr, hst, hpass, hwait⟩ := h
  constructor <;> simp_all

/-- The owner goes on outside of its section. -/
theorem Hand.goes {o o' : OwnerPc} {f : FuncPc} {p q : Place Section Unit Unit} {d : Bool}
    (h : Hand o f p q d) (hp : p = .outside) (ho : o' ≠ .starting) : Hand o' f p q d := by
  obtain ⟨hown, hthr, hst, hpass, hwait⟩ := h
  constructor <;> simp_all

/-- The thread is not between its section and its end. -/
theorem Hand.away {o : OwnerPc} {f f' : FuncPc} {p q : Place Section Unit Unit} {d : Bool}
    (h : Hand o f p q d) (hf : f ≠ .publishing ∧ f ≠ .looping)
    (hf' : f' ≠ .publishing ∧ f' ≠ .looping) : Hand o f' p q d := by
  obtain ⟨hown, hthr, hst, hpass, hwait⟩ := h
  constructor <;> simp_all

/-- The owner begins its section before the thread does. -/
theorem Hand.start {o : OwnerPc} {f : FuncPc} {p q : Place Section Unit Unit} {d : Bool}
    (h : Hand o f p q d) (hf : f ≠ .publishing ∧ f ≠ .looping) :
    Hand .starting f (.locking .startLoop) q d := by
  obtain ⟨hown, hthr, hst, hpass, hwait⟩ := h
  constructor <;> simp_all [Passed]

/-- The thread begins its section. -/
theorem Hand.publish {o : OwnerPc} {f : FuncPc} {p q : Place Section Unit Unit} {d : Bool}
    (h : Hand o f p q d) (hf : f ≠ .publishing ∧ f ≠ .looping) :
    Hand o .publishing p (.locking .publish) d := by
  obtain ⟨hown, hthr, hst, hpass, hwait⟩ := h
  constructor <;> simp_all [Stored]

/-- No section takes `loop_` back. -/
theorem Move.kept {p q p' q' : Place Section Unit Unit} {d d' : Bool} (h : Move p q d p' q' d')
    (hd : d = true) : d' = true := by
  cases h <;> first | rfl | exact hd

omit [DecidableEq κ] in
/-- The loop takes the `quit` of the owner. -/
theorem LoopAt.quit {thread : τ} {f : FuncPc} {l : EventLoop τ κ φ} (h : LoopAt thread f l)
    (hne : owner ≠ thread) : LoopAt thread f (l.quit owner) where
  inv := ⟨EventLoop.called_of_call h.inv fun e => absurd (e.trans h.threadId) hne, h.inv.calling,
    h.inv.batch, h.inv.order⟩
  framed := h.framed
  threadId := h.threadId
  outside := h.outside
  left _ _ := rfl

omit [DecidableEq κ] in
theorem LoopAt.callReturns {thread : τ} {f : FuncPc} {l : EventLoop τ κ φ}
    (h : LoopAt thread f l) (t : τ) : LoopAt thread f (l.callReturns t) := by
  obtain ⟨_, _, _, hquit, _⟩ := l.callReturns_fields t
  have hpc := EventLoop.callReturns_pc l t
  refine ⟨h.inv.callReturns t, ?_, ?_, ?_, ?_⟩
  · unfold EventLoop.Framed
    rw [EventLoop.callReturns_looping, hpc]
    exact h.framed
  · unfold EventLoop.callReturns
    split <;> exact h.threadId
  · rw [hpc]
    exact h.outside
  · rw [hpc, hquit]
    exact h.left

omit [DecidableEq τ] [DecidableEq κ] in
/-- A loop that left its loop was asked to quit by one who knows it. -/
theorem Life.shared_of_left {s : EventLoopThread τ κ φ} (h : s.Life) {l : EventLoop τ κ φ}
    (hl : s.loop = some l) (hat : LoopAt thread s.func l) (hf : s.func = .looping)
    (hout : l.pc = .outside) : s.Shared := by
  by_contra hno
  have hquit := (h.unshared hno).2.2 l hl
  rw [hat.left hf hout] at hquit
  cases hquit

omit [DecidableEq τ] [DecidableEq κ] in
/-- The owner begins `startLoop`, with or without a new thread. -/
theorem Life.start {s : EventLoopThread τ κ φ} (h : s.Life) (ho : s.owner = .created)
    {started : Bool} {f : FuncPc} (hf : f = .none ∨ f = .entered)
    (hstarted : started = true ↔ f ≠ .none) (m : Monitor τ Section Unit Bool Unit) :
    ({ s with started_ := started, owner := .starting, func := f, monitor := m } :
      EventLoopThread τ κ φ).Life := by
  have hnone := h.alive.mpr (Or.inl (h.created ho))
  have hj : s.joined_ ≠ true := fun hj => by
    have hdestroyed := (h.joined hj).1
    rw [ho] at hdestroyed
    cases hdestroyed
  refine ⟨by simp, hstarted, fun e => absurd e hj, ?_, fun _ => ?_, by simp, by simp [Shared],
    by simp, fun _ => h.held (by simp [ho])⟩
  · rcases hf with rfl | rfl <;> simp [hnone]
  · rcases hf with rfl | rfl <;> simp [hnone]

omit [DecidableEq τ] [DecidableEq κ] in
/-- The new thread goes on. -/
theorem Life.funcGoes {s : EventLoopThread τ κ φ} (h : s.Life) {f : FuncPc}
    {l : Option (EventLoop τ κ φ)} {m : Monitor τ Section Unit Bool Unit}
    (hnone : s.func ≠ .none ∧ f ≠ .none) (hended : s.func ≠ .ended)
    (halive : l = none ↔ f = .none ∨ f = .entered ∨ f = .ended)
    (hunshared : ¬ s.Shared → f ≠ .cleared ∧ f ≠ .ended ∧ ∀ l' ∈ l, l'.quit_ = false)
    (hshared : s.Shared → s.owner ≠ .destroyed → m.data = true ∨ f = .cleared ∨ f = .ended)
    (hdestroyed : s.func = .cleared → f = .cleared ∨ f = .ended) :
    ({ s with loop := l, func := f, monitor := m } : EventLoopThread τ κ φ).Life where
  created ho := absurd (h.created ho) hnone.1
  started := h.started.trans ⟨fun _ => hnone.2, fun _ => hnone.1⟩
  joined hj := absurd (h.joined hj).2 hended
  alive := halive
  unshared := hunshared
  returned := h.returned
  shared := hshared
  destroyed ho := by
    obtain ⟨hover, hrelease⟩ := h.destroyed ho
    refine ⟨?_, hrelease⟩
    rcases hover with e | e | e
    · exact absurd e hnone.1
    · exact Or.inr (hdestroyed e)
    · exact absurd e hended
  held := h.held

omit [DecidableEq τ] [DecidableEq κ] in
/-- The owner goes on between `startLoop` and its end. -/
theorem Life.goes {s : EventLoopThread τ κ φ} (h : s.Life) {o : OwnerPc} {dangling : Bool}
    {l : Option (EventLoop τ κ φ)} (ho : s.owner ≠ .created ∧ s.owner ≠ .destroyed)
    (ho' : o ≠ .created ∧ o ≠ .starting ∧ o ≠ .destroyed) (hret : ∀ p, o = .returned p → p = true)
    (hset : s.loop_ = true ∨ s.func = .cleared ∨ s.func = .ended)
    (hl : l = none ↔ s.loop = none) :
    ({ s with loop := l, owner := o, dangling := dangling } : EventLoopThread τ κ φ).Life where
  created e := absurd e ho'.1
  started := h.started
  joined hj := absurd (h.joined hj).1 ho.2
  alive := hl.trans h.alive
  unshared hno := absurd ⟨ho'.1, ho'.2.1⟩ hno
  returned := hret
  shared _ _ := hset
  destroyed e := absurd e ho'.2.2
  held _ := h.held ho.2

omit [DecidableEq τ] [DecidableEq κ] in
/-- The owner is behind the destructor of `thread_`. -/
theorem Life.release {s : EventLoopThread τ κ φ} (h : s.Life) {joined : Bool}
    (hover : s.func = .none ∨ s.func = .cleared ∨ s.func = .ended)
    (hjoined : joined = true → s.func = .ended) :
    ({ s with joined_ := joined }.releaseThread : EventLoopThread τ κ φ).Life where
  created e := by cases e
  started := h.started
  joined hj := ⟨rfl, hjoined hj⟩
  alive := h.alive
  unshared hno := absurd ⟨by simp [releaseThread], by simp [releaseThread]⟩ hno
  returned p e := by cases e
  shared _ hno := absurd rfl hno
  destroyed _ := ⟨hover, rfl⟩
  held hno := absurd rfl hno

/-- A step of the loop keeps the life of its thread. -/
theorem Life.loop {s : EventLoopThread τ κ φ} (h : s.Life) {l : EventLoop τ κ φ}
    {a : EventLoop.Act τ κ φ} (hl : s.loop = some l) (hallow : s.Allowed owner thread a) :
    ({ s with loop := some (a.apply l), func := funcAfter s.func a } :
      EventLoopThread τ κ φ).Life := by
  have hlive : ¬ (s.func = .none ∨ s.func = .entered ∨ s.func = .ended) := by
    rw [← h.alive, hl]
    exact Option.some_ne_none l
  rw [not_or, not_or] at hlive
  -- no one can ask the loop to quit before `startLoop` has returned
  have hquit : ¬ s.Shared → ∀ l' ∈ some (a.apply l), l'.quit_ = false := by
    intro hno l' hl'
    cases hl'
    rcases l.quit_apply a with ⟨⟨t, rfl⟩, _⟩ | ⟨_, e⟩ | ⟨_, _, e⟩
    · exact absurd hallow.1 hno
    · exact e
    · exact e.trans ((h.unshared hno).2.2 l hl)
  by_cases ha : a = .loop
  · subst ha
    obtain ⟨hf, _⟩ : s.func = .publishing ∧ s.monitor.place thread = .outside := hallow
    refine h.funcGoes ⟨hlive.1, by simp [funcAfter]⟩ hlive.2.2 (by simp [funcAfter])
      (fun hno => ⟨by simp [funcAfter], by simp [funcAfter], hquit hno⟩) (fun hs ho => ?_)
      (by simp [hf])
    exact Or.inl ((h.shared hs ho).resolve_right (by simp [hf]))
  · rw [funcAfter_of_ne ha]
    exact h.funcGoes ⟨hlive.1, hlive.1⟩ hlive.2.2 (by simp [hlive])
      (fun hno => ⟨(h.unshared hno).1, (h.unshared hno).2.1, hquit hno⟩) h.shared Or.inl

theorem Inv.step {s s' : EventLoopThread τ κ φ} {a : Act τ κ φ} {wakeChannel : κ}
    (h : s.Inv owner thread) (hne : owner ≠ thread) (hs : Step owner thread wakeChannel s a s') :
    s'.Inv owner thread := by
  obtain ⟨hplaced, hhand, hloop, hlife⟩ := h
  cases hs with
  | start ho hstarted =>
    have hfunc := hlife.created ho
    have hnone := hlife.alive.mpr (Or.inl hfunc)
    obtain ⟨hplaced', hp, hq⟩ := hplaced.ownerGoes hne (p := .locking .startLoop)
      (by simp [AtStart]) (rfl : (s.monitor.go owner (.locking .startLoop)).place = _)
    refine ⟨hplaced', ?_, by simp [hnone], hlife.start ho (Or.inr rfl) (by simp) _⟩
    simp only [hp, hq]
    exact (hhand.start (by simp [hfunc])).away (by simp [hfunc]) (by simp)
  | startFails ho hstarted =>
    have hfunc := hlife.created ho
    have hnone := hlife.alive.mpr (Or.inl hfunc)
    obtain ⟨hplaced', hp, hq⟩ := hplaced.ownerGoes hne (p := .locking .startLoop)
      (by simp [AtStart]) (rfl : (s.monitor.go owner (.locking .startLoop)).place = _)
    refine ⟨hplaced', ?_, by simp [hnone], hlife.start ho (Or.inl hfunc) hlife.started _⟩
    simp only [hp, hq]
    exact hhand.start (by simp [hfunc])
  | construct hf =>
    refine ⟨hplaced, hhand.away (by simp [hf]) (by simp), fun l hl => ?_, ?_⟩
    · cases hl
      exact ⟨EventLoop.construct_inv thread wakeChannel, by simp [EventLoop.Framed,
        EventLoop.construct], rfl, fun _ => rfl, by simp⟩
    · refine hlife.funcGoes (by simp [hf]) (by simp [hf]) (by simp) (fun _ => ?_) (fun hs ho => ?_)
        (by simp [hf])
      · simp [EventLoop.construct]
      · exact Or.inl ((hlife.shared hs ho).resolve_right (by simp [hf]))
  | publish hf =>
    obtain ⟨hplaced', hp, hq⟩ := hplaced.threadGoes hne (q := .locking .publish)
      (by simp [AtPublish]) (rfl : (s.monitor.go thread (.locking .publish)).place = _)
    refine ⟨hplaced', ?_, fun l hl => ?_, ?_⟩
    · simp only [hp, hq]
      exact hhand.publish (by simp [hf])
    · obtain ⟨hinv, hframed, hid, hout, _⟩ := hloop l hl
      exact ⟨hinv, hframed, hid, fun _ => hout (by simp [hf]), by simp⟩
    · refine hlife.funcGoes (by simp [hf]) (by simp [hf]) (by simp [hlife.alive, hf])
        (fun hno => ⟨by simp, by simp, (hlife.unshared hno).2.2⟩) (fun hs ho => ?_) (by simp [hf])
      exact Or.inl ((hlife.shared hs ho).resolve_right (by simp [hf]))
  | inSection hcall hst =>
    obtain ⟨hplaced', hmove⟩ := hplaced.move hne hcall hst
    refine ⟨hplaced', hhand.move hmove, hloop, ?_⟩
    obtain ⟨hcreated, hstarted, hj, halive, hunshared, hret, hshared, hdestroyed, hd⟩ := hlife
    refine ⟨hcreated, hstarted, hj, halive, hunshared, hret, fun hs hno => ?_, hdestroyed, hd⟩
    exact (hshared hs hno).imp_left hmove.kept
  | startReturns ho hout =>
    have hset := hhand.passed ho (Or.inl hout)
    refine ⟨hplaced, hhand.goes hout (by simp), hloop, ?_⟩
    exact hlife.goes (by simp [ho]) (by simp) (by simp [hset]) (Or.inl hset) Iff.rfl
  | @loop l a hl he hallow =>
    have hat := (hloop l hl).apply he
    refine ⟨hplaced, ?_, fun l' hl' => ?_, hlife.loop hl hallow⟩
    · by_cases ha : a = .loop
      · subst ha
        obtain ⟨hf, hout⟩ : s.func = .publishing ∧ s.monitor.place thread = .outside := hallow
        exact (hf ▸ hhand).enter hout
      · simp only [funcAfter_of_ne ha]
        exact hhand
    · cases hl'
      exact hat
  | @clear l hf hl hat =>
    have hs := hlife.shared_of_left hl (hloop l hl) hf hat.1
    refine ⟨⟨hplaced.start, hplaced.publish, hplaced.others⟩, (hf ▸ hhand).clear hs.2,
      fun l' hl' => ?_, ?_⟩
    · obtain rfl : l = l' := by simpa [hl] using hl'
      obtain ⟨hinv, hframed, hid, _, _⟩ := hloop l hl
      exact ⟨hinv, hframed, hid, fun _ => hat.1, by simp⟩
    · exact hlife.funcGoes (by simp [hf]) (by simp [hf]) (by simp [hl]) (fun hno => absurd hs hno)
        (fun _ _ => Or.inr (Or.inl rfl)) (by simp [hf])
  | ends hf =>
    have hs : s.Shared := by
      by_contra hno
      exact (hlife.unshared hno).1 hf
    refine ⟨hplaced, hhand.away (by simp [hf]) (by simp), by simp, ?_⟩
    exact hlife.funcGoes (by simp [hf]) (by simp [hf]) (by simp) (fun hno => absurd hs hno)
      (fun _ _ => Or.inr (Or.inr rfl)) (fun _ => Or.inr rfl)
  | destroyNull ho hidle hnull =>
    have hout := hhand.atOwner (by rcases ho with e | ⟨p, e⟩ <;> simp [e])
    have hover : s.func = .none ∨ s.func = .cleared ∨ s.func = .ended := by
      rcases ho with e | ⟨p, e⟩
      · exact Or.inl (hlife.created e)
      · refine Or.inr ((hlife.shared (by simp [Shared, e]) (by simp [e])).resolve_left ?_)
        simp [hnull]
    refine ⟨hplaced, hhand.goes hout (by simp [releaseThread]), hloop, ?_⟩
    exact hlife.release hover fun hj => (hlife.joined hj).2
  | destroyLoop ho hidle hset =>
    have hout := hhand.atOwner (by rcases ho with e | ⟨p, e⟩ <;> simp [e])
    have ho' : s.owner ≠ .created ∧ s.owner ≠ .destroyed := by
      rcases ho with e | ⟨p, e⟩
      · have hnull : s.loop_ ≠ true := by simp [hhand.stored, hlife.created e]
        exact absurd hset hnull
      · simp [e]
    refine ⟨hplaced, hhand.goes hout (by simp), hloop, ?_⟩
    exact hlife.goes ho' (by simp) (by simp) (Or.inl hset) Iff.rfl
  | quit ho =>
    have hout := hhand.atOwner (by simp [ho])
    refine ⟨hplaced, hhand.goes hout (by simp [EventLoopThread.quit]), fun l hl => ?_, ?_⟩
    · obtain ⟨l₀, hl₀, rfl⟩ := Option.map_eq_some_iff.mp hl
      exact (hloop l₀ hl₀).quit hne
    · exact hlife.goes (by simp [ho]) (by simp) (by simp)
        (hlife.shared (by simp [Shared, ho]) (by simp [ho])) Option.map_eq_none_iff
  | quitReturns ho =>
    have hout := hhand.atOwner (by simp [ho])
    refine ⟨hplaced, hhand.goes hout (by simp [EventLoopThread.quitReturns]), fun l hl => ?_, ?_⟩
    · obtain ⟨l₀, hl₀, rfl⟩ := Option.map_eq_some_iff.mp hl
      exact (hloop l₀ hl₀).callReturns owner
    · exact hlife.goes (by simp [ho]) (by simp) (by simp)
        (hlife.shared (by simp [Shared, ho]) (by simp [ho])) Option.map_eq_none_iff
  | join ho hf hstarted hjoined =>
    have hout := hhand.atOwner (by simp [ho])
    refine ⟨hplaced, hhand.goes hout (by simp [releaseThread]), hloop, ?_⟩
    exact hlife.release (Or.inr (Or.inr hf)) fun _ => hf

theorem reachable_inv {wakeChannel : κ} {s : EventLoopThread τ κ φ} (hne : owner ≠ thread)
    (h : (machine owner thread wakeChannel).Reachable s) : s.Inv owner thread := by
  apply h.invariant
  · rintro s rfl
    exact construct_inv owner thread
  · rintro s a s' hs hst
    exact hs.step hne hst

/-- The notice of the new thread is still to come. -/
def Publishes (thread : τ) (s : EventLoopThread τ κ φ) : Prop :=
  s.func = .entered ∨ s.func = .constructed ∨
  (s.func = .publishing ∧ s.monitor.place thread ≠ .leaving () ∧
    s.monitor.place thread ≠ .outside)

/-- The owner waits, the new thread stores its loop and tells it, and both leave
their sections. -/
theorem exists_started : ∃ s : EventLoopThread Bool Unit Nat,
    (quitting false true ()).Reachable s ∧ s.owner = .starting ∧ s.func = .publishing ∧
      s.loop = some (EventLoop.construct true ()) ∧ ∀ t, s.monitor.place t = .outside := by
  have h0 : (quitting false true ()).Reachable (construct : EventLoopThread Bool Unit Nat) :=
    .start rfl
  have h1 := h0.next ⟨.start rfl rfl, by simp⟩
  have h2 := h1.next ⟨.inSection (by simp) (.lock (t := false) (k := .startLoop) (Or.inl rfl) rfl),
    by simp⟩
  have h3 := h2.next ⟨.inSection (by simp) (.wait (t := false) (k := .startLoop) (c := ())
    rfl rfl), by simp⟩
  have h4 := h3.next ⟨.construct rfl, by simp⟩
  have h5 := h4.next ⟨.publish rfl, by simp⟩
  have h6 := h5.next ⟨.inSection (by simp) (.lock (t := true) (k := .publish) (Or.inl rfl) rfl),
    by simp⟩
  have h7 := h6.next ⟨.inSection (by simp) (.pass (t := true) (k := .publish) rfl rfl), by simp⟩
  have h8 := h7.next ⟨.inSection (by simp) (.body (t := true) (k := .publish) rfl rfl), by simp⟩
  have h9 := h8.next ⟨.inSection (by simp) (.notifyOne (t := true) (u := false) (k := .publish)
    (j := .startLoop) (c := ()) rfl rfl rfl), by simp⟩
  have h10 := h9.next ⟨.inSection (by simp) (.unlock (t := true) rfl), by simp⟩
  have h11 := h10.next ⟨.inSection (by simp) (.lock (t := false) (k := .startLoop)
    (Or.inr rfl) rfl), by simp⟩
  have h12 := h11.next ⟨.inSection (by simp) (.pass (t := false) (k := .startLoop) rfl rfl),
    by simp⟩
  have h13 := h12.next ⟨.inSection (by simp) (.body (t := false) (k := .startLoop) rfl rfl),
    by simp⟩
  have h14 := h13.next ⟨.inSection (by simp) (.notifyNone (t := false) (k := .startLoop) rfl rfl),
    by simp⟩
  have h15 := h14.next ⟨.inSection (by simp) (.unlock (t := false) rfl), by simp⟩
  refine ⟨_, h15, rfl, rfl, rfl, fun t => ?_⟩
  cases t <;> rfl

theorem quitting_reachable {wakeChannel : κ} {s : EventLoopThread τ κ φ}
    (h : (quitting owner thread wakeChannel).Reachable s) :
    (machine owner thread wakeChannel).Reachable s := by
  obtain ⟨s₀, as, h0, hrun⟩ := h
  exact ⟨s₀, as, h0, hrun.of_restrict⟩

/-- A pointer in `loop_` is to a loop that lives, and `startLoop` returns it
while nobody has asked the loop to quit. An owner that waits on `cond_` waits
for a notice that is still to come, unless `pthread_create` made no thread. -/
theorem startLoop_returns_the_live_loop (owner thread : τ) (wakeChannel : κ)
    (s : EventLoopThread τ κ φ) (hne : owner ≠ thread)
    (h : (machine owner thread wakeChannel).Reachable s) :
    (s.loop_ = true → ∃ l, s.loop = some l ∧ l.threadId_ = thread) ∧
    (∀ s', Step owner thread wakeChannel s .startReturns s' → s'.owner = .returned true ∧
      ∃ l, s'.loop = some l ∧ l.threadId_ = thread ∧ l.quit_ = false ∧
        (s'.func = .publishing ∨ s'.func = .looping ∧ l.pc ≠ .outside)) ∧
    (∀ k c, s.monitor.place owner = .waiting k c →
      s.Publishes thread ∨ (s.func = .none ∧ s.started_ = false)) := by
  obtain ⟨hplaced, hhand, hloop, hlife⟩ := reachable_inv hne h
  have hlive : s.loop_ = true → ∃ l, s.loop = some l ∧ l.threadId_ = thread := by
    intro hset
    have hf := hhand.stored.mp hset
    rcases hl : s.loop with _ | l
    · rcases hlife.alive.mp hl with e | e | e <;> simp [e] at hf
    · exact ⟨l, rfl, (hloop l hl).threadId⟩
  refine ⟨hlive, fun s' hs => ?_, fun k c hwait => ?_⟩
  · cases hs with
    | startReturns ho hout =>
      have hset := hhand.passed ho (Or.inl hout)
      obtain ⟨l, hl, hid⟩ := hlive hset
      have hquit := (hlife.unshared (by simp [Shared, ho])).2.2 l hl
      refine ⟨by rw [hset], l, hl, hid, hquit, ?_⟩
      rcases hhand.stored.mp hset with hf | ⟨hf, _⟩
      · refine Or.inr ⟨hf, fun hpc => ?_⟩
        rw [(hloop l hl).left hf hpc] at hquit
        cases hquit
      · exact Or.inl hf
  · have ho : s.owner = .starting := by
      by_contra hno
      rw [hhand.atOwner hno] at hwait
      cases hwait
    obtain ⟨hcleared, hended, _⟩ := hlife.unshared (by simp [Shared, ho])
    have hstart : s.monitor.place owner = .waiting .startLoop () := by
      have hstart := hplaced.start
      simp only [AtStart, hwait] at hstart ⊢
      simpa using hstart
    by_cases hnone : s.func = .none
    · refine Or.inr ⟨hnone, ?_⟩
      rw [← Bool.not_eq_true, hlife.started]
      exact fun hf => hf hnone
    · left
      rcases hhand.waiting hstart with hnull | hq
      · have hno : ¬ (s.func = .looping ∨
            s.func = .publishing ∧ Stored (s.monitor.place thread)) := by
          rw [← hhand.stored, hnull]
          decide
        rw [not_or] at hno
        cases hf : s.func <;> simp_all [Publishes, Stored]
      · have hf : s.func = .publishing := by
          by_contra hf
          rw [hhand.atThread hf] at hq
          cases hq
        exact Or.inr (Or.inr ⟨hf, by simp [hq], by simp [hq]⟩)

/-- The owner waits for a loop, and returns it. -/
theorem startLoop_returns_the_loop_that_it_waited_for :
    ∃ s s' : EventLoopThread Bool Unit Nat, Step false true () s .startReturns s' ∧
      s'.owner = .returned true ∧ ∃ l, s'.loop = some l ∧ l.threadId_ = true ∧ l.quit_ = false := by
  obtain ⟨s, h, ho, _, _, hout⟩ := exists_started
  have hs : Step false true () s .startReturns { s with owner := .returned s.loop_ } :=
    .startReturns ho (hout false)
  obtain ⟨_, hreturns, _⟩ := startLoop_returns_the_live_loop false true () s (by decide)
    (quitting_reachable h)
  obtain ⟨hnotNull, l, hl, hid, hquit, _⟩ := hreturns _ hs
  exact ⟨s, _, hs, hnotNull, l, hl, hid, hquit⟩

end EventLoopThread

end jmuduo.net
