-- The timers that any thread asks for (EventLoop::runAt, runAfter, runEvery).
-- Another thread hands its timer to the loop, and reads it once more.
import Jmuduo.LoopRequests
import Jmuduo.TimerRuns

open outcome runs

namespace jmuduo.net

/-! ## The requests of the source -/

/-- A request, with the time that it reads the clock. Delays and intervals are
whole microseconds. -/
inductive TimerRequest
  | runAt (time : Int)
  | runAfter (now : Int) (delay : Nat)
  | runEvery (now : Int) (interval : Nat)
  deriving DecidableEq, Repr

/-- The time and the interval that `addTimer` gets. -/
def TimerRequest.arguments : TimerRequest → Int × Nat
  | .runAt time => (time, 0)
  | .runAfter now delay => (addTime now delay, 0)
  | .runEvery now interval => (addTime now interval, interval)

/-- The constructor of a timer, with the number that the counter gives. -/
def Timer.construct (time : Int) (interval : Nat) (sequence : Int) : Timer where
  expiration_ := time
  repeated_ := 0 < interval
  interval_ := interval
  sequence_ := sequence

structure TimerId where
  timer_ : Nat
  sequence_ : Int
  deriving DecidableEq, Repr

/-- A functor of the loop: the rest of an `addTimer`, or one of the user. -/
inductive LoopFunctor
  | addTimerInLoop (p : Nat)
  | user
  deriving DecidableEq, Repr

/-- The timer that the functor inserts. -/
def LoopFunctor.address : LoopFunctor → Option Nat
  | .addTimerInLoop p => some p
  | .user => none

/-- Where a thread stands in `addTimer`: it has made the timer, its functor is
queued, or `runInLoop` has returned. -/
inductive TimerCall
  | idle
  | created (p : Nat) (sequence : Int)
  | pushed (p : Nat) (sequence : Int)
  | returning (p : Nat) (sequence : Int)
  deriving DecidableEq, Repr

/-- How far the loop is in `handleRead` of its timers: those of `expired` that
are in `rest` have yet to run, or `reset` has yet to come to those of `rest`. -/
inductive TimerReading
  | none
  | runs (now : Int) (expired rest : List Entry)
  | resets (now : Int) (rest : List Entry)
  deriving DecidableEq

namespace TimerReading

/-- The timers that are not in the set. -/
def out : TimerReading → List Entry
  | .none => []
  | .runs _ expired _ => expired
  | .resets _ rest => rest

/-- The timers of them that have yet to run. -/
def due : TimerReading → List Entry
  | .none | .resets _ _ => []
  | .runs _ _ rest => rest

/-- Its thread may be in a callback of a timer, or is not in `handleRead`. -/
def UserCode : TimerReading → Prop
  | .none => True
  | .runs _ expired rest => rest ≠ expired
  | .resets _ _ => False

end TimerReading

/-- A loop with its timers. `created` holds the timers that were made and are
not in the queue yet. `used` records the numbers of all timers, `asked` those
of the timers that were handed to the loop, `entered` those of them that the
loop has inserted, and `deleted` those of the timers that `reset` deleted. -/
structure TimerRequests (τ κ : Type) where
  loop_ : EventLoop τ κ LoopFunctor
  queue : TimerQueue
  reading : TimerReading
  created : Nat → Option Timer
  call : τ → TimerCall
  used : List Int
  asked : List Int
  entered : List Int
  deleted : List Int

namespace TimerRequests

variable {τ κ : Type}

def construct (threadId : τ) (wakeChannel : κ) : TimerRequests τ κ where
  loop_ := .construct threadId wakeChannel
  queue := .construct
  reading := .none
  created := fun _ => none
  call := fun _ => .idle
  used := []
  asked := []
  entered := []
  deleted := []

/-- The timer at the address, as long as it lives. -/
def timer (p : Nat) (s : TimerRequests τ κ) : Option Timer := (s.queue.heap p).or (s.created p)

section

variable [DecidableEq τ]

def setCall (t : τ) (c : TimerCall) (s : TimerRequests τ κ) : TimerRequests τ κ :=
  { s with call := Function.update s.call t c }

/-! ## The steps of addTimer -/

/-- `new Timer` -/
def newTimer (t : τ) (p : Nat) (r : TimerRequest) (sequence : Int) (s : TimerRequests τ κ) :
    TimerRequests τ κ :=
  let timer := Timer.construct r.arguments.1 r.arguments.2 sequence
  { s with created := Function.update s.created p (some timer), used := s.used ++ [sequence] }
    |>.setCall t (.created p sequence)

/-- `addTimerInLoop` for the timer at `p`. -/
def addTimerInLoop (endKey : Nat → Int) (p : Nat) (s : TimerRequests τ κ) :
    Outcome (TimerRequests τ κ) := do
  let timer ← demand .badPointer (s.created p)
  let queue ← s.queue.addTimer endKey (p, timer)
  pure { s with queue := queue, created := Function.update s.created p none }

/-- `runInLoop` in the thread of the loop. -/
def runHere (t : τ) (endKey : Nat → Int) (s : TimerRequests τ κ) : Outcome (TimerRequests τ κ) :=
  match s.call t with
  | .created p sequence => do
    let s ← s.addTimerInLoop endKey p
    pure (s.setCall t (.returning p sequence))
  | _ => pure s

/-- `runInLoop` in another thread, as far as it holds the lock. -/
def queueInLoop (t : τ) (s : TimerRequests τ κ) : TimerRequests τ κ :=
  match s.call t with
  | .created p sequence =>
    { s with
      loop_ := s.loop_.queueInLoop t (.addTimerInLoop p)
      asked := s.asked ++ [sequence] }.setCall t (.pushed p sequence)
  | _ => s

/-- The rest of `queueInLoop`. -/
def callReturns (t : τ) (s : TimerRequests τ κ) : TimerRequests τ κ :=
  match s.call t with
  | .pushed p sequence =>
    { s with loop_ := s.loop_.callReturns t }.setCall t (.returning p sequence)
  | _ => s

/-- What `addTimer` returns. It reads the timer for its number. -/
def timerId (p : Nat) (s : TimerRequests τ κ) : Outcome TimerId := do
  let timer ← demand .badPointer (s.timer p)
  pure ⟨p, timer.sequence_⟩

def addTimerReturns (t : τ) (s : TimerRequests τ κ) : Outcome (TimerRequests τ κ) :=
  match s.call t with
  | .returning p _ => do
    let _ ← s.timerId p
    pure (s.setCall t .idle)
  | _ => pure s

variable [DecidableEq κ]

/-- The loop calls the functor of an `addTimer`. -/
def runFunctor (endKey : Nat → Int) (s : TimerRequests τ κ) : Outcome (TimerRequests τ κ) :=
  match s.loop_.functors with
  | .addTimerInLoop p :: _ => do
    let timer ← demand .badPointer (s.created p)
    let s ← s.addTimerInLoop endKey p
    pure { s with
      loop_ := EventLoop.Act.functorReturns.apply s.loop_.callFunctor
      entered := s.entered ++ [timer.sequence_] }
  | _ => pure s

/-! ## The steps of handleRead -/

/-- The loop calls `handleRead`, which takes the timers that are due out of the set. -/
def handleRead (endKey : Nat → Int) (now : Int) (s : TimerRequests τ κ) :
    Outcome (TimerRequests τ κ) := do
  let (expired, queue) ← s.queue.readTimerfd.getExpired endKey now
  pure { s with
    loop_ := s.loop_.handleEvent
    queue := queue
    reading := .runs now expired expired }

/-- The call of one callback. The timers that it adds are steps of their own. -/
def runTimer (endKey : Nat → Int) (s : TimerRequests τ κ) : Outcome (TimerRequests τ κ) :=
  match s.reading with
  | .runs now expired (e :: rest) => do
    let queue ← s.queue.run endKey (fun _ => []) e
    pure { s with queue := queue, reading := .runs now expired rest }
  | _ => pure s

/-- The call of `reset`, behind all callbacks. -/
def reset (s : TimerRequests τ κ) : TimerRequests τ κ :=
  match s.reading with
  | .runs now expired [] => { s with reading := .resets now expired }
  | _ => s

/-- One turn of the loop of `reset`. -/
def resetOne (endKey : Nat → Int) (s : TimerRequests τ κ) : Outcome (TimerRequests τ κ) :=
  match s.reading with
  | .resets now (e :: rest) => do
    let timer ← s.queue.deref e.second
    let queue ← s.queue.resetOne endKey now e
    pure { s with
      queue := queue
      reading := .resets now rest
      deleted := if timer.repeated_ then s.deleted else s.deleted ++ [timer.sequence_] }
  | _ => pure s

/-- The rest of `reset`, and the return of `handleRead`. -/
def rearm (s : TimerRequests τ κ) : TimerRequests τ κ :=
  match s.reading with
  | .resets _ [] => { s with queue := s.queue.rearm, reading := .none }
  | _ => s

/-! ## The runs -/

inductive Act (τ κ : Type)
  | newTimer (t : τ) (p : Nat) (r : TimerRequest) (sequence : Int)
  | runHere (t : τ) (endKey : Nat → Int)
  | queueInLoop (t : τ)
  | callReturns (t : τ)
  | addTimerReturns (t : τ)
  | runFunctor (endKey : Nat → Int)
  | handleRead (endKey : Nat → Int) (now : Int)
  | runTimer (endKey : Nat → Int)
  | reset
  | resetOne (endKey : Nat → Int)
  | rearm
  | loop (a : EventLoop.Act τ κ LoopFunctor)

def Act.run (s : TimerRequests τ κ) : Act τ κ → Outcome (TimerRequests τ κ)
  | .newTimer t p r sequence => pure (s.newTimer t p r sequence)
  | .runHere t endKey => s.runHere t endKey
  | .queueInLoop t => pure (s.queueInLoop t)
  | .callReturns t => pure (s.callReturns t)
  | .addTimerReturns t => s.addTimerReturns t
  | .runFunctor endKey => s.runFunctor endKey
  | .handleRead endKey now => s.handleRead endKey now
  | .runTimer endKey => s.runTimer endKey
  | .reset => pure s.reset
  | .resetOne endKey => s.resetOne endKey
  | .rearm => pure s.rearm
  | .loop a => pure { s with loop_ := a.apply s.loop_ }

/-- The thread is in no `addTimer`. -/
def Idle (t : τ) (s : TimerRequests τ κ) : Prop := s.call t = .idle

/-- The thread is in no function of the timers, as far as it is the one of the loop. -/
def MayCall (t : τ) (s : TimerRequests τ κ) : Prop :=
  s.Idle t ∧ (t = s.loop_.threadId_ → s.reading.UserCode)

/-- The thread of the loop is in no function of the timers. -/
def Rests (s : TimerRequests τ κ) : Prop := s.Idle s.loop_.threadId_ ∧ s.reading = .none

/-- Who takes the step of the loop. It is the user's, or one of the loop between
the handlers and the functors of the timers. -/
def Free (timerChannel : κ) (s : TimerRequests τ κ) : EventLoop.Act τ κ LoopFunctor → Prop
  | .queueInLoop t cb => s.MayCall t ∧ cb = .user
  | .quit t => s.MayCall t
  | .callReturns t => s.Idle t
  | .callFunctor => s.Rests ∧ s.loop_.functors.head? = some .user
  | .handleEvent => s.Rests ∧ s.loop_.activeChannels_.head? ≠ some timerChannel
  | _ => s.Rests

/-- When the step can be taken. The allocator gives addresses that are free, and
the counter gives no number twice. -/
def Act.Enabled (timerChannel : κ) (s : TimerRequests τ κ) : Act τ κ → Prop
  | .newTimer t p _ sequence => s.MayCall t ∧ s.loop_.CanCall t ∧ s.timer p = none ∧
    p < UINTPTR_MAX ∧ sequence ∉ s.used
  | .runHere t _ => s.loop_.isInLoopThread t = true ∧ ∃ p q, s.call t = .created p q
  | .queueInLoop t => s.loop_.isInLoopThread t = false ∧ s.loop_.phase t = .idle ∧
    ∃ p q, s.call t = .created p q
  | .callReturns t => ∃ p q, s.call t = .pushed p q
  | .addTimerReturns t => ∃ p q, s.call t = .returning p q
  | .runFunctor _ => s.Rests ∧
    (EventLoop.Act.callFunctor : EventLoop.Act τ κ LoopFunctor).Enabled s.loop_ ∧
    ∃ p, s.loop_.functors.head? = some (.addTimerInLoop p)
  | .handleRead _ _ => s.Rests ∧
    (EventLoop.Act.handleEvent : EventLoop.Act τ κ LoopFunctor).Enabled s.loop_ ∧
    s.loop_.activeChannels_.head? = some timerChannel
  | .runTimer _ => s.Idle s.loop_.threadId_ ∧
    ∃ now expired e rest, s.reading = .runs now expired (e :: rest)
  | .reset => s.Idle s.loop_.threadId_ ∧ ∃ now expired, s.reading = .runs now expired []
  | .resetOne _ => s.Idle s.loop_.threadId_ ∧ ∃ now e rest, s.reading = .resets now (e :: rest)
  | .rearm => s.Idle s.loop_.threadId_ ∧ ∃ now, s.reading = .resets now []
  | .loop a => a.Enabled s.loop_ ∧ s.Free timerChannel a

/-- All the interleavings of the threads, from the constructor on. -/
def machine (threadId : τ) (wakeChannel timerChannel : κ) :
    Machine (TimerRequests τ κ) (Act τ κ) where
  init s := s = construct threadId wakeChannel
  step s a s' := a.Enabled timerChannel s ∧ a.run s = .ok s'

end

/-! ## What the steps keep -/

/-- The addresses of the functors that the loop has still to call. -/
def waiting (l : EventLoop τ κ LoopFunctor) : List Nat := l.waiting.filterMap LoopFunctor.address

/-- The timer with the number is at the address, or it was deleted. -/
def Located (s : TimerRequests τ κ) (p : Nat) (sequence : Int) : Prop :=
  (∃ timer, s.timer p = some timer ∧ timer.sequence_ = sequence) ∨ sequence ∈ s.deleted

/-- Where the timers are that are not in the queue yet: each is in the hand of
one thread, or once in the list `w` of the functors. -/
structure Hands (w : List Nat) (s : TimerRequests τ κ) : Prop where
  nodup : w.Nodup
  owner : ∀ p, s.created p ≠ none ↔ p ∈ w ∨ ∃ t q, s.call t = .created p q
  apart : ∀ t p q, s.call t = .created p q → p ∉ w
  alone : ∀ t u p q q', s.call t = .created p q → s.call u = .created p q' → u = t
  number : ∀ t p q, s.call t = .created p q → ∃ timer, s.created p = some timer ∧
    timer.sequence_ = q

/-- The numbers of the timers. Each is of one timer, which is made or was seen
by the queue. -/
structure Numbers (s : TimerRequests τ κ) : Prop where
  fresh : ∀ p timer, s.created p = some timer → s.queue.heap p = none ∧ p < UINTPTR_MAX ∧
    timer.sequence_ ∈ s.used ∧ timer.sequence_ ∉ s.queue.seen
  distinct : ∀ p p' timer timer', s.created p = some timer → s.created p' = some timer' →
    timer.sequence_ = timer'.sequence_ → p' = p
  seen : s.queue.seen.Nodup ∧ ∀ q ∈ s.queue.seen, q ∈ s.used
  kept : ∀ q ∈ s.used, q ∈ s.queue.seen ∨ ∃ p timer, s.created p = some timer ∧
    timer.sequence_ = q

/-- The timers of the queue. The ones that `handleRead` has taken out and that are
not due any more have run. A one-shot timer that ran waits for `reset`, which
deletes it. -/
structure Timers (s : TimerRequests τ κ) : Prop where
  due : ∀ e ∈ s.reading.due, e ∈ s.reading.out
  ran : ∀ e ∈ s.reading.out, e ∉ s.reading.due → ∀ timer, s.queue.heap e.second = some timer →
    (e.second, timer) ∈ s.queue.ran
  live : ∀ p timer, s.queue.heap p = some timer → timer.sequence_ ∈ s.queue.seen
  distinct : ∀ p p' timer timer', s.queue.heap p = some timer → s.queue.heap p' = some timer' →
    timer.sequence_ = timer'.sequence_ → p' = p
  spent : ∀ r ∈ s.queue.ran, r.2.repeated_ = false → r.2.sequence_ ∈ s.deleted ∨
    s.queue.heap r.1 = some r.2 ∧ r.2.entry r.1 ∈ s.reading.out
  deleted : ∀ q ∈ s.deleted, q ∈ s.queue.seen ∧
    (∀ p timer, s.queue.heap p = some timer → timer.sequence_ ≠ q) ∧
    ∃ r ∈ s.queue.ran, r.2.repeated_ = false ∧ r.2.sequence_ = q

/-- The threads that are behind their `runInLoop`. The loop's own thread has its
timer in the queue. -/
structure Calls (thread : τ) (s : TimerRequests τ κ) : Prop where
  located : ∀ t p q, s.call t = .pushed p q ∨ s.call t = .returning p q → s.Located p q
  pushed : ∀ p q, s.call thread ≠ .pushed p q
  here : ∀ p q, s.call thread = .returning p q → ∃ timer, s.queue.heap p = some timer ∧
    timer.sequence_ = q

/-- The timers that were handed to the loop enter the queue in their order. -/
structure Order (w : List Nat) (s : TimerRequests τ κ) : Prop where
  order : s.entered.map some ++ w.map (fun p => (s.created p).map Timer.sequence_) =
    s.asked.map some
  entered : s.entered.Nodup ∧ ∀ q ∈ s.entered, q ∈ s.queue.seen

/-- What holds in every state of a run. -/
structure Inv (thread : τ) (s : TimerRequests τ κ) : Prop where
  loop : s.loop_.Inv
  threadId : s.loop_.threadId_ = thread
  queue : s.queue.Inv s.reading.out
  timers : s.Timers
  hands : s.Hands (waiting s.loop_)
  numbers : s.Numbers
  calls : s.Calls thread
  order : s.Order (waiting s.loop_)

theorem construct_inv (thread : τ) (wakeChannel : κ) :
    (construct thread wakeChannel : TimerRequests τ κ).Inv thread where
  loop := EventLoop.construct_inv thread wakeChannel
  threadId := rfl
  queue := TimerQueue.construct_inv
  timers := by constructor <;> simp [construct, TimerQueue.construct, TimerReading.out,
    TimerReading.due]
  hands := by constructor <;> simp [construct, waiting, EventLoop.construct, EventLoop.waiting]
  numbers := by constructor <;> simp [construct, TimerQueue.construct]
  calls := by constructor <;> simp [construct]
  order := by constructor <;> simp [construct, waiting, EventLoop.construct, EventLoop.waiting]

/-! ## The timers in the hands of the threads -/

/-- A thread holds no new timer after the step, and the others hold theirs. -/
theorem update_created [DecidableEq τ] {f : τ → TimerCall} {t : τ} {c : TimerCall}
    (hc : ∀ p q, c ≠ .created p q) (u : τ) (p : Nat) (q : Int) :
    Function.update f t c u = .created p q ↔ u ≠ t ∧ f u = .created p q := by
  simp only [Function.update_apply]
  split
  · rename_i e
    exact ⟨fun h => absurd h (hc p q), fun h => absurd e h.1⟩
  · rename_i e
    exact ⟨fun h => ⟨e, h⟩, fun h => h.2⟩

section

variable {s s' : TimerRequests τ κ} {w : List Nat} {t : τ} {p : Nat} {q : Int}

theorem Hands.frame (h : s.Hands w) (hcreated : s'.created = s.created)
    (hcall : ∀ u p q, s'.call u = .created p q ↔ s.call u = .created p q) : s'.Hands w where
  nodup := h.nodup
  owner p := by
    simp only [hcall, hcreated]
    exact h.owner p
  apart u p q hu := h.apart u p q ((hcall u p q).mp hu)
  alone u v p q q' hu hv := h.alone u v p q q' ((hcall u p q).mp hu) ((hcall v p q').mp hv)
  number u p q hu := hcreated ▸ h.number u p q ((hcall u p q).mp hu)

/-- A thread makes a timer at an address that nobody has. -/
theorem Hands.made (h : s.Hands w) {timer : Timer} (hnone : s.created p = none)
    (hseq : timer.sequence_ = q) (hidle : s.Idle t)
    (hcreated : s'.created = Function.update s.created p (some timer))
    (hself : s'.call t = .created p q) (hother : ∀ u, u ≠ t → s'.call u = s.call u) :
    s'.Hands w := by
  have hout : p ∉ w := fun hin => (h.owner p).mpr (Or.inl hin) hnone
  have hno : ∀ u q', s.call u ≠ .created p q' := fun u q' hu =>
    (h.owner p).mpr (Or.inr ⟨u, q', hu⟩) hnone
  have hcall : ∀ u p' q', s'.call u = .created p' q' →
      (u = t ∧ p' = p ∧ q' = q) ∨ (u ≠ t ∧ p' ≠ p ∧ s.call u = .created p' q') := by
    intro u p' q' hu
    by_cases hut : u = t
    · rw [hut, hself, TimerCall.created.injEq] at hu
      exact Or.inl ⟨hut, hu.1.symm, hu.2.symm⟩
    · rw [hother u hut] at hu
      refine Or.inr ⟨hut, ?_, hu⟩
      rintro rfl
      exact hno u q' hu
  refine ⟨h.nodup, fun p' => ?_, ?_, ?_, ?_⟩
  · rw [hcreated]
    by_cases hpp : p' = p
    · subst hpp
      rw [Function.update_self]
      exact ⟨fun _ => Or.inr ⟨t, q, hself⟩, fun _ => Option.some_ne_none _⟩
    · rw [Function.update_of_ne hpp, h.owner p']
      refine or_congr Iff.rfl ⟨?_, ?_⟩
      · rintro ⟨u, q', hu⟩
        refine ⟨u, q', ?_⟩
        rw [hother u, hu]
        rintro rfl
        rw [hidle] at hu
        cases hu
      · rintro ⟨u, q', hu⟩
        rcases hcall u p' q' hu with ⟨_, e, _⟩ | ⟨_, _, hu'⟩
        · exact absurd e hpp
        · exact ⟨u, q', hu'⟩
  · intro u p' q' hu
    rcases hcall u p' q' hu with ⟨_, rfl, _⟩ | ⟨_, _, hu'⟩
    · exact hout
    · exact h.apart u p' q' hu'
  · intro u v p' q₁ q₂ hu hv
    rcases hcall u p' q₁ hu with ⟨rfl, rfl, _⟩ | ⟨_, hne, hu'⟩
    · rcases hcall v p' q₂ hv with ⟨e, _, _⟩ | ⟨_, hne, _⟩
      · exact e
      · exact absurd rfl hne
    · rcases hcall v p' q₂ hv with ⟨_, e, _⟩ | ⟨_, _, hv'⟩
      · exact absurd e hne
      · exact h.alone u v p' q₁ q₂ hu' hv'
  · intro u p' q' hu
    rw [hcreated]
    rcases hcall u p' q' hu with ⟨_, rfl, rfl⟩ | ⟨_, hne, hu'⟩
    · exact ⟨timer, Function.update_self _ _ _, hseq⟩
    · rw [Function.update_of_ne hne]
      exact h.number u p' q' hu'

/-- A thread hands its timer to the loop. -/
theorem Hands.handed (h : s.Hands w) (hheld : s.call t = .created p q)
    (hcreated : s'.created = s.created)
    (hcall : ∀ u p' q', s'.call u = .created p' q' ↔ u ≠ t ∧ s.call u = .created p' q') :
    s'.Hands (w ++ [p]) := by
  refine ⟨?_, fun p' => ?_, ?_, ?_, ?_⟩
  · refine List.nodup_append.mpr ⟨h.nodup, List.nodup_singleton p, ?_⟩
    rintro p' hp' _ hp rfl
    rw [List.mem_singleton.mp hp] at hp'
    exact h.apart t p q hheld hp'
  · simp only [List.mem_append, List.mem_singleton, hcall]
    rw [hcreated, h.owner p']
    constructor
    · rintro (hin | ⟨u, q', hu⟩)
      · exact Or.inl (Or.inl hin)
      · by_cases hut : u = t
        · rw [hut, hheld, TimerCall.created.injEq] at hu
          exact Or.inl (Or.inr hu.1.symm)
        · exact Or.inr ⟨u, q', hut, hu⟩
    · rintro ((hin | rfl) | ⟨u, q', _, hu⟩)
      · exact Or.inl hin
      · exact Or.inr ⟨t, q, hheld⟩
      · exact Or.inr ⟨u, q', hu⟩
  · intro u p' q' hu hin
    obtain ⟨hut, hu'⟩ := (hcall u p' q').mp hu
    rw [List.mem_append, List.mem_singleton] at hin
    rcases hin with hin | rfl
    · exact h.apart u p' q' hu' hin
    · exact hut (h.alone t u p' q q' hheld hu')
  · intro u v p' q₁ q₂ hu hv
    exact h.alone u v p' q₁ q₂ ((hcall u p' q₁).mp hu).2 ((hcall v p' q₂).mp hv).2
  · intro u p' q' hu
    rw [hcreated]
    exact h.number u p' q' ((hcall u p' q').mp hu).2

/-- The timer in the hand of a thread goes into the queue. -/
theorem Hands.placed (h : s.Hands w) (hheld : s.call t = .created p q)
    (hcreated : s'.created = Function.update s.created p none)
    (hcall : ∀ u p' q', s'.call u = .created p' q' ↔ u ≠ t ∧ s.call u = .created p' q') :
    s'.Hands w := by
  refine ⟨h.nodup, fun p' => ?_, ?_, ?_, ?_⟩
  · simp only [hcall, hcreated]
    by_cases hpp : p' = p
    · subst hpp
      rw [Function.update_self]
      refine ⟨fun hno => absurd rfl hno, ?_⟩
      rintro (hin | ⟨u, q', hut, hu⟩)
      · exact absurd hin (h.apart t p' q hheld)
      · exact absurd (h.alone t u p' q q' hheld hu) hut
    · rw [Function.update_of_ne hpp, h.owner p']
      refine or_congr Iff.rfl ⟨?_, ?_⟩
      · rintro ⟨u, q', hu⟩
        refine ⟨u, q', ?_, hu⟩
        rintro rfl
        rw [hheld, TimerCall.created.injEq] at hu
        exact hpp hu.1.symm
      · rintro ⟨u, q', _, hu⟩
        exact ⟨u, q', hu⟩
  · intro u p' q' hu
    exact h.apart u p' q' ((hcall u p' q').mp hu).2
  · intro u v p' q₁ q₂ hu hv
    exact h.alone u v p' q₁ q₂ ((hcall u p' q₁).mp hu).2 ((hcall v p' q₂).mp hv).2
  · intro u p' q' hu
    obtain ⟨hut, hu'⟩ := (hcall u p' q').mp hu
    have hne : p' ≠ p := by
      rintro rfl
      exact hut (h.alone t u p' q q' hheld hu')
    rw [hcreated, Function.update_of_ne hne]
    exact h.number u p' q' hu'

/-- The timer of the first functor goes into the queue. -/
theorem Hands.called (h : s.Hands (p :: w))
    (hcreated : s'.created = Function.update s.created p none) (hcall : s'.call = s.call) :
    s'.Hands w := by
  obtain ⟨hout, hnodup⟩ := List.nodup_cons.mp h.nodup
  have hno : ∀ u q', s.call u ≠ .created p q' := fun u q' hu =>
    h.apart u p q' hu List.mem_cons_self
  refine ⟨hnodup, fun p' => ?_, fun u p' q' hu hin => ?_, hcall ▸ h.alone, fun u p' q' hu => ?_⟩
  · rw [hcreated, hcall, Function.update_apply]
    split
    · rename_i e
      subst e
      refine ⟨fun hne => absurd rfl hne, ?_⟩
      rintro (hin | ⟨u, q', hu⟩)
      · exact absurd hin hout
      · exact absurd hu (hno u q')
    · rename_i hne
      rw [h.owner p', List.mem_cons]
      simp [hne]
  · exact h.apart u p' q' (hcall ▸ hu) (List.mem_cons_of_mem _ hin)
  · rw [hcall] at hu
    have hne : p' ≠ p := by
      rintro rfl
      exact hno u q' hu
    rw [hcreated, Function.update_of_ne hne]
    exact h.number u p' q' hu

end

/-- The other functors keep their timers. -/
theorem map_update {w : List Nat} {f : Nat → Option Timer} {p : Nat} (hout : p ∉ w)
    (x : Option Timer) : w.map (fun p' => (Function.update f p x p').map Timer.sequence_) =
      w.map fun p' => (f p').map Timer.sequence_ := by
  refine List.map_congr_left fun p' hp' => ?_
  have hne : p' ≠ p := fun e => hout (e ▸ hp')
  rw [Function.update_of_ne hne]

/-- The loop goes on, with the same timers in its functors. -/
theorem Inv.goes {thread : τ} {s : TimerRequests τ κ} (h : s.Inv thread)
    {l : EventLoop τ κ LoopFunctor} (hl : l.Inv) (hid : l.threadId_ = s.loop_.threadId_)
    (hw : waiting l = waiting s.loop_) :
    ({ s with loop_ := l } : TimerRequests τ κ).Inv thread where
  loop := hl
  threadId := hid.trans h.threadId
  queue := h.queue
  timers := ⟨h.timers.due, h.timers.ran, h.timers.live, h.timers.distinct, h.timers.spent,
    h.timers.deleted⟩
  hands := hw ▸ h.hands.frame rfl fun _ _ _ => Iff.rfl
  numbers := ⟨h.numbers.fresh, h.numbers.distinct, h.numbers.seen, h.numbers.kept⟩
  calls := ⟨h.calls.located, h.calls.pushed, h.calls.here⟩
  order := by
    obtain ⟨h1, h2⟩ := hw ▸ h.order
    exact ⟨h1, h2⟩

/-- A timer stays where it is, as long as it lives. -/
theorem Located.mono {s s' : TimerRequests τ κ} {p : Nat} {q : Int} (h : s.Located p q)
    (htimer : ∀ timer, s.timer p = some timer → timer.sequence_ = q → s'.Located p q)
    (hdeleted : ∀ q ∈ s.deleted, q ∈ s'.deleted) : s'.Located p q := by
  rcases h with ⟨timer, ht, hq⟩ | hq
  · exact htimer timer ht hq
  · exact Or.inr (hdeleted q hq)

/-- The step is not one of the queue. -/
theorem Timers.frame {s s' : TimerRequests τ κ} (h : s.Timers) (hqueue : s'.queue = s.queue)
    (hreading : s'.reading = s.reading) (hdeleted : s'.deleted = s.deleted) : s'.Timers := by
  obtain ⟨h1, h2, h3, h4, h5, h6⟩ := h
  rw [← hqueue] at h2 h3 h4 h5 h6
  rw [← hreading] at h1 h2 h5
  rw [← hdeleted] at h5 h6
  exact ⟨h1, h2, h3, h4, h5, h6⟩

/-! ## The steps of the threads -/

/-- The new timer has a number and an address of its own. -/
theorem Numbers.made {s s' : TimerRequests τ κ} (h : s.Numbers) {p : Nat} {timer : Timer}
    (hfree : s.timer p = none) (hp : p < UINTPTR_MAX) (hnew : timer.sequence_ ∉ s.used)
    (hcreated : s'.created = Function.update s.created p (some timer)) (hqueue : s'.queue = s.queue)
    (hused : s'.used = s.used ++ [timer.sequence_]) : s'.Numbers := by
  obtain ⟨hheap, hnone⟩ : s.queue.heap p = none ∧ s.created p = none := by
    unfold TimerRequests.timer at hfree
    exact Option.or_eq_none_iff.mp hfree
  have hof : ∀ p' t, s'.created p' = some t → (p' = p ∧ t = timer) ∨ s.created p' = some t := by
    intro p' t ht
    rw [hcreated, Function.update_apply] at ht
    split at ht
    · rename_i e
      exact Or.inl ⟨e, (Option.some.inj ht).symm⟩
    · exact Or.inr ht
  have hother : ∀ p' t, s.created p' = some t → t.sequence_ ≠ timer.sequence_ := fun p' t ht e =>
    hnew (e ▸ (h.fresh p' t ht).2.2.1)
  refine ⟨fun p' t ht => ?_, fun p₁ p₂ t₁ t₂ h1 h2 heq => ?_, ?_, fun q hq => ?_⟩
  · rw [hqueue, hused]
    rcases hof p' t ht with ⟨rfl, rfl⟩ | ht
    · exact ⟨hheap, hp, List.mem_append_right _ (List.mem_singleton_self _),
        fun hin => hnew (h.seen.2 _ hin)⟩
    · obtain ⟨h1, h2, h3, h4⟩ := h.fresh p' t ht
      exact ⟨h1, h2, List.mem_append_left _ h3, h4⟩
  · rcases hof p₁ t₁ h1 with ⟨rfl, rfl⟩ | h1 <;> rcases hof p₂ t₂ h2 with ⟨rfl, rfl⟩ | h2
    · rfl
    · exact absurd heq.symm (hother p₂ t₂ h2)
    · exact absurd heq (hother p₁ t₁ h1)
    · exact h.distinct p₁ p₂ t₁ t₂ h1 h2 heq
  · rw [hqueue, hused]
    exact ⟨h.seen.1, fun q hq => List.mem_append_left _ (h.seen.2 q hq)⟩
  · rw [hused] at hq
    rw [hqueue]
    rcases List.mem_append.mp hq with hin | hin
    · refine (h.kept q hin).imp_right ?_
      rintro ⟨p', t, ht, e⟩
      refine ⟨p', t, ?_, e⟩
      rw [hcreated, Function.update_of_ne]
      · exact ht
      · rintro rfl
        rw [hnone] at ht
        cases ht
    · refine Or.inr ⟨p, timer, ?_, (List.mem_singleton.mp hin).symm⟩
      rw [hcreated, Function.update_self]

section

variable [DecidableEq τ]

/-- The thread that makes a timer is behind no `runInLoop`. -/
theorem Calls.made {thread : τ} {s s' : TimerRequests τ κ} (h : s.Calls thread) {t : τ} {p : Nat}
    {q : Int} {timer : Timer} (hfree : s.timer p = none)
    (hcreated : s'.created = Function.update s.created p (some timer)) (hqueue : s'.queue = s.queue)
    (hdeleted : s'.deleted = s.deleted)
    (hcall : s'.call = Function.update s.call t (.created p q)) : s'.Calls thread := by
  have hof : ∀ u c, (∀ p q, c ≠ .created p q) → s'.call u = c → s.call u = c := by
    intro u c hc hu
    rw [hcall, Function.update_apply] at hu
    split at hu
    · exact absurd hu.symm (hc p q)
    · exact hu
  refine ⟨fun u p' q' hu => ?_, fun p' q' hu => ?_, fun p' q' hu => ?_⟩
  · have hu' := hu.imp (hof u _ (by simp)) (hof u _ (by simp))
    refine (h.located u p' q' hu').mono (fun timer' ht heq => Or.inl ⟨timer', ?_, heq⟩)
      fun q hq => hdeleted ▸ hq
    have hne : p' ≠ p := by
      rintro rfl
      rw [hfree] at ht
      cases ht
    unfold TimerRequests.timer at ht ⊢
    rw [hcreated, hqueue, Function.update_of_ne hne]
    exact ht
  · exact h.pushed p' q' (hof thread _ (by simp) hu)
  · exact hqueue ▸ h.here p' q' (hof thread _ (by simp) hu)

theorem newTimer_inv {thread : τ} {s : TimerRequests τ κ} (h : s.Inv thread) {t : τ} {p : Nat}
    {q : Int} (r : TimerRequest) (hidle : s.Idle t) (hfree : s.timer p = none)
    (hp : p < UINTPTR_MAX) (hq : q ∉ s.used) : (s.newTimer t p r q).Inv thread := by
  have hnone : s.created p = none := by
    unfold timer at hfree
    exact (Option.or_eq_none_iff.mp hfree).2
  have hout : p ∉ waiting s.loop_ := fun hin => (h.hands.owner p).mpr (Or.inl hin) hnone
  refine ⟨h.loop, h.threadId, h.queue, h.timers.frame rfl rfl rfl, ?_, ?_, ?_,
    ⟨?_, h.order.entered⟩⟩
  · exact h.hands.made hnone rfl hidle rfl (Function.update_self _ _ _)
      fun u hut => Function.update_of_ne hut _ _
  · exact h.numbers.made hfree hp hq rfl rfl rfl
  · exact h.calls.made hfree rfl rfl rfl rfl
  · exact (congrArg _ (map_update hout _)).trans h.order.order

/-- The thread hands its timer to the loop. -/
theorem queueInLoop_inv {thread : τ} {s : TimerRequests τ κ} (h : s.Inv thread) {t : τ} {p : Nat}
    {q : Int} (hother : s.loop_.isInLoopThread t = false) (hcall : s.call t = .created p q) :
    (s.queueInLoop t).Inv thread := by
  have ht : t ≠ s.loop_.threadId_ := by
    rintro rfl
    simp [EventLoop.isInLoopThread] at hother
  have hut : thread ≠ t := h.threadId ▸ ht.symm
  have heq : s.queueInLoop t = { s with
      loop_ := s.loop_.queueInLoop t (.addTimerInLoop p)
      asked := s.asked ++ [q]
      call := Function.update s.call t (.pushed p q) } := by
    simp only [queueInLoop, hcall]
    rfl
  have hw : waiting (s.loop_.queueInLoop t (.addTimerInLoop p)) = waiting s.loop_ ++ [p] := by
    simp [waiting, EventLoop.waiting, EventLoop.queueInLoop, EventLoop.setPhase,
      LoopFunctor.address]
  obtain ⟨timer, htimer, hseq⟩ := h.hands.number t p q hcall
  rw [heq]
  refine ⟨h.loop.queueInLoop _ fun e => absurd e ht, h.threadId, h.queue,
    h.timers.frame rfl rfl rfl, ?_, ⟨h.numbers.fresh, h.numbers.distinct, h.numbers.seen,
    h.numbers.kept⟩, ⟨?_, ?_, ?_⟩, ⟨?_, h.order.entered⟩⟩
  · exact hw ▸ h.hands.handed hcall rfl (update_created (by simp))
  · intro u p' q' hu
    by_cases hut : u = t
    · subst hut
      simp only [Function.update_self, TimerCall.pushed.injEq, reduceCtorEq, or_false] at hu
      obtain ⟨rfl, rfl⟩ := hu
      refine Or.inl ⟨timer, ?_, hseq⟩
      unfold TimerRequests.timer
      rw [(h.numbers.fresh p timer htimer).1]
      exact htimer
    · simp only [Function.update_of_ne hut] at hu
      exact h.calls.located u p' q' hu
  · intro p' q' hc
    simp only [Function.update_of_ne hut] at hc
    exact h.calls.pushed p' q' hc
  · intro p' q' hc
    simp only [Function.update_of_ne hut] at hc
    exact h.calls.here p' q' hc
  · simp only [hw, List.map_append, List.map_cons, List.map_nil, htimer, Option.map_some, hseq]
    rw [← List.append_assoc, h.order.order]

/-- A thread that holds no new timer goes on, behind its `runInLoop`. -/
theorem setCall_inv {thread : τ} {s : TimerRequests τ κ} (h : s.Inv thread) {t : τ} {c : TimerCall}
    (hold : ∀ p q, s.call t ≠ .created p q)
    (hc : c = .idle ∨ ∃ p q, c = .returning p q ∧ s.call t = .pushed p q) :
    (s.setCall t c).Inv thread := by
  have hnew : ∀ p q, c ≠ .created p q := by
    rcases hc with rfl | ⟨p, q, rfl, _⟩ <;> simp
  have hcall : ∀ u p q, (s.setCall t c).call u = .created p q ↔ s.call u = .created p q := by
    intro u p q
    refine (update_created hnew u p q).trans ⟨fun hu => hu.2, fun hu => ⟨?_, hu⟩⟩
    rintro rfl
    exact hold p q hu
  refine ⟨h.loop, h.threadId, h.queue, h.timers.frame rfl rfl rfl, h.hands.frame rfl hcall,
    ⟨h.numbers.fresh, h.numbers.distinct, h.numbers.seen, h.numbers.kept⟩, ⟨?_, ?_, ?_⟩,
    ⟨h.order.order, h.order.entered⟩⟩
  · intro u p q hu
    by_cases hut : u = t
    · subst hut
      simp only [setCall, Function.update_self] at hu
      rcases hc with rfl | ⟨p', q', rfl, hpushed⟩
      · simp at hu
      · simp only [reduceCtorEq, TimerCall.returning.injEq, false_or] at hu
        obtain ⟨rfl, rfl⟩ := hu
        exact h.calls.located u p' q' (Or.inl hpushed)
    · simp only [setCall, Function.update_of_ne hut] at hu
      exact h.calls.located u p q hu
  · intro p q hu
    by_cases hut : thread = t
    · subst hut
      simp only [setCall, Function.update_self] at hu
      rcases hc with rfl | ⟨p', q', rfl, _⟩ <;> cases hu
    · simp only [setCall, Function.update_of_ne hut] at hu
      exact h.calls.pushed p q hu
  · intro p q hu
    by_cases hut : thread = t
    · subst hut
      simp only [setCall, Function.update_self] at hu
      rcases hc with rfl | ⟨p', q', rfl, hpushed⟩
      · cases hu
      · exact absurd hpushed (h.calls.pushed p' q')
    · simp only [setCall, Function.update_of_ne hut] at hu
      exact h.calls.here p q hu

/-! ## The timers enter the queue -/

/-- What the queue does with a timer that was made. -/
structure Inserted (s : TimerRequests τ κ) (p : Nat) (timer : Timer) (queue : TimerQueue) :
    Prop where
  inv : queue.Inv s.reading.out
  added : s.queue.Added (p, timer) queue

omit [DecidableEq τ] in
theorem exists_inserted {thread : τ} {s : TimerRequests τ κ} (h : s.Inv thread) {p : Nat}
    {timer : Timer} (hp : s.created p = some timer) (endKey : Nat → Int) :
    ∃ queue, s.queue.addTimer endKey (p, timer) = .ok queue ∧ s.Inserted p timer queue := by
  obtain ⟨hheap, hlt, _, _⟩ := h.numbers.fresh p timer hp
  obtain ⟨queue, hok, hinv, hadded⟩ := @TimerQueue.addTimer.spec s.queue s.reading.out (p, timer)
    endKey h.queue hheap hlt
  exact ⟨queue, hok, hinv, hadded⟩

omit [DecidableEq τ] in
/-- A timer that enters the queue is at the same address. -/
theorem Inserted.timer {s s' : TimerRequests τ κ} {p : Nat} {timer : Timer}
    (h : s.Inserted p timer s'.queue) (hp : s.created p = some timer)
    (hheap : s.queue.heap p = none) (hcreated : s'.created = Function.update s.created p none)
    (p' : Nat) : s'.timer p' = s.timer p' := by
  unfold TimerRequests.timer
  rw [h.added.heap, hcreated]
  by_cases hpp : p' = p
  · subst hpp
    rw [Function.update_self, hheap, hp]
    rfl
  · rw [Function.update_of_ne hpp, Function.update_of_ne hpp]

omit [DecidableEq τ] in
theorem Located.same {s s' : TimerRequests τ κ} {p : Nat} {q : Int} (h : s.Located p q)
    (hsame : ∀ p', s'.timer p' = s.timer p') (hdeleted : s'.deleted = s.deleted) :
    s'.Located p q := by
  refine h.mono (fun timer ht heq => Or.inl ⟨timer, ?_, heq⟩) fun q hq => hdeleted ▸ hq
  rw [hsame p]
  exact ht

omit [DecidableEq τ] in
/-- The new timer has a new number, and an address that no other has. -/
theorem Inserted.timers {s s' : TimerRequests τ κ} {p : Nat} {timer : Timer} (ht : s.Timers)
    (h : s.Inserted p timer s'.queue) (hfree : s.queue.heap p = none)
    (hinv : s.queue.Inv s.reading.out) (hnew : timer.sequence_ ∉ s.queue.seen)
    (hreading : s'.reading = s.reading) (hdeleted : s'.deleted = s.deleted) : s'.Timers := by
  obtain ⟨hdue, hran, hlive, hdistinct, hspent, hgone⟩ := ht
  have hseen : s'.queue.seen = s.queue.seen ++ [timer.sequence_] := h.added.seen
  have hof : ∀ p' t, s'.queue.heap p' = some t →
      (p' = p ∧ t = timer) ∨ s.queue.heap p' = some t := by
    intro p' t ht'
    rw [h.added.heap, Function.update_apply] at ht'
    split at ht'
    · rename_i e
      exact Or.inl ⟨e, (Option.some.inj ht').symm⟩
    · exact Or.inr ht'
  have hother : ∀ p' t, s.queue.heap p' = some t → t.sequence_ ≠ timer.sequence_ :=
    fun _ _ ht' e => hnew (e ▸ hlive _ _ ht')
  have hkept : ∀ p' t, s.queue.heap p' = some t → s'.queue.heap p' = some t := by
    intro p' t ht'
    rw [h.added.heap, Function.update_of_ne]
    · exact ht'
    · rintro rfl
      rw [hfree] at ht'
      cases ht'
  refine ⟨hreading ▸ hdue, fun e he hnot t ht' => ?_, fun p' t ht' => ?_,
    fun p₁ p₂ t₁ t₂ h1 h2 heq => ?_, fun r hr hone => ?_, fun q hq => ?_⟩
  · rw [hreading] at he hnot
    rw [h.added.ran]
    rcases hof _ t ht' with ⟨hp, _⟩ | ht'
    · obtain ⟨t', hlives, _⟩ := (hinv.live e).mp (Or.inr he)
      rw [hp, hfree] at hlives
      cases hlives
    · exact hran e he hnot t ht'
  · rw [hseen]
    rcases hof p' t ht' with ⟨_, rfl⟩ | ht'
    · exact List.mem_append_right _ (List.mem_singleton_self _)
    · exact List.mem_append_left _ (hlive p' t ht')
  · rcases hof p₁ t₁ h1 with ⟨rfl, rfl⟩ | h1 <;> rcases hof p₂ t₂ h2 with ⟨rfl, rfl⟩ | h2
    · rfl
    · exact absurd heq.symm (hother p₂ t₂ h2)
    · exact absurd heq (hother p₁ t₁ h1)
    · exact hdistinct p₁ p₂ t₁ t₂ h1 h2 heq
  · rw [h.added.ran] at hr
    rw [hdeleted, hreading]
    exact (hspent r hr hone).imp_right fun ⟨hlives, hout⟩ => ⟨hkept _ _ hlives, hout⟩
  · rw [hdeleted] at hq
    obtain ⟨hin, hno, r, hr, hone⟩ := hgone q hq
    refine ⟨hseen ▸ List.mem_append_left _ hin, fun p' t ht' e => ?_, r, h.added.ran ▸ hr, hone⟩
    rcases hof p' t ht' with ⟨_, rfl⟩ | ht'
    · exact hnew (e ▸ hin)
    · exact hno p' t ht' e

omit [DecidableEq τ] in
theorem Inserted.numbers {s s' : TimerRequests τ κ} {p : Nat} {timer : Timer} (hn : s.Numbers)
    (h : s.Inserted p timer s'.queue) (hp : s.created p = some timer)
    (hcreated : s'.created = Function.update s.created p none) (hused : s'.used = s.used) :
    s'.Numbers := by
  have hother : ∀ p' t, s'.created p' = some t → p' ≠ p ∧ s.created p' = some t := by
    intro p' t ht
    rw [hcreated, Function.update_apply] at ht
    split at ht
    · cases ht
    · rename_i hne
      exact ⟨hne, ht⟩
  have hseen : s'.queue.seen = s.queue.seen ++ [timer.sequence_] := h.added.seen
  obtain ⟨_, _, hin, hnew⟩ := hn.fresh p timer hp
  refine ⟨fun p' t ht => ?_, fun p₁ p₂ t₁ t₂ h1 h2 => ?_, ⟨?_, fun q hq => ?_⟩, fun q hq => ?_⟩
  · obtain ⟨hne, ht'⟩ := hother p' t ht
    obtain ⟨h1, h2, h3, h4⟩ := hn.fresh p' t ht'
    refine ⟨?_, h2, hused ▸ h3, ?_⟩
    · rw [h.added.heap, Function.update_of_ne hne]
      exact h1
    · rw [hseen, List.mem_append, List.mem_singleton]
      rintro (hold | heq)
      · exact h4 hold
      · exact hne (hn.distinct p p' timer t hp ht' heq.symm)
  · exact hn.distinct p₁ p₂ t₁ t₂ (hother p₁ t₁ h1).2 (hother p₂ t₂ h2).2
  · rw [hseen]
    refine List.nodup_append.mpr ⟨hn.seen.1, List.nodup_singleton _, ?_⟩
    rintro q hq _ hq' rfl
    rw [List.mem_singleton.mp hq'] at hq
    exact hnew hq
  · rw [hseen, List.mem_append, List.mem_singleton] at hq
    rw [hused]
    rcases hq with hq | rfl
    · exact hn.seen.2 q hq
    · exact hin
  · rw [hused] at hq
    rcases hn.kept q hq with hs | ⟨p', t, ht, rfl⟩
    · exact Or.inl (hseen ▸ List.mem_append_left _ hs)
    · by_cases hpp : p' = p
      · subst hpp
        rw [hp] at ht
        cases ht
        exact Or.inl (hseen ▸ List.mem_append_right _ (List.mem_singleton_self _))
      · refine Or.inr ⟨p', t, ?_, rfl⟩
        rw [hcreated, Function.update_of_ne hpp]
        exact ht

omit [DecidableEq τ] in
theorem addTimerInLoop_eq {s : TimerRequests τ κ} {endKey : Nat → Int} {p : Nat} {timer : Timer}
    {queue : TimerQueue} (hp : s.created p = some timer)
    (hadd : s.queue.addTimer endKey (p, timer) = .ok queue) :
    s.addTimerInLoop endKey p =
      .ok { s with queue := queue, created := Function.update s.created p none } := by
  simp only [addTimerInLoop, hp, demand_some, ok_bind, hadd, pure_eq_ok]

theorem runHere_eq {s : TimerRequests τ κ} {t : τ} {endKey : Nat → Int} {p : Nat} {q : Int}
    {timer : Timer} {queue : TimerQueue} (hcall : s.call t = .created p q)
    (hp : s.created p = some timer) (hadd : s.queue.addTimer endKey (p, timer) = .ok queue) :
    s.runHere t endKey = .ok { s with
      queue := queue
      created := Function.update s.created p none
      call := Function.update s.call t (.returning p q) } := by
  simp only [runHere, hcall, addTimerInLoop_eq hp hadd, ok_bind, pure_eq_ok]
  rfl

theorem runFunctor_eq [DecidableEq κ] {s : TimerRequests τ κ} {endKey : Nat → Int}
    {p : Nat} {rest : List LoopFunctor} {timer : Timer} {queue : TimerQueue}
    (hf : s.loop_.functors = .addTimerInLoop p :: rest) (hp : s.created p = some timer)
    (hadd : s.queue.addTimer endKey (p, timer) = .ok queue) :
    s.runFunctor endKey = .ok { s with
      queue := queue
      created := Function.update s.created p none
      loop_ := EventLoop.Act.functorReturns.apply s.loop_.callFunctor
      entered := s.entered ++ [timer.sequence_] } := by
  simp only [runFunctor, hf, hp, demand_some, ok_bind, addTimerInLoop_eq hp hadd, pure_eq_ok]

/-- `addTimer` in the loop's own thread puts the timer into the queue. -/
theorem runHere_inv {thread : τ} {s s' : TimerRequests τ κ} (h : s.Inv thread) {t : τ}
    {endKey : Nat → Int} {p : Nat} {q : Int} (hself : s.loop_.isInLoopThread t = true)
    (hcall : s.call t = .created p q) (hok : s.runHere t endKey = .ok s') : s'.Inv thread := by
  obtain ⟨timer, htimer, hseq⟩ := h.hands.number t p q hcall
  obtain ⟨queue, hadd, hin⟩ := exists_inserted h htimer endKey
  have ht : thread = t := by
    rw [← h.threadId]
    simpa [EventLoop.isInLoopThread] using hself
  obtain ⟨hheap, _, _, hfresh⟩ := h.numbers.fresh p timer htimer
  have hs' : s' = { s with
      queue := queue
      created := Function.update s.created p none
      call := Function.update s.call t (.returning p q) } := by
    rw [runHere_eq hcall htimer hadd, Except.ok.injEq] at hok
    exact hok.symm
  obtain ⟨hqueue, hreading, hdeleted, hcreated, hcall', hentered, hasked, hloop, hused⟩ :
      s'.queue = queue ∧ s'.reading = s.reading ∧ s'.deleted = s.deleted ∧
      s'.created = Function.update s.created p none ∧
      s'.call = Function.update s.call t (.returning p q) ∧ s'.entered = s.entered ∧
      s'.asked = s.asked ∧ s'.loop_ = s.loop_ ∧ s'.used = s.used := by
    rw [hs']
    exact ⟨rfl, rfl, rfl, rfl, rfl, rfl, rfl, rfl, rfl⟩
  rw [← hqueue] at hin
  have hsame := hin.timer htimer hheap hcreated
  refine ⟨hloop ▸ h.loop, hloop ▸ h.threadId, hreading ▸ hin.inv,
    hin.timers h.timers hheap h.queue hfresh hreading hdeleted, ?_,
    hin.numbers h.numbers htimer hcreated hused, ⟨?_, ?_, ?_⟩, ⟨?_, ?_⟩⟩
  · rw [hloop]
    exact h.hands.placed hcall hcreated (hcall' ▸ update_created (by simp))
  · intro u p' q' hu
    rw [hcall'] at hu
    by_cases hut : u = t
    · subst hut
      simp only [Function.update_self, reduceCtorEq, TimerCall.returning.injEq, false_or] at hu
      obtain ⟨rfl, rfl⟩ := hu
      refine Or.inl ⟨timer, ?_, hseq⟩
      rw [hsame p]
      unfold TimerRequests.timer
      rw [hheap]
      exact htimer
    · simp only [Function.update_of_ne hut] at hu
      exact (h.calls.located u p' q' hu).same hsame hdeleted
  · intro p' q' hu
    rw [hcall', ht] at hu
    simp at hu
  · intro p' q' hu
    rw [hcall', ht] at hu
    simp only [Function.update_self, TimerCall.returning.injEq] at hu
    obtain ⟨rfl, rfl⟩ := hu
    refine ⟨timer, ?_, hseq⟩
    rw [hin.added.heap, Function.update_self]
  · rw [hentered, hasked, hcreated, hloop, map_update (h.hands.apart t p q hcall)]
    exact h.order.order
  · rw [hentered, hin.added.seen]
    exact ⟨h.order.entered.1, fun q' hq' => List.mem_append_left _ (h.order.entered.2 q' hq')⟩

/-- The functor of an `addTimer` puts its timer into the queue. -/
theorem runFunctor_inv [DecidableEq κ] {thread : τ} {s s' : TimerRequests τ κ} (h : s.Inv thread)
    {endKey : Nat → Int} {p : Nat} {rest : List LoopFunctor}
    (he : (EventLoop.Act.callFunctor : EventLoop.Act τ κ LoopFunctor).Enabled s.loop_)
    (hf : s.loop_.functors = .addTimerInLoop p :: rest) (hok : s.runFunctor endKey = .ok s') :
    s'.Inv thread := by
  have hhead : waiting s.loop_ =
      p :: waiting (EventLoop.Act.functorReturns.apply s.loop_.callFunctor) := by
    simp [waiting, EventLoop.waiting, EventLoop.callFunctor, EventLoop.Act.apply, hf,
      LoopFunctor.address]
  have hhands := h.hands
  rw [hhead] at hhands
  have hout := (List.nodup_cons.mp hhands.nodup).1
  obtain ⟨timer, htimer⟩ := Option.ne_none_iff_exists'.mp
    ((hhands.owner p).mpr (Or.inl List.mem_cons_self))
  obtain ⟨queue, hadd, hin⟩ := exists_inserted h htimer endKey
  obtain ⟨hheap, _, _, hfresh⟩ := h.numbers.fresh p timer htimer
  have hreturned : (EventLoop.Act.functorReturns.apply s.loop_.callFunctor).Inv := by
    have hcalled : s.loop_.callFunctor.Inv := h.loop.apply (a := .callFunctor) he
    refine hcalled.apply (a := .functorReturns) ?_
    unfold EventLoop.callFunctor
    rw [hf]
    exact ⟨rfl, he.1.2⟩
  have hs' : s' = { s with
      queue := queue
      created := Function.update s.created p none
      loop_ := EventLoop.Act.functorReturns.apply s.loop_.callFunctor
      entered := s.entered ++ [timer.sequence_] } := by
    rw [runFunctor_eq hf htimer hadd, Except.ok.injEq] at hok
    exact hok.symm
  obtain ⟨hqueue, hreading, hdeleted, hcreated, hcall, hentered, hasked, hloop, hused⟩ :
      s'.queue = queue ∧ s'.reading = s.reading ∧ s'.deleted = s.deleted ∧
      s'.created = Function.update s.created p none ∧ s'.call = s.call ∧
      s'.entered = s.entered ++ [timer.sequence_] ∧ s'.asked = s.asked ∧
      s'.loop_ = EventLoop.Act.functorReturns.apply s.loop_.callFunctor ∧ s'.used = s.used := by
    rw [hs']
    exact ⟨rfl, rfl, rfl, rfl, rfl, rfl, rfl, rfl, rfl⟩
  rw [← hqueue] at hin
  have hsame := hin.timer htimer hheap hcreated
  refine ⟨hloop ▸ hreturned, ?_, hreading ▸ hin.inv,
    hin.timers h.timers hheap h.queue hfresh hreading hdeleted, ?_,
    hin.numbers h.numbers htimer hcreated hused, ⟨?_, ?_, ?_⟩, ⟨?_, ?_, ?_⟩⟩
  · rw [hloop]
    unfold EventLoop.callFunctor
    rw [hf]
    exact h.threadId
  · rw [hloop]
    exact hhands.called hcreated hcall
  · intro u p' q' hu
    exact (h.calls.located u p' q' (hcall ▸ hu)).same hsame hdeleted
  · exact hcall ▸ h.calls.pushed
  · intro p' q' hu
    obtain ⟨timer', ht', hseq⟩ := h.calls.here p' q' (hcall ▸ hu)
    refine ⟨timer', ?_, hseq⟩
    have hne : p' ≠ p := by
      rintro rfl
      rw [hheap] at ht'
      cases ht'
    rw [hin.added.heap, Function.update_of_ne hne]
    exact ht'
  · have hall := h.order.order
    rw [hhead, List.map_cons, htimer, Option.map_some] at hall
    rw [hentered, hasked, hcreated, hloop, map_update hout, ← hall]
    simp
  · rw [hentered]
    refine List.nodup_append.mpr ⟨h.order.entered.1, List.nodup_singleton _, ?_⟩
    rintro q hq _ hq' rfl
    rw [List.mem_singleton.mp hq'] at hq
    exact hfresh (h.order.entered.2 _ hq)
  · intro q hq
    rw [hin.added.seen]
    rw [hentered] at hq
    rcases List.mem_append.mp hq with hq | hq
    · exact List.mem_append_left _ (h.order.entered.2 q hq)
    · exact List.mem_append_right _ hq

/-! ## The timers fire -/

omit [DecidableEq τ] in
/-- The loop goes on in `handleRead`. No timer joins, and those that leave are deleted. -/
theorem Inv.reads {thread : τ} {s : TimerRequests τ κ} (h : s.Inv thread)
    {l : EventLoop τ κ LoopFunctor} {queue : TimerQueue} {reading : TimerReading}
    {deleted : List Int} (hl : l.Inv) (hid : l.threadId_ = s.loop_.threadId_)
    (hw : waiting l = waiting s.loop_) (hidle : s.Idle s.loop_.threadId_)
    (hqueue : queue.Inv reading.out)
    (htimers : ({ s with loop_ := l, queue := queue, reading := reading, deleted := deleted } :
      TimerRequests τ κ).Timers)
    (hseen : queue.seen = s.queue.seen)
    (hfree : ∀ p, s.queue.heap p = none → queue.heap p = none)
    (hstays : ∀ p timer, s.queue.heap p = some timer → timer.sequence_ ∈ deleted ∨
      ∃ timer', queue.heap p = some timer' ∧ timer'.sequence_ = timer.sequence_)
    (hdeleted : ∀ q ∈ s.deleted, q ∈ deleted) :
    ({ s with loop_ := l, queue := queue, reading := reading, deleted := deleted } :
      TimerRequests τ κ).Inv thread := by
  refine ⟨hl, hid.trans h.threadId, hqueue, htimers, ?_, ⟨fun p timer hp => ?_,
    h.numbers.distinct, hseen ▸ h.numbers.seen, hseen ▸ h.numbers.kept⟩,
    ⟨fun u p q hu => ?_, h.calls.pushed, fun p q hu => ?_⟩, ?_⟩
  · simp only [hw]
    exact h.hands.frame rfl fun _ _ _ => Iff.rfl
  · obtain ⟨h1, h2, h3, h4⟩ := h.numbers.fresh p timer hp
    exact ⟨hfree p h1, h2, h3, hseen ▸ h4⟩
  · refine (h.calls.located u p q hu).mono (fun timer ht hq => ?_) hdeleted
    unfold TimerRequests.timer at ht
    rcases Option.or_eq_some_iff.mp ht with hp | ⟨hnone, hp⟩
    · rcases hstays p timer hp with hin | ⟨timer', hp', hq'⟩
      · exact Or.inr (hq ▸ hin)
      · refine Or.inl ⟨timer', ?_, hq'.trans hq⟩
        simp only [TimerRequests.timer, hp', Option.some_or]
    · refine Or.inl ⟨timer, ?_, hq⟩
      simp only [TimerRequests.timer, hfree p hnone, hp, Option.none_or]
  · have hcall : s.call thread = .idle := h.threadId ▸ hidle
    simp only at hu
    rw [hcall] at hu
    cases hu
  · simp only [hw]
    exact ⟨h.order.order, h.order.entered.1, hseen ▸ h.order.entered.2⟩

/-- The timers that are due leave the set. None of them has run yet. -/
theorem handleRead_inv [DecidableEq κ] {thread : τ} {s s' : TimerRequests τ κ} (h : s.Inv thread)
    {endKey : Nat → Int} {now : Int} (hrests : s.Rests)
    (he : (EventLoop.Act.handleEvent : EventLoop.Act τ κ LoopFunctor).Enabled s.loop_)
    (hok : s.handleRead endKey now = .ok s') : s'.Inv thread := by
  obtain ⟨hidle, hnone⟩ := hrests
  have hqueue := h.queue
  rw [hnone] at hqueue
  have hread : s.queue.readTimerfd.Inv [] := hqueue.congr rfl rfl
  obtain ⟨timers, hget, hinv, _⟩ := TimerQueue.getExpired.spec endKey now hread
  simp only [handleRead, hget, ok_bind, pure_eq_ok, Except.ok.injEq] at hok
  subst hok
  have hw : waiting s.loop_.handleEvent = waiting s.loop_ := by
    have hall := EventLoop.waiting_apply h.loop he
    simp only [EventLoop.Act.queued, EventLoop.Act.called, EventLoop.Act.apply, List.append_nil,
      List.nil_append] at hall
    unfold waiting
    rw [hall]
  refine h.reads (h.loop.apply (a := .handleEvent) he) (s.loop_.apply_fields .handleEvent).1 hw
    hidle hinv ⟨fun _ => id, fun e hin hnot => absurd hin hnot, h.timers.live, h.timers.distinct,
      fun r hr hone => Or.inl ?_, h.timers.deleted⟩ rfl (fun _ => id)
      (fun p timer hp => Or.inr ⟨timer, hp, rfl⟩) fun _ => id
  have hspent := h.timers.spent r hr hone
  rw [hnone] at hspent
  exact hspent.resolve_right fun hc => absurd hc.2 List.not_mem_nil

omit [DecidableEq τ] in
/-- A timer that is due runs. It is the first of the rest, so it is not due any more. -/
theorem runTimer_inv {thread : τ} {s s' : TimerRequests τ κ} (h : s.Inv thread)
    {endKey : Nat → Int} {now : Int} {expired rest : List Entry} {e : Entry}
    (hidle : s.Idle s.loop_.threadId_) (hreading : s.reading = .runs now expired (e :: rest))
    (hok : s.runTimer endKey = .ok s') : s'.Inv thread := by
  obtain ⟨hdue, hran, hlive, hdistinct, hspent, hdeleted⟩ := h.timers
  have hqueue := h.queue
  rw [hreading] at hdue hran hspent hqueue
  have hout : e ∈ expired := hdue e List.mem_cons_self
  obtain ⟨timer, htimer, hentry⟩ := (hqueue.live e).mp (Or.inr hout)
  simp only [runTimer, hreading, TimerQueue.run, TimerQueue.deref, htimer, demand_some, ok_bind,
    List.foldlM_nil, pure_eq_ok, Except.ok.injEq] at hok
  subst hok
  refine h.reads h.loop rfl rfl hidle (hqueue.congr rfl rfl)
    ⟨fun e' he' => hdue e' (List.mem_cons_of_mem _ he'), fun e' he' hnot t ht => ?_, hlive,
      hdistinct, fun r hr hone => ?_, fun q hq => ?_⟩ rfl (fun _ => id)
      (fun p timer hp => Or.inr ⟨timer, hp, rfl⟩) fun _ => id
  · by_cases heq : e' = e
    · subst heq
      rw [htimer] at ht
      cases ht
      exact List.mem_append_right _ (List.mem_singleton_self _)
    · refine List.mem_append_left _ (hran e' he' (fun hin => ?_) t ht)
      rcases List.mem_cons.mp hin with heq' | hin
      · exact heq heq'
      · exact hnot hin
  · rcases List.mem_append.mp hr with hr | hr
    · exact hspent r hr hone
    · rw [List.mem_singleton.mp hr]
      exact Or.inr ⟨htimer, hentry.symm ▸ hout⟩
  · obtain ⟨hin, hno, r, hr, hone⟩ := hdeleted q hq
    exact ⟨hin, hno, r, List.mem_append_left _ hr, hone⟩

omit [DecidableEq τ] in
/-- Behind the callbacks, all timers that were due have run. -/
theorem reset_inv {thread : τ} {s : TimerRequests τ κ} (h : s.Inv thread) {now : Int}
    {expired : List Entry} (hidle : s.Idle s.loop_.threadId_)
    (hreading : s.reading = .runs now expired []) : s.reset.Inv thread := by
  obtain ⟨_, hran, hlive, hdistinct, hspent, hdeleted⟩ := h.timers
  have hqueue := h.queue
  rw [hreading] at hran hspent hqueue
  simp only [reset, hreading]
  exact h.reads h.loop rfl rfl hidle hqueue
    ⟨fun _ he => absurd he List.not_mem_nil, hran, hlive, hdistinct, hspent, hdeleted⟩ rfl
    (fun _ => id) (fun p timer hp => Or.inr ⟨timer, hp, rfl⟩) fun _ => id

theorem mem_deleted_iff (timer : Timer) (deleted : List Int) (q : Int) :
    q ∈ (if timer.repeated_ then deleted else deleted ++ [timer.sequence_]) ↔
      q ∈ deleted ∨ timer.repeated_ = false ∧ q = timer.sequence_ := by
  cases timer.repeated_ <;> simp

omit [DecidableEq τ] in
/-- A one-shot timer that ran is deleted, and the others keep their numbers. -/
theorem Timers.resetOne {s : TimerRequests τ κ} (h : s.Timers) {now : Int} {rest : List Entry}
    {e : Entry} {timer : Timer} {queue : TimerQueue}
    (hreading : s.reading = .resets now (e :: rest))
    (hapart : ∀ e' ∈ rest, e'.second ≠ e.second) (htimer : s.queue.heap e.second = some timer)
    (hrenewed : s.queue.Renewed now e queue) :
    ({ s with
      queue := queue
      reading := .resets now rest
      deleted := if timer.repeated_ then s.deleted else s.deleted ++ [timer.sequence_] } :
        TimerRequests τ κ).Timers := by
  obtain ⟨_, hran, hlive, hdistinct, hspent, hdeleted⟩ := h
  rw [hreading] at hran hspent
  refine ⟨fun _ he => absurd he List.not_mem_nil, fun e' he' _ t ht => ?_, fun p t hp => ?_,
    fun p p' t t' hp hp' heq => ?_, fun r hr hone => ?_, fun q hq => ?_⟩
  · rw [hrenewed.ran]
    rw [hrenewed.other _ (hapart e' he')] at ht
    exact hran e' (List.mem_cons_of_mem _ he') List.not_mem_nil t ht
  · obtain ⟨t₀, hp₀, hseq, _⟩ := hrenewed.origin htimer hp
    rw [hrenewed.seen, ← hseq]
    exact hlive p t₀ hp₀
  · obtain ⟨t₀, hp₀, hseq, _⟩ := hrenewed.origin htimer hp
    obtain ⟨t₁, hp₁, hseq', _⟩ := hrenewed.origin htimer hp'
    exact hdistinct p p' t₀ t₁ hp₀ hp₁ (by rw [hseq, hseq', heq])
  · rw [hrenewed.ran] at hr
    rcases hspent r hr hone with hin | ⟨hp, hout⟩
    · exact Or.inl ((mem_deleted_iff ..).mpr (Or.inl hin))
    · by_cases hre : r.1 = e.second
      · -- a one-shot timer is deleted now
        rw [hre, htimer] at hp
        cases hp
        exact Or.inl ((mem_deleted_iff ..).mpr (Or.inr ⟨hone, rfl⟩))
      · have hne : r.2.entry r.1 ≠ e := fun hc => hre (congrArg Entry.second hc)
        refine Or.inr ⟨?_, (List.mem_cons.mp hout).resolve_left hne⟩
        rw [hrenewed.other _ hre]
        exact hp
  · rcases (mem_deleted_iff ..).mp hq with hold | ⟨hone, rfl⟩
    · obtain ⟨hin, hno, r, hr, hone⟩ := hdeleted q hold
      refine ⟨hrenewed.seen ▸ hin, fun p t hp hq => ?_, r, hrenewed.ran.symm ▸ hr, hone⟩
      obtain ⟨t₀, hp₀, hseq, _⟩ := hrenewed.origin htimer hp
      exact hno p t₀ hp₀ (hseq.trans hq)
    · refine ⟨hrenewed.seen ▸ hlive _ _ htimer, fun p t hp hq => ?_, (e.second, timer),
        hrenewed.ran.symm ▸ hran e List.mem_cons_self List.not_mem_nil timer htimer, hone, rfl⟩
      obtain ⟨t₀, hp₀, hseq, hrep⟩ := hrenewed.origin htimer hp
      have hpe := hdistinct _ _ _ _ htimer hp₀ (hq.symm.trans hseq.symm)
      rw [hrep hpe] at hone
      cases hone

omit [DecidableEq τ] in
/-- The first of the timers that ran comes back with its number, or is deleted. -/
theorem resetOne_inv {thread : τ} {s s' : TimerRequests τ κ} (h : s.Inv thread)
    {endKey : Nat → Int} {now : Int} {rest : List Entry} {e : Entry}
    (hidle : s.Idle s.loop_.threadId_) (hreading : s.reading = .resets now (e :: rest))
    (hok : s.resetOne endKey = .ok s') : s'.Inv thread := by
  have hqueue := h.queue
  rw [hreading] at hqueue
  obtain ⟨timer, htimer, _⟩ := (hqueue.live e).mp (Or.inr List.mem_cons_self)
  obtain ⟨queue, hreset, hinv, hrenewed⟩ := TimerQueue.resetOne.spec endKey now hqueue
  simp only [resetOne, hreading, TimerQueue.deref, htimer, demand_some, ok_bind, hreset,
    pure_eq_ok, Except.ok.injEq] at hok
  subst hok
  refine h.reads h.loop rfl rfl hidle hinv
    (h.timers.resetOne hreading hqueue.head_apart htimer hrenewed) hrenewed.seen
    (fun p hp => ?_) (fun p t hp => ?_) fun q hq => (mem_deleted_iff ..).mpr (Or.inl hq)
  · rw [hrenewed.other p]
    · exact hp
    · rintro rfl
      rw [htimer] at hp
      cases hp
  · rcases hrenewed.stays htimer hp with ⟨hone, rfl⟩ | hstays
    · exact Or.inl ((mem_deleted_iff ..).mpr (Or.inr ⟨hone, rfl⟩))
    · exact Or.inr hstays

omit [DecidableEq τ] in
theorem rearm_inv {thread : τ} {s : TimerRequests τ κ} (h : s.Inv thread) {now : Int}
    (hidle : s.Idle s.loop_.threadId_) (hreading : s.reading = .resets now []) :
    s.rearm.Inv thread := by
  obtain ⟨_, _, hlive, hdistinct, hspent, hdeleted⟩ := h.timers
  have hqueue := h.queue
  rw [hreading] at hspent hqueue
  obtain ⟨hheap, htimers, hseen, hran⟩ := s.queue.rearm_fields
  simp only [rearm, hreading]
  refine h.reads h.loop rfl rfl hidle (hqueue.congr hheap htimers)
    ⟨fun _ he => absurd he List.not_mem_nil, fun _ he => absurd he List.not_mem_nil, ?_, ?_, ?_,
      ?_⟩ hseen (fun p hp => hheap ▸ hp) (fun p timer hp => Or.inr ⟨timer, hheap ▸ hp, rfl⟩)
      fun _ => id
  · simp only [hheap, hseen]
    exact hlive
  · simp only [hheap]
    exact hdistinct
  · simp only [hheap, hran]
    exact hspent
  · simp only [hheap, hseen, hran]
    exact hdeleted

/-! ## The other steps of the loop -/

theorem waiting_loop [DecidableEq κ] {s : TimerRequests τ κ} {timerChannel : κ}
    {a : EventLoop.Act τ κ LoopFunctor} (h : s.loop_.Inv) (he : a.Enabled s.loop_)
    (hfree : s.Free timerChannel a) : waiting (a.apply s.loop_) = waiting s.loop_ := by
  have hall := congrArg (List.filterMap LoopFunctor.address) (EventLoop.waiting_apply h he)
  rw [List.filterMap_append, List.filterMap_append] at hall
  have hqueued : a.queued.filterMap LoopFunctor.address = [] := by
    cases a with
    | queueInLoop t cb =>
      obtain ⟨_, rfl⟩ := hfree
      rfl
    | _ => rfl
  have hcalled : (a.called s.loop_).filterMap LoopFunctor.address = [] := by
    cases a with
    | callFunctor =>
      obtain ⟨_, hhead⟩ := hfree
      obtain ⟨rest, hf⟩ := List.head?_eq_some_iff.mp hhead
      simp [EventLoop.Act.called, hf, LoopFunctor.address]
    | _ => rfl
  rw [hqueued, hcalled, List.append_nil, List.nil_append] at hall
  exact hall.symm

theorem Inv.step [DecidableEq κ] {thread : τ} {timerChannel wakeChannel : κ}
    {s s' : TimerRequests τ κ} {a : Act τ κ} (h : s.Inv thread)
    (hs : (machine thread wakeChannel timerChannel).step s a s') : s'.Inv thread := by
  obtain ⟨he, hok⟩ := hs
  cases a with
  | newTimer t p r q =>
    cases hok
    obtain ⟨hcall, _, hfree, hp, hq⟩ := he
    exact newTimer_inv h r hcall.1 hfree hp hq
  | runHere t endKey =>
    obtain ⟨hself, p, q, hcall⟩ := he
    exact runHere_inv h hself hcall hok
  | queueInLoop t =>
    cases hok
    obtain ⟨hother, _, p, q, hcall⟩ := he
    exact queueInLoop_inv h hother hcall
  | callReturns t =>
    cases hok
    obtain ⟨p, q, hcall⟩ := he
    have hw : waiting (s.loop_.callReturns t) = waiting s.loop_ := by
      unfold waiting
      rw [EventLoop.waiting_callReturns]
    have hid : (s.loop_.callReturns t).threadId_ = s.loop_.threadId_ :=
      (s.loop_.apply_fields (.callReturns t)).1
    have hgoes := h.goes (h.loop.callReturns t) hid hw
    simp only [callReturns, hcall]
    exact setCall_inv hgoes (by simp [hcall]) (Or.inr ⟨p, q, rfl, hcall⟩)
  | addTimerReturns t =>
    obtain ⟨p, q, hcall⟩ := he
    simp only [Act.run, addTimerReturns, hcall, bind_eq_ok, pure_eq_ok, Except.ok.injEq] at hok
    obtain ⟨_, _, rfl⟩ := hok
    exact setCall_inv h (by simp [hcall]) (Or.inl rfl)
  | runFunctor endKey =>
    obtain ⟨_, hcall, p, hhead⟩ := he
    obtain ⟨rest, hf⟩ := List.head?_eq_some_iff.mp hhead
    exact runFunctor_inv h hcall hf hok
  | handleRead endKey now =>
    obtain ⟨hrests, hevent, _⟩ := he
    exact handleRead_inv h hrests hevent hok
  | runTimer endKey =>
    obtain ⟨hidle, now, expired, e, rest, hreading⟩ := he
    exact runTimer_inv h hidle hreading hok
  | reset =>
    cases hok
    obtain ⟨hidle, now, expired, hreading⟩ := he
    exact reset_inv h hidle hreading
  | resetOne endKey =>
    obtain ⟨hidle, now, e, rest, hreading⟩ := he
    exact resetOne_inv h hidle hreading hok
  | rearm =>
    cases hok
    obtain ⟨hidle, now, hreading⟩ := he
    exact rearm_inv h hidle hreading
  | loop a =>
    cases hok
    obtain ⟨he, hfree⟩ := he
    exact h.goes (h.loop.apply he) (s.loop_.apply_fields a).1 (waiting_loop h.loop he hfree)

theorem reachable_inv [DecidableEq κ] {thread : τ} {timerChannel wakeChannel : κ}
    {s : TimerRequests τ κ} (h : (machine thread wakeChannel timerChannel).Reachable s) :
    s.Inv thread := by
  apply h.invariant
  · rintro s rfl
    exact construct_inv thread wakeChannel
  · rintro s a s' hs hst
    exact hs.step hst

/-! ## The laws -/

/-- No timer that a thread asked for is lost or enters the queue twice. Those
that other threads handed to the loop enter it in their order: first the ones
that did, and then the ones whose functors wait, which still live. A timer is
made and waits, or the queue has seen it, and the step that brings it into the
queue never fails. -/
theorem the_timers_of_all_threads_enter_the_queue_once_in_order [DecidableEq κ] (thread : τ)
    (wakeChannel timerChannel : κ) (s : TimerRequests τ κ)
    (h : (machine thread wakeChannel timerChannel).Reachable s) :
    s.asked.map some =
      s.entered.map some ++ (waiting s.loop_).map (fun p => (s.created p).map Timer.sequence_) ∧
    s.asked.Nodup ∧ s.queue.seen.Nodup ∧ (∀ q ∈ s.entered, q ∈ s.queue.seen) ∧
    (∀ q ∈ s.used, q ∈ s.queue.seen ↔ ∀ p timer, s.created p = some timer → timer.sequence_ ≠ q) ∧
    (∀ endKey, (Act.runFunctor endKey).Enabled timerChannel s →
      ∃ s', s.runFunctor endKey = .ok s') ∧
    ∀ t endKey, (Act.runHere t endKey).Enabled timerChannel s →
      ∃ s', s.runHere t endKey = .ok s' := by
  have hinv := reachable_inv h
  have horder := hinv.order.order.symm
  have hwaits : ∀ p ∈ waiting s.loop_, ∃ timer, s.created p = some timer := fun p hp =>
    Option.ne_none_iff_exists'.mp ((hinv.hands.owner p).mpr (Or.inl hp))
  refine ⟨horder, ?_, hinv.numbers.seen.1, hinv.order.entered.2, fun q hq => ⟨?_, ?_⟩, ?_, ?_⟩
  · refine List.Nodup.of_map some ?_
    rw [horder]
    refine List.nodup_append.mpr ⟨hinv.order.entered.1.map (Option.some_injective _), ?_, ?_⟩
    · refine (List.nodup_map_iff_inj_on hinv.hands.nodup).mpr fun p hp p' hp' heq => ?_
      obtain ⟨timer, ht⟩ := hwaits p hp
      obtain ⟨timer', ht'⟩ := hwaits p' hp'
      rw [ht, ht', Option.map_some, Option.map_some, Option.some.injEq] at heq
      exact (hinv.numbers.distinct p p' timer timer' ht ht' heq).symm
    · rintro x hx _ hy rfl
      obtain ⟨q, hq, rfl⟩ := List.mem_map.mp hx
      obtain ⟨p, hp, heq⟩ := List.mem_map.mp hy
      obtain ⟨timer, ht⟩ := hwaits p hp
      rw [ht, Option.map_some, Option.some.injEq] at heq
      exact (hinv.numbers.fresh p timer ht).2.2.2 (heq ▸ hinv.order.entered.2 q hq)
  · rintro hseen p timer ht rfl
    exact (hinv.numbers.fresh p timer ht).2.2.2 hseen
  · intro hnone
    rcases hinv.numbers.kept q hq with hseen | ⟨p, timer, ht, heq⟩
    · exact hseen
    · exact absurd heq (hnone p timer ht)
  · rintro endKey ⟨_, _, p, hhead⟩
    obtain ⟨rest, hf⟩ := List.head?_eq_some_iff.mp hhead
    have hp : p ∈ waiting s.loop_ := by
      simp [waiting, EventLoop.waiting, hf, LoopFunctor.address]
    obtain ⟨timer, ht⟩ := hwaits p hp
    obtain ⟨queue, hadd, _⟩ := exists_inserted hinv ht endKey
    exact ⟨_, runFunctor_eq hf ht hadd⟩
  · rintro t endKey ⟨_, p, q, hcall⟩
    obtain ⟨timer, ht, _⟩ := hinv.hands.number t p q hcall
    obtain ⟨queue, hadd, _⟩ := exists_inserted hinv ht endKey
    exact ⟨_, runHere_eq hcall ht hadd⟩

/-- `addTimer` returns the number of its timer exactly when the timer was not deleted.
Otherwise the read is of no timer, or of another one at the same address. Only a timer
that has run for the only time is deleted, and outside of `handleRead` every such
timer was. In the loop's own thread the timer is always there. -/
theorem addTimer_returns_its_number_unless_the_timer_was_deleted [DecidableEq κ] (thread : τ)
    (wakeChannel timerChannel : κ) (s : TimerRequests τ κ) (t : τ) (p : Nat) (q : Int)
    (h : (machine thread wakeChannel timerChannel).Reachable s)
    (hcall : s.call t = .returning p q) :
    (s.timerId p = .ok ⟨p, q⟩ ↔ q ∉ s.deleted) ∧
    (q ∈ s.deleted → ∃ r ∈ s.queue.ran, r.2.repeated_ = false ∧ r.2.sequence_ = q) ∧
    (s.reading = .none →
      ((∃ r ∈ s.queue.ran, r.2.repeated_ = false ∧ r.2.sequence_ = q) → q ∈ s.deleted)) ∧
    (s.timerId p = .ok ⟨p, q⟩ ∨ s.timerId p = .error .badPointer ∨
      ∃ q', q' ≠ q ∧ s.timerId p = .ok ⟨p, q'⟩) ∧
    (t = thread → s.timerId p = .ok ⟨p, q⟩) := by
  have hinv := reachable_inv h
  have hread : ∀ timer, s.timer p = some timer → s.timerId p = .ok ⟨p, timer.sequence_⟩ := by
    intro timer ht
    simp only [timerId, ht, demand_some, ok_bind, pure_eq_ok]
  have hgone : s.timer p = none → s.timerId p = .error .badPointer := by
    intro ht
    simp only [timerId, ht]
    rfl
  have hlocated := hinv.calls.located t p q (Or.inr hcall)
  refine ⟨⟨?_, fun hnot => ?_⟩, fun hq => (hinv.timers.deleted q hq).2.2, ?_, ?_, ?_⟩
  · intro hok hq
    obtain ⟨hseen, hno, _⟩ := hinv.timers.deleted q hq
    cases ht : s.timer p with
    | none =>
      rw [hgone ht] at hok
      cases hok
    | some timer =>
      rw [hread timer ht, Except.ok.injEq, TimerId.mk.injEq] at hok
      -- a deleted timer is neither in the queue nor to come
      unfold TimerRequests.timer at ht
      rcases Option.or_eq_some_iff.mp ht with hp | ⟨_, hp⟩
      · exact hno p timer hp hok.2
      · exact (hinv.numbers.fresh p timer hp).2.2.2 (hok.2.symm ▸ hseen)
  · rcases hlocated with ⟨timer, ht, rfl⟩ | hq
    · exact hread timer ht
    · exact absurd hq hnot
  · rintro hnone ⟨r, hr, hone, rfl⟩
    have hspent := hinv.timers.spent r hr hone
    rw [hnone] at hspent
    exact hspent.resolve_right fun hc => absurd hc.2 List.not_mem_nil
  · cases ht : s.timer p with
    | none => exact Or.inr (Or.inl (hgone ht))
    | some timer =>
      by_cases hq : timer.sequence_ = q
      · exact Or.inl (hq ▸ hread timer ht)
      · exact Or.inr (Or.inr ⟨_, hq, hread timer ht⟩)
  · rintro rfl
    obtain ⟨timer, hp, rfl⟩ := hinv.calls.here p q hcall
    refine hread timer ?_
    unfold TimerRequests.timer
    rw [hp]
    rfl

/-- A thread has asked for a timer, which runs and is deleted before the thread has
read it. -/
theorem exists_fired : ∃ s s' : TimerRequests Bool Bool,
    (machine false true false).Reachable s ∧ s.call true = .returning 1 1 ∧ s.asked = [1] ∧
      s.queue.ran = [(1, ⟨5, false, 0, 1⟩)] ∧ s.deleted = [] ∧
    (machine false true false).Reachable s' ∧ s'.call true = .returning 1 1 ∧
      s'.deleted = [1] := by
  have h0 : (machine false true false).Reachable (construct false true : TimerRequests Bool Bool) :=
    .start rfl
  have h1 := h0.next (a := .loop .loop) (by exact ⟨⟨⟨⟨rfl, rfl⟩, rfl⟩, rfl, rfl⟩, rfl⟩)
  have h2 := h1.next (a := .loop .clearQuit) (by exact ⟨⟨⟨rfl, rfl⟩, rfl, rfl⟩, rfl⟩)
  have h3 := h2.next (a := .loop .whileTest) (by exact ⟨⟨⟨rfl, rfl⟩, rfl, rfl⟩, rfl⟩)
  have h4 := h3.next (a := .newTimer true 1 (.runAt 5) 1)
    (by exact ⟨⟨⟨rfl, fun _ => trivial⟩, ⟨rfl, by decide⟩, rfl, by decide, List.not_mem_nil⟩, rfl⟩)
  have h5 := h4.next (a := .queueInLoop true) (by exact ⟨⟨rfl, rfl, 1, 1, rfl⟩, rfl⟩)
  have h6 := h5.next (a := .callReturns true) (by exact ⟨⟨1, 1, rfl⟩, rfl⟩)
  have h7 := h6.next (a := .loop (.poll [])) (by exact ⟨⟨⟨rfl, rfl⟩, rfl, rfl⟩, rfl⟩)
  have h8 := h7.next (a := .loop .doPendingFunctors_)
    (by exact ⟨⟨⟨⟨rfl, rfl⟩, rfl⟩, rfl, rfl⟩, rfl⟩)
  have h9 := h8.next (a := .loop .swap) (by exact ⟨⟨⟨rfl, rfl⟩, rfl, rfl⟩, rfl⟩)
  have h10 := h9.next (a := .runFunctor fun _ => 0)
    (by exact ⟨⟨⟨rfl, rfl⟩, ⟨⟨rfl, rfl⟩, List.cons_ne_nil _ _⟩, 1, rfl⟩, rfl⟩)
  have h11 := h10.next (a := .loop .clearCalling) (by exact ⟨⟨⟨⟨rfl, rfl⟩, rfl⟩, rfl, rfl⟩, rfl⟩)
  have h12 := h11.next (a := .loop .whileTest) (by exact ⟨⟨⟨rfl, rfl⟩, rfl, rfl⟩, rfl⟩)
  have h13 := h12.next (a := .loop (.poll [false])) (by exact ⟨⟨⟨rfl, rfl⟩, rfl, rfl⟩, rfl⟩)
  -- the timer fires
  have h14 := h13.next (a := .handleRead (fun _ => 0) 6)
    (by exact ⟨⟨⟨rfl, rfl⟩, ⟨⟨rfl, rfl⟩, List.cons_ne_nil _ _⟩, rfl⟩, rfl⟩)
  have h15 := h14.next (a := .runTimer fun _ => 0) (by exact ⟨⟨rfl, _, _, _, _, rfl⟩, rfl⟩)
  have h16 := h15.next (a := .reset) (by exact ⟨⟨rfl, _, _, rfl⟩, rfl⟩)
  have h17 := h16.next (a := .resetOne fun _ => 0) (by exact ⟨⟨rfl, _, _, _, rfl⟩, rfl⟩)
  exact ⟨_, _, h16, rfl, rfl, rfl, rfl, h17, rfl, rfl⟩

/-- The timer of another thread is in the queue. -/
theorem the_timer_of_another_thread_enters_the_queue : ∃ s : TimerRequests Bool Bool,
    (machine false true false).Reachable s ∧ s.asked = [1] ∧ s.asked.map some =
      s.entered.map some ++ (waiting s.loop_).map fun p => (s.created p).map Timer.sequence_ := by
  obtain ⟨s, _, h, _, hasked, _⟩ := exists_fired
  exact ⟨s, h, hasked, (the_timers_of_all_threads_enter_the_queue_once_in_order _ _ _ s h).1⟩

/-- The thread reads the number of a timer that has run for the only time, as long as
`reset` has not deleted it. -/
theorem addTimer_returns_no_number_of_a_timer_that_was_deleted :
    ∃ s s' : TimerRequests Bool Bool,
      (machine false true false).Reachable s ∧ s.queue.ran = [(1, ⟨5, false, 0, 1⟩)] ∧
      s.timerId 1 = .ok ⟨1, 1⟩ ∧
      (machine false true false).Reachable s' ∧ s'.call true = .returning 1 1 ∧
      s'.timerId 1 ≠ .ok ⟨1, 1⟩ := by
  obtain ⟨s, s', h, hcall, _, hran, hkept, h', hcall', hdeleted⟩ := exists_fired
  have hread := addTimer_returns_its_number_unless_the_timer_was_deleted _ _ _ s true 1 1 h hcall
  have hread' := addTimer_returns_its_number_unless_the_timer_was_deleted _ _ _ s' true 1 1 h'
    hcall'
  refine ⟨s, s', h, hran, hread.1.mpr ?_, h', hcall', fun hok => hread'.1.mp hok ?_⟩
  · rw [hkept]
    exact List.not_mem_nil
  · rw [hdeleted]
    exact List.mem_singleton_self 1

end

end TimerRequests

end jmuduo.net
