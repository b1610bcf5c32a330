-- The pool of worker threads (ThreadPool.h). One mutex guards a deque of tasks,
-- the helpers that read it lock the mutex again, and `stop` joins the workers.
import Jmuduo.Monitor

open outcome runs monitors

namespace jmuduo

/-! ## The pool of the source -/

/-- A functor, or an empty `boost::function`, with the number of its `run`. -/
structure Task (α : Type) where
  number : Nat
  func : Option α
  deriving DecidableEq, Repr

/-- `runs` counts the calls of `run`. The last three fields record the numbers of
the tasks that went through the deque, and of those that a thread executed. -/
structure ThreadPool (τ α : Type) where
  running_ : Bool
  maxTasks_ : Int
  threads_ : List τ
  tasks_ : List (Task α)
  runs : Nat
  enqueued : List Nat
  dequeued : List Nat
  executed : List Nat
  deriving DecidableEq, Repr

namespace ThreadPool

variable {τ α : Type}

/-- The constructor. -/
def construct : ThreadPool τ α where
  running_ := false
  maxTasks_ := 0
  threads_ := []
  tasks_ := []
  runs := 0
  enqueued := []
  dequeued := []
  executed := []

def isFull (p : ThreadPool τ α) : Bool := p.maxTasks_ > 0 && (p.tasks_.length : Int) ≥ p.maxTasks_

def isEmpty (p : ThreadPool τ α) : Bool := p.tasks_.isEmpty

/-- The call of a task. An empty function throws instead. -/
def execute (task : Task α) (p : ThreadPool τ α) : ThreadPool τ α :=
  if task.func.isSome then { p with executed := p.executed ++ [task.number] } else p

/-- `run`, after its loop. -/
def push_back (task : Task α) (p : ThreadPool τ α) : ThreadPool τ α :=
  { p with tasks_ := p.tasks_ ++ [task], enqueued := p.enqueued ++ [task.number] }

/-- `take`, after its loop. `none` is `NULL`. -/
def take (p : ThreadPool τ α) : Outcome (ThreadPool τ α × Option (Task α)) :=
  if p.running_ then
    match p.tasks_ with
    | [] => .error .outOfRange
    | task :: tasks => pure
      ({ p with tasks_ := tasks, dequeued := p.dequeued ++ [task.number] }, some task)
  else pure (p, none)

/-! ## The calls -/

inductive Condition
  | notEmpty_
  | notFull_
  deriving DecidableEq, Repr

/-- The calls that lock the mutex. A worker calls `take` in the loop of
`runInThread`, and any thread can. -/
inductive Call (α : Type)
  | run (task : Task α)
  | take (inLoop : Bool)
  | stop
  | isFull
  | isEmpty
  deriving DecidableEq, Repr

/-- What follows a call: the code of the user, or the loop of the worker. -/
inductive After (α : Type)
  | user
  | loop (task : Option (Task α))
  deriving DecidableEq, Repr

/-- Where a thread stands. `free` is the code of the user, that of a task
included. At `testing` the test of a loop locks the mutex for `isFull` or
`isEmpty`. At `awaiting i` it is in the join of `threads_[i]`. -/
inductive Place (α : Type)
  | unstarted
  | free
  | loop
  | locking (k : Call α)
  | testing (k : Call α)
  | waiting (k : Call α) (c : Condition)
  | notified (k : Call α)
  | acting (k : Call α)
  | joining (i : Nat)
  | awaiting (i : Nat)
  | leaving (r : After α)
  | arming (n : Int)
  | starting (i : Nat) (n : Int)
  | spawning (i : Nat) (n : Int)
  | exited
  deriving DecidableEq, Repr

/-- A thread at the place has the mutex. -/
def Place.Holds : Place α → Prop
  | .testing _ | .acting _ | .joining _ | .awaiting _ | .leaving _ => True
  | .unstarted | .free | .loop | .locking _ | .waiting _ _ | .notified _ | .arming _
  | .starting _ _ | .spawning _ _ | .exited => False

/-- A thread at the place wants the mutex before it can go on. -/
def Place.Locks : Place α → Prop
  | .locking _ | .testing _ | .notified _ => True
  | .unstarted | .free | .loop | .waiting _ _ | .acting _ | .joining _ | .awaiting _ | .leaving _
  | .arming _ | .starting _ _ | .spawning _ _ | .exited => False

/-- The place of a thread after all that wait on `c` were notified. -/
def Place.wakeAll (c : Condition) : Place α → Place α
  | .waiting k c' => if c' = c then .notified k else .waiting k c'
  | p => p

/-- The condition that the loop of the call waits on. -/
def waitsFor : Call α → ThreadPool τ α → Option Condition
  | .run _, p => if p.isFull then some .notFull_ else none
  | .take _, p => if p.isEmpty && p.running_ == false then some .notEmpty_ else none
  | .stop, _ | .isFull, _ | .isEmpty, _ => none

/-- Where the call goes once it has the mutex. -/
def entered : Call α → Place α
  | .run task => .testing (.run task)
  | .take inLoop => .testing (.take inLoop)
  | .stop => .acting .stop
  | .isFull => .acting .isFull
  | .isEmpty => .acting .isEmpty

/-- The call after its loop, and where it goes. -/
def body : Call α → ThreadPool τ α → Outcome (ThreadPool τ α × Place α)
  | .run task, p => pure (p.push_back task, .leaving .user)
  | .take inLoop, p => do
    let (p, task) ← p.take
    pure (p, .leaving (if inLoop then .loop task else .user))
  | .stop, p => pure ({ p with running_ := false }, .joining 0)
  | .isFull, p | .isEmpty, p => pure (p, .leaving .user)

def notice : Call α → ThreadPool τ α → Notice Condition
  | .run _, _ => .one .notEmpty_
  | .take _, p => if p.running_ then .one .notFull_ else .none
  | .stop, _ => .all .notEmpty_
  | .isFull, _ | .isEmpty, _ => .none

/-- What a thread does that released the mutex. -/
def leave : After α → ThreadPool τ α → ThreadPool τ α × Place α
  | .user, p => (p, .free)
  | .loop none, p => (p, .loop)
  | .loop (some task), p => (p.execute task, if task.func.isSome then .free else .loop)

/-! ## The specs of the calls -/

/-- The call of a task only records it. -/
theorem execute.spec (task : Task α) (p : ThreadPool τ α) :
    ∃ done, p.execute task = { p with executed := p.executed ++ done } ∧
      (done = [] ∨ done = [task.number]) := by
  unfold execute
  split
  · exact ⟨[task.number], rfl, Or.inr rfl⟩
  · exact ⟨[], by rw [List.append_nil], Or.inl rfl⟩

/-- `take` gives the front of a deque while the pool runs, and `NULL` after. -/
theorem take.spec {p p' : ThreadPool τ α} {task : Option (Task α)} (h : p.take = .ok (p', task)) :
    (p.running_ = true ∧ ∃ front tasks, p.tasks_ = front :: tasks ∧ task = some front ∧
      p' = { p with tasks_ := tasks, dequeued := p.dequeued ++ [front.number] }) ∨
    (p.running_ = false ∧ task = none ∧ p' = p) := by
  unfold take at h
  split at h
  · rename_i hrun
    split at h
    · cases h
    · rename_i front tasks htasks
      cases h
      exact Or.inl ⟨hrun, front, tasks, htasks, rfl, rfl⟩
  · rename_i hrun
    cases h
    exact Or.inr ⟨by simpa using hrun, rfl, rfl⟩

/-- What a call does once it passed its loop. -/
theorem body.spec {k : Call α} {pool pool' : ThreadPool τ α} {p : Place α}
    (h : body k pool = .ok (pool', p)) :
    (∃ task, k = .run task ∧ pool' = pool.push_back task ∧ p = .leaving .user) ∨
    (∃ inLoop task, k = .take inLoop ∧ pool.take = .ok (pool', task) ∧
      p = .leaving (if inLoop then .loop task else .user)) ∨
    (k = .stop ∧ pool' = { pool with running_ := false } ∧ p = .joining 0) ∨
    (pool' = pool ∧ p = .leaving .user) := by
  cases k with
  | run task =>
    cases h
    exact Or.inl ⟨task, rfl, rfl, rfl⟩
  | take inLoop =>
    simp only [body, bind_eq_ok] at h
    obtain ⟨⟨pool₁, task⟩, htake, h⟩ := h
    cases h
    exact Or.inr (Or.inl ⟨inLoop, task, rfl, htake, rfl⟩)
  | stop =>
    cases h
    exact Or.inr (Or.inr (Or.inl ⟨rfl, rfl, rfl⟩))
  | isFull | isEmpty =>
    cases h
    exact Or.inr (Or.inr (Or.inr ⟨rfl, rfl⟩))

/-- A call ends with an unlock, and the one of `stop` with the joins. -/
theorem body.place {k : Call α} {pool pool' : ThreadPool τ α} {p : Place α}
    (h : body k pool = .ok (pool', p)) :
    (∃ r, p = .leaving r) ∨ (k = .stop ∧ p = .joining 0) := by
  rcases body.spec h with ⟨_, _, _, e⟩ | ⟨_, _, _, _, e⟩ | ⟨hk, _, e⟩ | ⟨_, e⟩
  · exact Or.inl ⟨_, e⟩
  · exact Or.inl ⟨_, e⟩
  · exact Or.inr ⟨hk, e⟩
  · exact Or.inl ⟨_, e⟩

/-- What a thread does that released the mutex: it can execute a task. -/
theorem leave.spec (r : After α) (pool : ThreadPool τ α) :
    ((leave r pool).2 = .free ∨ (leave r pool).2 = .loop) ∧
      ∃ done, (leave r pool).1 = { pool with executed := pool.executed ++ done } ∧
        (done = [] ∨ ∃ task, r = .loop (some task) ∧ done = [task.number]) := by
  have hsame : pool = { pool with executed := pool.executed ++ [] } := by rw [List.append_nil]
  cases r with
  | user => exact ⟨Or.inl rfl, [], hsame, Or.inl rfl⟩
  | loop task =>
    cases task with
    | none => exact ⟨Or.inr rfl, [], hsame, Or.inl rfl⟩
    | some task =>
      obtain ⟨done, he, hd⟩ := execute.spec task pool
      refine ⟨?_, done, he, hd.imp_right fun e => ⟨task, rfl, e⟩⟩
      simp only [leave]
      split
      · exact Or.inl rfl
      · exact Or.inr rfl

/-! ## The steps -/

/-- The threads at their places, and the pool between them. The `Thread`s in
`joined` have their `joined_` set. -/
structure Threads (τ α : Type) where
  holder : Option τ
  pool : ThreadPool τ α
  joined : List τ
  place : τ → Place α

namespace Threads

variable [DecidableEq τ]

def go (t : τ) (p : Place α) (s : Threads τ α) : Threads τ α :=
  { s with place := Function.update s.place t p }

/-- The mutex is free, or it is one that its holder can lock again. -/
def Grants (reentrant : Bool) (t : τ) (s : Threads τ α) : Prop :=
  s.holder = none ∨ reentrant = true ∧ s.holder = some t

/-- What a notice does to the places. -/
def Told : Notice Condition → (τ → Place α) → (τ → Place α) → Prop
  | .none, p, p' => p' = p
  | .one c, p, p' =>
    (∃ u k, p u = .waiting k c ∧ p' = Function.update p u (.notified k)) ∨
      (∀ u k, p u ≠ .waiting k c) ∧ p' = p
  | .all c, p, p' => p' = fun u => (p u).wakeAll c

inductive Act (τ α : Type)
  | run (t : τ) (func : Option α)
  | call (t : τ) (k : Call α)
  | loop (t : τ)
  | lock (t : τ)
  | test (t : τ)
  | body (t : τ)
  | join (t : τ)
  | unlock (t : τ)
  | finish (t : τ)
  | wake (t : τ)
  | start (t : τ) (n : Int)
  | arm (t : τ)
  | push (t u : τ)
  | spawn (t : τ)
  | setMaxTasks (t : τ) (maxTasks : Int)
  deriving DecidableEq, Repr

/-- The thread that takes the step. -/
def Act.thread : Act τ α → τ
  | .run t _ | .call t _ | .loop t | .lock t | .test t | .body t | .join t | .unlock t | .finish t
  | .wake t | .start t _ | .arm t | .push t _ | .spawn t | .setMaxTasks t _ => t

/-- A step of one thread. A test of a loop locks the mutex a second time, and a
wait can end without a notice. A worker leaves its task at `finish`. -/
inductive Step (reentrant : Bool) (s : Threads τ α) : Act τ α → Threads τ α → Prop
  | runAtOnce {t : τ} {func : Option α} : s.place t = .free → s.pool.threads_ = [] →
    Step reentrant s (.run t func)
      { s with pool := { s.pool with runs := s.pool.runs + 1 }.execute ⟨s.pool.runs, func⟩ }
  | run {t : τ} {func : Option α} : s.place t = .free → s.pool.threads_ ≠ [] →
    Step reentrant s (.run t func)
      { s.go t (.locking (.run ⟨s.pool.runs, func⟩)) with
        pool := { s.pool with runs := s.pool.runs + 1 } }
  | call {t : τ} {k : Call α} : s.place t = .free → k ∈ [.take false, .stop, .isFull, .isEmpty] →
    Step reentrant s (.call t k) (s.go t (.locking k))
  -- the `while(running_)` of `runInThread`, which reads the flag without the mutex
  | loop {t : τ} : s.place t = .loop → s.pool.running_ = true →
    Step reentrant s (.loop t) (s.go t (.locking (.take true)))
  | exit {t : τ} : s.place t = .loop → s.pool.running_ = false →
    Step reentrant s (.loop t) (s.go t .exited)
  | lock {t : τ} {k : Call α} : s.place t = .locking k ∨ s.place t = .notified k →
    s.Grants reentrant t →
    Step reentrant s (.lock t) { s.go t (entered k) with holder := some t }
  | wait {t : τ} {k : Call α} {c : Condition} : s.place t = .testing k → s.Grants reentrant t →
    waitsFor k s.pool = some c →
    Step reentrant s (.test t) { s.go t (.waiting k c) with holder := none }
  | pass {t : τ} {k : Call α} : s.place t = .testing k → s.Grants reentrant t →
    waitsFor k s.pool = none → Step reentrant s (.test t) (s.go t (.acting k))
  | body {t : τ} {k : Call α} {pool : ThreadPool τ α} {p : Place α} {places : τ → Place α} :
    s.place t = .acting k → ThreadPool.body k s.pool = .ok (pool, p) →
    Told (notice k s.pool) s.place places →
    Step reentrant s (.body t) ({ s with pool := pool, place := places }.go t p)
  -- the loop of `stop`: the asserts of `join`, and a join of itself returns at once
  | join {t u : τ} {i : Nat} : s.place t = .joining i → s.pool.threads_[i]? = some u →
    s.place u ≠ .unstarted → u ∉ s.joined →
    Step reentrant s (.join t) { s.go t (.awaiting i) with joined := s.joined ++ [u] }
  | joined {t u : τ} {i : Nat} : s.place t = .awaiting i → s.pool.threads_[i]? = some u →
    s.place u = .exited ∨ u = t → Step reentrant s (.join t) (s.go t (.joining (i + 1)))
  | stopped {t : τ} {i : Nat} : s.place t = .joining i → s.pool.threads_[i]? = none →
    Step reentrant s (.join t) (s.go t (.leaving .user))
  | unlock {t : τ} {r : After α} : s.place t = .leaving r →
    Step reentrant s (.unlock t)
      { s.go t (leave r s.pool).2 with pool := (leave r s.pool).1, holder := none }
  | finish {t : τ} : s.place t = .free → t ∈ s.pool.threads_ →
    Step reentrant s (.finish t) (s.go t .loop)
  | wake {t : τ} {k : Call α} {c : Condition} : s.place t = .waiting k c →
    Step reentrant s (.wake t) (s.go t (.notified k))
  -- `start`: its assert, the flag, and for each worker `push_back` and `Thread::start`
  | start {t : τ} {n : Int} : s.place t = .free → s.pool.threads_ = [] →
    Step reentrant s (.start t n) (s.go t (.arming n))
  | arm {t : τ} {n : Int} : s.place t = .arming n →
    Step reentrant s (.arm t)
      { s.go t (.starting 0 n) with pool := { s.pool with running_ := true } }
  | push {t u : τ} {i : Nat} {n : Int} : s.place t = .starting i n → i < n →
    s.place u = .unstarted → u ∉ s.pool.threads_ →
    Step reentrant s (.push t u)
      { s.go t (.spawning i n) with
        pool := { s.pool with threads_ := s.pool.threads_ ++ [u] } }
  | spawn {t u : τ} {i : Nat} {n : Int} : s.place t = .spawning i n →
    s.pool.threads_[i]? = some u → s.place u = .unstarted →
    Step reentrant s (.spawn t) ((s.go u .loop).go t (.starting (i + 1) n))
  -- `pthread_create` failed
  | spawnFails {t u : τ} {i : Nat} {n : Int} : s.place t = .spawning i n →
    s.pool.threads_[i]? = some u → s.place u = .unstarted →
    Step reentrant s (.spawn t) (s.go t (.starting (i + 1) n))
  | started {t : τ} {i : Nat} {n : Int} : s.place t = .starting i n → n ≤ i →
    Step reentrant s (.spawn t) (s.go t .free)
  | setMaxTasks {t : τ} {maxTasks : Int} : s.place t = .free →
    Step reentrant s (.setMaxTasks t maxTasks)
      { s with pool := { s.pool with maxTasks_ := maxTasks } }

omit [DecidableEq τ] in
/-- A new pool, with the threads that are there. The others can become workers. -/
def new (there : τ → Bool) : Threads τ α where
  holder := none
  pool := construct
  joined := []
  place t := if there t then .free else .unstarted

/-- All the interleavings of the threads, where the mutex is one that its holder
can lock again or one that it cannot. -/
def machine (reentrant : Bool) : Machine (Threads τ α) (Act τ α) where
  init s := ∃ there, s = new there
  step := Step reentrant

/-! ## What a step does to the other threads -/

variable {r : Bool} {s s' : Threads τ α} {a : Act τ α} {t u : τ}

@[simp] theorem go_self (s : Threads τ α) (p : Place α) : (s.go t p).place t = p :=
  Function.update_self ..

theorem go_other (s : Threads τ α) {p : Place α} (h : u ≠ t) : (s.go t p).place u = s.place u :=
  Function.update_of_ne h ..

/-- What happens to a thread in the step of another one. -/
inductive Stirred : Place α → Place α → Prop
  | same (p : Place α) : Stirred p p
  | notified (k : Call α) (c : Condition) : Stirred (.waiting k c) (.notified k)
  | spawned : Stirred .unstarted .loop

omit [DecidableEq τ] in
/-- Only a thread that waits or has not started is stirred. -/
theorem Stirred.kept {p p' : Place α} (h : Stirred p p') (hwaits : ∀ k c, p ≠ .waiting k c)
    (hstarted : p ≠ .unstarted) : p' = p := by
  cases h with
  | same => rfl
  | notified k c => exact absurd rfl (hwaits k c)
  | spawned => exact absurd rfl hstarted

omit [DecidableEq τ] in
theorem stirred_wakeAll (c : Condition) (p : Place α) : Stirred p (p.wakeAll c) := by
  unfold Place.wakeAll
  split
  · split
    · exact .notified _ _
    · exact .same _
  · exact .same p

theorem Told.stirred {n : Notice Condition} {p p' : τ → Place α} (h : Told n p p') (u : τ) :
    Stirred (p u) (p' u) := by
  cases n with
  | none =>
    rw [show p' = p from h]
    exact .same _
  | one c =>
    rcases h with ⟨v, k, hv, rfl⟩ | ⟨_, rfl⟩
    · by_cases huv : u = v
      · subst huv
        rw [hv, Function.update_self]
        exact .notified k c
      · rw [Function.update_of_ne huv]
        exact .same _
    · exact .same _
  | all c =>
    rw [show p' = fun u => (p u).wakeAll c from h]
    exact stirred_wakeAll c (p u)

/-- A step moves its own thread. It can notify others, and spawn one. -/
theorem Step.stirred (h : Step r s a s') (hu : u ≠ a.thread) :
    Stirred (s.place u) (s'.place u) := by
  cases h with
  | runAtOnce | setMaxTasks => exact .same _
  | run | call | loop | exit | lock | wait | pass | join | joined | stopped | unlock | finish | wake
  | start | arm | push | spawnFails | started =>
    simp only [Act.thread] at hu
    change Stirred (s.place u) (Function.update s.place _ _ u)
    rw [Function.update_of_ne hu]
    exact .same _
  | body _ _ htold =>
    simp only [Act.thread] at hu
    rw [go_other _ hu]
    exact htold.stirred u
  | @spawn t v i n _ _ hv =>
    simp only [Act.thread] at hu
    rw [go_other _ hu]
    by_cases huv : u = v
    · subst huv
      rw [hv, go_self]
      exact .spawned
    · rw [go_other _ huv]
      exact .same _

/-! ## Mutual exclusion -/

/-- The threads that have the mutex are its holder, so one at most. -/
def Exclusive (s : Threads τ α) : Prop := ∀ t, (s.place t).Holds ↔ s.holder = some t

omit [DecidableEq τ] in
theorem Stirred.holds_iff {p p' : Place α} (h : Stirred p p') : p'.Holds ↔ p.Holds := by
  cases h <;> exact Iff.rfl

omit [DecidableEq τ] in
theorem entered_holds (k : Call α) : (entered k).Holds := by
  cases k <;> trivial

omit [DecidableEq τ] in
theorem body_holds {k : Call α} {pool pool' : ThreadPool τ α} {p : Place α}
    (h : body k pool = .ok (pool', p)) : p.Holds := by
  rcases body.spec h with ⟨_, _, _, rfl⟩ | ⟨_, _, _, _, rfl⟩ | ⟨_, _, rfl⟩ | ⟨_, rfl⟩ <;> trivial

omit [DecidableEq τ] in
theorem leave_not_holds (r : After α) (pool : ThreadPool τ α) : ¬ (leave r pool).2.Holds := by
  rcases (leave.spec r pool).1 with e | e
  · rw [e]
    exact id
  · rw [e]
    exact id

omit [DecidableEq τ] in
/-- Two threads that have the mutex are the same. -/
theorem Exclusive.unique (h : s.Exclusive) (ht : (s.place t).Holds) (hu : (s.place u).Holds) :
    u = t := by
  have h1 := (h t).mp ht
  have h2 := (h u).mp hu
  rw [h1] at h2
  exact (Option.some.inj h2).symm

/-- A step keeps the mutex as it is, takes it or releases it. -/
theorem Step.holder_cases (h : Step r s a s') :
    (s'.holder = s.holder ∧ ((s'.place a.thread).Holds ↔ (s.place a.thread).Holds)) ∨
    (s.Grants r a.thread ∧ s'.holder = some a.thread ∧ (s'.place a.thread).Holds) ∨
    ((s.place a.thread).Holds ∧ s'.holder = none ∧ ¬ (s'.place a.thread).Holds) := by
  cases h with
  | runAtOnce | setMaxTasks => exact Or.inl ⟨rfl, Iff.rfl⟩
  | run ht | call ht | loop ht | exit ht | pass ht | join ht | joined ht | stopped ht | finish ht
  | wake ht | start ht | arm ht | push ht | spawn ht | spawnFails ht | started ht =>
    refine Or.inl ⟨rfl, ?_⟩
    simp [Act.thread, go, ht, Place.Holds]
  | lock _ hg =>
    refine Or.inr (Or.inl ⟨hg, rfl, ?_⟩)
    simp [Act.thread, go, entered_holds]
  | wait ht =>
    refine Or.inr (Or.inr ⟨?_, rfl, ?_⟩)
    · simp [Act.thread, ht, Place.Holds]
    · simp [Act.thread, go, Place.Holds]
  | body ht hb =>
    refine Or.inl ⟨rfl, ?_⟩
    simp only [Act.thread, go_self, ht]
    exact iff_of_true (body_holds hb) trivial
  | unlock ht =>
    refine Or.inr (Or.inr ⟨?_, rfl, ?_⟩)
    · simp [Act.thread, ht, Place.Holds]
    · simp [Act.thread, go, leave_not_holds]

theorem Step.exclusive (h : Step r s a s') (hs : s.Exclusive) : s'.Exclusive := by
  intro u
  by_cases hu : u = a.thread
  · subst hu
    rcases h.holder_cases with ⟨he, hh⟩ | ⟨_, he, hh⟩ | ⟨_, he, hh⟩
    · rw [he, hh]
      exact hs _
    · exact iff_of_true hh he
    · rw [he]
      exact iff_of_false hh (by simp)
  · rw [(h.stirred hu).holds_iff, hs u]
    rcases h.holder_cases with ⟨he, _⟩ | ⟨hg, he, _⟩ | ⟨hh, he, _⟩
    · rw [he]
    · -- the mutex was free or its own
      rw [he]
      rcases hg with hfree | ⟨_, hown⟩
      · simp [hfree, Ne.symm hu]
      · rw [hown]
    · rw [he, (hs _).mp hh]
      simp [Ne.symm hu]

omit [DecidableEq τ] in
theorem new_place (there : τ → Bool) (t : τ) :
    (new there : Threads τ α).place t = .free ∨ (new there : Threads τ α).place t = .unstarted := by
  by_cases h : there t = true
  · exact Or.inl (if_pos h)
  · exact Or.inr (if_neg h)

omit [DecidableEq τ] in
theorem new_exclusive (there : τ → Bool) : (new there : Threads τ α).Exclusive := by
  intro t
  have hplace : (new there : Threads τ α).place t = _ ∨ _ := new_place there t
  refine iff_of_false ?_ (by simp [new])
  rcases hplace with e | e
  · rw [e]
    exact id
  · rw [e]
    exact id

/-! ## A worker in `take` -/

/-- A pool that is starting, whose one worker is about to lock the mutex. -/
def firstTake : Threads Bool Unit where
  holder := none
  pool := { (construct : ThreadPool Bool Unit) with running_ := true, threads_ := [true] }
  joined := []
  place t := if t then .locking (.take true) else .starting 1 1

theorem reachable_firstTake (reentrant : Bool) : (machine reentrant).Reachable firstTake := by
  have h0 : (machine reentrant).Reachable (new (· == false) : Threads Bool Unit) :=
    .start ⟨_, rfl⟩
  have h1 := h0.next (Step.start (t := false) (n := 1) rfl rfl)
  have h2 := h1.next (Step.arm (t := false) rfl)
  have h3 := h2.next (Step.push (t := false) (u := true) rfl (by decide) rfl (by decide))
  have h4 := h3.next (Step.spawn (t := false) (u := true) rfl rfl rfl)
  have h5 := h4.next (Step.loop (t := true) rfl rfl)
  convert h5 using 1
  unfold firstTake
  congr 1
  funext t
  cases t <;> rfl

/-! ## What a step changes -/

/-- The workers, the flag and the deque stay. -/
structure Still (p p' : ThreadPool τ α) : Prop where
  running : p'.running_ = p.running_
  threads : p'.threads_ = p.threads_
  tasks : p'.tasks_ = p.tasks_
  enqueued : p'.enqueued = p.enqueued
  dequeued : p'.dequeued = p.dequeued

omit [DecidableEq τ] in
theorem Still.execute {p p' : ThreadPool τ α} (h : Still p p') (task : Task α) :
    Still p (p'.execute task) := by
  obtain ⟨done, he, _⟩ := execute.spec task p'
  rw [he]
  exact ⟨h.running, h.threads, h.tasks, h.enqueued, h.dequeued⟩

omit [DecidableEq τ] in
theorem leave_still (r : After α) (p : ThreadPool τ α) : Still p (leave r p).1 := by
  obtain ⟨_, done, he, _⟩ := leave.spec r p
  rw [he]
  exact ⟨rfl, rfl, rfl, rfl, rfl⟩

/-- A step leaves the pool still, or it is the body of a call, or it is one of a
`start` that sets the flag or adds a worker. -/
theorem Step.pool_cases (h : Step r s a s') :
    Still s.pool s'.pool ∨
    (∃ k p, s.place a.thread = .acting k ∧ ThreadPool.body k s.pool = .ok (s'.pool, p)) ∨
    s'.pool = { s.pool with running_ := true } ∨
    ∃ u, s'.place u = .unstarted ∧
      s'.pool = { s.pool with threads_ := s.pool.threads_ ++ [u] } := by
  cases h with
  | runAtOnce =>
    refine Or.inl (Still.execute ?_ _)
    exact ⟨rfl, rfl, rfl, rfl, rfl⟩
  | body ht hb => exact Or.inr (Or.inl ⟨_, _, ht, hb⟩)
  | unlock => exact Or.inl (leave_still _ s.pool)
  | arm => exact Or.inr (Or.inr (Or.inl rfl))
  | @push t u i n ht _ hu _ =>
    refine Or.inr (Or.inr (Or.inr ⟨u, ?_, rfl⟩))
    have hne : u ≠ t := by
      rintro rfl
      rw [ht] at hu
      cases hu
    exact (go_other s hne).trans hu
  | _ => exact Or.inl ⟨rfl, rfl, rfl, rfl, rfl⟩

/-- Only the body of a call changes the deque. -/
theorem Step.tasks_eq (h : Step r s a s') (hno : ∀ k, s.place a.thread ≠ .acting k) :
    s'.pool.tasks_ = s.pool.tasks_ := by
  rcases h.pool_cases with hstill | ⟨k, _, ht, _⟩ | e | ⟨_, _, e⟩
  · exact hstill.tasks
  · exact absurd ht (hno k)
  · rw [e]
  · rw [e]

/-- Only `stop` ends the running. -/
theorem Step.running_off (h : Step r s a s') (hoff : s'.pool.running_ = false) :
    s.pool.running_ = false ∨ s.place a.thread = .acting .stop := by
  rcases h.pool_cases with hstill | ⟨k, _, ht, hb⟩ | e | ⟨_, _, e⟩
  · exact Or.inl (hstill.running ▸ hoff)
  · rcases body.spec hb with ⟨_, _, e, _⟩ | ⟨_, _, _, htake, _⟩ | ⟨rfl, _, _⟩ | ⟨e, _⟩
    · rw [e] at hoff
      exact Or.inl hoff
    · rcases take.spec htake with ⟨_, _, _, _, _, e⟩ | ⟨hoff', _, _⟩
      · rw [e] at hoff
        exact Or.inl hoff
      · exact Or.inl hoff'
    · exact Or.inr ht
    · exact Or.inl (e ▸ hoff)
  · rw [e] at hoff
    cases hoff
  · rw [e] at hoff
    exact Or.inl hoff

/-- A step adds no worker, or one that has not started. -/
theorem Step.threads_cases (h : Step r s a s') :
    s'.pool.threads_ = s.pool.threads_ ∨
      ∃ u, s'.place u = .unstarted ∧ s'.pool.threads_ = s.pool.threads_ ++ [u] := by
  rcases h.pool_cases with hstill | ⟨k, _, _, hb⟩ | e | ⟨u, hu, e⟩
  · exact Or.inl hstill.threads
  · refine Or.inl ?_
    rcases body.spec hb with ⟨_, _, e, _⟩ | ⟨_, _, _, htake, _⟩ | ⟨_, e, _⟩ | ⟨e, _⟩
    · rw [e]
      rfl
    · rcases take.spec htake with ⟨_, _, _, _, _, e⟩ | ⟨_, _, e⟩ <;> rw [e]
    · rw [e]
    · rw [e]
  · exact Or.inl (by rw [e])
  · exact Or.inr ⟨u, hu, by rw [e]⟩

end Threads

end ThreadPool

end jmuduo
