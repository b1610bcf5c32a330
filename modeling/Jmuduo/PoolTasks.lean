-- The laws of the tasks of a pool whose mutex its holder can lock again: a worker
-- waits exactly while it is idle, in the runs in which none of them idles.
import Jmuduo.ThreadPool
import Jmuduo.Tickets

open outcome runs monitors tickets

namespace jmuduo.ThreadPool

variable {τ α : Type}

/-! ## The numbers of the tasks -/

def Call.number : Call α → Option Nat
  | .run task => some task.number
  | .take _ | .stop | .isFull | .isEmpty => none

/-- The number of the task that a thread puts in the deque or executes next. -/
def Place.number : Place α → Option Nat
  | .locking k | .testing k | .waiting k _ | .notified k | .acting k => k.number
  | .leaving (.loop task) => task.map Task.number
  | .leaving .user | .unstarted | .free | .loop | .joining _ | .awaiting _ | .arming _
  | .starting _ _ | .spawning _ _ | .exited => none

/-- The numbers of the tasks in the deque. -/
def queued (p : ThreadPool τ α) : List Nat := p.tasks_.map Task.number

/-- The tasks are dequeued in the order in which they were enqueued. -/
def InOrder (p : ThreadPool τ α) : Prop := p.dequeued ++ p.queued = p.enqueued

/-- A `stop` at the place joins the workers. -/
def Place.Joins (p : Place α) : Prop := ∃ i, p = .joining i ∨ p = .awaiting i

/-- A thread at the place is in `take`, before it returns. -/
def Place.Takes : Place α → Prop
  | .locking (.take _) | .testing (.take _) | .waiting (.take _) _ | .notified (.take _)
  | .acting (.take _) => True
  | _ => False

theorem Place.Takes.cases {p : Place α} (h : p.Takes) : ∃ inLoop,
    p = .locking (.take inLoop) ∨ p = .testing (.take inLoop) ∨
      (∃ c, p = .waiting (.take inLoop) c) ∨ p = .notified (.take inLoop) ∨
      p = .acting (.take inLoop) := by
  unfold Place.Takes at h
  split at h
  · exact ⟨_, Or.inl rfl⟩
  · exact ⟨_, Or.inr (Or.inl rfl)⟩
  · exact ⟨_, Or.inr (Or.inr (Or.inl ⟨_, rfl⟩))⟩
  · exact ⟨_, Or.inr (Or.inr (Or.inr (Or.inl rfl)))⟩
  · exact ⟨_, Or.inr (Or.inr (Or.inr (Or.inr rfl)))⟩
  · exact h.elim

namespace Threads

variable [DecidableEq τ] {r : Bool} {s s' : Threads τ α} {a : Act τ α} {t u : τ}

omit [DecidableEq τ] in
def hand (s : Threads τ α) (t : τ) : Option Nat := (s.place t).number

omit [DecidableEq τ] in
/-- Every number of a `run` is in one place at most: at a thread, in the deque, or
among the executed ones. -/
def Numbered (s : Threads τ α) : Prop :=
  Tickets s.pool.runs s.hand (s.pool.queued ++ s.pool.executed)

omit [DecidableEq τ] in
theorem Stirred.number_eq {p p' : Place α} (h : Stirred p p') : p'.number = p.number := by
  cases h <;> rfl

omit [DecidableEq τ] in
theorem entered_number (k : Call α) : (entered k).number = k.number := by
  cases k <;> rfl

omit [DecidableEq τ] in
/-- A body moves the number of its task into the deque, or one out of it. -/
theorem body_numbers {k : Call α} {pool pool' : ThreadPool τ α} {p : Place α}
    (h : ThreadPool.body k pool = .ok (pool', p)) :
    pool'.runs = pool.runs ∧ (pool.InOrder → pool'.InOrder) ∧
      (p.number.toList ++ (pool'.queued ++ pool'.executed)).Subperm
        (k.number.toList ++ (pool.queued ++ pool.executed)) := by
  rcases body.spec h with ⟨task, rfl, rfl, rfl⟩ | ⟨inLoop, task, rfl, htake, rfl⟩ |
    ⟨rfl, rfl, rfl⟩ | ⟨rfl, rfl⟩
  · refine ⟨rfl, ?_, List.Perm.subperm ?_⟩
    · intro ho
      unfold InOrder queued push_back at *
      simp [← ho]
    · simp [Place.number, Call.number, queued, push_back]
  · rcases take.spec htake with ⟨_, front, tasks, htasks, rfl, rfl⟩ | ⟨_, rfl, rfl⟩
    · refine ⟨rfl, ?_, List.Sublist.subperm ?_⟩
      · intro ho
        unfold InOrder queued at *
        simp [← ho, htasks]
      · cases inLoop <;> simp [Place.number, Call.number, queued, htasks]
    · refine ⟨rfl, id, List.Sublist.subperm ?_⟩
      cases inLoop <;> simp [Place.number]
  · exact ⟨rfl, id, List.Subperm.refl _⟩
  · exact ⟨rfl, id, (List.sublist_append_right _ _).subperm⟩

/-- A step of a thread keeps some of the numbers in its reach. `run` adds a new
one. -/
theorem Step.numbers (h : Step r s a s') : ∃ new : List Nat,
    s.pool.runs ≤ s'.pool.runs ∧ (∀ n ∈ new, s.pool.runs ≤ n ∧ n < s'.pool.runs) ∧ new.Nodup ∧
    (Tickets.reach s'.hand (s'.pool.queued ++ s'.pool.executed) a.thread).Subperm
      (new ++ Tickets.reach s.hand (s.pool.queued ++ s.pool.executed) a.thread) := by
  cases h with
  | @runAtOnce t func ht _ =>
    obtain ⟨done, he, hd⟩ :=
      execute.spec ⟨s.pool.runs, func⟩ { s.pool with runs := s.pool.runs + 1 }
    refine ⟨[s.pool.runs], by simp [he], by simp [he], List.nodup_singleton _, ?_⟩
    simp only [he, Tickets.reach, hand, Act.thread, ht, Place.number, queued, Option.toList_none,
      List.nil_append, List.singleton_append]
    rcases hd with rfl | rfl
    · rw [List.append_nil]
      exact (List.sublist_cons_self _ _).subperm
    · rw [← List.append_assoc]
      exact (List.perm_append_singleton _ _).subperm
  | @run t func ht _ =>
    refine ⟨[s.pool.runs], by simp, by simp, List.nodup_singleton _, ?_⟩
    simp only [Tickets.reach, hand, Act.thread, go_self, ht, Place.number, Call.number]
    exact List.Subperm.refl _
  | setMaxTasks => exact ⟨[], Nat.le_refl _, by simp, List.nodup_nil, List.Subperm.refl _⟩
  | call ht hk =>
    refine ⟨[], Nat.le_refl _, by simp, List.nodup_nil, ?_⟩
    simp only [List.mem_cons, List.not_mem_nil, or_false] at hk
    simp only [Tickets.reach, hand, Act.thread, go_self, ht, Place.number]
    rcases hk with rfl | rfl | rfl | rfl <;> exact List.Subperm.refl _
  | loop ht | exit ht | pass ht | join ht | joined ht | stopped ht | finish ht
  | wake ht | start ht | arm ht | push ht | spawn ht | spawnFails ht | started ht | wait ht =>
    refine ⟨[], Nat.le_refl _, by simp, List.nodup_nil, ?_⟩
    simp only [Tickets.reach, hand, Act.thread, go_self, ht, Place.number]
    exact List.Subperm.refl _
  | @lock t k ht =>
    refine ⟨[], Nat.le_refl _, by simp, List.nodup_nil, ?_⟩
    have hsame : (s.place t).number = k.number := by
      rcases ht with ht | ht <;> rw [ht] <;> rfl
    simp only [Tickets.reach, hand, Act.thread, go_self, hsame, entered_number]
    exact List.Subperm.refl _
  | @body t k pool p places ht hb =>
    obtain ⟨hruns, _, hsub⟩ := body_numbers hb
    refine ⟨[], Nat.le_of_eq hruns.symm, by simp, List.nodup_nil, ?_⟩
    simp only [Tickets.reach, hand, Act.thread, go_self, ht]
    exact hsub
  | @unlock t r ht =>
    obtain ⟨hp, done, he, hd⟩ := leave.spec r s.pool
    have hnone : (leave r s.pool).2.number = none := by
      rcases hp with e | e <;> rw [e] <;> rfl
    refine ⟨[], by simp [he], by simp, List.nodup_nil, ?_⟩
    simp only [Tickets.reach, hand, Act.thread, go_self, ht, hnone, he, queued,
      Option.toList_none, List.nil_append]
    rcases hd with rfl | ⟨task, rfl, rfl⟩
    · rw [List.append_nil]
      exact (List.sublist_append_right _ _).subperm
    · rw [← List.append_assoc]
      exact (List.perm_append_singleton _ _).subperm

theorem Step.numbered (h : Step r s a s') (hs : s.Numbered) : s'.Numbered := by
  obtain ⟨new, hle, hnew, hnodup, hsub⟩ := h.numbers
  exact hs.move (fun u hu => (h.stirred hu).number_eq) hle hnew hnodup hsub

theorem Step.inOrder (h : Step r s a s') (hs : s.pool.InOrder) : s'.pool.InOrder := by
  unfold InOrder queued at *
  rcases h.pool_cases with hstill | ⟨k, p, _, hb⟩ | e | ⟨_, _, e⟩
  · rw [hstill.tasks, hstill.enqueued, hstill.dequeued]
    exact hs
  · exact (body_numbers hb).2.1 hs
  · rw [e]
    exact hs
  · rw [e]
    exact hs

/-! ## What the workers do -/

omit [DecidableEq τ] in
/-- A `stop` joins the workers. It has the mutex. -/
def Stops (s : Threads τ α) : Prop := ∃ t, (s.place t).Joins

omit [DecidableEq τ] in
/-- A thread is blocked in `take`: it waits for a task, or for the mutex of a `stop`
that joins. -/
def Blocked (s : Threads τ α) (t : τ) : Prop :=
  ∃ inLoop, s.place t = .waiting (.take inLoop) .notEmpty_ ∨
    s.Stops ∧ (s.place t = .locking (.take inLoop) ∨ s.place t = .notified (.take inLoop))

omit [DecidableEq τ] in
/-- What the pool is for: `take` pops no empty deque, a worker waits only while it
is idle, none is blocked after a `stop`, and every task is executed at most once and
in its order. -/
structure Behaves (s : Threads τ α) : Prop where
  pops : ∀ t inLoop, s.place t = .acting (.take inLoop) → s.pool.running_ = true →
    s.pool.tasks_ ≠ []
  waits : ∀ t ∈ s.pool.threads_, ∀ inLoop, s.place t = .waiting (.take inLoop) .notEmpty_ →
    s.pool.tasks_ = [] ∧ s.pool.running_ = true
  exits : s.pool.running_ = false → ∀ t ∈ s.pool.threads_, ¬ s.Blocked t
  once : s.pool.executed.Nodup
  inOrder : s.pool.InOrder

omit [DecidableEq τ] in
/-- No `take` meets an empty deque, unless another thread than a worker calls it in
a pool that does not run. A `stop` finds no worker in `take`, and while it joins no
worker calls `take` in its task. -/
def Orderly (s : Threads τ α) : Act τ α → Prop
  | .test t => ∀ inLoop, s.place t = .testing (.take inLoop) →
    s.pool.tasks_ ≠ [] ∨ s.pool.running_ = false ∧ t ∉ s.pool.threads_
  | .body t => s.place t = .acting .stop → ∀ u ∈ s.pool.threads_, ¬ (s.place u).Takes
  | .call t k => k = .take false → t ∈ s.pool.threads_ → s.pool.running_ = false → ¬ s.Stops
  | _ => True

/-! ## The invariant of an orderly run -/

omit [DecidableEq τ] in
/-- In an orderly run no worker waits in `take`, and none wants the mutex for it
while a `stop` joins. -/
structure Calm (s : Threads τ α) : Prop where
  pops : ∀ t inLoop, s.place t = .acting (.take inLoop) → s.pool.tasks_ ≠ []
  waits : ∀ t ∈ s.pool.threads_, ∀ inLoop c, s.place t ≠ .waiting (.take inLoop) c
  exits : s.pool.running_ = false → s.Stops → ∀ t ∈ s.pool.threads_, ∀ inLoop,
    s.place t ≠ .locking (.take inLoop) ∧ s.place t ≠ .notified (.take inLoop)

omit [DecidableEq τ] in
theorem Calm.behaves (h : s.Calm) (hn : s.Numbered) (ho : s.pool.InOrder) : s.Behaves where
  pops t inLoop ht _ := h.pops t inLoop ht
  waits t hmem inLoop ht := absurd ht (h.waits t hmem inLoop _)
  exits hoff t hmem := by
    rintro ⟨inLoop, ht | ⟨hstops, ht | ht⟩⟩
    · exact h.waits t hmem inLoop _ ht
    · exact (h.exits hoff hstops t hmem inLoop).1 ht
    · exact (h.exits hoff hstops t hmem inLoop).2 ht
  once := (List.nodup_append'.mp hn.once).2.1
  inOrder := ho

/-! ## The steps into `take` -/

omit [DecidableEq τ] in
theorem waitsFor_take_none {inLoop : Bool} {pool : ThreadPool τ α}
    (h : waitsFor (.take inLoop) pool = none) (hempty : pool.tasks_ = []) :
    pool.running_ = true := by
  by_contra hoff
  simp [waitsFor, isEmpty, hempty, hoff] at h

omit [DecidableEq τ] in
theorem waitsFor_take_some {inLoop : Bool} {pool : ThreadPool τ α} {c : Condition}
    (h : waitsFor (.take inLoop) pool = some c) :
    c = .notEmpty_ ∧ pool.tasks_ = [] ∧ pool.running_ = false := by
  simp only [waitsFor] at h
  split at h
  · rename_i hc
    simp only [isEmpty, Bool.and_eq_true, List.isEmpty_iff, beq_iff_eq] at hc
    exact ⟨(Option.some.inj h).symm, hc⟩
  · cases h

/-- A step into `take` is a call, or it is one of the loop of a worker that runs, a
lock, a test or the end of a wait. -/
theorem Step.takes_cases (h : Step r s a s') (hp : (s'.place a.thread).Takes) : ∃ inLoop,
    (s'.place a.thread = .locking (.take inLoop) ∧
      ((∃ t, a = .call t (.take false)) ∨ s'.pool.running_ = true)) ∨
    s'.place a.thread = .testing (.take inLoop) ∨
    (∃ t, a = .test t ∧ s.place t = .testing (.take inLoop) ∧ s'.pool = s.pool ∧
      (s'.place t = .acting (.take inLoop) ∧ waitsFor (.take inLoop) s.pool = none ∨
        ∃ c, s'.place t = .waiting (.take inLoop) c ∧
          waitsFor (.take inLoop) s.pool = some c)) ∨
    (s'.place a.thread = .notified (.take inLoop) ∧
      ∃ c, s.place a.thread = .waiting (.take inLoop) c) := by
  cases h with
  | runAtOnce ht | setMaxTasks ht => simp [Act.thread, ht, Place.Takes] at hp
  | run | exit | join | joined | stopped | finish | start | arm | push | spawn | spawnFails
  | started => simp [Act.thread, go, Place.Takes] at hp
  | @call t k _ hk =>
    simp only [List.mem_cons, List.not_mem_nil, or_false] at hk
    rcases hk with rfl | rfl | rfl | rfl
    · exact ⟨false, Or.inl ⟨go_self .., Or.inl ⟨t, rfl⟩⟩⟩
    · simp [Act.thread, Place.Takes] at hp
    · simp [Act.thread, Place.Takes] at hp
    · simp [Act.thread, Place.Takes] at hp
  | loop _ hrun => exact ⟨true, Or.inl ⟨go_self .., Or.inr hrun⟩⟩
  | @lock t k _ _ =>
    cases k with
    | take inLoop => exact ⟨inLoop, Or.inr (Or.inl (go_self ..))⟩
    | run | stop | isFull | isEmpty => simp [Act.thread, go, entered, Place.Takes] at hp
  | @wait t k c ht _ hw =>
    cases k with
    | take inLoop =>
      exact ⟨inLoop, Or.inr (Or.inr (Or.inl ⟨t, rfl, ht, rfl, Or.inr ⟨c, go_self .., hw⟩⟩))⟩
    | run | stop | isFull | isEmpty => simp [Act.thread, go, Place.Takes] at hp
  | @pass t k ht _ hw =>
    cases k with
    | take inLoop =>
      exact ⟨inLoop, Or.inr (Or.inr (Or.inl ⟨t, rfl, ht, rfl, Or.inl ⟨go_self .., hw⟩⟩))⟩
    | run | stop | isFull | isEmpty => simp [Act.thread, Place.Takes] at hp
  | body _ hb =>
    simp only [Act.thread, go_self] at hp
    rcases body.place hb with ⟨_, rfl⟩ | ⟨_, rfl⟩ <;> exact hp.elim
  | unlock =>
    simp only [Act.thread, go_self] at hp
    rcases (leave.spec _ s.pool).1 with e | e <;> rw [e] at hp <;> exact hp.elim
  | @wake t k c ht =>
    cases k with
    | take inLoop => exact ⟨inLoop, Or.inr (Or.inr (Or.inr ⟨go_self .., c, ht⟩))⟩
    | run | stop | isFull | isEmpty => simp [Act.thread, Place.Takes] at hp

omit [DecidableEq τ] in
theorem Stirred.joins {p p' : Place α} (h : Stirred p p') (hj : p'.Joins) : p.Joins := by
  cases h with
  | same => exact hj
  | notified | spawned =>
    obtain ⟨i, e | e⟩ := hj <;> cases e

/-- A thread comes to a join from the one before, or from the body of `stop`. -/
theorem Step.to_joins (h : Step r s a s') (hj : (s'.place a.thread).Joins) :
    (s.place a.thread).Joins ∨ s.place a.thread = .acting .stop := by
  cases h with
  | join ht => exact Or.inl ⟨_, Or.inl ht⟩
  | joined ht => exact Or.inl ⟨_, Or.inr ht⟩
  | runAtOnce ht | setMaxTasks ht => simp [Act.thread, ht, Place.Joins] at hj
  | body ht hb =>
    simp only [Act.thread, go_self] at hj
    rcases body.place hb with ⟨_, rfl⟩ | ⟨rfl, _⟩
    · simp [Place.Joins] at hj
    · exact Or.inr ht
  | unlock =>
    simp only [Act.thread, go_self] at hj
    rcases (leave.spec _ s.pool).1 with e | e <;> rw [e] at hj <;> simp [Place.Joins] at hj
  | @lock t k =>
    cases k <;> simp [Act.thread, go, entered, Place.Joins] at hj
  | _ => simp [Act.thread, go, Place.Joins] at hj

/-- A step lets a `stop` join only when it is its body. -/
theorem Step.stops (h : Step r s a s') (hs : s'.Stops) :
    s.Stops ∨ s.place a.thread = .acting .stop := by
  obtain ⟨u, hj⟩ := hs
  by_cases hu : u = a.thread
  · subst hu
    exact (h.to_joins hj).imp_left fun hj => ⟨_, hj⟩
  · exact Or.inl ⟨u, (h.stirred hu).joins hj⟩

/-! ## The steps of an orderly run -/

omit [DecidableEq τ] in
/-- A thread that another one stirred into `take` was there before. -/
theorem Stirred.takes {p p' : Place α} (h : Stirred p p') (hp : p'.Takes) :
    p' = p ∨ ∃ inLoop c, p = .waiting (.take inLoop) c := by
  cases h with
  | same => exact Or.inl rfl
  | notified k c =>
    cases k with
    | take inLoop => exact Or.inr ⟨inLoop, c, rfl⟩
    | run | stop | isFull | isEmpty => exact hp.elim
  | spawned => exact hp.elim

/-- Where a thread is in `take` after a step of another one, and does not wait,
it was there before. -/
theorem Step.kept_take (h : Step r s a s') (hu : u ≠ a.thread) (hp : (s'.place u).Takes)
    (hno : ∀ inLoop c, s.place u ≠ .waiting (.take inLoop) c) : s'.place u = s.place u := by
  rcases (h.stirred hu).takes hp with e | ⟨inLoop, c, e⟩
  · exact e
  · exact absurd e (hno inLoop c)

theorem Step.body_of_acting (h : Step r s a s') {k : Call α} (ht : s.place a.thread = .acting k) :
    a = .body a.thread := by
  cases h with
  | body => rfl
  | lock hl => rcases hl with hl | hl <;> simp [Act.thread, hl] at ht
  | runAtOnce hl | run hl | call hl | loop hl | exit hl | wait hl | pass hl | join hl | joined hl
  | stopped hl | unlock hl | finish hl | wake hl | start hl | arm hl | push hl | spawn hl
  | spawnFails hl | started hl | setMaxTasks hl => simp [Act.thread, hl] at ht

/-- A worker that is past its start was one before the step. -/
theorem Step.worker (h : Step r s a s') (hu : u ∈ s'.pool.threads_)
    (hp : s'.place u ≠ .unstarted) : u ∈ s.pool.threads_ := by
  rcases h.threads_cases with e | ⟨v, hv, e⟩
  · rwa [← e]
  · rw [e, List.mem_append, List.mem_singleton] at hu
    rcases hu with hu | rfl
    · exact hu
    · exact absurd hv hp

theorem Step.calm_pops (h : Step r s a s') (he : s.Exclusive) (hc : s.Calm) (ho : s.Orderly a)
    {inLoop : Bool} (hu : s'.place u = .acting (.take inLoop)) : s'.pool.tasks_ ≠ [] := by
  have htakes : (s'.place u).Takes := by rw [hu]; trivial
  by_cases hut : u = a.thread
  · subst hut
    obtain ⟨inLoop, ⟨hl, _⟩ | hl | ⟨t, rfl, ht, hpool, ⟨_, hw⟩ | ⟨c, hl, _⟩⟩ | ⟨hl, _⟩⟩ :=
      h.takes_cases htakes
    · rw [hl] at hu
      cases hu
    · rw [hl] at hu
      cases hu
    · rw [hpool]
      rcases ho inLoop ht with hne | ⟨hoff, _⟩
      · exact hne
      · intro hempty
        rw [waitsFor_take_none hw hempty] at hoff
        cases hoff
    · rw [show (Act.test t : Act τ α).thread = t from rfl, hl] at hu
      cases hu
    · rw [hl] at hu
      cases hu
  · have hold : s.place u = .acting (.take inLoop) := by
      rcases (h.stirred hut).takes htakes with e | ⟨b, c, e⟩
      · rw [← e, hu]
      · have hstir := h.stirred hut
        rw [hu, e] at hstir
        cases hstir
    have hno : ∀ k, s.place a.thread ≠ .acting k := by
      intro k hk
      exact hut (he.unique (by rw [hk]; trivial) (by rw [hold]; trivial))
    rw [h.tasks_eq hno]
    exact hc.pops u inLoop hold

theorem Step.calm_waits (h : Step r s a s') (hc : s.Calm) (ho : s.Orderly a)
    (hmem : u ∈ s'.pool.threads_) {inLoop : Bool} {c : Condition}
    (hu : s'.place u = .waiting (.take inLoop) c) : False := by
  have htakes : (s'.place u).Takes := by rw [hu]; trivial
  have hmem' : u ∈ s.pool.threads_ := h.worker hmem (by rw [hu]; simp)
  by_cases hut : u = a.thread
  · subst hut
    obtain ⟨inLoop, ⟨hl, _⟩ | hl | ⟨t, rfl, ht, _, ⟨hl, _⟩ | ⟨c, _, hw⟩⟩ | ⟨hl, _⟩⟩ :=
      h.takes_cases htakes
    · rw [hl] at hu
      cases hu
    · rw [hl] at hu
      cases hu
    · rw [show (Act.test t : Act τ α).thread = t from rfl, hl] at hu
      cases hu
    · -- it found the deque empty
      rcases ho inLoop ht with hne | ⟨_, hout⟩
      · exact hne (waitsFor_take_some hw).2.1
      · exact hout hmem'
    · rw [hl] at hu
      cases hu
  · rw [h.kept_take hut htakes (hc.waits u hmem')] at hu
    exact hc.waits u hmem' inLoop c hu

theorem Step.calm_exits (h : Step r s a s') (hc : s.Calm) (ho : s.Orderly a)
    (hoff : s'.pool.running_ = false) (hstops : s'.Stops) (hmem : u ∈ s'.pool.threads_)
    {inLoop : Bool}
    (hu : s'.place u = .locking (.take inLoop) ∨ s'.place u = .notified (.take inLoop)) :
    False := by
  have htakes : (s'.place u).Takes := by rcases hu with hu | hu <;> rw [hu] <;> trivial
  have hmem' : u ∈ s.pool.threads_ :=
    h.worker hmem (by rcases hu with hu | hu <;> rw [hu] <;> simp)
  by_cases hut : u = a.thread
  · subst hut
    obtain ⟨b, ⟨hl, ⟨t, rfl⟩ | hrun⟩ | hl | ⟨t, rfl, ht, _, ⟨hl, _⟩ | ⟨c, hl, _⟩⟩ | ⟨_, c, hl⟩⟩ :=
      h.takes_cases htakes
    · -- a worker calls `take` in its task
      have hfree : s.place t = .free := by
        cases h with
        | call ht => exact ht
      have hno : s.place (Act.call t (.take false) : Act τ α).thread ≠ .acting .stop := by
        rw [show (Act.call t (.take false) : Act τ α).thread = t from rfl, hfree]
        simp
      exact ho rfl hmem' ((h.running_off hoff).resolve_right hno)
        ((h.stops hstops).resolve_right hno)
    · rw [hrun] at hoff
      cases hoff
    · rcases hu with hu | hu <;> rw [hl] at hu <;> cases hu
    · rw [show (Act.test t : Act τ α).thread = t from rfl, hl] at hu
      rcases hu with hu | hu <;> cases hu
    · rw [show (Act.test t : Act τ α).thread = t from rfl, hl] at hu
      rcases hu with hu | hu <;> cases hu
    · exact hc.waits _ hmem' b c hl
  · have hkept := h.kept_take hut htakes (hc.waits u hmem')
    rw [hkept] at hu htakes
    by_cases hstop : s.place a.thread = .acting .stop
    · -- the `stop` begins to join
      rw [h.body_of_acting hstop] at ho
      exact ho hstop u hmem' htakes
    · have hold := hc.exits ((h.running_off hoff).resolve_right hstop)
        ((h.stops hstops).resolve_right hstop) u hmem' inLoop
      rcases hu with hu | hu
      · exact hold.1 hu
      · exact hold.2 hu

theorem Step.calm (h : Step r s a s') (he : s.Exclusive) (hc : s.Calm) (ho : s.Orderly a) :
    s'.Calm where
  pops _ _ ht := h.calm_pops he hc ho ht
  waits _ hmem _ _ ht := h.calm_waits hc ho hmem ht
  exits hoff hstops _ hmem _ :=
    ⟨fun ht => h.calm_exits hc ho hoff hstops hmem (Or.inl ht),
      fun ht => h.calm_exits hc ho hoff hstops hmem (Or.inr ht)⟩

/-- A step to a state as it should be is orderly. -/
theorem Step.orderly (h : Step true s a s') (he : s.Exclusive) (hc : s.Calm) (hb : s'.Behaves) :
    s.Orderly a := by
  cases a with
  | test t =>
    intro inLoop ht
    by_contra hno
    simp only [ne_eq, not_or, not_and, not_not] at hno
    obtain ⟨hempty, hout⟩ := hno
    cases h with
    | @wait t k c hk _ hw =>
      rw [ht] at hk
      cases hk
      obtain ⟨rfl, _, hoff⟩ := waitsFor_take_some hw
      have hrun := (hb.waits t (hout hoff) inLoop (go_self ..)).2
      rw [show s.pool.running_ = true from hrun] at hoff
      cases hoff
    | @pass t k hk _ hw =>
      rw [ht] at hk
      cases hk
      exact hb.pops t inLoop (go_self ..) (waitsFor_take_none hw hempty) hempty
  | body t =>
    intro ht u hu htakes
    have hut : u ≠ t := by
      rintro rfl
      rw [ht] at htakes
      exact htakes
    have hstir := h.stirred (u := u) hut
    cases h with
    | @body t k pool p places hk hbody _ =>
      rw [ht] at hk
      cases hk
      cases hbody
      have hblocked : ∀ b, s.place u = .locking (.take b) ∨ s.place u = .notified (.take b) →
          False := by
        intro b hold
        refine hb.exits rfl u hu ⟨b, Or.inr ⟨⟨t, 0, Or.inl (go_self ..)⟩, ?_⟩⟩
        rcases hold with hold | hold
        · exact Or.inl ((hstir.kept (by simp [hold]) (by simp [hold])).trans hold)
        · exact Or.inr ((hstir.kept (by simp [hold]) (by simp [hold])).trans hold)
      have hholds : ¬ (s.place u).Holds := fun hh => hut (he.unique (by rw [ht]; trivial) hh)
      obtain ⟨b, e | e | ⟨c, e⟩ | e | e⟩ := htakes.cases
      · exact hblocked b (Or.inl e)
      · exact hholds (by rw [e]; trivial)
      · exact hc.waits u hu b c e
      · exact hblocked b (Or.inr e)
      · exact hholds (by rw [e]; trivial)
  | call t k =>
    intro hk hmem hoff hstops
    subst hk
    cases h with
    | call ht =>
      refine hb.exits hoff t hmem ⟨false, Or.inr ⟨?_, Or.inl (go_self ..)⟩⟩
      obtain ⟨u, hj⟩ := hstops
      refine ⟨u, ?_⟩
      rw [go_other _ ?_]
      · exact hj
      · rintro rfl
        rw [ht] at hj
        simp [Place.Joins] at hj
  | run | loop | lock | join | unlock | finish | wake | start | arm | push | spawn | setMaxTasks =>
    trivial

/-! ## The laws -/

omit [DecidableEq τ] in
theorem new_numbered (there : τ → Bool) : (new there : Threads τ α).Numbered := by
  refine Tickets.start fun t => ?_
  unfold hand
  rcases new_place there t with e | e <;> rw [e] <;> rfl

omit [DecidableEq τ] in
theorem new_calm (there : τ → Bool) : (new there : Threads τ α).Calm where
  pops t inLoop ht := by
    rcases new_place there t with e | e <;> rw [e] at ht <;> cases ht
  waits t hmem := by cases hmem
  exits _ _ t hmem := by cases hmem

/-- The runs in which `take` pops no empty deque, a worker waits only while it is
idle, none is blocked after a `stop`, and every task is executed at most once and in
its order, are the orderly runs. The last two hold in every run. -/
theorem the_workers_block_when_idle_iff_none_idles (there : τ → Bool) (as : List (Act τ α))
    (s : Threads τ α) :
    (((machine true).restrict fun s a _ => s.Orderly a).Run (new there) as s ↔
      ((machine true).restrict fun _ _ s' => s'.Behaves).Run (new there) as s) ∧
    ((machine true).Run (new there) as s → s.pool.executed.Nodup ∧ s.pool.InOrder) := by
  constructor
  · refine Machine.Run.restrict_iff
      (P := fun s => s.Exclusive ∧ s.Numbered ∧ s.pool.InOrder ∧ s.Calm)
      ⟨new_exclusive there, new_numbered there, rfl, new_calm there⟩ ?_ ?_
    · rintro s a s' ⟨he, hn, hin, hc⟩ hst
      constructor
      · intro ho
        exact (hst.calm he hc ho).behaves (hst.numbered hn) (hst.inOrder hin)
      · intro hb
        exact hst.orderly he hc hb
    · rintro s a s' ⟨he, hn, hin, hc⟩ hst ho
      exact ⟨hst.exclusive he, hst.numbered hn, hst.inOrder hin, hst.calm he hc ho⟩
  · intro h
    have hall : s.Numbered ∧ s.pool.InOrder := by
      refine h.keeps (P := fun s => s.Numbered ∧ s.pool.InOrder) ?_ ⟨new_numbered there, rfl⟩
      rintro s a s' ⟨hn, hin⟩ hst
      exact ⟨Step.numbered hst hn, Step.inOrder hst hin⟩
    exact ⟨(List.nodup_append'.mp hall.1.once).2.1, hall.2⟩

/-- A pool with one worker starts, and the worker comes to the front of a deque that
holds no task. -/
theorem a_worker_pops_an_empty_deque :
    ∃ s : Threads Bool Unit, (machine true).Reachable s ∧
      s.place true = .acting (.take true) ∧ s.pool.running_ = true ∧ s.pool.tasks_ = [] ∧
      s.pool.take = .error .outOfRange ∧ ¬ s.Behaves := by
  have h1 := (reachable_firstTake true).next (Step.lock (t := true) (Or.inl rfl) (Or.inl rfl))
  have h2 := h1.next (Step.pass (t := true) rfl (Or.inr ⟨rfl, rfl⟩) rfl)
  refine ⟨_, h2, rfl, rfl, rfl, rfl, fun hb => ?_⟩
  exact hb.pops true true rfl rfl rfl

end Threads

end jmuduo.ThreadPool
