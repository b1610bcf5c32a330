-- The laws of the mutex of a pool, where its holder cannot lock it again: which
-- steps make a thread wait for itself, or for a worker that waits for it.
import Jmuduo.ThreadPool

open outcome runs monitors

namespace jmuduo.ThreadPool

variable {τ α : Type}

/-- A thread at the place has to get the mutex before it can come to its end. -/
def Place.Needs (p : Place α) : Prop := p.Locks ∨ ∃ k c, p = .waiting k c

/-- The loop of the call locks the mutex again. -/
def Call.Loops : Call α → Prop
  | .run _ | .take _ => True
  | .stop | .isFull | .isEmpty => False

namespace Threads

variable [DecidableEq τ] {r : Bool} {s s' : Threads τ α} {a : Act τ α} {t u : τ}

/-! ## What a pool should not do -/

omit [DecidableEq τ] in
/-- No thread wants the mutex that it has, and none that has it joins a worker that
still has to get it. -/
structure Untangled (s : Threads τ α) : Prop where
  relocks : ∀ t, (s.place t).Locks → s.holder ≠ some t
  joins : ∀ t i u, s.place t = .awaiting i → s.pool.threads_[i]? = some u →
    s.holder = some t → ¬ (s.place u).Needs

omit [DecidableEq τ] in
/-- A `stop` is in the join of the thread. -/
def Awaited (s : Threads τ α) (u : τ) : Prop :=
  ∃ t i, s.place t = .awaiting i ∧ s.pool.threads_[i]? = some u

omit [DecidableEq τ] in
/-- No `run` and no `take` gets the mutex. A `stop` joins no worker that has to get
it, and none that it joins makes a call. -/
def Apart (s : Threads τ α) : Act τ α → Prop
  | .lock t => ∀ k, s.place t = .locking k ∨ s.place t = .notified k → ¬ k.Loops
  | .join t => ∀ i u, s.place t = .joining i → s.pool.threads_[i]? = some u →
    ¬ (s.place u).Needs
  | .run t _ | .call t _ => ¬ s.Awaited t
  | .loop t => s.pool.running_ = true → ¬ s.Awaited t
  | _ => True

/-! ## The steps into a wait for the mutex -/

omit [DecidableEq τ] in
theorem entered_eq (k : Call α) :
    k.Loops ∧ entered k = .testing k ∨ ¬ k.Loops ∧ entered k = .acting k := by
  cases k with
  | run | take => exact Or.inl ⟨trivial, rfl⟩
  | stop | isFull | isEmpty => exact Or.inr ⟨id, rfl⟩

omit [DecidableEq τ] in
/-- A thread that has the mutex wants it again only at the loop of a call. -/
theorem relocks_iff (h : s.Exclusive) :
    (∀ t, (s.place t).Locks → s.holder ≠ some t) ↔ ∀ t k, s.place t ≠ .testing k := by
  constructor
  · intro hno t k ht
    refine hno t ?_ ((h t).mp ?_)
    · rw [ht]
      trivial
    · rw [ht]
      trivial
  · intro hno t hlocks hown
    have hholds := (h t).mpr hown
    cases hp : s.place t with
    | testing k => exact hno t k hp
    | locking | notified =>
      rw [hp] at hholds
      exact hholds
    | unstarted | free | loop | waiting | acting | joining | awaiting | leaving | arming | starting
    | spawning | exited =>
      rw [hp] at hlocks
      exact hlocks

/-- A step into the loop of a call is a lock. -/
theorem Step.to_testing (h : Step r s a s') {k : Call α} (hp : s'.place a.thread = .testing k) :
    ∃ t, a = .lock t ∧ k.Loops ∧ (s.place t = .locking k ∨ s.place t = .notified k) := by
  cases h with
  | @lock t k' ht =>
    simp only [Act.thread, go_self] at hp
    rcases entered_eq k' with ⟨hl, e⟩ | ⟨_, e⟩
    · rw [e] at hp
      cases hp
      exact ⟨t, rfl, hl, ht⟩
    · rw [e] at hp
      cases hp
  | runAtOnce ht | setMaxTasks ht => simp [Act.thread, ht] at hp
  | body _ hb =>
    simp only [Act.thread, go_self] at hp
    rcases body.place hb with ⟨_, rfl⟩ | ⟨_, rfl⟩ <;> cases hp
  | unlock =>
    simp only [Act.thread, go_self] at hp
    rcases (leave.spec _ s.pool).1 with e | e <;> rw [e] at hp <;> cases hp
  | _ => simp [Act.thread] at hp

/-- A thread comes to need the mutex by a call. -/
theorem Step.to_needs (h : Step r s a s') (hp : (s'.place a.thread).Needs) :
    (s.place a.thread).Needs ∨ (∃ t func, a = .run t func) ∨ (∃ t k, a = .call t k) ∨
      ∃ t, a = .loop t ∧ s.pool.running_ = true := by
  cases h with
  | runAtOnce | setMaxTasks => exact Or.inl hp
  | run => exact Or.inr (Or.inl ⟨_, _, rfl⟩)
  | call => exact Or.inr (Or.inr (Or.inl ⟨_, _, rfl⟩))
  | loop _ hrun => exact Or.inr (Or.inr (Or.inr ⟨_, rfl, hrun⟩))
  | lock ht =>
    refine Or.inl (Or.inl ?_)
    rcases ht with ht | ht <;> simp only [Act.thread, ht] <;> trivial
  | wait ht | pass ht =>
    refine Or.inl (Or.inl ?_)
    simp only [Act.thread, ht]
    trivial
  | wake ht => exact Or.inl (Or.inr ⟨_, _, ht⟩)
  | body _ hb =>
    simp only [Act.thread, go_self] at hp
    rcases body.place hb with ⟨_, rfl⟩ | ⟨_, rfl⟩ <;> simp [Place.Needs, Place.Locks] at hp
  | unlock =>
    simp only [Act.thread, go_self] at hp
    rcases (leave.spec _ s.pool).1 with e | e <;> rw [e] at hp <;>
      simp [Place.Needs, Place.Locks] at hp
  | exit | join | joined | stopped | finish | start | arm | push | spawn | spawnFails | started =>
    simp [Act.thread, Place.Needs, Place.Locks] at hp

theorem Step.to_awaiting (h : Step r s a s') {i : Nat} (hp : s'.place a.thread = .awaiting i) :
    ∃ t, a = .join t ∧ s.place t = .joining i ∧ s'.pool = s.pool ∧
      ∀ u, u ≠ t → s'.place u = s.place u := by
  cases h with
  | @join t v j ht =>
    simp only [Act.thread, go_self] at hp
    cases hp
    exact ⟨t, rfl, ht, rfl, fun u hu => go_other s hu⟩
  | runAtOnce ht | setMaxTasks ht => simp [Act.thread, ht] at hp
  | @lock t k ht =>
    simp only [Act.thread, go_self] at hp
    rcases entered_eq k with ⟨_, e⟩ | ⟨_, e⟩ <;> rw [e] at hp <;> cases hp
  | body _ hb =>
    simp only [Act.thread, go_self] at hp
    rcases body.place hb with ⟨_, rfl⟩ | ⟨_, rfl⟩ <;> cases hp
  | unlock =>
    simp only [Act.thread, go_self] at hp
    rcases (leave.spec _ s.pool).1 with e | e <;> rw [e] at hp <;> cases hp
  | _ => simp [Act.thread] at hp

/-! ## The steps that tangle -/

omit [DecidableEq τ] in
theorem Stirred.needs {p p' : Place α} (h : Stirred p p') (hp : p'.Needs) : p.Needs := by
  cases h with
  | same => exact hp
  | notified k c => exact Or.inr ⟨k, c, rfl⟩
  | spawned =>
    rcases hp with hp | ⟨_, _, hp⟩
    · exact hp.elim
    · cases hp

omit [DecidableEq τ] in
theorem Stirred.from_holds {p p' : Place α} (h : Stirred p p') (hp : p'.Holds) : p' = p := by
  cases h with
  | same => rfl
  | notified | spawned => exact hp.elim

/-- The worker at an index stays, or it is a new one that has not started. -/
theorem Step.worker_at (h : Step r s a s') {i : Nat} (hi : s'.pool.threads_[i]? = some u) :
    s.pool.threads_[i]? = some u ∨ s'.place u = .unstarted := by
  rcases h.threads_cases with e | ⟨v, hv, e⟩
  · rw [e] at hi
    exact Or.inl hi
  · rw [e, List.getElem?_append] at hi
    split at hi
    · exact Or.inl hi
    · rw [List.getElem?_singleton] at hi
      split at hi
      · cases hi
        exact Or.inr hv
      · cases hi

theorem Step.untangled (h : Step r s a s') (he : s.Exclusive) (hs : s.Untangled)
    (ha : s.Apart a) : s'.Untangled := by
  refine ⟨(relocks_iff (h.exclusive he)).mpr ?_, ?_⟩
  · intro v k hv
    by_cases hva : v = a.thread
    · subst hva
      obtain ⟨t, rfl, hl, ht⟩ := h.to_testing hv
      exact ha k ht hl
    · have hold := (h.stirred hva).from_holds (by rw [hv]; trivial)
      rw [hv] at hold
      exact (relocks_iff he).mp hs.relocks v k hold.symm
  · intro v i w hv hi _ hneeds
    by_cases hva : v = a.thread
    · -- the join begins
      subst hva
      obtain ⟨t, rfl, ht, hpool, hsame⟩ := h.to_awaiting hv
      rw [hpool] at hi
      by_cases hwt : w = t
      · subst hwt
        rw [show s'.place w = _ from hv] at hneeds
        rcases hneeds with hn | ⟨_, _, hn⟩
        · exact hn
        · cases hn
      · rw [hsame w hwt] at hneeds
        exact ha i w ht hi hneeds
    · have hold := (h.stirred hva).from_holds (by rw [hv]; trivial)
      rw [hv] at hold
      have hawaits := hold.symm
      rcases h.worker_at hi with hi' | hnew
      · have hno := hs.joins v i w hawaits hi' ((he v).mp (by rw [hawaits]; trivial))
        have hawaited : s.Awaited w := ⟨v, i, hawaits, hi'⟩
        by_cases hwa : w = a.thread
        · subst hwa
          rcases h.to_needs hneeds with hn | ⟨t, func, rfl⟩ | ⟨t, k, rfl⟩ | ⟨t, rfl, hrun⟩
          · exact hno hn
          · exact ha hawaited
          · exact ha hawaited
          · exact ha hrun hawaited
        · exact hno ((h.stirred hwa).needs hneeds)
      · rw [hnew] at hneeds
        rcases hneeds with hn | ⟨_, _, hn⟩
        · exact hn
        · cases hn

omit [DecidableEq τ] in
theorem Untangled.not_awaited (h : s.Untangled) (he : s.Exclusive) (hn : (s.place t).Needs) :
    ¬ s.Awaited t := by
  rintro ⟨u, i, hu, hi⟩
  exact h.joins u i t hu hi ((he u).mp (by rw [hu]; trivial)) hn

/-- A thread stays awaited in a step of its own that is no join. -/
theorem Awaited.step {p : Place α} (h : s.Awaited t) (ht : ∀ i, s.place t ≠ .awaiting i) :
    (s.go t p).Awaited t := by
  obtain ⟨u, i, hu, hi⟩ := h
  refine ⟨u, i, ?_, hi⟩
  rw [go_other _ ?_]
  · exact hu
  · rintro rfl
    exact ht i hu

theorem Step.apart (h : Step r s a s') (he : s.Exclusive) (hs' : s'.Untangled) : s.Apart a := by
  have he' := h.exclusive he
  cases a with
  | lock t =>
    intro k ht hl
    cases h with
    | @lock t k' hk _ =>
      have hkk : k' = k := by
        rcases hk with hk | hk <;> rcases ht with ht | ht <;> rw [ht] at hk <;> cases hk <;> rfl
      subst hkk
      refine (relocks_iff he').mp hs'.relocks t k' ?_
      rcases entered_eq k' with ⟨_, e⟩ | ⟨hno, _⟩
      · rw [← e]
        exact go_self ..
      · exact absurd hl hno
  | join t =>
    intro i u ht hi hneeds
    have hut : u ≠ t := by
      rintro rfl
      rw [ht] at hneeds
      rcases hneeds with hn | ⟨_, _, hn⟩
      · exact hn
      · cases hn
    cases h with
    | join hj =>
      rw [ht] at hj
      cases hj
      refine hs'.joins t i u (go_self ..) hi ((he' t).mp ?_) ?_
      · rw [show (Threads.place _ t) = .awaiting i from go_self ..]
        trivial
      · rw [show (Threads.place _ u) = s.place u from go_other _ hut]
        exact hneeds
    | joined hj =>
      rw [ht] at hj
      cases hj
    | stopped hj hnone =>
      rw [ht] at hj
      cases hj
      rw [hi] at hnone
      cases hnone
  | run t func =>
    intro haw
    cases h with
    | runAtOnce _ hempty =>
      obtain ⟨_, _, _, hi⟩ := haw
      rw [hempty] at hi
      cases hi
    | run ht =>
      refine hs'.not_awaited he' ?_ (haw.step (by simp [ht]))
      exact Or.inl (by rw [go_self]; trivial)
  | call t k =>
    intro haw
    cases h with
    | call ht =>
      refine hs'.not_awaited he' ?_ (haw.step (by simp [ht]))
      rw [go_self]
      exact Or.inl trivial
  | loop t =>
    intro hrun haw
    cases h with
    | loop ht =>
      refine hs'.not_awaited he' ?_ (haw.step (by simp [ht]))
      rw [go_self]
      exact Or.inl trivial
    | exit _ hoff =>
      rw [hrun] at hoff
      cases hoff
  | test | body | unlock | finish | wake | start | arm | push | spawn | setMaxTasks => trivial

/-! ## The law -/

omit [DecidableEq τ] in
theorem new_untangled (there : τ → Bool) : (new there : Threads τ α).Untangled := by
  constructor
  · intro t _ hown
    cases hown
  · intro t i u _ hi
    cases hi

/-- The runs in which no thread wants the mutex that it has, and none joins a worker
that has to get its mutex, are those in which `run` and `take` never get it, and a
`stop` joins no worker that calls the pool. -/
theorem no_thread_waits_for_itself_iff_none_loops (there : τ → Bool) (as : List (Act τ α))
    (s : Threads τ α) :
    ((machine false).restrict fun s a _ => s.Apart a).Run (new there) as s ↔
      ((machine false).restrict fun _ _ s' => s'.Untangled).Run (new there) as s := by
  refine Machine.Run.good_iff (P := Exclusive) (new_exclusive there) (new_untangled there) ?_ ?_
  · intro s a s' he hst
    exact Step.exclusive hst he
  · intro s a s' he hs hst
    exact ⟨Step.apart hst he, Step.untangled hst he hs⟩

/-- A worker calls `take`, gets the mutex and asks for it again in `isEmpty`. Or it
calls `take`, and a `stop` that got the mutex first joins it. -/
theorem a_worker_waits_for_itself :
    (∃ s : Threads Bool Unit, (machine false).Reachable s ∧
      s.place true = .testing (.take true) ∧ s.holder = some true ∧ ¬ s.Untangled) ∧
    ∃ s : Threads Bool Unit, (machine false).Reachable s ∧
      s.place false = .awaiting 0 ∧ s.holder = some false ∧ s.pool.threads_ = [true] ∧
      s.place true = .locking (.take true) ∧ ¬ s.Untangled := by
  have h0 := reachable_firstTake false
  constructor
  · have h1 := h0.next (Step.lock (t := true) (Or.inl rfl) (Or.inl rfl))
    refine ⟨_, h1, rfl, rfl, fun hs => ?_⟩
    exact hs.relocks true trivial rfl
  · have h1 := h0.next (Step.started (t := false) rfl (by decide))
    have h2 := h1.next (Step.call (t := false) (k := .stop) rfl (by simp))
    have h3 := h2.next (Step.lock (t := false) (Or.inl rfl) (Or.inl rfl))
    have h4 := h3.next (Step.body (t := false) rfl rfl rfl)
    have h5 := h4.next
      (Step.join (t := false) (u := true) rfl rfl (fun h => by cases h) (List.not_mem_nil))
    refine ⟨_, h5, rfl, rfl, rfl, rfl, fun hs => ?_⟩
    exact hs.joins false 0 true rfl rfl rfl (Or.inl trivial)

end Threads

end jmuduo.ThreadPool
