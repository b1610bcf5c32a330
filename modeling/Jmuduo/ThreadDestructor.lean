-- When the destructor of a loop's thread returns. Its `quit` is kept once the
-- loop has begun, and lost when `loop` has still to clear `quit_`.
import Jmuduo.EventLoopThread

open runs monitors

namespace jmuduo.net

/-! ## A loop that was asked to quit -/

namespace EventLoop

variable {τ κ φ : Type} [DecidableEq τ] [DecidableEq κ]

/-- What the thread of the loop has to do at its place before it is outside,
when it does no more than it has to. -/
def toGo (l : EventLoop τ κ φ) : Nat :=
  match l.pc with
  | .outside | .entered => 0
  | .whileTest => 1
  | .functors => 2 + 2 * l.functors.length
  | .functor => 3 + 2 * l.functors.length
  | .flagged => 3 + 2 * l.pendingFunctors_.length
  | .handlers => 4 + 2 * l.pendingFunctors_.length + 2 * l.activeChannels_.length
  | .handler => 5 + 2 * l.pendingFunctors_.length + 2 * l.activeChannels_.length
  | .poll => 5 + 2 * l.pendingFunctors_.length

/-- A call that the thread of the loop is in counts as well. -/
def toReturn (l : EventLoop τ κ φ) : Nat :=
  2 * l.toGo + if l.phase l.threadId_ = .idle then 0 else 1

omit [DecidableEq κ] in
/-- The calls of a thread change nothing that the thread of the loop has to do. -/
theorem toGo_callReturns (l : EventLoop τ κ φ) (t : τ) : (l.callReturns t).toGo = l.toGo := by
  unfold callReturns
  split <;> rfl

omit [DecidableEq κ] in
theorem toReturn_callReturns_of_ne (l : EventLoop τ κ φ) {t : τ} (ht : t ≠ l.threadId_) :
    (l.callReturns t).toReturn = l.toReturn := by
  have hid : (l.callReturns t).threadId_ = l.threadId_ := by
    unfold callReturns
    split <;> rfl
  have hphase : (l.callReturns t).phase l.threadId_ = l.phase l.threadId_ := by
    unfold callReturns
    split <;> exact Function.update_of_ne (Ne.symm ht) _ _
  unfold toReturn
  rw [toGo_callReturns, hid, hphase]

/-- A step that the thread of the loop takes by itself. -/
def Act.Own (thread : τ) : Act τ κ φ → Prop
  | .queueInLoop _ _ | .quit _ | .loop | .clearQuit => False
  | .callReturns t => t = thread
  | _ => True

/-- A thread that was asked to quit can always go on, and has less to do then. -/
theorem exists_own_step {l : EventLoop τ κ φ} (hquit : l.quit_ = true) (hpc : l.pc ≠ .entered)
    (hbusy : l.pc ≠ .outside ∨ l.phase l.threadId_ ≠ .idle) :
    ∃ a : Act τ κ φ, a.Enabled l ∧ a.Own l.threadId_ ∧ (a.apply l).toReturn < l.toReturn := by
  by_cases hidle : l.phase l.threadId_ = .idle
  · have hin := hbusy.resolve_right (not_not_intro hidle)
    -- no step of the loop itself touches the calls of its thread
    have hless : ∀ l' : EventLoop τ κ φ, l'.threadId_ = l.threadId_ → l'.phase = l.phase →
        l'.toGo < l.toGo → l'.toReturn < l.toReturn := by
      intro l' hid hphase hlt
      unfold toReturn
      rw [hid, hphase]
      omega
    cases hat : l.pc with
    | outside => exact absurd hat hin
    | entered => exact absurd hat hpc
    | whileTest =>
      refine ⟨.whileTest, ⟨hat, hidle⟩, trivial, ?_⟩
      simp only [Act.apply, EventLoop.whileTest, hquit, if_true]
      exact hless _ rfl rfl (by simp [toGo, hat])
    | poll =>
      exact ⟨.poll [], ⟨hat, hidle⟩, trivial, hless _ rfl rfl (by simp [toGo, hat, Act.apply])⟩
    | handlers =>
      by_cases hnone : l.activeChannels_ = []
      · refine ⟨.doPendingFunctors_, ⟨⟨hat, hidle⟩, hnone⟩, trivial, hless _ rfl rfl ?_⟩
        simp only [toGo, hat, Act.apply]
        omega
      · obtain ⟨counter, pc, hnext, e⟩ := handleEvent.spec l
        refine ⟨.handleEvent, ⟨⟨hat, hidle⟩, hnone⟩, trivial, ?_⟩
        have hlen := List.length_pos_iff.mpr hnone
        simp only [Act.apply, e]
        refine hless _ rfl rfl ?_
        rcases hnext with rfl | rfl
        · simp only [toGo, hat, List.length_tail]
          omega
        · simp only [toGo, hat, List.length_tail]
          omega
    | handler =>
      exact ⟨.handlerReturns, ⟨hat, hidle⟩, trivial,
        hless _ rfl rfl (by simp [toGo, hat, Act.apply])⟩
    | flagged =>
      exact ⟨.swap, ⟨hat, hidle⟩, trivial, hless _ rfl rfl (by simp [toGo, hat, Act.apply])⟩
    | functors =>
      cases hf : l.functors with
      | nil =>
        refine ⟨.clearCalling, ⟨⟨hat, hidle⟩, hf⟩, trivial, hless _ rfl rfl ?_⟩
        simp only [toGo, hat, Act.apply]
        omega
      | cons f fs =>
        refine ⟨.callFunctor, ⟨⟨hat, hidle⟩, by simp [hf]⟩, trivial, ?_⟩
        simp only [Act.apply, EventLoop.callFunctor, hf]
        refine hless _ rfl rfl ?_
        simp only [toGo, hat, hf, List.length_cons]
        omega
    | functor =>
      exact ⟨.functorReturns, ⟨hat, hidle⟩, trivial,
        hless _ rfl rfl (by simp [toGo, hat, Act.apply])⟩
  · refine ⟨.callReturns l.threadId_, hidle, rfl, ?_⟩
    have hid : (l.callReturns l.threadId_).threadId_ = l.threadId_ := by
      unfold callReturns
      split <;> rfl
    simp only [Act.apply, toReturn, toGo_callReturns, hid, callReturns_phase, hidle, if_true,
      if_false]
    omega

end EventLoop

namespace EventLoopThread

variable {τ κ φ : Type} [DecidableEq τ] [DecidableEq κ] {owner thread : τ} {wakeChannel : κ}

/-! ## The quit of the destructor alone -/

/-- `loop` has yet to clear `quit_`. -/
def Early (s : EventLoopThread τ κ φ) : Prop :=
  s.func = .publishing ∨ ∃ l, s.loop = some l ∧ l.pc = .entered

/-- The destructor has not begun, and nobody has asked the loop to quit. -/
structure Running (s : EventLoopThread τ κ φ) : Prop where
  func : s.func ≠ .cleared ∧ s.func ≠ .ended
  quit : ∀ l ∈ s.loop, l.quit_ = false
  dangling : s.dangling = false

/-- The loop of a thread at the place `f` runs on: it has yet to clear
`quit_`, or has cleared it. -/
def Deaf (f : FuncPc) (l : EventLoop τ κ φ) : Prop :=
  f = .publishing ∨ f = .looping ∧ (l.pc = .entered ∨ l.pc ≠ .outside ∧ l.quit_ = false)

/-- The `quit` of the destructor is lost. -/
structure Lost (s : EventLoopThread τ κ φ) : Prop where
  owner : s.owner = .waking ∨ s.owner = .joining
  loop : ∃ l, s.loop = some l ∧ Deaf s.func l

/-- The loop is on its way out, or the destructor is over. -/
def Kept (s : EventLoopThread τ κ φ) : Prop :=
  s.owner = .destroyed ∨ ((s.owner = .waking ∨ s.owner = .joining) ∧
    (s.func = .cleared ∨ s.func = .ended ∨
      s.func = .looping ∧ ∃ l, s.loop = some l ∧ l.pc ≠ .entered ∧ l.quit_ = true))

/-- Before the destructor the loop runs, where nobody else asks it to quit. -/
theorem Running.step {s s' : EventLoopThread τ κ φ} {a : Act τ κ φ} (hinv : s.Inv owner thread)
    (h : s.owner ≠ .waking ∧ s.owner ≠ .joining ∧ s.owner ≠ .destroyed → s.Running)
    (hs : Step owner thread wakeChannel s a s') (hquit : ∀ t, a ≠ .loop (.quit t)) :
    s'.owner ≠ .waking ∧ s'.owner ≠ .joining ∧ s'.owner ≠ .destroyed → s'.Running := by
  intro hbefore
  cases hs with
  | @loop l a hl he hallow =>
    obtain ⟨⟨hcleared, hended⟩, hnoquit, hdangling⟩ := h hbefore
    refine ⟨?_, ?_, hdangling⟩
    · by_cases ha : a = .loop
      · subst ha
        exact ⟨by simp [funcAfter], by simp [funcAfter]⟩
      · simp only [funcAfter_of_ne ha]
        exact ⟨hcleared, hended⟩
    · intro l' hl'
      cases hl'
      rcases l.quit_apply a with ⟨⟨t, rfl⟩, _⟩ | ⟨_, e⟩ | ⟨_, _, e⟩
      · exact absurd rfl (hquit t)
      · exact e
      · exact e.trans (hnoquit l hl)
  | clear hf hl hat =>
    -- the loop has not returned, as nobody has asked it to
    obtain ⟨_, hnoquit, _⟩ := h hbefore
    have hleft := (hinv.loop _ hl).left hf hat.1
    rw [hnoquit _ hl] at hleft
    cases hleft
  | ends hf => exact absurd hf (h hbefore).func.1
  | construct hf =>
    obtain ⟨_, hnoquit, hdangling⟩ := h hbefore
    refine ⟨by simp, fun l hl => ?_, hdangling⟩
    cases hl
    rfl
  | start ho hstarted | startFails ho hstarted | startReturns ho hout =>
    obtain ⟨hfunc, hnoquit, hdangling⟩ := h (by simp [ho])
    exact ⟨by simp [hfunc], hnoquit, hdangling⟩
  | publish hf =>
    obtain ⟨_, hnoquit, hdangling⟩ := h hbefore
    exact ⟨by simp, hnoquit, hdangling⟩
  | inSection hcall hst =>
    obtain ⟨hfunc, hnoquit, hdangling⟩ := h hbefore
    exact ⟨hfunc, hnoquit, hdangling⟩
  | destroyLoop ho hidle hset =>
    obtain ⟨hfunc, hnoquit, hdangling⟩ := h (by rcases ho with e | ⟨p, e⟩ <;> simp [e])
    exact ⟨hfunc, hnoquit, hdangling⟩
  | destroyNull ho hidle hnull => simp [releaseThread] at hbefore
  | quit ho => simp [EventLoopThread.quit] at hbefore
  | quitReturns ho => simp [EventLoopThread.quitReturns] at hbefore
  | join ho hf hstarted hjoined => simp [releaseThread] at hbefore

theorem Deaf.apply {s : EventLoopThread τ κ φ} {l : EventLoop τ κ φ} {a : EventLoop.Act τ κ φ}
    (hat : LoopAt thread s.func l) (hallow : s.Allowed owner thread a) (he : a.Enabled l)
    (hquit : ∀ t, a ≠ .quit t) (h : Deaf s.func l) :
    Deaf (funcAfter s.func a) (a.apply l) := by
  rcases EventLoop.place_apply he with ⟨rfl, _, hpc, _⟩ | ⟨rfl, hq, _⟩ | ⟨⟨t, hcall⟩, hpc, _⟩ |
    ⟨ha, hclear, hin, hpc, _⟩
  · exact Or.inr ⟨rfl, Or.inl hpc⟩
  · -- the test would need a `quit_` that is set
    have hwhile : l.pc = .whileTest := he.1
    rcases h with hf | ⟨hf, hpc | ⟨_, hq'⟩⟩
    · have hout := hat.outside (by simp [hf])
      rw [hwhile] at hout
      cases hout
    · rw [hwhile] at hpc
      cases hpc
    · rw [hq] at hq'
      cases hq'
  · have ha : a ≠ .loop := by
      rintro rfl
      cases hcall
    have hsame : (a.apply l).quit_ = l.quit_ := by
      rcases l.quit_apply a with ⟨⟨u, e⟩, _⟩ | ⟨rfl, _⟩ | ⟨_, _, e⟩
      · exact absurd e (hquit u)
      · cases hcall
      · exact e
    unfold Deaf
    rw [funcAfter_of_ne ha, hpc, hsame]
    exact h
  · rw [funcAfter_of_ne ha]
    have hf : s.func = .looping := by
      by_contra hf
      exact hin (hat.outside hf)
    refine Or.inr ⟨hf, Or.inr ⟨hpc, ?_⟩⟩
    rcases l.quit_apply a with ⟨⟨u, e⟩, _⟩ | ⟨_, e⟩ | ⟨_, hno, e⟩
    · exact absurd e (hquit u)
    · exact e
    · have hentered : l.pc ≠ .entered := fun hp => hno (hclear.mpr hp)
      rcases h with hf' | ⟨_, hp | ⟨_, hq⟩⟩
      · rw [hf] at hf'
        cases hf'
      · exact absurd hp hentered
      · exact e.trans hq

/-- A loop that has lost its `quit` runs on. -/
theorem Lost.step {s s' : EventLoopThread τ κ φ} {a : Act τ κ φ} (hinv : s.Inv owner thread)
    (h : s.Lost) (hs : Step owner thread wakeChannel s a s') (hquit : ∀ t, a ≠ .loop (.quit t)) :
    s'.Lost := by
  obtain ⟨ho, l, hl, hfunc⟩ := h
  have hrunning : s.func ≠ .none ∧ s.func ≠ .entered ∧ s.func ≠ .constructed ∧
      s.func ≠ .cleared ∧ s.func ≠ .ended := by
    rcases hfunc with e | ⟨e, _⟩ <;> simp [e]
  cases hs with
  | @loop l' a hl' he hallow =>
    obtain rfl : l = l' := by simpa [hl] using hl'
    exact ⟨ho, _, rfl, hfunc.apply (hinv.loop l hl) hallow he fun t e => hquit t (by rw [e])⟩
  | @clear l' hf hl' hat =>
    obtain rfl : l = l' := by simpa [hl] using hl'
    rcases hfunc with e | ⟨_, e | ⟨e, _⟩⟩
    · simp [hf] at e
    · simp [hat.1] at e
    · exact absurd hat.1 e
  | quitReturns ho =>
    obtain ⟨_, _, _, hquit, _⟩ := l.callReturns_fields owner
    refine ⟨Or.inr rfl, l.callReturns owner, by simp [EventLoopThread.quitReturns, hl], ?_⟩
    unfold Deaf
    rw [EventLoop.callReturns_pc, hquit]
    exact hfunc
  | inSection hcall hst => exact ⟨ho, l, hl, hfunc⟩
  | start ho' | startFails ho' | startReturns ho' | quit ho' => simp [ho'] at ho
  | destroyNull ho' | destroyLoop ho' => rcases ho' with e | ⟨p, e⟩ <;> simp [e] at ho
  | construct hf | publish hf | ends hf | join _ hf => simp [hf] at hrunning

/-- A loop that was asked to quit after it has begun stays asked. -/
theorem Kept.step {s s' : EventLoopThread τ κ φ} {a : Act τ κ φ} (h : s.Kept)
    (hs : Step owner thread wakeChannel s a s') : s'.Kept := by
  have hover : s.owner ≠ .created ∧ s.owner ≠ .starting ∧ s.owner ≠ .quitting ∧
      ¬ s.OwnerFree := by
    rcases h with e | ⟨e | e, _⟩ <;> simp [e, OwnerFree]
  cases hs with
  | @loop l a hl he hallow =>
    rcases h with ho | ⟨ho, hf | hf | ⟨hf, l', hl', hpc, hquit⟩⟩
    · exact Or.inl ho
    · have ha : a ≠ .loop := by
        rintro rfl
        simp [Allowed, hf] at hallow
      exact Or.inr ⟨ho, Or.inl ((funcAfter_of_ne ha).trans hf)⟩
    · have ha : a ≠ .loop := by
        rintro rfl
        simp [Allowed, hf] at hallow
      exact Or.inr ⟨ho, Or.inr (Or.inl ((funcAfter_of_ne ha).trans hf))⟩
    · obtain rfl : l = l' := by simpa [hl] using hl'
      have ha : a ≠ .loop := by
        rintro rfl
        simp [Allowed, hf] at hallow
      refine Or.inr ⟨ho, Or.inr (Or.inr ⟨(funcAfter_of_ne ha).trans hf, _, rfl, ?_, ?_⟩)⟩
      · rcases EventLoop.place_apply he with ⟨e, _⟩ | ⟨_, _, e, _⟩ | ⟨_, e, _⟩ | ⟨_, _, _, _, e, _⟩
        · exact absurd e ha
        · simp [e]
        · rw [e]
          exact hpc
        · exact e
      · rcases l.quit_apply a with ⟨_, e⟩ | ⟨rfl, _⟩ | ⟨_, _, e⟩
        · exact e
        · exact absurd he.1 hpc
        · exact e.trans hquit
  | clear hf hl hat =>
    rcases h with ho | ⟨ho, _⟩
    · exact Or.inl ho
    · exact Or.inr ⟨ho, Or.inl rfl⟩
  | ends hf =>
    rcases h with ho | ⟨ho, _⟩
    · exact Or.inl ho
    · exact Or.inr ⟨ho, Or.inr (Or.inl rfl)⟩
  | quitReturns ho =>
    rcases h with e | ⟨_, hf | hf | ⟨hf, l, hl, hpc, hquit⟩⟩
    · simp [ho] at e
    · exact Or.inr ⟨Or.inr rfl, Or.inl hf⟩
    · exact Or.inr ⟨Or.inr rfl, Or.inr (Or.inl hf)⟩
    · obtain ⟨_, _, _, hsame, _⟩ := l.callReturns_fields owner
      refine Or.inr ⟨Or.inr rfl, Or.inr (Or.inr ⟨hf, l.callReturns owner, ?_, ?_, ?_⟩)⟩
      · simp [EventLoopThread.quitReturns, hl]
      · rw [EventLoop.callReturns_pc]
        exact hpc
      · rw [hsame]
        exact hquit
  | destroyNull ho | join ho => exact Or.inl rfl
  | inSection hcall hst => exact h
  | construct hf | publish hf =>
    rcases h with ho | ⟨_, e | e | ⟨e, _⟩⟩
    · exact Or.inl ho
    · simp [hf] at e
    · simp [hf] at e
    · simp [hf] at e
  | start ho | startFails ho | startReturns ho | quit ho => simp [ho] at hover
  | destroyLoop ho =>
    rcases ho with e | e
    · exact absurd e hover.1
    · exact absurd e hover.2.2.2

/-! ## The way to the join -/

/-- What the two threads have to do before the destructor is over. -/
def toJoin (s : EventLoopThread τ κ φ) : Nat :=
  (match s.owner with
    | .waking => 2
    | .joining => 1
    | _ => 0) +
  match s.func, s.loop with
    | .looping, some l => 3 + l.toReturn
    | .cleared, _ => 2
    | .ended, _ => 1
    | _, _ => 0

/-- Where the `quit` was kept, one of the two threads can go on. -/
theorem Kept.progress {s : EventLoopThread τ κ φ} (wakeChannel : κ)
    (hinv : s.Inv owner thread) (hne : owner ≠ thread) (h : s.Kept) : s.owner = .destroyed ∨
      ∃ a s', Step owner thread wakeChannel s a s' ∧ (∀ t, a ≠ .loop (.quit t)) ∧
        s'.toJoin < s.toJoin := by
  rcases h with ho | ⟨ho | ho, hfunc⟩
  · exact Or.inl ho
  · refine Or.inr ⟨.quitReturns, _, .quitReturns ho, by simp, ?_⟩
    rcases hfunc with hf | hf | ⟨hf, l, hl, _⟩
    · simp [toJoin, EventLoopThread.quitReturns, ho, hf]
    · simp [toJoin, EventLoopThread.quitReturns, ho, hf]
    · have hother : owner ≠ l.threadId_ := fun e => hne (e.trans (hinv.loop l hl).threadId)
      simp [toJoin, EventLoopThread.quitReturns, ho, hf, hl, l.toReturn_callReturns_of_ne hother]
  · right
    rcases hfunc with hf | hf | ⟨hf, l, hl, hpc, hquit⟩
    · exact ⟨.ends, _, .ends hf, by simp, by simp [toJoin, ho, hf]⟩
    · have hstarted : s.started_ = true := hinv.life.started.mpr (by simp [hf])
      have hjoined : s.joined_ = false := by
        rw [← Bool.not_eq_true]
        intro hj
        have hdestroyed := (hinv.life.joined hj).1
        rw [ho] at hdestroyed
        cases hdestroyed
      exact ⟨.join, _, .join ho hf hstarted hjoined, by simp,
        by simp [toJoin, releaseThread, ho, hf]⟩
    · obtain ⟨_, _, hid, _, _⟩ := hinv.loop l hl
      by_cases hbusy : l.pc ≠ .outside ∨ l.phase l.threadId_ ≠ .idle
      · obtain ⟨a, he, hown, hlt⟩ := EventLoop.exists_own_step hquit hpc hbusy
        have hallow : s.Allowed owner thread a := by
          cases a with
          | callReturns t =>
            have ht : t = l.threadId_ := hown
            exact fun e => absurd (e.symm.trans (ht.trans hid)) hne
          | queueInLoop t cb | quit t | loop => cases hown
          | _ => trivial
        have ha : a ≠ .loop := by
          rintro rfl
          cases hown
        refine ⟨.loop a, _, .loop hl he hallow, fun t e => ?_, ?_⟩
        · cases e
          cases hown
        · simp [toJoin, funcAfter_of_ne ha, ho, hf, hl, hlt]
      · rw [not_or, not_not, not_not] at hbusy
        exact ⟨.clear, _, .clear hf hl hbusy, by simp, by simp [toJoin, ho, hf, hl]; omega⟩

/-! ## The law -/

theorem reachable_running {s : EventLoopThread τ κ φ} (hne : owner ≠ thread)
    (h : (quitting owner thread wakeChannel).Reachable s) : s.Inv owner thread ∧
      (s.owner ≠ .waking ∧ s.owner ≠ .joining ∧ s.owner ≠ .destroyed → s.Running) := by
  apply h.invariant
  · rintro s rfl
    exact ⟨construct_inv owner thread, fun _ => ⟨by simp [construct], by simp [construct], rfl⟩⟩
  · rintro s a s' ⟨hinv, hrun⟩ ⟨hst, hquit⟩
    exact ⟨hinv.step hne hst, Running.step hinv hrun hst hquit⟩

/-- No continuation of a lost `quit` leads out of the destructor. -/
theorem Lost.run {s u : EventLoopThread τ κ φ} {as : List (Act τ κ φ)} (hne : owner ≠ thread)
    (hinv : s.Inv owner thread) (h : s.Lost)
    (hrun : (quitting owner thread wakeChannel).Run s as u) : u.Lost := by
  have hall : u.Inv owner thread ∧ u.Lost := by
    refine hrun.keeps (P := fun s => s.Inv owner thread ∧ s.Lost) ?_ ⟨hinv, h⟩
    rintro s a t ⟨hinv, h⟩ ⟨hst, hquit⟩
    exact ⟨hinv.step hne hst, h.step hinv hst hquit⟩
  exact hall.2

/-- From every continuation of a kept `quit` the destructor can return. -/
theorem Kept.run {s u : EventLoopThread τ κ φ} {as : List (Act τ κ φ)} (hne : owner ≠ thread)
    (hinv : s.Inv owner thread) (h : s.Kept)
    (hrun : (quitting owner thread wakeChannel).Run s as u) :
    ∃ bs v, (quitting owner thread wakeChannel).Run u bs v ∧ v.owner = .destroyed := by
  have hall : u.Inv owner thread ∧ u.Kept := by
    refine hrun.keeps (P := fun s => s.Inv owner thread ∧ s.Kept) ?_ ⟨hinv, h⟩
    rintro s a t ⟨hinv, h⟩ ⟨hst, _⟩
    exact ⟨hinv.step hne hst, h.step hst⟩
  refine Machine.Run.of_rank (P := fun s => s.Inv owner thread ∧ s.Kept) toJoin ?_ hall
  rintro s ⟨hinv, h⟩
  rcases h.progress wakeChannel hinv hne with ho | ⟨a, t, hst, hquit, hlt⟩
  · exact Or.inl ho
  · exact Or.inr ⟨a, t, ⟨hst, hquit⟩, ⟨hinv.step hne hst, h.step hst⟩, hlt⟩

omit [DecidableEq τ] [DecidableEq κ] in
/-- The destructor stores to a loop that lives. -/
theorem Running.loop {s : EventLoopThread τ κ φ} (h : s.Running) (hinv : s.Inv owner thread)
    (ho : s.owner = .quitting) :
    ∃ l, s.loop = some l ∧ (s.func = .looping ∨ s.func = .publishing) := by
  have hset := (hinv.life.shared (by simp [Shared, ho]) (by simp [ho])).resolve_right
    (not_or.mpr h.func)
  have hplace := hinv.hand.stored.mp hset
  rcases hl : s.loop with _ | l
  · rcases hinv.life.alive.mp hl with e | e | e <;> simp [e] at hplace
  · exact ⟨l, rfl, hplace.imp_right And.left⟩

omit [DecidableEq κ] in
theorem lost_of_early {s : EventLoopThread τ κ φ} (hinv : s.Inv owner thread) (h : s.Running)
    (ho : s.owner = .quitting) (hearly : s.Early) : (s.quit owner).Lost := by
  obtain ⟨l, hl, hf⟩ := h.loop hinv ho
  refine ⟨Or.inl rfl, l.quit owner, by simp [EventLoopThread.quit, hl], ?_⟩
  rcases hearly with hpublish | ⟨l', hl', hpc⟩
  · exact Or.inl hpublish
  · obtain rfl : l = l' := by simpa [hl] using hl'
    exact hf.elim (fun hf => Or.inr ⟨hf, Or.inl hpc⟩) Or.inl

omit [DecidableEq κ] in
theorem kept_of_late {s : EventLoopThread τ κ φ} (hinv : s.Inv owner thread) (h : s.Running)
    (ho : s.owner = .quitting) (hlate : ¬ s.Early) : (s.quit owner).Kept := by
  obtain ⟨l, hl, hf⟩ := h.loop hinv ho
  have hlooping := hf.resolve_right fun hp => hlate (Or.inl hp)
  refine Or.inr ⟨Or.inl rfl, Or.inr (Or.inr ⟨hlooping, l.quit owner, ?_, ?_, rfl⟩)⟩
  · simp [EventLoopThread.quit, hl]
  · exact fun hpc => hlate (Or.inr ⟨l, hl, hpc⟩)

/-- The destructor can return exactly when its `quit` comes after the loop has
cleared `quit_`, where nobody else asks the loop to quit. Its store is to a loop
that lives. Before that point the store is lost, and the loop runs on in every
continuation. Behind it the destructor can return from every state that follows. -/
theorem the_destructor_returns_iff_the_loop_has_begun (owner thread : τ) (wakeChannel : κ)
    (s s' : EventLoopThread τ κ φ) (hne : owner ≠ thread)
    (h : (quitting owner thread wakeChannel).Reachable s)
    (hs : Step owner thread wakeChannel s .quit s') :
    (∃ l, s.loop = some l) ∧ s'.dangling = false ∧
    ((∃ as u, (quitting owner thread wakeChannel).Run s' as u ∧ u.owner = .destroyed) ↔
      ¬ s.Early) ∧
    (¬ s.Early → ∀ as u, (quitting owner thread wakeChannel).Run s' as u →
      ∃ bs v, (quitting owner thread wakeChannel).Run u bs v ∧ v.owner = .destroyed) := by
  obtain ⟨hinv, hrunning⟩ := reachable_running hne h
  have hinv' := hinv.step hne hs
  cases hs with
  | quit ho =>
    have hrun := hrunning (by simp [ho])
    obtain ⟨l, hl, _⟩ := hrun.loop hinv ho
    have hreturns : ¬ s.Early → ∀ as u,
        (quitting owner thread wakeChannel).Run (s.quit owner) as u →
        ∃ bs v, (quitting owner thread wakeChannel).Run u bs v ∧ v.owner = .destroyed :=
      fun hlate as u => (kept_of_late hinv hrun ho hlate).run hne hinv'
    refine ⟨⟨l, hl⟩, by simp [EventLoopThread.quit, hl, hrun.dangling], ⟨?_, ?_⟩, hreturns⟩
    · rintro ⟨as, u, hcont, hover⟩ hearly
      have hlost := (lost_of_early hinv hrun ho hearly).run hne hinv' hcont
      rcases hlost.owner with e | e <;> simp [hover] at e
    · intro hlate
      exact hreturns hlate [] _ .nil

/-- The owner is about to ask a loop to quit that it has just got. -/
theorem exists_early : ∃ s : EventLoopThread Bool Unit Nat,
    (quitting false true ()).Reachable s ∧ s.owner = .quitting ∧ s.Early := by
  obtain ⟨s, h, ho, hf, hl, hout⟩ := exists_started
  have hinv := reachable_inv (by decide) (quitting_reachable h)
  have hset := hinv.hand.passed ho (Or.inl (hout false))
  have h1 := h.next ⟨.startReturns ho (hout false), by simp⟩
  have h2 := h1.next ⟨.destroyLoop (Or.inr ⟨_, rfl⟩) (by simp [hl, EventLoop.construct]) hset,
    by simp⟩
  exact ⟨_, h2, rfl, Or.inl hf⟩

/-- The owner is about to ask a loop to quit that has begun. -/
theorem exists_late : ∃ s : EventLoopThread Bool Unit Nat,
    (quitting false true ()).Reachable s ∧ s.owner = .quitting ∧ ¬ s.Early := by
  obtain ⟨s, h, ho, hf, hl, hout⟩ := exists_started
  have hinv := reachable_inv (by decide) (quitting_reachable h)
  have hset := hinv.hand.passed ho (Or.inl (hout false))
  have h1 := h.next ⟨.startReturns ho (hout false), by simp⟩
  have h2 := h1.next ⟨.loop (a := .loop) hl ⟨⟨rfl, rfl⟩, rfl⟩ ⟨hf, hout true⟩, by simp⟩
  have h3 := h2.next ⟨.loop (a := .clearQuit) rfl ⟨rfl, rfl⟩ trivial, by simp⟩
  have h4 := h3.next ⟨.destroyLoop (Or.inr ⟨_, rfl⟩)
    (by simp [EventLoop.Act.apply, EventLoop.construct]) hset, by simp⟩
  refine ⟨_, h4, rfl, ?_⟩
  simp [Early, funcAfter, EventLoop.Act.apply]

/-- A destructor that never returns, and one that can. -/
theorem a_destructor_returns_or_not : ∃ s t : EventLoopThread Bool Unit Nat,
    s.owner = .waking ∧ t.owner = .waking ∧
    (¬ ∃ as u, (quitting false true ()).Run s as u ∧ u.owner = .destroyed) ∧
    ∃ as u, (quitting false true ()).Run t as u ∧ u.owner = .destroyed := by
  obtain ⟨s, hs, ho, hearly⟩ := exists_early
  obtain ⟨t, ht, ho', hlate⟩ := exists_late
  obtain ⟨_, _, hnever, _⟩ := the_destructor_returns_iff_the_loop_has_begun false true () s _
    (by decide) hs (.quit ho)
  obtain ⟨_, _, hreturns, _⟩ := the_destructor_returns_iff_the_loop_has_begun false true () t _
    (by decide) ht (.quit ho')
  exact ⟨_, _, rfl, rfl, fun h => hnever.mp h hearly, hreturns.mpr hlate⟩

/-- Where all threads are outside of the sections, none is in a step of one. -/
theorem no_section (hout : ∀ t, m.place t = .outside) {a : Monitor.Act τ Section}
    (hcall : ∀ t k, a ≠ .call t k) : ¬ Monitor.Step Section.code m a m' := by
  intro hs
  cases hs with
  | call ht => exact hcall _ _ rfl
  | lock ht hfree => simp [hout] at ht
  | _ => simp_all

/-- A step of a loop whose thread is outside of it is a call. -/
theorem LoopAt.call {thread : τ} {f : FuncPc} {l : EventLoop τ κ φ} {a : EventLoop.Act τ κ φ}
    (h : LoopAt thread f l) (he : a.Enabled l) (hf : f ≠ .looping) (ha : a ≠ .loop) :
    ∃ t, a.caller = some t := by
  have hout := h.outside hf
  rcases EventLoop.place_apply he with ⟨e, _⟩ | ⟨rfl, _⟩ | ⟨hcall, _⟩ | ⟨_, _, hin, _⟩
  · exact absurd e ha
  · have hpc : l.pc = .whileTest := he.1
    rw [hout] at hpc
    cases hpc
  · exact hcall
  · exact absurd hout hin

/-- Once the destructor is over, the new thread never comes back to the object:
it was never made, or it has cleared `loop_` and only its own loop is left. A
thread that was made was joined or detached, and no assert of `thread_` fails. -/
theorem the_thread_is_done_with_a_destroyed_object (owner thread : τ) (wakeChannel : κ)
    (s : EventLoopThread τ κ φ) (hne : owner ≠ thread)
    (h : (machine owner thread wakeChannel).Reachable s) :
    (s.owner = .destroyed → (∀ t, s.monitor.place t = .outside) ∧ (s.started_ = true →
      (s.joined_ = true ∧ s.detached = false ∧ s.func = .ended) ∨
      (s.joined_ = false ∧ s.detached = true)) ∧
      ∀ a s', Step owner thread wakeChannel s a s' →
        a = .ends ∨ ∃ b t, a = .loop b ∧ b.caller = some t) ∧
    (s.owner = .created → s.started_ = false) ∧
    (s.owner = .joining → s.started_ = true ∧ s.joined_ = false) := by
  obtain ⟨hplaced, hhand, hloop, hlife⟩ := reachable_inv hne h
  refine ⟨fun ho => ?_, fun ho => ?_, fun ho => ?_⟩
  · obtain ⟨hover, hrelease⟩ := hlife.destroyed ho
    have hpublish : s.func ≠ .publishing := by rcases hover with e | e | e <;> simp [e]
    have hlooping : s.func ≠ .looping := by rcases hover with e | e | e <;> simp [e]
    have hout : ∀ t, s.monitor.place t = .outside := by
      intro t
      by_cases h1 : t = owner
      · exact h1 ▸ hhand.atOwner (by simp [ho])
      · by_cases h2 : t = thread
        · exact h2 ▸ hhand.atThread hpublish
        · exact hplaced.others t h1 h2
    refine ⟨hout, fun hstarted => ?_, fun a s' hs => ?_⟩
    · rw [hstarted, Bool.true_and] at hrelease
      cases hj : s.joined_ with
      | true => exact Or.inl ⟨rfl, by simp [hrelease, hj], (hlife.joined hj).2⟩
      | false => exact Or.inr ⟨rfl, by simp [hrelease, hj]⟩
    · cases hs with
      | inSection hcall hst => exact absurd hst (no_section hout hcall)
      | @loop l a hl he hallow =>
        have ha : a ≠ .loop := by
          rintro rfl
          exact hpublish hallow.1
        obtain ⟨t, ht⟩ := (hloop l hl).call he hlooping ha
        exact Or.inr ⟨a, t, rfl, ht⟩
      | ends hf => exact Or.inl rfl
      | destroyNull hfree hidle hnull => rcases hfree with e | ⟨p, e⟩ <;> simp [ho] at e
      | destroyLoop hfree hidle hset => rcases hfree with e | ⟨p, e⟩ <;> simp [ho] at e
      | _ => simp_all
  · rw [← Bool.not_eq_true, hlife.started]
    exact fun hf => hf (hlife.created ho)
  · refine ⟨hlife.started.mpr fun hnone => ?_, ?_⟩
    · have hset : s.loop_ ≠ true := by simp [hhand.stored, hnone]
      rcases hlife.shared (by simp [Shared, ho]) (by simp [ho]) with e | e | e
      · exact hset e
      · simp [hnone] at e
      · simp [hnone] at e
    · rw [← Bool.not_eq_true]
      intro hj
      have hdestroyed := (hlife.joined hj).1
      rw [ho] at hdestroyed
      cases hdestroyed

/-- A destructor that had a loop to ask is over. -/
theorem the_thread_is_done_after_a_quit : ∃ s : EventLoopThread Bool Unit Nat,
    s.owner = .destroyed ∧ (∀ t, s.monitor.place t = .outside) ∧
      ∀ a s', Step false true () s a s' → a = .ends ∨ ∃ b t, a = .loop b ∧ b.caller = some t := by
  obtain ⟨s, h, ho, hlate⟩ := exists_late
  obtain ⟨hinv, hrunning⟩ := reachable_running (by decide) h
  have hst : (quitting false true ()).step s .quit (s.quit false) := ⟨.quit ho, by simp⟩
  obtain ⟨as, u, hrun, hover⟩ := (kept_of_late hinv (hrunning (by simp [ho])) ho hlate).run
     (by decide) (hinv.step (by decide) hst.1) .nil
  obtain ⟨s₀, bs, h0, hrun₀⟩ := h.next hst
  have hu := quitting_reachable ⟨s₀, _, h0, hrun₀.append hrun⟩
  obtain ⟨hdone, _, _⟩ := the_thread_is_done_with_a_destroyed_object false true () u (by decide) hu
  obtain ⟨hout, _, hleft⟩ := hdone hover
  exact ⟨u, hover, hout, hleft⟩

end EventLoopThread

end jmuduo.net
