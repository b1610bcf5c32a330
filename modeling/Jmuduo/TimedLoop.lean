-- An event loop with its own two channels, of the timerfd and of the eventfd.
-- The loop registers the timerfd first, so that its timers are read before
-- any other handler can arm them again.
import Jmuduo.ActiveChannels
import Jmuduo.EventLoop

open outcome runs

namespace jmuduo.net

/-! ## The loop of the source -/

/-- The channels of a loop: its own, and those of the user. -/
inductive LoopChannel (κ : Type)
  | timerfdChannel_
  | wakeChannel_
  | user (c : κ)
  deriving DecidableEq, Repr

/-- A loop with its poller, and the timerfd of its timers: it is `armed`, or
it has an expiration that was not read. -/
structure TimedLoop (τ κ φ : Type) where
  loop_ : EventLoop τ (LoopChannel κ) φ
  channels : LoopChannels (LoopChannel κ)
  armed : Bool
  expired : Bool

namespace TimedLoop

section

variable {τ κ φ : Type} [DecidableEq τ] [DecidableEq κ]

/-- The constructor. The timer queue is a member that comes before the wake
channel, so that its channel is the first one in the poller. -/
def construct (fd : LoopChannel κ → Nat) (threadId : τ) : Outcome (TimedLoop τ κ φ) := do
  let channels := LoopChannels.start fun c => (fd c : Int)
  let channels ← channels.enableReading .timerfdChannel_
  let channels ← channels.enableReading .wakeChannel_
  pure ⟨.construct threadId .wakeChannel_, channels, false, false⟩

/-- `timerfd_settime` discards an expiration that was not read. -/
def resetTimerfd (s : TimedLoop τ κ φ) : TimedLoop τ κ φ :=
  { s with armed := true, expired := false }

/-- `readTimerfd`, with which `TimerQueue::handleRead` begins. -/
def readTimerfd (s : TimedLoop τ κ φ) : Outcome (TimedLoop τ κ φ) := do
  check "n == sizeof(howmany)" (s.expired = true)
  pure { s with expired := false }

/-- The callbacks that the timer queue sets. -/
def timerCallbacks : Channel.Callbacks (TimedLoop τ κ φ) where
  readCallback_ := some readTimerfd
  writeCallback_ := none
  errorCallback_ := none
  closeCallback_ := none

/-- The next active channel. What a handler does after `readTimerfd` are
steps of their own. -/
def handleEvent (s : TimedLoop τ κ φ) : Outcome (TimedLoop τ κ φ) := do
  let timer := s.channels.channel .timerfdChannel_
  let s ← if s.loop_.activeChannels_.head? = some .timerfdChannel_ then
      Channel.handleEvent timerCallbacks timer.tied_ true timer.revents_ s
    else pure s
  pure { s with loop_ := s.loop_.handleEvent }

/-! ## The steps -/

/-- A step of the loop or of another thread, a change of a channel or of the
timerfd in a handler or a functor, or an expiration. -/
inductive Act (τ κ φ : Type)
  | loop (a : EventLoop.Act τ (LoopChannel κ) φ)
  | poll (revents : Nat → BitVec 16)
  | handleEvent
  | channel (op : LoopChannels.Op (LoopChannel κ))
  | resetTimerfd
  | expire

def Act.run (s : TimedLoop τ κ φ) : Act τ κ φ → Outcome (TimedLoop τ κ φ)
  | .loop a => pure { s with loop_ := a.apply s.loop_ }
  | .poll revents => do
    let (channels, active) ← s.channels.poll revents
    pure { s with channels := channels, loop_ := (EventLoop.Act.poll active).apply s.loop_ }
  | .handleEvent => s.handleEvent
  | .channel op => do
    let channels ← op.run s.channels
    pure { s with channels := channels }
  | .resetTimerfd => pure s.resetTimerfd
  | .expire => pure { s with armed := false, expired := true }

/-- What poll(2) reports: nothing for a negative descriptor, and for the
timerfd whether it can be read. -/
structure Reports (revents : Nat → BitVec 16) (s : TimedLoop τ κ φ) : Prop where
  skips : s.channels.Skips revents
  timer : ∀ (i : Nat) p, s.channels.poller_.pollfds_[i]? = some p →
    p.fd = (s.channels.channel .timerfdChannel_).fd_ →
    revents i = if s.expired then p.events &&& POLLIN.setWidth 16 else 0

/-- When the step can be taken. The user has the channels that are its own,
each up to its removal. -/
def Act.Enabled (s : TimedLoop τ κ φ) : Act τ κ φ → Prop
  | .loop (.poll _) | .loop .handleEvent => False
  | .loop a => a.Enabled s.loop_
  | .poll revents => s.loop_.At .poll ∧ s.Reports revents
  | .handleEvent => (EventLoop.Act.handleEvent : EventLoop.Act τ (LoopChannel κ) φ).Enabled s.loop_
  | .channel op =>
    s.loop_.CanCall s.loop_.threadId_ ∧ (∃ c, op.target = .user c) ∧
      s.channels.removed op.target = false
  | .resetTimerfd => s.loop_.CanCall s.loop_.threadId_
  | .expire => s.armed = true

/-- All the interleavings, from the constructor on, as long as no `assert`
fails. -/
def machine (fd : LoopChannel κ → Nat) (threadId : τ) : Machine (TimedLoop τ κ φ) (Act τ κ φ) where
  init s := construct fd threadId = .ok s
  step s a s' := a.Enabled s ∧ a.run s = .ok s'

end

end TimedLoop

/-! ## The first entry -/

namespace LoopChannels

variable {κ : Type} [DecidableEq κ]

/-- The first entry stays the first one, as long as only other channels are
changed and removed. -/
theorem first_stays {fd : κ → Int} {s s' : LoopChannels κ} {op : Op κ} (h : s.Inv fd)
    (hs : (LoopChannels.machine fd).step s op s') {t : κ} (hne : op.target ≠ t)
    (hr : s.removed t = false) (hx : (s.channel t).index_ = 0) {p : PollFd}
    (hp : s.poller_.pollfds_[0]? = some p) :
    s'.removed t = false ∧ (s'.channel t).index_ = 0 ∧ s'.poller_.pollfds_[0]? = some p := by
  have ht := h.indexed t hr (by omega)
  have hother : ∀ i : Nat, s.removed op.target = false → (s.channel op.target).index_ = i →
      i ≠ 0 := by
    rintro i hr' hi rfl
    exact hne (h.index_inj (h.indexed _ hr' (by omega)) ht (by omega))
  rcases step_cases h hs with ⟨_, _, _, rfl⟩ | ⟨_, q, hq, rfl⟩ | ⟨_, i, htaken⟩
  · refine ⟨hr, ?_, ?_⟩
    · rw [added_channel, if_neg hne.symm]
      exact hx
    · exact (List.getElem?_append_left (lt_of_entry hp)).trans hp
  · obtain ⟨i, hi, _⟩ := entry_eq_some.mp hq
    refine ⟨hr, ?_, ?_⟩
    · rw [changed_channel, if_neg hne.symm]
      exact hx
    · simp only [changed, setChannel, (op.interest_fields _).2, hi, Int.toNat_natCast]
      rw [List.getElem?_set_ne (hother i hs.1 hi), hp]
  · have hi := hother i hs.1 htaken.index
    have hlt := htaken.lt
    refine ⟨?_, ?_, ?_⟩
    · rw [htaken.removed, Function.update_of_ne hne.symm, hr]
    · rw [htaken.kept t (Or.inr (Or.inr (by omega))), hx]
    · rw [htaken.pollfds, if_pos (by omega), if_neg (Ne.symm hi), hp]

end LoopChannels

namespace TimedLoop

variable {τ κ φ : Type} [DecidableEq τ] [DecidableEq κ]

/-! ## What the steps keep -/

/-- The timerfd has the first entry, and while its channel is active it is the
next one, with an expiration to read. -/
structure Inv (fd : LoopChannel κ → Nat) (s : TimedLoop τ κ φ) : Prop where
  channels : s.channels.Inv fun c => (fd c : Int)
  kept : s.channels.removed .timerfdChannel_ = false
  first : (s.channels.channel .timerfdChannel_).index_ = 0
  entry : ∃ p, s.channels.poller_.pollfds_[0]? = some p ∧ p.fd = (fd .timerfdChannel_ : Int)
  next : .timerfdChannel_ ∈ s.loop_.activeChannels_ → s.loop_.pc = .handlers ∧
    s.expired = true ∧ ∃ rest, s.loop_.activeChannels_ = .timerfdChannel_ :: rest ∧
      .timerfdChannel_ ∉ rest

omit [DecidableEq τ] in
theorem construct_inv {fd : LoopChannel κ → Nat} {threadId : τ} {s : TimedLoop τ κ φ}
    (hok : construct fd threadId = .ok s) : s.Inv fd := by
  simp only [construct, bind_eq_ok] at hok
  obtain ⟨c₁, h1, c₂, h2, hok⟩ := hok
  cases hok
  have h0 : ∀ c, (0 : Int) ≤ (fd c : Int) := fun c => Int.natCast_nonneg _
  have hstart := LoopChannels.inv_start fun c : LoopChannel κ => (fd c : Int)
  have hs1 : (LoopChannels.machine fun c : LoopChannel κ => (fd c : Int)).step
      (.start fun c => (fd c : Int)) (.enableReading .timerfdChannel_) c₁ := ⟨rfl, h1⟩
  have hi := LoopChannels.step_inv h0 hstart hs1
  rcases LoopChannels.step_cases hstart hs1 with ⟨_, _, _, rfl⟩ | ⟨_, p, hp, _⟩ | ⟨hop, _⟩
  · have hs2 := (⟨rfl, h2⟩ : (LoopChannels.machine fun c : LoopChannel κ => (fd c : Int)).step _
      (.enableReading .wakeChannel_) c₂)
    obtain ⟨hr, hx, hp⟩ := LoopChannels.first_stays hi hs2 (t := .timerfdChannel_)
      (by simp [LoopChannels.Op.target]) rfl
      (by rw [LoopChannels.added_channel]; rfl) (p := ⟨fd .timerfdChannel_, _, 0⟩) rfl
    exact ⟨LoopChannels.step_inv h0 hi hs2, hr, hx, ⟨_, hp, rfl⟩,
      fun hmem => absurd hmem List.not_mem_nil⟩
  · cases hp
  · cases hop

/-- A step that is no poll and no dispatch leaves the active channels. -/
theorem Inv.loop {fd : LoopChannel κ → Nat} {s : TimedLoop τ κ φ} (h : s.Inv fd)
    {a : EventLoop.Act τ (LoopChannel κ) φ} (he : (Act.loop a).Enabled s) :
    ({ s with loop_ := a.apply s.loop_ } : TimedLoop τ κ φ).Inv fd := by
  refine ⟨h.channels, h.kept, h.first, h.entry, fun hmem => ?_⟩
  -- the thread of the loop is at the dispatch of the timerfd, so others step
  have hold : .timerfdChannel_ ∈ s.loop_.activeChannels_ := by
    rcases (EventLoop.apply_fields s.loop_ a).2.2 _ hmem with hold | ⟨active, rfl, _⟩
    · exact hold
    · exact he.elim
  obtain ⟨hpc, hexp, rest, hactive, hrest⟩ := h.next hold
  have hsame : (a.apply s.loop_).pc = s.loop_.pc ∧
      (a.apply s.loop_).activeChannels_ = s.loop_.activeChannels_ := by
    cases a with
    | queueInLoop t cb => exact ⟨rfl, rfl⟩
    | quit t => exact ⟨rfl, rfl⟩
    | callReturns t =>
      refine ⟨EventLoop.callReturns_pc s.loop_ t, ?_⟩
      simp only [EventLoop.Act.apply, EventLoop.callReturns]
      split <;> rfl
    | poll active => exact he.elim
    | handleEvent => exact he.elim
    | doPendingFunctors_ =>
      have hnone : s.loop_.activeChannels_ = [] := he.2
      rw [hactive] at hnone
      cases hnone
    | loop =>
      have hat : s.loop_.pc = .outside := he.1.1
      rw [hpc] at hat
      cases hat
    | callFunctor =>
      have hat : s.loop_.pc = .functors := he.1.1
      rw [hpc] at hat
      cases hat
    | clearCalling =>
      have hat : s.loop_.pc = .functors := he.1.1
      rw [hpc] at hat
      cases hat
    | _ =>
      have hat := he.1
      rw [hpc] at hat
      cases hat
  exact ⟨hsame.1.trans hpc, hexp, rest, hsame.2.trans hactive, hrest⟩

theorem Inv.poll {fd : LoopChannel κ → Nat} {s : TimedLoop τ κ φ} (h : s.Inv fd)
    {revents : Nat → BitVec 16} (he : s.Reports revents) {channels : LoopChannels (LoopChannel κ)}
    {active : List (LoopChannel κ)} (hok : s.channels.poll revents = .ok (channels, active)) :
    ({ s with
      channels := channels
      loop_ := (EventLoop.Act.poll active).apply s.loop_ } : TimedLoop τ κ φ).Inv fd := by
  obtain ⟨hmarked, _⟩ := LoopChannels.fillActiveChannels.spec hok
  obtain ⟨p, hp, hpfd⟩ := h.entry
  have hat : channels.poller_.pollfds_ =
      LoopChannels.polled revents s.channels.poller_.pollfds_ := by
    rw [hmarked.poller_]
  have hentry : ∀ i : Nat, channels.poller_.pollfds_[i]? =
      (s.channels.poller_.pollfds_[i]?).map fun q => { q with revents := revents i } := by
    intro i
    rw [hat, LoopChannels.polled_getElem?]
  refine ⟨LoopChannels.inv_polled h.channels hmarked, ?_, ?_,
    ⟨{ p with revents := revents 0 }, ?_, hpfd⟩, fun hmem => ?_⟩
  · rw [hmarked.removed]
    exact h.kept
  · obtain ⟨r, hr⟩ := hmarked.channel .timerfdChannel_
    rw [hr]
    exact h.first
  · rw [hentry, hp]
    rfl
  · obtain ⟨ps, hps⟩ : ∃ ps, LoopChannels.polled revents s.channels.poller_.pollfds_ =
        { p with revents := revents 0 } :: ps := by
      cases hfds : s.channels.poller_.pollfds_ with
      | nil => simp [hfds] at hp
      | cons q qs =>
        rw [hfds, List.getElem?_cons_zero, Option.some.injEq] at hp
        rw [hp]
        exact ⟨_, List.mapIdx_cons⟩
    unfold LoopChannels.poll at hok
    simp only [hps] at hok
    -- an entry behind the first one stands for a channel with its own index
    have hfirst : ∀ q ∈ ps, 0 < q.revents.toInt →
        s.channels.poller_.channels_.find q.fd ≠ some .timerfdChannel_ := by
      intro q hq hpos hfind
      obtain ⟨i, hi⟩ := List.mem_iff_getElem?.mp hq
      have hq' : (LoopChannels.polled revents s.channels.poller_.pollfds_)[i + 1]? = some q := by
        rw [hps, List.getElem?_cons_succ, hi]
      rw [LoopChannels.polled_getElem?, Option.map_eq_some_iff] at hq'
      obtain ⟨r, hr, rfl⟩ := hq'
      have hnonneg : 0 ≤ r.fd := by
        by_contra hneg
        have hzero := he.skips (i + 1) r hr (by omega)
        simp [hzero] at hpos
      obtain ⟨c, hc, _, hx⟩ := h.channels.slots (i + 1) r hr
      rw [LoopChannels.decodeFd_of_nonneg hnonneg] at hc
      rw [hc] at hfind
      cases hfind
      rw [h.first] at hx
      omega
    obtain ⟨hpos, rest, hrest, hnot⟩ := LoopChannels.fillActiveChannels_first hok hfirst hmem
    have hexp : s.expired = true := by
      by_contra hno
      have hzero := he.timer 0 p hp (by rw [hpfd, h.channels.fds])
      rw [if_neg hno] at hzero
      simp [hzero] at hpos
    exact ⟨rfl, hexp, rest, hrest, hnot⟩

omit [DecidableEq τ] [DecidableEq κ] in
/-- A dispatch of the timerfd is its read, when poll(2) found it readable. -/
theorem timer_dispatch (tied : Bool) (revents : Mask) (s : TimedLoop τ κ φ) :
    Channel.handleEvent timerCallbacks tied true revents s =
      if has revents (POLLIN ||| POLLPRI ||| POLLHUP) then s.readTimerfd else pure s := by
  have hnone : ∀ cond (s : TimedLoop τ κ φ), Channel.invoke cond none s = pure s := by
    intro cond s
    unfold Channel.invoke
    split <;> rfl
  unfold Channel.handleEvent Channel.handleEventWithGuard
  simp only [timerCallbacks, hnone, pure_eq_ok, ok_bind, if_true, ite_self]
  unfold Channel.invoke
  split
  · exact bind_pure s.readTimerfd
  · rfl

omit [DecidableEq τ] in
/-- A dispatch returns where an active timerfd has its expiration. -/
theorem handleEvent.spec {s : TimedLoop τ κ φ}
    (h : s.loop_.activeChannels_.head? = some .timerfdChannel_ → s.expired = true) :
    ∃ expired, s.handleEvent =
      .ok { s with expired := expired, loop_ := s.loop_.handleEvent } := by
  unfold handleEvent
  split
  · rename_i hhead
    have hread : s.readTimerfd = .ok { s with expired := false } := by
      simp [readTimerfd, check, h hhead]
    simp only [timer_dispatch, hread]
    split
    · exact ⟨false, rfl⟩
    · exact ⟨s.expired, rfl⟩
  · exact ⟨s.expired, rfl⟩

omit [DecidableEq τ] [DecidableEq κ] in
theorem Inv.reads {fd : LoopChannel κ → Nat} {s : TimedLoop τ κ φ} (h : s.Inv fd)
    (hhead : s.loop_.activeChannels_.head? = some .timerfdChannel_) : s.expired = true :=
  (h.next (List.mem_of_mem_head? hhead)).2.1

theorem Inv.step {fd : LoopChannel κ → Nat} {s s' : TimedLoop τ κ φ} {a : Act τ κ φ}
    (h : s.Inv fd) (he : a.Enabled s) (hok : a.run s = .ok s') : s'.Inv fd := by
  cases a with
  | loop a =>
    cases hok
    exact h.loop he
  | poll revents =>
    simp only [Act.run, bind_eq_ok] at hok
    obtain ⟨⟨channels, active⟩, hpoll, hok⟩ := hok
    cases hok
    exact h.poll he.2 hpoll
  | handleEvent =>
    obtain ⟨expired, hrun⟩ := handleEvent.spec h.reads
    simp only [Act.run, hrun, Except.ok.injEq] at hok
    subst hok
    refine ⟨h.channels, h.kept, h.first, h.entry, fun hmem => ?_⟩
    -- the dispatch took the timerfd out, when it was active
    obtain ⟨counter, pc, _, e⟩ := EventLoop.handleEvent.spec s.loop_
    simp only [e] at hmem
    obtain ⟨_, _, rest, hactive, hnot⟩ := h.next (List.mem_of_mem_tail hmem)
    rw [hactive] at hmem
    exact absurd hmem hnot
  | channel op =>
    simp only [Act.run, bind_eq_ok] at hok
    obtain ⟨channels, hop, hok⟩ := hok
    cases hok
    obtain ⟨_, ⟨c, hc⟩, hr⟩ := he
    obtain ⟨p, hp, hpfd⟩ := h.entry
    have hs := (⟨hr, hop⟩ : (LoopChannels.machine fun c : LoopChannel κ => (fd c : Int)).step
      s.channels op channels)
    obtain ⟨hr', hx, hp'⟩ := LoopChannels.first_stays h.channels hs (t := .timerfdChannel_)
      (by simp [hc]) h.kept h.first hp
    exact ⟨LoopChannels.step_inv (fun c => Int.natCast_nonneg _) h.channels hs, hr', hx,
      ⟨p, hp', hpfd⟩, h.next⟩
  | resetTimerfd =>
    cases hok
    refine ⟨h.channels, h.kept, h.first, h.entry, fun hmem => ?_⟩
    -- a timer is added by user code, and none runs before the read
    have huser := he.2 rfl
    rw [(h.next hmem).1] at huser
    exact absurd huser (by decide)
  | expire =>
    cases hok
    refine ⟨h.channels, h.kept, h.first, h.entry, fun hmem => ?_⟩
    obtain ⟨hpc, _, hrest⟩ := h.next hmem
    exact ⟨hpc, rfl, hrest⟩

/-! ## The law -/

/-- In every run the timerfd has the first entry of the poller. So while its
channel is active it is the next one, before any handler of the iteration,
and its expiration is there: no read of the timerfd fails its assertion. -/
theorem no_read_sees_a_cleared_timerfd (fd : LoopChannel κ → Nat) (threadId : τ)
    (s : TimedLoop τ κ φ) (h : (machine fd threadId).Reachable s) :
    (∃ p, s.channels.poller_.pollfds_[0]? = some p ∧ p.fd = (fd .timerfdChannel_ : Int)) ∧
    (.timerfdChannel_ ∈ s.loop_.activeChannels_ → s.loop_.pc = .handlers ∧ s.expired = true ∧
      ∃ rest, s.loop_.activeChannels_ = .timerfdChannel_ :: rest ∧ .timerfdChannel_ ∉ rest) ∧
    s.handleEvent ≠ .error (.assertion "n == sizeof(howmany)") := by
  have hinv : s.Inv fd := by
    apply h.invariant
    · intro s hs
      exact construct_inv hs
    · rintro s a s' hs ⟨he, hok⟩
      exact hs.step he hok
  refine ⟨hinv.entry, hinv.next, ?_⟩
  obtain ⟨expired, hrun⟩ := handleEvent.spec hinv.reads
  simp [hrun]

/-- A timer that expires before the first poll, which reports it. -/
theorem no_read_sees_the_first_timer_cleared :
    ∃ s : TimedLoop Bool Unit Nat, .timerfdChannel_ ∈ s.loop_.activeChannels_ ∧
      s.loop_.pc = .handlers ∧ s.expired = true ∧
      s.handleEvent ≠ .error (.assertion "n == sizeof(howmany)") := by
  have h0 : (machine (fun c : LoopChannel Unit => if c = .timerfdChannel_ then 3 else 4)
      false).Reachable (_ : TimedLoop Bool Unit Nat) := .start (by rfl)
  have h1 := h0.next (a := .resetTimerfd) (by exact ⟨⟨rfl, fun _ => by decide⟩, rfl⟩)
  have h2 := h1.next (a := .expire) (by exact ⟨rfl, rfl⟩)
  have h3 := h2.next (a := .loop .loop) (by exact ⟨⟨⟨rfl, rfl⟩, rfl⟩, rfl⟩)
  have h4 := h3.next (a := .loop .clearQuit) (by exact ⟨⟨rfl, rfl⟩, rfl⟩)
  have h5 := h4.next (a := .loop .whileTest) (by exact ⟨⟨rfl, rfl⟩, rfl⟩)
  have h6 := h5.next (a := .poll fun i => if i = 0 then 1 else 0) (by
    refine ⟨⟨⟨rfl, rfl⟩, ⟨?_, ?_⟩⟩, rfl⟩
    · rintro (_ | _ | i) p hp hneg <;> cases hp
      · cases hneg
      · cases hneg
    · rintro (_ | _ | i) p hp hfd <;> cases hp
      · rfl
      · cases hfd)
  obtain ⟨_, hnext, hreads⟩ := no_read_sees_a_cleared_timerfd _ _ _ h6
  obtain ⟨hpc, hexp, _⟩ := hnext (by exact List.mem_cons_self)
  exact ⟨_, List.mem_cons_self, hpc, hexp, hreads⟩

end TimedLoop

end jmuduo.net
