-- The end of an event loop: its members are destroyed in the reverse of their
-- order, the wake channel before the timer queue, which still removes its own
-- channel from the poller.
import Jmuduo.TimedLoop

open outcome runs maps

namespace jmuduo.net

/-! ## The pointers that the poller follows -/

namespace LoopChannels

variable {κ : Type} [DecidableEq κ]

/-- The channel that `removeChannel` gives the index to, when the entry is not
the last one. -/
def moved (s : LoopChannels κ) (c : κ) : Option κ :=
  if (s.channel c).index_ = s.poller_.pollfds_.length - 1 then none
  else
    s.poller_.pollfds_.getLast?.bind fun back =>
      Map.find (s.poller_.channels_.erase (s.channel c).fd_) (decodeFd back.fd)

/-- The channels that the call follows a pointer of the map to. -/
def Op.follows (s : LoopChannels κ) : Op κ → List κ
  | .remove c => (s.moved c).toList
  | _ => []

end LoopChannels

/-- The channels that the step follows a pointer of the map to. -/
def TimedLoop.Act.follows {τ κ φ : Type} [DecidableEq κ] (s : TimedLoop τ κ φ) :
    TimedLoop.Act τ κ φ → List (LoopChannel κ)
  | .channel op => op.follows s.channels
  | .poll revents =>
    match s.channels.poll revents with
    | .ok (_, active) => active
    | .error _ => []
  | _ => []

/-- What a step does to the channels. -/
theorem TimedLoop.channels_cases {τ κ φ : Type} [DecidableEq τ] [DecidableEq κ]
    {s s' : TimedLoop τ κ φ} {a : TimedLoop.Act τ κ φ} (hok : a.run s = .ok s') :
    s'.channels = s.channels ∨ (∃ op, a = .channel op ∧ op.run s.channels = .ok s'.channels) ∨
      ∃ revents active, s.channels.poll revents = .ok (s'.channels, active) := by
  cases a with
  | poll revents =>
    simp only [TimedLoop.Act.run, bind_eq_ok] at hok
    obtain ⟨⟨channels, active⟩, hpoll, hok⟩ := hok
    cases hok
    exact Or.inr (Or.inr ⟨revents, active, hpoll⟩)
  | channel op =>
    simp only [TimedLoop.Act.run, bind_eq_ok] at hok
    obtain ⟨channels, hop, hok⟩ := hok
    cases hok
    exact Or.inr (Or.inl ⟨op, rfl, hop⟩)
  | handleEvent =>
    refine Or.inl ?_
    simp only [TimedLoop.Act.run, TimedLoop.handleEvent, TimedLoop.timer_dispatch] at hok
    split at hok
    · split at hok
      · simp only [bind_eq_ok, TimedLoop.readTimerfd] at hok
        obtain ⟨s₁, ⟨_, _, h1⟩, hok⟩ := hok
        cases h1
        cases hok
        rfl
      · cases hok
        rfl
    · cases hok
      rfl
  | _ =>
    cases hok
    exact Or.inl rfl

/-! ## The loop as an object -/

/-- How far the destructor came. -/
inductive Stage
  | alive
  | bodyDone
  | wakeChannelGone
  | timerDisabled
  | timerRemoved
  | ended
  deriving DecidableEq, Repr

/-- `destroyed` says which channels had their destructor run. -/
structure LoopObject (τ κ φ : Type) where
  loop : TimedLoop τ κ φ
  destroyed : LoopChannel κ → Bool
  stage : Stage

namespace LoopObject

variable {τ κ φ : Type} [DecidableEq κ]

/-- `~Channel`. -/
def destroy (c : LoopChannel κ) (s : LoopObject τ κ φ) : LoopObject τ κ φ :=
  { s with destroyed := Function.update s.destroyed c true }

@[simp]
theorem destroy_self {s : LoopObject τ κ φ} {c : LoopChannel κ} :
    (s.destroy c).destroyed c = true := Function.update_self _ _ _

theorem destroy_of_ne {s : LoopObject τ κ φ} {c d : LoopChannel κ} (hd : d ≠ c) :
    (s.destroy c).destroyed d = s.destroyed d := Function.update_of_ne hd _ _

/-- A pointer to a channel must not outlive it. -/
def follow (cs : List (LoopChannel κ)) (s : LoopObject τ κ φ) : Outcome Unit :=
  if ∀ c ∈ cs, s.destroyed c = false then .ok () else .error .badPointer

/-- A step of the loop, the end of a channel of the user, or one of the steps
of `~EventLoop`. Those on the timerfd are the ones of `~TimerQueue`. -/
inductive Act (τ κ φ : Type)
  | live (a : TimedLoop.Act τ κ φ)
  | destroyUser (c : κ)
  | destructBody
  | destroyWakeChannel
  | disableTimer
  | removeTimer
  | destroyTimer

section

variable [DecidableEq τ]

def Act.run (s : LoopObject τ κ φ) : Act τ κ φ → Outcome (LoopObject τ κ φ)
  | .live a => do
    s.follow (a.follows s.loop)
    let loop ← a.run s.loop
    pure { s with loop := loop }
  | .destroyUser c => pure (s.destroy (.user c))
  | .destructBody => do
    check "!looping_" (s.loop.loop_.looping_ = false)
    pure { s with stage := .bodyDone }
  | .destroyWakeChannel => pure { s.destroy .wakeChannel_ with stage := .wakeChannelGone }
  | .disableTimer => do
    let channels ← s.loop.channels.disableAll .timerfdChannel_
    pure { s with loop := { s.loop with channels := channels }, stage := .timerDisabled }
  | .removeTimer => do
    s.follow (LoopChannels.Op.follows s.loop.channels (.remove .timerfdChannel_))
    let channels ← s.loop.channels.remove .timerfdChannel_
    pure { s with loop := { s.loop with channels := channels }, stage := .timerRemoved }
  | .destroyTimer => pure { s.destroy .timerfdChannel_ with stage := .ended }

/-- When the step can be taken. The owner of a channel destroys it after its
removal, or never registered it, and before the loop is destroyed. -/
def Act.Enabled (s : LoopObject τ κ φ) : Act τ κ φ → Prop
  | .live a => s.stage = .alive ∧ a.Enabled s.loop ∧
      ∀ op, a = .channel op → s.destroyed op.target = false
  | .destroyUser c => s.stage = .alive ∧
      (s.loop.channels.removed (.user c) = true ∨ (s.loop.channels.channel (.user c)).index_ < 0)
  | .destructBody => s.stage = .alive ∧ s.loop.loop_.At .outside ∧
      ∀ f c, s.loop.channels.poller_.channels_.find f ≠ some (.user c)
  | .destroyWakeChannel => s.stage = .bodyDone
  | .disableTimer => s.stage = .wakeChannelGone
  | .removeTimer => s.stage = .timerDisabled
  | .destroyTimer => s.stage = .timerRemoved

/-- All the lives of a loop, from its constructor to its end, as long as no
`assert` fails and no pointer is followed that dangles. -/
def machine (fd : LoopChannel κ → Nat) (threadId : τ) :
    Machine (LoopObject τ κ φ) (Act τ κ φ) where
  init s := ∃ loop, TimedLoop.construct fd threadId = .ok loop ∧ s = ⟨loop, fun _ => false, .alive⟩
  step s a s' := a.Enabled s ∧ a.run s = .ok s'

end

/-! ## The law -/

/-- No destroyed channel is registered, so that the poller follows no pointer
to one, in a removal or in a report. -/
structure Clean (s : LoopObject τ κ φ) : Prop where
  mapped : ∀ f c, s.loop.channels.poller_.channels_.find f = some c → s.destroyed c = false
  removal : ∀ c d, s.loop.channels.moved c = some d → s.destroyed d = false
  report : ∀ revents channels active, s.loop.channels.poll revents = .ok (channels, active) →
    ∀ c ∈ active, s.destroyed c = false

theorem Clean.of_mapped {s : LoopObject τ κ φ}
    (h : ∀ f c, s.loop.channels.poller_.channels_.find f = some c → s.destroyed c = false) :
    s.Clean := by
  refine ⟨h, fun c d hd => ?_, fun revents channels active hok c hc => ?_⟩
  · unfold LoopChannels.moved at hd
    split at hd
    · cases hd
    · obtain ⟨back, _, hfind⟩ := Option.bind_eq_some_iff.mp hd
      rw [Map.find_erase] at hfind
      split at hfind
      · cases hfind
      · exact h _ d hfind
  · obtain ⟨_, hmem⟩ := LoopChannels.fillActiveChannels.spec hok
    obtain ⟨p, _, _, hfind⟩ := hmem c hc
    exact h _ c hfind

/-- What holds of a loop as long as no dangling pointer was followed: the
destructor does not come past the removal of the timerfd. -/
structure Inv (fd : LoopChannel κ → Nat) (s : LoopObject τ κ φ) : Prop where
  channels : s.loop.channels.Inv fun c => (fd c : Int)
  timer : s.loop.channels.removed .timerfdChannel_ = false ∧
    (s.loop.channels.channel .timerfdChannel_).index_ = 0
  wake : s.loop.channels.removed .wakeChannel_ = false ∧
    0 ≤ (s.loop.channels.channel .wakeChannel_).index_
  kept : s.destroyed .timerfdChannel_ = false
  users : ∀ c, s.destroyed (.user c) = true →
    s.loop.channels.removed (.user c) = true ∨ (s.loop.channels.channel (.user c)).index_ < 0
  alone : s.stage ≠ .alive → ∀ f c, s.loop.channels.poller_.channels_.find f ≠ some (.user c)
  stage : (s.stage = .alive ∨ s.stage = .bodyDone) ∧ s.destroyed .wakeChannel_ = false ∨
    (s.stage = .wakeChannelGone ∨ s.stage = .timerDisabled) ∧ s.destroyed .wakeChannel_ = true

omit [DecidableEq κ] in
theorem Inv.registered {fd : LoopChannel κ → Nat} {s : LoopObject τ κ φ} (h : s.Inv fd) :
    s.loop.channels.poller_.channels_.find (fd .timerfdChannel_ : Int) = some .timerfdChannel_ ∧
    s.loop.channels.poller_.channels_.find (fd .wakeChannel_ : Int) = some .wakeChannel_ :=
  ⟨h.channels.indexed _ h.timer.1 (by have := h.timer.2; omega),
    h.channels.indexed _ h.wake.1 h.wake.2⟩

/-- A destroyed channel of the user is not registered. -/
theorem Inv.clean {fd : LoopChannel κ → Nat} {s : LoopObject τ κ φ} (h : s.Inv fd)
    (hw : s.destroyed .wakeChannel_ = false) : s.Clean := by
  refine .of_mapped fun f c hf => ?_
  cases c with
  | timerfdChannel_ => exact h.kept
  | wakeChannel_ => exact hw
  | user c =>
    by_contra hd
    obtain ⟨_, hr, p, hp, _⟩ := h.channels.mapped f _ hf
    obtain ⟨i, hx, _⟩ := LoopChannels.entry_eq_some.mp hp
    rcases h.users c (by simpa using hd) with hremoved | hneg
    · rw [hremoved] at hr
      cases hr
    · omega

/-- The wake channel is never removed. -/
theorem Inv.unclean {fd : LoopChannel κ → Nat} {s : LoopObject τ κ φ} (h : s.Inv fd)
    (hd : s.destroyed .wakeChannel_ = true) : ¬ s.Clean := by
  intro hclean
  have hfalse := hclean.mapped _ _ h.registered.2
  rw [hd] at hfalse
  cases hfalse

omit [DecidableEq κ] in
theorem Inv.gone {fd : LoopChannel κ → Nat} {s : LoopObject τ κ φ} (h : s.Inv fd)
    (hstage : s.stage = .wakeChannelGone ∨ s.stage = .timerDisabled) :
    s.destroyed .wakeChannel_ = true := by
  rcases h.stage with ⟨hs | hs, _⟩ | ⟨_, hd⟩
  · simp [hs] at hstage
  · simp [hs] at hstage
  · exact hd

/-- The removal of the timerfd follows the pointer to the wake channel, which
has the last entry then. -/
theorem Inv.moved {fd : LoopChannel κ → Nat} {s : LoopObject τ κ φ} (h : s.Inv fd)
    (hs : s.stage ≠ .alive) :
    s.loop.channels.moved .timerfdChannel_ = some .wakeChannel_ := by
  obtain ⟨htimer, hwake⟩ := h.registered
  obtain ⟨j, q, hj, hq, _⟩ := h.channels.index h.wake.1 h.wake.2
  have hlt := LoopChannels.lt_of_entry hq
  have hj0 : j ≠ 0 := by
    rintro rfl
    have heq := h.channels.index_inj hwake htimer (by rw [hj, h.timer.2]; rfl)
    cases heq
  obtain ⟨back, hback⟩ : ∃ back, s.loop.channels.poller_.pollfds_.getLast? = some back := by
    cases hlast : s.loop.channels.poller_.pollfds_.getLast? with
    | none =>
      rw [List.getLast?_eq_none_iff.mp hlast] at hlt
      exact absurd hlt (Nat.not_lt_zero j)
    | some back => exact ⟨back, rfl⟩
  have hlast := hback
  rw [List.getLast?_eq_getElem?] at hlast
  obtain ⟨c, hc, hfd, hx⟩ := h.channels.slots _ _ hlast
  have hcw : c = .wakeChannel_ := by
    cases c with
    | timerfdChannel_ =>
      have hzero := h.timer.2
      omega
    | wakeChannel_ => rfl
    | user c => exact absurd hc (h.alone hs _ c)
  subst hcw
  unfold LoopChannels.moved
  rw [if_neg (by rw [h.timer.2]; omega), hback, Option.bind_some, Map.find_erase, if_neg, hc]
  rw [h.channels.fds, ← hfd]
  intro he
  rw [he, htimer] at hwake
  cases hwake

section

variable [DecidableEq τ]

omit [DecidableEq τ] in
theorem init_inv {fd : LoopChannel κ → Nat} {threadId : τ} {loop : TimedLoop τ κ φ}
    (hok : TimedLoop.construct fd threadId = .ok loop) :
    (⟨loop, fun _ => false, .alive⟩ : LoopObject τ κ φ).Inv fd := by
  have htimed := TimedLoop.construct_inv hok
  have hwake : loop.channels.removed .wakeChannel_ = false ∧
      0 ≤ (loop.channels.channel .wakeChannel_).index_ := by
    simp only [TimedLoop.construct, bind_eq_ok] at hok
    obtain ⟨c₁, h1, c₂, h2, hok⟩ := hok
    cases hok
    have hstart := LoopChannels.inv_start fun c : LoopChannel κ => (fd c : Int)
    have hs1 := (⟨rfl, h1⟩ : (LoopChannels.machine fun c : LoopChannel κ => (fd c : Int)).step _
      (.enableReading .timerfdChannel_) c₁)
    have hi := LoopChannels.step_inv (fun c => Int.natCast_nonneg _) hstart hs1
    have hother := LoopChannels.others_stay hstart hs1 (d := .wakeChannel_)
      (by simp [LoopChannels.Op.target])
    have hs2 := (⟨hother.1, h2⟩ : (LoopChannels.machine fun c : LoopChannel κ => (fd c : Int)).step
      c₁ (.enableReading .wakeChannel_) c₂)
    exact LoopChannels.target_indexed hi hs2 (by simp)
  exact ⟨htimed.channels, ⟨htimed.kept, htimed.first⟩, hwake, rfl, by simp,
    fun hs => absurd rfl hs, Or.inl ⟨Or.inl rfl, rfl⟩⟩

omit [DecidableEq τ] in
/-- A call on one channel keeps what holds of the others. -/
theorem Inv.channel {fd : LoopChannel κ → Nat} {s : LoopObject τ κ φ} (h : s.Inv fd)
    {op : LoopChannels.Op (LoopChannel κ)} {channels : LoopChannels (LoopChannel κ)}
    (hs : (LoopChannels.machine fun c : LoopChannel κ => (fd c : Int)).step s.loop.channels op
      channels) (hlive : s.stage = .alive) (huser : ∃ c, op.target = .user c)
    (hd : s.destroyed op.target = false) {loop : TimedLoop τ κ φ}
    (hloop : loop.channels = channels) : ({ s with loop := loop } : LoopObject τ κ φ).Inv fd := by
  subst hloop
  obtain ⟨c, hc⟩ := huser
  have htimer : op.target ≠ .timerfdChannel_ := by simp [hc]
  have hwake : op.target ≠ .wakeChannel_ := by simp [hc]
  obtain ⟨i, p, hi, hp, _⟩ := h.channels.index h.timer.1 (by have := h.timer.2; omega)
  have hzero : i = 0 := by
    have := h.timer.2
    omega
  subst hzero
  obtain ⟨hr, hx, _⟩ := LoopChannels.first_stays h.channels hs htimer h.timer.1 h.timer.2 hp
  obtain ⟨hwr, hwx⟩ := LoopChannels.others_stay h.channels hs hwake
  refine ⟨LoopChannels.step_inv (fun c => Int.natCast_nonneg _) h.channels hs, ⟨hr, hx⟩,
    ⟨hwr.trans h.wake.1, hwx.mpr h.wake.2⟩, h.kept, fun d hdd => ?_, fun hs' => absurd hlive hs',
    h.stage⟩
  have hne : op.target ≠ .user d := by
    rintro e
    rw [e, hdd] at hd
    cases hd
  obtain ⟨hdr, hdx⟩ := LoopChannels.others_stay h.channels hs hne
  rcases h.users d hdd with hremoved | hneg
  · exact Or.inl (hdr.trans hremoved)
  · refine Or.inr ?_
    by_contra hpos
    have := hdx.mp (by simpa using hpos)
    omega

theorem Inv.live {fd : LoopChannel κ → Nat} {s : LoopObject τ κ φ} (h : s.Inv fd)
    {a : TimedLoop.Act τ κ φ} {loop : TimedLoop τ κ φ} (he : (Act.live a).Enabled s)
    (hok : a.run s.loop = .ok loop) : ({ s with loop := loop } : LoopObject τ κ φ).Inv fd := by
  obtain ⟨hlive, hen, hd⟩ := he
  rcases TimedLoop.channels_cases hok with hsame | ⟨op, rfl, hop⟩ | ⟨revents, active, hpoll⟩
  · refine ⟨?_, ?_, ?_, h.kept, ?_, fun hs => absurd hlive hs, h.stage⟩
    · rw [hsame]
      exact h.channels
    · rw [hsame]
      exact h.timer
    · rw [hsame]
      exact h.wake
    · rw [hsame]
      exact h.users
  · exact h.channel ⟨hen.2.2, hop⟩ hlive hen.2.1 (hd op rfl) rfl
  · obtain ⟨hmarked, _⟩ := LoopChannels.fillActiveChannels.spec hpoll
    have hindex : ∀ c, (loop.channels.channel c).index_ = (s.loop.channels.channel c).index_ := by
      intro c
      obtain ⟨r, hr⟩ := hmarked.channel c
      rw [hr]
    have hremoved : loop.channels.removed = s.loop.channels.removed := hmarked.removed
    refine ⟨LoopChannels.inv_polled h.channels hmarked, ?_, ?_, h.kept, ?_,
      fun hs => absurd hlive hs, h.stage⟩
    · rw [hremoved, hindex]
      exact h.timer
    · rw [hremoved, hindex]
      exact h.wake
    · intro c hc
      rw [hremoved, hindex]
      exact h.users c hc

omit [DecidableEq τ] in
/-- `disableAll` of the timerfd leaves the poller as it was, but for the
entry. -/
theorem Inv.disableTimer {fd : LoopChannel κ → Nat} {s : LoopObject τ κ φ} (h : s.Inv fd)
    {channels : LoopChannels (LoopChannel κ)} (hstage : s.stage = .wakeChannelGone)
    (hok : s.loop.channels.disableAll .timerfdChannel_ = .ok channels) :
    ({ s with
      loop := { s.loop with channels := channels }
      stage := .timerDisabled } : LoopObject τ κ φ).Inv fd := by
  have hs := (⟨h.timer.1, hok⟩ : (LoopChannels.machine fun c : LoopChannel κ => (fd c : Int)).step
    s.loop.channels (.disableAll .timerfdChannel_) channels)
  have hgone := h.gone (Or.inl hstage)
  have hinv := LoopChannels.step_inv (fun c => Int.natCast_nonneg _) h.channels hs
  rcases LoopChannels.step_cases h.channels hs with
    ⟨_, _, hneg, _⟩ | ⟨_, p, _, rfl⟩ | ⟨hop, _⟩
  · have hzero := h.timer.2
    simp only [LoopChannels.Op.target] at hneg
    omega
  · have hindex : ∀ c, ((s.loop.channels.changed .timerfdChannel_
        (s.loop.channels.channel .timerfdChannel_).disableAll p).channel c).index_ =
          (s.loop.channels.channel c).index_ := by
      intro c
      rw [LoopChannels.changed_channel]
      split
      · rename_i hc
        rw [hc]
        rfl
      · rfl
    refine ⟨hinv, ⟨h.timer.1, (hindex _).trans h.timer.2⟩, ⟨h.wake.1, ?_⟩, h.kept,
      fun c hc => ?_, fun _ => h.alone (by simp [hstage]), Or.inr ⟨Or.inr rfl, hgone⟩⟩
    · exact (hindex .wakeChannel_).symm ▸ h.wake.2
    · rcases h.users c hc with hremoved | hneg
      · exact Or.inl hremoved
      · exact Or.inr ((hindex (.user c)).symm ▸ hneg)
  · cases hop

omit [DecidableEq τ] in
/-- The removal of the timerfd follows the pointer to the wake channel, whose
destructor has run. -/
theorem Inv.follow {fd : LoopChannel κ → Nat} {s : LoopObject τ κ φ} (h : s.Inv fd)
    (hstage : s.stage = .timerDisabled) :
    s.follow (LoopChannels.Op.follows s.loop.channels (.remove .timerfdChannel_)) =
      .error .badPointer := by
  have hgone := h.gone (Or.inr hstage)
  have hmoved := h.moved (by simp [hstage])
  unfold LoopObject.follow
  refine if_neg fun hall => ?_
  have hwake := hall .wakeChannel_ (by simp only [LoopChannels.Op.follows, hmoved]; simp)
  rw [hgone] at hwake
  cases hwake

theorem Inv.step {fd : LoopChannel κ → Nat} {s s' : LoopObject τ κ φ} {a : Act τ κ φ}
    (h : s.Inv fd) (he : a.Enabled s) (hok : a.run s = .ok s') : s'.Inv fd := by
  cases a with
  | live a =>
    simp only [Act.run, bind_eq_ok] at hok
    obtain ⟨_, _, loop, hrun, hok⟩ := hok
    cases hok
    exact h.live he hrun
  | destroyUser c =>
    cases hok
    refine ⟨h.channels, h.timer, h.wake, ?_, fun d hd => ?_, h.alone, ?_⟩
    · rw [destroy_of_ne (by simp)]
      exact h.kept
    · by_cases hdc : d = c
      · subst hdc
        exact he.2
      · rw [destroy_of_ne (by simpa using hdc)] at hd
        exact h.users d hd
    · rw [destroy_of_ne (by simp)]
      exact h.stage
  | destructBody =>
    simp only [Act.run, bind_eq_ok] at hok
    obtain ⟨_, _, hok⟩ := hok
    cases hok
    have hdead : s.destroyed .wakeChannel_ = false := by
      rcases h.stage with ⟨_, hd⟩ | ⟨hs | hs, _⟩
      · exact hd
      · rw [he.1] at hs
        cases hs
      · rw [he.1] at hs
        cases hs
    exact ⟨h.channels, h.timer, h.wake, h.kept, h.users, fun _ => he.2.2,
      Or.inl ⟨Or.inr rfl, hdead⟩⟩
  | destroyWakeChannel =>
    cases hok
    have hstage : s.stage = .bodyDone := he
    have hold : ∀ d : LoopChannel κ, d ≠ .wakeChannel_ →
        (s.destroy .wakeChannel_).destroyed d = s.destroyed d := fun d hd => destroy_of_ne hd
    have hself : (s.destroy .wakeChannel_).destroyed .wakeChannel_ = true := destroy_self
    refine ⟨h.channels, h.timer, h.wake, ?_, fun d hd => ?_,
      fun _ => h.alone (by simp [hstage]), Or.inr ⟨Or.inl rfl, hself⟩⟩
    · exact (hold _ (by simp)).trans h.kept
    · exact h.users d ((hold _ (by simp)).symm.trans hd)
  | disableTimer =>
    simp only [Act.run, bind_eq_ok] at hok
    obtain ⟨channels, hrun, hok⟩ := hok
    cases hok
    exact h.disableTimer he hrun
  | removeTimer =>
    -- the removal would follow the pointer to the wake channel
    simp only [Act.run, bind_eq_ok] at hok
    obtain ⟨_, hfollow, _⟩ := hok
    rw [h.follow he] at hfollow
    cases hfollow
  | destroyTimer =>
    have hstage : s.stage = .timerRemoved := he
    rcases h.stage with ⟨hs | hs, _⟩ | ⟨hs | hs, _⟩ <;> rw [hstage] at hs <;> cases hs

/-- Only the destructor of the loop destroys the wake channel. -/
theorem wake_kept {s s' : LoopObject τ κ φ} {a : Act τ κ φ}
    (hd : s.destroyed .wakeChannel_ = false) (hok : a.run s = .ok s')
    (hne : a ≠ .destroyWakeChannel) : s'.destroyed .wakeChannel_ = false := by
  cases a with
  | destroyWakeChannel => exact absurd rfl hne
  | destroyUser c =>
    cases hok
    exact (destroy_of_ne (by simp)).trans hd
  | destroyTimer =>
    cases hok
    have hold : (s.destroy .timerfdChannel_).destroyed .wakeChannel_ =
        s.destroyed .wakeChannel_ := destroy_of_ne (by simp)
    exact hold.trans hd
  | live a =>
    simp only [Act.run, bind_eq_ok] at hok
    obtain ⟨_, _, loop, _, hok⟩ := hok
    cases hok
    exact hd
  | destructBody =>
    simp only [Act.run, bind_eq_ok] at hok
    obtain ⟨_, _, hok⟩ := hok
    cases hok
    exact hd
  | disableTimer =>
    simp only [Act.run, bind_eq_ok] at hok
    obtain ⟨channels, _, hok⟩ := hok
    cases hok
    exact hd
  | removeTimer =>
    simp only [Act.run, bind_eq_ok] at hok
    obtain ⟨_, _, channels, _, hok⟩ := hok
    cases hok
    exact hd


theorem reachable_inv {fd : LoopChannel κ → Nat} {threadId : τ} {s : LoopObject τ κ φ}
    (h : (machine fd threadId).Reachable s) : s.Inv fd := by
  apply h.invariant
  · rintro s ⟨loop, hok, rfl⟩
    exact init_inv hok
  · rintro s a s' hs ⟨he, hok⟩
    exact hs.step he hok

/-- After its body, the destructor always comes to the removal of the timerfd,
and no further. -/
theorem Inv.destruct {fd : LoopChannel κ → Nat} {s : LoopObject τ κ φ} (h : s.Inv fd)
    (threadId : τ) (hstage : s.stage = .bodyDone) :
    ∃ s₁ s₂, (machine fd threadId).step s .destroyWakeChannel s₁ ∧ ¬ s₁.Clean ∧
      (machine fd threadId).step s₁ .disableTimer s₂ ∧
      (Act.removeTimer : Act τ κ φ).Enabled s₂ ∧
      (Act.removeTimer : Act τ κ φ).run s₂ = .error .badPointer := by
  obtain ⟨s₁, hok₁⟩ : ∃ s₁, (Act.destroyWakeChannel : Act τ κ φ).run s = .ok s₁ := ⟨_, rfl⟩
  have h₁ := h.step (a := .destroyWakeChannel) hstage hok₁
  have hstage₁ : s₁.stage = .wakeChannelGone := by
    cases hok₁
    rfl
  have hindex : (s₁.loop.channels.channel .timerfdChannel_).disableAll.index_ =
      (s₁.loop.channels.channel .timerfdChannel_).index_ := rfl
  obtain ⟨p, _, hdisable⟩ := LoopChannels.updateChannel_indexed h₁.channels h₁.timer.1
    (Int.le_of_eq h₁.timer.2.symm) hindex
  obtain ⟨s₂, hok₂⟩ : ∃ s₂, (Act.disableTimer : Act τ κ φ).run s₁ = .ok s₂ := by
    simp only [Act.run, LoopChannels.disableAll, hdisable, ok_bind]
    exact ⟨_, rfl⟩
  have h₂ := h₁.step (a := .disableTimer) hstage₁ hok₂
  have hstage₂ : s₂.stage = .timerDisabled := by
    simp only [Act.run, bind_eq_ok] at hok₂
    obtain ⟨channels, _, hok₂⟩ := hok₂
    cases hok₂
    rfl
  refine ⟨s₁, s₂, ⟨hstage, hok₁⟩, h₁.unclean (h₁.gone (Or.inl hstage₁)), ⟨hstage₁, hok₂⟩,
    hstage₂, ?_⟩
  simp only [Act.run, h₂.follow hstage₂]
  rfl

/-- A run is clean exactly as long as it does not destroy the wake channel,
which every run of `~EventLoop` does: the wake channel is still registered
then, and the removal of the timerfd follows the pointer to it. So no run comes
to the end of the destructor. -/
theorem a_run_is_clean_exactly_before_the_wake_channel_is_destroyed (fd : LoopChannel κ → Nat)
    (threadId : τ) (as : List (Act τ κ φ)) (s : LoopObject τ κ φ) :
    ((∃ s₀, (machine fd threadId).init s₀ ∧
        ((machine fd threadId).restrict fun _ a _ => a ≠ .destroyWakeChannel).Run s₀ as s) ↔
      ∃ s₀, (machine fd threadId).init s₀ ∧
        ((machine fd threadId).restrict fun _ _ s' => s'.Clean).Run s₀ as s) ∧
    ((machine fd threadId).Reachable s →
      (s.stage = .bodyDone → ∃ s₁ s₂, (machine fd threadId).step s .destroyWakeChannel s₁ ∧
        ¬ s₁.Clean ∧ (machine fd threadId).step s₁ .disableTimer s₂ ∧
        (Act.removeTimer : Act τ κ φ).Enabled s₂ ∧
        (Act.removeTimer : Act τ κ φ).run s₂ = .error .badPointer) ∧
      (s.destroyed .wakeChannel_ = true → ¬ s.Clean) ∧
      s.stage ≠ .timerRemoved ∧ s.stage ≠ .ended) := by
  refine ⟨exists_congr fun s₀ => and_congr_right ?_, fun h => ?_⟩
  · rintro ⟨loop, hstart, rfl⟩
    apply Machine.Run.restrict_iff
      (P := fun s => s.Inv fd ∧ s.destroyed .wakeChannel_ = false) ⟨init_inv hstart, rfl⟩
    · rintro s a s' ⟨hs, hd⟩ ⟨he, hok⟩
      have hs' := hs.step he hok
      refine ⟨fun hne => hs'.clean (wake_kept hd hok hne), ?_⟩
      rintro hclean rfl
      cases hok
      have hgone : (s.destroy .wakeChannel_).destroyed .wakeChannel_ = true := destroy_self
      exact hs'.unclean hgone hclean
    · rintro s a s' ⟨hs, hd⟩ ⟨he, hok⟩ hne
      exact ⟨hs.step he hok, wake_kept hd hok hne⟩
  · have hs := reachable_inv h
    refine ⟨hs.destruct threadId, hs.unclean, fun hstage => ?_, fun hstage => ?_⟩
    · rcases hs.stage with ⟨e | e, _⟩ | ⟨e | e, _⟩ <;> rw [hstage] at e <;> cases e
    · rcases hs.stage with ⟨e | e, _⟩ | ⟨e | e, _⟩ <;> rw [hstage] at e <;> cases e

/-- An empty loop is destroyed: the removal of the timerfd would give its index
to the wake channel, whose destructor has run. -/
theorem the_wake_channel_is_destroyed_while_registered :
    ∃ s : LoopObject Bool Unit Nat,
      (machine (fun c => if c = .timerfdChannel_ then 3 else 4) false).Reachable s ∧
      s.destroyed .wakeChannel_ = true ∧
      s.loop.channels.poller_.channels_.find 4 = some .wakeChannel_ ∧ ¬ s.Clean ∧
      (Act.removeTimer : Act Bool Unit Nat).Enabled s ∧
      (Act.removeTimer : Act Bool Unit Nat).run s = .error .badPointer := by
  have h0 : (machine (fun c : LoopChannel Unit => if c = .timerfdChannel_ then 3 else 4)
      false).Reachable (_ : LoopObject Bool Unit Nat) := .start (by exact ⟨_, rfl, rfl⟩)
  have h1 := h0.next (a := .destructBody) (by
    refine ⟨⟨rfl, ⟨rfl, rfl⟩, fun f c hf => ?_⟩, rfl⟩
    -- a channel of the user was never added, so it has no entry
    obtain ⟨_, _, p, hp, _⟩ := (reachable_inv h0).channels.mapped f (.user c) hf
    cases hp)
  have h2 := h1.next (a := .destroyWakeChannel) (by exact ⟨rfl, rfl⟩)
  have h3 := h2.next (a := .disableTimer) (by exact ⟨rfl, rfl⟩)
  refine ⟨_, h3, by rfl, by rfl, fun hclean => ?_, by rfl, by rfl⟩
  have hfalse := hclean.mapped 4 .wakeChannel_ (by rfl)
  cases hfalse

end

end LoopObject

end jmuduo.net
