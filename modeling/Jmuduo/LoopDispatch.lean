-- The active channels of a loop are a snapshot. The handlers of one iteration may
-- remove channels that are in it, and those are dispatched all the same.
import Jmuduo.ActiveChannels
import Jmuduo.ChannelRemoval

open outcome runs maps

namespace jmuduo.net

/-! ## The iterations of the source -/

/-- The channels of a loop, with the active ones that wait for their `handleEvent`. -/
structure LoopTurn (κ : Type) where
  channels : LoopChannels κ
  activeChannels_ : List κ

namespace LoopTurn

variable {κ : Type} [DecidableEq κ]

/-- The poll of an iteration, the next `handleEvent`, or a call on a channel, which
a handler makes, or a functor after the last one. -/
inductive Act (κ : Type)
  | poll (revents : Nat → BitVec 16)
  | handleEvent (c : κ)
  | call (op : LoopChannels.Op κ)

/-- The iterations of `EventLoop::loop()`, with any calls on any channels, also on
removed ones, as long as no `assert` fails. -/
def turns (fd : κ → Int) : Machine (LoopTurn κ) (Act κ) where
  init s := s = ⟨.start fd, []⟩
  step s a s' :=
    match a with
    | .poll revents => s.activeChannels_ = [] ∧
        s.channels.poll revents = .ok (s'.channels, s'.activeChannels_)
    | .handleEvent c => s.activeChannels_ = c :: s'.activeChannels_ ∧ s'.channels = s.channels
    | .call op => op.run s.channels = .ok s'.channels ∧ s'.activeChannels_ = s.activeChannels_

/-- A `handleEvent` is one of a registered channel. -/
def Act.Registered (s : LoopTurn κ) (a : Act κ) : Prop :=
  ∀ c, a = .handleEvent c → s.channels.Registered c

/-- The call removes no channel that still waits for its `handleEvent`. -/
def Act.Spares (s : LoopTurn κ) (a : Act κ) : Prop :=
  ∀ c, a = .call (.remove c) → c ∉ s.activeChannels_

end LoopTurn

/-! ## What any call does to the map -/

namespace LoopChannels

variable {κ : Type} [DecidableEq κ]

/-- What all calls keep, those on removed channels too: a channel has its own
descriptor and is in the map under no other. -/
structure Owned (fd : κ → Int) (s : LoopChannels κ) : Prop where
  fds : ∀ c, (s.channel c).fd_ = fd c
  mapped : ∀ f c, s.poller_.channels_.find f = some c → f = fd c

/-- The channel had an index, and has none of the entries of the map. -/
def Gone (s : LoopChannels κ) (c : κ) : Prop :=
  0 ≤ (s.channel c).index_ ∧ ¬ s.Registered c

omit [DecidableEq κ] in
theorem Owned.registered_iff {fd : κ → Int} {s : LoopChannels κ} (h : s.Owned fd) (c : κ) :
    s.Registered c ↔ s.poller_.channels_.find (fd c) = some c := by
  unfold Registered
  rw [h.fds]

/-- A removal takes the descriptor of its channel out, and the channel has an index. -/
theorem remove_returned {fd : κ → Int} {s s' : LoopChannels κ} {c : κ}
    (hfds : ∀ d, (s.channel d).fd_ = fd d) (hok : s.remove c = .ok s') :
    0 ≤ (s.channel c).index_ ∧ s'.poller_.channels_ = s.poller_.channels_.erase (fd c) ∧
    ∀ d, (s'.channel d).fd_ = fd d ∧ (0 ≤ (s.channel d).index_ → 0 ≤ (s'.channel d).index_) := by
  simp only [remove, removeChannel, bind_eq_ok, check_eq_ok, hfds] at hok
  obtain ⟨_, _, s₁, ⟨_, _, p, hat, _, _, hrest⟩, hs'⟩ := hok
  obtain ⟨i, hi, _⟩ := pollfdAt_eq_ok.mp hat
  cases hs'
  by_cases hlast : (s.channel c).index_ = s.poller_.pollfds_.length - 1
  · rw [if_pos hlast] at hrest
    cases hrest
    exact ⟨by omega, rfl, fun d => ⟨hfds d, fun hd => hd⟩⟩
  · rw [if_neg hlast] at hrest
    simp only [bind_eq_ok, demand_eq_ok] at hrest
    obtain ⟨back, _, moved, _, hs₁⟩ := hrest
    cases hs₁
    refine ⟨by omega, rfl, fun d => ?_⟩
    by_cases hd : d = moved
    · subst hd
      simp [setChannel, hi]
    · simp [setChannel, Function.update_of_ne hd, hfds]

/-- An update adds its channel to the map when it has no index. -/
theorem updateChannel_returned {s s' : LoopChannels κ} {c : κ} {ch : Channel}
    (hf : ch.fd_ = (s.channel c).fd_) (hx : ch.index_ = (s.channel c).index_)
    (hok : (s.setChannel c ch).updateChannel c = .ok s') :
    (s'.poller_.channels_ = s.poller_.channels_ ∨
      ((s.channel c).index_ < 0 ∧
        s'.poller_.channels_ = s.poller_.channels_.insert (s.channel c).fd_ c)) ∧
    ∀ d, (s'.channel d).fd_ = (s.channel d).fd_ ∧
      (0 ≤ (s.channel d).index_ → 0 ≤ (s'.channel d).index_) := by
  by_cases hneg : (s.channel c).index_ < 0
  · simp only [updateChannel, setChannel, Function.update_self, hx, hneg, if_true, bind_eq_ok,
      hf] at hok
    obtain ⟨_, _, hok⟩ := hok
    cases hok
    refine ⟨Or.inr ⟨hneg, rfl⟩, fun d => ?_⟩
    by_cases hd : d = c
    · subst hd
      simp
    · simp [Function.update_of_ne hd]
  · simp only [updateChannel, setChannel, Function.update_self, hx, hneg, if_false,
      bind_eq_ok] at hok
    obtain ⟨p, _, hok⟩ := hok
    cases hok
    refine ⟨Or.inl rfl, fun d => ?_⟩
    by_cases hd : d = c
    · subst hd
      simp [hf, hx]
    · simp [Function.update_of_ne hd]

/-- What any call that returns does to the map. A channel that had an index keeps
one. -/
theorem Op.run.spec {fd : κ → Int} {s s' : LoopChannels κ} {op : Op κ}
    (hfds : ∀ c, (s.channel c).fd_ = fd c) (hok : op.run s = .ok s') :
    (∀ c, (s'.channel c).fd_ = fd c) ∧
    (∀ c, 0 ≤ (s.channel c).index_ → 0 ≤ (s'.channel c).index_) ∧
    ((op ≠ .remove op.target ∧ s'.poller_.channels_ = s.poller_.channels_) ∨
      (op ≠ .remove op.target ∧ (s.channel op.target).index_ < 0 ∧
        s'.poller_.channels_ = s.poller_.channels_.insert (fd op.target) op.target) ∨
      (op = .remove op.target ∧ 0 ≤ (s.channel op.target).index_ ∧
        s'.poller_.channels_ = s.poller_.channels_.erase (fd op.target))) := by
  by_cases hop : op = .remove op.target
  · rw [hop] at hok
    obtain ⟨hi, herase, hkept⟩ := remove_returned hfds hok
    exact ⟨fun c => (hkept c).1, fun c => (hkept c).2, Or.inr (Or.inr ⟨hop, hi, herase⟩)⟩
  · obtain ⟨hf, hx⟩ := op.interest_fields (s.channel op.target)
    rw [Op.run_update hop] at hok
    obtain ⟨hmap, hkept⟩ := updateChannel_returned hf hx hok
    refine ⟨fun c => (hkept c).1.trans (hfds c), fun c => (hkept c).2, ?_⟩
    rcases hmap with hsame | ⟨hneg, hinsert⟩
    · exact Or.inl ⟨hop, hsame⟩
    · rw [hfds] at hinsert
      exact Or.inr (Or.inl ⟨hop, hneg, hinsert⟩)

theorem Owned.call {fd : κ → Int} {s s' : LoopChannels κ} {op : Op κ} (h : s.Owned fd)
    (hok : op.run s = .ok s') : s'.Owned fd := by
  obtain ⟨hfds, _, hmap⟩ := Op.run.spec h.fds hok
  refine ⟨hfds, fun f c hf => ?_⟩
  rcases hmap with ⟨_, hsame⟩ | ⟨_, _, hinsert⟩ | ⟨_, _, herase⟩
  · rw [hsame] at hf
    exact h.mapped f c hf
  · rw [hinsert, Map.find_insert] at hf
    split at hf
    · rename_i he
      cases hf
      exact he
    · exact h.mapped f c hf
  · rw [herase, Map.find_erase] at hf
    split at hf
    · cases hf
    · exact h.mapped f c hf

/-- A registered channel stays so in all calls but its own removal. -/
theorem Owned.registered {fd : κ → Int} (hfd : Function.Injective fd) {s s' : LoopChannels κ}
    {op : Op κ} (h : s.Owned fd) (hok : op.run s = .ok s') {c : κ} (hop : op ≠ .remove c)
    (hc : s.Registered c) : s'.Registered c := by
  rw [(h.call hok).registered_iff]
  rw [h.registered_iff] at hc
  obtain ⟨_, _, hmap⟩ := Op.run.spec h.fds hok
  rcases hmap with ⟨_, hsame⟩ | ⟨_, _, hinsert⟩ | ⟨hremove, _, herase⟩
  · rw [hsame, hc]
  · rw [hinsert, Map.find_insert]
    split
    · rename_i he
      rw [hfd he]
    · exact hc
  · have hne : fd c ≠ fd op.target := by
      intro he
      rw [hremove, hfd he] at hop
      exact hop rfl
    rw [herase, Map.find_erase_ne hne, hc]

theorem Owned.removed {fd : κ → Int} {s s' : LoopChannels κ} {c : κ} (h : s.Owned fd)
    (hok : (Op.remove c).run s = .ok s') : s'.Gone c := by
  obtain ⟨_, hindex, hmap⟩ := Op.run.spec h.fds hok
  rcases hmap with ⟨hop, _⟩ | ⟨hop, _⟩ | ⟨_, hi, herase⟩
  · exact absurd rfl hop
  · exact absurd rfl hop
  · refine ⟨hindex c hi, ?_⟩
    rw [(h.call hok).registered_iff, herase]
    simp [Op.target]

/-- A channel that is gone stays so: with its index, no update adds it again. -/
theorem Owned.gone {fd : κ → Int} (hfd : Function.Injective fd) {s s' : LoopChannels κ}
    {op : Op κ} (h : s.Owned fd) (hok : op.run s = .ok s') {c : κ} (hc : s.Gone c) :
    s'.Gone c := by
  obtain ⟨hi, hnot⟩ := hc
  rw [h.registered_iff] at hnot
  obtain ⟨_, hindex, hmap⟩ := Op.run.spec h.fds hok
  refine ⟨hindex c hi, ?_⟩
  rw [(h.call hok).registered_iff]
  rcases hmap with ⟨_, hsame⟩ | ⟨_, hneg, hinsert⟩ | ⟨_, _, herase⟩
  · rw [hsame]
    exact hnot
  · have hne : fd c ≠ fd op.target := by
      intro he
      rw [← hfd he] at hneg
      omega
    rw [hinsert, Map.find_insert, if_neg hne]
    exact hnot
  · rw [herase, Map.find_erase]
    split
    · simp
    · exact hnot

/-- All that a poll reports is registered. -/
theorem Owned.poll {fd : κ → Int} {s s' : LoopChannels κ} {revents : Nat → BitVec 16}
    {active : List κ} (h : s.Owned fd) (hok : s.poll revents = .ok (s', active)) :
    s'.Owned fd ∧ ∀ c ∈ active, s'.Registered c := by
  obtain ⟨hmarked, hreported⟩ := fillActiveChannels.spec hok
  have hmap : s'.poller_.channels_ = s.poller_.channels_ := by rw [hmarked.poller_]
  have howned : s'.Owned fd := by
    refine ⟨fun c => ?_, fun f c hf => ?_⟩
    · obtain ⟨r, hr⟩ := hmarked.channel c
      rw [hr]
      exact h.fds c
    · rw [hmap] at hf
      exact h.mapped f c hf
  refine ⟨howned, fun c hc => ?_⟩
  obtain ⟨p, _, _, hfind⟩ := hreported c hc
  have hfind' : s.poller_.channels_.find p.fd = some c := hfind
  rw [howned.registered_iff, hmap, ← h.mapped _ _ hfind', hfind']

end LoopChannels

/-! ## The law of the dispatch -/

namespace LoopTurn

variable {κ : Type} [DecidableEq κ]

theorem turns_owned {fd : κ → Int} {s s' : LoopTurn κ} {a : Act κ} (h : s.channels.Owned fd)
    (hs : (turns fd).step s a s') : s'.channels.Owned fd := by
  cases a with
  | poll revents => exact (h.poll hs.2).1
  | handleEvent c =>
    have hsame : s'.channels = s.channels := hs.2
    rw [hsame]
    exact h
  | call op => exact h.call hs.1

/-- While the calls spare the waiting channels, those are registered. -/
theorem waiting_registered {fd : κ → Int} (hfd : Function.Injective fd) {s s' : LoopTurn κ}
    {a : Act κ} (h : s.channels.Owned fd)
    (hwait : ∀ c ∈ s.activeChannels_, s.channels.Registered c) (hs : (turns fd).step s a s')
    (hspares : a.Spares s) : ∀ c ∈ s'.activeChannels_, s'.channels.Registered c := by
  intro c hc
  cases a with
  | poll revents => exact (h.poll hs.2).2 c hc
  | handleEvent d =>
    obtain ⟨hactive, hsame⟩ := hs
    rw [hsame]
    refine hwait c ?_
    rw [hactive]
    exact List.mem_cons_of_mem d hc
  | call op =>
    obtain ⟨hok, hsame⟩ := hs
    rw [hsame] at hc
    refine h.registered hfd hok ?_ (hwait c hc)
    rintro rfl
    exact hspares c rfl hc

/-- A waiting channel is gone. -/
def Doomed (s : LoopTurn κ) : Prop :=
  ∃ c ∈ s.activeChannels_, s.channels.Gone c

/-- From there each step is a dispatch of a channel that is not registered, or the
channel waits on. -/
theorem Doomed.step {fd : κ → Int} (hfd : Function.Injective fd) {s s' : LoopTurn κ} {a : Act κ}
    (h : s.channels.Owned fd) (hd : s.Doomed) (hs : (turns fd).step s a s')
    (hreg : a.Registered s) : s'.Doomed := by
  obtain ⟨c, hc, hgone⟩ := hd
  cases a with
  | poll revents =>
    have hnone : s.activeChannels_ = [] := hs.1
    rw [hnone] at hc
    cases hc
  | handleEvent d =>
    obtain ⟨hactive, hsame⟩ := hs
    rw [hactive] at hc
    rcases List.mem_cons.mp hc with rfl | hrest
    · exact absurd (hreg c rfl) hgone.2
    · exact ⟨c, hrest, by rw [hsame]; exact hgone⟩
  | call op =>
    obtain ⟨hok, hsame⟩ := hs
    exact ⟨c, by rw [hsame]; exact hc, h.gone hfd hok hgone⟩

/-- A call that does not spare a waiting channel dooms it. -/
theorem doomed_of_not_spares {fd : κ → Int} {s s' : LoopTurn κ} {a : Act κ}
    (h : s.channels.Owned fd) (hs : (turns fd).step s a s') (hnot : ¬ a.Spares s) :
    s'.Doomed := by
  unfold Act.Spares at hnot
  push Not at hnot
  obtain ⟨c, rfl, hc⟩ := hnot
  exact ⟨c, by rw [hs.2]; exact hc, h.removed hs.1⟩

omit [DecidableEq κ] in
theorem owned_start (fd : κ → Int) : (LoopChannels.start fd).Owned fd :=
  ⟨fun _ => rfl, fun f c hf => by simp [LoopChannels.start] at hf⟩

/-- In every run whose calls remove no channel that waits for its `handleEvent`, all
channels are registered when they are dispatched. A run that came to the end of an
iteration has only such dispatches exactly if its calls are like that. -/
theorem only_registered_channels_are_dispatched_where_waiting_ones_are_spared (fd : κ → Int)
    (hfd : Function.Injective fd) (acts : List (Act κ)) (s : LoopTurn κ) :
    (((turns fd).restrict fun s a _ => a.Spares s).Run ⟨.start fd, []⟩ acts s →
      ((turns fd).restrict fun s a _ => a.Registered s).Run ⟨.start fd, []⟩ acts s) ∧
    (s.activeChannels_ = [] →
      (((turns fd).restrict fun s a _ => a.Spares s).Run ⟨.start fd, []⟩ acts s ↔
        ((turns fd).restrict fun s a _ => a.Registered s).Run ⟨.start fd, []⟩ acts s)) := by
  have hforth : ((turns fd).restrict fun s a _ => a.Spares s).Run ⟨.start fd, []⟩ acts s →
      ((turns fd).restrict fun s a _ => a.Registered s).Run ⟨.start fd, []⟩ acts s := by
    intro h
    refine (h.restrict_congr (P := fun s => s.channels.Owned fd ∧
      ∀ c ∈ s.activeChannels_, s.channels.Registered c) ⟨owned_start fd, ?_⟩ ?_ ?_).1
    · intro c hc
      cases hc
    · rintro s a s' ⟨_, hwait⟩ hs _ c rfl
      refine hwait c ?_
      rw [hs.1]
      exact List.mem_cons_self
    · rintro s a s' ⟨h, hwait⟩ hs hspares
      exact ⟨turns_owned h hs, waiting_registered hfd h hwait hs hspares⟩
  refine ⟨hforth, fun hend => ⟨hforth, fun h => ?_⟩⟩
  have key : s.channels.Owned fd ∧
      (s.Doomed ∨ ((turns fd).restrict fun s a _ => a.Spares s).Run ⟨.start fd, []⟩ acts s) := by
    clear hend hforth
    induction h with
    | nil => exact ⟨owned_start fd, Or.inr .nil⟩
    | @snoc s s' acts a _ hst ih =>
      obtain ⟨howned, hor⟩ := ih
      refine ⟨turns_owned howned hst.1, ?_⟩
      rcases hor with hdoomed | hrun
      · exact Or.inl (hdoomed.step hfd howned hst.1 hst.2)
      · by_cases hspares : a.Spares s
        · exact Or.inr (hrun.snoc ⟨hst.1, hspares⟩)
        · exact Or.inl (doomed_of_not_spares howned hst.1 hspares)
  rcases key.2 with ⟨c, hc, _⟩ | hrun
  · rw [hend] at hc
    cases hc
  · exact hrun

/-- Two channels are active, and the handler of the first one removes its own. -/
theorem a_handler_that_removes_its_own_channel :
    ∃ acts s, .handleEvent true ∈ acts ∧
      ((turns LoopChannels.twoFds).restrict fun s a _ => a.Registered s).Run
        ⟨.start LoopChannels.twoFds, []⟩ acts s := by
  have h0 : ((turns LoopChannels.twoFds).restrict fun s a _ => a.Spares s).Run
      ⟨.start LoopChannels.twoFds, []⟩ [] (_ : LoopTurn Bool) := .nil
  have h1 := h0.snoc (a := .call (.enableReading false)) (u := ⟨_, _⟩)
    (by exact ⟨⟨rfl, rfl⟩, fun _ h => by cases h⟩)
  have h2 := h1.snoc (a := .call (.enableReading true)) (u := ⟨_, _⟩)
    (by exact ⟨⟨rfl, rfl⟩, fun _ h => by cases h⟩)
  have h3 := h2.snoc (a := .poll fun _ => 1) (u := ⟨_, [false, true]⟩)
    (by exact ⟨⟨rfl, rfl⟩, fun _ h => by cases h⟩)
  have h4 := h3.snoc (a := .handleEvent false) (u := ⟨_, [true]⟩)
    (by exact ⟨⟨rfl, rfl⟩, fun _ h => by cases h⟩)
  have h5 := h4.snoc (a := .call (.disableAll false)) (u := ⟨_, _⟩)
    (by exact ⟨⟨rfl, rfl⟩, fun _ h => by cases h⟩)
  have h6 := h5.snoc (a := .call (.remove false)) (u := ⟨_, [true]⟩)
    (by exact ⟨⟨rfl, rfl⟩, fun c h => by cases h; decide⟩)
  have h7 := h6.snoc (a := .handleEvent true) (u := ⟨_, []⟩)
    (by exact ⟨⟨rfl, rfl⟩, fun _ h => by cases h⟩)
  exact ⟨_, _, by simp, (only_registered_channels_are_dispatched_where_waiting_ones_are_spared
    LoopChannels.twoFds LoopChannels.twoFds_injective _ _).1 h7⟩

/-- Two channels are active, and the handler of the first one removes the other. -/
theorem a_removed_channel_is_dispatched :
    ∃ s s', (turns LoopChannels.twoFds).Reachable s ∧
      (turns LoopChannels.twoFds).step s (.handleEvent true) s' ∧
      ¬ s.channels.Registered true := by
  have h0 : (turns LoopChannels.twoFds).Reachable (_ : LoopTurn Bool) := .start (by rfl)
  have h1 := h0.next (a := .call (.enableReading false)) (t := ⟨_, _⟩) (by exact ⟨rfl, rfl⟩)
  have h2 := h1.next (a := .call (.enableReading true)) (t := ⟨_, _⟩) (by exact ⟨rfl, rfl⟩)
  have h3 := h2.next (a := .poll fun _ => 1) (t := ⟨_, [false, true]⟩) (by exact ⟨rfl, rfl⟩)
  have h4 := h3.next (a := .handleEvent false) (t := ⟨_, [true]⟩) (by exact ⟨rfl, rfl⟩)
  have h5 := h4.next (a := .call (.disableAll true)) (t := ⟨_, _⟩) (by exact ⟨rfl, rfl⟩)
  have h6 := h5.next (a := .call (.remove true)) (t := ⟨_, [true]⟩) (by exact ⟨rfl, rfl⟩)
  refine ⟨_, ⟨_, []⟩, h6, ⟨rfl, rfl⟩, ?_⟩
  unfold LoopChannels.Registered
  decide

end LoopTurn

end jmuduo.net
