-- The laws of removed channels. A channel keeps its index when it is removed, so
-- that a later update takes the entry of another one, and a channel that was never
-- updated cannot be removed at all.
import Jmuduo.PollSet

open outcome runs maps

namespace jmuduo.net

namespace LoopChannels

variable {κ : Type} [DecidableEq κ]

/-! ## The calls on any channels -/

/-- Any calls on any channels, also on removed ones. -/
def calls (fd : κ → Int) : Machine (LoopChannels κ) (Op κ) where
  init s := s = start fd
  step s op s' := op.run s = .ok s'

/-- The call updates no channel that was removed. -/
def Op.Careful (s : LoopChannels κ) (op : Op κ) : Prop :=
  op ≠ .remove op.target → s.removed op.target = false

/-- An update of the channel `c` leaves the entries of the other descriptors. It
adds an entry where the map does not have the channel, and none otherwise. -/
structure Leaves (s : LoopChannels κ) (c : κ) (s' : LoopChannels κ) : Prop where
  known : s.Registered c → s'.poller_.pollfds_.length = s.poller_.pollfds_.length ∧
    ∀ (i : Nat) p, s.poller_.pollfds_[i]? = some p → decodeFd p.fd ≠ (s.channel c).fd_ →
      s'.poller_.pollfds_[i]? = some p
  new : ¬ s.Registered c → ∃ p, s'.poller_.pollfds_ = s.poller_.pollfds_ ++ [p] ∧
    decodeFd p.fd = (s.channel c).fd_
  afresh : s.removed c = true → s'.Registered c ∧
    ∃ p, s'.entry c = some p ∧ decodeFd p.fd = (s.channel c).fd_

/-- An update returns, and leaves the entries of the other channels. -/
def Op.Minds (s : LoopChannels κ) (op : Op κ) : Prop :=
  op ≠ .remove op.target → ∃ s', op.run s = .ok s' ∧ s.Leaves op.target s'

/-! ## What careful calls keep -/

/-- The invariant, and the indexes of the removed channels are no fresh ones. -/
structure Tidy (fd : κ → Int) (s : LoopChannels κ) : Prop where
  inv : s.Inv fd
  stale : ∀ c, s.removed c = true → 0 ≤ (s.channel c).index_

omit [DecidableEq κ] in
theorem Inv.not_registered {fd : κ → Int} {s : LoopChannels κ} (h : s.Inv fd) {c : κ}
    (hr : s.removed c = true) : s.poller_.channels_.find (fd c) ≠ some c := by
  intro hfind
  obtain ⟨_, hkept, _⟩ := h.mapped _ _ hfind
  rw [hr] at hkept
  cases hkept

/-- The assert of `removeChannel` fails for a channel that was removed. -/
theorem Inv.not_removed_twice {fd : κ → Int} (hfd : Function.Injective fd) (h0 : ∀ c, 0 ≤ fd c)
    {s s' : LoopChannels κ} (h : s.Inv fd) {c : κ} (hok : s.remove c = .ok s') :
    s.removed c = false := by
  simp only [remove, removeChannel, bind_eq_ok, check_eq_ok, h.fds] at hok
  obtain ⟨_, _, _, ⟨_, _, p, hat, _, ⟨hp, _⟩, _⟩, _⟩ := hok
  obtain ⟨i, _, hpi⟩ := pollfdAt_eq_ok.mp hat
  obtain ⟨d, hd, hfdd, _⟩ := h.slots i p hpi
  rw [hp, decodeFd_neg (h0 c)] at hd hfdd
  rw [hfd hfdd] at hd
  exact (h.mapped _ _ hd).2.1

/-- A careful call is a step on a channel that was not removed. -/
theorem Op.Careful.step {fd : κ → Int} (hfd : Function.Injective fd) (h0 : ∀ c, 0 ≤ fd c)
    {s s' : LoopChannels κ} {op : Op κ} (h : s.Inv fd) (hc : op.Careful s)
    (hok : op.run s = .ok s') : (machine fd).step s op s' := by
  refine ⟨?_, hok⟩
  by_cases hop : op = .remove op.target
  · rw [hop] at hok
    exact h.not_removed_twice hfd h0 hok
  · exact hc hop

theorem Tidy.step {fd : κ → Int} (h0 : ∀ c, 0 ≤ fd c) {s s' : LoopChannels κ} {op : Op κ}
    (h : s.Tidy fd) (hs : (machine fd).step s op s') : s'.Tidy fd := by
  refine ⟨step_inv h0 h.inv hs, fun d hd => ?_⟩
  by_cases hdc : op.target = d
  · subst hdc
    by_cases hop : op = .remove op.target
    · have hok := hs.2
      rw [hop] at hok
      obtain ⟨i, ht⟩ := remove.spec h.inv hs.1 hok
      rw [ht.kept _ (Or.inl rfl), ht.index]
      exact Int.natCast_nonneg i
    · exact (target_indexed h.inv hs hop).2
  · obtain ⟨hremoved, hindex⟩ := others_stay h.inv hs hdc
    rw [hremoved] at hd
    exact hindex.mpr (h.stale d hd)

theorem careful_tidy {fd : κ → Int} (hfd : Function.Injective fd) (h0 : ∀ c, 0 ≤ fd c)
    {s : LoopChannels κ} (h : ((calls fd).restrict fun s op _ => op.Careful s).Reachable s) :
    s.Tidy fd := by
  apply h.invariant
  · rintro s rfl
    exact ⟨inv_start fd, fun c hc => by cases hc⟩
  · rintro s op s' hs ⟨hok, hc⟩
    exact hs.step h0 (hc.step hfd h0 hs.inv hok)

/-! ## One update -/

/-- An update of a channel that was not removed returns. -/
theorem Op.returns {fd : κ → Int} (hfd : Function.Injective fd) {s : LoopChannels κ} {op : Op κ}
    (h : s.Inv fd) (hop : op ≠ .remove op.target) (hr : s.removed op.target = false) :
    ∃ s', op.run s = .ok s' := by
  obtain ⟨hf, hx⟩ := op.interest_fields (s.channel op.target)
  rw [Op.run_update hop]
  by_cases hi : (s.channel op.target).index_ < 0
  · have hnone : s.poller_.channels_.find (fd op.target) = none := by
      cases hfind : s.poller_.channels_.find (fd op.target) with
      | none => rfl
      | some d =>
        obtain ⟨he, _, p, hp, _⟩ := h.mapped _ _ hfind
        rw [← hfd he] at hp
        obtain ⟨i, hi', _⟩ := entry_eq_some.mp hp
        omega
    have hneg : (op.interest (s.channel op.target)).index_ < 0 := by omega
    have hcheck : (s.poller_.channels_.find (op.interest (s.channel op.target)).fd_).isNone := by
      rw [hf, h.fds, hnone]
      rfl
    simp only [updateChannel, setChannel, Function.update_self, hneg, if_true]
    rw [check_of hcheck, ok_bind]
    exact ⟨_, rfl⟩
  · obtain ⟨p, _, hok⟩ := updateChannel_indexed h hr (by omega) hx
    exact ⟨_, hok⟩

/-- An update of a channel that was not removed minds its entry. -/
theorem Op.minds {fd : κ → Int} (hfd : Function.Injective fd) (h0 : ∀ c, 0 ≤ fd c)
    {s : LoopChannels κ} {op : Op κ} (h : s.Inv fd) (hr : s.removed op.target = false) :
    op.Minds s := by
  intro hop
  obtain ⟨s', hok⟩ := Op.returns hfd h hop hr
  have hs : (machine fd).step s op s' := ⟨hr, hok⟩
  obtain ⟨hf, hx⟩ := op.interest_fields (s.channel op.target)
  refine ⟨s', hok, ?_⟩
  rcases step_cases h hs with ⟨_, hnone, _, rfl⟩ | ⟨_, p, hp, rfl⟩ | ⟨hremove, _⟩
  · have hnot : ¬ s.Registered op.target := by
      rw [registered_iff h, hnone]
      simp
    refine ⟨fun hc => absurd hc hnot, fun _ => ⟨_, rfl, ?_⟩, fun hc => ?_⟩
    · simp only [hf, h.fds]
      exact decodeFd_of_nonneg (h0 _)
    · rw [hr] at hc
      cases hc
  · obtain ⟨i, hi, hat⟩ := entry_eq_some.mp hp
    have hreg := h.indexed op.target hr (by omega)
    obtain ⟨_, _, q, hq, hqd, _⟩ := h.mapped _ _ hreg
    rw [hp] at hq
    cases hq
    have hset : (s.changed op.target (op.interest (s.channel op.target)) p).poller_.pollfds_ =
        s.poller_.pollfds_.set i (updated (op.interest (s.channel op.target)) p) := by
      simp [changed, setChannel, hx, hi]
    refine ⟨fun _ => ⟨?_, fun j q hj hne => ?_⟩, fun hc => ?_, fun hc => ?_⟩
    · rw [hset, List.length_set]
    · have hij : i ≠ j := by
        rintro rfl
        rw [hat] at hj
        cases hj
        rw [h.fds] at hne
        exact hne hqd
      rw [hset, List.getElem?_set_ne hij, hj]
    · exact absurd ((registered_iff h _).mpr hreg) hc
    · rw [hr] at hc
      cases hc
  · exact absurd hremove hop

/-- An update of a removed channel takes the entry that came to its index, or
there is none. -/
theorem Tidy.not_minds {fd : κ → Int} {s : LoopChannels κ} {op : Op κ} (h : s.Tidy fd)
    (hop : op ≠ .remove op.target) (hr : s.removed op.target = true) : ¬ op.Minds s := by
  intro hminds
  obtain ⟨s', hok, hleaves⟩ := hminds hop
  have hnot : ¬ s.Registered op.target := by
    rw [registered_iff h.inv]
    exact h.inv.not_registered hr
  obtain ⟨p, hgrown, _⟩ := hleaves.new hnot
  have hi := h.stale op.target hr
  have hsame : s'.poller_.pollfds_.length = s.poller_.pollfds_.length := by
    obtain ⟨_, hx⟩ := op.interest_fields (s.channel op.target)
    rw [Op.run_update hop] at hok
    have hpos : ¬ (op.interest (s.channel op.target)).index_ < 0 := by omega
    simp only [updateChannel, setChannel, Function.update_self, hpos, if_false,
      bind_eq_ok] at hok
    obtain ⟨q, _, hok⟩ := hok
    cases hok
    exact List.length_set
  rw [hgrown, List.length_append] at hsame
  simp at hsame

theorem Tidy.minds_iff {fd : κ → Int} (hfd : Function.Injective fd) (h0 : ∀ c, 0 ≤ fd c)
    {s : LoopChannels κ} (h : s.Tidy fd) (op : Op κ) : op.Minds s ↔ op.Careful s := by
  by_cases hop : op = .remove op.target
  · exact ⟨fun _ hne => absurd hop hne, fun _ hne => absurd hop hne⟩
  · cases hr : s.removed op.target with
    | false => exact ⟨fun _ _ => hr, fun _ => Op.minds hfd h0 h.inv hr⟩
    | true =>
      refine ⟨fun hminds => absurd hminds (h.not_minds hop hr), fun hc => ?_⟩
      have hkept := hc hop
      rw [hr] at hkept
      cases hkept

/-- The updates mind their entries in all the runs that update no removed channel,
and in no others. After such a run, the next update minds its entry exactly when
its channel was not removed. -/
theorem the_updates_mind_their_entries_exactly_in_the_careful_runs (fd : κ → Int)
    (hfd : Function.Injective fd) (h0 : ∀ c, 0 ≤ fd c) (ops : List (Op κ)) (s : LoopChannels κ) :
    (((calls fd).restrict fun s op _ => op.Careful s).Run (start fd) ops s ↔
      ((calls fd).restrict fun s op _ => op.Minds s).Run (start fd) ops s) ∧
    (((calls fd).restrict fun s op _ => op.Careful s).Run (start fd) ops s →
      ∀ op : Op κ, op.Minds s ↔ op.Careful s) := by
  constructor
  · refine Machine.Run.restrict_iff (P := Tidy fd) ⟨inv_start fd, fun c hc => by cases hc⟩ ?_ ?_
    · intro s op s' hs _
      exact (hs.minds_iff hfd h0 op).symm
    · intro s op s' hs hok hc
      exact hs.step h0 (Op.Careful.step hfd h0 hs.inv hc hok)
  · intro hrun op
    exact (careful_tidy hfd h0 ⟨_, _, rfl, hrun⟩).minds_iff hfd h0 op

/-- The descriptors of two channels. -/
def twoFds (b : Bool) : Int :=
  if b then 6 else 5

theorem twoFds_injective : Function.Injective twoFds := by
  unfold Function.Injective
  decide

/-- Two channels, and the one that was not removed is disabled. -/
theorem an_update_minds_its_entry_beside_a_removed_channel :
    ∃ s, (calls twoFds).Reachable s ∧ s.removed false = true ∧
      (Op.disableAll true).Minds s := by
  have h0 : ((calls twoFds).restrict fun s op _ => op.Careful s).Run
      (start twoFds) [] (start twoFds) := .nil
  have h1 := h0.snoc (a := .enableReading false) (by exact ⟨rfl, fun _ => rfl⟩)
  have h2 := h1.snoc (a := .enableReading true) (by exact ⟨rfl, fun _ => rfl⟩)
  have h3 := h2.snoc (a := .disableAll false) (by exact ⟨rfl, fun _ => rfl⟩)
  have h4 := h3.snoc (a := .remove false) (by exact ⟨rfl, fun _ => rfl⟩)
  obtain ⟨_, hminds⟩ := the_updates_mind_their_entries_exactly_in_the_careful_runs
    twoFds twoFds_injective (by decide) _ _
  exact ⟨_, ⟨_, _, rfl, h4.of_restrict⟩, rfl, (hminds h4 _).mpr fun _ => rfl⟩

/-- A removed channel is enabled again. It has the index of the other channel,
whose entry loses its interest, and it is not registered. -/
theorem a_removed_channel_takes_the_entry_of_another :
    ∃ s s', (calls twoFds).Reachable s ∧
      s.poller_.pollfds_ = [⟨6, 3, 0⟩] ∧ s.enableWriting false = .ok s' ∧
      s'.poller_.pollfds_ = [⟨6, 4, 0⟩] ∧ ¬ s'.Registered false ∧
      ¬ (Op.enableWriting false).Minds s := by
  have h0 : (calls twoFds).Run (start twoFds) [] (start twoFds) := .nil
  have h1 := h0.snoc (a := .enableReading false) (by exact rfl)
  have h2 := h1.snoc (a := .enableReading true) (by exact rfl)
  have h3 := h2.snoc (a := .disableAll false) (by exact rfl)
  have h4 := h3.snoc (a := .remove false) (by exact rfl)
  refine ⟨_, _, ⟨_, _, rfl, h4⟩, rfl, rfl, rfl, by unfold Registered; decide, fun hminds => ?_⟩
  obtain ⟨s', hok, hleaves⟩ := hminds (by decide)
  obtain ⟨p, hgrown, _⟩ := hleaves.new (by unfold Registered; decide)
  cases hok
  have hlength : (1 : Nat) = 2 := congrArg List.length hgrown
  cases hlength

/-! ## The end of a channel -/

/-- The channel is gone from the poller, and the others are as they were. -/
structure TakenOut (s : LoopChannels κ) (c : κ) (s' : LoopChannels κ) : Prop where
  unmapped : ∀ f, s'.poller_.channels_.find f ≠ some c
  unlisted : ∀ p ∈ s'.poller_.pollfds_, decodeFd p.fd ≠ (s.channel c).fd_
  others : ∀ d, d ≠ c → (s'.Registered d ↔ s.Registered d) ∧
    (s.Registered d → s'.entry d = s.entry d) ∧
    (s'.channel d).events_ = (s.channel d).events_

/-- `disableAll` and then `remove`, as in a destructor, take the channel out. -/
def TearsDown (s : LoopChannels κ) (c : κ) : Prop :=
  ∃ s₁ s', s.disableAll c = .ok s₁ ∧ s₁.remove c = .ok s' ∧ s.TakenOut c s'

/-- A removal returns where the channel has no interest, and its entry is one
that poll(2) skips. -/
theorem Inv.remove_returns {fd : κ → Int} {s : LoopChannels κ} (h : s.Inv fd) {c : κ}
    (hnone : (s.channel c).isNoneEvent = true) {i : Nat} {p : PollFd}
    (hr : s.removed c = false) (hi : (s.channel c).index_ = i)
    (hp : s.poller_.pollfds_[i]? = some p) (hskipped : p.fd = -fd c - 1) :
    ∃ s', s.remove c = .ok s' := by
  have hlt := lt_of_entry hp
  obtain ⟨j, q, hj, hq, _, _, hevents⟩ := h.index hr (by omega)
  have hij : j = i := by omega
  rw [hij, hp] at hq
  cases hq
  have hat : pollfdAt s.poller_.pollfds_ (s.channel c).index_ = .ok p :=
    pollfdAt_eq_ok.mpr ⟨i, hi, hp⟩
  have hassert : p.fd = -(s.channel c).fd_ - 1 ∧ p.events.signExtend 32 = (s.channel c).events_ :=
    ⟨by rw [hskipped, h.fds], hevents⟩
  by_cases hlast : (s.channel c).index_ = s.poller_.pollfds_.length - 1
  · have hok : s.removeChannel c = .ok { s with
        poller_ :=
          ⟨s.poller_.pollfds_.dropLast, s.poller_.channels_.erase (s.channel c).fd_⟩ } := by
      simp only [removeChannel]
      rw [check_of hnone, ok_bind, hat, ok_bind, check_of hassert, ok_bind, if_pos hlast]
      rfl
    exact ⟨_, by rw [remove, check_of hnone, ok_bind, hok]; rfl⟩
  · -- the last entry has another channel, which the map has
    obtain ⟨back, hback⟩ : ∃ back, s.poller_.pollfds_[s.poller_.pollfds_.length - 1]? = some back :=
      ⟨_, List.getElem?_eq_getElem (by omega)⟩
    have hgetLast : s.poller_.pollfds_.getLast? = some back := by
      rw [List.getLast?_eq_getElem?, hback]
    obtain ⟨d, hd, hfdd, hxd⟩ := h.slots _ _ hback
    have hreg := h.indexed c hr (by omega)
    have hne : decodeFd back.fd ≠ fd c := by
      intro he
      rw [he, hreg] at hd
      cases hd
      omega
    have hfound : Map.find (s.poller_.channels_.erase (s.channel c).fd_) (decodeFd back.fd) =
        some d := by
      rw [Map.find_erase, h.fds, if_neg hne, hd]
    have hok : ∃ s', s.removeChannel c = .ok s' := by
      simp only [removeChannel]
      rw [check_of hnone, ok_bind, hat, ok_bind, check_of hassert, ok_bind, if_neg hlast, hgetLast,
        demand_some, ok_bind, hfound, demand_some, ok_bind]
      exact ⟨_, rfl⟩
    obtain ⟨s₁, hok⟩ := hok
    exact ⟨_, by rw [remove, check_of hnone, ok_bind, hok]; rfl⟩

/-- A channel that has an entry is torn down. -/
theorem Inv.tearsDown {fd : κ → Int} (hfd : Function.Injective fd) (h0 : ∀ c, 0 ≤ fd c)
    {s : LoopChannels κ} (h : s.Inv fd) {c : κ} (hr : s.removed c = false)
    (hi : 0 ≤ (s.channel c).index_) : s.TearsDown c := by
  obtain ⟨p, hp, hdisabled⟩ : ∃ p, s.entry c = some p ∧
      s.disableAll c = .ok (s.changed c (s.channel c).disableAll p) :=
    updateChannel_indexed h hr hi rfl
  have hs : (machine fd).step s (.disableAll c) (s.changed c (s.channel c).disableAll p) :=
    ⟨hr, hdisabled⟩
  have h1 := step_inv h0 h hs
  have hch : (s.changed c (s.channel c).disableAll p).channel c = (s.channel c).disableAll := by
    rw [changed_channel, if_pos rfl]
  have hself : (s.changed c (s.channel c).disableAll p).entry c =
      some (updated (s.channel c).disableAll p) := changed_entry_self rfl hp
  obtain ⟨i, hx, hat⟩ := entry_eq_some.mp hself
  have hskipped : (updated (s.channel c).disableAll p).fd = -fd c - 1 := by
    rw [← h.fds]
    rfl
  obtain ⟨s', hremoved⟩ := h1.remove_returns (by rw [hch]; rfl) hr hx hat hskipped
  obtain ⟨j, ht⟩ := remove.spec h1 hr hremoved
  have h' := inv_taken h1 hr ht
  have hgone : s'.removed c = true := by
    rw [ht.removed, Function.update_self]
  have hreg := h.indexed c hr hi
  refine ⟨_, s', hdisabled, hremoved, fun f hf => ?_, fun q hq => ?_, fun d hdc => ?_⟩
  · obtain ⟨_, hkept, _⟩ := h'.mapped _ _ hf
    rw [hgone] at hkept
    cases hkept
  · obtain ⟨k, hk⟩ := List.getElem?_of_mem hq
    obtain ⟨d, hd, hfdd, _⟩ := h'.slots k q hk
    intro he
    rw [he, h.fds] at hd hfdd
    rw [hfd hfdd] at hd
    exact h'.not_registered hgone hd
  · have hfind : s'.poller_.channels_.find (fd d) = s.poller_.channels_.find (fd d) := by
      rw [ht.channels]
      exact Map.find_erase_ne fun e => hdc (hfd e)
    refine ⟨by rw [registered_iff h', registered_iff h, hfind], fun hd => ?_, ?_⟩
    · rw [registered_iff h] at hd
      have hstays : (s.changed c (s.channel c).disableAll p).entry d = s.entry d :=
        changed_entry_ne h rfl hreg hdc hd
      rw [ht.entry h1 hreg hdc hd, hstays]
    · rw [(ht.channel_fields d).2, changed_channel, if_neg hdc]

/-- A channel that was never updated gets a first entry with its descriptor as it
is, which the assert of `removeChannel` does not take. -/
theorem Inv.not_tearsDown {fd : κ → Int} (h0 : ∀ c, 0 ≤ fd c) {s : LoopChannels κ} (h : s.Inv fd)
    {c : κ} (hr : s.removed c = false) (hi : (s.channel c).index_ < 0) : ¬ s.TearsDown c := by
  rintro ⟨s₁, s', hdisabled, hremoved, _⟩
  have hs : (machine fd).step s (.disableAll c) s₁ := ⟨hr, hdisabled⟩
  rcases step_cases h hs with ⟨_, _, _, rfl⟩ | ⟨_, p, hp, _⟩ | ⟨hop, _⟩
  · obtain ⟨j, ht⟩ := remove.spec (step_inv h0 h hs) hr hremoved
    obtain ⟨p, hp, hskipped⟩ := ht.skipped
    obtain ⟨i, hx, hat⟩ := entry_eq_some.mp
      (added_entry_self s c ((Op.disableAll c).interest (s.channel c)))
    have hij : i = j := by
      have hx' := ht.index
      exact Int.natCast_inj.mp (hx.symm.trans hx')
    rw [hij] at hat
    have hsame := hp.symm.trans hat
    cases hsame
    have hpos := h0 c
    have hfirst : ((Op.disableAll c).interest (s.channel c)).fd_ = fd c := h.fds c
    simp only [hfirst] at hskipped
    omega
  · obtain ⟨i, hx, _⟩ := entry_eq_some.mp hp
    have hx' : (s.channel c).index_ = i := hx
    omega
  · cases hop

/-- A channel has an index exactly if some call was made on it. -/
theorem careful_indexed {fd : κ → Int} (hfd : Function.Injective fd) (h0 : ∀ c, 0 ≤ fd c)
    {ops : List (Op κ)} {s : LoopChannels κ}
    (h : ((calls fd).restrict fun s op _ => op.Careful s).Run (start fd) ops s) (c : κ) :
    0 ≤ (s.channel c).index_ ↔ c ∈ ops.map Op.target := by
  have key : s.Tidy fd ∧ (0 ≤ (s.channel c).index_ ↔ c ∈ ops.map Op.target) := by
    induction h with
    | nil => exact ⟨⟨inv_start fd, fun c hc => by cases hc⟩, by simp [start, Channel.construct]⟩
    | @snoc s s' ops op _ hst ih =>
      obtain ⟨ht, hiff⟩ := ih
      have hs := Op.Careful.step hfd h0 ht.inv hst.2 hst.1
      have ht' := ht.step h0 hs
      refine ⟨ht', ?_⟩
      rw [List.map_append, List.mem_append, ← hiff, List.map_singleton, List.mem_singleton]
      by_cases hc : op.target = c
      · subst hc
        refine ⟨fun _ => Or.inr rfl, fun _ => ?_⟩
        by_cases hop : op = .remove op.target
        · refine ht'.stale _ ?_
          have hok := hs.2
          rw [hop] at hok
          obtain ⟨i, htaken⟩ := remove.spec ht.inv hs.1 hok
          rw [htaken.removed, Function.update_self]
        · exact (target_indexed ht.inv hs hop).2
      · rw [(others_stay ht.inv hs hc).2]
        exact ⟨Or.inl, fun hor => hor.resolve_right fun e => hc e.symm⟩
  exact key.2

/-- After any run that updates no removed channel, a channel that is not yet
removed is torn down by `disableAll` and `remove` exactly if the run has a call on
it. -/
theorem a_channel_is_torn_down_iff_it_was_called (fd : κ → Int) (hfd : Function.Injective fd)
    (h0 : ∀ c, 0 ≤ fd c) (ops : List (Op κ)) (s : LoopChannels κ)
    (h : ((calls fd).restrict fun s op _ => op.Careful s).Run (start fd) ops s) (c : κ)
    (hr : s.removed c = false) : s.TearsDown c ↔ c ∈ ops.map Op.target := by
  have ht := careful_tidy hfd h0 ⟨_, _, rfl, h⟩
  rw [← careful_indexed hfd h0 h]
  constructor
  · intro htears
    by_contra hi
    exact ht.inv.not_tearsDown h0 hr (by omega) htears
  · exact ht.inv.tearsDown hfd h0 hr

/-- A channel that reads is torn down beside another one. -/
theorem a_channel_is_torn_down_beside_another :
    ∃ s, (calls twoFds).Reachable s ∧ s.TearsDown false := by
  have h0 : ((calls twoFds).restrict fun s op _ => op.Careful s).Run
      (start twoFds) [] (start twoFds) := .nil
  have h1 := h0.snoc (a := .enableReading false) (by exact ⟨rfl, fun _ => rfl⟩)
  have h2 := h1.snoc (a := .enableReading true) (by exact ⟨rfl, fun _ => rfl⟩)
  exact ⟨_, ⟨_, _, rfl, h2.of_restrict⟩, (a_channel_is_torn_down_iff_it_was_called
    twoFds twoFds_injective (by decide) _ _ h2 false rfl).mpr (by decide)⟩

/-- An acceptor that never listened disables and removes its channel. -/
theorem a_new_channel_fails_the_assert_of_its_removal :
    ∃ s₁, (start fun _ : Unit => 5).disableAll () = .ok s₁ ∧
      s₁.remove () = .error (.assertion
        "pollfds_[idx].fd == -channel->fd()-1 && pollfds_[idx].events == channel->events()") ∧
      ¬ (start fun _ : Unit => 5).TearsDown () := by
  have hok : (start fun _ : Unit => 5).disableAll () = .ok _ := rfl
  refine ⟨_, hok, rfl, ?_⟩
  rintro ⟨s₁, s', hok', hremoved, _⟩
  rw [hok] at hok'
  cases hok'
  cases hremoved

end LoopChannels

end jmuduo.net
