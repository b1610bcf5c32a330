-- The laws of the poller: its map, its vector and the indexes of its
-- channels agree after any calls, and an entry shows the interest of its
-- channel as long as no channel comes back from an empty interest.
import Jmuduo.Poller

open outcome runs maps

namespace jmuduo.net

namespace LoopChannels

variable {κ : Type} [DecidableEq κ]

/-! ## One call -/

/-- The channel after the call has changed its interest. -/
def Op.interest (ch : Channel) : Op κ → Channel
  | .enableReading _ => ch.enableReading
  | .enableWriting _ => ch.enableWriting
  | .disableWriting _ => ch.disableWriting
  | .disableAll _ => ch.disableAll
  | .remove _ => ch

omit [DecidableEq κ] in
theorem Op.interest_fields (ch : Channel) (op : Op κ) :
    (op.interest ch).fd_ = ch.fd_ ∧ (op.interest ch).index_ = ch.index_ := by
  cases op <;> exact ⟨rfl, rfl⟩

omit [DecidableEq κ] in
theorem Op.interest_known {ch : Channel} (h : Channel.Known ch.events_) (op : Op κ) :
    Channel.Known (op.interest ch).events_ := by
  cases op with
  | enableReading c => exact h.or_read.1
  | enableWriting c => exact h.or_write.1
  | disableWriting c => exact h.and_not_write
  | disableAll c => exact Channel.known_none
  | remove c => exact h

/-- A call that is no removal is an update. -/
theorem Op.run_update {s : LoopChannels κ} {op : Op κ} (hop : op ≠ .remove op.target) :
    op.run s = (s.setChannel op.target
      (op.interest (s.channel op.target))).updateChannel op.target := by
  cases op with
  | remove c => exact absurd rfl hop
  | _ => rfl

/-- All that a step can do: a first entry, a change of the channel's own
entry, or a removal. -/
theorem step_cases {fd : κ → Int} {s s' : LoopChannels κ} {op : Op κ} (h : s.Inv fd)
    (hs : (machine fd).step s op s') :
    (op ≠ .remove op.target ∧ s.poller_.channels_.find (fd op.target) = none ∧
      (s.channel op.target).index_ < 0 ∧
      s' = s.added op.target (op.interest (s.channel op.target))) ∨
    (op ≠ .remove op.target ∧ ∃ p, s.entry op.target = some p ∧
      s' = s.changed op.target (op.interest (s.channel op.target)) p) ∨
    (op = .remove op.target ∧ ∃ i, Taken fd s op.target i s') := by
  obtain ⟨hr, hok⟩ := hs
  by_cases hop : op = .remove op.target
  · refine Or.inr (Or.inr ⟨hop, ?_⟩)
    rw [hop] at hok
    exact remove.spec h hr hok
  · obtain ⟨hf, hx⟩ := op.interest_fields (s.channel op.target)
    rw [h.fds] at hf
    rw [Op.run_update hop] at hok
    rcases updateChannel.spec h hr hf hx hok with ⟨hnone, hi, e⟩ | ⟨p, hp, e⟩
    · exact Or.inl ⟨hop, hnone, hi, e⟩
    · exact Or.inr (Or.inl ⟨hop, p, hp, e⟩)

theorem step_inv {fd : κ → Int} (h0 : ∀ c, 0 ≤ fd c) {s s' : LoopChannels κ} {op : Op κ}
    (h : s.Inv fd) (hs : (machine fd).step s op s') : s'.Inv fd := by
  obtain ⟨hf, hx⟩ := op.interest_fields (s.channel op.target)
  have hk := op.interest_known (h.known op.target)
  rw [h.fds] at hf
  rcases step_cases h hs with ⟨_, hnone, hi, rfl⟩ | ⟨_, p, hp, rfl⟩ | ⟨_, i, ht⟩
  · exact inv_added h0 h hnone hi hs.1 hf hk
  · exact inv_changed h0 h hs.1 hp hf hx hk
  · exact inv_taken h hs.1 ht

theorem reachable_inv {fd : κ → Int} (h0 : ∀ c, 0 ≤ fd c) {s : LoopChannels κ}
    (h : (machine fd).Reachable s) : s.Inv fd := by
  apply h.invariant
  · intro s hs
    rw [hs]
    exact inv_start fd
  · intro s op s' hi hs
    exact step_inv h0 hi hs

/-- A call keeps the other channels registered, or unregistered. -/
theorem others_stay {fd : κ → Int} {s s' : LoopChannels κ} {op : Op κ} (h : s.Inv fd)
    (hs : (LoopChannels.machine fd).step s op s') {d : κ} (hne : op.target ≠ d) :
    s'.removed d = s.removed d ∧ (0 ≤ (s'.channel d).index_ ↔ 0 ≤ (s.channel d).index_) := by
  rcases step_cases h hs with ⟨_, _, _, rfl⟩ | ⟨_, p, _, rfl⟩ | ⟨_, i, ht⟩
  · exact ⟨rfl, by rw [added_channel, if_neg hne.symm]⟩
  · exact ⟨rfl, by rw [changed_channel, if_neg hne.symm]⟩
  · refine ⟨by rw [ht.removed, Function.update_of_ne hne.symm], ?_⟩
    by_cases hkept : d = op.target ∨ s.poller_.channels_.find (fd d) ≠ some d ∨
        (s.channel d).index_ ≠ s.poller_.pollfds_.length - 1
    · rw [ht.kept d hkept]
    · push Not at hkept
      have hlt := ht.lt
      rw [ht.moved d hkept.1 hkept.2.1 hkept.2.2, hkept.2.2]
      simp only
      omega

/-- A call that is no removal registers its channel. -/
theorem target_indexed {fd : κ → Int} {s s' : LoopChannels κ} {op : Op κ} (h : s.Inv fd)
    (hs : (LoopChannels.machine fd).step s op s') (hop : op ≠ .remove op.target) :
    s'.removed op.target = false ∧ 0 ≤ (s'.channel op.target).index_ := by
  rcases step_cases h hs with ⟨_, _, _, rfl⟩ | ⟨_, p, hp, rfl⟩ | ⟨hremove, _⟩
  · refine ⟨hs.1, ?_⟩
    rw [added_channel, if_pos rfl]
    exact Int.natCast_nonneg _
  · obtain ⟨i, hi, _⟩ := entry_eq_some.mp hp
    refine ⟨hs.1, ?_⟩
    rw [changed_channel, if_pos rfl, (op.interest_fields _).2, hi]
    exact Int.natCast_nonneg i
  · exact absurd hremove hop

/-- The subscript of `channels_` in `removeChannel` always finds a channel. -/
theorem remove_finds {fd : κ → Int} (hfd : Function.Injective fd) {s : LoopChannels κ}
    (h : s.Inv fd) (c : κ) : s.remove c ≠ .error .badPointer := by
  intro hbad
  simp only [remove, removeChannel, pollfdAt, bind_eq_error, check_eq_error, demand_eq_error,
    reduceCtorEq, and_false, false_or, check_eq_ok, demand_eq_ok, pure_eq_ok, or_false,
    exists_false] at hbad
  obtain ⟨_, _, _, _, _, _, _, _, hrest⟩ := hbad
  split at hrest
  · cases hrest
  · rename_i hlast
    simp only [bind_eq_error, demand_eq_error, reduceCtorEq, and_false, false_or, demand_eq_ok,
      and_true, or_false, exists_false] at hrest
    obtain ⟨back, hback, hnone⟩ := hrest
    rw [List.getLast?_eq_getElem?] at hback
    obtain ⟨d, hd, hfdd, hxd⟩ := h.slots _ _ hback
    have hlt := lt_of_entry hback
    rw [Map.find_erase, hd, h.fds] at hnone
    split at hnone
    · rename_i e
      have hdc : d = c := hfd (hfdd.trans e)
      subst hdc
      omega
    · cases hnone

/-! ## The laws -/

/-- The poller's map, its vector and the indexes of its channels always
agree: the channel of each entry is in the map under the entry's descriptor,
and has the entry's index. A removal finds every channel that it looks up,
and it changes no other channel but the index of the one that it moves. -/
theorem the_poller_indexes_every_channel (fd : κ → Int) (hfd : Function.Injective fd)
    (h0 : ∀ c, 0 ≤ fd c) (s : LoopChannels κ) (h : (machine fd).Reachable s) :
    s.poller_.channels_.size = s.poller_.pollfds_.length ∧
    (∀ (i : Nat) p, s.poller_.pollfds_[i]? = some p → ∃ c,
      s.poller_.channels_.find (decodeFd p.fd) = some c ∧
        (s.channel c).fd_ = decodeFd p.fd ∧ (s.channel c).index_ = i) ∧
    (∀ c, s.remove c ≠ .error .badPointer) ∧
    (∀ c s', s.removed c = false → s.remove c = .ok s' → ∀ d, d ≠ c →
      s'.poller_.channels_.find (fd d) = s.poller_.channels_.find (fd d) ∧
      (s.Registered d → s'.entry d = s.entry d) ∧
      (s'.channel d = s.channel d ∨
        (s.channel d).index_ = s.poller_.pollfds_.length - 1 ∧
        s'.channel d = { s.channel d with index_ := (s.channel c).index_ })) := by
  have hi := reachable_inv h0 h
  refine ⟨hi.size, ?_, remove_finds hfd hi, ?_⟩
  · intro i p hp
    obtain ⟨c, hl, hc, hx⟩ := hi.slots i p hp
    exact ⟨c, hl, by rw [hi.fds, hc], hx⟩
  · intro c s' hr hok d hdc
    obtain ⟨i, ht⟩ := remove.spec hi hr hok
    have hreg := hi.indexed c hr (by have := ht.index; omega)
    refine ⟨?_, ?_, ?_⟩
    · rw [ht.channels, Map.find_erase, if_neg (fun e => hdc (hfd e))]
    · intro hd
      unfold Registered at hd
      rw [hi.fds] at hd
      exact ht.entry hi hreg hdc hd
    · by_cases hkept : d = c ∨ s.poller_.channels_.find (fd d) ≠ some d ∨
          (s.channel d).index_ ≠ s.poller_.pollfds_.length - 1
      · exact Or.inl (ht.kept d hkept)
      · push Not at hkept
        refine Or.inr ⟨hkept.2.2, ?_⟩
        rw [ht.moved d hdc hkept.2.1 hkept.2.2, ht.index]

/-- Two channels, each enabled once. -/
theorem the_poller_indexes_two_channels :
    ∃ s, (machine (fun c : Bool => if c then 5 else 7)).Reachable s ∧
      s.poller_.pollfds_.length = 2 ∧ s.poller_.channels_.size = 2 := by
  have h1 : (machine (fun c : Bool => if c then 5 else 7)).Reachable (start _) := .start rfl
  have h2 := h1.next (a := .enableReading true) ⟨rfl, rfl⟩
  have h3 := h2.next (a := .enableWriting false) ⟨rfl, rfl⟩
  have hlaw := the_poller_indexes_every_channel _ (by unfold Function.Injective; decide)
    (by decide) _ h3
  exact ⟨_, h3, rfl, hlaw.1⟩

/-! ## The interest that an entry shows -/

/-- The entry of the channel shows its interest: the events, and whether
poll(2) reads them at all. -/
def Shown (s : LoopChannels κ) (c : κ) : Prop :=
  ∃ p, s.entry c = some p ∧ p.events.signExtend 32 = (s.channel c).events_ ∧
    ((s.channel c).isNoneEvent = false → p.fd = (s.channel c).fd_) ∧
    ((s.channel c).isNoneEvent = true → p.fd = -(s.channel c).fd_ - 1)

def Reflects (s : LoopChannels κ) : Prop := ∀ c, s.Registered c → s.Shown c

/-- A new channel starts with some interest, and a channel with an entry
does not come back from an empty interest. -/
def Op.Steady (s : LoopChannels κ) (op : Op κ) : Prop :=
  op = .remove op.target ∨
    (if (s.channel op.target).index_ < 0 then
      (op.interest (s.channel op.target)).isNoneEvent = false
    else
      (s.channel op.target).isNoneEvent = true →
        (op.interest (s.channel op.target)).isNoneEvent = true)

omit [DecidableEq κ] in
theorem Shown.of_same {s s' : LoopChannels κ} {d : κ} {p : PollFd} (h : s.Shown d)
    (hp : s.entry d = some p) (hp' : s'.entry d = some p)
    (hfd : (s'.channel d).fd_ = (s.channel d).fd_)
    (hev : (s'.channel d).events_ = (s.channel d).events_) : s'.Shown d := by
  obtain ⟨q, hq, he, h1, h2⟩ := h
  rw [hp] at hq
  cases hq
  unfold Channel.isNoneEvent at h1 h2
  refine ⟨p, hp', by rw [he, hev], ?_, ?_⟩
  · rwa [Channel.isNoneEvent, hev, hfd]
  · rwa [Channel.isNoneEvent, hev, hfd]

/-- A first entry shows the interest exactly when there is some. -/
theorem added_shown_iff {s : LoopChannels κ} {c : κ} {ch : Channel}
    (hk : Channel.Known ch.events_) : (s.added c ch).Shown c ↔ ch.isNoneEvent = false := by
  have hch : (s.added c ch).channel c = { ch with index_ := s.poller_.pollfds_.length } := by
    rw [added_channel, if_pos rfl]
  unfold Shown
  rw [added_entry_self, hch]
  constructor
  · rintro ⟨p, hp, _, _, h2⟩
    cases hp
    by_contra hne
    have hneg : ch.fd_ = -ch.fd_ - 1 := h2 (by simpa [Channel.isNoneEvent] using hne)
    omega
  · intro hne
    refine ⟨_, rfl, hk.short, fun _ => rfl, ?_⟩
    intro hnone
    rw [show ch.isNoneEvent = true from hnone] at hne
    cases hne

/-- A changed entry shows the interest exactly when the channel does not
come back from an empty interest. -/
theorem changed_shown_iff {s : LoopChannels κ} {c : κ} {ch : Channel} {p : PollFd}
    (hk : Channel.Known ch.events_) (hf : ch.fd_ = (s.channel c).fd_)
    (hx : ch.index_ = (s.channel c).index_) (hp : s.entry c = some p) (hshow : s.Shown c) :
    (s.changed c ch p).Shown c ↔
      ((s.channel c).isNoneEvent = true → ch.isNoneEvent = true) := by
  have hch : (s.changed c ch p).channel c = ch := by rw [changed_channel, if_pos rfl]
  obtain ⟨q, hq, _, h1, h2⟩ := hshow
  rw [hp] at hq
  cases hq
  unfold Shown
  rw [changed_entry_self hx hp, hch]
  constructor
  · rintro ⟨r, hr, _, h3, _⟩ hnone
    cases hr
    by_contra hne
    have hne' : ch.isNoneEvent = false := by simpa using hne
    have hpos := h3 hne'
    simp only [updated, hne', Bool.false_eq_true, if_false] at hpos
    have hneg := h2 hnone
    omega
  · intro himp
    refine ⟨_, rfl, hk.short, ?_, ?_⟩
    · intro hne
      have hold : (s.channel c).isNoneEvent = false := by
        by_contra hc
        rw [himp (by simpa using hc)] at hne
        cases hne
      simp [updated, hne, h1 hold, hf]
    · intro hnone
      simp [updated, hnone]

omit [DecidableEq κ] in
theorem registered_iff {fd : κ → Int} {s : LoopChannels κ} (h : s.Inv fd) (c : κ) :
    s.Registered c ↔ s.poller_.channels_.find (fd c) = some c := by
  unfold Registered
  rw [h.fds]

/-- The calls on one channel leave the entries of the others as shown. -/
theorem reflects_iff_of_frame {fd : κ → Int} {s s' : LoopChannels κ} {c : κ} (h : s.Inv fd)
    (h' : s'.Inv fd) (hshow : s.Reflects)
    (hframe : ∀ d, d ≠ c → s'.poller_.channels_.find (fd d) = some d →
      s.poller_.channels_.find (fd d) = some d ∧ s'.entry d = s.entry d ∧
        (s'.channel d).events_ = (s.channel d).events_) :
    s'.Reflects ↔ (s'.Registered c → s'.Shown c) := by
  constructor
  · intro hr
    exact hr c
  · intro hc d hd
    by_cases hdc : d = c
    · subst hdc
      exact hc hd
    · obtain ⟨hold, hen, hev⟩ := hframe d hdc ((registered_iff h' d).mp hd)
      have hsd := hshow d ((registered_iff h d).mpr hold)
      obtain ⟨p, hp, _⟩ := id hsd
      exact hsd.of_same hp (hen.trans hp) (by rw [h'.fds, h.fds]) hev

/-- A step from a poll set that reflects the interest leads to one that
does, exactly when the step is steady. -/
theorem step_reflects_iff {fd : κ → Int} (hfd : Function.Injective fd) (h0 : ∀ c, 0 ≤ fd c)
    {s s' : LoopChannels κ} {op : Op κ} (h : s.Inv fd) (hshow : s.Reflects)
    (hs : (machine fd).step s op s') : s'.Reflects ↔ op.Steady s := by
  have h' := step_inv h0 h hs
  obtain ⟨hf, hx⟩ := op.interest_fields (s.channel op.target)
  have hk := op.interest_known (h.known op.target)
  unfold Op.Steady
  rcases step_cases h hs with ⟨hop, _, hi, rfl⟩ | ⟨hop, p, hp, rfl⟩ | ⟨hop, i, ht⟩
  · -- the first entry
    have hreg : (s.added op.target (op.interest (s.channel op.target))).Registered op.target := by
      rw [registered_iff h', ← h.fds, ← hf]
      exact Map.find_insert_self s.poller_.channels_
        (op.interest (s.channel op.target)).fd_ op.target
    rw [if_pos hi, or_iff_right hop, ← added_shown_iff (s := s) (c := op.target) hk,
      reflects_iff_of_frame h h' hshow, imp_iff_right hreg]
    intro d hdc hd
    have hne : fd d ≠ (op.interest (s.channel op.target)).fd_ := by
      rw [hf, h.fds]
      exact fun e => hdc (hfd e)
    have hold : s.poller_.channels_.find (fd d) = some d := by
      rw [← Map.find_insert_ne (m := s.poller_.channels_) (b := op.target) hne]
      exact hd
    obtain ⟨_, _, q, hq, _⟩ := h.mapped _ _ hold
    exact ⟨hold, (added_entry_ne hdc hq).trans hq.symm, by rw [added_channel, if_neg hdc]⟩
  · -- a change of the channel's own entry
    have hpos : ¬ (s.channel op.target).index_ < 0 := by
      obtain ⟨i, hi, _⟩ := entry_eq_some.mp hp
      omega
    have hold := h.indexed op.target hs.1 (by omega)
    have hreg : (s.changed op.target (op.interest (s.channel op.target)) p).Registered op.target :=
      (registered_iff h' _).mpr hold
    rw [if_neg hpos, or_iff_right hop,
      ← changed_shown_iff hk hf hx hp (hshow _ ((registered_iff h _).mpr hold)),
      reflects_iff_of_frame h h' hshow, imp_iff_right hreg]
    intro d hdc hd
    exact ⟨hd, changed_entry_ne h hx hold hdc hd, by rw [changed_channel, if_neg hdc]⟩
  · -- a removal
    have hreg := h.indexed op.target hs.1 (by have := ht.index; omega)
    have hgone : ¬ s'.Registered op.target := by
      rw [registered_iff h', ht.channels, Map.find_erase, if_pos rfl]
      simp
    rw [iff_true_right (Or.inl hop), reflects_iff_of_frame h h' hshow]
    · exact fun hc => absurd hc hgone
    · intro d hdc hd
      rw [ht.channels, Map.find_erase_ne (fun e => hdc (hfd e))] at hd
      exact ⟨hd, ht.entry h hreg hdc hd, (ht.channel_fields d).2⟩

/-- The poll set reflects the interest of every channel in all the states
of a run, exactly when all its steps are steady. -/
theorem the_poll_set_reflects_exactly_the_steady_runs (fd : κ → Int)
    (hfd : Function.Injective fd) (h0 : ∀ c, 0 ≤ fd c) (calls : List (Op κ))
    (s : LoopChannels κ) :
    ((machine fd).restrict fun s op _ => op.Steady s).Run (start fd) calls s ↔
      ((machine fd).restrict fun _ _ s' => s'.Reflects).Run (start fd) calls s := by
  have hreflects : (start fd).Reflects := by
    intro c hc
    simp [Registered, start] at hc
  apply Machine.Run.good_iff (inv_start fd) hreflects
  · intro s op s' hi hs
    exact step_inv h0 hi hs
  · intro s op s' hi hr hs
    exact step_reflects_iff hfd h0 hi hr hs

/-- A channel that turns its interest on and then off. -/
theorem the_poll_set_reflects_a_channel_turned_off :
    ∃ s, ((machine (fun _ : Unit => 5)).restrict fun _ _ s' => s'.Reflects).Run
      (start (fun _ => 5)) [.enableReading (), .disableAll ()] s := by
  have h0 : ((machine (fun _ : Unit => 5)).restrict fun s op _ => op.Steady s).Run
      (start (fun _ => 5)) [] (start (fun _ => 5)) := .nil
  have h1 := h0.snoc (a := .enableReading ()) ⟨⟨rfl, rfl⟩, Or.inr (by decide)⟩
  have h2 := h1.snoc (a := .disableAll ()) ⟨⟨rfl, rfl⟩, Or.inr (by decide)⟩
  exact ⟨_, (the_poll_set_reflects_exactly_the_steady_runs (fun _ => 5)
    (fun _ _ _ => rfl) (fun _ => by decide) _ _).mp h2⟩

/-- A channel that turned its interest off and on again keeps the entry
that poll(2) skips. -/
theorem a_channel_turned_on_again_stays_skipped :
    ∃ s, (machine (fun _ : Unit => 5)).Run (start (fun _ => 5))
      [.enableReading (), .disableAll (), .enableReading ()] s ∧ ¬ s.Reflects := by
  have h0 : (machine (fun _ : Unit => 5)).Run (start (fun _ => 5)) [] (start (fun _ => 5)) :=
    .nil
  have h1 := h0.snoc (a := .enableReading ()) ⟨rfl, rfl⟩
  have h2 := h1.snoc (a := .disableAll ()) ⟨rfl, rfl⟩
  have h3 := h2.snoc (a := .enableReading ()) ⟨rfl, rfl⟩
  refine ⟨_, h3, ?_⟩
  intro hr
  obtain ⟨p, hp, _, h4, _⟩ := hr () rfl
  cases hp
  exact absurd (h4 rfl) (by decide)

end LoopChannels

end jmuduo.net
