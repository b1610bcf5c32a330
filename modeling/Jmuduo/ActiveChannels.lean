-- What the poller reports (Poller.cc): poll(2) marks the ready entries of the
-- vector, and their channels become the active channels of the loop.
import Jmuduo.PollSet

open outcome runs maps

namespace jmuduo.net

namespace LoopChannels

variable {κ : Type} [DecidableEq κ]

/-! ## The poll of the source -/

/-- The vector after poll(2), which writes the `revents` of each entry. -/
def polled (revents : Nat → BitVec 16) (pollfds : List PollFd) : List PollFd :=
  pollfds.mapIdx fun i p => { p with revents := revents i }

/-- What poll(2) returns: the number of the entries that it marked. -/
def numEvents (pollfds : List PollFd) : Nat := pollfds.countP fun p => p.revents != 0

def setRevents (s : LoopChannels κ) (c : κ) (revents : Mask) : LoopChannels κ :=
  s.setChannel c { s.channel c with revents_ := revents }

/-- `Poller::fillActiveChannels`, from some entry on. The entries come in
their order, as long as `numEvents` is positive. -/
def fillActiveChannels : Nat → List PollFd → LoopChannels κ → Outcome (LoopChannels κ × List κ)
  | _, [], s => pure (s, [])
  | 0, _ :: _, s => pure (s, [])
  | n + 1, pfd :: rest, s =>
    if pfd.revents.toInt > 0 then
      match s.poller_.channels_.find pfd.fd with
      | none => .error (.assertion "ch!=channels_.end()")
      | some channel => do
        check "channel->fd()==iter->fd" ((s.channel channel).fd_ = pfd.fd)
        let (s, active) ← fillActiveChannels n rest
          (s.setRevents channel (pfd.revents.signExtend 32))
        pure (s, channel :: active)
    else fillActiveChannels (n + 1) rest s

/-- `Poller::poll`. A failure of poll(2) ends the program. -/
def poll (revents : Nat → BitVec 16) (s : LoopChannels κ) : Outcome (LoopChannels κ × List κ) :=
  let pollfds := polled revents s.poller_.pollfds_
  fillActiveChannels (numEvents pollfds) pollfds
    { s with poller_ := { s.poller_ with pollfds_ := pollfds } }

/-- What poll(2) promises: it skips the entries with negative descriptors. -/
def Skips (revents : Nat → BitVec 16) (s : LoopChannels κ) : Prop :=
  ∀ (i : Nat) p, s.poller_.pollfds_[i]? = some p → p.fd < 0 → revents i = 0

/-! ## The specs -/

omit [DecidableEq κ] in
theorem polled_getElem? (revents : Nat → BitVec 16) (pollfds : List PollFd) (i : Nat) :
    (polled revents pollfds)[i]? =
      (pollfds[i]?).map fun p => { p with revents := revents i } := by
  simp [polled]

/-- Some channels have new `revents`, and all else is as it was. -/
structure Marked (s s' : LoopChannels κ) : Prop where
  poller_ : s'.poller_ = s.poller_
  removed : s'.removed = s.removed
  channel : ∀ c, ∃ revents, s'.channel c = { s.channel c with revents_ := revents }

omit [DecidableEq κ] in
theorem Marked.refl (s : LoopChannels κ) : Marked s s := ⟨rfl, rfl, fun _ => ⟨_, rfl⟩⟩

omit [DecidableEq κ] in
theorem Marked.trans {s s₁ s' : LoopChannels κ} (h : Marked s s₁) (h' : Marked s₁ s') :
    Marked s s' := by
  refine ⟨h'.poller_.trans h.poller_, h'.removed.trans h.removed, fun c => ?_⟩
  obtain ⟨r, hr⟩ := h.channel c
  obtain ⟨r', hr'⟩ := h'.channel c
  exact ⟨r', by rw [hr', hr]⟩

theorem setRevents_marked (s : LoopChannels κ) (c : κ) (revents : Mask) :
    Marked s (s.setRevents c revents) := by
  refine ⟨rfl, rfl, fun d => ?_⟩
  by_cases hdc : d = c
  · subst hdc
    exact ⟨revents, Function.update_self d _ _⟩
  · exact ⟨_, Function.update_of_ne hdc _ _⟩

/-- The channels that `fillActiveChannels` reports are those of marked
entries, and nothing but `revents` changes. -/
theorem fillActiveChannels.spec {n : Nat} {pollfds : List PollFd} {s s' : LoopChannels κ}
    {active : List κ} (hok : fillActiveChannels n pollfds s = .ok (s', active)) :
    Marked s s' ∧ ∀ c ∈ active, ∃ p ∈ pollfds,
      0 < p.revents.toInt ∧ s.poller_.channels_.find p.fd = some c := by
  induction pollfds generalizing n s active with
  | nil =>
    cases n <;> cases hok <;> exact ⟨Marked.refl _, by simp⟩
  | cons p ps ih =>
    cases n with
    | zero =>
      cases hok
      exact ⟨Marked.refl _, by simp⟩
    | succ n =>
      simp only [fillActiveChannels] at hok
      split at hok
      · rename_i hpos
        split at hok
        · cases hok
        · rename_i channel hfind
          simp only [bind_eq_ok] at hok
          obtain ⟨_, _, ⟨s₁, rest⟩, hrest, hok⟩ := hok
          cases hok
          obtain ⟨hmarked, hmem⟩ := ih hrest
          refine ⟨(setRevents_marked s channel _).trans hmarked, fun c hc => ?_⟩
          rcases List.mem_cons.mp hc with rfl | hc
          · exact ⟨p, List.mem_cons_self, hpos, hfind⟩
          · obtain ⟨q, hq, hqpos, hqfind⟩ := hmem c hc
            exact ⟨q, List.mem_cons_of_mem p hq, hqpos, hqfind⟩
      · obtain ⟨hmarked, hmem⟩ := ih hok
        refine ⟨hmarked, fun c hc => ?_⟩
        obtain ⟨q, hq, hqpos, hqfind⟩ := hmem c hc
        exact ⟨q, List.mem_cons_of_mem p hq, hqpos, hqfind⟩

/-- A channel that no entry but the first one stands for is reported first,
and once. -/
theorem fillActiveChannels_first {n : Nat} {p : PollFd} {pollfds : List PollFd}
    {s s' : LoopChannels κ} {active : List κ}
    (hok : fillActiveChannels n (p :: pollfds) s = .ok (s', active)) {t : κ}
    (hfirst : ∀ q ∈ pollfds, 0 < q.revents.toInt → s.poller_.channels_.find q.fd ≠ some t)
    (ht : t ∈ active) : 0 < p.revents.toInt ∧ ∃ rest, active = t :: rest ∧ t ∉ rest := by
  cases n with
  | zero =>
    cases hok
    cases ht
  | succ n =>
    simp only [fillActiveChannels] at hok
    split at hok
    · rename_i hpos
      split at hok
      · cases hok
      · rename_i channel hfind
        simp only [bind_eq_ok] at hok
        obtain ⟨_, _, ⟨s₁, rest⟩, hrest, hok⟩ := hok
        cases hok
        have hnot : t ∉ rest := by
          intro hmem
          obtain ⟨q, hq, hqpos, hqfind⟩ := (fillActiveChannels.spec hrest).2 t hmem
          exact hfirst q hq hqpos hqfind
        rcases List.mem_cons.mp ht with rfl | hmem
        · exact ⟨hpos, rest, rfl, hnot⟩
        · exact absurd hmem hnot
    · obtain ⟨q, hq, hqpos, hqfind⟩ := (fillActiveChannels.spec hok).2 t ht
      exact absurd hqfind (hfirst q hq hqpos)

omit [DecidableEq κ] in
/-- The invariant says nothing of `revents`. -/
theorem inv_polled {fd : κ → Int} {s s' : LoopChannels κ} (h : s.Inv fd)
    {revents : Nat → BitVec 16}
    (hm : Marked { s with
      poller_ := { s.poller_ with pollfds_ := polled revents s.poller_.pollfds_ } } s') :
    s'.Inv fd := by
  have hchannel : ∀ c, (s'.channel c).fd_ = (s.channel c).fd_ ∧
      (s'.channel c).events_ = (s.channel c).events_ ∧
      (s'.channel c).index_ = (s.channel c).index_ := by
    intro c
    obtain ⟨r, hr⟩ := hm.channel c
    rw [hr]
    exact ⟨rfl, rfl, rfl⟩
  have hat : ∀ i : Nat, s'.poller_.pollfds_[i]? =
      (s.poller_.pollfds_[i]?).map fun p => { p with revents := revents i } := by
    intro i
    rw [hm.poller_]
    exact polled_getElem? revents s.poller_.pollfds_ i
  have hmap : s'.poller_.channels_ = s.poller_.channels_ := by rw [hm.poller_]
  have hremoved : s'.removed = s.removed := hm.removed
  refine ⟨fun c => ?_, fun c => ?_, ?_, fun i p hp => ?_, fun f c hf => ?_, fun c hr hi => ?_⟩
  · rw [(hchannel c).1]
    exact h.fds c
  · rw [(hchannel c).2.1]
    exact h.known c
  · rw [hmap, h.size, hm.poller_]
    exact List.length_mapIdx.symm
  · rw [hat, Option.map_eq_some_iff] at hp
    obtain ⟨q, hq, rfl⟩ := hp
    obtain ⟨c, hc, hfd, hx⟩ := h.slots i q hq
    exact ⟨c, by rw [hmap, hc], hfd, by rw [(hchannel c).2.2, hx]⟩
  · rw [hmap] at hf
    obtain ⟨he, hr, q, hq, hd, hev⟩ := h.mapped f c hf
    obtain ⟨i, hx, hqi⟩ := entry_eq_some.mp hq
    refine ⟨he, by rw [hremoved, hr], { q with revents := revents i }, ?_, hd, ?_⟩
    · rw [entry_eq_some]
      exact ⟨i, by rw [(hchannel c).2.2, hx], by rw [hat, hqi, Option.map_some]⟩
    · rw [(hchannel c).2.1]
      exact hev
  · rw [hremoved] at hr
    rw [(hchannel c).2.2] at hi
    rw [hmap]
    exact h.indexed c hr hi

/-! ## Exactly the ready channels -/

/-- The channels of the entries that poll(2) marked, in the order of the vector. -/
def ready (channels : Map Int κ) (pollfds : List PollFd) : List κ :=
  pollfds.filterMap fun p => if p.revents = 0 then none else channels.find p.fd

omit [DecidableEq κ] in
theorem mem_ready {channels : Map Int κ} {pollfds : List PollFd} {c : κ} :
    c ∈ ready channels pollfds ↔ ∃ p ∈ pollfds, p.revents ≠ 0 ∧ channels.find p.fd = some c := by
  simp [ready, List.mem_filterMap]

/-- Each marked entry has the descriptor of a channel of the map, and a value
that the test of `fillActiveChannels` takes. -/
def Marks (fd : κ → Int) (channels : Map Int κ) (pollfds : List PollFd) : Prop :=
  ∀ p ∈ pollfds, p.revents ≠ 0 → 0 < p.revents.toInt ∧
    ∃ c, channels.find p.fd = some c ∧ fd c = p.fd

omit [DecidableEq κ] in
theorem Marks.tail {fd : κ → Int} {channels : Map Int κ} {p : PollFd} {ps : List PollFd}
    (h : Marks fd channels (p :: ps)) : Marks fd channels ps :=
  fun q hq => h q (List.mem_cons_of_mem p hq)

/-- The count ends the loop behind the last marked entry: all of them are reported,
and only their channels get new `revents`. -/
theorem fillActiveChannels_complete {fd : κ → Int} {pollfds : List PollFd} {s : LoopChannels κ}
    (hfds : ∀ c, (s.channel c).fd_ = fd c) (h : Marks fd s.poller_.channels_ pollfds) :
    ∃ s', fillActiveChannels (numEvents pollfds) pollfds s =
        .ok (s', ready s.poller_.channels_ pollfds) ∧
      (∀ c, c ∉ ready s.poller_.channels_ pollfds → s'.channel c = s.channel c) ∧
      ∀ c ∈ ready s.poller_.channels_ pollfds, ∃ p ∈ pollfds, p.revents ≠ 0 ∧
        s.poller_.channels_.find p.fd = some c ∧
        (s'.channel c).revents_ = p.revents.signExtend 32 := by
  induction pollfds generalizing s with
  | nil => exact ⟨s, rfl, fun _ _ => rfl, fun c hc => by cases hc⟩
  | cons p ps ih =>
    by_cases hzero : p.revents = 0
    · -- the entry is passed over, and the count stays as it is
      obtain ⟨s', hok, hothers, hreported⟩ := ih hfds h.tail
      have hready : ready s.poller_.channels_ (p :: ps) = ready s.poller_.channels_ ps := by
        simp [ready, hzero]
      have hcount : numEvents (p :: ps) = numEvents ps := by
        simp [numEvents, hzero]
      have hpass : fillActiveChannels (numEvents ps) (p :: ps) s =
          fillActiveChannels (numEvents ps) ps s := by
        cases hn : numEvents ps with
        | zero => cases ps <;> rfl
        | succ n => simp [fillActiveChannels, hzero]
      rw [hready, hcount]
      refine ⟨s', by rw [hpass, hok], hothers, fun c hc => ?_⟩
      obtain ⟨q, hq, hmarked⟩ := hreported c hc
      exact ⟨q, List.mem_cons_of_mem p hq, hmarked⟩
    · obtain ⟨hpos, channel, hfind, hfd⟩ := h p List.mem_cons_self hzero
      have hcount : numEvents (p :: ps) = numEvents ps + 1 :=
        List.countP_cons_of_pos (by simpa using hzero)
      have hready : ready s.poller_.channels_ (p :: ps) =
          channel :: ready s.poller_.channels_ ps :=
        List.filterMap_cons_some (by rw [if_neg hzero, hfind])
      obtain ⟨s', hok, hothers, hreported⟩ :=
        ih (s := s.setRevents channel (p.revents.signExtend 32)) (fun c => by
          obtain ⟨r, hr⟩ := (setRevents_marked s channel (p.revents.signExtend 32)).channel c
          rw [hr]
          exact hfds c) h.tail
      have hrun : fillActiveChannels (numEvents ps + 1) (p :: ps) s =
          .ok (s', channel :: ready s.poller_.channels_ ps) := by
        have hcheck : (s.channel channel).fd_ = p.fd := by rw [hfds, hfd]
        simp only [fillActiveChannels, hpos, if_true, hfind]
        rw [check_of hcheck, ok_bind, hok]
        rfl
      rw [hready, hcount]
      refine ⟨s', hrun, fun c hc => ?_, fun c hc => ?_⟩
      · rw [List.mem_cons, not_or] at hc
        rw [hothers c hc.2]
        exact Function.update_of_ne hc.1 _ _
      · by_cases hrest : c ∈ ready s.poller_.channels_ ps
        · obtain ⟨q, hq, hmarked⟩ := hreported c hrest
          exact ⟨q, List.mem_cons_of_mem p hq, hmarked⟩
        · obtain rfl : c = channel := (List.mem_cons.mp hc).resolve_right hrest
          refine ⟨p, List.mem_cons_self, hzero, hfind, ?_⟩
          rw [hothers c hrest]
          exact congrArg Channel.revents_ (Function.update_self c _ s.channel)

/-- What poll(2) gives: nothing for the entries with negative descriptors, and no
negative `revents`. -/
structure Polls (revents : Nat → BitVec 16) (s : LoopChannels κ) : Prop where
  skips : s.Skips revents
  nonneg : ∀ i, i < s.poller_.pollfds_.length → 0 ≤ (revents i).toInt

/-- A call on a channel, or a poll. -/
inductive PollAct (κ : Type)
  | call (op : Op κ)
  | poll (revents : Nat → BitVec 16)

/-- The calls on the channels, none on a channel after its removal, with any
polls between them. -/
def polling (fd : κ → Int) : Machine (LoopChannels κ) (PollAct κ) where
  init s := s = start fd
  step s a s' :=
    match a with
    | .call op => (machine fd).step s op s'
    | .poll revents => s.Polls revents ∧ ∃ active, s.poll revents = .ok (s', active)

theorem polling_inv {fd : κ → Int} (h0 : ∀ c, 0 ≤ fd c) {s : LoopChannels κ}
    (h : (polling fd).Reachable s) : s.Inv fd := by
  apply h.invariant
  · rintro s rfl
    exact inv_start fd
  · intro s a s' hs hst
    cases a with
    | call op => exact step_inv h0 hs hst
    | poll revents =>
      obtain ⟨_, active, hok⟩ := hst
      exact inv_polled hs (fillActiveChannels.spec hok).1

omit [DecidableEq κ] in
/-- An entry that is not skipped is the one of the channel that the map has for it. -/
theorem Inv.entry_of_find {fd : κ → Int} {s : LoopChannels κ} (h : s.Inv fd) {i : Nat}
    {p : PollFd} (hp : s.poller_.pollfds_[i]? = some p) (hpos : 0 ≤ p.fd) :
    ∃ c, s.poller_.channels_.find p.fd = some c ∧ fd c = p.fd ∧ (s.channel c).index_ = i ∧
      s.entry c = some p := by
  obtain ⟨c, hc, hfd, hx⟩ := h.slots i p hp
  rw [decodeFd_of_nonneg hpos] at hc hfd
  exact ⟨c, hc, hfd, hx, entry_eq_some.mpr ⟨i, hx, hp⟩⟩

omit [DecidableEq κ] in
/-- The channels that poll(2) found ready, in a state of the poller. -/
theorem Inv.mem_ready {fd : κ → Int} (h0 : ∀ c, 0 ≤ fd c) {s : LoopChannels κ} (h : s.Inv fd)
    (hskips : ∀ p ∈ s.poller_.pollfds_, p.fd < 0 → p.revents = 0) {c : κ} :
    c ∈ ready s.poller_.channels_ s.poller_.pollfds_ ↔
      s.Registered c ∧ ∃ p, s.entry c = some p ∧ p.revents ≠ 0 := by
  rw [LoopChannels.mem_ready, Registered, h.fds]
  constructor
  · rintro ⟨p, hmem, hne, hfind⟩
    obtain ⟨he, _⟩ := h.mapped _ _ hfind
    obtain ⟨i, hi⟩ := List.mem_iff_getElem?.mp hmem
    obtain ⟨d, hd, _, _, hentry⟩ := h.entry_of_find hi (by rw [he]; exact h0 c)
    rw [hfind] at hd
    cases hd
    rw [he] at hfind
    exact ⟨hfind, p, hentry, hne⟩
  · rintro ⟨hfind, p, hentry, hne⟩
    obtain ⟨i, _, hi⟩ := entry_eq_some.mp hentry
    have hmem := List.mem_iff_getElem?.mpr ⟨i, hi⟩
    have hpos : 0 ≤ p.fd := by
      by_contra hneg
      exact hne (hskips p hmem (by omega))
    obtain ⟨_, _, q, hq, hqd, _⟩ := h.mapped _ _ hfind
    rw [hentry] at hq
    cases hq
    rw [decodeFd_of_nonneg hpos] at hqd
    exact ⟨p, hmem, hne, by rw [hqd, hfind]⟩

omit [DecidableEq κ] in
/-- They come in the order of their entries. -/
theorem Inv.ready_pairwise {fd : κ → Int} (h0 : ∀ c, 0 ≤ fd c) {s : LoopChannels κ}
    (h : s.Inv fd) : (ready s.poller_.channels_ s.poller_.pollfds_).Pairwise fun c d =>
      (s.channel c).index_ < (s.channel d).index_ := by
  have hindex : ∀ (i : Nat) p c, s.poller_.pollfds_[i]? = some p →
      (if p.revents = 0 then none else s.poller_.channels_.find p.fd) = some c →
      (s.channel c).index_ = i := by
    intro i p c hi hc
    split at hc
    · cases hc
    · obtain ⟨he, _⟩ := h.mapped _ _ hc
      obtain ⟨d, hd, _, hx, _⟩ := h.entry_of_find hi (by rw [he]; exact h0 c)
      rw [hc] at hd
      cases hd
      exact hx
  unfold ready
  rw [List.pairwise_filterMap, List.pairwise_iff_getElem]
  intro i j hi hj hij c hc d hd
  rw [hindex i _ c (List.getElem?_eq_getElem hi) hc, hindex j _ d (List.getElem?_eq_getElem hj) hd]
  exact_mod_cast hij

/-- In every state that calls and polls reach, a poll fails no assertion. It reports
the registered channels whose entries have events, each once and in the order of the
vector, and sets their `revents`; no other channel changes. -/
theorem poll_reports_exactly_the_ready_channels (fd : κ → Int) (h0 : ∀ c, 0 ≤ fd c)
    (s : LoopChannels κ) (h : (polling fd).Reachable s) (revents : Nat → BitVec 16)
    (hpolls : s.Polls revents) :
    ∃ s' active, s.poll revents = .ok (s', active) ∧
      s'.poller_ = { s.poller_ with pollfds_ := polled revents s.poller_.pollfds_ } ∧
      (∀ c, c ∈ active ↔ s'.Registered c ∧ ∃ p, s'.entry c = some p ∧ p.revents ≠ 0) ∧
      active.Nodup ∧
      (active.Pairwise fun c d => (s'.channel c).index_ < (s'.channel d).index_) ∧
      (∀ c ∈ active, ∀ p, s'.entry c = some p →
        (s'.channel c).revents_ = p.revents.signExtend 32) ∧
      ∀ c, c ∉ active → s'.channel c = s.channel c := by
  let s₁ : LoopChannels κ := { s with
    poller_ := { s.poller_ with pollfds_ := polled revents s.poller_.pollfds_ } }
  have h1 : s₁.Inv fd := inv_polled (polling_inv h0 h) (Marked.refl s₁)
  have hat : ∀ p ∈ s₁.poller_.pollfds_, (p.fd < 0 → p.revents = 0) ∧ 0 ≤ p.revents.toInt := by
    intro p hp
    obtain ⟨i, hi⟩ := List.mem_iff_getElem?.mp hp
    rw [polled_getElem?, Option.map_eq_some_iff] at hi
    obtain ⟨q, hq, rfl⟩ := hi
    exact ⟨hpolls.skips i q hq, hpolls.nonneg i (lt_of_entry hq)⟩
  have hmarks : Marks fd s₁.poller_.channels_ s₁.poller_.pollfds_ := by
    intro p hp hne
    obtain ⟨hskip, hnonneg⟩ := hat p hp
    obtain ⟨i, hi⟩ := List.mem_iff_getElem?.mp hp
    have hpos : 0 ≤ p.fd := by
      by_contra hneg
      exact hne (hskip (by omega))
    have hzero : p.revents.toInt ≠ 0 := fun e => hne (BitVec.toInt_inj.mp (by simpa using e))
    obtain ⟨c, hc, hfd, _⟩ := h1.entry_of_find hi hpos
    exact ⟨by omega, c, hc, hfd⟩
  obtain ⟨s', hok, hothers, hreported⟩ := fillActiveChannels_complete h1.fds hmarks
  obtain ⟨hmarked, _⟩ := fillActiveChannels.spec hok
  have hsame : ∀ c, (s'.channel c).index_ = (s₁.channel c).index_ ∧
      s'.entry c = s₁.entry c ∧ (s'.Registered c ↔ s₁.Registered c) := by
    intro c
    obtain ⟨r, hr⟩ := hmarked.channel c
    unfold entry Registered
    rw [hr, hmarked.poller_]
    exact ⟨rfl, rfl, Iff.rfl⟩
  have horder := h1.ready_pairwise h0
  refine ⟨s', _, hok, hmarked.poller_, fun c => ?_, ?_, ?_, fun c hc p hp => ?_, hothers⟩
  · rw [(hsame c).2.1, (hsame c).2.2]
    exact h1.mem_ready h0 fun p hp => (hat p hp).1
  · refine horder.imp ?_
    rintro c d hlt rfl
    omega
  · refine horder.imp ?_
    intro c d hlt
    rwa [(hsame c).1, (hsame d).1]
  · obtain ⟨q, hq, _, hfind, hset⟩ := hreported c hc
    obtain ⟨he, _⟩ := h1.mapped _ _ hfind
    obtain ⟨i, hi⟩ := List.mem_iff_getElem?.mp hq
    obtain ⟨d, hd, _, _, hentry⟩ := h1.entry_of_find hi (by rw [he]; exact h0 c)
    rw [hfind] at hd
    cases hd
    rw [(hsame c).2.1, hentry] at hp
    cases hp
    exact hset

/-- A poll that finds the second of two channels readable. -/
theorem a_poll_reports_the_second_channel :
    ∃ s s' : LoopChannels Bool, ∃ active,
      s.poll (fun i => if i = 1 then 1 else 0) = .ok (s', active) ∧ active.Nodup ∧
      ∀ c, c ∈ active ↔ s'.Registered c ∧ ∃ p, s'.entry c = some p ∧ p.revents ≠ 0 := by
  have h0 : (polling fun b : Bool => if b then 6 else 5).Reachable (_ : LoopChannels Bool) :=
    .start (by rfl)
  have h1 := h0.next (a := .call (.enableReading false)) (by exact ⟨rfl, rfl⟩)
  have h2 := h1.next (a := .call (.enableReading true)) (by exact ⟨rfl, rfl⟩)
  obtain ⟨s', active, hok, _, hmem, hnodup, _⟩ := poll_reports_exactly_the_ready_channels
    (fun b : Bool => if b then 6 else 5) (by decide) _ h2 (fun i => if i = 1 then 1 else 0) (by
      refine ⟨?_, fun i _ => by split <;> decide⟩
      rintro (_ | _ | i) p hp hneg <;> cases hp <;> cases hneg)
  exact ⟨_, s', active, hok, hnodup, hmem⟩

end LoopChannels

end jmuduo.net
