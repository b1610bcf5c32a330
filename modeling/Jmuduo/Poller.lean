-- The poller of an event loop (Poller.cc). It keeps a vector for poll(2) and
-- a map from descriptors to channels, and each channel keeps its own index
-- in the vector. An entry with the descriptor -fd-1 is one that poll skips.
import Jmuduo.Channel
import Jmuduo.Memory
import Jmuduo.Runs
import Jmuduo.Map

open outcome memory runs maps

namespace jmuduo.net

/-! ## The poller of the source -/

/-- `struct pollfd`. -/
structure PollFd where
  fd : Int
  events : BitVec 16
  revents : BitVec 16
  deriving DecidableEq, Repr

structure Poller (κ : Type) where
  pollfds_ : List PollFd
  channels_ : Map Int κ

/-- The poller of one loop with the channels that its pointers can name.
`removed` records the channels that `remove()` took out. -/
structure LoopChannels (κ : Type) where
  poller_ : Poller κ
  channel : κ → Channel
  removed : κ → Bool

/-- `pollfds_[idx]`, with an `int` for the index. -/
def pollfdAt (pollfds : List PollFd) (idx : Int) : Outcome PollFd :=
  demand .outOfRange (if 0 ≤ idx then pollfds[idx.toNat]? else none)

/-- The descriptor that an entry stands for. -/
def decodeFd (fd : Int) : Int := if fd < 0 then -fd - 1 else fd

namespace LoopChannels

section

variable {κ : Type} [DecidableEq κ]

def setChannel (s : LoopChannels κ) (c : κ) (ch : Channel) : LoopChannels κ :=
  { s with channel := Function.update s.channel c ch }

/-- `Poller::updateChannel`. -/
def updateChannel (s : LoopChannels κ) (c : κ) : Outcome (LoopChannels κ) :=
  let ch := s.channel c
  if ch.index_ < 0 then do
    check "channels_.find(channel->fd()) == channels_.end()"
      ((s.poller_.channels_.find ch.fd_).isNone)
    let pfd : PollFd := ⟨ch.fd_, ch.events_.setWidth 16, 0⟩
    let pollfds := s.poller_.pollfds_ ++ [pfd]
    let idx : Int := pollfds.length - 1
    pure ({ s with poller_ := ⟨pollfds, s.poller_.channels_.insert pfd.fd c⟩ }.setChannel c
      { ch with index_ := idx })
  else do
    let pfd ← pollfdAt s.poller_.pollfds_ ch.index_
    let pfd := { pfd with events := ch.events_.setWidth 16, revents := 0 }
    let pfd := if ch.isNoneEvent then { pfd with fd := -ch.fd_ - 1 } else pfd
    pure { s with
      poller_ := { s.poller_ with pollfds_ := s.poller_.pollfds_.set ch.index_.toNat pfd } }

/-- `Poller::removeChannel`. The subscript of `channels_` inserts a null
pointer for a descriptor that the map does not hold. -/
def removeChannel (s : LoopChannels κ) (c : κ) : Outcome (LoopChannels κ) := do
  let ch := s.channel c
  check "channel->isNoneEvent()" (ch.isNoneEvent)
  let channels : Map Int κ := s.poller_.channels_.erase ch.fd_
  let pollfds := s.poller_.pollfds_
  let idx := ch.index_
  let pfd ← pollfdAt pollfds idx
  check "pollfds_[idx].fd == -channel->fd()-1 && pollfds_[idx].events == channel->events()"
    (pfd.fd = -ch.fd_ - 1 ∧ pfd.events.signExtend 32 = ch.events_)
  if idx = pollfds.length - 1 then
    pure { s with poller_ := ⟨pollfds.dropLast, channels⟩ }
  else do
    let back ← demand .outOfRange pollfds.getLast?
    let channelfd := decodeFd back.fd
    let pollfds := iterSwap pollfds idx.toNat (pollfds.length - 1)
    let moved ← demand .badPointer (channels.find channelfd)
    pure ({ s with poller_ := ⟨pollfds.dropLast, channels⟩ }.setChannel moved
      { s.channel moved with index_ := idx })

/-! `Channel::update` after each change of an interest, and
`Channel::remove`. -/

def enableReading (s : LoopChannels κ) (c : κ) : Outcome (LoopChannels κ) :=
  (s.setChannel c (s.channel c).enableReading).updateChannel c

def enableWriting (s : LoopChannels κ) (c : κ) : Outcome (LoopChannels κ) :=
  (s.setChannel c (s.channel c).enableWriting).updateChannel c

def disableWriting (s : LoopChannels κ) (c : κ) : Outcome (LoopChannels κ) :=
  (s.setChannel c (s.channel c).disableWriting).updateChannel c

def disableAll (s : LoopChannels κ) (c : κ) : Outcome (LoopChannels κ) :=
  (s.setChannel c (s.channel c).disableAll).updateChannel c

def remove (s : LoopChannels κ) (c : κ) : Outcome (LoopChannels κ) := do
  check "isNoneEvent()" (s.channel c).isNoneEvent
  let s ← s.removeChannel c
  pure { s with removed := Function.update s.removed c true }

/-! ## The runs -/

inductive Op (κ : Type)
  | enableReading (c : κ)
  | enableWriting (c : κ)
  | disableWriting (c : κ)
  | disableAll (c : κ)
  | remove (c : κ)
  deriving DecidableEq, Repr

def Op.target : Op κ → κ
  | .enableReading c | .enableWriting c | .disableWriting c | .disableAll c | .remove c => c

def Op.run (s : LoopChannels κ) : Op κ → Outcome (LoopChannels κ)
  | .enableReading c => s.enableReading c
  | .enableWriting c => s.enableWriting c
  | .disableWriting c => s.disableWriting c
  | .disableAll c => s.disableAll c
  | .remove c => s.remove c

/-- A new poller, and new channels with the descriptors `fd`. -/
def start (fd : κ → Int) : LoopChannels κ where
  poller_ := ⟨[], ∅⟩
  channel c := Channel.construct (fd c)
  removed _ := false

/-- Any calls on any channels, but none on a channel after its removal. -/
def machine (fd : κ → Int) : Machine (LoopChannels κ) (Op κ) where
  init s := s = start fd
  step s op s' := s.removed op.target = false ∧ op.run s = .ok s'

end

/-! ## The invariant -/

variable {κ : Type}

/-- The poller's map has the channel under its own descriptor. -/
def Registered (s : LoopChannels κ) (c : κ) : Prop :=
  s.poller_.channels_.find (s.channel c).fd_ = some c

/-- The poll entry at the channel's index. -/
def entry (s : LoopChannels κ) (c : κ) : Option PollFd :=
  if 0 ≤ (s.channel c).index_ then s.poller_.pollfds_[(s.channel c).index_.toNat]? else none

structure Inv (fd : κ → Int) (s : LoopChannels κ) : Prop where
  fds : ∀ c, (s.channel c).fd_ = fd c
  known : ∀ c, Channel.Known (s.channel c).events_
  size : s.poller_.channels_.size = s.poller_.pollfds_.length
  slots : ∀ (i : Nat) p, s.poller_.pollfds_[i]? = some p → ∃ c,
    s.poller_.channels_.find (decodeFd p.fd) = some c ∧ fd c = decodeFd p.fd ∧
      (s.channel c).index_ = i
  mapped : ∀ f c, s.poller_.channels_.find f = some c → f = fd c ∧ s.removed c = false ∧
    ∃ p, s.entry c = some p ∧ decodeFd p.fd = fd c ∧
      p.events.signExtend 32 = (s.channel c).events_
  indexed : ∀ c, s.removed c = false → 0 ≤ (s.channel c).index_ →
    s.poller_.channels_.find (fd c) = some c

theorem entry_eq_some {s : LoopChannels κ} {c : κ} {p : PollFd} :
    s.entry c = some p ↔
      ∃ i : Nat, (s.channel c).index_ = i ∧ s.poller_.pollfds_[i]? = some p := by
  unfold entry
  constructor
  · intro h
    split at h
    · exact ⟨_, by omega, h⟩
    · cases h
  · rintro ⟨i, hi, hp⟩
    simp [hi, hp]

theorem lt_of_entry {s : LoopChannels κ} {i : Nat} {p : PollFd}
    (h : s.poller_.pollfds_[i]? = some p) : i < s.poller_.pollfds_.length :=
  (List.getElem?_eq_some_iff.mp h).1

/-- A channel with an index stands in the vector at that index. -/
theorem Inv.index {fd : κ → Int} {s : LoopChannels κ} (h : s.Inv fd) {c : κ}
    (hr : s.removed c = false) (hi : 0 ≤ (s.channel c).index_) :
    ∃ (i : Nat) (p : PollFd), (s.channel c).index_ = i ∧ s.poller_.pollfds_[i]? = some p ∧
      s.entry c = some p ∧ decodeFd p.fd = fd c ∧
      p.events.signExtend 32 = (s.channel c).events_ := by
  obtain ⟨_, _, p, hp, hd, he⟩ := h.mapped _ _ (h.indexed c hr hi)
  obtain ⟨i, hx, hat⟩ := entry_eq_some.mp hp
  exact ⟨i, p, hx, hat, hp, hd, he⟩

/-- Two channels of the map with one index are the same channel. -/
theorem Inv.index_inj {fd : κ → Int} {s : LoopChannels κ} (h : s.Inv fd) {c d : κ} {f g : Int}
    (hc : s.poller_.channels_.find f = some c) (hd : s.poller_.channels_.find g = some d)
    (he : (s.channel c).index_ = (s.channel d).index_) : c = d := by
  obtain ⟨hf, _, p, hp, hpc, _⟩ := h.mapped _ _ hc
  obtain ⟨hg, _, q, hq, hqd, _⟩ := h.mapped _ _ hd
  have hpq : p = q := by
    unfold entry at hp hq
    rw [he, hq] at hp
    cases hp
    rfl
  subst hpq
  rw [hpc] at hqd
  rw [hf, hqd, ← hg, hd] at hc
  cases hc
  rfl

/-! ## The spec of updateChannel -/

variable [DecidableEq κ]

/-- A new entry for the channel `ch`. -/
def added (s : LoopChannels κ) (c : κ) (ch : Channel) : LoopChannels κ :=
  let pfd : PollFd := ⟨ch.fd_, ch.events_.setWidth 16, 0⟩
  { s with poller_ := ⟨s.poller_.pollfds_ ++ [pfd], s.poller_.channels_.insert ch.fd_ c⟩
  }.setChannel c { ch with index_ := s.poller_.pollfds_.length }

/-- The known entry `p` after an update. The descriptor of an entry that
was skipped stays as it is. -/
def updated (ch : Channel) (p : PollFd) : PollFd where
  fd := if ch.isNoneEvent then -ch.fd_ - 1 else p.fd
  events := ch.events_.setWidth 16
  revents := 0

def changed (s : LoopChannels κ) (c : κ) (ch : Channel) (p : PollFd) : LoopChannels κ :=
  { s with poller_ := { s.poller_ with
    pollfds_ := s.poller_.pollfds_.set ch.index_.toNat (updated ch p) } }.setChannel c ch

/-- An update of a channel that has an entry returns, and changes the entry. -/
theorem updateChannel_indexed {fd : κ → Int} {s : LoopChannels κ} (h : s.Inv fd) {c : κ}
    (hr : s.removed c = false) (hi : 0 ≤ (s.channel c).index_) {ch : Channel}
    (hx : ch.index_ = (s.channel c).index_) :
    ∃ p, s.entry c = some p ∧ (s.setChannel c ch).updateChannel c = .ok (s.changed c ch p) := by
  obtain ⟨i, p, he, hp, hen, _⟩ := h.index hr hi
  refine ⟨p, hen, ?_⟩
  have hat : pollfdAt s.poller_.pollfds_ ch.index_ = .ok p := by
    rw [hx, he]
    simp [pollfdAt, hp]
  have hpos : ¬ (s.channel c).index_ < 0 := by omega
  simp only [updateChannel, setChannel, Function.update_self, hx, hpos, if_false]
  rw [← hx, hat]
  simp only [ok_bind, pure_eq_ok, Except.ok.injEq]
  simp only [changed, updated, setChannel]
  split <;> rfl

/-- All that an update of a channel can do: it adds an entry where the map
holds none for the descriptor, or it changes the entry that the channel has. -/
theorem updateChannel.spec {fd : κ → Int} {s s' : LoopChannels κ} (h : s.Inv fd) {c : κ}
    (hr : s.removed c = false) {ch : Channel} (hf : ch.fd_ = fd c)
    (hx : ch.index_ = (s.channel c).index_)
    (hok : (s.setChannel c ch).updateChannel c = .ok s') :
    (s.poller_.channels_.find (fd c) = none ∧ (s.channel c).index_ < 0 ∧ s' = s.added c ch) ∨
    ∃ p, s.entry c = some p ∧ s' = s.changed c ch p := by
  by_cases hi : (s.channel c).index_ < 0
  · have hneg : ch.index_ < 0 := by omega
    simp only [updateChannel, setChannel, Function.update_self, hneg, if_true, bind_eq_ok,
      check_eq_ok, Option.isNone_iff_eq_none, hf] at hok
    obtain ⟨_, hnone, hok⟩ := hok
    cases hok
    refine Or.inl ⟨hnone, hi, ?_⟩
    simp [added, setChannel, hf]
  · obtain ⟨p, hen, hup⟩ := updateChannel_indexed h hr (by omega) hx
    rw [hup] at hok
    cases hok
    exact Or.inr ⟨p, hen, rfl⟩

/-! ## An update keeps the invariant -/

@[simp] theorem decodeFd_neg {f : Int} (h : 0 ≤ f) : decodeFd (-f - 1) = f := by
  unfold decodeFd
  split <;> omega

theorem decodeFd_of_nonneg {f : Int} (h : 0 ≤ f) : decodeFd f = f := by
  unfold decodeFd
  split <;> omega

theorem added_channel (s : LoopChannels κ) (c d : κ) (ch : Channel) :
    (s.added c ch).channel d =
      if d = c then { ch with index_ := s.poller_.pollfds_.length } else s.channel d := by
  simp only [added, setChannel, Function.update_apply]

theorem changed_channel (s : LoopChannels κ) (c d : κ) (ch : Channel) (p : PollFd) :
    (s.changed c ch p).channel d = if d = c then ch else s.channel d := by
  simp only [changed, setChannel, Function.update_apply]

/-- The entry that a channel gets with its first update. -/
theorem added_entry_self (s : LoopChannels κ) (c : κ) (ch : Channel) :
    (s.added c ch).entry c = some ⟨ch.fd_, ch.events_.setWidth 16, 0⟩ := by
  rw [entry_eq_some]
  refine ⟨s.poller_.pollfds_.length, by rw [added_channel, if_pos rfl], ?_⟩
  simp [added, setChannel]

theorem added_entry_ne {s : LoopChannels κ} {c d : κ} {ch : Channel} {p : PollFd} (hdc : d ≠ c)
    (hp : s.entry d = some p) : (s.added c ch).entry d = some p := by
  obtain ⟨i, hx, hat⟩ := entry_eq_some.mp hp
  rw [entry_eq_some]
  refine ⟨i, by rw [added_channel, if_neg hdc, hx], ?_⟩
  show (s.poller_.pollfds_ ++ _)[i]? = some p
  rw [List.getElem?_append_left (lt_of_entry hat), hat]

theorem changed_entry_self {s : LoopChannels κ} {c : κ} {ch : Channel} {p : PollFd}
    (hx : ch.index_ = (s.channel c).index_) (hp : s.entry c = some p) :
    (s.changed c ch p).entry c = some (updated ch p) := by
  obtain ⟨i, hi, hat⟩ := entry_eq_some.mp hp
  rw [entry_eq_some]
  refine ⟨i, by rw [changed_channel, if_pos rfl, hx, hi], ?_⟩
  simp only [changed, setChannel, hx, hi, Int.toNat_natCast]
  rw [List.getElem?_set_self (lt_of_entry hat)]

theorem changed_entry_ne {fd : κ → Int} {s : LoopChannels κ} (h : s.Inv fd) {c d : κ}
    {ch : Channel} {p : PollFd} (hx : ch.index_ = (s.channel c).index_)
    (hc : s.poller_.channels_.find (fd c) = some c) (hdc : d ≠ c)
    (hd : s.poller_.channels_.find (fd d) = some d) :
    (s.changed c ch p).entry d = s.entry d := by
  obtain ⟨_, _, q, hq, _⟩ := h.mapped _ _ hd
  obtain ⟨_, _, r, hr, _⟩ := h.mapped _ _ hc
  obtain ⟨j, hxd, hatd⟩ := entry_eq_some.mp hq
  obtain ⟨i, hi, _⟩ := entry_eq_some.mp hr
  have hij : i ≠ j := by
    rintro rfl
    exact hdc (h.index_inj hd hc (by rw [hxd, hi]))
  rw [hq, entry_eq_some]
  refine ⟨j, by rw [changed_channel, if_neg hdc, hxd], ?_⟩
  simp only [changed, setChannel, hx, hi, Int.toNat_natCast]
  rw [List.getElem?_set_ne hij, hatd]

omit [DecidableEq κ] in
theorem inv_start (fd : κ → Int) : (start fd).Inv fd where
  fds c := rfl
  known c := Channel.known_none
  size := rfl
  slots i p h := by simp [start] at h
  mapped f c h := by simp [start] at h
  indexed c h hi := by simp [start, Channel.construct] at hi

theorem inv_added {fd : κ → Int} (h0 : ∀ c, 0 ≤ fd c) {s : LoopChannels κ} (h : s.Inv fd)
    {c : κ} (hnone : s.poller_.channels_.find (fd c) = none) (hi : (s.channel c).index_ < 0)
    (hr : s.removed c = false) {ch : Channel} (hf : ch.fd_ = fd c)
    (hk : Channel.Known ch.events_) : (s.added c ch).Inv fd := by
  have hother : ∀ d, 0 ≤ (s.channel d).index_ → d ≠ c := by
    rintro d hd rfl
    omega
  have hkey : ∀ d, s.poller_.channels_.find (fd d) = some d → fd d ≠ ch.fd_ := by
    intro d hd he
    rw [he, hf, hnone] at hd
    cases hd
  refine ⟨?_, ?_, ?_, ?_, ?_, ?_⟩
  · intro d
    rw [added_channel]
    split
    · rename_i e
      simpa [e] using hf
    · exact h.fds d
  · intro d
    rw [added_channel]
    split
    · exact hk
    · exact h.known d
  · rw [← hf] at hnone
    simp only [added, setChannel, Map.size_insert_new hnone, List.length_append, h.size]
    rfl
  · intro i p hp
    have hp' : (s.poller_.pollfds_ ++ [⟨ch.fd_, ch.events_.setWidth 16, 0⟩])[i]? = some p := hp
    rw [List.getElem?_append] at hp'
    split at hp'
    · obtain ⟨d, hl, hd, hx⟩ := h.slots i p hp'
      have hdc := hother d (by omega)
      refine ⟨d, ?_, hd, by rw [added_channel, if_neg hdc, hx]⟩
      rw [← hd] at hl ⊢
      exact (Map.find_insert_ne (hkey d hl)).trans hl
    · have hlast : i = s.poller_.pollfds_.length := by
        have := lt_of_entry hp
        simp only [added, setChannel, List.length_append, List.length_singleton] at this
        omega
      subst hlast
      simp at hp'
      subst hp'
      refine ⟨c, ?_, ?_, by rw [added_channel, if_pos rfl]⟩
      · simp only [decodeFd_of_nonneg (hf ▸ h0 c)]
        exact Map.find_insert_self _ _ _
      · rw [decodeFd_of_nonneg (hf ▸ h0 c), hf]
  · intro f d hl
    have hl' : Map.find (s.poller_.channels_.insert ch.fd_ c) f = some d := hl
    rw [Map.find_insert] at hl'
    split at hl'
    · rename_i e
      cases hl'
      refine ⟨e.trans hf, hr, _, added_entry_self s c ch, ?_, ?_⟩
      · rw [decodeFd_of_nonneg (hf ▸ h0 c), hf]
      · rw [added_channel, if_pos rfl]
        exact hk.short
    · obtain ⟨he, hrd, p, hp, hd, hev⟩ := h.mapped f d hl'
      obtain ⟨i, hx, _⟩ := entry_eq_some.mp hp
      have hdc := hother d (by omega)
      exact ⟨he, hrd, p, added_entry_ne hdc hp, hd, by rw [added_channel, if_neg hdc, hev]⟩
  · intro d hrd hx
    show Map.find (s.poller_.channels_.insert ch.fd_ c) (fd d) = some d
    by_cases hdc : d = c
    · subst hdc
      rw [← hf, Map.find_insert_self]
    · rw [added_channel, if_neg hdc] at hx
      have hd := h.indexed d hrd hx
      exact (Map.find_insert_ne (hkey d hd)).trans hd

theorem decodeFd_updated {ch : Channel} {p : PollFd} {f : Int} (h0 : 0 ≤ f) (hf : ch.fd_ = f)
    (hp : decodeFd p.fd = f) : decodeFd (updated ch p).fd = f := by
  unfold updated
  split
  · rw [hf, decodeFd_neg h0]
  · exact hp

theorem inv_changed {fd : κ → Int} (h0 : ∀ c, 0 ≤ fd c) {s : LoopChannels κ} (h : s.Inv fd)
    {c : κ} {p : PollFd} (hr : s.removed c = false) (hp : s.entry c = some p) {ch : Channel}
    (hf : ch.fd_ = fd c) (hx : ch.index_ = (s.channel c).index_)
    (hk : Channel.Known ch.events_) : (s.changed c ch p).Inv fd := by
  obtain ⟨i, hi, hat⟩ := entry_eq_some.mp hp
  have hreg := h.indexed c hr (by omega)
  have hdec : decodeFd (updated ch p).fd = fd c := by
    obtain ⟨_, _, q, hq, hqd, _⟩ := h.mapped _ _ hreg
    rw [hp] at hq
    cases hq
    exact decodeFd_updated (h0 c) hf hqd
  have hset : (s.changed c ch p).poller_.pollfds_ = s.poller_.pollfds_.set i (updated ch p) := by
    simp [changed, setChannel, hx, hi]
  have hidx : ∀ d, ((s.changed c ch p).channel d).index_ = (s.channel d).index_ := by
    intro d
    rw [changed_channel]
    split
    · rename_i e
      rw [e, hx]
    · rfl
  refine ⟨?_, ?_, ?_, ?_, ?_, ?_⟩
  · intro d
    rw [changed_channel]
    split
    · rename_i e
      rw [e, hf]
    · exact h.fds d
  · intro d
    rw [changed_channel]
    split
    · exact hk
    · exact h.known d
  · rw [hset, List.length_set]
    exact h.size
  · intro j q hq
    rw [hset, List.getElem?_set] at hq
    split at hq
    · rename_i e
      subst e
      rw [if_pos (lt_of_entry hat)] at hq
      cases hq
      exact ⟨c, by rw [hdec]; exact hreg, hdec.symm, by rw [hidx, hi]⟩
    · obtain ⟨d, hl, hd, hxd⟩ := h.slots j q hq
      exact ⟨d, hl, hd, by rw [hidx, hxd]⟩
  · intro f d hl
    obtain ⟨he, hrd, q, hq, hqd, hev⟩ := h.mapped f d hl
    by_cases hdc : d = c
    · subst hdc
      refine ⟨he, hrd, _, changed_entry_self hx hp, hdec, ?_⟩
      rw [changed_channel, if_pos rfl]
      exact hk.short
    · rw [he] at hl
      refine ⟨he, hrd, q, ?_, hqd, by rw [changed_channel, if_neg hdc, hev]⟩
      exact (changed_entry_ne h hx hreg hdc hl).trans hq
  · intro d hrd hxd
    rw [hidx] at hxd
    exact h.indexed d hrd hxd

/-! ## The spec of removeChannel -/

/-- What a removal of the channel `c` at index `i` does. The last entry
comes to the index, and its channel gets the index. -/
structure Taken (fd : κ → Int) (s : LoopChannels κ) (c : κ) (i : Nat) (s' : LoopChannels κ) :
    Prop where
  index : (s.channel c).index_ = i
  lt : i < s.poller_.pollfds_.length
  skipped : ∃ p, s.poller_.pollfds_[i]? = some p ∧ p.fd = -fd c - 1
  none : (s.channel c).isNoneEvent = true
  channels : s'.poller_.channels_ = s.poller_.channels_.erase (fd c)
  removed : s'.removed = Function.update s.removed c true
  length : s'.poller_.pollfds_.length + 1 = s.poller_.pollfds_.length
  pollfds : ∀ j, s'.poller_.pollfds_[j]? =
    if j + 1 < s.poller_.pollfds_.length then
      (if j = i then s.poller_.pollfds_[s.poller_.pollfds_.length - 1]?
        else s.poller_.pollfds_[j]?)
    else Option.none
  moved : ∀ d, d ≠ c → s.poller_.channels_.find (fd d) = some d →
    (s.channel d).index_ = s.poller_.pollfds_.length - 1 →
    s'.channel d = { s.channel d with index_ := i }
  kept : ∀ d, (d = c ∨ s.poller_.channels_.find (fd d) ≠ some d ∨
    (s.channel d).index_ ≠ s.poller_.pollfds_.length - 1) → s'.channel d = s.channel d

theorem pollfdAt_eq_ok {pollfds : List PollFd} {idx : Int} {p : PollFd} :
    pollfdAt pollfds idx = .ok p ↔ ∃ i : Nat, idx = i ∧ pollfds[i]? = some p := by
  unfold pollfdAt
  rw [demand_eq_ok]
  constructor
  · intro h
    split at h
    · exact ⟨_, by omega, h⟩
    · cases h
  · rintro ⟨i, rfl, hp⟩
    simpa using hp

theorem dropLast_pollfds {pollfds : List PollFd} {i : Nat} (h : i + 1 = pollfds.length) (j : Nat) :
    pollfds.dropLast[j]? =
      if j + 1 < pollfds.length then
        (if j = i then pollfds[pollfds.length - 1]? else pollfds[j]?)
      else none := by
  rw [dropLast_getElem?]
  split
  · rw [if_neg (by omega)]
  · rfl

/-- Whenever a removal returns, it took out the entry of the channel. -/
theorem remove.spec {fd : κ → Int} {s s' : LoopChannels κ} (h : s.Inv fd) {c : κ}
    (hr : s.removed c = false) (hok : s.remove c = .ok s') : ∃ i, Taken fd s c i s' := by
  simp only [remove, removeChannel, bind_eq_ok, check_eq_ok, h.fds] at hok
  obtain ⟨_, hnone, s₁, ⟨_, _, p, hat, _, ⟨hp, _⟩, hrest⟩, hs'⟩ := hok
  obtain ⟨i, hi, hpi⟩ := pollfdAt_eq_ok.mp hat
  have hlt := lt_of_entry hpi
  have hreg := h.indexed c hr (by omega)
  refine ⟨i, ?_⟩
  cases hs'
  by_cases hlast : i + 1 = s.poller_.pollfds_.length
  · rw [if_pos (by omega)] at hrest
    cases hrest
    refine ⟨hi, hlt, ⟨p, hpi, hp⟩, hnone, rfl, rfl, ?_, dropLast_pollfds hlast, ?_, ?_⟩
    · simp only [List.length_dropLast]
      omega
    · intro d hdc hd hx
      exact absurd (h.index_inj hd hreg (by omega)) hdc
    · intro d _
      rfl
  · rw [if_neg (by omega)] at hrest
    simp only [bind_eq_ok, demand_eq_ok] at hrest
    obtain ⟨back, hback, moved, hmoved, hs₁⟩ := hrest
    cases hs₁
    rw [List.getLast?_eq_getElem?] at hback
    obtain ⟨d, hd, hfdd, hxd⟩ := h.slots _ _ hback
    rw [Map.find_erase] at hmoved
    split at hmoved
    · cases hmoved
    rw [hd] at hmoved
    cases hmoved
    have hxd' : (s.channel moved).index_ = s.poller_.pollfds_.length - 1 := by omega
    have hdc : moved ≠ c := by
      rintro rfl
      omega
    rw [← hfdd] at hd
    refine ⟨hi, hlt, ⟨p, hpi, hp⟩, hnone, rfl, rfl, ?_, ?_, ?_, ?_⟩
    · simp only [setChannel, List.length_dropLast, iterSwap_length]
      omega
    · intro j
      simp only [setChannel, hi, Int.toNat_natCast]
      exact iterSwap_dropLast_getElem? (by omega) j
    · intro e hec he hxe
      have hed := h.index_inj he hd (by omega)
      subst hed
      simp [setChannel, hi, h.fds]
    · intro e he
      have hed : e ≠ moved := by
        rintro rfl
        rcases he with he | he | he
        · exact hdc he
        · exact he hd
        · exact he hxd'
      simp [setChannel, Function.update_of_ne hed]

/-- The channels of the map keep their entries, but for the one taken out. -/
theorem Taken.entry {fd : κ → Int} {s s' : LoopChannels κ} (h : s.Inv fd) {c d : κ} {i : Nat}
    (ht : Taken fd s c i s') (hreg : s.poller_.channels_.find (fd c) = some c) (hdc : d ≠ c)
    (hd : s.poller_.channels_.find (fd d) = some d) : s'.entry d = s.entry d := by
  obtain ⟨_, _, p, hp, _⟩ := h.mapped _ _ hd
  obtain ⟨j, hx, hat⟩ := entry_eq_some.mp hp
  have hlt := lt_of_entry hat
  have hij : j ≠ i := by
    rintro rfl
    exact hdc (h.index_inj hd hreg (by rw [hx, ht.index]))
  rw [hp, entry_eq_some]
  by_cases hlast : (s.channel d).index_ = s.poller_.pollfds_.length - 1
  · refine ⟨i, by rw [ht.moved d hdc hd hlast], ?_⟩
    have hj : j = s.poller_.pollfds_.length - 1 := by omega
    rw [ht.pollfds, if_pos (by have := ht.lt; omega), if_pos rfl, ← hj, hat]
  · refine ⟨j, by rw [ht.kept d (Or.inr (Or.inr hlast)), hx], ?_⟩
    rw [ht.pollfds, if_pos (by omega), if_neg hij, hat]

theorem Taken.channel_fields {fd : κ → Int} {s s' : LoopChannels κ} {c : κ} {i : Nat}
    (ht : Taken fd s c i s') (d : κ) :
    (s'.channel d).fd_ = (s.channel d).fd_ ∧ (s'.channel d).events_ = (s.channel d).events_ := by
  by_cases hkept : d = c ∨ s.poller_.channels_.find (fd d) ≠ some d ∨
      (s.channel d).index_ ≠ s.poller_.pollfds_.length - 1
  · rw [ht.kept d hkept]
    exact ⟨rfl, rfl⟩
  · push Not at hkept
    rw [ht.moved d hkept.1 hkept.2.1 hkept.2.2]
    exact ⟨rfl, rfl⟩

theorem inv_taken {fd : κ → Int} {s s' : LoopChannels κ} (h : s.Inv fd) {c : κ} {i : Nat}
    (hr : s.removed c = false) (ht : Taken fd s c i s') : s'.Inv fd := by
  have hreg := h.indexed c hr (by have := ht.index; omega)
  have hkey : ∀ d, d ≠ c → s.poller_.channels_.find (fd d) = some d → fd d ≠ fd c := by
    intro d hdc hd he
    rw [he, hreg] at hd
    cases hd
    exact hdc rfl
  have hfind : ∀ f, s'.poller_.channels_.find f =
      if f = fd c then none else s.poller_.channels_.find f := by
    intro f
    rw [ht.channels, Map.find_erase]
  refine ⟨?_, ?_, ?_, ?_, ?_, ?_⟩
  · intro d
    rw [(ht.channel_fields d).1, h.fds]
  · intro d
    rw [(ht.channel_fields d).2]
    exact h.known d
  · have hsize := Map.size_erase_old hreg
    rw [ht.channels]
    have := h.size
    have := ht.length
    omega
  · intro j p hp
    rw [ht.pollfds] at hp
    split at hp
    · obtain ⟨k, hk, hkp⟩ : ∃ k : Nat, (k = if j = i then s.poller_.pollfds_.length - 1 else j) ∧
          s.poller_.pollfds_[k]? = some p := ⟨_, rfl, by split <;> simp_all⟩
      obtain ⟨d, hl, hd, hx⟩ := h.slots k p hkp
      have hdc : d ≠ c := by
        rintro rfl
        have := ht.index
        split at hk <;> omega
      have hne : fd d ≠ fd c := hkey d hdc (by rw [hd, hl])
      refine ⟨d, by rw [hfind, if_neg (hd ▸ hne), hl], hd, ?_⟩
      split at hk
      · rw [← hd] at hl
        rw [ht.moved d hdc hl (by omega)]
        simp_all
      · rw [ht.kept d (Or.inr (Or.inr (by omega))), hx, hk]
    · cases hp
  · intro f d hl
    rw [hfind] at hl
    split at hl
    · cases hl
    · obtain ⟨he, hrd, p, hp, hpd, hev⟩ := h.mapped f d hl
      have hdc : d ≠ c := by
        rintro rfl
        contradiction
      rw [he] at hl
      refine ⟨he, ?_, p, by rw [ht.entry h hreg hdc hl, hp], hpd, ?_⟩
      · rw [ht.removed, Function.update_of_ne hdc, hrd]
      · rw [(ht.channel_fields d).2, hev]
  · intro d hrd hx
    rw [ht.removed, Function.update_apply] at hrd
    split at hrd
    · cases hrd
    · rename_i hdc
      have hold : 0 ≤ (s.channel d).index_ := by
        by_cases hlast : (s.channel d).index_ = s.poller_.pollfds_.length - 1
        · have := ht.lt
          omega
        · rwa [ht.kept d (Or.inr (Or.inr hlast))] at hx
      have hd := h.indexed d hrd hold
      rw [hfind, if_neg (hkey d hdc hd)]
      exact hd

end LoopChannels

end jmuduo.net
