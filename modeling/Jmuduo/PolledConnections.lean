-- The connections of a loop and its poller: each change of an interest goes to the
-- poll set at once, so that an entry asks for POLLIN while its connection is up,
-- and for POLLOUT exactly while bytes wait for the socket.
import Jmuduo.ConnectionCallbacks
import Jmuduo.PollSet
import Jmuduo.SharedSends

open outcome runs maps

namespace jmuduo.net

/-! ## The connections and the poller -/

/-- The connections of one loop, each with its channel in the poller. The index of
a channel is that of the poller's. -/
structure PolledConnections (κ : Type) where
  poll : LoopChannels κ
  conn : κ → TcpConnection

namespace PolledConnections

open TcpConnection

section

variable {κ : Type}

/-- The updates and removals that a step of the connection `c` makes. A send enables
the writing only where the channel was not writing, and a write disables it only
where it was. -/
def updates (c : κ) (before after : TcpConnection) : Piece → List (LoopChannels.Op κ)
  | .established => [.enableReading c]
  | .handleWrite _ =>
    if before.channel_.isWriting && !after.channel_.isWriting then [.disableWriting c] else []
  | .sendInLoop _ _ | .call (.send _ _) =>
    if !before.channel_.isWriting && after.channel_.isWriting then [.enableWriting c] else []
  | .handleClose => [.disableAll c]
  | .disconnect => if before.state_ = .kConnected then [.disableAll c] else []
  | .remove => [.remove c]
  | .dispatch _ | .read _ | .messageCallback | .closeCallback | .call .shutdown
  | .call (.retrieve _) | .shutdownInLoop => []

/-- The connection has been established, and its channel was not removed. -/
def Live (c : TcpConnection) : Prop := c.state_ ≠ .kConnecting ∧ .remove ∉ c.trace

variable [DecidableEq κ]

/-- New connections on the sockets `fd`. -/
def start (fd : κ → Int) (writeComplete highWaterMark : Bool) : PolledConnections κ where
  poll := .start fd
  conn c := .construct (fd c) writeComplete highWaterMark

/-- One step of the connection `c`. -/
def run (s : PolledConnections κ) (c : κ) (p : Piece) : Outcome (PolledConnections κ) := do
  let conn ← p.run (s.conn c)
  let poll ← (updates c (s.conn c) conn p).foldlM LoopChannels.Op.run s.poll
  pure ⟨poll, Function.update s.conn c conn⟩

/-- A connection is established once, on a descriptor that the poller does not
have. The loop calls the other functions between that and the removal, and the
user calls the connection at any time. -/
def Enabled (fd : κ → Int) (s : PolledConnections κ) (c : κ) : Piece → Prop
  | .established =>
    (s.conn c).state_ = .kConnecting ∧ s.poll.poller_.channels_.find (fd c) = none
  | .call _ => True
  | .dispatch _ | .read _ | .messageCallback | .handleWrite _ | .handleClose | .closeCallback
  | .disconnect | .remove | .sendInLoop _ _ | .shutdownInLoop => Live (s.conn c)

instance (c : TcpConnection) : Decidable (Live c) := inferInstanceAs (Decidable (_ ∧ _))

instance (fd : κ → Int) (s : PolledConnections κ) (c : κ) :
    (p : Piece) → Decidable (Enabled fd s c p)
  | .established => inferInstanceAs (Decidable (_ ∧ _))
  | .call _ => inferInstanceAs (Decidable True)
  | .dispatch _ | .read _ | .messageCallback | .handleWrite _ | .handleClose | .closeCallback
  | .disconnect | .remove | .sendInLoop _ _ | .shutdownInLoop =>
    inferInstanceAs (Decidable (Live (s.conn c)))

/-- Any steps of any connections, as long as no `assert` fails. Two connections may
have the same descriptor, one behind the other. -/
def machine (fd : κ → Int) (writeComplete highWaterMark : Bool) :
    Machine (PolledConnections κ) (κ × Piece) where
  init s := s = start fd writeComplete highWaterMark
  step s a s' := Enabled fd s a.1 a.2 ∧ s.run a.1 a.2 = .ok s'

end

/-! ## What one update does -/

section

variable {κ : Type} [DecidableEq κ] {fd : κ → Int} {s s' : LoopChannels κ}

theorem others_entry {op : LoopChannels.Op κ} (h : s.Inv fd)
    (hs : (LoopChannels.machine fd).step s op s') {d : κ} (hd : d ≠ op.target)
    (hreg : s.poller_.channels_.find (fd d) = some d) : s'.entry d = s.entry d := by
  obtain ⟨_, hx⟩ := op.interest_fields (s.channel op.target)
  rcases LoopChannels.step_cases h hs with ⟨_, _, _, rfl⟩ | ⟨_, p, hp, rfl⟩ | ⟨_, i, ht⟩
  · obtain ⟨_, _, q, hq, _⟩ := h.mapped _ _ hreg
    exact (LoopChannels.added_entry_ne hd hq).trans hq.symm
  · obtain ⟨i, hi, _⟩ := LoopChannels.entry_eq_some.mp hp
    exact LoopChannels.changed_entry_ne h hx (h.indexed _ hs.1 (by omega)) hd hreg
  · have hi := ht.index
    exact ht.entry h (h.indexed _ hs.1 (by omega)) hd hreg

theorem others_events {op : LoopChannels.Op κ} (h : s.Inv fd)
    (hs : (LoopChannels.machine fd).step s op s') {d : κ} (hd : d ≠ op.target) :
    (s'.channel d).events_ = (s.channel d).events_ := by
  rcases LoopChannels.step_cases h hs with ⟨_, _, _, rfl⟩ | ⟨_, p, _, rfl⟩ | ⟨_, i, ht⟩
  · rw [LoopChannels.added_channel, if_neg hd]
  · rw [LoopChannels.changed_channel, if_neg hd]
  · exact (ht.channel_fields d).2

/-- The channel of a call gets its new interest. -/
theorem target_events {op : LoopChannels.Op κ} (h : s.Inv fd)
    (hs : (LoopChannels.machine fd).step s op s') :
    (s'.channel op.target).events_ = (op.interest (s.channel op.target)).events_ := by
  rcases LoopChannels.step_cases h hs with ⟨_, _, _, rfl⟩ | ⟨_, p, _, rfl⟩ | ⟨hop, i, ht⟩
  · rw [LoopChannels.added_channel, if_pos rfl]
  · rw [LoopChannels.changed_channel, if_pos rfl]
  · rw [(ht.channel_fields _).2, hop]
    rfl

theorem target_entry {op : LoopChannels.Op κ} (h : s.Inv fd)
    (hs : (LoopChannels.machine fd).step s op s') (hop : op ≠ .remove op.target) {p : PollFd}
    (hp : s.entry op.target = some p) :
    s'.removed op.target = false ∧ s'.entry op.target =
      some (LoopChannels.updated (op.interest (s.channel op.target)) p) := by
  obtain ⟨_, hx⟩ := op.interest_fields (s.channel op.target)
  obtain ⟨i, hi, _⟩ := LoopChannels.entry_eq_some.mp hp
  rcases LoopChannels.step_cases h hs with ⟨_, _, hnew, _⟩ | ⟨_, q, hq, rfl⟩ | ⟨hremove, _⟩
  · omega
  · rw [hp] at hq
    cases hq
    exact ⟨hs.1, LoopChannels.changed_entry_self hx hp⟩
  · exact absurd hremove hop

/-- An update with some interest leaves the descriptor of the entry, and one without
any makes poll(2) skip it. -/
theorem updated_fd (ch : Channel) (p : PollFd) :
    (ch.isNoneEvent = false → (LoopChannels.updated ch p).fd = p.fd) ∧
      (ch.isNoneEvent = true → (LoopChannels.updated ch p).fd = -ch.fd_ - 1) := by
  unfold LoopChannels.updated
  constructor
  · intro hne
    simp [hne]
  · intro hnone
    simp [hnone]

end

/-! ## The place of a connection -/

/-- The interest of a connection that is up. -/
def asked (writing : Bool) : Mask :=
  Channel.kReadEvent ||| if writing then Channel.kWriteEvent else Channel.kNoneEvent

section

variable {κ : Type} (fd : κ → Int) (s : LoopChannels κ) (c : κ) (conn : TcpConnection)

/-- Where a connection stands: its channel has no entry yet, or one that poll(2)
reads, or one that poll(2) skips, or it was removed. -/
inductive Place : Prop
  | new (hs : conn.state_ = .kConnecting) (ht : .remove ∉ conn.trace) (hr : s.removed c = false)
    (hi : (s.channel c).index_ < 0) (he : conn.channel_.events_ = Channel.kNoneEvent)
  | up (hs : conn.Up) (ht : .remove ∉ conn.trace) (hr : s.removed c = false) {p : PollFd}
    (hp : s.entry c = some p) (hf : p.fd = fd c)
    (he : conn.channel_.events_ = asked conn.channel_.isWriting)
  | down (hs : conn.state_ = .kDisconnected) (ht : .remove ∉ conn.trace) (hr : s.removed c = false)
    {p : PollFd} (hp : s.entry c = some p) (hf : p.fd = -fd c - 1)
    (he : conn.channel_.events_ = Channel.kNoneEvent ∨
      conn.channel_.events_ = Channel.kWriteEvent)
  | gone (hs : conn.state_ = .kDisconnected) (ht : .remove ∈ conn.trace) (hr : s.removed c = true)

structure Agrees : Prop where
  streams : conn.Streams
  waits : conn.Waits
  events : (s.channel c).events_ = conn.channel_.events_
  place : Place fd s c conn

end

section

variable {κ : Type} {fd : κ → Int} {s s' : LoopChannels κ} {c : κ} {conn conn' : TcpConnection}

theorem Place.not_gone (h : Place fd s c conn) (hs : conn.state_ ≠ .kDisconnected) :
    .remove ∉ conn.trace := by
  cases h with
  | new _ ht => exact ht
  | up _ ht => exact ht
  | down _ ht => exact ht
  | gone hs' => exact absurd hs' hs

/-- A connection that keeps its interest keeps its place. -/
theorem Place.same (h : Place fd s c conn)
    (hs : conn'.state_ = conn.state_ ∨ conn.state_ = .kConnected ∧ conn'.state_ = .kDisconnecting)
    (ht : .remove ∈ conn'.trace ↔ .remove ∈ conn.trace)
    (he : conn'.channel_.events_ = conn.channel_.events_) : Place fd s c conn' := by
  have hw : conn'.channel_.isWriting = conn.channel_.isWriting := by
    unfold Channel.isWriting
    rw [he]
  -- only a connection that is up changes its state
  have hkept : conn.state_ ≠ .kConnected → conn'.state_ = conn.state_ := by
    intro hne
    rcases hs with e | ⟨e, _⟩
    · exact e
    · exact absurd e hne
  cases h with
  | new hs' ht' hr hi he' =>
    exact .new ((hkept (by simp [hs'])).trans hs') (fun hm => ht' (ht.mp hm)) hr hi (he.trans he')
  | up hs' ht' hr hp hf he' =>
    refine .up ?_ (fun hm => ht' (ht.mp hm)) hr hp hf (by rw [he, he', hw])
    rcases hs with e | ⟨_, e⟩
    · unfold Up
      rwa [e]
    · exact Or.inr e
  | down hs' ht' hr hp hf he' =>
    refine .down ((hkept (by simp [hs'])).trans hs') (fun hm => ht' (ht.mp hm)) hr hp hf ?_
    rwa [he]
  | gone hs' ht' hr =>
    exact .gone ((hkept (by simp [hs'])).trans hs') (ht.mpr ht') hr

variable [DecidableEq κ]

/-- The updates of another channel leave a connection at its place. -/
theorem Agrees.frame {op : LoopChannels.Op κ} (h : Agrees fd s c conn) (hi : s.Inv fd)
    (hs : (LoopChannels.machine fd).step s op s') (hc : c ≠ op.target) :
    Agrees fd s' c conn := by
  obtain ⟨hremoved, hindex⟩ := LoopChannels.others_stay hi hs (Ne.symm hc)
  have hentry : ∀ {p}, s.removed c = false → s.entry c = some p → s'.entry c = some p := by
    intro p hr hp
    obtain ⟨i, hx, _⟩ := LoopChannels.entry_eq_some.mp hp
    exact (others_entry hi hs hc (hi.indexed c hr (by omega))).trans hp
  refine ⟨h.streams, h.waits, (others_events hi hs hc).trans h.events, ?_⟩
  cases h.place with
  | new hs' ht hr hi' he => exact .new hs' ht (hremoved.trans hr) (by omega) he
  | up hs' ht hr hp hf he => exact .up hs' ht (hremoved.trans hr) (hentry hr hp) hf he
  | down hs' ht hr hp hf he => exact .down hs' ht (hremoved.trans hr) (hentry hr hp) hf he
  | gone hs' ht hr => exact .gone hs' ht (hremoved.trans hr)

/-! ## The steps that change an interest -/

theorem asked_enableWriting (w : Bool) : asked w ||| Channel.kWriteEvent = asked true := by
  cases w <;> decide

theorem asked_disableWriting (w : Bool) : asked w &&& ~~~Channel.kWriteEvent = asked false := by
  cases w <;> decide

theorem asked_ne_none (w : Bool) : asked w ≠ Channel.kNoneEvent := by
  cases w <;> decide

theorem isNoneEvent_eq_false {ch : Channel} (h : ch.events_ ≠ Channel.kNoneEvent) :
    ch.isNoneEvent = false := by
  simpa [Channel.isNoneEvent] using h

theorem isNoneEvent_eq_true {ch : Channel} (h : ch.events_ = Channel.kNoneEvent) :
    ch.isNoneEvent = true := by
  simpa [Channel.isNoneEvent] using h

/-- The first update of a channel registers a connection. -/
theorem Place.established (h : Place fd s c conn) (hi : s.Inv fd)
    (hnew : conn.state_ = .kConnecting)
    (hs : (LoopChannels.machine fd).step s (.enableReading c) s') :
    Place fd s' c (conn.established.log [.connectionCallback true]) := by
  cases h with
  | new _ ht hr hindex he =>
    have hown : conn.established.channel_.events_ = asked false := by
      have hread : Channel.kNoneEvent ||| Channel.kReadEvent = asked false := by decide
      rw [← hread, ← he]
      rfl
    have hw : conn.established.channel_.isWriting = false := by
      rw [Channel.isWriting, hown]
      decide
    rcases LoopChannels.step_cases hi hs with ⟨_, _, _, rfl⟩ | ⟨_, p, hp, _⟩ | ⟨hop, _⟩
    · refine .up (Or.inl rfl) (by simpa [log, TcpConnection.established] using ht) hr
        (LoopChannels.added_entry_self s c _) (hi.fds c) ?_
      exact hown.trans (by rw [show (conn.established.log [.connectionCallback true]).channel_ =
        conn.established.channel_ from rfl, hw])
    · obtain ⟨i, hx, _⟩ := LoopChannels.entry_eq_some.mp hp
      have hx' : (s.channel c).index_ = i := hx
      omega
    · cases hop
  | up hs' =>
    rcases hs' with e | e <;> rw [hnew] at e <;> cases e
  | down hs' =>
    rw [hnew] at hs'
    cases hs'
  | gone hs' =>
    rw [hnew] at hs'
    cases hs'

omit [DecidableEq κ] in
theorem writing_op {op : LoopChannels.Op κ} (hop : op = .enableWriting c ∨ op = .disableWriting c) :
    op.target = c ∧ op ≠ .remove op.target := by
  rcases hop with rfl | rfl
  · exact ⟨rfl, by simp⟩
  · exact ⟨rfl, by simp⟩

/-- An update of the writing keeps a connection that has an entry at its place. -/
theorem Place.writing (h : Place fd s c conn) (hi : s.Inv fd)
    (hev : (s.channel c).events_ = conn.channel_.events_) {op : LoopChannels.Op κ}
    (hop : op = .enableWriting c ∨ op = .disableWriting c) (hlive : Live conn)
    (hs : (LoopChannels.machine fd).step s op s') (hstate : conn'.state_ = conn.state_)
    (ht : .remove ∈ conn'.trace ↔ .remove ∈ conn.trace)
    (he : conn'.channel_.events_ = (op.interest conn.channel_).events_) :
    Place fd s' c conn' := by
  obtain ⟨htarget, hremove⟩ := writing_op hop
  have hevents : (op.interest (s.channel c)).events_ = conn'.channel_.events_ := by
    rw [he]
    rcases hop with rfl | rfl
    · simp only [LoopChannels.Op.interest, Channel.enableWriting, hev]
    · simp only [LoopChannels.Op.interest, Channel.disableWriting, hev]
  have hfd : (op.interest (s.channel c)).fd_ = fd c := by
    rw [(op.interest_fields _).1]
    exact hi.fds c
  cases h with
  | new hs' => exact absurd hs' hlive.1
  | gone _ ht' => exact absurd ht' hlive.2
  | @up hs' ht' hr p hp hf he' =>
    obtain ⟨hr', hp'⟩ := target_entry hi hs hremove (by rwa [htarget])
    rw [htarget] at hr' hp'
    have hown : conn'.channel_.events_ = asked conn'.channel_.isWriting := by
      rcases hop with rfl | rfl
      · have hnew : conn'.channel_.events_ = asked true := by
          rw [he, LoopChannels.Op.interest, Channel.enableWriting, he', asked_enableWriting]
        rw [Channel.isWriting, hnew]
        decide
      · have hnew : conn'.channel_.events_ = asked false := by
          rw [he, LoopChannels.Op.interest, Channel.disableWriting, he', asked_disableWriting]
        rw [Channel.isWriting, hnew]
        decide
    refine .up ?_ (fun hm => ht' (ht.mp hm)) hr' hp' ?_ hown
    · unfold Up
      rwa [hstate]
    · refine ((updated_fd _ p).1 (isNoneEvent_eq_false ?_)).trans hf
      rw [hevents, hown]
      exact asked_ne_none _
  | @down hs' ht' hr p hp hf he' =>
    obtain ⟨hr', hp'⟩ := target_entry hi hs hremove (by rwa [htarget])
    rw [htarget] at hr' hp'
    refine .down (hstate.trans hs') (fun hm => ht' (ht.mp hm)) hr' hp' ?_ ?_
    · -- the entry was one that poll(2) skips, and it stays one
      cases hnone : (op.interest (s.channel c)).isNoneEvent with
      | false => exact ((updated_fd _ p).1 hnone).trans hf
      | true => rw [(updated_fd _ p).2 hnone, hfd]
    · rw [he]
      rcases hop with rfl | rfl
      · simp only [LoopChannels.Op.interest, Channel.enableWriting]
        rcases he' with e | e <;> rw [e] <;> decide
      · simp only [LoopChannels.Op.interest, Channel.disableWriting]
        rcases he' with e | e <;> rw [e] <;> decide

/-- A connection goes down, and poll(2) skips its entry. -/
theorem Place.disabled (h : Place fd s c conn) (hi : s.Inv fd) (hup : conn.Up)
    (hs : (LoopChannels.machine fd).step s (.disableAll c) s') {es : List Event}
    (hes : .remove ∉ es) : Place fd s' c (conn.down.log es) := by
  cases h with
  | new hs' => rcases hup with e | e <;> rw [hs'] at e <;> cases e
  | down hs' => rcases hup with e | e <;> rw [hs'] at e <;> cases e
  | gone hs' => rcases hup with e | e <;> rw [hs'] at e <;> cases e
  | @up _ ht hr p hp hf he =>
    obtain ⟨hr', hp'⟩ := target_entry hi hs (by simp [LoopChannels.Op.target]) hp
    refine .down rfl ?_ hr' hp' ?_ (Or.inl rfl)
    · simp only [log, TcpConnection.down, List.mem_append, not_or]
      exact ⟨ht, hes⟩
    · rw [(updated_fd _ p).2 (isNoneEvent_eq_true rfl)]
      exact congrArg (fun f => -f - 1) (hi.fds c)

/-- The removal of a connection that is down. -/
theorem Place.removed (h : Place fd s c conn) (hi : s.Inv fd) (hlive : Live conn)
    (hnone : conn.channel_.isNoneEvent = true)
    (hs : (LoopChannels.machine fd).step s (.remove c) s') :
    Place fd s' c (conn.log [.remove]) := by
  cases h with
  | new hs' => exact absurd hs' hlive.1
  | gone _ ht' => exact absurd ht' hlive.2
  | up _ _ _ _ _ he =>
    simp only [Channel.isNoneEvent, beq_iff_eq] at hnone
    exact absurd (he.symm.trans hnone) (asked_ne_none _)
  | down hs' _ hr =>
    rcases LoopChannels.step_cases hi hs with ⟨hop, _⟩ | ⟨hop, _⟩ | ⟨_, i, ht⟩
    · exact absurd rfl hop
    · exact absurd rfl hop
    · refine .gone hs' (by simp [log]) ?_
      rw [ht.removed]
      exact Function.update_self _ _ _

end

/-! ## What a step of a connection does -/

section

variable {κ : Type} (k : κ) {c c' : TcpConnection}

/-- All that a step can do to the interest of its connection. -/
inductive Change (c : TcpConnection) (p : Piece) (c' : TcpConnection) : Prop
  | same (hu : updates k c c' p = [])
    (hs : c'.state_ = c.state_ ∨ c.state_ = .kConnected ∧ c'.state_ = .kDisconnecting)
    (ht : .remove ∈ c'.trace ↔ .remove ∈ c.trace)
    (he : c'.channel_.events_ = c.channel_.events_)
  | writing {op : LoopChannels.Op κ} (hu : updates k c c' p = [op])
    (hop : op = .enableWriting k ∨ op = .disableWriting k)
    (hcall : ∀ a, p = .call a → c.state_ = .kConnected) (hp : p ≠ .established)
    (hs : c'.state_ = c.state_) (ht : .remove ∈ c'.trace ↔ .remove ∈ c.trace)
    (he : c'.channel_.events_ = (op.interest c.channel_).events_)
  | established (hp : p = .established) (e : c' = c.established.log [.connectionCallback true])
  | down (hu : updates k c c' p = [.disableAll k]) (hup : c.Up)
    (e : c' = c.down.log [.connectionCallback false])
  | remove (hp : p = .remove) (hnone : c.channel_.isNoneEvent = true) (e : c' = c.log [.remove])

theorem remove_iff {es : List Event} (ht : c'.trace = c.trace ++ es) (hes : .remove ∉ es) :
    .remove ∈ c'.trace ↔ .remove ∈ c.trace := by
  rw [ht, List.mem_append, or_iff_left hes]

theorem sendInLoop_change {p : Piece} {message : Message} {w : WriteResult} (h : c.Streams)
    (hu : updates k c c' p =
      if !c.channel_.isWriting && c'.channel_.isWriting then [.enableWriting k] else [])
    (hcall : ∀ a, p = .call a → c.state_ = .kConnected) (hp : p ≠ .established)
    (hok : c.sendInLoop message w = .ok c') : Change k c p c' := by
  obtain ⟨hs, es, htrace, hes⟩ := SharedConnection.sendInLoop_events h hok
  have ht : .remove ∈ c'.trace ↔ .remove ∈ c.trace := by
    refine remove_iff htrace fun hm => ?_
    rcases hes _ hm with ⟨_, e⟩ | ⟨_, e⟩ | e | ⟨_, e⟩ <;> cases e
  rcases sendInLoop_cases h.out hok with ⟨_, _, rfl⟩ | ⟨_, rest, _, out, _, _, _, _, rfl⟩
  · exact .same (by rw [hu]; simp [log]) (Or.inl rfl) ht rfl
  · by_cases hrest : rest ≠ [] ∧ c.channel_.isWriting = false
    · have hchannel : c.waiting rest = c.channel_.enableWriting := if_pos hrest
      refine .writing ?_ (Or.inl rfl) hcall hp rfl ht ?_
      · rw [hu]
        simp [hchannel, hrest.2]
      · rw [hchannel]
        rfl
    · have hchannel : c.waiting rest = c.channel_ := if_neg hrest
      refine .same ?_ (Or.inl rfl) ht ?_
      · rw [hu]
        simp [hchannel]
      · rw [hchannel]

theorem handleWrite_change {w : WriteResult} (h : c.Streams) (hok : c.handleWrite w = .ok c') :
    Change k c (.handleWrite w) c' := by
  obtain ⟨hs, es, htrace, hes, _⟩ := SharedConnection.handleWrite_events h hok
  have ht : .remove ∈ c'.trace ↔ .remove ∈ c.trace := by
    refine remove_iff htrace fun hm => ?_
    rcases hes _ hm with (⟨_, e⟩ | ⟨_, e⟩ | e | ⟨_, e⟩) | ⟨_, e⟩ <;> cases e
  rcases handleWrite_cases h.out hok with
    ⟨_, rfl⟩ | ⟨_, rfl⟩ | ⟨done, rest, out, hw, _, _, _, _, ⟨_, rfl⟩ | ⟨_, rfl⟩⟩
  · exact .same (by simp [updates]) (Or.inl rfl) ht rfl
  · exact .same (by simp [updates, log]) (Or.inl rfl) ht rfl
  · exact .same (by simp [updates]) (Or.inl rfl) ht rfl
  · refine .writing ?_ (Or.inr rfl) (fun a ha => by cases ha) (by simp) rfl ht rfl
    simp [updates, hw]

theorem change_of_piece {p : Piece} (h : c.Streams) (hok : p.run c = .ok c') :
    Change k c p c' := by
  cases p with
  | established =>
    cases hok
    exact .established rfl rfl
  | dispatch revents =>
    cases hok
    exact .same rfl (Or.inl rfl) Iff.rfl rfl
  | read r =>
    simp only [Piece.run, bind_eq_ok] at hok
    obtain ⟨⟨input, _, _⟩, _, hok⟩ := hok
    cases hok
    exact .same rfl (Or.inl rfl) Iff.rfl rfl
  | messageCallback =>
    cases hok
    exact .same rfl (Or.inl rfl) (remove_iff rfl (by simp)) rfl
  | handleWrite w => exact handleWrite_change k h hok
  | handleClose =>
    simp only [Piece.run, bind_eq_ok, check_eq_ok] at hok
    obtain ⟨_, hup, hok⟩ := hok
    cases hok
    exact .down rfl hup rfl
  | closeCallback =>
    cases hok
    exact .same rfl (Or.inl rfl) (remove_iff rfl (by simp)) rfl
  | disconnect =>
    simp only [Piece.run, pure_eq_ok, Except.ok.injEq] at hok
    subst hok
    by_cases hup : c.state_ = .kConnected
    · rw [if_pos hup]
      exact .down (by simp [updates, hup]) (Or.inl hup) rfl
    · rw [if_neg hup]
      exact .same (by simp [updates, hup]) (Or.inl rfl) Iff.rfl rfl
  | remove =>
    simp only [Piece.run, bind_eq_ok, check_eq_ok] at hok
    obtain ⟨_, hnone, hok⟩ := hok
    cases hok
    exact .remove rfl hnone rfl
  | call a =>
    cases a with
    | send message w =>
      simp only [Piece.run, runCall, TcpConnection.send] at hok
      split at hok
      · rename_i hup
        exact sendInLoop_change k h rfl (fun _ _ => hup) (by simp) hok
      · cases hok
        exact .same (by simp [updates]) (Or.inl rfl) Iff.rfl rfl
    | shutdown =>
      cases hok
      rcases c.shutdown_cases with ⟨_, e⟩ | ⟨hup, _, e⟩ | ⟨hup, _, e⟩
      · exact .same rfl (Or.inl (by rw [e])) (by rw [e]) (by rw [e])
      · exact .same rfl (Or.inr ⟨hup, by rw [e]⟩) (by rw [e]; exact remove_iff rfl (by simp))
          (by rw [e])
      · exact .same rfl (Or.inr ⟨hup, by rw [e]⟩) (by rw [e]; exact remove_iff rfl (by simp))
          (by rw [e])
    | retrieve len =>
      cases hok
      exact .same rfl (Or.inl rfl) Iff.rfl rfl
  | sendInLoop message w =>
    exact sendInLoop_change k h rfl (fun a ha => by cases ha) (by simp) hok
  | shutdownInLoop =>
    cases hok
    unfold TcpConnection.shutdownInLoop
    split
    · exact .same rfl (Or.inl rfl) (remove_iff rfl (by simp)) rfl
    · exact .same rfl (Or.inl rfl) Iff.rfl rfl

/-- The unsent bytes of a connection that is not down keep waiting for the socket. -/
theorem piece_waits {p : Piece} (h : c.Streams) (hw : c.Waits)
    (hnew : p = .established → c.state_ = .kConnecting) (hok : p.run c = .ok c') : c'.Waits := by
  have hdown : (c.down.log [.connectionCallback false]).Waits := fun hopen => absurd rfl hopen
  cases p with
  | established =>
    cases hok
    have hconnecting := hnew rfl
    intro _ hne
    have hwriting := hw (by simp [hconnecting]) hne
    simpa [log, TcpConnection.established] using hwriting
  | dispatch revents =>
    cases hok
    exact hw
  | read r =>
    simp only [Piece.run, bind_eq_ok] at hok
    obtain ⟨⟨input, _, _⟩, _, hok⟩ := hok
    cases hok
    exact hw
  | messageCallback | closeCallback =>
    cases hok
    exact hw
  | handleWrite w => exact (handleWrite_streams h hok).2 hw
  | handleClose =>
    simp only [Piece.run, bind_eq_ok, check_eq_ok] at hok
    obtain ⟨_, _, hok⟩ := hok
    cases hok
    exact hdown
  | disconnect =>
    simp only [Piece.run, pure_eq_ok, Except.ok.injEq] at hok
    subst hok
    split
    · exact hdown
    · exact hw
  | remove =>
    simp only [Piece.run, bind_eq_ok, check_eq_ok] at hok
    obtain ⟨_, _, hok⟩ := hok
    cases hok
    exact hw
  | call a => exact (runCall_streams h hok).2 hw
  | sendInLoop message w => exact (sendInLoop_streams h hok).2 hw
  | shutdownInLoop =>
    cases hok
    exact (shutdownInLoop_streams h).2 hw

end

/-! ## The invariant -/

section

variable {κ : Type} [DecidableEq κ] {fd : κ → Int} {s s' : PolledConnections κ} {c : κ} {p : Piece}

structure Inv (fd : κ → Int) (s : PolledConnections κ) : Prop where
  poll : s.poll.Inv fd
  agrees : ∀ c, Agrees fd s.poll c (s.conn c)

omit [DecidableEq κ] in
theorem start_inv (fd : κ → Int) (writeComplete highWaterMark : Bool) :
    (start fd writeComplete highWaterMark).Inv fd := by
  refine ⟨LoopChannels.inv_start fd, fun c => ?_⟩
  obtain ⟨hs, hu⟩ := construct_streams (fd c) writeComplete highWaterMark
  refine ⟨hs, fun _ hne => absurd hu hne, rfl, .new rfl List.not_mem_nil rfl ?_ rfl⟩
  simp [start, LoopChannels.start, Channel.construct]

omit [DecidableEq κ] in
theorem Inv.live (h : s.Inv fd) (hup : (s.conn c).state_ = .kConnected) : Live (s.conn c) :=
  ⟨by simp [hup], (h.agrees c).place.not_gone (by simp [hup])⟩

omit [DecidableEq κ] in
theorem Inv.not_removed (h : s.Inv fd) (ht : .remove ∉ (s.conn c).trace) :
    s.poll.removed c = false := by
  cases (h.agrees c).place with
  | new _ _ hr => exact hr
  | up _ _ hr => exact hr
  | down _ _ hr => exact hr
  | gone _ ht' => exact absurd ht' ht

omit [DecidableEq κ] in
/-- A step that updates the writing is of a connection that has an entry. -/
theorem Inv.live_of_enabled (h : s.Inv fd) (he : Enabled fd s c p) (hp : p ≠ .established)
    (hcall : ∀ a, p = .call a → (s.conn c).state_ = .kConnected) : Live (s.conn c) := by
  cases p with
  | established => exact absurd rfl hp
  | call a => exact h.live (hcall a rfl)
  | _ => exact he

omit [DecidableEq κ] in
theorem interest_events {ch ch' : Channel} (he : ch.events_ = ch'.events_)
    (op : LoopChannels.Op κ) : (op.interest ch).events_ = (op.interest ch').events_ := by
  cases op <;> simp [LoopChannels.Op.interest, Channel.enableReading, Channel.enableWriting,
    Channel.disableWriting, Channel.disableAll, he]

theorem run_eq_ok : s.run c p = .ok s' ↔ ∃ conn poll, p.run (s.conn c) = .ok conn ∧
    (updates c (s.conn c) conn p).foldlM LoopChannels.Op.run s.poll = .ok poll ∧
    s' = ⟨poll, Function.update s.conn c conn⟩ := by
  simp only [run, bind_eq_ok, pure_eq_ok, Except.ok.injEq]
  constructor
  · rintro ⟨conn, hconn, poll, hpoll, rfl⟩
    exact ⟨conn, poll, hconn, hpoll, rfl⟩
  · rintro ⟨conn, poll, hconn, hpoll, rfl⟩
    exact ⟨conn, hconn, poll, hpoll, rfl⟩

/-- A step with one update, after which its connection is at its place. -/
theorem Inv.update (h0 : ∀ c, 0 ≤ fd c) (h : s.Inv fd) {conn : TcpConnection}
    {poll : LoopChannels κ} {op : LoopChannels.Op κ} (htarget : op.target = c)
    (hs : (LoopChannels.machine fd).step s.poll op poll) (hstreams : conn.Streams ∧ conn.Waits)
    (he : conn.channel_.events_ = (op.interest (s.conn c).channel_).events_)
    (hplace : Place fd poll c conn) :
    Inv fd ⟨poll, Function.update s.conn c conn⟩ := by
  refine ⟨LoopChannels.step_inv h0 h.poll hs, fun d => ?_⟩
  by_cases hd : d = c
  · subst hd
    simp only [Function.update_self]
    refine ⟨hstreams.1, hstreams.2, ?_, hplace⟩
    have hevents := target_events h.poll hs
    rw [htarget] at hevents
    rw [hevents, he]
    exact interest_events (h.agrees d).events op
  · simp only [Function.update_of_ne hd]
    exact (h.agrees d).frame h.poll hs (by rwa [htarget])

theorem Inv.step (h0 : ∀ c, 0 ≤ fd c) (h : s.Inv fd) (he : Enabled fd s c p)
    (hok : s.run c p = .ok s') : s'.Inv fd := by
  obtain ⟨conn, poll, hconn, hpoll, rfl⟩ := run_eq_ok.mp hok
  have hagrees := h.agrees c
  have hnew : p = .established → (s.conn c).state_ = .kConnecting := by
    rintro rfl
    exact he.1
  have hstreams : conn.Streams ∧ conn.Waits :=
    ⟨Piece.streams hagrees.streams hconn, piece_waits hagrees.streams hagrees.waits hnew hconn⟩
  have hone : ∀ op, updates c (s.conn c) conn p = [op] → op.target = c →
      .remove ∉ (s.conn c).trace → (LoopChannels.machine fd).step s.poll op poll := by
    intro op hu htarget ht
    rw [hu] at hpoll
    simp only [List.foldlM_cons, List.foldlM_nil, bind_eq_ok, pure_eq_ok, Except.ok.injEq,
      exists_eq_right] at hpoll
    exact ⟨by rw [htarget]; exact h.not_removed ht, hpoll⟩
  cases change_of_piece c hagrees.streams hconn with
  | same hu hs ht hev =>
    rw [hu] at hpoll
    cases hpoll
    refine ⟨h.poll, fun d => ?_⟩
    by_cases hd : d = c
    · subst hd
      simp only [Function.update_self]
      exact ⟨hstreams.1, hstreams.2, hagrees.events.trans hev.symm, hagrees.place.same hs ht hev⟩
    · simp only [Function.update_of_ne hd]
      exact h.agrees d
  | @writing op hu hop hcall hp hs ht hev =>
    have htarget := (writing_op hop).1
    have hlive := h.live_of_enabled he hp hcall
    have hstep := hone op hu htarget hlive.2
    exact h.update h0 htarget hstep hstreams hev
      (hagrees.place.writing h.poll hagrees.events hop hlive hstep hs ht hev)
  | established hp e =>
    subst hp e
    have hstep := hone _ rfl rfl (hagrees.place.not_gone (by simp [he.1]))
    exact h.update h0 rfl hstep hstreams rfl (hagrees.place.established h.poll he.1 hstep)
  | down hu hup e =>
    subst e
    have hstep := hone _ hu rfl (hagrees.place.not_gone hup.not_down)
    exact h.update h0 rfl hstep hstreams rfl
      (hagrees.place.disabled h.poll hup hstep (by simp))
  | remove hp hnone e =>
    subst hp e
    have hstep := hone _ rfl rfl he.2
    exact h.update h0 rfl hstep hstreams rfl (hagrees.place.removed h.poll he hnone hstep)

end

/-! ## What the poll set asks for -/

section

variable {κ : Type} {fd : κ → Int}

/-- The entry of every connection asks for what the connection waits for: input
while it is up, output exactly while bytes are unsent, and nothing when it is down.
The vector holds no other entries. -/
structure Exact (fd : κ → Int) (s : PolledConnections κ) : Prop where
  up : ∀ c, (s.conn c).Up → ∃ p, s.poll.entry c = some p ∧ p.fd = fd c ∧
    (has (p.events.signExtend 32) POLLIN = true ∧
      (has (p.events.signExtend 32) POLLOUT = true ↔ (s.conn c).unsent ≠ []))
  down : ∀ c, (s.conn c).state_ = .kDisconnected → .remove ∉ (s.conn c).trace →
    ∃ p, s.poll.entry c = some p ∧ p.fd = -fd c - 1 ∧ p.events = 0
  others : ∀ (i : Nat) p, s.poll.poller_.pollfds_[i]? = some p →
    ∃ c, Live (s.conn c) ∧ s.poll.entry c = some p

/-- A `sendInLoop` on a connection that is down leaves no byte. -/
def Quiet (s : PolledConnections κ) (c : κ) (p : Piece) : Prop :=
  ∀ message w rest, p = .sendInLoop message w → (s.conn c).state_ = .kDisconnected →
    (s.conn c).Leaves message w rest → rest = []

variable {s s' : PolledConnections κ} {c : κ} {p : Piece}

theorem asked_bits (w : Bool) :
    has (asked w) POLLIN = true ∧ (has (asked w) POLLOUT = true ↔ w) := by
  cases w <;> decide

theorem eq_zero_of_signExtend {m : BitVec 16} (h : m.signExtend 32 = 0) : m = 0 := by
  apply BitVec.eq_of_getLsbD_eq
  intro i hi
  have hbit := congrArg (fun x : BitVec 32 => x.getLsbD i) h
  simp only [BitVec.getLsbD_signExtend, hi, if_true] at hbit
  simpa [show i < 32 by omega] using hbit

/-- Only the connections that are down can ask for too much. -/
theorem Inv.exact_iff (h : s.Inv fd) : s.Exact fd ↔
    ∀ c, (s.conn c).state_ = .kDisconnected → .remove ∉ (s.conn c).trace →
      (s.conn c).channel_.events_ = Channel.kNoneEvent := by
  have hentry : ∀ c p, s.poll.removed c = false → s.poll.entry c = some p →
      p.events.signExtend 32 = (s.conn c).channel_.events_ := by
    intro c p hr hp
    obtain ⟨i, hx, _⟩ := LoopChannels.entry_eq_some.mp hp
    obtain ⟨_, _, q, hq, _, hev⟩ := h.poll.mapped _ _ (h.poll.indexed c hr (by omega))
    rw [hp] at hq
    cases hq
    rw [hev, (h.agrees c).events]
  constructor
  · intro hexact c hs ht
    obtain ⟨p, hp, _, he⟩ := hexact.down c hs ht
    have hev := hentry c p (h.not_removed ht) hp
    rw [← hev, he]
    decide
  · intro hnone
    refine ⟨fun c hup => ?_, fun c hs ht => ?_, fun i p hat => ?_⟩
    · cases (h.agrees c).place with
      | up _ _ hr hp hf he =>
        refine ⟨_, hp, hf, ?_⟩
        rw [hentry c _ hr hp, he]
        obtain ⟨hin, hout⟩ := asked_bits (s.conn c).channel_.isWriting
        refine ⟨hin, hout.trans ⟨(h.agrees c).streams.waits, ?_⟩⟩
        exact (h.agrees c).waits hup.not_down
      | new hs => rcases hup with e | e <;> rw [hs] at e <;> cases e
      | down hs => exact absurd hs hup.not_down
      | gone hs => exact absurd hs hup.not_down
    · cases (h.agrees c).place with
      | down _ _ hr hp hf =>
        refine ⟨_, hp, hf, ?_⟩
        exact eq_zero_of_signExtend ((hentry c _ hr hp).trans (hnone c hs ht))
      | new hs' => rw [hs] at hs'; cases hs'
      | up hup => exact absurd hs hup.not_down
      | gone _ ht' => exact absurd ht' ht
    · obtain ⟨c, hfind, hfd, hx⟩ := h.poll.slots i p hat
      obtain ⟨_, hr, _⟩ := h.poll.mapped _ _ hfind
      refine ⟨c, ?_, LoopChannels.entry_eq_some.mpr ⟨i, hx, hat⟩⟩
      cases (h.agrees c).place with
      | new _ _ _ hi => omega
      | up hup ht => exact ⟨hup.not_new, ht⟩
      | down hs ht => exact ⟨by simp [hs], ht⟩
      | gone _ _ hr' => rw [hr] at hr'; cases hr'

variable [DecidableEq κ]

theorem indexed_returns {poll : LoopChannels κ} (h : poll.Inv fd) {op : LoopChannels.Op κ}
    (hop : op ≠ .remove op.target) (hr : poll.removed op.target = false) {q : PollFd}
    (hq : poll.entry op.target = some q) : ∃ poll', op.run poll = .ok poll' := by
  obtain ⟨i, hi, _⟩ := LoopChannels.entry_eq_some.mp hq
  rw [LoopChannels.Op.run_update hop]
  obtain ⟨_, _, hok⟩ := LoopChannels.updateChannel_indexed h hr (by omega)
    (op.interest_fields (poll.channel op.target)).2
  exact ⟨_, hok⟩

theorem new_returns {poll : LoopChannels κ} (h : poll.Inv fd)
    (hi : (poll.channel c).index_ < 0) (hnone : poll.poller_.channels_.find (fd c) = none) :
    ∃ poll', (LoopChannels.Op.enableReading c).run poll = .ok poll' := by
  have hneg : (poll.channel c).enableReading.index_ < 0 := hi
  have hfree : (poll.poller_.channels_.find (poll.channel c).enableReading.fd_).isNone := by
    rw [show (poll.channel c).enableReading.fd_ = fd c from h.fds c, hnone]
    rfl
  simp only [LoopChannels.Op.run, LoopChannels.enableReading, LoopChannels.updateChannel,
    LoopChannels.setChannel, Function.update_self, hneg, if_true]
  rw [check_of hfree, ok_bind]
  exact ⟨_, rfl⟩

/-- The removal of a channel that poll(2) skips finds all that it looks up. -/
theorem remove_returns {poll : LoopChannels κ} (h : poll.Inv fd) (hr : poll.removed c = false)
    {q : PollFd} (hq : poll.entry c = some q) (hf : q.fd = -fd c - 1)
    (hnone : (poll.channel c).isNoneEvent = true) :
    ∃ poll', (LoopChannels.Op.remove c).run poll = .ok poll' := by
  obtain ⟨i, hi, hat⟩ := LoopChannels.entry_eq_some.mp hq
  have hlt := LoopChannels.lt_of_entry hat
  have hreg := h.indexed c hr (by omega)
  obtain ⟨_, _, q', hq', _, hev⟩ := h.mapped _ _ hreg
  rw [hq] at hq'
  cases hq'
  have hentry : pollfdAt poll.poller_.pollfds_ (poll.channel c).index_ = .ok q :=
    LoopChannels.pollfdAt_eq_ok.mpr ⟨i, hi, hat⟩
  have hown : q.fd = -(poll.channel c).fd_ - 1 ∧
      q.events.signExtend 32 = (poll.channel c).events_ := by
    rw [h.fds]
    exact ⟨hf, hev⟩
  simp only [LoopChannels.Op.run, LoopChannels.remove, LoopChannels.removeChannel]
  rw [check_of hnone, ok_bind, check_of hnone, ok_bind, hentry, ok_bind, check_of hown, ok_bind]
  by_cases hlast : (poll.channel c).index_ = poll.poller_.pollfds_.length - 1
  · rw [if_pos hlast]
    exact ⟨_, rfl⟩
  · rw [if_neg hlast]
    -- the channel of the last entry is another one, and the map has it
    obtain ⟨back, hback⟩ : ∃ back, poll.poller_.pollfds_.getLast? = some back := by
      rw [List.getLast?_eq_getElem?]
      exact ⟨_, List.getElem?_eq_getElem (by omega)⟩
    have hslot : poll.poller_.pollfds_[poll.poller_.pollfds_.length - 1]? = some back := by
      rw [← List.getLast?_eq_getElem?]
      exact hback
    obtain ⟨d, hd, hfd, hx⟩ := h.slots _ _ hslot
    have hne : decodeFd back.fd ≠ fd c := by
      intro e
      rw [e, hreg] at hd
      cases hd
      omega
    have hmoved : Map.find (poll.poller_.channels_.erase (poll.channel c).fd_) (decodeFd back.fd) =
        some d := by
      rw [h.fds, Map.find_erase_ne hne]
      exact hd
    simp only [hback, demand, ok_bind, hmoved]
    exact ⟨_, rfl⟩

/-- No `assert` of the poller fails in a step. -/
theorem Inv.returns (h : s.Inv fd) (he : Enabled fd s c p) {conn : TcpConnection}
    (hconn : p.run (s.conn c) = .ok conn) : ∃ s', s.run c p = .ok s' := by
  have hagrees := h.agrees c
  have hreturns : (∃ poll, (updates c (s.conn c) conn p).foldlM LoopChannels.Op.run s.poll =
      .ok poll) → ∃ s', s.run c p = .ok s' := by
    rintro ⟨poll, hpoll⟩
    exact ⟨_, run_eq_ok.mpr ⟨conn, poll, hconn, hpoll, rfl⟩⟩
  have hone : ∀ op, updates c (s.conn c) conn p = [op] → (∃ poll, op.run s.poll = .ok poll) →
      ∃ s', s.run c p = .ok s' := by
    rintro op hu ⟨poll, hpoll⟩
    refine hreturns ⟨poll, ?_⟩
    rw [hu]
    simp [hpoll]
  cases change_of_piece c hagrees.streams hconn with
  | same hu => exact hreturns ⟨s.poll, by rw [hu]; rfl⟩
  | @writing op hu hop hcall hp =>
    obtain ⟨htarget, hremove⟩ := writing_op hop
    have hlive := h.live_of_enabled he hp hcall
    refine hone op hu ?_
    cases hagrees.place with
    | new hs => exact absurd hs hlive.1
    | gone _ ht => exact absurd ht hlive.2
    | up _ _ hr hq =>
      exact indexed_returns h.poll hremove (by rwa [htarget]) (by rwa [htarget])
    | down _ _ hr hq =>
      exact indexed_returns h.poll hremove (by rwa [htarget]) (by rwa [htarget])
  | established hp =>
    subst hp
    refine hone _ rfl ?_
    cases hagrees.place with
    | new _ _ _ hi => exact new_returns h.poll hi he.2
    | up hs => exact absurd he.1 hs.not_new
    | down hs => rw [he.1] at hs; cases hs
    | gone hs => rw [he.1] at hs; cases hs
  | down hu hup =>
    refine hone _ hu ?_
    cases hagrees.place with
    | up _ _ hr hq => exact indexed_returns h.poll (by simp [LoopChannels.Op.target]) hr hq
    | new hs => exact absurd hs hup.not_new
    | down hs => exact absurd hs hup.not_down
    | gone hs => exact absurd hs hup.not_down
  | remove hp hnone =>
    subst hp
    have hlive : Live (s.conn c) := he
    refine hone _ rfl ?_
    cases hagrees.place with
    | new hs => exact absurd hs hlive.1
    | gone _ ht => exact absurd ht hlive.2
    | up _ _ _ _ _ hev =>
      simp only [Channel.isNoneEvent, beq_iff_eq] at hnone
      exact absurd (hev.symm.trans hnone) (asked_ne_none _)
    | down _ _ hr hq hf =>
      refine remove_returns h.poll hr hq hf ?_
      rwa [Channel.isNoneEvent, hagrees.events]

/-- A connection that is down without an interest can be removed. -/
theorem Inv.removes (h : s.Inv fd) (hs : (s.conn c).state_ = .kDisconnected)
    (ht : .remove ∉ (s.conn c).trace) (hexact : s.Exact fd) : ∃ s', s.run c .remove = .ok s' := by
  have hnone : (s.conn c).channel_.isNoneEvent = true :=
    isNoneEvent_eq_true (h.exact_iff.mp hexact c hs ht)
  have hok : Piece.run (s.conn c) .remove = .ok ((s.conn c).log [.remove]) := by
    simp only [Piece.run]
    rw [check_of hnone]
    rfl
  exact h.returns ⟨by simp [hs], ht⟩ hok

/-! ## The law -/

end

end PolledConnections

end jmuduo.net
