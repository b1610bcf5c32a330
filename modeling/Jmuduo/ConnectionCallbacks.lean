-- The laws of the user callbacks of a connection: which dispatches keep the
-- order up, messages, down, and which break it.
import Jmuduo.OutputStream

open outcome runs

namespace jmuduo.net

/-! ## The protocol -/

/-- The callbacks that the user sees. -/
def Event.isUser : Event → Bool
  | .connectionCallback _ | .messageCallback => true
  | _ => false

namespace TcpConnection

def userCalls (t : List Event) : List Event := t.filter Event.isUser

/-- The connection came up, and `n` messages came. -/
def upCalls (n : Nat) : List Event := .connectionCallback true :: List.replicate n .messageCallback

/-- The connection came up, messages came, and it may have gone down. -/
def Protocol (t : List Event) : Prop :=
  ∃ n, userCalls t = upCalls n ∨ userCalls t = upCalls n ++ [.connectionCallback false]

/-- The fault of the `assert` in `handleClose`. -/
def closedTwice : Fault := .assertion "state_ == kConnected || state_ == kDisconnecting"

theorem userCalls_append (t u : List Event) : userCalls (t ++ u) = userCalls t ++ userCalls u :=
  List.filter_append t u

theorem upCalls_succ (n : Nat) : upCalls n ++ [.messageCallback] = upCalls (n + 1) := by
  simp [upCalls, List.replicate_succ']

/-- Nothing comes after the connection went down. -/
theorem not_protocol {t : List Event} {n : Nat}
    (h : userCalls t = upCalls n ++ [.connectionCallback false] ++ [.messageCallback]) :
    ¬ Protocol t := by
  rintro ⟨m, hm | hm⟩
  · rw [h] at hm
    have hmem : Event.connectionCallback false ∈ upCalls m := by
      rw [← hm]
      simp
    simp [upCalls] at hmem
  · rw [h] at hm
    have hlast := (List.append_inj' hm rfl).2
    cases hlast

/-! ## What the pieces do to the protocol -/

/-- The state is `kConnected` or `kDisconnecting`. -/
def Up (c : TcpConnection) : Prop := c.state_ = .kConnected ∨ c.state_ = .kDisconnecting

/-- The invariants of the buffers. -/
structure Sound (c : TcpConnection) : Prop where
  streams : c.Streams
  input : c.inputBuffer_.Inv

/-- A step that the user does not see, and that leaves the connection up or
down. -/
structure Follows (c c' : TcpConnection) : Prop where
  calls : userCalls c'.trace = userCalls c.trace
  up : c.Up → c'.Up
  half : c.state_ = .kDisconnecting → c'.state_ = .kDisconnecting
  down : c.state_ = .kDisconnected → c'.state_ = .kDisconnected

theorem Follows.refl (c : TcpConnection) : c.Follows c := ⟨rfl, id, id, id⟩

theorem Follows.trans {c d e : TcpConnection} (h : c.Follows d) (h' : d.Follows e) :
    c.Follows e :=
  ⟨h'.calls.trans h.calls, h'.up ∘ h.up, h'.half ∘ h.half, h'.down ∘ h.down⟩

theorem Follows.of_same {c c' : TcpConnection} {es : List Event} (hs : c'.state_ = c.state_)
    (ht : c'.trace = c.trace ++ es) (hes : userCalls es = []) : c.Follows c' := by
  refine ⟨by rw [ht, userCalls_append, hes, List.append_nil], ?_, ?_, ?_⟩
  · unfold Up
    rw [hs]
    exact id
  · rw [hs]
    exact id
  · rw [hs]
    exact id

theorem userCalls_completion (c : TcpConnection) (rest : List Byte) :
    userCalls (c.completion rest) = [] := by
  unfold completion
  split <;> rfl

theorem userCalls_crossing (c : TcpConnection) (rest : List Byte) :
    userCalls (c.crossing rest) = [] := by
  unfold crossing
  simp only
  split <;> rfl

theorem userCalls_halfClose (c : TcpConnection) : userCalls c.halfClose = [] := by
  unfold halfClose
  split <;> rfl

theorem sendInLoop_follows {c c' : TcpConnection} {message : Message} {w : WriteResult}
    (h : c.Sound) (hok : c.sendInLoop message w = .ok c') : c'.Sound ∧ c.Follows c' := by
  have hs := (sendInLoop_streams h.streams hok).1
  rcases sendInLoop_cases h.streams.out hok with
    ⟨_, _, rfl⟩ | ⟨done, rest, es, out, _, hes, _, _, rfl⟩
  · exact ⟨⟨hs, h.input⟩, .of_same rfl rfl rfl⟩
  · have huser : userCalls es = [] := by
      rcases hes with ⟨_, _, rfl⟩ | ⟨_, _, rfl⟩
      · exact c.userCalls_completion rest
      · rfl
    refine ⟨⟨hs, h.input⟩, .of_same rfl rfl ?_⟩
    rw [userCalls_append, huser]
    exact c.userCalls_crossing rest

theorem shutdownInLoop_follows {c : TcpConnection} (h : c.Sound) :
    c.shutdownInLoop.Sound ∧ c.Follows c.shutdownInLoop := by
  refine ⟨⟨(shutdownInLoop_streams h.streams).1, ?_⟩, ?_⟩
  · unfold shutdownInLoop
    split <;> exact h.input
  · unfold shutdownInLoop
    split
    · exact .of_same rfl rfl rfl
    · exact .refl c

theorem runCall_follows {c c' : TcpConnection} {call : Call} (h : c.Sound)
    (hok : c.runCall call = .ok c') : c'.Sound ∧ c.Follows c' := by
  cases call with
  | send message w =>
    simp only [runCall, send] at hok
    split at hok
    · exact sendInLoop_follows h hok
    · cases hok
      exact ⟨h, .refl c⟩
  | shutdown =>
    cases hok
    have hs := (shutdown_streams h.streams).1
    rcases c.shutdown_cases with ⟨_, e⟩ | ⟨hup, _, e⟩ | ⟨hup, _, e⟩
    · rw [e]
      exact ⟨h, .refl c⟩
    · rw [e] at hs ⊢
      exact ⟨⟨hs, h.input⟩, by simp [userCalls, Event.isUser], fun _ => Or.inr rfl,
        fun _ => rfl, by simp [hup]⟩
    · rw [e] at hs ⊢
      exact ⟨⟨hs, h.input⟩, by simp [userCalls, Event.isUser], fun _ => Or.inr rfl,
        fun _ => rfl, by simp [hup]⟩
  | retrieve len =>
    cases hok
    exact ⟨⟨⟨h.streams.out, h.streams.stream, h.streams.waits⟩,
      (Buffer.retrieve.spec h.input len).1⟩, ⟨rfl, id, id, id⟩⟩

theorem handleWrite_follows {c c' : TcpConnection} {w : WriteResult} (h : c.Sound)
    (hok : c.handleWrite w = .ok c') : c'.Sound ∧ c.Follows c' := by
  have hs := (handleWrite_streams h.streams hok).1
  rcases handleWrite_cases h.streams.out hok with
    ⟨_, rfl⟩ | ⟨_, rfl⟩ | ⟨done, rest, out, _, _, _, _, _, ⟨_, rfl⟩ | ⟨_, rfl⟩⟩
  · exact ⟨h, .refl _⟩
  · exact ⟨⟨hs, h.input⟩, .of_same rfl rfl rfl⟩
  · exact ⟨⟨hs, h.input⟩, .of_same rfl rfl rfl⟩
  · refine ⟨⟨hs, h.input⟩, .of_same rfl rfl ?_⟩
    have huser : userCalls (c.completion [] ++ c.halfClose) = [] := by
      rw [userCalls_append, userCalls_completion, userCalls_halfClose]
      rfl
    exact huser

/-! ## The faults of the pieces -/

theorem sendRest_never {c : TcpConnection} {message : Message} {nwrote remaining : Int}
    (h : c.outputBuffer_.Inv) : sendRest message nwrote remaining c ≠ .error closedTwice := by
  have hshort := message.short
  unfold sendRest closedTwice
  rw [ne_eq, bind_eq_error]
  rintro (hc | ⟨_, _, hc⟩)
  · simp at hc
  · simp only at hc
    split at hc
    · rw [bind_eq_error] at hc
      rcases hc with hc | ⟨_, _, hc⟩
      · unfold intAdd at hc
        split at hc <;> cases hc
      · rw [bind_eq_error] at hc
        rcases hc with hc | ⟨_, _, hc⟩
        · have hi : ∀ a b,
              ((c.log [.send message.bytes]).queueHighWaterMark a b).outputBuffer_.Inv := by
            intro a b
            unfold queueHighWaterMark
            split <;> exact h
          cases (Buffer.append_error (hi _ _).ordered (by rw [List.length_drop]; omega) hc).2
        · cases hc
    · cases hc

theorem sendInLoop_never {c : TcpConnection} {message : Message} {w : WriteResult}
    (h : c.outputBuffer_.Inv) : c.sendInLoop message w ≠ .error closedTwice := by
  unfold sendInLoop
  simp only
  split
  · split
    · refine sendRest_never ?_
      split
      · rw [queueWriteComplete_eq]
        exact h
      · exact h
    · split
      · simp
      · exact sendRest_never h
  · exact sendRest_never h

theorem runCall_never {c : TcpConnection} {call : Call} (h : c.Sound) :
    c.runCall call ≠ .error closedTwice := by
  cases call with
  | send message w =>
    simp only [runCall, send]
    split
    · exact sendInLoop_never h.streams.out
    · simp
  | shutdown => simp [runCall]
  | retrieve len => simp [runCall]

theorem handleWrite_never (c : TcpConnection) (w : WriteResult) (e : Fault) :
    c.handleWrite w ≠ .error e := by
  unfold handleWrite
  simp only
  split
  · split
    · split <;> simp
    · simp
  · simp

/-! ## The specs of the handlers -/

/-- What a user callback does after it was called with `e`. -/
theorem calls_spec {c : TcpConnection} {e : Event} (h : (c.log [e]).Sound) (calls : List Call) :
    (∀ c', calls.foldlM runCall (c.log [e]) = .ok c' →
      c'.Sound ∧ (c.log [e]).Follows c') ∧
    calls.foldlM runCall (c.log [e]) ≠ .error closedTwice := by
  constructor
  · intro c' hok
    refine foldlM_keeps (P := fun d => d.Sound ∧ (c.log [e]).Follows d) ?_ ⟨h, .refl _⟩ hok
    rintro b call b' ⟨hb, hf⟩ hr
    obtain ⟨hb', hf'⟩ := runCall_follows hb hr
    exact ⟨hb', hf.trans hf'⟩
  · exact foldlM_never (fun b call b' hb hr => (runCall_follows hb hr).1)
      (fun b call hb => runCall_never hb) h

theorem down_sound {c : TcpConnection} (h : c.Sound) : c.down.Sound :=
  ⟨((kept_streams False).down c ⟨h.streams, False.elim⟩).1, h.input⟩

theorem log_sound {c : TcpConnection} {es : List Event} (h : c.Sound)
    (hes : written es = [] ∧ sent es = []) : (c.log es).Sound :=
  ⟨h.streams.idle rfl rfl hes id, h.input⟩

/-- The connection goes down, and the user is told. -/
theorem down_spec {c : TcpConnection} (h : c.Sound) (onDown : List Call) :
    (∀ c', c.down.connectionCallback onDown = .ok c' →
      c'.Sound ∧ c'.state_ = .kDisconnected ∧
        userCalls c'.trace = userCalls c.trace ++ [.connectionCallback false]) ∧
    c.down.connectionCallback onDown ≠ .error closedTwice := by
  obtain ⟨h1, h2⟩ := calls_spec (e := .connectionCallback c.down.connected)
    (log_sound (down_sound h) ⟨rfl, rfl⟩) onDown
  refine ⟨fun c' hok => ?_, h2⟩
  obtain ⟨hs, hf⟩ := h1 c' hok
  refine ⟨hs, hf.down rfl, ?_⟩
  rw [hf.calls]
  exact userCalls_append c.trace [.connectionCallback false]

theorem connectEstablished_spec {c c' : TcpConnection} (h : c.Sound) {onUp : List Call}
    (hok : c.connectEstablished onUp = .ok c') :
    c'.Sound ∧ c'.Up ∧ userCalls c'.trace = userCalls c.trace ++ [.connectionCallback true] := by
  have hs : c.established.Sound := ⟨established_streams h.streams, h.input⟩
  obtain ⟨hs', hf⟩ := (calls_spec (log_sound hs ⟨rfl, rfl⟩) onUp).1 c' hok
  refine ⟨hs', hf.up (Or.inl rfl), ?_⟩
  rw [hf.calls]
  exact userCalls_append c.trace [.connectionCallback true]

theorem connectDestroy_spec {c : TcpConnection} (h : c.Sound) (onDown : List Call) :
    (∀ c', c.connectDestroy onDown = .ok c' →
      c'.Sound ∧ (c.state_ ≠ .kConnected → c.Follows c') ∧
      (c.state_ = .kConnected → c'.state_ = .kDisconnected ∧
        userCalls c'.trace = userCalls c.trace ++ [.connectionCallback false])) ∧
    c.connectDestroy onDown ≠ .error closedTwice := by
  obtain ⟨h1, h2⟩ := down_spec h onDown
  constructor
  · intro c' hok
    simp only [connectDestroy, disconnect, bind_eq_ok, check_eq_ok, pure_eq_ok,
      Except.ok.injEq] at hok
    obtain ⟨c₁, hd, _, _, rfl⟩ := hok
    have hremove : userCalls (c₁.log [.remove]).trace = userCalls c₁.trace := by
      rw [log, userCalls_append]
      exact List.append_nil _
    split at hd
    · rename_i hup
      obtain ⟨hs, hst, hu⟩ := h1 c₁ hd
      exact ⟨log_sound hs ⟨rfl, rfl⟩, fun hne => absurd hup hne,
        fun _ => ⟨hst, hremove.trans hu⟩⟩
    · rename_i hup
      cases hd
      exact ⟨log_sound h ⟨rfl, rfl⟩, fun _ => .of_same rfl rfl rfl, fun hc => absurd hc hup⟩
  · simp only [connectDestroy, disconnect, ne_eq, bind_eq_error, check_eq_error]
    rintro (hd | ⟨_, _, ⟨_, he⟩ | ⟨_, _, he⟩⟩)
    · split at hd
      · exact h2 hd
      · cases hd
    · simp [closedTwice] at he
    · cases he

/-- `handleClose` takes a connection down that was up, and it fails its
`assert` at any other. -/
theorem handleClose_spec {c : TcpConnection} (h : c.Sound) (r : Reply) :
    (∀ c', c.handleClose r = .ok c' → c.Up ∧ c'.Sound ∧ c'.state_ = .kDisconnected ∧
      userCalls c'.trace = userCalls c.trace ++ [.connectionCallback false]) ∧
    (c.Up → c.handleClose r ≠ .error closedTwice) := by
  obtain ⟨h1, h2⟩ := down_spec h r.onDown
  -- `closeCallback_` meets a connection that is down
  have hclose : ∀ c₁, c.down.connectionCallback r.onDown = .ok c₁ →
      (∀ c', c₁.closeCallback r.destroys = .ok c' → c'.Sound ∧ c₁.Follows c') ∧
      c₁.closeCallback r.destroys ≠ .error closedTwice := by
    intro c₁ hok
    obtain ⟨hs, hst, _⟩ := h1 c₁ hok
    have hs' : (c₁.log [.closeCallback]).Sound := log_sound hs ⟨rfl, rfl⟩
    have hf : c₁.Follows (c₁.log [.closeCallback]) := .of_same rfl rfl rfl
    obtain ⟨h3, h4⟩ := connectDestroy_spec hs' []
    unfold closeCallback
    simp only
    split
    · refine ⟨fun c' hc => ?_, h4⟩
      obtain ⟨hs'', hf', _⟩ := h3 c' hc
      exact ⟨hs'', hf.trans (hf' (by simp [log, hst]))⟩
    · refine ⟨?_, by simp⟩
      rintro c' ⟨⟩
      exact ⟨hs', hf⟩
  constructor
  · intro c' hok
    simp only [handleClose, bind_eq_ok, check_eq_ok] at hok
    obtain ⟨_, hup, c₁, hd, hc⟩ := hok
    obtain ⟨hs, hst, hu⟩ := h1 c₁ hd
    obtain ⟨hs', hf⟩ := (hclose c₁ hd).1 c' hc
    exact ⟨hup, hs', hf.down hst, hf.calls.trans hu⟩
  · intro hup
    simp only [handleClose, ne_eq, bind_eq_error, check_eq_error, check_eq_ok]
    rintro (⟨hn, _⟩ | ⟨_, _, hd | ⟨c₁, hd, hc⟩⟩)
    · exact hn hup
    · exact h2 hd
    · exact (hclose c₁ hd).2 hc

/-- A failed read does nothing. Another read brings a message, or takes the
connection down. -/
theorem handleRead_spec {c : TcpConnection} (h : c.Sound) (r : Reply) :
    (∀ c', c.handleRead r = .ok c' → c'.Sound ∧
      ((∃ errno, r.read = .failed errno) ∧ c' = c ∨
        (∀ errno, r.read ≠ .failed errno) ∧
          ((c.Up → c'.Up) ∧ (c.state_ = .kDisconnected → c'.state_ = .kDisconnected) ∧
              userCalls c'.trace = userCalls c.trace ++ [.messageCallback] ∨
            c.Up ∧ c'.state_ = .kDisconnected ∧
              userCalls c'.trace = userCalls c.trace ++ [.connectionCallback false]))) ∧
    (c.Up ∨ (∃ errno, r.read = .failed errno) → c.handleRead r ≠ .error closedTwice) := by
  cases hread : r.read with
  | failed errno =>
    have heq : c.handleRead r = .ok c := by
      simp [handleRead, hread, Buffer.readFd, handleError]
    rw [heq]
    refine ⟨?_, by simp⟩
    rintro c' ⟨⟩
    exact ⟨h, Or.inl ⟨⟨errno, rfl⟩, rfl⟩⟩
  | delivered bytes =>
    rcases Buffer.readFd_delivered h.input.ordered 0 bytes with ⟨b, hb, hi, _, hge⟩ | ⟨_, hb⟩
    · have hin : ({ c with inputBuffer_ := b } : TcpConnection).Sound :=
        ⟨⟨h.streams.out, h.streams.stream, h.streams.waits⟩, h.input.of_ordered hi hge⟩
      simp only [handleRead, hread, hb, ok_bind]
      split
      · -- a message
        obtain ⟨h1, h2⟩ := calls_spec (e := .messageCallback) (log_sound hin ⟨rfl, rfl⟩)
          r.onMessage
        refine ⟨fun c' hok => ?_, fun _ => h2⟩
        obtain ⟨hs, hf⟩ := h1 c' hok
        refine ⟨hs, Or.inr ⟨by simp, Or.inl ⟨hf.up, hf.down, ?_⟩⟩⟩
        rw [hf.calls]
        exact userCalls_append c.trace [.messageCallback]
      · have hzero : ((bytes.take c.inputBuffer_.room).length : Int) = 0 := by omega
        rw [if_pos hzero]
        obtain ⟨h1, h2⟩ := handleClose_spec hin r
        refine ⟨fun c' hok => ?_, fun hup => h2 ?_⟩
        · obtain ⟨hup, hs, hst, hu⟩ := h1 c' hok
          exact ⟨hs, Or.inr ⟨by simp, Or.inr ⟨hup, hst, hu⟩⟩⟩
        · exact hup.resolve_right (by simp)
    · simp only [handleRead, hread, hb, error_bind]
      exact ⟨by simp, by simp [closedTwice]⟩

/-! ## One dispatch -/

/-- The protocol, with the state that goes with each part of it. -/
structure Served (c : TcpConnection) : Prop where
  sound : c.Sound
  stage : (c.Up ∧ ∃ n, userCalls c.trace = upCalls n) ∨
    (c.state_ = .kDisconnected ∧
      ∃ n, userCalls c.trace = upCalls n ++ [.connectionCallback false])

theorem Up.not_down {c : TcpConnection} (h : c.Up) : c.state_ ≠ .kDisconnected := by
  rcases h with h | h <;> simp [h]

theorem Up.not_new {c : TcpConnection} (h : c.Up) : c.state_ ≠ .kConnecting := by
  rcases h with h | h <;> simp [h]

theorem Served.protocol {c : TcpConnection} (h : c.Served) : Protocol c.trace := by
  rcases h.stage with ⟨_, n, hn⟩ | ⟨_, n, hn⟩
  · exact ⟨n, Or.inl hn⟩
  · exact ⟨n, Or.inr hn⟩

theorem Served.up {c : TcpConnection} (h : c.Served) (hd : c.state_ ≠ .kDisconnected) : c.Up := by
  rcases h.stage with ⟨hup, _⟩ | ⟨hdown, _⟩
  · exact hup
  · exact absurd hdown hd

theorem Served.follows {c c' : TcpConnection} (h : c.Served) (hs : c'.Sound)
    (hf : c.Follows c') : c'.Served := by
  refine ⟨hs, ?_⟩
  rw [hf.calls]
  rcases h.stage with ⟨hup, hn⟩ | ⟨hdown, hn⟩
  · exact Or.inl ⟨hf.up hup, hn⟩
  · exact Or.inr ⟨hf.down hdown, hn⟩

/-- The step from up to down. -/
theorem Served.downed {c c' : TcpConnection} (h : c.Served) (hup : c.Up) (hs : c'.Sound)
    (hd : c'.state_ = .kDisconnected)
    (hu : userCalls c'.trace = userCalls c.trace ++ [.connectionCallback false]) : c'.Served := by
  refine ⟨hs, Or.inr ⟨hd, ?_⟩⟩
  rcases h.stage with ⟨_, n, hn⟩ | ⟨hdown, _⟩
  · exact ⟨n, by rw [hu, hn]⟩
  · exact absurd hdown hup.not_down

/-- The read of a dispatch keeps the protocol of a connection that is up.
Where it is down, only a failed read does. -/
theorem handleRead_served {c c' : TcpConnection} (h : c.Served) {r : Reply}
    (hok : c.handleRead r = .ok c') :
    (c.Up ∨ (∃ errno, r.read = .failed errno) → c'.Served) ∧
    (c.state_ = .kDisconnected → Protocol c'.trace → ∃ errno, r.read = .failed errno) := by
  obtain ⟨hs, ⟨hfail, rfl⟩ | ⟨hnone, ⟨hup', hdown', hu⟩ | ⟨hup, hst, hu⟩⟩⟩ :=
    (handleRead_spec h.sound r).1 c' hok
  · exact ⟨fun _ => h, fun _ _ => hfail⟩
  · rcases h.stage with ⟨hup, n, hn⟩ | ⟨hdown, n, hn⟩
    · refine ⟨fun _ => ⟨hs, Or.inl ⟨hup' hup, n + 1, ?_⟩⟩, fun hd => absurd hd hup.not_down⟩
      rw [hu, hn, upCalls_succ]
    · refine ⟨?_, fun _ hp => ?_⟩
      · rintro (hup | ⟨errno, he⟩)
        · exact absurd hdown hup.not_down
        · exact absurd he (hnone errno)
      · rw [hn] at hu
        exact absurd hp (not_protocol hu)
  · exact ⟨fun _ => h.downed hup hs hst hu, fun hd => absurd hd hup.not_down⟩

/-- The condition of a dispatch for `closeCallback_`. -/
def hangsUp (revents : Mask) : Bool := has revents POLLHUP && !has revents POLLIN

/-- The condition of a dispatch for `readCallback_`. -/
def reads (revents : Mask) : Bool := has revents (POLLIN ||| POLLPRI ||| POLLHUP)

/-- A dispatch that closes also reads. -/
theorem reads_of_hangsUp {revents : Mask} (h : hangsUp revents = true) : reads revents = true := by
  have hbit : revents &&& (POLLIN ||| POLLPRI ||| POLLHUP) &&& POLLHUP = revents &&& POLLHUP := by
    rw [BitVec.and_assoc]
    rfl
  simp only [hangsUp, has, Bool.and_eq_true, bne_iff_ne, ne_eq] at h
  simp only [reads, has, bne_iff_ne, ne_eq]
  intro hzero
  rw [hzero] at hbit
  exact h.1 (by rw [← hbit]; rfl)

/-- A dispatch does not close a connection that is down, and a read that it
makes where the connection is down, or by then will be, fails. -/
def Calm (c : TcpConnection) (revents : Mask) (r : Reply) : Prop :=
  (hangsUp revents = true → c.state_ ≠ .kDisconnected) ∧
  (hangsUp revents = true ∨ c.state_ = .kDisconnected ∧ reads revents = true →
    ∃ errno, r.read = .failed errno)

theorem invoke_some {σ : Type} (cond : Bool) (f : σ → Outcome σ) (s : σ) :
    Channel.invoke cond (some f) s = if cond then f s else .ok s := rfl

theorem dispatch_eq (r : Reply) (revents : Mask) (c : TcpConnection) :
    Channel.handleEventWithGuard (callbacks r) revents c =
      ((if hangsUp revents then c.handleClose r else .ok c) >>= fun c =>
        (if reads revents then c.handleRead r else .ok c) >>= fun c =>
          if has revents POLLOUT then c.handleWrite r.write else .ok c) := by
  simp only [Channel.handleEventWithGuard, callbacks, invoke_some, hangsUp, reads, handleError,
    pure_eq_ok, ite_self, ok_bind]
  rfl

/-- A dispatch that returns keeps the protocol exactly when it is calm. -/
theorem dispatch_served {c c' : TcpConnection} (h : c.Served) {r : Reply} {revents : Mask}
    (hok : Channel.handleEventWithGuard (callbacks r) revents c = .ok c') :
    (c.Calm revents r → c'.Served) ∧ (Protocol c'.trace → c.Calm revents r) := by
  rw [dispatch_eq] at hok
  simp only [bind_eq_ok] at hok
  obtain ⟨c₁, h1, c₂, h2, h3⟩ := hok
  have hclose : c₁.Served ∧ (hangsUp revents = true → c.Up ∧ c₁.state_ = .kDisconnected) ∧
      (hangsUp revents = false → c₁ = c) := by
    split at h1
    · rename_i hh
      obtain ⟨hup, hs, hst, hu⟩ := (handleClose_spec h.sound r).1 c₁ h1
      exact ⟨h.downed hup hs hst hu, fun _ => ⟨hup, hst⟩, fun hn => by simp [hh] at hn⟩
    · rename_i hh
      cases h1
      exact ⟨h, fun hn => absurd hn hh, fun _ => rfl⟩
  obtain ⟨hs1, hhup, hsame⟩ := hclose
  have hread : c₂.Sound ∧ (c.Calm revents r → c₂.Served) ∧
      (Protocol c₂.trace → c.Calm revents r) := by
    unfold Calm
    split at h2
    · rename_i hr
      obtain ⟨h4, h5⟩ := handleRead_served hs1 h2
      refine ⟨((handleRead_spec hs1.sound r).1 c₂ h2).1, ?_⟩
      cases hh : hangsUp revents with
      | true =>
        obtain ⟨hup, hst⟩ := hhup hh
        exact ⟨fun hc => h4 (Or.inr (hc.2 (Or.inl rfl))),
          fun hp => ⟨fun _ => hup.not_down, fun _ => h5 hst hp⟩⟩
      | false =>
        rw [hsame hh] at h4 h5
        refine ⟨fun hc => h4 ?_, fun hp => ⟨by simp, ?_⟩⟩
        · by_cases hd : c.state_ = .kDisconnected
          · exact Or.inr (hc.2 (Or.inr ⟨hd, hr⟩))
          · exact Or.inl (h.up hd)
        · rintro (hn | ⟨hd, _⟩)
          · cases hn
          · exact h5 hd hp
    · rename_i hr
      cases h2
      have hn : hangsUp revents = false := by
        rw [← Bool.not_eq_true]
        exact fun hc => hr (reads_of_hangsUp hc)
      refine ⟨hs1.sound, fun _ => hs1, fun _ => ⟨by simp [hn], ?_⟩⟩
      rintro (hc | ⟨_, hc⟩)
      · simp [hn] at hc
      · exact absurd hc hr
  obtain ⟨hs2, hserved, hcalm⟩ := hread
  split at h3
  · obtain ⟨hs, hf⟩ := handleWrite_follows hs2 h3
    refine ⟨fun hc => (hserved hc).follows hs hf, fun hp => hcalm ?_⟩
    unfold Protocol at hp ⊢
    rwa [hf.calls] at hp
  · cases h3
    exact ⟨hserved, hcalm⟩

/-- A calm dispatch does not fail the `assert` in `handleClose`. -/
theorem dispatch_never {c : TcpConnection} (h : c.Served) {r : Reply} {revents : Mask}
    (hc : c.Calm revents r) :
    Channel.handleEventWithGuard (callbacks r) revents c ≠ .error closedTwice := by
  rw [dispatch_eq]
  simp only [ne_eq, bind_eq_error]
  rintro (h1 | ⟨c₁, h1, h2 | ⟨c₂, _, h3⟩⟩)
  · split at h1
    · rename_i hh
      exact (handleClose_spec h.sound r).2 (h.up (hc.1 hh)) h1
    · cases h1
  · split at h2
    · rename_i hr
      have hread : c₁.Sound ∧ (c₁.Up ∨ ∃ errno, r.read = .failed errno) := by
        split at h1
        · rename_i hh
          exact ⟨((handleClose_spec h.sound r).1 c₁ h1).2.1, Or.inr (hc.2 (Or.inl hh))⟩
        · cases h1
          refine ⟨h.sound, ?_⟩
          by_cases hd : c.state_ = .kDisconnected
          · exact Or.inr (hc.2 (Or.inr ⟨hd, hr⟩))
          · exact Or.inl (h.up hd)
      exact (handleRead_spec hread.1 r).2 hread.2 h2
    · cases h2
  · split at h3
    · exact handleWrite_never c₂ r.write closedTwice h3
    · cases h3

/-! ## The laws -/

/-- The calls of a connection that is established: its user and other
threads send and shut down, its loop dispatches, and the server destroys. -/
def Op.Serves : Op → Prop
  | .connectEstablished _ | .handleRead _ | .handleWrite _ | .handleClose _ => False
  | _ => True

/-- The runs that start with `connectEstablished`. -/
def serving : Machine TcpConnection Op where
  init c := ∃ sockfd writeComplete highWaterMark onUp,
    (construct sockfd writeComplete highWaterMark).connectEstablished onUp = .ok c
  step c op c' := op.Serves ∧ op.run c = .ok c'

/-- A dispatch is calm, or the connection is gone and it does nothing. -/
def Op.Quiet (c : TcpConnection) : Op → Prop
  | .handleEvent alive revents r =>
    c.channel_.tied_ = true ∧ alive = false ∨ c.Calm revents r
  | _ => True

theorem construct_sound (sockfd : Int) (writeComplete highWaterMark : Bool) :
    (construct sockfd writeComplete highWaterMark).Sound :=
  ⟨(construct_streams sockfd writeComplete highWaterMark).1, Buffer.construct_inv (by decide)⟩

theorem start_served {c : TcpConnection} (h : serving.init c) : c.Served := by
  obtain ⟨sockfd, writeComplete, highWaterMark, onUp, hok⟩ := h
  obtain ⟨hs, hup, hu⟩ :=
    connectEstablished_spec (construct_sound sockfd writeComplete highWaterMark) hok
  exact ⟨hs, Or.inl ⟨hup, 0, hu⟩⟩

/-- What one step does: a quiet step keeps the protocol and does not fail
the `assert` in `handleClose`, and no other step keeps the protocol. -/
theorem step_served {c : TcpConnection} {op : Op} (h : c.Served) (hop : op.Serves) :
    (∀ c', op.run c = .ok c' →
      (op.Quiet c → c'.Served) ∧ (Protocol c'.trace → op.Quiet c)) ∧
    (op.Quiet c → op.run c ≠ .error closedTwice) := by
  -- the calls that the user does not see
  have hbeside : op.Quiet c → (∀ c', op.run c = .ok c' → c'.Sound ∧ c.Follows c') →
      op.run c ≠ .error closedTwice →
      (∀ c', op.run c = .ok c' → (op.Quiet c → c'.Served) ∧ (Protocol c'.trace → op.Quiet c)) ∧
        (op.Quiet c → op.run c ≠ .error closedTwice) :=
    fun hq hx he => ⟨fun c' hok => ⟨fun _ => h.follows (hx c' hok).1 (hx c' hok).2, fun _ => hq⟩,
      fun _ => he⟩
  cases op with
  | connectEstablished onUp => exact hop.elim
  | handleRead r => exact hop.elim
  | handleWrite w => exact hop.elim
  | handleClose r => exact hop.elim
  | send message w =>
    exact hbeside trivial (fun c' (hok : c.runCall (.send message w) = .ok c') =>
      runCall_follows h.sound hok) (show c.runCall (.send message w) ≠ _ from runCall_never h.sound)
  | sendInLoop message w =>
    exact hbeside trivial (fun c' hok => sendInLoop_follows h.sound hok)
      (sendInLoop_never h.sound.streams.out)
  | shutdown =>
    exact hbeside trivial (fun c' (hok : c.runCall .shutdown = .ok c') =>
      runCall_follows h.sound hok) (show c.runCall .shutdown ≠ _ from runCall_never h.sound)
  | shutdownInLoop =>
    refine hbeside trivial ?_ (by simp [Op.run])
    rintro c' ⟨⟩
    exact shutdownInLoop_follows h.sound
  | connectDestroy onDown =>
    obtain ⟨h1, h2⟩ := connectDestroy_spec h.sound onDown
    refine ⟨fun c' hok => ⟨fun _ => ?_, fun _ => trivial⟩, fun _ => h2⟩
    obtain ⟨hs, hf, hd⟩ := h1 c' hok
    by_cases hup : c.state_ = .kConnected
    · exact h.downed (Or.inl hup) hs (hd hup).1 (hd hup).2
    · exact h.follows hs (hf hup)
  | handleEvent alive revents r =>
    -- the poller has set `revents_` before the dispatch
    have h' : ({ c with channel_ := { c.channel_ with revents_ := revents } } :
        TcpConnection).Served :=
      ⟨⟨((kept_streams False).revents revents c ⟨h.sound.streams, False.elim⟩).1, h.sound.input⟩,
        h.stage⟩
    by_cases hgone : c.channel_.tied_ = true ∧ alive = false
    · have hidle : Op.run c (.handleEvent alive revents r) =
          .ok { c with channel_ := { c.channel_ with revents_ := revents } } := by
        simp [Op.run, handleEvent, Channel.handleEvent, hgone.1, hgone.2]
      rw [hidle]
      refine ⟨?_, by simp⟩
      rintro c' ⟨⟩
      exact ⟨fun _ => h', fun _ => Or.inl hgone⟩
    · have hdispatch : Op.run c (.handleEvent alive revents r) =
          Channel.handleEventWithGuard (callbacks r) revents
            { c with channel_ := { c.channel_ with revents_ := revents } } := by
        simp only [Op.run, handleEvent, Channel.handleEvent]
        cases ht : c.channel_.tied_ with
        | false => rfl
        | true =>
          cases alive with
          | false => exact absurd ⟨ht, rfl⟩ hgone
          | true => rfl
      rw [hdispatch]
      have hcalm : Op.Quiet c (.handleEvent alive revents r) ↔ c.Calm revents r :=
        or_iff_right hgone
      rw [hcalm]
      exact ⟨fun c' hok => dispatch_served h' hok, fun hc => dispatch_never h' hc⟩

/-- The runs whose dispatches are quiet are exactly the runs in which the
user sees the connection come up once, then messages, then the connection go
down once at most, and nothing after it. In such a run the `assert` in
`handleClose` does not fail at a quiet dispatch. -/
theorem the_quiet_dispatches_keep_the_callback_order (c₀ : TcpConnection)
    (h0 : serving.init c₀) (ops : List Op) (c : TcpConnection) :
    ((serving.restrict fun c op _ => op.Quiet c).Run c₀ ops c ↔
      (serving.restrict fun _ _ c' => Protocol c'.trace).Run c₀ ops c) ∧
    ((serving.restrict fun c op _ => op.Quiet c).Run c₀ ops c → Protocol c.trace ∧
      ∀ op : Op, op.Serves → op.Quiet c → op.run c ≠ .error closedTwice) := by
  have hstart := start_served h0
  have hstep : ∀ c op c', c.Served → serving.step c op c' →
      (op.Quiet c → c'.Served) ∧ (Protocol c'.trace → op.Quiet c) :=
    fun c op c' h hs => (step_served h hs.1).1 c' hs.2
  refine ⟨?_, fun hr => ?_⟩
  · apply Machine.Run.restrict_iff hstart
    · intro c op c' h hs
      exact ⟨fun hq => ((hstep c op c' h hs).1 hq).protocol, (hstep c op c' h hs).2⟩
    · intro c op c' h hs hq
      exact (hstep c op c' h hs).1 hq
  · have hserved : c.Served := by
      refine hr.keeps (P := Served) ?_ hstart
      rintro c op c' h ⟨hs, hq⟩
      exact (hstep c op c' h hs).1 hq
    exact ⟨hserved.protocol, fun op hop hq => (step_served hserved hop).2 hq⟩

/-- The peer closes, and a dispatch with `POLLIN` reads the end. -/
theorem the_quiet_dispatches_close_at_the_end :
    ∃ c₀ c, serving.init c₀ ∧
      (serving.restrict fun _ _ c' => Protocol c'.trace).Run c₀
        [.handleEvent true POLLIN closed] c ∧ c.state_ = .kDisconnected := by
  obtain ⟨c₀, h0, hp⟩ := exists_of_passes
    (x := (construct 5 false false).connectEstablished [])
    (p := fun c => c.state_ = .kConnected && passes (Op.run c (.handleEvent true POLLIN closed))
      fun c => c.state_ = .kDisconnected) (by decide +kernel)
  rw [Bool.and_eq_true, decide_eq_true_eq] at hp
  obtain ⟨c, hok, hd⟩ := exists_of_passes hp.2
  have hinit : serving.init c₀ := ⟨5, false, false, [], h0⟩
  have hquiet : Op.Quiet c₀ (.handleEvent true POLLIN closed) := by
    refine Or.inr ⟨fun h => absurd h (by decide), ?_⟩
    rintro (h | ⟨h, _⟩)
    · exact absurd h (by decide)
    · rw [hp.1] at h
      cases h
  have hrun : (serving.restrict fun c op _ => op.Quiet c).Run c₀
      ([] ++ [.handleEvent true POLLIN closed]) c := .snoc .nil ⟨⟨trivial, hok⟩, hquiet⟩
  exact ⟨c₀, c, hinit,
    (the_quiet_dispatches_keep_the_callback_order c₀ hinit _ c).1.mp hrun, by simpa using hd⟩

/-- A hang-up without `POLLIN` runs `handleClose`, and then reads the end
and runs it again. -/
theorem a_hang_up_closes_a_connection_twice :
    ∃ c, serving.Reachable c ∧
      Op.run c (.handleEvent true POLLHUP closed) = .error closedTwice := by
  obtain ⟨c, h0, hp⟩ := exists_of_passes
    (x := (construct 5 false false).connectEstablished [])
    (p := fun c => Op.run c (.handleEvent true POLLHUP closed) = .error closedTwice)
    (by decide +kernel)
  exact ⟨c, .start ⟨5, false, false, [], h0⟩, by simpa using hp⟩

end TcpConnection

end jmuduo.net
