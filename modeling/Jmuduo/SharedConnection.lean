-- A connection that several threads use. They send and shut down through the
-- queue of its loop, and a message stays in the memory of its caller until
-- the loop reads it.
import Jmuduo.EventLoop
import Jmuduo.OutputStream

open outcome runs

namespace jmuduo.net

namespace SharedConnection

/-! ## What the threads hand over -/

/-- The arguments of `send`: a pointer into the memory of the caller, and the
number of the bytes there, which is an `int`. -/
structure Range where
  message : Nat
  len : Nat
  short : len < 2 ^ 31
  deriving DecidableEq, Repr

/-- The bytes of the range. -/
def Range.read (memory : Nat → Byte) (r : Range) : Message where
  bytes := (List.range r.len).map fun i => memory (r.message + i)
  short := by
    rw [List.length_map, List.length_range]
    exact r.short

/-- A functor of the connection. It is bound to the pointer of the message,
and `said` records the bytes that were there when `send` was called. -/
inductive Functor
  | sendInLoop (message : Range) (said : List Byte)
  | shutdownInLoop
  | connectDestroy
  | other (n : Nat)
  deriving DecidableEq, Repr

/-- What a thread has yet to do in its call of `send` or `shutdown`, after it
found the connection in `kConnected`. -/
inductive Calling
  | idle
  | sending (message : Range) (said : List Byte)
  | shutting
  | shut
  deriving DecidableEq, Repr

end SharedConnection

/-- `memory` is that of the callers. `said` records the bytes of the messages
that `sendInLoop` took, as they were at the calls of `send`, and `removed`
whether the server has removed the connection. -/
structure SharedConnection (τ κ : Type) where
  loop_ : EventLoop τ κ SharedConnection.Functor
  conn : TcpConnection
  memory : Nat → Byte
  calling : τ → SharedConnection.Calling
  said : List Byte
  removed : Bool

namespace SharedConnection

open TcpConnection

section

variable {τ κ : Type} [DecidableEq τ]

/-- A new connection on a new loop. -/
def construct (threadId : τ) (wakeChannel : κ) (memory : Nat → Byte) (sockfd : Int)
    (writeComplete highWaterMark : Bool) : SharedConnection τ κ where
  loop_ := .construct threadId wakeChannel
  conn := .construct sockfd writeComplete highWaterMark
  memory := memory
  calling := fun _ => .idle
  said := []
  removed := false

def setCalling (t : τ) (c : Calling) (s : SharedConnection τ κ) : SharedConnection τ κ :=
  { s with calling := Function.update s.calling t c }

/-- A call of a function of the connection on the thread of the loop. -/
def onConn (f : TcpConnection → Outcome TcpConnection) (s : SharedConnection τ κ) :
    Outcome (SharedConnection τ κ) := do
  let c ← f s.conn
  pure { s with conn := c }

/-- `sendInLoop`, with the bytes that the caller meant. -/
def sendInLoop (message : Message) (said : List Byte) (w : WriteResult)
    (s : SharedConnection τ κ) : Outcome (SharedConnection τ κ) := do
  let c ← s.conn.sendInLoop message w
  pure { s with conn := c, said := if s.conn.TakesEpipe w then s.said else s.said ++ said }

/-! ## The calls of any thread -/

/-- `send`. Another thread only finds the state here. -/
def send (t : τ) (message : Range) (w : WriteResult) (s : SharedConnection τ κ) :
    Outcome (SharedConnection τ κ) :=
  let bytes := message.read s.memory
  if s.conn.state_ = .kConnected then
    if s.loop_.isInLoopThread t then s.sendInLoop bytes bytes.bytes w
    else pure (s.setCalling t (.sending message bytes.bytes))
  else pure s

/-- The rest of `send` on another thread. -/
def queueSend (t : τ) (s : SharedConnection τ κ) : SharedConnection τ κ :=
  match s.calling t with
  | .sending message said =>
    { s with loop_ := s.loop_.queueInLoop t (.sendInLoop message said) }.setCalling t .idle
  | _ => s

/-- `shutdown`. Another thread only finds the state here. -/
def shutdown (t : τ) (s : SharedConnection τ κ) : SharedConnection τ κ :=
  if s.conn.state_ = .kConnected then
    if s.loop_.isInLoopThread t then { s with conn := s.conn.shutdown }
    else s.setCalling t .shutting
  else s

/-- `setState` in `shutdown` on another thread. -/
def setState (t : τ) (s : SharedConnection τ κ) : SharedConnection τ κ :=
  { s with conn := { s.conn with state_ := .kDisconnecting }.log [.shutdown] }.setCalling t .shut

/-- The rest of `shutdown` on another thread. -/
def queueShutdown (t : τ) (s : SharedConnection τ κ) : SharedConnection τ κ :=
  { s with loop_ := s.loop_.queueInLoop t .shutdownInLoop }.setCalling t .idle

/-- The last statement of `TcpServer::removeConnectionInLoop`. -/
def removeConnectionInLoop (t : τ) (s : SharedConnection τ κ) : Outcome (SharedConnection τ κ) :=
  let s := { s with removed := true }
  if s.loop_.isInLoopThread t then s.onConn (·.connectDestroy [])
  else pure { s with loop_ := s.loop_.queueInLoop t .connectDestroy }

/-! ## The functions on the thread of the loop -/

/-- A functor. What the user does when `connectDestroy` takes the connection
down has no effect, as it is down then. -/
def runFunctor (w : WriteResult) (s : SharedConnection τ κ) :
    Functor → Outcome (SharedConnection τ κ)
  | .sendInLoop message said => s.sendInLoop (message.read s.memory) said w
  | .shutdownInLoop => s.onConn fun c => pure c.shutdownInLoop
  | .connectDestroy => s.onConn (·.connectDestroy [])
  | .other _ => pure s

/-- The parts of the handlers of the connection. The functors and the calls
of the user are steps of their own, but for the retrieves. -/
def Handler (c : TcpConnection) : Piece → Prop
  | .established => c.state_ = .kConnecting
  | .dispatch _ | .read _ | .messageCallback | .handleWrite _ | .handleClose | .closeCallback
  | .call (.retrieve _) => True
  | .disconnect | .remove | .call (.send _ _) | .call .shutdown | .sendInLoop _ _
  | .shutdownInLoop => False

/-! ## The steps -/

/-- A step of the loop, of one of the calls, or a store of a thread in its
memory. `w` is the result of the `write(2)` of a `sendInLoop`. -/
inductive Act (τ κ : Type)
  | loop (a : EventLoop.Act τ κ Functor) (w : WriteResult)
  | handler (p : Piece)
  | send (t : τ) (message : Range) (w : WriteResult)
  | queueSend (t : τ)
  | shutdown (t : τ)
  | setState (t : τ)
  | queueShutdown (t : τ)
  | removeConnectionInLoop (t : τ)
  | store (address : Nat) (byte : Byte)

/-- A functor runs when the loop calls it. -/
def Act.run [DecidableEq κ] (s : SharedConnection τ κ) : Act τ κ → Outcome (SharedConnection τ κ)
  | .loop a w =>
    let s' := { s with loop_ := a.apply s.loop_ }
    match a, s.loop_.functors with
    | .callFunctor, f :: _ => s'.runFunctor w f
    | _, _ => pure s'
  | .handler p => s.onConn fun c => p.run c
  | .send t message w => s.send t message w
  | .queueSend t => pure (s.queueSend t)
  | .shutdown t => pure (s.shutdown t)
  | .setState t => pure (s.setState t)
  | .queueShutdown t => pure (s.queueShutdown t)
  | .removeConnectionInLoop t => s.removeConnectionInLoop t
  | .store address byte => pure { s with memory := Function.update s.memory address byte }

/-- The thread can begin a call of the connection. -/
def CanCall (t : τ) (s : SharedConnection τ κ) : Prop :=
  s.calling t = .idle ∧ s.loop_.CanCall t

/-- The functors of the connection are queued by its calls only, and a thread
begins no call in the middle of one. -/
def Free (s : SharedConnection τ κ) : EventLoop.Act τ κ Functor → Prop
  | .queueInLoop t (.other _) | .quit t => s.calling t = .idle
  | .queueInLoop _ _ => False
  | _ => True

/-- When the step can be taken. The server removes the connection once, after
`closeCallback_`. -/
def Act.Enabled (s : SharedConnection τ κ) : Act τ κ → Prop
  | .loop a _ => a.Enabled s.loop_ ∧ s.Free a
  | .handler p => s.loop_.CanCall s.loop_.threadId_ ∧ s.loop_.pc.UserCode ∧ Handler s.conn p
  | .send t _ _ | .shutdown t => s.CanCall t
  | .queueSend t => ∃ message said, s.calling t = .sending message said
  | .setState t => s.calling t = .shutting
  | .queueShutdown t => s.calling t = .shut
  | .removeConnectionInLoop t => s.CanCall t ∧ .closeCallback ∈ s.conn.trace ∧ s.removed = false
  | .store _ _ => True

instance (t : τ) (s : SharedConnection τ κ) : Decidable (s.CanCall t) :=
  inferInstanceAs (Decidable (_ ∧ _))

instance (c : TcpConnection) : (p : Piece) → Decidable (Handler c p)
  | .established => inferInstanceAs (Decidable (c.state_ = .kConnecting))
  | .dispatch _ | .read _ | .messageCallback | .handleWrite _ | .handleClose | .closeCallback
  | .call (.retrieve _) => inferInstanceAs (Decidable True)
  | .disconnect | .remove | .call (.send _ _) | .call .shutdown | .sendInLoop _ _
  | .shutdownInLoop => inferInstanceAs (Decidable False)

instance (s : SharedConnection τ κ) : (a : EventLoop.Act τ κ Functor) → Decidable (s.Free a)
  | .queueInLoop t (.other _) | .quit t => inferInstanceAs (Decidable (s.calling t = .idle))
  | .queueInLoop _ (.sendInLoop _ _) | .queueInLoop _ .shutdownInLoop
  | .queueInLoop _ .connectDestroy => inferInstanceAs (Decidable False)
  | .callReturns _ | .loop | .clearQuit | .whileTest | .poll _ | .handleEvent | .handlerReturns
  | .doPendingFunctors_ | .swap | .callFunctor | .functorReturns | .clearCalling =>
    inferInstanceAs (Decidable True)

instance (s : SharedConnection τ κ) (t : τ) :
    Decidable (∃ message said, s.calling t = .sending message said) :=
  match s.calling t with
  | .sending message said => isTrue ⟨message, said, rfl⟩
  | .idle | .shutting | .shut => isFalse (by simp)

instance (s : SharedConnection τ κ) : (a : Act τ κ) → Decidable (a.Enabled s)
  | .loop _ _ | .handler _ | .removeConnectionInLoop _ => inferInstanceAs (Decidable (_ ∧ _))
  | .send t _ _ | .shutdown t => inferInstanceAs (Decidable (s.CanCall t))
  | .queueSend _ => inferInstanceAs (Decidable (∃ _ _, _))
  | .setState t => inferInstanceAs (Decidable (s.calling t = .shutting))
  | .queueShutdown t => inferInstanceAs (Decidable (s.calling t = .shut))
  | .store _ _ => inferInstanceAs (Decidable True)

/-- All the interleavings of the threads, as long as no `assert` fails. -/
def machine [DecidableEq κ] (threadId : τ) (wakeChannel : κ) (memory : Nat → Byte) (sockfd : Int)
    (writeComplete highWaterMark : Bool) : Machine (SharedConnection τ κ) (Act τ κ) where
  init s := s = construct threadId wakeChannel memory sockfd writeComplete highWaterMark
  step s a s' := a.Enabled s ∧ a.run s = .ok s'

/-- A step that can be taken. -/
def Act.take [DecidableEq κ] (s : SharedConnection τ κ) (a : Act τ κ) :
    Outcome (SharedConnection τ κ) :=
  if a.Enabled s then a.run s else .error .badPointer

/-- A new connection reaches every state in which a list of steps returns. -/
theorem reachable_of_ok [DecidableEq κ] {threadId : τ} {wakeChannel : κ} {memory : Nat → Byte}
    {sockfd : Int} {writeComplete highWaterMark : Bool} {as : List (Act τ κ)}
    {s : SharedConnection τ κ}
    (h : as.foldlM Act.take
      (construct threadId wakeChannel memory sockfd writeComplete highWaterMark) = .ok s) :
    (machine threadId wakeChannel memory sockfd writeComplete highWaterMark).Reachable s := by
  refine ⟨_, as, rfl, .of_foldlM ?_ h⟩
  intro s a t hok
  unfold Act.take at hok
  split at hok
  · rename_i he
    exact ⟨he, hok⟩
  · cases hok

/-- One byte at the address 0. -/
def firstByte : Range := ⟨0, 1, by decide⟩

/-- That byte and the next one. -/
def twoBytes : Range := ⟨0, 2, by decide⟩

/-- A new loop begins, and calls a functor that is already pending. -/
def firstFunctor (w : WriteResult) : List (Act τ κ) :=
  [.loop, .clearQuit, .whileTest, .poll [], .doPendingFunctors_, .swap, .callFunctor].map
    (.loop · w)

/-! ## What a step does -/

/-- The functor that the step calls, with the result of its `write(2)`. -/
def Act.calls (s : SharedConnection τ κ) : Act τ κ → Option (Functor × WriteResult)
  | .loop .callFunctor w => s.loop_.functors.head?.map (·, w)
  | _ => none

/-- The step is the `sendInLoop` of a message, directly in `send` or as a
functor. -/
inductive Act.Sends (s : SharedConnection τ κ) (a : Act τ κ) : Message → List Byte →
    WriteResult → Prop
  | direct {t range w} (ha : a = .send t range w) (hup : s.conn.state_ = .kConnected) :
    Act.Sends s a (range.read s.memory) (range.read s.memory).bytes w
  | queued {range said w} (ha : a.calls s = some (.sendInLoop range said, w)) :
    Act.Sends s a (range.read s.memory) said w

/-- All that a step can do to the connection, and to what was said. -/
inductive Effect (s : SharedConnection τ κ) (a : Act τ κ) : TcpConnection → List Byte → Prop
  | none : Effect s a s.conn s.said
  | established (hup : s.conn.state_ = .kConnecting) :
    Effect s a (s.conn.established.log [.connectionCallback true]) s.said
  | inward (input : Buffer) (revents : Mask) {es : List Event}
      (hes : ∀ e ∈ es, e ∈ [.messageCallback, .closeCallback, .remove]) :
    Effect s a { s.conn with
      channel_ := { s.conn.channel_ with revents_ := revents }
      inputBuffer_ := input
      trace := s.conn.trace ++ es } s.said
  | down {es : List Event} (hes : ∀ e ∈ es, e = .remove) :
    Effect s a (s.conn.down.log (.connectionCallback false :: es)) s.said
  | handleWrite {w c} (ha : a = .handler (.handleWrite w)) (hok : s.conn.handleWrite w = .ok c) :
    Effect s a c s.said
  | sendInLoop {message said w c} (ha : a.Sends s message said w)
      (hok : s.conn.sendInLoop message w = .ok c) :
    Effect s a c (if s.conn.TakesEpipe w then s.said else s.said ++ said)
  | shutdown {t} (ha : a = .shutdown t) (ht : s.loop_.isInLoopThread t = true) :
    Effect s a s.conn.shutdown s.said
  | setState {t} (ha : a = .setState t) :
    Effect s a ({ s.conn with state_ := .kDisconnecting }.log [.shutdown]) s.said
  | shutdownInLoop {w} (ha : a.calls s = some (.shutdownInLoop, w)) :
    Effect s a s.conn.shutdownInLoop s.said

omit [DecidableEq τ] in
theorem onConn_eq_ok {f : TcpConnection → Outcome TcpConnection} {s s' : SharedConnection τ κ} :
    s.onConn f = .ok s' ↔ ∃ c, f s.conn = .ok c ∧ s' = { s with conn := c } := by
  simp only [onConn, bind_eq_ok, pure_eq_ok, Except.ok.injEq]
  exact exists_congr fun c => and_congr_right fun _ => eq_comm

omit [DecidableEq τ] in
theorem sendInLoop_eq_ok {message : Message} {said : List Byte} {w : WriteResult}
    {s s' : SharedConnection τ κ} :
    s.sendInLoop message said w = .ok s' ↔ ∃ c, s.conn.sendInLoop message w = .ok c ∧
      s' = { s with
        conn := c, said := if s.conn.TakesEpipe w then s.said else s.said ++ said } := by
  simp only [sendInLoop, bind_eq_ok, pure_eq_ok, Except.ok.injEq]
  exact exists_congr fun c => and_congr_right fun _ => eq_comm

/-- A step that says nothing of the bytes that came in. -/
theorem Effect.silent {s : SharedConnection τ κ} {a : Act τ κ} (input : Buffer) (revents : Mask) :
    Effect s a { s.conn with
      channel_ := { s.conn.channel_ with revents_ := revents }
      inputBuffer_ := input } s.said := by
  have hnone : ∀ e ∈ ([] : List Event), e ∈ [.messageCallback, .closeCallback, .remove] := by
    simp
  have h := Effect.inward (s := s) (a := a) input revents hnone
  rwa [List.append_nil] at h

theorem effect_of_connectDestroy {s : SharedConnection τ κ} {a : Act τ κ} {c : TcpConnection}
    (hok : s.conn.connectDestroy [] = .ok c) : Effect s a c s.said := by
  simp only [TcpConnection.connectDestroy, TcpConnection.disconnect, bind_eq_ok] at hok
  obtain ⟨c₁, hdown, _, _, hremove⟩ := hok
  cases hremove
  split at hdown
  · cases hdown
    simp only [TcpConnection.connected, TcpConnection.down, reduceCtorEq, decide_false, log_log]
    exact .down (by simp)
  · cases hdown
    exact .inward s.conn.inputBuffer_ s.conn.channel_.revents_ (by simp)

theorem effect_of_handler {s : SharedConnection τ κ} {p : Piece} {c : TcpConnection}
    (hp : Handler s.conn p) (hok : p.run s.conn = .ok c) :
    Effect s (.handler p : Act τ κ) c s.said := by
  cases p with
  | established =>
    cases hok
    exact .established hp
  | dispatch revents =>
    cases hok
    exact .silent s.conn.inputBuffer_ revents
  | read r =>
    simp only [Piece.run, bind_eq_ok] at hok
    obtain ⟨⟨input, n, errno⟩, _, hok⟩ := hok
    cases hok
    exact .silent input s.conn.channel_.revents_
  | messageCallback =>
    cases hok
    exact .inward s.conn.inputBuffer_ s.conn.channel_.revents_ (by simp)
  | handleWrite w => exact .handleWrite rfl hok
  | handleClose =>
    simp only [Piece.run, bind_eq_ok, check_eq_ok] at hok
    obtain ⟨_, _, hok⟩ := hok
    cases hok
    exact .down (by simp)
  | closeCallback =>
    cases hok
    exact .inward s.conn.inputBuffer_ s.conn.channel_.revents_ (by simp)
  | call a =>
    cases a with
    | retrieve len =>
      cases hok
      exact .silent (s.conn.inputBuffer_.retrieve len) s.conn.channel_.revents_
    | send message w => exact hp.elim
    | shutdown => exact hp.elim
  | disconnect => exact hp.elim
  | remove => exact hp.elim
  | sendInLoop message w => exact hp.elim
  | shutdownInLoop => exact hp.elim

variable [DecidableEq κ]

theorem Act.run_of_calls {s : SharedConnection τ κ} {a : Act τ κ} {f : Functor} {w : WriteResult}
    (h : a.calls s = some (f, w)) :
    a.run s = { s with loop_ := s.loop_.callFunctor }.runFunctor w f := by
  unfold Act.calls at h
  split at h
  · cases hfs : s.loop_.functors with
    | nil => simp [hfs] at h
    | cons g gs =>
      simp only [hfs, List.head?_cons, Option.map_some, Option.some.injEq, Prod.mk.injEq] at h
      obtain ⟨rfl, rfl⟩ := h
      simp only [Act.run, hfs]
      rfl
  · cases h

theorem effect_of_functor {s s' : SharedConnection τ κ} {a : Act τ κ} {f : Functor}
    {w : WriteResult} (ha : a.calls s = some (f, w)) (hok : a.run s = .ok s') :
    Effect s a s'.conn s'.said := by
  rw [Act.run_of_calls ha] at hok
  cases f with
  | sendInLoop message said =>
    obtain ⟨c, hc, rfl⟩ := sendInLoop_eq_ok.mp hok
    exact .sendInLoop (.queued ha) hc
  | shutdownInLoop =>
    cases hok
    exact .shutdownInLoop ha
  | connectDestroy =>
    obtain ⟨c, hc, rfl⟩ := onConn_eq_ok.mp hok
    exact effect_of_connectDestroy hc
  | other n =>
    cases hok
    exact .none

theorem Act.effect {s s' : SharedConnection τ κ} {a : Act τ κ} (he : a.Enabled s)
    (hok : a.run s = .ok s') : Effect s a s'.conn s'.said := by
  cases a with
  | loop a w =>
    cases a with
    | callFunctor =>
      cases hfs : s.loop_.functors with
      | nil => exact absurd hfs he.1.2
      | cons f fs => exact effect_of_functor (f := f) (w := w) (by simp [Act.calls, hfs]) hok
    | _ =>
      cases hok
      exact .none
  | handler p =>
    simp only [Act.run] at hok
    obtain ⟨c, hc, rfl⟩ := onConn_eq_ok.mp hok
    exact effect_of_handler he.2.2 hc
  | send t message w =>
    simp only [Act.run, SharedConnection.send] at hok
    split at hok
    · rename_i hup
      split at hok
      · obtain ⟨c, hc, rfl⟩ := sendInLoop_eq_ok.mp hok
        exact .sendInLoop (.direct rfl hup) hc
      · cases hok
        exact .none
    · cases hok
      exact .none
  | queueSend t =>
    cases hok
    unfold SharedConnection.queueSend
    split
    · exact .none
    · exact .none
  | shutdown t =>
    cases hok
    unfold SharedConnection.shutdown
    split
    · split
      · rename_i ht
        exact .shutdown rfl ht
      · exact .none
    · exact .none
  | setState t =>
    cases hok
    exact .setState rfl
  | queueShutdown t =>
    cases hok
    exact .none
  | removeConnectionInLoop t =>
    simp only [Act.run, SharedConnection.removeConnectionInLoop] at hok
    split at hok
    · obtain ⟨c, hc, rfl⟩ := onConn_eq_ok.mp hok
      exact effect_of_connectDestroy hc
    · cases hok
      exact .none
  | store address byte =>
    cases hok
    exact .none

/-! ## What a step leaves alone -/

omit [DecidableEq τ] [DecidableEq κ] in
theorem runFunctor_frame {s s' : SharedConnection τ κ} {w : WriteResult} {f : Functor}
    (hok : s.runFunctor w f = .ok s') : s'.loop_ = s.loop_ ∧ s'.calling = s.calling := by
  cases f with
  | sendInLoop message said =>
    obtain ⟨c, _, rfl⟩ := sendInLoop_eq_ok.mp hok
    exact ⟨rfl, rfl⟩
  | shutdownInLoop =>
    cases hok
    exact ⟨rfl, rfl⟩
  | connectDestroy =>
    obtain ⟨c, _, rfl⟩ := onConn_eq_ok.mp hok
    exact ⟨rfl, rfl⟩
  | other n =>
    cases hok
    exact ⟨rfl, rfl⟩

theorem run_loop {s s' : SharedConnection τ κ} {a : EventLoop.Act τ κ Functor} {w : WriteResult}
    (hok : (Act.loop a w).run s = .ok s') :
    s'.loop_ = a.apply s.loop_ ∧ s'.calling = s.calling := by
  cases a with
  | callFunctor =>
    cases hfs : s.loop_.functors with
    | nil =>
      simp only [Act.run, hfs] at hok
      cases hok
      exact ⟨rfl, rfl⟩
    | cons f fs =>
      rw [Act.run_of_calls (f := f) (w := w) (by simp [Act.calls, hfs])] at hok
      exact runFunctor_frame hok
  | _ =>
    cases hok
    exact ⟨rfl, rfl⟩

/-- All that a step can do to the loop, and to the calls of the threads. -/
inductive Moves (s : SharedConnection τ κ) (a : Act τ κ) :
    EventLoop τ κ Functor → (τ → Calling) → Prop
  | none : Moves s a s.loop_ s.calling
  | loop {b w} (ha : a = .loop b w) : Moves s a (b.apply s.loop_) s.calling
  | sending {t range w} (ha : a = .send t range w) (ht : s.loop_.isInLoopThread t = false)
      (hup : s.conn.state_ = .kConnected) :
    Moves s a s.loop_
      (Function.update s.calling t (.sending range (range.read s.memory).bytes))
  | queueSend {t range said} (ht : s.calling t = .sending range said) :
    Moves s a (s.loop_.queueInLoop t (.sendInLoop range said)) (Function.update s.calling t .idle)
  | shutting {t} (ht : s.loop_.isInLoopThread t = false) :
    Moves s a s.loop_ (Function.update s.calling t .shutting)
  | setState {t} (ha : a = .setState t) :
    Moves s a s.loop_ (Function.update s.calling t .shut)
  | queueShutdown {t} (ht : s.calling t = .shut) :
    Moves s a (s.loop_.queueInLoop t .shutdownInLoop) (Function.update s.calling t .idle)
  | connectDestroy {t} (ht : s.loop_.CanCall t) :
    Moves s a (s.loop_.queueInLoop t .connectDestroy) s.calling

theorem Act.moves {s s' : SharedConnection τ κ} {a : Act τ κ} (he : a.Enabled s)
    (hok : a.run s = .ok s') : Moves s a s'.loop_ s'.calling := by
  cases a with
  | loop b w =>
    obtain ⟨hloop, hcalling⟩ := run_loop hok
    rw [hloop, hcalling]
    exact .loop rfl
  | handler p =>
    simp only [Act.run] at hok
    obtain ⟨c, _, rfl⟩ := onConn_eq_ok.mp hok
    exact .none
  | send t range w =>
    simp only [Act.run, SharedConnection.send] at hok
    split at hok
    · rename_i hup
      split at hok
      · obtain ⟨c, _, rfl⟩ := sendInLoop_eq_ok.mp hok
        exact .none
      · rename_i hother
        cases hok
        exact .sending rfl (by simpa using hother) hup
    · cases hok
      exact .none
  | queueSend t =>
    cases hok
    unfold SharedConnection.queueSend
    split
    · rename_i range said ht
      exact .queueSend ht
    · exact .none
  | shutdown t =>
    cases hok
    unfold SharedConnection.shutdown
    split
    · split
      · exact .none
      · rename_i hother
        exact .shutting (by simpa using hother)
    · exact .none
  | setState t =>
    cases hok
    exact .setState rfl
  | queueShutdown t =>
    cases hok
    exact .queueShutdown he
  | removeConnectionInLoop t =>
    simp only [Act.run, SharedConnection.removeConnectionInLoop] at hok
    split at hok
    · obtain ⟨c, _, rfl⟩ := onConn_eq_ok.mp hok
      exact .none
    · cases hok
      exact .connectDestroy he.1.2
  | store address byte =>
    cases hok
    exact .none

omit [DecidableEq κ] in
theorem mem_waiting_queueInLoop {l : EventLoop τ κ Functor} {t : τ} {f g : Functor}
    (h : f ∈ (l.queueInLoop t g).waiting) : f ∈ l.waiting ∨ f = g := by
  have hwait : (l.queueInLoop t g).waiting = l.waiting ++ [g] := (List.append_assoc _ _ _).symm
  rw [hwait, List.mem_append, List.mem_singleton] at h
  exact h

/-- The functors that wait for the loop were there before, or the step has
queued them. -/
theorem waiting_run {s s' : SharedConnection τ κ} {a : Act τ κ} (h : s.loop_.Inv)
    (he : a.Enabled s) (hok : a.run s = .ok s') {f : Functor} (hf : f ∈ s'.loop_.waiting) :
    f ∈ s.loop_.waiting ∨ f = .connectDestroy ∨ (∃ n, f = .other n) ∨
      (∃ t, s.calling t = .shut ∧ f = .shutdownInLoop) ∨
      ∃ t range said, s.calling t = .sending range said ∧ f = .sendInLoop range said := by
  have hmoves := Act.moves he hok
  generalize s'.loop_ = l at hmoves hf
  generalize s'.calling = calling at hmoves
  cases hmoves with
  | none | sending | shutting | setState => exact Or.inl hf
  | @loop b w ha =>
    subst ha
    have hmem : f ∈ s.loop_.waiting ++ b.queued := by
      rw [EventLoop.waiting_apply h he.1]
      exact List.mem_append_right _ hf
    rcases List.mem_append.mp hmem with hold | hnew
    · exact Or.inl hold
    · cases b with
      | queueInLoop t g =>
        cases g with
        | other n => exact Or.inr (Or.inr (Or.inl ⟨n, List.mem_singleton.mp hnew⟩))
        | _ => exact he.2.elim
      | _ => cases hnew
  | @queueSend t range said ht =>
    rcases mem_waiting_queueInLoop hf with hold | hnew
    · exact Or.inl hold
    · exact Or.inr (Or.inr (Or.inr (Or.inr ⟨t, range, said, ht, hnew⟩)))
  | @queueShutdown t ht =>
    rcases mem_waiting_queueInLoop hf with hold | hnew
    · exact Or.inl hold
    · exact Or.inr (Or.inr (Or.inr (Or.inl ⟨t, ht, hnew⟩)))
  | connectDestroy ht =>
    rcases mem_waiting_queueInLoop hf with hold | hnew
    · exact Or.inl hold
    · exact Or.inr (Or.inl hnew)

/-- A thread goes on in its call, or it has found the connection up. -/
theorem calling_run {s s' : SharedConnection τ κ} {a : Act τ κ} (he : a.Enabled s)
    (hok : a.run s = .ok s') (t : τ) :
    s'.calling t = s.calling t ∨ s'.calling t = .idle ∨
    s.loop_.isInLoopThread t = false ∧ s'.calling t = .shutting ∨
    (a = .setState t ∧ s'.calling t = .shut) ∨
    s.loop_.isInLoopThread t = false ∧ s.conn.state_ = .kConnected ∧
      ∃ range said w, a = .send t range w ∧ s'.calling t = .sending range said := by
  have hset : ∀ u c, Function.update s.calling u c t = s.calling t ∨
      t = u ∧ Function.update s.calling u c t = c := by
    intro u c
    by_cases htu : t = u
    · subst htu
      exact Or.inr ⟨rfl, Function.update_self t _ _⟩
    · exact Or.inl (Function.update_of_ne htu _ _)
  have hmoves := Act.moves he hok
  generalize s'.loop_ = l at hmoves
  generalize s'.calling = calling at hmoves
  cases hmoves with
  | none | loop | connectDestroy => exact Or.inl rfl
  | @sending u range w ha hu hup =>
    rcases hset u (.sending range (range.read s.memory).bytes) with hsame | ⟨rfl, hnew⟩
    · exact Or.inl hsame
    · exact Or.inr (Or.inr (Or.inr (Or.inr ⟨hu, hup, range, _, w, ha, hnew⟩)))
  | @queueSend u range said hu =>
    rcases hset u .idle with hsame | ⟨rfl, hnew⟩
    · exact Or.inl hsame
    · exact Or.inr (Or.inl hnew)
  | @shutting u hu =>
    rcases hset u .shutting with hsame | ⟨rfl, hnew⟩
    · exact Or.inl hsame
    · exact Or.inr (Or.inr (Or.inl ⟨hu, hnew⟩))
  | @setState u ha =>
    rcases hset u .shut with hsame | ⟨rfl, hnew⟩
    · exact Or.inl hsame
    · exact Or.inr (Or.inr (Or.inr (Or.inl ⟨ha, hnew⟩)))
  | @queueShutdown u hu =>
    rcases hset u .idle with hsame | ⟨rfl, hnew⟩
    · exact Or.inl hsame
    · exact Or.inr (Or.inl hnew)

/-! ## What every step keeps -/

/-- The events that only tell the user or the server something move no byte. -/
theorem bytes_of_notices {es : List Event} (h : ∀ e ∈ es,
    e ∈ [.connectionCallback false, .messageCallback, .closeCallback, .remove]) :
    written es = [] ∧ TcpConnection.sent es = [] := by
  have hnone : ∀ e ∈ es, e.written = [] ∧ e.sent = [] := by
    intro e hmem
    have hcases := h e hmem
    simp only [List.mem_cons, List.not_mem_nil, or_false] at hcases
    rcases hcases with rfl | rfl | rfl | rfl <;> exact ⟨rfl, rfl⟩
  exact ⟨List.flatMap_eq_nil_iff.mpr fun e hmem => (hnone e hmem).1,
    List.flatMap_eq_nil_iff.mpr fun e hmem => (hnone e hmem).2⟩

theorem down_notices {es : List Event} (h : ∀ e ∈ es, e = .remove) :
    ∀ e ∈ .connectionCallback false :: es,
      e ∈ [.connectionCallback false, .messageCallback, .closeCallback, .remove] := by
  intro e hmem
  rcases List.mem_cons.mp hmem with rfl | hmem
  · simp
  · simp [h e hmem]

omit [DecidableEq κ] in
theorem Effect.streams {s : SharedConnection τ κ} {a : Act τ κ} {c : TcpConnection}
    {said : List Byte} (h : s.conn.Streams) (he : Effect s a c said) : c.Streams := by
  cases he with
  | none => exact h
  | established hup => exact (established_streams h).idle rfl rfl ⟨rfl, rfl⟩ id
  | @inward input revents es hes =>
    exact h.idle rfl rfl (bytes_of_notices fun e he => List.mem_cons_of_mem _ (hes e he)) id
  | @down es hes =>
    exact h.idle rfl rfl (bytes_of_notices (down_notices hes)) (by simp [TcpConnection.down, log])
  | handleWrite ha hok => exact (handleWrite_streams h hok).1
  | sendInLoop ha hok => exact (sendInLoop_streams h hok).1
  | shutdown ha ht => exact (shutdown_streams h).1
  | setState ha => exact h.idle rfl rfl ⟨rfl, rfl⟩ id
  | shutdownInLoop ha => exact (shutdownInLoop_streams h).1

/-- The loop is a queue, and its own thread is in no call that it cuts. -/
structure Ready (s : SharedConnection τ κ) : Prop where
  loop_ : s.loop_.Inv
  idle : s.calling s.loop_.threadId_ = .idle

omit [DecidableEq τ] [DecidableEq κ] in
theorem construct_ready (threadId : τ) (wakeChannel : κ) (memory : Nat → Byte) (sockfd : Int)
    (writeComplete highWaterMark : Bool) :
    (construct threadId wakeChannel memory sockfd writeComplete highWaterMark :
      SharedConnection τ κ).Ready :=
  ⟨EventLoop.construct_inv threadId wakeChannel, rfl⟩

omit [DecidableEq κ] in
/-- A thread in the middle of a call queues a functor. -/
theorem Ready.queueInLoop {s : SharedConnection τ κ} (h : s.Ready) {t : τ} (f : Functor)
    (ht : s.calling t ≠ .idle) : (s.loop_.queueInLoop t f).Inv := by
  refine h.loop_.queueInLoop f fun e => absurd ?_ ht
  rw [e]
  exact h.idle

theorem Ready.step {s s' : SharedConnection τ κ} {a : Act τ κ} (h : s.Ready) (he : a.Enabled s)
    (hok : a.run s = .ok s') : s'.Ready := by
  have hloop : s'.loop_.Inv ∧ s'.loop_.threadId_ = s.loop_.threadId_ := by
    have hmoves := Act.moves he hok
    generalize s'.loop_ = l at hmoves
    generalize s'.calling = calling at hmoves
    cases hmoves with
    | none | sending | shutting | setState => exact ⟨h.loop_, rfl⟩
    | @loop b w ha =>
      subst ha
      exact ⟨h.loop_.apply he.1, (EventLoop.apply_fields s.loop_ b).1⟩
    | queueSend ht => exact ⟨h.queueInLoop _ (by simp [ht]), rfl⟩
    | queueShutdown ht => exact ⟨h.queueInLoop _ (by simp [ht]), rfl⟩
    | connectDestroy ht => exact ⟨h.loop_.queueInLoop _ ht.2, rfl⟩
  refine ⟨hloop.1, ?_⟩
  rw [hloop.2]
  have hself : s.loop_.isInLoopThread s.loop_.threadId_ = true := by
    simp [EventLoop.isInLoopThread]
  rcases calling_run he hok s.loop_.threadId_ with
    hsame | hidle | ⟨hother, _⟩ | ⟨rfl, _⟩ | ⟨hother, _⟩
  · rw [hsame]
    exact h.idle
  · exact hidle
  · rw [hself] at hother
    cases hother
  · have hc : s.calling s.loop_.threadId_ = .shutting := he
    rw [h.idle] at hc
    cases hc
  · rw [hself] at hother
    cases hother

end

end SharedConnection

end jmuduo.net
