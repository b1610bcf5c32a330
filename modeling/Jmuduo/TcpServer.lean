-- A server (TcpServer.h): its base loop accepts connections and gives each
-- to one of the loops, and removes it again when it has closed.
import Jmuduo.EventLoop
import Jmuduo.Map
import Jmuduo.TcpConnection

open outcome runs maps

namespace jmuduo.net

namespace TcpServer

/-! ## What the threads run -/

/-- A channel of a loop. A connection is named by its place among all that
the server accepted. -/
inductive ChannelId
  | wake
  | acceptor
  | connection (c : Nat)
  | other (n : Nat)
  deriving DecidableEq, Repr

/-- A bound functor. `sendInLoop` and `shutdownInLoop` are bound to the raw
pointer, the other functors of a connection to a `TcpConnectionPtr`. -/
inductive Functor
  | connectEstablished (c : Nat)
  | removeConnectionInLoop (c : Nat)
  | connectDestroy (c : Nat)
  | sendInLoop (c : Nat) (message : Message)
  | shutdownInLoop (c : Nat)
  | other (n : Nat)
  deriving DecidableEq, Repr

/-- The callbacks of a channel. -/
inductive Callback
  | closeCallback_
  | errorCallback_
  | readCallback_
  | writeCallback_
  deriving DecidableEq, Repr

/-- What a function on the stack of a thread has yet to do: `accept` is
`Acceptor::handleRead`, `call` a functor that starts, `handleEvent` the rest
of a dispatch, `closeCallback` the last statement of `handleClose`, and
`returns` the rest of a call of another loop. `setState` is what `shutdown` has
to do after its test of `state_`, and `send` and `shutdown` are the `runInLoop`
of these calls. `holds` only returns, and has a local that refers to the
connection. -/
inductive Frame (τ : Type)
  | accept
  | call (f : Functor)
  | holds (c : Nat)
  | handleEvent (c : Nat) (cbs : List Callback)
  | closeCallback (c : Nat)
  | send (c : Nat) (message : Message)
  | setState (c : Nat)
  | shutdown (c : Nat)
  | returns (l : τ)
  deriving DecidableEq

/-- The connection that the functor keeps alive. -/
def Functor.refs : Functor → Option Nat
  | .connectEstablished c | .removeConnectionInLoop c | .connectDestroy c => some c
  | .sendInLoop _ _ | .shutdownInLoop _ | .other _ => none

/-- The connection that the function on the stack keeps alive. -/
def Frame.refs {τ : Type} : Frame τ → Option Nat
  | .call f => f.refs
  | .holds c | .handleEvent c _ | .closeCallback c => some c
  | .accept | .send _ _ | .setState _ | .shutdown _ | .returns _ => none

/-- The function is a call that the user made. -/
def Frame.isCall {τ : Type} : Frame τ → Bool
  | .send _ _ | .setState _ | .shutdown _ | .returns _ => true
  | .accept | .call _ | .holds _ | .handleEvent _ _ | .closeCallback _ => false

/-- The calls of a connection that its life is made of. `handler` is any
callback of its channel. -/
inductive Step
  | connectEstablished
  | handler
  | handleClose
  | removeConnectionInLoop
  | connectDestroy
  deriving DecidableEq, Repr

/-- A thread ran the step of the connection. -/
structure Note (τ : Type) where
  thread : τ
  conn : Nat
  what : Step
  deriving DecidableEq

/-- What a thread meets at one step: the socket of `accept`, what a user
callback does, and the results of the system calls. -/
structure Input where
  sockfd : Option Int
  calls : List Call
  reply : Reply
  write : WriteResult
  deriving DecidableEq

/-! ## The callbacks of a connection -/

/-- The callbacks that `handleEventWithGuard` runs, in its order. -/
def dispatched (revents : Mask) : List Callback :=
  (if has revents POLLHUP && !has revents POLLIN then [.closeCallback_] else []) ++
  (if has revents (POLLERR ||| POLLNVAL) then [.errorCallback_] else []) ++
  (if has revents (POLLIN ||| POLLPRI ||| POLLHUP) then [.readCallback_] else []) ++
  (if has revents POLLOUT then [.writeCallback_] else [])

/-- One callback, and whether it runs `handleClose`. What `closeCallback_`
does is a frame of its own. -/
def Callback.run (r : Reply) (c : TcpConnection) : Callback → Outcome (TcpConnection × Bool)
  | .closeCallback_ => do
    let c ← c.handleClose { r with destroys := false }
    pure (c, true)
  | .errorCallback_ => do
    let c ← c.handleError
    pure (c, false)
  | .readCallback_ => do
    let (_, n, _) ← c.inputBuffer_.readFd 0 r.read
    let c ← c.handleRead { r with destroys := false }
    pure (c, n = 0)
  | .writeCallback_ => do
    let c ← c.handleWrite r.write
    pure (c, false)

end TcpServer

/-! ## The server of the source -/

/-- A connection with what the server reads of it. `registered` says whether
the poller of its loop has its channel. -/
structure ServerConnection (τ : Type) where
  name_ : String
  loop_ : τ
  registered : Bool
  conn : TcpConnection

/-- The server after `start`. Each loop is named by its thread, and `loops_`
and `nextId_` are those of `threadPool_`. `conns` keeps every connection that
was accepted, also when nothing refers to it any more. `stack` is what the
functions of each thread have yet to do, the innermost first, and `trace` is
what they did. -/
structure TcpServer (τ : Type) where
  loop_ : τ
  loops_ : List τ
  nextId_ : Nat
  nextConnId_ : Int
  name_ : String
  connections_ : Map String Nat
  conns : Nat → Option (ServerConnection τ)
  accepted : Nat
  loop : τ → EventLoop τ TcpServer.ChannelId TcpServer.Functor
  stack : τ → List (TcpServer.Frame τ)
  trace : List (TcpServer.Note τ)

namespace TcpServer

section

variable {τ : Type} [DecidableEq τ]

/-- The constructor and `start`. -/
def construct (loop : τ) (loops : List τ) (name : String) : TcpServer τ where
  loop_ := loop
  loops_ := loops
  nextId_ := 0
  nextConnId_ := 1
  name_ := name
  connections_ := ∅
  conns := fun _ => none
  accepted := 0
  loop := fun t => .construct t .wake
  stack := fun _ => []
  trace := []

def deref (c : Nat) (s : TcpServer τ) : Outcome (ServerConnection τ) :=
  demand .badPointer (s.conns c)

def setConn (c : Nat) (conn : ServerConnection τ) (s : TcpServer τ) : TcpServer τ :=
  { s with conns := Function.update s.conns c (some conn) }

def push (t : τ) (frames : List (Frame τ)) (s : TcpServer τ) : TcpServer τ :=
  { s with stack := Function.update s.stack t (frames ++ s.stack t) }

def note (t : τ) (c : Nat) (what : Step) (s : TcpServer τ) : TcpServer τ :=
  { s with trace := s.trace ++ [⟨t, c, what⟩] }

/-- A step of one loop. -/
def act (l : τ) (a : EventLoop.Act τ ChannelId Functor) (s : TcpServer τ) : TcpServer τ :=
  { s with loop := Function.update s.loop l (a.apply (s.loop l)) }

/-- `l->runInLoop(f)` on the thread `t`. -/
def runInLoop (t l : τ) (f : Functor) (s : TcpServer τ) : TcpServer τ :=
  if (s.loop l).isInLoopThread t then s.push t [.call f]
  else (s.act l (.queueInLoop t f)).push t [.returns l]

/-! ### The connections of the server -/

/-- `EventLoopThreadPool::getNextLoop`. -/
def getNextLoop (s : TcpServer τ) : Outcome (τ × TcpServer τ) :=
  if s.loops_.isEmpty then pure (s.loop_, s)
  else do
    let loop ← demand .outOfRange s.loops_[s.nextId_]?
    let nextId := s.nextId_ + 1
    pure (loop, { s with nextId_ := if nextId = s.loops_.length then 0 else nextId })

/-- The name of the connection with the number. -/
def connName (name : String) (id : Int) : String := name ++ ("#" ++ toString id)

def newConnection (t : τ) (sockfd : Int) (s : TcpServer τ) : Outcome (TcpServer τ) := do
  let name := connName s.name_ s.nextConnId_
  let s := { s with nextConnId_ := toInt (s.nextConnId_ + 1) }
  let (ioLoop, s) ← s.getNextLoop
  let c := s.accepted
  let conn : ServerConnection τ := ⟨name, ioLoop, false, .construct sockfd false false⟩
  let s := { s.setConn c conn with
    accepted := c + 1
    connections_ := s.connections_.insert name c }
  pure ((s.push t [.holds c]).runInLoop t ioLoop (.connectEstablished c))

def removeConnection (t : τ) (c : Nat) (s : TcpServer τ) : TcpServer τ :=
  s.runInLoop t s.loop_ (.removeConnectionInLoop c)

def removeConnectionInLoop (t : τ) (c : Nat) (s : TcpServer τ) : Outcome (TcpServer τ) := do
  let conn ← s.deref c
  let s := { s with connections_ := s.connections_.erase conn.name_ }
  pure ((s.note t c .removeConnectionInLoop).runInLoop t conn.loop_ (.connectDestroy c))

/-- `connectEstablished` enables the reading, which registers the channel. -/
def connectEstablished (t : τ) (onUp : List Call) (c : Nat) (s : TcpServer τ) :
    Outcome (TcpServer τ) := do
  let conn ← s.deref c
  let c' ← conn.conn.connectEstablished onUp
  pure ((s.setConn c { conn with registered := true, conn := c' }).note t c .connectEstablished)

def connectDestroy (t : τ) (onDown : List Call) (c : Nat) (s : TcpServer τ) :
    Outcome (TcpServer τ) := do
  let conn ← s.deref c
  let c' ← conn.conn.connectDestroy onDown
  pure ((s.setConn c { conn with registered := false, conn := c' }).note t c .connectDestroy)

/-- A call that only changes the connection. -/
def onConn (c : Nat) (f : TcpConnection → Outcome TcpConnection) (s : TcpServer τ) :
    Outcome (TcpServer τ) := do
  let conn ← s.deref c
  let c' ← f conn.conn
  pure (s.setConn c { conn with conn := c' })

/-- `send` on any thread, up to its `runInLoop`. -/
def send (t : τ) (c : Nat) (message : Message) (w : WriteResult) (s : TcpServer τ) :
    Outcome (TcpServer τ) := do
  let conn ← s.deref c
  if conn.conn.state_ = .kConnected then
    if (s.loop conn.loop_).isInLoopThread t then s.onConn c (·.sendInLoop message w)
    else pure (s.push t [.send c message])
  else pure s

/-- `shutdown` on any thread, up to its `setState`. -/
def shutdown (t : τ) (c : Nat) (s : TcpServer τ) : Outcome (TcpServer τ) := do
  let conn ← s.deref c
  if conn.conn.state_ = .kConnected then pure (s.push t [.setState c]) else pure s

/-- The `setState` of `shutdown`, up to its `runInLoop`. -/
def setDisconnecting (t : τ) (c : Nat) (s : TcpServer τ) : Outcome (TcpServer τ) := do
  let conn ← s.deref c
  let c' := { conn.conn with state_ := .kDisconnecting }.log [.shutdown]
  pure ((s.setConn c { conn with conn := c' }).push t [.shutdown c])

/-- The `loop_->runInLoop` of `send` and `shutdown`. -/
def runInItsLoop (t : τ) (c : Nat) (f : Functor) (s : TcpServer τ) : Outcome (TcpServer τ) := do
  let conn ← s.deref c
  pure (s.runInLoop t conn.loop_ f)

/-! ### The threads -/

def runFunctor (t : τ) (inp : Input) (s : TcpServer τ) : Functor → Outcome (TcpServer τ)
  | .connectEstablished c => s.connectEstablished t inp.calls c
  | .removeConnectionInLoop c => (s.push t [.holds c]).removeConnectionInLoop t c
  | .connectDestroy c => s.connectDestroy t inp.calls c
  | .sendInLoop c message => s.onConn c (·.sendInLoop message inp.write)
  | .shutdownInLoop c => s.onConn c fun conn => pure conn.shutdownInLoop
  | .other _ => pure s

def runCallback (t : τ) (inp : Input) (c : Nat) (cb : Callback) (s : TcpServer τ) :
    Outcome (TcpServer τ) := do
  let conn ← s.deref c
  let (c', closed) ← cb.run inp.reply conn.conn
  let s := (s.setConn c { conn with conn := c' }).note t c .handler
  pure (if closed then (s.note t c .handleClose).push t [.closeCallback c] else s)

/-- The innermost function of the thread goes on. -/
def resume (t : τ) (inp : Input) (s : TcpServer τ) : Frame τ → Outcome (TcpServer τ)
  | .accept =>
    match inp.sockfd with
    | some sockfd => s.newConnection t sockfd
    | none => pure s
  | .call f => s.runFunctor t inp f
  | .holds _ => pure s
  | .handleEvent _ [] => pure s
  | .handleEvent c (cb :: cbs) => (s.push t [.handleEvent c cbs]).runCallback t inp c cb
  | .closeCallback c => pure ((s.push t [.holds c]).removeConnection t c)
  | .send c message => s.runInItsLoop t c (.sendInLoop c message)
  | .setState c => s.setDisconnecting t c
  | .shutdown c => s.runInItsLoop t c (.shutdownInLoop c)
  | .returns l => pure (s.act l (.callReturns t))

def go (t : τ) (inp : Input) (s : TcpServer τ) : Outcome (TcpServer τ) :=
  match s.stack t with
  | [] => pure s
  | fr :: rest => { s with stack := Function.update s.stack t rest }.resume t inp fr

/-- What a step of the loop starts. `alive` says whether `tie_.lock()` finds
the connection. -/
def begun (l : τ) (a : EventLoop.Act τ ChannelId Functor) (alive : Bool) (revents : Mask)
    (s : TcpServer τ) : List (Frame τ) :=
  match a, (s.loop l).activeChannels_, (s.loop l).functors with
  | .handleEvent, .acceptor :: _, _ => [.accept]
  | .handleEvent, .connection c :: _, _ =>
    if alive then [.handleEvent c (dispatched revents)] else []
  | .callFunctor, _, f :: _ => [.call f]
  | _, _, _ => []

/-! ### The steps -/

/-- Something refers to the connection: the map of the server, a functor, or
a function on a stack. -/
def Held (s : TcpServer τ) (c : Nat) : Prop :=
  (∃ name, s.connections_.find name = some c) ∨
  (∃ l f, (f ∈ (s.loop l).pendingFunctors_ ∨ f ∈ (s.loop l).functors) ∧ f.refs = some c) ∨
  ∃ t fr, fr ∈ s.stack t ∧ fr.refs = some c

/-- The poller of the loop can find the channel active. -/
def Polled (s : TcpServer τ) (l : τ) : ChannelId → Prop
  | .wake | .other _ => True
  | .acceptor => l = s.loop_
  | .connection c => ∃ conn, s.conns c = some conn ∧ conn.loop_ = l ∧ conn.registered = true

/-- The thread may run code of the user. -/
def UserCode (s : TcpServer τ) (t : τ) : Prop :=
  (s.loop t).pc.UserCode ∧ ∀ fr rest, s.stack t = fr :: rest → fr.isCall = false

/-- A step: of a loop between two functions, of a function on a stack, or the
begin of a call of the user on any thread. -/
inductive Act (τ : Type)
  | loop (l : τ) (a : EventLoop.Act τ ChannelId Functor) (alive : Bool) (revents : Mask)
  | go (t : τ) (inp : Input)
  | send (t : τ) (c : Nat) (message : Message) (w : WriteResult)
  | shutdown (t : τ) (c : Nat)
  | queueInLoop (t l : τ) (n : Nat)
  | quit (t l : τ)

def Act.run (s : TcpServer τ) : Act τ → Outcome (TcpServer τ)
  | .loop l a alive revents => pure ((s.act l a).push l (s.begun l a alive revents))
  | .go t inp => s.go t inp
  | .send t c message w => s.send t c message w
  | .shutdown t c => s.shutdown t c
  | .queueInLoop t l n => pure ((s.act l (.queueInLoop t (.other n))).push t [.returns l])
  | .quit t l => pure ((s.act l (.quit t)).push t [.returns l])

def Act.Enabled (s : TcpServer τ) : Act τ → Prop
  | .loop l a alive _ =>
    a.caller = none ∧ a.Enabled (s.loop l) ∧ s.stack l = [] ∧
    (∀ active, a = .poll active → ∀ ch ∈ active, s.Polled l ch) ∧
    (∀ c cs, a = .handleEvent → (s.loop l).activeChannels_ = .connection c :: cs →
      (alive = true ↔ s.Held c))
  | .go t _ => s.stack t ≠ []
  | .send t _ _ _ | .shutdown t _ => s.UserCode t
  | .queueInLoop t l _ | .quit t l => s.UserCode t ∧ (s.loop l).CanCall t

/-- All the interleavings of the threads, as long as no `assert` fails. -/
def machine (loop : τ) (loops : List τ) (name : String) : Machine (TcpServer τ) (Act τ) where
  init s := s = construct loop loops name
  step s a s' := a.Enabled s ∧ a.run s = .ok s'

end

end TcpServer

end jmuduo.net
