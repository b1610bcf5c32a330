-- The callbacks of a user (TcpServer.cc): the server keeps four of them, and hands
-- two over to a new connection. The lines for the other two are commented out.
import Jmuduo.HighWater

open outcome runs

namespace jmuduo.net

/-! ## The callbacks of the source -/

/-- The four callbacks of a user. A `boost::function` may be empty. -/
structure UserCallbacks (ι : Type) where
  connectionCallback_ : Option ι
  messageCallback_ : Option ι
  writeCompleteCallback_ : Option ι
  highWaterMarkCallback_ : Option ι
  deriving DecidableEq, Repr

/-- A functor that a connection queues: a callback of the user with its arguments. -/
inductive Notice (ι : Type)
  | writeComplete (cb : ι)
  | highWaterMark (cb : ι) (len : Int)
  deriving DecidableEq, Repr

def Notice.isHighWaterMark {ι : Type} [DecidableEq ι] (cb : ι) : Notice ι → Bool
  | .writeComplete _ => false
  | .highWaterMark cb' _ => cb' = cb

/-- A connection with its callbacks, and the functors of its loop that are its own:
those that wait, those of the batch that runs, and those that ran. -/
structure CallbackConnection (ι : Type) where
  conn : TcpConnection
  callbacks : UserCallbacks ι
  pendingFunctors_ : List (Notice ι)
  functors : List (Notice ι)
  ran : List (Notice ι)

namespace CallbackConnection

variable {ι : Type}

/-- The constructor leaves all callbacks empty. -/
def construct (sockfd : Int) : CallbackConnection ι where
  conn := .construct sockfd false false
  callbacks := ⟨none, none, none, none⟩
  pendingFunctors_ := []
  functors := []
  ran := []

def setConnectionCallback (cb : Option ι) (c : CallbackConnection ι) : CallbackConnection ι :=
  { c with callbacks := { c.callbacks with connectionCallback_ := cb } }

def setMessageCallback (cb : Option ι) (c : CallbackConnection ι) : CallbackConnection ι :=
  { c with callbacks := { c.callbacks with messageCallback_ := cb } }

/-- The functor of an event that queues one. -/
def functor (callbacks : UserCallbacks ι) : Event → Option (Notice ι)
  | .queueWriteComplete => callbacks.writeCompleteCallback_.map .writeComplete
  | .queueHighWaterMark len => callbacks.highWaterMarkCallback_.map (.highWaterMark · len)
  | _ => none

/-- A step of the connection, with what it queues. -/
def step (p : TcpConnection.Piece) (c : CallbackConnection ι) : Outcome (CallbackConnection ι) := do
  let conn ← p.run c.conn
  let queued := (conn.trace.drop c.conn.trace.length).filterMap (functor c.callbacks)
  pure { c with conn := conn, pendingFunctors_ := c.pendingFunctors_ ++ queued }

/-- `doPendingFunctors_` takes a batch when the one before has run. -/
def swap (c : CallbackConnection ι) : CallbackConnection ι :=
  if c.functors = [] then { c with functors := c.pendingFunctors_, pendingFunctors_ := [] } else c

/-- The next functor of the batch runs. -/
def callFunctor (c : CallbackConnection ι) : CallbackConnection ι :=
  match c.functors with
  | [] => c
  | f :: fs => { c with functors := fs, ran := c.ran ++ [f] }

end CallbackConnection

/-- The server, with the connections in the order of their creation. -/
structure CallbackServer (ι : Type) where
  callbacks : UserCallbacks ι
  connections : List (CallbackConnection ι)

namespace CallbackServer

variable {ι : Type}

def construct (defaultConnectionCallback defaultMessageCallback : ι) : CallbackServer ι :=
  ⟨⟨some defaultConnectionCallback, some defaultMessageCallback, none, none⟩, []⟩

def newConnection (sockfd : Int) (s : CallbackServer ι) : CallbackServer ι :=
  let conn := CallbackConnection.construct sockfd
  let conn := conn.setConnectionCallback s.callbacks.connectionCallback_
  let conn := conn.setMessageCallback s.callbacks.messageCallback_
  -- the source has the calls of the other two setters in comments
  { s with connections := s.connections ++ [conn] }

/-- A setter of the server, a connection that is accepted, or a step of the `i`-th
connection or of its loop. -/
inductive Op (ι : Type)
  | setConnectionCallback (cb : Option ι)
  | setMessageCallback (cb : Option ι)
  | setWriteCompleteCallback (cb : Option ι)
  | setHighWaterMarkCallback (cb : Option ι)
  | newConnection (sockfd : Int)
  | step (i : Nat) (p : TcpConnection.Piece)
  | swap (i : Nat)
  | callFunctor (i : Nat)

/-- A function of the `i`-th connection. -/
def modify (i : Nat) (f : CallbackConnection ι → Outcome (CallbackConnection ι))
    (s : CallbackServer ι) : Outcome (CallbackServer ι) :=
  match s.connections[i]? with
  | none => pure s
  | some c => do
    let c ← f c
    pure { s with connections := s.connections.set i c }

def Op.run (s : CallbackServer ι) : Op ι → Outcome (CallbackServer ι)
  | .setConnectionCallback cb =>
    pure { s with callbacks := { s.callbacks with connectionCallback_ := cb } }
  | .setMessageCallback cb =>
    pure { s with callbacks := { s.callbacks with messageCallback_ := cb } }
  | .setWriteCompleteCallback cb =>
    pure { s with callbacks := { s.callbacks with writeCompleteCallback_ := cb } }
  | .setHighWaterMarkCallback cb =>
    pure { s with callbacks := { s.callbacks with highWaterMarkCallback_ := cb } }
  | .newConnection sockfd => pure (s.newConnection sockfd)
  | .step i p => s.modify i (CallbackConnection.step p)
  | .swap i => s.modify i fun c => pure c.swap
  | .callFunctor i => s.modify i fun c => pure c.callFunctor

def machine (defaultConnectionCallback defaultMessageCallback : ι) :
    Machine (CallbackServer ι) (Op ι) where
  init s := s = construct defaultConnectionCallback defaultMessageCallback
  step s op s' := op.run s = .ok s'

/-! ## What the user set last -/

def Op.connection? : Op ι → Option (Option ι)
  | .setConnectionCallback cb => some cb
  | _ => none

def Op.message? : Op ι → Option (Option ι)
  | .setMessageCallback cb => some cb
  | _ => none

def Op.writeComplete? : Op ι → Option (Option ι)
  | .setWriteCompleteCallback cb => some cb
  | _ => none

def Op.highWaterMark? : Op ι → Option (Option ι)
  | .setHighWaterMarkCallback cb => some cb
  | _ => none

/-- The last value that the calls set, or the first one. -/
def lastOf (setter : Op ι → Option (Option ι)) (first : Option ι) (ops : List (Op ι)) :
    Option ι :=
  (ops.filterMap setter).getLast?.getD first

/-- The four callbacks that were last set on the server. -/
def lastSet (defaultConnectionCallback defaultMessageCallback : ι) (ops : List (Op ι)) :
    UserCallbacks ι where
  connectionCallback_ := lastOf Op.connection? (some defaultConnectionCallback) ops
  messageCallback_ := lastOf Op.message? (some defaultMessageCallback) ops
  writeCompleteCallback_ := lastOf Op.writeComplete? none ops
  highWaterMarkCallback_ := lastOf Op.highWaterMark? none ops

theorem lastOf_snoc (setter : Op ι → Option (Option ι)) (first : Option ι) (ops : List (Op ι))
    (op : Op ι) :
    lastOf setter first (ops ++ [op]) = (setter op).getD (lastOf setter first ops) := by
  unfold lastOf
  rw [List.filterMap_append]
  cases hs : setter op with
  | none => simp [List.filterMap_cons_none hs]
  | some cb => simp [List.filterMap_cons_some hs]

theorem modify_callbacks {i : Nat} {f : CallbackConnection ι → Outcome (CallbackConnection ι)}
    {s s' : CallbackServer ι} (hok : s.modify i f = .ok s') : s'.callbacks = s.callbacks := by
  unfold modify at hok
  cases hc : s.connections[i]? with
  | none =>
    simp only [hc] at hok
    cases hok
    rfl
  | some c =>
    simp only [hc, bind_eq_ok] at hok
    obtain ⟨_, _, hok⟩ := hok
    cases hok
    rfl

/-- The server has the callbacks that were last set. -/
theorem callbacks_eq_lastSet {dc dm : ι} {ops : List (Op ι)} {s : CallbackServer ι}
    (h : (machine dc dm).Run (construct dc dm) ops s) : s.callbacks = lastSet dc dm ops := by
  induction h with
  | nil => rfl
  | @snoc s s' ops op _ hst ih =>
    have hlast : lastSet dc dm (ops ++ [op]) =
        ⟨(op.connection?).getD s.callbacks.connectionCallback_,
        (op.message?).getD s.callbacks.messageCallback_,
        (op.writeComplete?).getD s.callbacks.writeCompleteCallback_,
        (op.highWaterMark?).getD s.callbacks.highWaterMarkCallback_⟩ := by
      rw [ih]
      simp only [lastSet, lastOf_snoc]
    rw [hlast]
    have hok : op.run s = .ok s' := hst
    cases op with
    | step i p => exact modify_callbacks hok
    | swap i => exact modify_callbacks hok
    | callFunctor i => exact modify_callbacks hok
    | _ =>
      cases hok
      rfl

end CallbackServer

/-! ## What a connection queues -/

namespace TcpConnection

/-- A step keeps the two callbacks, and the trace grows. -/
theorem Piece.keeps {c c' : TcpConnection} {p : Piece} (h : c.Streams) (hok : p.run c = .ok c') :
    c'.writeCompleteCallback_ = c.writeCompleteCallback_ ∧
    c'.highWaterMarkCallback_ = c.highWaterMarkCallback_ ∧ ∃ es, c'.trace = c.trace ++ es := by
  have hsend : ∀ message w, c.sendInLoop message w = .ok c' →
      c'.writeCompleteCallback_ = c.writeCompleteCallback_ ∧
      c'.highWaterMarkCallback_ = c.highWaterMarkCallback_ ∧ ∃ es, c'.trace = c.trace ++ es := by
    intro message w hs
    rcases sendInLoop.spec h.out hs with ⟨_, rfl⟩ | ⟨_, done, rest, es, out, _, _, _, _, rfl⟩
    · exact ⟨rfl, rfl, _, rfl⟩
    · exact ⟨rfl, rfl, _, rfl⟩
  have hsame : c.trace = c.trace ++ [] := (List.append_nil _).symm
  cases p with
  | established =>
    cases hok
    exact ⟨rfl, rfl, _, rfl⟩
  | dispatch revents =>
    cases hok
    exact ⟨rfl, rfl, _, hsame⟩
  | read r =>
    simp only [Piece.run, bind_eq_ok] at hok
    obtain ⟨_, _, hok⟩ := hok
    cases hok
    exact ⟨rfl, rfl, _, hsame⟩
  | messageCallback =>
    cases hok
    exact ⟨rfl, rfl, _, rfl⟩
  | handleWrite w =>
    rcases handleWrite_cases h.out hok with
      ⟨_, rfl⟩ | ⟨_, rfl⟩ | ⟨done, rest, out, _, _, _, _, _, ⟨_, rfl⟩ | ⟨_, rfl⟩⟩
    · exact ⟨rfl, rfl, _, hsame⟩
    · exact ⟨rfl, rfl, _, rfl⟩
    · exact ⟨rfl, rfl, _, rfl⟩
    · exact ⟨rfl, rfl, _, rfl⟩
  | handleClose =>
    simp only [Piece.run, bind_eq_ok] at hok
    obtain ⟨_, _, hok⟩ := hok
    cases hok
    exact ⟨rfl, rfl, _, rfl⟩
  | closeCallback =>
    cases hok
    exact ⟨rfl, rfl, _, rfl⟩
  | disconnect =>
    cases hok
    split
    · exact ⟨rfl, rfl, _, rfl⟩
    · exact ⟨rfl, rfl, _, hsame⟩
  | remove =>
    simp only [Piece.run, bind_eq_ok] at hok
    obtain ⟨_, _, hok⟩ := hok
    cases hok
    exact ⟨rfl, rfl, _, rfl⟩
  | call a =>
    cases a with
    | send message w =>
      simp only [Piece.run, runCall, send] at hok
      split at hok
      · exact hsend message w hok
      · cases hok
        exact ⟨rfl, rfl, _, hsame⟩
    | shutdown =>
      cases hok
      rcases c.shutdown_cases with ⟨_, e⟩ | ⟨_, _, e⟩ | ⟨_, _, e⟩
      · rw [e]
        exact ⟨rfl, rfl, _, hsame⟩
      · rw [e]
        exact ⟨rfl, rfl, _, rfl⟩
      · rw [e]
        exact ⟨rfl, rfl, _, rfl⟩
    | retrieve len =>
      cases hok
      exact ⟨rfl, rfl, _, hsame⟩
  | sendInLoop message w => exact hsend message w hok
  | shutdownInLoop =>
    cases hok
    unfold TcpConnection.shutdownInLoop
    split
    · exact ⟨rfl, rfl, _, rfl⟩
    · exact ⟨rfl, rfl, _, hsame⟩

end TcpConnection

namespace CallbackConnection

variable {ι : Type}

open TcpConnection

/-- The mark that the constructor sets. -/
def kHighWaterMark : Nat := 64 * 1024 * 1024

/-- What any connection keeps, whatever callbacks it has: the flags of the connection
say which are set, and each functor that it queued waits, or runs, or ran, once. -/
structure Sound (c : CallbackConnection ι) : Prop where
  counted : c.conn.Counted kHighWaterMark
  writeComplete : c.conn.writeCompleteCallback_ = c.callbacks.writeCompleteCallback_.isSome
  highWaterMark : c.conn.highWaterMarkCallback_ = c.callbacks.highWaterMarkCallback_.isSome
  once : c.ran ++ c.functors ++ c.pendingFunctors_ =
    c.conn.trace.filterMap (functor c.callbacks)

theorem construct_sound (sockfd : Int) : (construct sockfd : CallbackConnection ι).Sound := by
  obtain ⟨hs, hu⟩ := construct_streams sockfd false false
  refine ⟨⟨hs, rfl, ?_⟩, rfl, rfl, rfl⟩
  unfold construct
  rw [hu]
  decide

/-- What a step of the connection queues. -/
theorem step.spec {c c' : CallbackConnection ι} {p : Piece} (h : c.Sound)
    (hok : c.step p = .ok c') :
    ∃ es, p.run c.conn = .ok c'.conn ∧ c'.conn.trace = c.conn.trace ++ es ∧
      c' = { c with
        conn := c'.conn
        pendingFunctors_ := c.pendingFunctors_ ++ es.filterMap (functor c.callbacks) } := by
  unfold step at hok
  rw [bind_eq_ok] at hok
  obtain ⟨conn, hrun, hok⟩ := hok
  cases hok
  obtain ⟨_, _, es, htrace⟩ := Piece.keeps h.counted.streams hrun
  refine ⟨es, hrun, htrace, ?_⟩
  simp only [htrace, List.drop_left]

theorem step_sound {c c' : CallbackConnection ι} {p : Piece} (h : c.Sound)
    (hok : c.step p = .ok c') : c'.Sound := by
  obtain ⟨es, hrun, htrace, e⟩ := step.spec h hok
  obtain ⟨hwrite, hhigh, _⟩ := Piece.keeps h.counted.streams hrun
  have hcallbacks : c'.callbacks = c.callbacks := by rw [e]
  refine ⟨(step_counted h.counted hrun).1, ?_, ?_, ?_⟩
  · rw [hwrite, hcallbacks, h.writeComplete]
  · rw [hhigh, hcallbacks, h.highWaterMark]
  · rw [htrace, List.filterMap_append, hcallbacks, ← h.once, e]
    simp only [List.append_assoc]

theorem swap_sound {c : CallbackConnection ι} (h : c.Sound) : c.swap.Sound := by
  unfold swap
  split
  · rename_i hnone
    refine ⟨h.counted, h.writeComplete, h.highWaterMark, ?_⟩
    rw [← h.once, hnone]
    simp only [List.append_nil]
  · exact h

theorem callFunctor_sound {c : CallbackConnection ι} (h : c.Sound) : c.callFunctor.Sound := by
  unfold callFunctor
  split
  · exact h
  · rename_i f fs hfs
    refine ⟨h.counted, h.writeComplete, h.highWaterMark, ?_⟩
    rw [← h.once, hfs]
    simp only [List.append_assoc, List.cons_append, List.nil_append]

variable [DecidableEq ι]

/-- The user is served: the callbacks in force are the last ones, each drain queues
the write-complete callback once and each crossing of the mark the high-water
callback, and what is queued runs once in a later batch. -/
structure Served (last : UserCallbacks ι) (c : CallbackConnection ι) : Prop where
  inForce : c.callbacks = last
  drains : ∀ p c', c.step p = .ok c' → c.conn.unsent ≠ [] → c'.conn.unsent = [] →
    ∀ cb, last.writeCompleteCallback_ = some cb →
      c'.pendingFunctors_.count (.writeComplete cb) =
        c.pendingFunctors_.count (.writeComplete cb) + 1
  crossings : ∀ p c', c.step p = .ok c' → c.conn.unsent.length < kHighWaterMark →
    kHighWaterMark ≤ c'.conn.unsent.length → ∀ cb, last.highWaterMarkCallback_ = some cb →
      c'.pendingFunctors_.countP (Notice.isHighWaterMark cb) =
        c.pendingFunctors_.countP (Notice.isHighWaterMark cb) + 1
  once : c.ran ++ c.functors ++ c.pendingFunctors_ =
    c.conn.trace.filterMap (functor c.callbacks)

/-- The functors of the write-complete callback are the notices of the trace. -/
theorem count_writeComplete {callbacks : UserCallbacks ι} {cb : ι}
    (h : callbacks.writeCompleteCallback_ = some cb) (es : List Event) :
    (es.filterMap (functor callbacks)).count (.writeComplete cb) = notices es := by
  unfold notices List.count
  rw [List.countP_filterMap]
  apply List.countP_congr
  intro e _
  cases e with
  | queueWriteComplete => simp [functor, h]
  | queueHighWaterMark len => cases hm : callbacks.highWaterMarkCallback_ <;> simp [functor, hm]
  | _ => simp [functor]

/-- The functors of the high-water callback are the marks of the trace. -/
theorem countP_highWaterMark {callbacks : UserCallbacks ι} {cb : ι}
    (h : callbacks.highWaterMarkCallback_ = some cb) (es : List Event) :
    (es.filterMap (functor callbacks)).countP (Notice.isHighWaterMark cb) = (marks es).length := by
  unfold marks
  rw [List.countP_filterMap, List.length_filterMap_eq_countP]
  apply List.countP_congr
  intro e _
  cases e with
  | queueWriteComplete =>
    cases hw : callbacks.writeCompleteCallback_ <;>
      simp [functor, hw, Notice.isHighWaterMark, Event.mark]
  | queueHighWaterMark len => simp [functor, h, Notice.isHighWaterMark, Event.mark]
  | _ => simp [functor, Event.mark]

/-- A connection that has the last callbacks serves the user. -/
theorem Sound.served {c : CallbackConnection ι} (h : c.Sound) : c.Served c.callbacks := by
  refine ⟨rfl, fun p c' hok hne hempty cb hcb => ?_, fun p c' hok hlow hhigh cb hcb => ?_, h.once⟩
  · obtain ⟨es, hrun, htrace, e⟩ := step.spec h hok
    have hset : c.conn.writeCompleteCallback_ = true := by rw [h.writeComplete, hcb]; rfl
    have hhanded := (Piece.streams h.counted.streams hrun).handed_iff
    have hone := (step_notices h.counted.streams hset hrun).1
      ⟨hhanded.mpr hempty, Or.inl ⟨hne, hempty⟩⟩
    rw [htrace, notices_append] at hone
    rw [e]
    simp only [List.count_append, count_writeComplete hcb]
    omega
  · obtain ⟨es, hrun, htrace, e⟩ := step.spec h hok
    have hset : c.conn.highWaterMarkCallback_ = true := by rw [h.highWaterMark, hcb]; rfl
    obtain ⟨len, hlen⟩ := crossing_notifies h.counted hset hrun hlow hhigh
    rw [htrace, marks_append] at hlen
    have hone := congrArg List.length (List.append_cancel_left hlen)
    rw [e]
    simp only [List.countP_append, countP_highWaterMark hcb]
    rw [hone]
    rfl

end CallbackConnection

/-! ## The law -/

namespace CallbackServer

variable {ι : Type}

/-- What the functions of the connections keep, a function of one of them keeps. -/
theorem modify_keeps {P : CallbackConnection ι → Prop} {i k : Nat}
    {f : CallbackConnection ι → Outcome (CallbackConnection ι)} {s s' : CallbackServer ι}
    (hf : ∀ c c', P c → f c = .ok c' → P c') (h : ∃ c, s.connections[k]? = some c ∧ P c)
    (hok : s.modify i f = .ok s') : ∃ c, s'.connections[k]? = some c ∧ P c := by
  obtain ⟨c, hc, hp⟩ := h
  unfold modify at hok
  cases hi : s.connections[i]? with
  | none =>
    simp only [hi] at hok
    cases hok
    exact ⟨c, hc, hp⟩
  | some d =>
    simp only [hi, bind_eq_ok] at hok
    obtain ⟨d', hd', hok⟩ := hok
    cases hok
    by_cases hik : i = k
    · subst hik
      rw [hc] at hi
      cases hi
      obtain ⟨hlt, _⟩ := List.getElem?_eq_some_iff.mp hc
      exact ⟨d', List.getElem?_set_self hlt, hf c d' hp hd'⟩
    · exact ⟨c, by rw [List.getElem?_set_ne hik, hc], hp⟩

/-- The `k`-th connection has the callbacks of its creation, and is sound. -/
def Holds (k : Nat) (callbacks : UserCallbacks ι) (s : CallbackServer ι) : Prop :=
  ∃ c, s.connections[k]? = some c ∧ c.callbacks = callbacks ∧ c.Sound

theorem step_holds {dc dm : ι} {k : Nat} {callbacks : UserCallbacks ι} {s s' : CallbackServer ι}
    {op : Op ι} (h : s.Holds k callbacks) (hs : (machine dc dm).step s op s') :
    s'.Holds k callbacks := by
  have hok : op.run s = .ok s' := hs
  cases op with
  | newConnection sockfd =>
    cases hok
    obtain ⟨c, hc, hp⟩ := h
    obtain ⟨hlt, _⟩ := List.getElem?_eq_some_iff.mp hc
    refine ⟨c, ?_, hp⟩
    unfold newConnection
    rw [List.getElem?_append_left hlt, hc]
  | step i p =>
    refine modify_keeps (fun c c' hp hstep => ?_) h hok
    obtain ⟨es, _, _, e⟩ := CallbackConnection.step.spec hp.2 hstep
    exact ⟨by rw [e]; exact hp.1, CallbackConnection.step_sound hp.2 hstep⟩
  | swap i =>
    refine modify_keeps (fun c c' hp hswap => ?_) h hok
    cases hswap
    refine ⟨?_, CallbackConnection.swap_sound hp.2⟩
    unfold CallbackConnection.swap
    split <;> exact hp.1
  | callFunctor i =>
    refine modify_keeps (fun c c' hp hcall => ?_) h hok
    cases hcall
    refine ⟨?_, CallbackConnection.callFunctor_sound hp.2⟩
    unfold CallbackConnection.callFunctor
    split <;> exact hp.1
  | _ =>
    cases hok
    exact h

/-- A new connection has two callbacks of the server, and the other two are empty. -/
theorem newConnection_holds (s : CallbackServer ι) (sockfd : Int) :
    (s.newConnection sockfd).Holds s.connections.length
      ⟨s.callbacks.connectionCallback_, s.callbacks.messageCallback_, none, none⟩ := by
  have h : (CallbackConnection.construct sockfd : CallbackConnection ι).Sound :=
    CallbackConnection.construct_sound sockfd
  refine ⟨_, List.getElem?_concat_length, rfl, ?_⟩
  exact ⟨h.counted, h.writeComplete, h.highWaterMark, h.once⟩

/-- With two empty callbacks, no event queues a functor. -/
theorem functor_of_empty {callbacks : UserCallbacks ι}
    (hwrite : callbacks.writeCompleteCallback_ = none)
    (hhigh : callbacks.highWaterMarkCallback_ = none) (e : Event) :
    CallbackConnection.functor callbacks e = none := by
  unfold CallbackConnection.functor
  rw [hwrite, hhigh]
  cases e <;> rfl

/-- Whatever the order of the calls, a connection has the connection callback and the
message callback that were last set before it was created, and no functor of a notice
is ever queued for it. So the user is served exactly if neither a write-complete
callback nor a high-water callback was set then. -/
theorem the_user_is_served_iff_two_callbacks_are_empty [DecidableEq ι] (dc dm : ι)
    (before after : List (Op ι)) (sockfd : Int) (s₁ s₂ s : CallbackServer ι)
    (hbefore : (machine dc dm).Run (construct dc dm) before s₁)
    (hnew : (machine dc dm).step s₁ (.newConnection sockfd) s₂)
    (hafter : (machine dc dm).Run s₂ after s) :
    ∃ c, s.connections[s₁.connections.length]? = some c ∧
      (c.Served (lastSet dc dm before) ↔
        (lastSet dc dm before).writeCompleteCallback_ = none ∧
          (lastSet dc dm before).highWaterMarkCallback_ = none) ∧
      c.callbacks.connectionCallback_ = (lastSet dc dm before).connectionCallback_ ∧
      c.callbacks.messageCallback_ = (lastSet dc dm before).messageCallback_ ∧
      c.ran = [] ∧ c.functors = [] ∧ c.pendingFunctors_ = [] := by
  have hlast := callbacks_eq_lastSet hbefore
  rw [← hlast]
  cases hnew
  have hholds := hafter.keeps (fun _ _ _ h hst => step_holds h hst)
    (newConnection_holds s₁ sockfd)
  obtain ⟨c, hc, hcallbacks, hsound⟩ := hholds
  have hnone : c.ran ++ c.functors ++ c.pendingFunctors_ = [] := by
    rw [hsound.once, List.filterMap_eq_nil_iff]
    intro e _
    exact functor_of_empty (by rw [hcallbacks]) (by rw [hcallbacks]) e
  simp only [List.append_eq_nil_iff] at hnone
  refine ⟨c, hc, ⟨fun hserved => ?_, fun hempty => ?_⟩, by rw [hcallbacks], by rw [hcallbacks],
    hnone.1.1, hnone.1.2, hnone.2⟩
  · have hforce := hserved.inForce
    rw [hcallbacks] at hforce
    rw [← hforce]
    exact ⟨rfl, rfl⟩
  · obtain ⟨hwrite, hhigh⟩ := hempty
    have hforce : c.callbacks = s₁.callbacks := by
      rw [hcallbacks]
      generalize s₁.callbacks = callbacks at hwrite hhigh
      cases callbacks
      cases hwrite
      cases hhigh
      rfl
    rw [← hforce]
    exact hsound.served

/-- A server on which only the message callback was set. -/
theorem the_user_is_served_without_the_two_callbacks :
    ∃ (s : CallbackServer Nat) (c : CallbackConnection Nat), s.connections[0]? = some c ∧
      c.Served (lastSet 1 2 [.setMessageCallback (some 3)]) := by
  have hbefore : (machine 1 2).Run (construct 1 2) [.setMessageCallback (some 3)] _ :=
    .snoc .nil rfl
  obtain ⟨c, hc, hserved, _⟩ := the_user_is_served_iff_two_callbacks_are_empty 1 2 _ [] 5 _ _ _
    hbefore rfl .nil
  exact ⟨_, c, hc, hserved.mpr ⟨rfl, rfl⟩⟩

/-- A write-complete callback is set, a connection is accepted, the socket takes one of
two bytes, and the other drains. The callback is not queued. -/
theorem a_drain_does_not_run_the_callback_of_the_user :
    ∃ (s : CallbackServer Nat) (c c' : CallbackConnection Nat),
      (machine 1 2).Run (construct 1 2) [.setWriteCompleteCallback (some 3), .newConnection 5,
        .step 0 .established, .step 0 (.sendInLoop TcpConnection.twoBytes (.wrote 1))] s ∧
      s.connections[0]? = some c ∧ c.step (.handleWrite (.wrote 1)) = .ok c' ∧
      c.conn.unsent = [8] ∧ c'.conn.unsent = [] ∧ c'.pendingFunctors_ = [] ∧
      ¬ c.Served (lastSet 1 2 [.setWriteCompleteCallback (some 3)]) := by
  obtain ⟨⟨s, c, c'⟩, hok, hp⟩ := exists_of_passes
    (x := (do
      let s ← [.setWriteCompleteCallback (some 3), .newConnection 5, .step 0 .established,
        .step 0 (.sendInLoop TcpConnection.twoBytes (.wrote 1))].foldlM Op.run
          (construct 1 2 : CallbackServer Nat)
      let c ← demand .badPointer s.connections[0]?
      let c' ← c.step (.handleWrite (.wrote 1))
      pure (s, c, c')))
    (p := fun (_, c, c') => c.conn.unsent == [8] && c'.conn.unsent == [] &&
      c'.pendingFunctors_ == [] && c.callbacks.writeCompleteCallback_ == none)
    (by decide +kernel)
  simp only [bind_eq_ok, demand_eq_ok, pure_eq_ok, Except.ok.injEq, Prod.mk.injEq] at hok
  obtain ⟨_, hrun, _, hc, _, hstep, rfl, rfl, rfl⟩ := hok
  simp only [Bool.and_eq_true, beq_iff_eq] at hp
  obtain ⟨⟨⟨hwaits, hdrained⟩, hnone⟩, hempty⟩ := hp
  refine ⟨_, _, _, .of_foldlM (fun _ _ _ hok => hok) hrun, hc, hstep, hwaits, hdrained, hnone, ?_⟩
  intro hserved
  have hforce := congrArg UserCallbacks.writeCompleteCallback_ hserved.inForce
  rw [hempty] at hforce
  cases hforce

end CallbackServer

end jmuduo.net
