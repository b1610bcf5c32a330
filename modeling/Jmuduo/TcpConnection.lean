-- A connection (TcpConnection.h): its state, its buffers, and what its
-- calls hand to the socket and tell the user.
import Jmuduo.Buffer
import Jmuduo.Channel

open outcome

namespace jmuduo.net

/-! ## What a connection is given -/

/-- The bytes of one `send`. Their number is an `int`. -/
structure Message where
  bytes : List Byte
  short : bytes.length < 2 ^ 31
  deriving DecidableEq, Repr

def EPIPE : Nat := 32

/-- What `write(2)` does: it takes some of the bytes, or it fails. -/
inductive WriteResult
  | wrote (n : Nat)
  | failed (errno : Nat)
  deriving DecidableEq, Repr

namespace WriteResult

/-- The bytes that the call takes, never more than it is given. -/
def taken (w : WriteResult) (bytes : List Byte) : List Byte :=
  match w with
  | .wrote n => bytes.take n
  | .failed _ => []

/-- The return value. -/
def value (w : WriteResult) (bytes : List Byte) : Int :=
  match w with
  | .wrote n => (bytes.take n).length
  | .failed _ => -1

/-- `errno` after the call. Only a failure sets it. -/
def errno : WriteResult → Nat
  | .wrote _ => 0
  | .failed e => e

/-- A call that does not fail returns the number of the bytes it takes,
which are the first ones. -/
theorem value_cases (w : WriteResult) (bytes : List Byte) :
    (∃ rest, bytes = w.taken bytes ++ rest ∧ w.value bytes = (w.taken bytes).length) ∨
    (w.value bytes = -1 ∧ w.taken bytes = []) := by
  cases w with
  | wrote n => exact Or.inl ⟨bytes.drop n, (List.take_append_drop n bytes).symm, rfl⟩
  | failed e => exact Or.inr ⟨rfl, rfl⟩

end WriteResult

/-- What one call or functor does that others can see. `send` is a message
that `sendInLoop` took, and `shutdownWrite` carries the bytes that were
still unsent. -/
inductive Event
  | send (bytes : List Byte)
  | write (bytes : List Byte)
  | shutdown
  | shutdownWrite (unsent : List Byte)
  | queueWriteComplete
  | queueHighWaterMark (len : Int)
  | connectionCallback (connected : Bool)
  | messageCallback
  | closeCallback
  | remove
  deriving DecidableEq, Repr

/-! ## The connection of the source -/

inductive StateE
  | kConnecting
  | kConnected
  | kDisconnected
  | kDisconnecting
  deriving DecidableEq, Repr

/-- The two callbacks that need not be set are given by whether they are.
`trace` is what the connection did so far. -/
structure TcpConnection where
  state_ : StateE
  channel_ : Channel
  highWaterMark_ : Nat
  inputBuffer_ : Buffer
  outputBuffer_ : Buffer
  writeCompleteCallback_ : Bool
  highWaterMarkCallback_ : Bool
  trace : List Event
  deriving DecidableEq, Repr

/-- What a user callback does with its connection. -/
inductive Call
  | send (message : Message) (w : WriteResult)
  | shutdown
  | retrieve (len : Nat)
  deriving DecidableEq, Repr

/-- What one dispatch meets: the results of the system calls, what the user
callbacks do, and whether `closeCallback_` destroys the connection at once. -/
structure Reply where
  read : ReadResult
  onMessage : List Call
  onDown : List Call
  destroys : Bool
  write : WriteResult
  deriving DecidableEq, Repr

namespace TcpConnection

def log (c : TcpConnection) (es : List Event) : TcpConnection := { c with trace := c.trace ++ es }

/-- The constructor, with the callbacks that the user sets after it. -/
def construct (sockfd : Int) (writeComplete highWaterMark : Bool) : TcpConnection where
  state_ := .kConnecting
  channel_ := Channel.construct sockfd
  highWaterMark_ := 64 * 1024 * 1024
  inputBuffer_ := Buffer.construct kInitialSize
  outputBuffer_ := Buffer.construct kInitialSize
  writeCompleteCallback_ := writeComplete
  highWaterMarkCallback_ := highWaterMark
  trace := []

def connected (c : TcpConnection) : Bool := c.state_ = .kConnected

/-- `queueInLoop` of the write-complete callback, when it is set. -/
def queueWriteComplete (c : TcpConnection) : TcpConnection :=
  if c.writeCompleteCallback_ then c.log [.queueWriteComplete] else c

/-- `queueInLoop` of the high-water callback, when the mark is crossed. -/
def queueHighWaterMark (oldlen len : Int) (c : TcpConnection) : TcpConnection :=
  if toSize len ≥ c.highWaterMark_ ∧ toSize oldlen < c.highWaterMark_ ∧
      c.highWaterMarkCallback_ then
    c.log [.queueHighWaterMark len]
  else c

/-! ## Sending and shutting down -/

/-- The part of `sendInLoop` after the direct write. -/
def sendRest (message : Message) (nwrote remaining : Int) (c : TcpConnection) :
    Outcome TcpConnection := do
  check "nwrote>=0" (nwrote ≥ 0)
  let c := c.log [.send message.bytes]
  if remaining > 0 then
    let oldlen := toInt c.outputBuffer_.readableBytes
    let len ← intAdd oldlen remaining
    let c := c.queueHighWaterMark oldlen len
    let out ← c.outputBuffer_.append (message.bytes.drop nwrote.toNat)
    let c := { c with outputBuffer_ := out }
    pure (if !c.channel_.isWriting then { c with channel_ := c.channel_.enableWriting } else c)
  else pure c

def sendInLoop (message : Message) (w : WriteResult) (c : TcpConnection) :
    Outcome TcpConnection :=
  let len : Int := message.bytes.length
  if !c.channel_.isWriting && c.outputBuffer_.readableBytes == 0 then
    let nwrote := w.value message.bytes
    let remaining := toInt (len - nwrote)
    let c := c.log [.write (w.taken message.bytes)]
    if nwrote ≥ 0 then
      sendRest message nwrote remaining (if remaining = 0 then c.queueWriteComplete else c)
    else if w.errno = EPIPE then pure c
    else sendRest message nwrote remaining c
  else sendRest message 0 len c

/-- `send` on the loop thread. -/
def send (message : Message) (w : WriteResult) (c : TcpConnection) : Outcome TcpConnection :=
  if c.state_ = .kConnected then sendInLoop message w c else pure c

def shutdownInLoop (c : TcpConnection) : TcpConnection :=
  if !c.channel_.isWriting then c.log [.shutdownWrite c.outputBuffer_.contents] else c

/-- `shutdown` on the loop thread, where `runInLoop` runs at once. -/
def shutdown (c : TcpConnection) : TcpConnection :=
  if c.state_ = .kConnected then
    { c with state_ := .kDisconnecting }.log [.shutdown] |>.shutdownInLoop
  else c

/-! ## The user callbacks -/

def runCall (c : TcpConnection) : Call → Outcome TcpConnection
  | .send message w => c.send message w
  | .shutdown => pure c.shutdown
  | .retrieve len => pure { c with inputBuffer_ := c.inputBuffer_.retrieve len }

def connectionCallback (calls : List Call) (c : TcpConnection) : Outcome TcpConnection :=
  calls.foldlM runCall (c.log [.connectionCallback c.connected])

def messageCallback (calls : List Call) (c : TcpConnection) : Outcome TcpConnection :=
  calls.foldlM runCall (c.log [.messageCallback])

/-! ## The functions that the loop calls -/

/-- The state that `connectEstablished` hands to `connectionCallback_`. -/
def established (c : TcpConnection) : TcpConnection :=
  { c with state_ := .kConnected, channel_ := c.channel_.tie.enableReading }

/-- The state that `handleClose` hands to `connectionCallback_`. -/
def down (c : TcpConnection) : TcpConnection :=
  { c with state_ := .kDisconnected, channel_ := c.channel_.disableAll }

def connectEstablished (onUp : List Call) (c : TcpConnection) : Outcome TcpConnection :=
  c.established.connectionCallback onUp

/-- The part of `connectDestroy` before the channel is removed. -/
def disconnect (onDown : List Call) (c : TcpConnection) : Outcome TcpConnection :=
  if c.state_ = .kConnected then c.down.connectionCallback onDown else pure c

def connectDestroy (onDown : List Call) (c : TcpConnection) : Outcome TcpConnection := do
  let c ← c.disconnect onDown
  check "isNoneEvent()" c.channel_.isNoneEvent
  pure (c.log [.remove])

/-- `closeCallback_` is `TcpServer::removeConnection`. Where the server and
the connection share their loop, it runs `connectDestroy` at once. -/
def closeCallback (destroys : Bool) (c : TcpConnection) : Outcome TcpConnection :=
  let c := c.log [.closeCallback]
  if destroys then c.connectDestroy [] else pure c

def handleClose (r : Reply) (c : TcpConnection) : Outcome TcpConnection := do
  check "state_ == kConnected || state_ == kDisconnecting"
    (c.state_ = .kConnected ∨ c.state_ = .kDisconnecting)
  let c ← c.down.connectionCallback r.onDown
  closeCallback r.destroys c

def handleError (c : TcpConnection) : Outcome TcpConnection := pure c

def handleRead (r : Reply) (c : TcpConnection) : Outcome TcpConnection := do
  let (input, n, _) ← c.inputBuffer_.readFd 0 r.read
  let c := { c with inputBuffer_ := input }
  if n > 0 then messageCallback r.onMessage c
  else if n = 0 then handleClose r c
  else handleError c

/-- The branch of `handleWrite` where the buffer became empty. -/
def drained (c : TcpConnection) : TcpConnection :=
  let c := { c with channel_ := c.channel_.disableWriting }.queueWriteComplete
  if c.state_ = .kDisconnecting then c.shutdownInLoop else c

def handleWrite (w : WriteResult) (c : TcpConnection) : Outcome TcpConnection :=
  if c.channel_.isWriting then
    let n := w.value c.outputBuffer_.contents
    let c := c.log [.write (w.taken c.outputBuffer_.contents)]
    if n > 0 then
      let c := { c with outputBuffer_ := c.outputBuffer_.retrieve n.toNat }
      if c.outputBuffer_.readableBytes = 0 then pure c.drained else pure c
    else pure c
  else pure c

/-- The callbacks that the constructor gives to the channel. -/
def callbacks (r : Reply) : Channel.Callbacks TcpConnection where
  readCallback_ := some (handleRead r)
  writeCallback_ := some (handleWrite r.write)
  errorCallback_ := some handleError
  closeCallback_ := some (handleClose r)

/-- One dispatch of the loop to the channel of the connection. -/
def handleEvent (alive : Bool) (revents : Mask) (r : Reply) (c : TcpConnection) :
    Outcome TcpConnection :=
  Channel.handleEvent (callbacks r) c.channel_.tied_ alive revents
    { c with channel_ := { c.channel_ with revents_ := revents } }

/-! ## The specs of the sends -/

/-- The bytes that wait for the socket. -/
def unsent (c : TcpConnection) : List Byte := c.outputBuffer_.contents

/-- The channel after `rest` joined the unsent bytes. -/
def waiting (c : TcpConnection) (rest : List Byte) : Channel :=
  if rest ≠ [] ∧ c.channel_.isWriting = false then c.channel_.enableWriting else c.channel_

/-- The notice of a write that left `rest`. -/
def completion (c : TcpConnection) (rest : List Byte) : List Event :=
  if rest = [] ∧ c.writeCompleteCallback_ then [.queueWriteComplete] else []

/-- The notice that `rest` carries the unsent bytes over the mark. -/
def crossing (c : TcpConnection) (rest : List Byte) : List Event :=
  let oldlen := toInt c.outputBuffer_.readableBytes
  if rest ≠ [] ∧ toSize (oldlen + rest.length) ≥ c.highWaterMark_ ∧
      toSize oldlen < c.highWaterMark_ ∧ c.highWaterMarkCallback_ then
    [.queueHighWaterMark (oldlen + rest.length)]
  else []

@[simp] theorem log_nil (c : TcpConnection) : c.log [] = c := by
  simp [log]

@[simp] theorem log_log (c : TcpConnection) (es es' : List Event) :
    (c.log es).log es' = c.log (es ++ es') := by
  simp [log]

theorem queueWriteComplete_eq (c : TcpConnection) :
    c.queueWriteComplete = c.log (c.completion []) := by
  unfold queueWriteComplete completion
  split <;> simp_all

theorem queueHighWaterMark_eq (c : TcpConnection) {rest : List Byte} (hrest : rest ≠ []) :
    c.queueHighWaterMark (toInt c.outputBuffer_.readableBytes)
      (toInt c.outputBuffer_.readableBytes + rest.length) = c.log (c.crossing rest) := by
  unfold queueHighWaterMark crossing
  split
  · rename_i h
    rw [if_pos ⟨hrest, h⟩]
  · rename_i h
    rw [if_neg fun hc => h hc.2, log_nil]

/-- The rest of a message joins the unsent bytes. -/
theorem sendRest.spec {c c' : TcpConnection} {message : Message} {done rest : List Byte}
    (h : c.outputBuffer_.Inv) (hm : message.bytes = done ++ rest)
    (hok : sendRest message done.length rest.length c = .ok c') :
    ∃ out : Buffer, out.Inv ∧ out.contents = c.unsent ++ rest ∧
      c' = { c with
        outputBuffer_ := out, channel_ := c.waiting rest,
        trace := c.trace ++ .send message.bytes :: c.crossing rest } := by
  have hshort := message.short
  rw [hm, List.length_append] at hshort
  unfold sendRest at hok
  rw [check_of (by omega), ok_bind] at hok
  by_cases hrest : rest = []
  · subst hrest
    simp only [List.length_nil, Int.natCast_zero, gt_iff_lt, Int.lt_irrefl, if_false] at hok
    cases hok
    exact ⟨c.outputBuffer_, h, by simp [unsent], by simp [waiting, crossing, log]⟩
  · have hpos : 0 < rest.length := List.length_pos_iff.mpr hrest
    rw [if_pos (by omega), bind_eq_ok] at hok
    obtain ⟨len, hlen, hok⟩ := hok
    have hdrop : message.bytes.drop (done.length : Int).toNat = rest := by
      rw [hm, Int.toNat_natCast, List.drop_left]
    have hmark : (c.log [.send message.bytes]).queueHighWaterMark
        (toInt (c.log [.send message.bytes]).outputBuffer_.readableBytes) len =
        c.log (.send message.bytes :: c.crossing rest) := by
      rw [intAdd_eq_ok hlen, queueHighWaterMark_eq _ hrest, log_log]
      rfl
    rw [hmark, hdrop, bind_eq_ok] at hok
    obtain ⟨out, hout, hok⟩ := hok
    obtain ⟨hi, hcon, hge, _⟩ := Buffer.append.spec h.ordered (by omega) hout
    refine ⟨out, h.of_ordered hi hge, hcon, ?_⟩
    cases hok
    by_cases hw : c.channel_.isWriting = true
    · simp [waiting, log, hw]
    · simp [waiting, log, hw, hrest]

/-- `sendInLoop` makes a direct write. -/
def WritesDirectly (c : TcpConnection) : Prop :=
  c.channel_.isWriting = false ∧ c.outputBuffer_.readableBytes = 0

instance (c : TcpConnection) : Decidable c.WritesDirectly := inferInstanceAs (Decidable (_ ∧ _))

/-- The bytes that a send leaves for the output buffer: those that a direct
write did not take, or the whole message. -/
def Leaves (c : TcpConnection) (message : Message) (w : WriteResult) (rest : List Byte) : Prop :=
  c.WritesDirectly ∧ w.value message.bytes ≥ 0 ∧ message.bytes = w.taken message.bytes ++ rest ∨
    ¬ c.WritesDirectly ∧ rest = message.bytes

/-- A direct write of `done` that left `rest`, or none. -/
def Wrote (c : TcpConnection) (done rest : List Byte) (es : List Event) : Prop :=
  c.WritesDirectly ∧ es = .write done :: c.completion rest ∨
    ¬ c.WritesDirectly ∧ done = [] ∧ es = []

/-- A send whose write does not fail is a `sendRest` of what it leaves. -/
theorem Leaves.sendInLoop_eq {c : TcpConnection} {message : Message} {w : WriteResult}
    {rest : List Byte} (hl : c.Leaves message w rest) :
    ∃ done es, message.bytes = done ++ rest ∧ c.Wrote done rest es ∧
      c.sendInLoop message w = sendRest message done.length rest.length (c.log es) := by
  have hshort := message.short
  unfold sendInLoop
  rcases hl with ⟨hdirect, hn, hm⟩ | ⟨hno, rfl⟩
  · have hv : w.value message.bytes = (w.taken message.bytes).length := by
      rcases w.value_cases message.bytes with ⟨_, _, hv⟩ | ⟨hv, _⟩
      · exact hv
      · omega
    have hlen := congrArg List.length hm
    rw [List.length_append] at hlen
    have hrem : toInt (message.bytes.length - w.value message.bytes) = rest.length := by
      rw [hv, toInt_eq (by omega) (by omega)]
      omega
    have hzero : (rest.length : Int) = 0 ↔ rest = [] := by
      rw [← List.length_eq_zero_iff]
      omega
    have hnote : (if (rest.length : Int) = 0 then
        (c.log [.write (w.taken message.bytes)]).queueWriteComplete
        else c.log [.write (w.taken message.bytes)]) =
        c.log (.write (w.taken message.bytes) :: c.completion rest) := by
      by_cases hrest : rest = []
      · rw [if_pos (hzero.mpr hrest), queueWriteComplete_eq, log_log, hrest]
        rfl
      · rw [if_neg (fun e => hrest (hzero.mp e)), completion, if_neg fun e => hrest e.1]
    refine ⟨w.taken message.bytes, _, hm, Or.inl ⟨hdirect, rfl⟩, ?_⟩
    simp only [hdirect.1, hdirect.2, Bool.not_false, beq_self_eq_true, Bool.and_self, if_true]
    rw [if_pos hn, hrem, hnote, hv]
  · have hcond : (!c.channel_.isWriting && c.outputBuffer_.readableBytes == 0) = false := by
      rw [← Bool.not_eq_true]
      intro hc
      simp only [Bool.and_eq_true, Bool.not_eq_true', beq_iff_eq] at hc
      exact hno hc
    refine ⟨[], [], (List.nil_append _).symm, Or.inr ⟨hno, rfl, rfl⟩, ?_⟩
    simp only [hcond, Bool.false_eq_true, if_false, log_nil, List.length_nil, Int.natCast_zero]

/-- The outcome of a direct write that fails. -/
theorem sendInLoop_failed {c : TcpConnection} (h : c.WritesDirectly) (message : Message)
    (errno : Nat) :
    c.sendInLoop message (.failed errno) =
      if errno = EPIPE then .ok (c.log [.write []]) else .error (.assertion "nwrote>=0") := by
  obtain ⟨hw, hr⟩ := h
  have hneg : ¬ (WriteResult.failed errno).value message.bytes ≥ 0 := by
    show ¬ (-1 : Int) ≥ 0
    omega
  unfold sendInLoop
  simp only [hw, hr, Bool.not_false, beq_self_eq_true, Bool.and_self, if_true]
  rw [if_neg hneg]
  by_cases he : errno = EPIPE
  · rw [if_pos (show (WriteResult.failed errno).errno = EPIPE from he), if_pos he]
    rfl
  · rw [if_neg (show ¬ (WriteResult.failed errno).errno = EPIPE from he), if_neg he]
    unfold sendRest
    rw [check_eq_error.mpr ⟨hneg, rfl⟩]
    rfl

/-- `sendInLoop` makes a direct write, and returns at its `EPIPE`. -/
def TakesEpipe (w : WriteResult) (c : TcpConnection) : Prop :=
  c.channel_.isWriting = false ∧ c.outputBuffer_.readableBytes = 0 ∧ w = .failed EPIPE

instance (w : WriteResult) (c : TcpConnection) : Decidable (c.TakesEpipe w) :=
  inferInstanceAs (Decidable (_ ∧ _ ∧ _))

/-- A send that returns leaves some bytes or none, or returned at an `EPIPE`. -/
theorem sendInLoop_leaves {c c' : TcpConnection} {message : Message} {w : WriteResult}
    (hok : c.sendInLoop message w = .ok c') :
    (c.TakesEpipe w ∧ c' = c.log [.write []]) ∨
      ¬ c.TakesEpipe w ∧ ∃ rest, c.Leaves message w rest := by
  by_cases hdirect : c.WritesDirectly
  · cases w with
    | wrote n =>
      refine Or.inr ⟨?_, message.bytes.drop n, Or.inl ⟨hdirect, ?_, ?_⟩⟩
      · intro he
        cases he.2.2
      · show ((message.bytes.take n).length : Int) ≥ 0
        omega
      · exact (List.take_append_drop n message.bytes).symm
    | failed errno =>
      rw [sendInLoop_failed hdirect] at hok
      split at hok
      · rename_i he
        cases hok
        exact Or.inl ⟨⟨hdirect.1, hdirect.2, by rw [he]⟩, rfl⟩
      · cases hok
  · exact Or.inr ⟨fun he => hdirect ⟨he.1, he.2.1⟩, _, Or.inr ⟨hdirect, rfl⟩⟩

/-- What a send does with the bytes that it leaves. -/
theorem Leaves.spec {c c' : TcpConnection} {message : Message} {w : WriteResult}
    {rest : List Byte} (h : c.outputBuffer_.Inv) (hl : c.Leaves message w rest)
    (hok : c.sendInLoop message w = .ok c') :
    ∃ done es, ∃ out : Buffer, message.bytes = done ++ rest ∧ c.Wrote done rest es ∧
      out.Inv ∧ out.contents = c.unsent ++ rest ∧
      c' = { c with
        outputBuffer_ := out, channel_ := c.waiting rest,
        trace := c.trace ++ (es ++ .send message.bytes :: c.crossing rest) } := by
  obtain ⟨done, es, hm, hes, heq⟩ := hl.sendInLoop_eq
  rw [heq] at hok
  obtain ⟨out, hi, hcon, rfl⟩ := sendRest.spec (by exact h) hm hok
  refine ⟨done, es, out, hm, hes, hi, hcon, ?_⟩
  simp only [log, List.append_assoc]
  rfl

/-- All that `sendInLoop` can do: drop the message at an `EPIPE`, or take
it, after a direct write where nothing waits. -/
theorem sendInLoop.spec {c c' : TcpConnection} {message : Message} {w : WriteResult}
    (h : c.outputBuffer_.Inv) (hok : c.sendInLoop message w = .ok c') :
    (c.TakesEpipe w ∧ c' = c.log [.write []]) ∨
    ¬ c.TakesEpipe w ∧
    ∃ done rest es, ∃ out : Buffer, message.bytes = done ++ rest ∧
      (c.channel_.isWriting = false ∧ c.unsent = [] ∧ es = .write done :: c.completion rest ∨
        (c.channel_.isWriting = true ∨ c.unsent ≠ []) ∧ done = [] ∧ es = []) ∧
      out.Inv ∧ out.contents = c.unsent ++ rest ∧
      c' = { c with
        outputBuffer_ := out, channel_ := c.waiting rest,
        trace := c.trace ++ (es ++ .send message.bytes :: c.crossing rest) } := by
  have hempty := h.contents_eq_nil
  rcases sendInLoop_leaves hok with hepipe | ⟨hepipe, rest, hl⟩
  · exact Or.inl hepipe
  · obtain ⟨done, es, out, hm, hes, hout⟩ := hl.spec h hok
    refine Or.inr ⟨hepipe, done, rest, es, out, hm, ?_, hout⟩
    rcases hes with ⟨⟨hw, hr⟩, e⟩ | ⟨hno, hnone⟩
    · exact Or.inl ⟨hw, hempty.mpr hr, e⟩
    · refine Or.inr ⟨?_, hnone⟩
      by_cases hw : c.channel_.isWriting = true
      · exact Or.inl hw
      · exact Or.inr fun hu => hno ⟨by simpa using hw, hempty.mp hu⟩

/-- What `sendInLoop` can do, whatever the write was. -/
theorem sendInLoop_cases {c c' : TcpConnection} {message : Message} {w : WriteResult}
    (h : c.outputBuffer_.Inv) (hok : c.sendInLoop message w = .ok c') :
    (c.channel_.isWriting = false ∧ c.unsent = [] ∧ c' = c.log [.write []]) ∨
    ∃ done rest es, ∃ out : Buffer, message.bytes = done ++ rest ∧
      (c.channel_.isWriting = false ∧ c.unsent = [] ∧ es = .write done :: c.completion rest ∨
        (c.channel_.isWriting = true ∨ c.unsent ≠ []) ∧ done = [] ∧ es = []) ∧
      out.Inv ∧ out.contents = c.unsent ++ rest ∧
      c' = { c with
        outputBuffer_ := out, channel_ := c.waiting rest,
        trace := c.trace ++ (es ++ .send message.bytes :: c.crossing rest) } := by
  rcases sendInLoop.spec h hok with ⟨⟨hw, hr, _⟩, e⟩ | ⟨_, htaken⟩
  · exact Or.inl ⟨hw, h.contents_eq_nil.mpr hr, e⟩
  · exact Or.inr htaken

/-! ## The specs of the half-close and of the drain -/

theorem shutdown_cases (c : TcpConnection) :
    (c.state_ ≠ .kConnected ∧ c.shutdown = c) ∨
    (c.state_ = .kConnected ∧ c.channel_.isWriting = true ∧
      c.shutdown = { c with state_ := .kDisconnecting, trace := c.trace ++ [.shutdown] }) ∨
    (c.state_ = .kConnected ∧ c.channel_.isWriting = false ∧
      c.shutdown = { c with
        state_ := .kDisconnecting, trace := c.trace ++ [.shutdown, .shutdownWrite c.unsent] }) := by
  unfold shutdown
  split
  · rename_i hs
    by_cases hw : c.channel_.isWriting = true
    · exact Or.inr (Or.inl ⟨hs, hw, by simp [shutdownInLoop, log, hw]⟩)
    · exact Or.inr (Or.inr ⟨hs, by simpa using hw, by simp [shutdownInLoop, log, hw, unsent]⟩)
  · rename_i hs
    exact Or.inl ⟨hs, rfl⟩

/-- The half-close that a drain owes. -/
def halfClose (c : TcpConnection) : List Event :=
  if c.state_ = .kDisconnecting then [.shutdownWrite []] else []

theorem drained_eq {c : TcpConnection} (h : c.unsent = []) :
    c.drained = { c with
      channel_ := c.channel_.disableWriting,
      trace := c.trace ++ (c.completion [] ++ c.halfClose) } := by
  unfold drained
  rw [queueWriteComplete_eq]
  unfold halfClose
  by_cases hs : c.state_ = .kDisconnecting
  · have hcon : c.outputBuffer_.contents = [] := h
    simp [log, hs, shutdownInLoop, hcon, completion]
  · simp [log, hs, completion]

/-- All that `handleWrite` can do: nothing, a write that takes no byte, a
write that takes some, or a write that takes the last ones. -/
theorem handleWrite.spec {c c' : TcpConnection} {w : WriteResult} (h : c.outputBuffer_.Inv)
    (hok : c.handleWrite w = .ok c') :
    (c.channel_.isWriting = false ∧ c' = c) ∨
    (c.channel_.isWriting = true ∧ w.taken c.unsent = [] ∧ c' = c.log [.write []]) ∨
    ∃ rest, ∃ out : Buffer, c.channel_.isWriting = true ∧ c.unsent = w.taken c.unsent ++ rest ∧
      w.taken c.unsent ≠ [] ∧ out.Inv ∧ out.contents = rest ∧
      (rest ≠ [] ∧ c' = { c with
          outputBuffer_ := out, trace := c.trace ++ [.write (w.taken c.unsent)] } ∨
        rest = [] ∧ c' = { c with
          outputBuffer_ := out, channel_ := c.channel_.disableWriting,
          trace := c.trace ++ .write (w.taken c.unsent) :: (c.completion [] ++ c.halfClose) }) := by
  unfold handleWrite at hok
  by_cases hw : c.channel_.isWriting = true
  · rw [if_pos hw] at hok
    rcases w.value_cases c.outputBuffer_.contents with ⟨rest, hm, hv⟩ | ⟨hv, ht⟩
    · by_cases hdone : w.taken c.outputBuffer_.contents = []
      · simp only [hv, hdone, List.length_nil, Int.natCast_zero, gt_iff_lt, Int.lt_irrefl,
          if_false] at hok
        cases hok
        exact Or.inr (Or.inl ⟨hw, hdone, rfl⟩)
      · have hpos : 0 < (w.taken c.outputBuffer_.contents).length := List.length_pos_iff.mpr hdone
        obtain ⟨hi, hcon⟩ := Buffer.retrieve.spec h (w.taken c.outputBuffer_.contents).length
        have hdrop := congrArg (List.drop (w.taken c.outputBuffer_.contents).length) hm
        rw [List.drop_left, ← hcon] at hdrop
        have hzero := hi.contents_eq_nil
        rw [hdrop] at hzero
        refine Or.inr (Or.inr ⟨rest, _, hw, hm, hdone, hi, hdrop, ?_⟩)
        simp only [hv, Int.toNat_natCast] at hok
        rw [if_pos (by omega)] at hok
        by_cases hr : rest = []
        · rw [drained_eq (by exact hdrop.trans hr)] at hok
          simp only [log, hzero.mp hr, if_true] at hok
          cases hok
          refine Or.inr ⟨hr, ?_⟩
          simp [completion, halfClose, unsent]
        · simp only [log, mt hzero.mpr hr, if_false] at hok
          cases hok
          exact Or.inl ⟨hr, rfl⟩
    · simp only [hv, ht] at hok
      cases hok
      exact Or.inr (Or.inl ⟨hw, ht, rfl⟩)
  · rw [if_neg hw] at hok
    cases hok
    exact Or.inl ⟨by simpa using hw, rfl⟩

/-- What `handleWrite` can do, whatever the write was. -/
theorem handleWrite_cases {c c' : TcpConnection} {w : WriteResult} (h : c.outputBuffer_.Inv)
    (hok : c.handleWrite w = .ok c') :
    (c.channel_.isWriting = false ∧ c' = c) ∨
    (c.channel_.isWriting = true ∧ c' = c.log [.write []]) ∨
    ∃ done rest, ∃ out : Buffer, c.channel_.isWriting = true ∧ c.unsent = done ++ rest ∧
      done ≠ [] ∧ out.Inv ∧ out.contents = rest ∧
      (rest ≠ [] ∧ c' = { c with outputBuffer_ := out, trace := c.trace ++ [.write done] } ∨
        rest = [] ∧ c' = { c with
          outputBuffer_ := out, channel_ := c.channel_.disableWriting,
          trace := c.trace ++ .write done :: (c.completion [] ++ c.halfClose) }) := by
  rcases handleWrite.spec h hok with hidle | ⟨hw, _, e⟩ | ⟨rest, out, hall⟩
  · exact Or.inl hidle
  · exact Or.inr (Or.inl ⟨hw, e⟩)
  · exact Or.inr (Or.inr ⟨_, rest, out, hall⟩)

end TcpConnection

end jmuduo.net
