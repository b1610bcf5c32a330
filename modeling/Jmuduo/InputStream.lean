-- The input of a connection (TcpConnection.cc): no byte of the peer is lost,
-- doubled or reordered on the way to the user, who is told of every read, and
-- the connection goes down only behind the last byte of its peer.
import Jmuduo.ConnectionCallbacks

open outcome runs

namespace jmuduo.net

/-! ## The peer -/

/-- The bytes that a read moves into the buffer. -/
def ReadResult.taken (r : ReadResult) (b : Buffer) : List Byte :=
  match r with
  | .delivered bytes => bytes.take b.room
  | .failed _ => []

/-- A connection, what its peer sent so far, how much of it the connection
has read, and whether the peer is done. -/
structure PeeredConnection where
  conn : TcpConnection
  sent : List Byte
  read : Nat
  finished : Bool
  deriving DecidableEq, Repr

namespace PeeredConnection

open TcpConnection

/-- What the socket holds for the next reads. -/
def unread (s : PeeredConnection) : List Byte := s.sent.drop s.read

/-- What the user took out of `inputBuffer_`. -/
def taken (s : PeeredConnection) : List Byte :=
  s.sent.take (s.read - s.conn.inputBuffer_.contents.length)

/-- The peer has sent its last byte, and the connection has read it. -/
def Ended (s : PeeredConnection) : Prop := s.finished = true ∧ s.unread = []

/-- The bytes that a call reads. Only a dispatch reads, and not where the
object is gone. -/
def reads (s : PeeredConnection) : Op → List Byte
  | .handleEvent alive revents r =>
    if (!s.conn.channel_.tied_ || alive) && TcpConnection.reads revents then
      r.read.taken s.conn.inputBuffer_
    else []
  | _ => []

inductive Act
  | send (bytes : List Byte)
  | finish
  | call (op : Op)
  deriving DecidableEq, Repr

def Act.run (s : PeeredConnection) : Act → Outcome PeeredConnection
  | .send bytes => pure { s with sent := s.sent ++ bytes }
  | .finish => pure { s with finished := true }
  | .call op => do
    let conn ← op.run s.conn
    pure { s with conn := conn, read := s.read + (s.reads op).length }

/-- The kernel reports a hang-up without `POLLIN`, and delivers no byte, only
behind the last byte of the peer. Otherwise it delivers the next bytes. -/
def Delivers (s : PeeredConnection) : Op → Prop
  | .handleEvent _ revents r =>
    (hangsUp revents = true → s.Ended) ∧
    ∀ bytes, r.read = .delivered bytes → bytes <+: s.unread ∧ (bytes = [] → s.Ended)
  | _ => True

def Act.Enabled (s : PeeredConnection) : Act → Prop
  | .send _ | .finish => s.finished = false
  | .call op => op.Serves ∧ s.Delivers op

/-- A connection that is established, and a peer that has yet to send. -/
def machine : Machine PeeredConnection Act where
  init s := ∃ conn, serving.init conn ∧ s = ⟨conn, [], 0, false⟩
  step s a s' := a.Enabled s ∧ a.run s = .ok s'

/-! ## What the functions leave of the input -/

/-- The calls of the user callbacks that a call runs. -/
def Act.userCalls : Act → List Call
  | .call (.connectEstablished calls) | .call (.connectDestroy calls) => calls
  | .call (.handleRead r) | .call (.handleClose r) | .call (.handleEvent _ _ r) =>
    r.onMessage ++ r.onDown
  | _ => []

/-- The user takes nothing out of the buffer. -/
def LeavesInput (calls : List Call) : Prop := ∀ len, Call.retrieve len ∉ calls

/-- The buffer holds the end of `base`, and all of it where the user of a
`quiet` call takes nothing. -/
structure Holds (quiet : Prop) (base : List Byte) (c : TcpConnection) : Prop where
  sound : c.Sound
  part : c.inputBuffer_.contents <:+ base
  all : quiet → c.inputBuffer_.contents = base

section

variable {quiet : Prop} {base : List Byte} {c c' : TcpConnection}

/-- A step beside the input. -/
theorem Holds.beside (h : Holds quiet base c) (hs : c'.Sound)
    (he : c'.inputBuffer_ = c.inputBuffer_) : Holds quiet base c' := by
  refine ⟨hs, ?_, ?_⟩
  · rw [he]
    exact h.part
  · rw [he]
    exact h.all

theorem sendInLoop_input {message : Message} {w : WriteResult} (h : c.Sound)
    (hok : c.sendInLoop message w = .ok c') : c'.inputBuffer_ = c.inputBuffer_ := by
  rcases sendInLoop_cases h.streams.out hok with
    ⟨_, _, rfl⟩ | ⟨done, rest, es, out, _, _, _, _, rfl⟩
  · rfl
  · rfl

theorem handleWrite_input {w : WriteResult} (h : c.Sound) (hok : c.handleWrite w = .ok c') :
    c'.inputBuffer_ = c.inputBuffer_ := by
  rcases handleWrite_cases h.streams.out hok with
    ⟨_, rfl⟩ | ⟨_, rfl⟩ | ⟨done, rest, out, _, _, _, _, _, ⟨_, rfl⟩ | ⟨_, rfl⟩⟩ <;> rfl

theorem Holds.handleWrite {w : WriteResult} (h : Holds quiet base c)
    (hok : c.handleWrite w = .ok c') : Holds quiet base c' :=
  h.beside (handleWrite_follows h.sound hok).1 (handleWrite_input h.sound hok)

theorem Holds.runCall {call : Call} (h : Holds quiet base c)
    (hq : quiet → ∀ len, call ≠ .retrieve len) (hok : c.runCall call = .ok c') :
    Holds quiet base c' := by
  have hs := (runCall_follows h.sound hok).1
  cases call with
  | send message w =>
    refine h.beside hs ?_
    simp only [TcpConnection.runCall, TcpConnection.send] at hok
    split at hok
    · exact sendInLoop_input h.sound hok
    · cases hok
      rfl
  | shutdown =>
    refine h.beside hs ?_
    cases hok
    rcases c.shutdown_cases with ⟨_, e⟩ | ⟨_, _, e⟩ | ⟨_, _, e⟩ <;> rw [e]
  | retrieve len =>
    cases hok
    have hrest := (Buffer.retrieve.spec h.sound.input len).2
    refine ⟨hs, ?_, fun hquiet => absurd rfl (hq hquiet len)⟩
    simp only [hrest]
    exact (List.drop_suffix len _).trans h.part

theorem Holds.calls {calls : List Call} (h : Holds quiet base c) (hq : quiet → LeavesInput calls)
    (hok : calls.foldlM TcpConnection.runCall c = .ok c') : Holds quiet base c' := by
  induction calls generalizing c with
  | nil =>
    cases hok
    exact h
  | cons call calls ih =>
    simp only [List.foldlM_cons, bind_eq_ok] at hok
    obtain ⟨c₁, h1, h2⟩ := hok
    have hone : Holds quiet base c₁ := by
      refine h.runCall (fun hquiet len => ?_) h1
      rintro rfl
      exact hq hquiet len List.mem_cons_self
    exact ih hone (fun hquiet len hmem => hq hquiet len (List.mem_cons_of_mem _ hmem)) h2

theorem Holds.log {es : List Event} (h : Holds quiet base c)
    (hes : written es = [] ∧ TcpConnection.sent es = []) : Holds quiet base (c.log es) :=
  h.beside (log_sound h.sound hes) rfl

theorem Holds.down {calls : List Call} (h : Holds quiet base c) (hq : quiet → LeavesInput calls)
    (hok : c.down.connectionCallback calls = .ok c') : Holds quiet base c' := by
  have hdown : Holds quiet base c.down := h.beside (down_sound h.sound) rfl
  exact (hdown.log ⟨rfl, rfl⟩).calls hq hok

theorem Holds.connectDestroy {calls : List Call} (h : Holds quiet base c)
    (hq : quiet → LeavesInput calls) (hok : c.connectDestroy calls = .ok c') :
    Holds quiet base c' := by
  simp only [TcpConnection.connectDestroy, bind_eq_ok, check_eq_ok] at hok
  obtain ⟨c₁, h1, _, _, h2⟩ := hok
  cases h2
  refine Holds.log ?_ ⟨rfl, rfl⟩
  unfold disconnect at h1
  split at h1
  · exact h.down hq h1
  · cases h1
    exact h

theorem Holds.handleClose {r : Reply} (h : Holds quiet base c) (hq : quiet → LeavesInput r.onDown)
    (hok : c.handleClose r = .ok c') : Holds quiet base c' := by
  simp only [TcpConnection.handleClose, bind_eq_ok, check_eq_ok] at hok
  obtain ⟨_, _, c₁, h1, h2⟩ := hok
  have hclosed : Holds quiet base (c₁.log [.closeCallback]) := (h.down hq h1).log ⟨rfl, rfl⟩
  unfold closeCallback at h2
  simp only at h2
  split at h2
  · exact hclosed.connectDestroy (fun _ len hmem => by cases hmem) h2
  · cases h2
    exact hclosed

/-- What a read does, up to the callback: it fails, or it puts what it takes
behind the bytes of the buffer. -/
theorem handleRead_eq {r : Reply} (h : c.Sound) (hok : c.handleRead r = .ok c') :
    (∃ errno, r.read = .failed errno) ∧ c' = c ∨
    ∃ bytes, ∃ b : Buffer, r.read = .delivered bytes ∧
      ({ c with inputBuffer_ := b } : TcpConnection).Sound ∧
      b.contents = c.inputBuffer_.contents ++ r.read.taken c.inputBuffer_ ∧
      (bytes ≠ [] ∧ ({ c with inputBuffer_ := b } : TcpConnection).messageCallback r.onMessage =
          .ok c' ∨
        bytes = [] ∧ ({ c with inputBuffer_ := b } : TcpConnection).handleClose r = .ok c') := by
  unfold TcpConnection.handleRead at hok
  cases hread : r.read with
  | failed errno =>
    simp only [hread, Buffer.readFd, pure_eq_ok, ok_bind] at hok
    cases hok
    exact Or.inl ⟨⟨errno, rfl⟩, rfl⟩
  | delivered bytes =>
    rcases Buffer.readFd_delivered h.input.ordered 0 bytes with ⟨b, hb, hi, hcon, hge⟩ | ⟨_, hb⟩
    · have hin : ({ c with inputBuffer_ := b } : TcpConnection).Sound :=
        ⟨⟨h.streams.out, h.streams.stream, h.streams.waits⟩, h.input.of_ordered hi hge⟩
      have hroom : 0 < c.inputBuffer_.room := by
        have hordered := h.input.ordered
        have hw := hordered.writableBytes_eq
        have hfit := hordered.bounded
        unfold maxSize at hfit
        unfold Buffer.room Buffer.extraSize sizeAdd
        split <;> omega
      have hlen : (bytes.take c.inputBuffer_.room).length = 0 ↔ bytes = [] := by
        rw [List.length_eq_zero_iff, List.take_eq_nil_iff]
        exact or_iff_right (Nat.ne_of_gt hroom)
      refine Or.inr ⟨bytes, b, rfl, hin, hcon, ?_⟩
      simp only [hread, hb, ok_bind] at hok
      split at hok
      · rename_i hn
        exact Or.inl ⟨fun e => by rw [hlen.mpr e] at hn; omega, hok⟩
      · rename_i hn
        have hzero : (bytes.take c.inputBuffer_.room).length = 0 := by omega
        rw [if_pos (by rw [hzero]; rfl)] at hok
        exact Or.inr ⟨hlen.mp hzero, hok⟩
    · simp only [hread, hb, error_bind] at hok
      cases hok

theorem Holds.handleRead {r : Reply} (h : Holds quiet base c)
    (hq : quiet → LeavesInput (r.onMessage ++ r.onDown)) (hok : c.handleRead r = .ok c') :
    Holds quiet (base ++ r.read.taken c.inputBuffer_) c' := by
  rcases handleRead_eq h.sound hok with ⟨⟨errno, e⟩, rfl⟩ | ⟨bytes, b, e, hs, hcon, hrest⟩
  · rw [e]
    unfold ReadResult.taken
    rw [List.append_nil]
    exact h
  · have hin : Holds quiet (base ++ r.read.taken c.inputBuffer_)
        { c with inputBuffer_ := b } := by
      refine ⟨hs, ?_, fun hquiet => ?_⟩
      · simp only [hcon]
        exact List.suffix_append_inj_of_length_eq rfl |>.mpr ⟨h.part, rfl⟩
      · simp only [hcon, h.all hquiet]
    rcases hrest with ⟨_, hm⟩ | ⟨_, hc⟩
    · exact (hin.log ⟨rfl, rfl⟩).calls
        (fun hquiet len hmem => hq hquiet len (List.mem_append_left _ hmem)) hm
    · exact hin.handleClose (fun hquiet len hmem => hq hquiet len (List.mem_append_right _ hmem)) hc

/-- A dispatch puts behind the bytes of the buffer what its read takes. -/
theorem Holds.dispatch {r : Reply} {revents : Mask} (h : Holds quiet base c)
    (hq : quiet → LeavesInput (r.onMessage ++ r.onDown))
    (hnone : hangsUp revents = true → ∀ b, r.read.taken b = [])
    (hok : Channel.handleEventWithGuard (callbacks r) revents c = .ok c') :
    Holds quiet
      (base ++ if TcpConnection.reads revents then r.read.taken c.inputBuffer_ else []) c' := by
  rw [dispatch_eq] at hok
  simp only [bind_eq_ok] at hok
  obtain ⟨c₁, h1, c₂, h2, h3⟩ := hok
  have hclose : Holds quiet base c₁ ∧
      r.read.taken c₁.inputBuffer_ = r.read.taken c.inputBuffer_ := by
    split at h1
    · rename_i hh
      refine ⟨h.handleClose (fun hquiet len hmem => ?_) h1, ?_⟩
      · exact hq hquiet len (List.mem_append_right _ hmem)
      · rw [hnone hh, hnone hh]
    · cases h1
      exact ⟨h, rfl⟩
  obtain ⟨hclosed, htaken⟩ := hclose
  have hread : Holds quiet
      (base ++ if TcpConnection.reads revents then r.read.taken c.inputBuffer_ else []) c₂ := by
    split at h2
    · rename_i hr
      rw [if_pos hr, ← htaken]
      exact hclosed.handleRead hq h2
    · rename_i hr
      cases h2
      rw [if_neg hr, List.append_nil]
      exact hclosed
  split at h3
  · exact hread.handleWrite h3
  · cases h3
    exact hread

/-- A dispatch that reads bytes tells the user, once. One that takes the
connection down hangs up, or reads the end of the input. -/
theorem dispatch_told {r : Reply} {revents : Mask} (h : c.Sound)
    (hok : Channel.handleEventWithGuard (callbacks r) revents c = .ok c') :
    (hangsUp revents = false → TcpConnection.reads revents = true →
      r.read.taken c.inputBuffer_ ≠ [] →
        TcpConnection.userCalls c'.trace = TcpConnection.userCalls c.trace ++ [.messageCallback]) ∧
    (c.Up → c'.state_ = .kDisconnected →
      hangsUp revents = true ∨ r.read = .delivered []) := by
  rw [dispatch_eq] at hok
  simp only [bind_eq_ok] at hok
  obtain ⟨c₁, h1, c₂, h2, h3⟩ := hok
  cases hh : hangsUp revents with
  | true => exact ⟨fun hn => (by cases hn), fun _ _ => Or.inl rfl⟩
  | false =>
    rw [if_neg (by simp [hh])] at h1
    cases h1
    have hlast : c₂.Sound → c₂.Follows c' := by
      intro hs
      split at h3
      · exact (handleWrite_follows hs h3).2
      · cases h3
        exact .refl _
    split at h2
    · rename_i hreads
      rcases handleRead_eq h h2 with ⟨⟨errno, e⟩, rfl⟩ | ⟨bytes, b, e, hs, _, ⟨hne, hm⟩ | ⟨hnil, _⟩⟩
      · refine ⟨fun _ _ hbytes => ?_, fun hup hdown => ?_⟩
        · rw [e] at hbytes
          exact absurd rfl hbytes
        · exact absurd hdown ((hlast h).up hup).not_down
      · -- the message
        obtain ⟨hs₂, hf⟩ := (calls_spec (e := .messageCallback) (log_sound hs ⟨rfl, rfl⟩)
          r.onMessage).1 c₂ hm
        refine ⟨fun _ _ _ => ?_, fun hup hdown => ?_⟩
        · rw [(hlast hs₂).calls, hf.calls]
          exact userCalls_append c.trace [.messageCallback]
        · exact absurd hdown ((hlast hs₂).up (hf.up hup)).not_down
      · refine ⟨fun _ _ hbytes => ?_, fun _ _ => Or.inr ?_⟩
        · rw [e, hnil] at hbytes
          exact absurd List.take_nil hbytes
        · rw [e, hnil]
    · rename_i hreads
      cases h2
      refine ⟨fun _ hr => absurd hr hreads, fun hup hdown => ?_⟩
      exact absurd hdown ((hlast h).up hup).not_down

end

/-! ## The invariant -/

variable {s s' : PeeredConnection}

/-- The buffer holds the end of what the connection has read. -/
structure Inv (s : PeeredConnection) : Prop where
  sound : s.conn.Sound
  read_le : s.read ≤ s.sent.length
  part : s.conn.inputBuffer_.contents <:+ s.sent.take s.read

theorem Inv.taken_append (h : s.Inv) :
    s.taken ++ s.conn.inputBuffer_.contents = s.sent.take s.read := by
  obtain ⟨t, ht⟩ := h.part
  have hlen := congrArg List.length ht
  rw [List.length_append, List.length_take, Nat.min_eq_left h.read_le] at hlen
  have htaken : s.taken = t := by
    unfold taken
    rw [show s.read - s.conn.inputBuffer_.contents.length = t.length by omega,
      ← List.take_append_drop s.read s.sent, ← ht, List.append_assoc, List.take_left]
  rw [htaken, ht]

/-- What a call reads is the next part of what the socket holds. -/
theorem reads_prefix {op : Op} (h : s.Delivers op) : s.reads op <+: s.unread := by
  cases op with
  | handleEvent alive revents r =>
    simp only [reads]
    split
    · cases hread : r.read with
      | delivered bytes => exact (List.take_prefix _ _).trans (h.2 bytes hread).1
      | failed errno => exact List.nil_prefix
    · exact List.nil_prefix
  | _ => exact List.nil_prefix

theorem reads_eq_nil {op : Op} (h : ∀ alive revents r, op ≠ .handleEvent alive revents r) :
    s.reads op = [] := by
  cases op with
  | handleEvent alive revents r => exact absurd rfl (h alive revents r)
  | _ => rfl

/-- A dispatch does nothing where the object is gone. -/
theorem handleEvent_eq (c : TcpConnection) (alive : Bool) (revents : Mask) (r : Reply) :
    c.handleEvent alive revents r =
      if !c.channel_.tied_ || alive then
        Channel.handleEventWithGuard (callbacks r) revents
          { c with channel_ := { c.channel_ with revents_ := revents } }
      else .ok { c with channel_ := { c.channel_ with revents_ := revents } } := by
  unfold TcpConnection.handleEvent Channel.handleEvent
  cases c.channel_.tied_ <;> cases alive <;> rfl

/-- A hang-up delivers nothing. -/
theorem Delivers.nothing {alive : Bool} {revents : Mask} {r : Reply}
    (h : s.Delivers (.handleEvent alive revents r)) (hh : hangsUp revents = true) (b : Buffer) :
    r.read.taken b = [] := by
  cases hread : r.read with
  | delivered bytes =>
    have hfront := (h.2 bytes hread).1
    rw [(h.1 hh).2, List.prefix_nil] at hfront
    rw [hfront]
    exact List.take_nil
  | failed errno => rfl

/-- A call puts behind the bytes of the buffer what it reads. -/
theorem call_holds {op : Op} {conn : TcpConnection} (h : s.conn.Sound) (hop : op.Serves)
    (hd : s.Delivers op) (hok : op.run s.conn = .ok conn) :
    Holds (LeavesInput (Act.call op).userCalls)
      (s.conn.inputBuffer_.contents ++ s.reads op) conn := by
  have hstart : ∀ quiet, Holds quiet s.conn.inputBuffer_.contents s.conn :=
    fun quiet => ⟨h, List.suffix_refl _, fun _ => rfl⟩
  cases op with
  | connectEstablished onUp => exact hop.elim
  | handleRead r => exact hop.elim
  | handleWrite w => exact hop.elim
  | handleClose r => exact hop.elim
  | send message w =>
    rw [reads_eq_nil (by simp), List.append_nil]
    have hrun : s.conn.runCall (.send message w) = .ok conn := hok
    exact (hstart _).runCall (fun _ _ e => by cases e) hrun
  | sendInLoop message w =>
    rw [reads_eq_nil (by simp), List.append_nil]
    exact (hstart _).beside (sendInLoop_follows h hok).1 (sendInLoop_input h hok)
  | shutdown =>
    rw [reads_eq_nil (by simp), List.append_nil]
    have hrun : s.conn.runCall .shutdown = .ok conn := hok
    exact (hstart _).runCall (fun _ _ e => by cases e) hrun
  | shutdownInLoop =>
    rw [reads_eq_nil (by simp), List.append_nil]
    cases hok
    refine (hstart _).beside (shutdownInLoop_follows h).1 ?_
    unfold TcpConnection.shutdownInLoop
    split <;> rfl
  | connectDestroy onDown =>
    rw [reads_eq_nil (by simp), List.append_nil]
    exact (hstart _).connectDestroy id hok
  | handleEvent alive revents r =>
    have hin : Holds (LeavesInput (r.onMessage ++ r.onDown)) s.conn.inputBuffer_.contents
        { s.conn with channel_ := { s.conn.channel_ with revents_ := revents } } :=
      (hstart _).beside ⟨⟨h.streams.out, h.streams.stream, h.streams.waits⟩, h.input⟩ rfl
    have hrun : s.conn.handleEvent alive revents r = .ok conn := hok
    rw [handleEvent_eq] at hrun
    split at hrun
    · rename_i hon
      simp only [reads, hon, Bool.true_and]
      exact hin.dispatch id hd.nothing hrun
    · rename_i hoff
      cases hrun
      have hnil : s.reads (.handleEvent alive revents r) = [] := by simp [reads, hoff]
      rw [hnil, List.append_nil]
      exact hin

/-- The user is told of what a call reads, once. But for `connectDestroy`,
the one call that takes a connection down meets the end of the input. -/
structure Told (s : PeeredConnection) (op : Op) (conn : TcpConnection) : Prop where
  message : s.reads op ≠ [] → TcpConnection.userCalls conn.trace =
    TcpConnection.userCalls s.conn.trace ++ [.messageCallback]
  ended : s.conn.Up → conn.state_ = .kDisconnected → (∀ onDown, op ≠ .connectDestroy onDown) →
    s.Ended

theorem told_of_follows {op : Op} {conn : TcpConnection} (hf : s.conn.Follows conn)
    (hne : ∀ alive revents r, op ≠ .handleEvent alive revents r) : s.Told op conn where
  message hr := absurd (reads_eq_nil hne) hr
  ended hup hdown _ := absurd hdown (hf.up hup).not_down

theorem call_told {op : Op} {conn : TcpConnection} (h : s.conn.Sound) (hop : op.Serves)
    (hd : s.Delivers op) (hok : op.run s.conn = .ok conn) : s.Told op conn := by
  cases op with
  | connectEstablished onUp => exact hop.elim
  | handleRead r => exact hop.elim
  | handleWrite w => exact hop.elim
  | handleClose r => exact hop.elim
  | send message w =>
    have hrun : s.conn.runCall (.send message w) = .ok conn := hok
    exact told_of_follows (runCall_follows h hrun).2 (by simp)
  | sendInLoop message w => exact told_of_follows (sendInLoop_follows h hok).2 (by simp)
  | shutdown =>
    have hrun : s.conn.runCall .shutdown = .ok conn := hok
    exact told_of_follows (runCall_follows h hrun).2 (by simp)
  | shutdownInLoop =>
    cases hok
    exact told_of_follows (shutdownInLoop_follows h).2 (by simp)
  | connectDestroy onDown =>
    exact ⟨fun hr => absurd (reads_eq_nil (by simp)) hr, fun _ _ hne => absurd rfl (hne onDown)⟩
  | handleEvent alive revents r =>
    have hs : ({ s.conn with channel_ := { s.conn.channel_ with revents_ := revents } } :
        TcpConnection).Sound := ⟨⟨h.streams.out, h.streams.stream, h.streams.waits⟩, h.input⟩
    have hrun : s.conn.handleEvent alive revents r = .ok conn := hok
    rw [handleEvent_eq] at hrun
    split at hrun
    · rename_i hon
      obtain ⟨htold, hdown⟩ := dispatch_told hs hrun
      refine ⟨fun hr => ?_, fun hup hst _ => ?_⟩
      · simp only [reads, hon, Bool.true_and] at hr
        split at hr
        · rename_i hreads
          cases hh : hangsUp revents with
          | true => exact absurd (hd.nothing hh _) hr
          | false => exact htold hh hreads hr
        · exact absurd rfl hr
      · rcases hdown hup hst with hh | hend
        · exact hd.1 hh
        · exact (hd.2 [] hend).2 rfl
    · rename_i hoff
      cases hrun
      have hnil : s.reads (.handleEvent alive revents r) = [] := by simp [reads, hoff]
      exact ⟨fun hr => absurd hnil hr, fun hup hst _ => absurd hst (Up.not_down hup)⟩

/-! ## The law -/

theorem Inv.step {a : Act} (h : s.Inv) (hst : machine.step s a s') :
    s'.Inv ∧ s.taken <+: s'.taken ∧ (LeavesInput a.userCalls → s'.taken = s.taken) := by
  obtain ⟨he, hok⟩ := hst
  -- what the user took before the step is still the front
  have hmove : s'.Inv → ∀ bytes, s'.sent.take s'.read = s.sent.take s.read ++ bytes →
      s'.conn.inputBuffer_.contents <:+ s.conn.inputBuffer_.contents ++ bytes →
      s.taken <+: s'.taken ∧ (s'.conn.inputBuffer_.contents =
        s.conn.inputBuffer_.contents ++ bytes → s'.taken = s.taken) := by
    intro hinv bytes hread hpart
    obtain ⟨t, ht⟩ := hpart
    have hall := hinv.taken_append
    rw [hread, ← h.taken_append, List.append_assoc, ← ht, ← List.append_assoc] at hall
    have htaken := List.append_cancel_right hall
    refine ⟨⟨t, htaken.symm⟩, fun e => ?_⟩
    rw [← ht, List.self_eq_append_left] at e
    rw [htaken, e, List.append_nil]
  cases a with
  | send bytes =>
    cases hok
    have hread : (s.sent ++ bytes).take s.read = s.sent.take s.read :=
      List.take_append_of_le_length h.read_le
    have hinv : ({ s with sent := s.sent ++ bytes } : PeeredConnection).Inv := by
      refine ⟨h.sound, ?_, ?_⟩
      · rw [List.length_append]
        exact Nat.le_add_right_of_le h.read_le
      · simp only [hread]
        exact h.part
    obtain ⟨h1, h2⟩ := hmove hinv [] (by simp [hread]) (by simp)
    exact ⟨hinv, h1, fun _ => h2 (by simp)⟩
  | finish =>
    cases hok
    have hinv : ({ s with finished := true } : PeeredConnection).Inv :=
      ⟨h.sound, h.read_le, h.part⟩
    exact ⟨hinv, List.prefix_refl _, fun _ => rfl⟩
  | call op =>
    obtain ⟨hop, hd⟩ := he
    simp only [Act.run, bind_eq_ok] at hok
    obtain ⟨conn, hrun, e⟩ := hok
    cases e
    have hholds := call_holds h.sound hop hd hrun
    obtain ⟨rest, hrest⟩ := reads_prefix hd
    have hsent : s.sent = s.sent.take s.read ++ (s.reads op ++ rest) := by
      rw [hrest]
      exact (List.take_append_drop _ _).symm
    have hlen : (s.sent.take s.read).length = s.read := by
      rw [List.length_take, Nat.min_eq_left h.read_le]
    have hread : s.sent.take (s.read + (s.reads op).length) = s.sent.take s.read ++ s.reads op := by
      have hcount : s.read + (s.reads op).length = (s.sent.take s.read ++ s.reads op).length := by
        rw [List.length_append, hlen]
      rw [hcount]
      nth_rewrite 2 [hsent]
      rw [← List.append_assoc, List.take_left]
    have hle := congrArg List.length hsent
    rw [List.length_append, List.length_append, hlen] at hle
    have hinv : ({ s with conn := conn, read := s.read + (s.reads op).length } :
        PeeredConnection).Inv := by
      refine ⟨hholds.sound, ?_, ?_⟩
      · simp only [hle]
        omega
      · simp only [hread]
        refine hholds.part.trans ?_
        exact (List.suffix_append_inj_of_length_eq rfl).mpr ⟨h.part, rfl⟩
    obtain ⟨h1, h2⟩ := hmove hinv (s.reads op) hread hholds.part
    exact ⟨hinv, h1, fun hquiet => h2 (hholds.all hquiet)⟩

theorem reachable_inv (h : machine.Reachable s) : s.Inv := by
  apply h.invariant
  · rintro s ⟨conn, ⟨sockfd, writeComplete, highWaterMark, onUp, hok⟩, rfl⟩
    have hs := construct_sound sockfd writeComplete highWaterMark
    have hempty : Holds False [] (construct sockfd writeComplete highWaterMark).established :=
      ⟨⟨established_streams hs.streams, hs.input⟩, by simp [established, construct], False.elim⟩
    have hlog : Holds False [] ((construct sockfd writeComplete highWaterMark).established.log
        [.connectionCallback true]) := hempty.log ⟨rfl, rfl⟩
    have hup := hlog.calls False.elim hok
    exact ⟨hup.sound, Nat.le_refl _, hup.part⟩
  · intro s a s' hs hst
    exact (hs.step hst).1

/-- In every run, what the peer sent is what the user took, then what waits in
`inputBuffer_`, then what the socket still holds. What the user took only
grows, and only by calls that take. A call that reads bytes runs
`messageCallback_`, once, and a connection that its peer takes down has handed
over everything that the peer sent. -/
theorem the_input_is_what_the_peer_sent_in_order (s : PeeredConnection)
    (h : machine.Reachable s) :
    s.sent = s.taken ++ s.conn.inputBuffer_.contents ++ s.unread ∧
    ∀ a s', machine.step s a s' →
      s.taken <+: s'.taken ∧ (LeavesInput a.userCalls → s'.taken = s.taken) ∧
      ∀ op, a = .call op →
        (s.reads op ≠ [] → TcpConnection.userCalls s'.conn.trace =
          TcpConnection.userCalls s.conn.trace ++ [.messageCallback]) ∧
        (s.conn.Up → s'.conn.state_ = .kDisconnected → (∀ onDown, op ≠ .connectDestroy onDown) →
          s.Ended) := by
  have hinv := reachable_inv h
  refine ⟨?_, fun a s' hst => ?_⟩
  · rw [hinv.taken_append]
    exact (List.take_append_drop _ _).symm
  · obtain ⟨_, hfront, hquiet⟩ := hinv.step hst
    refine ⟨hfront, hquiet, fun op e => ?_⟩
    subst e
    obtain ⟨⟨hop, hd⟩, hok⟩ := hst
    simp only [Act.run, bind_eq_ok] at hok
    obtain ⟨conn, hrun, e⟩ := hok
    cases e
    have htold := call_told hinv.sound hop hd hrun
    exact ⟨htold.message, htold.ended⟩

/-- A byte of the peer waits in the buffer, and the next one in the socket. -/
theorem the_input_is_a_byte_and_the_next :
    ∃ s, machine.Reachable s ∧ s.sent = [7, 9] ∧ s.conn.inputBuffer_.contents = [7] ∧
      s.sent = s.taken ++ s.conn.inputBuffer_.contents ++ s.unread := by
  let start : PeeredConnection :=
    ⟨(construct 5 false false).established.log [.connectionCallback true], [], 0, false⟩
  let r : Reply := ⟨.delivered [7], [], [], false, .wrote 0⟩
  have h0 : machine.Reachable start := .start ⟨_, ⟨5, false, false, [], rfl⟩, rfl⟩
  have h1 : machine.Reachable { start with sent := [7, 9] } :=
    h0.next (a := .send [7, 9]) ⟨(rfl : start.finished = false), rfl⟩
  obtain ⟨s, hok, hp⟩ := exists_of_passes
    (x := Act.run { start with sent := [7, 9] } (.call (.handleEvent true POLLIN r)))
    (p := fun s => s.sent == [7, 9] && s.conn.inputBuffer_.contents == [7]) (by decide +kernel)
  have henabled : (Act.call (.handleEvent true POLLIN r)).Enabled
      { start with sent := [7, 9] } := by
    refine ⟨trivial, fun hh => absurd hh (by decide), ?_⟩
    rintro bytes ⟨⟩
    exact ⟨⟨[9], rfl⟩, fun e => by cases e⟩
  have h2 : machine.Reachable s := h1.next ⟨henabled, hok⟩
  simp only [Bool.and_eq_true, beq_iff_eq] at hp
  exact ⟨s, h2, hp.1, hp.2, (the_input_is_what_the_peer_sent_in_order s h2).1⟩

end PeeredConnection

end jmuduo.net
