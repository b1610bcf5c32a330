-- The runs of a connection: its loop calls its functions in any order, and
-- each user callback makes any calls of its own. What the pieces of the
-- functions keep, every function keeps.
import Jmuduo.Runs
import Jmuduo.TcpConnection

open outcome runs

namespace jmuduo.net

namespace TcpConnection

/-! ## The runs -/

/-- A call on the loop thread. `sendInLoop` and `shutdownInLoop` stand for
the functors that other threads queue. -/
inductive Op
  | connectEstablished (onUp : List Call)
  | connectDestroy (onDown : List Call)
  | send (message : Message) (w : WriteResult)
  | sendInLoop (message : Message) (w : WriteResult)
  | shutdown
  | shutdownInLoop
  | handleRead (r : Reply)
  | handleWrite (w : WriteResult)
  | handleClose (r : Reply)
  | handleEvent (alive : Bool) (revents : Mask) (r : Reply)
  deriving DecidableEq, Repr

def Op.run (c : TcpConnection) : Op → Outcome TcpConnection
  | .connectEstablished onUp => c.connectEstablished onUp
  | .connectDestroy onDown => c.connectDestroy onDown
  | .send message w => c.send message w
  | .sendInLoop message w => c.sendInLoop message w
  | .shutdown => pure c.shutdown
  | .shutdownInLoop => pure c.shutdownInLoop
  | .handleRead r => c.handleRead r
  | .handleWrite w => c.handleWrite w
  | .handleClose r => c.handleClose r
  | .handleEvent alive revents r => c.handleEvent alive revents r

/-- Any calls on a new connection, as long as each returns. -/
def machine : Machine TcpConnection Op where
  init c := ∃ sockfd writeComplete highWaterMark,
    c = construct sockfd writeComplete highWaterMark
  step c op c' := op.run c = .ok c'

/-- A new connection reaches every state in which a list of calls returns. -/
theorem reachable_of_ok {sockfd : Int} {writeComplete highWaterMark : Bool} {ops : List Op}
    {c : TcpConnection}
    (h : ops.foldlM Op.run (construct sockfd writeComplete highWaterMark) = .ok c) :
    machine.Reachable c :=
  ⟨_, ops, ⟨_, _, _, rfl⟩, .of_foldlM (fun _ _ _ hok => hok) h⟩

/-! ## What the functions keep -/

/-- The pieces of the functions keep `P`. The events of `notice` only tell
the user or the server something. -/
structure Kept (P : TcpConnection → Prop) : Prop where
  call : ∀ call c c', P c → c.runCall call = .ok c' → P c'
  notice : ∀ e c, e ∈ [.connectionCallback true, .connectionCallback false, .messageCallback,
    .closeCallback, .remove] → P c → P (c.log [e])
  input : ∀ b c, P c → P { c with inputBuffer_ := b }
  revents : ∀ m c, P c → P { c with channel_ := { c.channel_ with revents_ := m } }
  down : ∀ c, P c → P c.down
  write : ∀ w c c', P c → c.handleWrite w = .ok c' → P c'

namespace Kept

variable {P : TcpConnection → Prop} (h : Kept P) {c c' : TcpConnection}

include h

theorem calls {calls : List Call} (hc : P c) (hok : calls.foldlM runCall c = .ok c') : P c' :=
  foldlM_keeps (fun b a b' hb hr => h.call a b b' hb hr) hc hok

theorem connectionCallback {calls : List Call} (hc : P c)
    (hok : c.connectionCallback calls = .ok c') : P c' := by
  refine h.calls (h.notice _ c ?_ hc) hok
  cases c.connected <;> simp

theorem connectDestroy {onDown : List Call} (hc : P c)
    (hok : c.connectDestroy onDown = .ok c') : P c' := by
  simp only [TcpConnection.connectDestroy, bind_eq_ok, check_eq_ok] at hok
  obtain ⟨c₁, h1, _, _, h2⟩ := hok
  cases h2
  refine h.notice _ c₁ (by simp) ?_
  unfold disconnect at h1
  split at h1
  · exact h.connectionCallback (h.down c hc) h1
  · cases h1
    exact hc

theorem handleClose {r : Reply} (hc : P c) (hok : c.handleClose r = .ok c') : P c' := by
  simp only [TcpConnection.handleClose, bind_eq_ok, check_eq_ok] at hok
  obtain ⟨_, _, c₁, h1, h2⟩ := hok
  have hc1 := h.notice .closeCallback c₁ (by simp) (h.connectionCallback (h.down c hc) h1)
  unfold closeCallback at h2
  split at h2
  · exact h.connectDestroy hc1 h2
  · cases h2
    exact hc1

theorem handleRead {r : Reply} (hc : P c) (hok : c.handleRead r = .ok c') : P c' := by
  simp only [TcpConnection.handleRead, bind_eq_ok] at hok
  obtain ⟨⟨input, n, e⟩, _, h2⟩ := hok
  have hin := h.input input c hc
  simp only at h2
  split at h2
  · exact h.calls (h.notice .messageCallback _ (by simp) hin) h2
  · split at h2
    · exact h.handleClose hin h2
    · cases h2
      exact hin

theorem handleEvent {alive : Bool} {revents : Mask} {r : Reply} (hc : P c)
    (hok : c.handleEvent alive revents r = .ok c') : P c' := by
  refine Channel.handleEvent_keeps ?_ ?_ ?_ ?_ (h.revents revents c hc) hok
  · rintro f ⟨⟩ s s' hs hf
    exact h.handleClose hs hf
  · rintro f ⟨⟩ s s' hs hf
    cases hf
    exact hs
  · rintro f ⟨⟩ s s' hs hf
    exact h.handleRead hs hf
  · rintro f ⟨⟩ s s' hs hf
    exact h.write _ s s' hs hf

/-- The rule of a step: besides the pieces, only three calls can break `P`. -/
theorem step {op : Op} (hup : ∀ onUp, op = .connectEstablished onUp → P c.established)
    (hsend : ∀ message w, op = .sendInLoop message w → c.sendInLoop message w = .ok c' → P c')
    (hshut : op = .shutdownInLoop → P c.shutdownInLoop) (hc : P c) (hok : op.run c = .ok c') :
    P c' := by
  cases op with
  | connectEstablished onUp => exact h.connectionCallback (hup onUp rfl) hok
  | connectDestroy onDown => exact h.connectDestroy hc hok
  | send message w => exact h.call (.send message w) c c' hc hok
  | sendInLoop message w => exact hsend message w rfl hok
  | shutdown => exact h.call .shutdown c c' hc hok
  | shutdownInLoop =>
    cases hok
    exact hshut rfl
  | handleRead r => exact h.handleRead hc hok
  | handleWrite w => exact h.write w c c' hc hok
  | handleClose r => exact h.handleClose hc hok
  | handleEvent alive revents r => exact h.handleEvent hc hok

end Kept

end TcpConnection

end jmuduo.net
