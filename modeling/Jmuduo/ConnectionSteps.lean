-- The functions of a connection in steps: a function of the loop thread is cut
-- where it calls the user, so that other threads and the calls of the user
-- come in between. Every run of whole functions is a run of such steps.
import Jmuduo.ConnectionRuns

open outcome runs

namespace jmuduo.net

/-- The event moves no byte and queues no functor. -/
def Event.tells : Event → Bool
  | .shutdown | .shutdownWrite _ | .connectionCallback _ | .messageCallback | .closeCallback
  | .remove => true
  | .send _ | .write _ | .queueWriteComplete | .queueHighWaterMark _ => false

namespace TcpConnection

/-! ## The steps -/

/-- A part of a function, up to its call of the user. `established`,
`handleClose` and `disconnect` end with `connectionCallback_`, and `call` is a
call that the user makes. -/
inductive Piece
  | established
  | dispatch (revents : Mask)
  | read (r : ReadResult)
  | messageCallback
  | handleWrite (w : WriteResult)
  | handleClose
  | closeCallback
  | disconnect
  | remove
  | call (a : Call)
  | sendInLoop (message : Message) (w : WriteResult)
  | shutdownInLoop
  deriving DecidableEq, Repr

def Piece.run (c : TcpConnection) : Piece → Outcome TcpConnection
  | .established => pure (c.established.log [.connectionCallback true])
  | .dispatch revents => pure { c with channel_ := { c.channel_ with revents_ := revents } }
  | .read r => do
    let (input, _, _) ← c.inputBuffer_.readFd 0 r
    pure { c with inputBuffer_ := input }
  | .messageCallback => pure (c.log [.messageCallback])
  | .handleWrite w => c.handleWrite w
  | .handleClose => do
    check "state_ == kConnected || state_ == kDisconnecting"
      (c.state_ = .kConnected ∨ c.state_ = .kDisconnecting)
    pure (c.down.log [.connectionCallback false])
  | .closeCallback => pure (c.log [.closeCallback])
  | .disconnect =>
    pure (if c.state_ = .kConnected then c.down.log [.connectionCallback false] else c)
  | .remove => do
    check "isNoneEvent()" c.channel_.isNoneEvent
    pure (c.log [.remove])
  | .call a => c.runCall a
  | .sendInLoop message w => c.sendInLoop message w
  | .shutdownInLoop => pure c.shutdownInLoop

/-- Any steps on a new connection, as long as no `assert` fails. -/
def pieces : Machine TcpConnection Piece where
  init c := ∃ sockfd writeComplete highWaterMark,
    c = construct sockfd writeComplete highWaterMark
  step c p c' := p.run c = .ok c'

/-! ## The functions in steps -/

/-- Some steps lead from one state to another. -/
def Leads (c c' : TcpConnection) : Prop := ∃ ps, pieces.Run c ps c'

theorem Leads.refl (c : TcpConnection) : Leads c c := ⟨[], .nil⟩

theorem Leads.trans {c c₁ c' : TcpConnection} (h : Leads c c₁) (h' : Leads c₁ c') :
    Leads c c' := by
  obtain ⟨ps, hps⟩ := h
  obtain ⟨qs, hqs⟩ := h'
  exact ⟨ps ++ qs, hps.append hqs⟩

theorem Leads.next {c c₁ c' : TcpConnection} (h : Leads c c₁) (p : Piece)
    (hok : p.run c₁ = .ok c') : Leads c c' := by
  obtain ⟨ps, hps⟩ := h
  exact ⟨ps ++ [p], hps.snoc hok⟩

theorem Leads.calls {c c₁ c' : TcpConnection} {calls : List Call} (h : Leads c c₁)
    (hok : calls.foldlM runCall c₁ = .ok c') : Leads c c' :=
  foldlM_keeps (fun _ call _ hb hr => hb.next (.call call) hr) h hok

theorem Leads.connectDestroy {c c₁ c' : TcpConnection} {onDown : List Call} (h : Leads c c₁)
    (hok : c₁.connectDestroy onDown = .ok c') : Leads c c' := by
  simp only [TcpConnection.connectDestroy, bind_eq_ok] at hok
  obtain ⟨c₂, h2, _, hcheck, hremove⟩ := hok
  have hdown : Leads c c₂ := by
    unfold disconnect at h2
    split at h2
    · rename_i hs
      refine (h.next .disconnect ?_).calls h2
      simp only [Piece.run, if_pos hs]
      rfl
    · cases h2
      exact h
  refine hdown.next .remove ?_
  simp only [Piece.run, hcheck, ok_bind]
  exact hremove

theorem Leads.handleClose {c c₁ c' : TcpConnection} {r : Reply} (h : Leads c c₁)
    (hok : c₁.handleClose r = .ok c') : Leads c c' := by
  simp only [TcpConnection.handleClose, bind_eq_ok] at hok
  obtain ⟨_, hcheck, c₂, h2, hclose⟩ := hok
  have hdown : Leads c (c₁.down.log [.connectionCallback false]) := by
    refine h.next .handleClose ?_
    simp only [Piece.run, hcheck, ok_bind]
    rfl
  have hc₂ := (hdown.calls h2).next .closeCallback rfl
  unfold TcpConnection.closeCallback at hclose
  split at hclose
  · exact hc₂.connectDestroy hclose
  · cases hclose
    exact hc₂

theorem Leads.handleRead {c c₁ c' : TcpConnection} {r : Reply} (h : Leads c c₁)
    (hok : c₁.handleRead r = .ok c') : Leads c c' := by
  simp only [TcpConnection.handleRead, bind_eq_ok] at hok
  obtain ⟨⟨input, n, errno⟩, hread, hrest⟩ := hok
  have hin : Leads c { c₁ with inputBuffer_ := input } := by
    refine h.next (.read r.read) ?_
    simp only [Piece.run, hread, ok_bind]
    rfl
  simp only at hrest
  split at hrest
  · exact (hin.next .messageCallback rfl).calls hrest
  · split at hrest
    · exact hin.handleClose hrest
    · cases hrest
      exact hin

theorem Leads.handleEvent {c c₁ c' : TcpConnection} {alive : Bool} {revents : Mask} {r : Reply}
    (h : Leads c c₁) (hok : c₁.handleEvent alive revents r = .ok c') : Leads c c' := by
  refine Channel.handleEvent_keeps (P := Leads c) ?_ ?_ ?_ ?_ (h.next (.dispatch revents) rfl) hok
  · rintro f ⟨⟩ s s' hs hf
    exact hs.handleClose hf
  · rintro f ⟨⟩ s s' hs hf
    cases hf
    exact hs
  · rintro f ⟨⟩ s s' hs hf
    exact hs.handleRead hf
  · rintro f ⟨⟩ s s' hs hf
    exact hs.next (.handleWrite r.write) hf

/-- A whole function is a run of steps. -/
theorem leads_of_step {c c' : TcpConnection} {op : Op} (hok : machine.step c op c') :
    Leads c c' := by
  have h := Leads.refl c
  cases op with
  | connectEstablished onUp => exact (h.next .established rfl).calls hok
  | connectDestroy onDown => exact h.connectDestroy hok
  | send message w => exact h.next (.call (.send message w)) hok
  | sendInLoop message w => exact h.next (.sendInLoop message w) hok
  | shutdown => exact h.next (.call .shutdown) hok
  | shutdownInLoop => exact h.next .shutdownInLoop hok
  | handleRead r => exact h.handleRead hok
  | handleWrite w => exact h.next (.handleWrite w) hok
  | handleClose r => exact h.handleClose hok
  | handleEvent alive revents r => exact h.handleEvent hok

/-- Every run of whole functions is a run of steps. -/
theorem leads_of_run {c c' : TcpConnection} {ops : List Op} (h : machine.Run c ops c') :
    Leads c c' :=
  h.keeps (P := Leads c) (fun _ _ _ hc hst => hc.trans (leads_of_step hst)) (Leads.refl c)

/-! ## What a step does -/

/-- The `sendInLoop` that the step runs. -/
def Piece.sends (c : TcpConnection) : Piece → Option (Message × WriteResult)
  | .sendInLoop message w => some (message, w)
  | .call (.send message w) => if c.state_ = .kConnected then some (message, w) else none
  | _ => none

/-- The step only tells the user, the server or the peer something. -/
structure Tells (c c' : TcpConnection) : Prop where
  out : c'.outputBuffer_ = c.outputBuffer_
  mark : c'.highWaterMark_ = c.highWaterMark_
  wants : c'.channel_.isWriting = true → c.channel_.isWriting = true
  events : ∃ es, c'.trace = c.trace ++ es ∧ ∀ e ∈ es, e.tells = true

theorem Tells.refl (c : TcpConnection) : Tells c c :=
  ⟨rfl, rfl, id, [], (List.append_nil _).symm, by simp⟩

theorem Tells.log {c c' : TcpConnection} (h : Tells c c') {e : Event} (he : e.tells = true) :
    Tells c (c'.log [e]) := by
  obtain ⟨es, htrace, hes⟩ := h.events
  refine ⟨h.out, h.mark, h.wants, es ++ [e], ?_, ?_⟩
  · show c'.trace ++ [e] = _
    rw [htrace, List.append_assoc]
  · intro e' he'
    rcases List.mem_append.mp he' with hin | hlast
    · exact hes e' hin
    · rwa [List.mem_singleton.mp hlast]

/-- A step only tells something, or it is a `sendInLoop` or a `handleWrite`. -/
theorem Piece.tells_cases {c c' : TcpConnection} {p : Piece} (hok : p.run c = .ok c') :
    (p.sends c = none ∧ Tells c c') ∨
    (∃ message w, p.sends c = some (message, w) ∧ c.sendInLoop message w = .ok c') ∨
    (∃ w, p = .handleWrite w ∧ c.handleWrite w = .ok c') := by
  have hsame := Tells.refl c
  have hdown : Tells c c.down :=
    ⟨rfl, rfl, by simp [TcpConnection.down], [], (List.append_nil _).symm, by simp⟩
  cases p with
  | established =>
    cases hok
    have hup : Tells c c.established :=
      ⟨rfl, rfl, by simp [TcpConnection.established], [], (List.append_nil _).symm, by simp⟩
    exact Or.inl ⟨rfl, hup.log rfl⟩
  | dispatch revents =>
    cases hok
    exact Or.inl ⟨rfl, rfl, rfl, id, hsame.events⟩
  | read r =>
    simp only [Piece.run, bind_eq_ok] at hok
    obtain ⟨⟨input, n, errno⟩, _, hok⟩ := hok
    cases hok
    exact Or.inl ⟨rfl, rfl, rfl, id, hsame.events⟩
  | messageCallback =>
    cases hok
    exact Or.inl ⟨rfl, hsame.log rfl⟩
  | handleWrite w => exact Or.inr (Or.inr ⟨w, rfl, hok⟩)
  | handleClose =>
    simp only [Piece.run, bind_eq_ok, check_eq_ok] at hok
    obtain ⟨_, _, hok⟩ := hok
    cases hok
    exact Or.inl ⟨rfl, hdown.log rfl⟩
  | closeCallback =>
    cases hok
    exact Or.inl ⟨rfl, hsame.log rfl⟩
  | disconnect =>
    cases hok
    refine Or.inl ⟨rfl, ?_⟩
    split
    · exact hdown.log rfl
    · exact hsame
  | remove =>
    simp only [Piece.run, bind_eq_ok, check_eq_ok] at hok
    obtain ⟨_, _, hok⟩ := hok
    cases hok
    exact Or.inl ⟨rfl, hsame.log rfl⟩
  | call a =>
    cases a with
    | send message w =>
      simp only [Piece.run, runCall, send] at hok
      split at hok
      · rename_i hs
        exact Or.inr (Or.inl ⟨message, w, if_pos hs, hok⟩)
      · rename_i hs
        cases hok
        exact Or.inl ⟨if_neg hs, hsame⟩
    | shutdown =>
      cases hok
      refine Or.inl ⟨rfl, ?_⟩
      have hasked : Tells c { c with state_ := .kDisconnecting } := ⟨rfl, rfl, id, hsame.events⟩
      rcases c.shutdown_cases with ⟨_, e⟩ | ⟨_, _, e⟩ | ⟨_, _, e⟩
      · rw [e]
        exact hsame
      · rw [e]
        exact hasked.log rfl
      · rw [e, show ∀ u, c.trace ++ [.shutdown, u] = c.trace ++ [.shutdown] ++ [u] by simp]
        exact (hasked.log rfl).log rfl
    | retrieve len =>
      cases hok
      exact Or.inl ⟨rfl, rfl, rfl, id, hsame.events⟩
  | sendInLoop message w => exact Or.inr (Or.inl ⟨message, w, rfl, hok⟩)
  | shutdownInLoop =>
    cases hok
    refine Or.inl ⟨rfl, ?_⟩
    unfold TcpConnection.shutdownInLoop
    split
    · exact hsame.log rfl
    · exact hsame

end TcpConnection

end jmuduo.net
