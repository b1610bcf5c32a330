-- The way of a shutdown to its half-close: the connection takes no more messages,
-- each dispatch that writes to a socket with room moves a byte at least, and the
-- drain half-closes.
import Jmuduo.ConnectionCallbacks
import Jmuduo.HalfClose

open outcome runs

namespace jmuduo.net

namespace TcpConnection

/-- The write finds room for a byte. -/
def hasRoom : WriteResult → Bool
  | .wrote n => n > 0
  | .failed _ => false

/-- The call writes what is unsent to a socket with room. A dispatch does so when it
finds the object, and the poller reported POLLOUT. -/
def Op.drains : Op → Bool
  | .handleWrite w => hasRoom w
  | .handleEvent alive revents r => alive && has revents POLLOUT && hasRoom r.write
  | _ => false

/-- A connection that was shut down has gone down, or it sends nothing more than
`msgs`, and the end of `base` is still unsent. -/
structure Draining (msgs base : List Byte) (c : TcpConnection) : Prop where
  halves : c.Halves
  rest : c.state_ = .kDisconnected ∨
    c.state_ = .kDisconnecting ∧ sent c.trace = msgs ∧ c.unsent <:+ base

/-- The bytes that a connection has yet to write. -/
def toWrite (c : TcpConnection) : Nat :=
  if c.state_ = .kDisconnected then 0 else c.unsent.length

section

variable {msgs base : List Byte} {c c' : TcpConnection}

theorem Draining.not_up (h : Draining msgs base c) : c.state_ ≠ .kConnected := by
  rcases h.rest with e | ⟨e, _⟩ <;> simp [e]

/-- A step that keeps the state and the output. -/
theorem Draining.same (h : Draining msgs base c) (hh : c'.Halves) (hs : c'.state_ = c.state_)
    (hsent : sent c'.trace = sent c.trace) (hu : c'.unsent = c.unsent) :
    Draining msgs base c' := by
  refine ⟨hh, ?_⟩
  rw [hs, hsent, hu]
  exact h.rest

theorem handleWrite_moves {w : WriteResult} (h : c.Streams) (hok : c.handleWrite w = .ok c') :
    c'.state_ = c.state_ ∧ sent c'.trace = sent c.trace ∧ c'.unsent <:+ c.unsent ∧
      (hasRoom w = true → c.channel_.isWriting = true → c'.unsent.length < c.unsent.length) := by
  rcases handleWrite.spec h.out hok with
    ⟨hw, rfl⟩ | ⟨hw, hnone, rfl⟩ | ⟨rest, out, hw, hu, hdone, _, hcon, hcase⟩
  · refine ⟨rfl, rfl, List.suffix_rfl, fun _ hw' => ?_⟩
    rw [hw] at hw'
    cases hw'
  · refine ⟨rfl, (sent_append _ _).trans (List.append_nil _), List.suffix_rfl, fun hroom _ => ?_⟩
    -- a write with room takes a byte of what is unsent
    have hne := h.waits hw
    cases w with
    | wrote n =>
      have hn : 0 < n := by simpa [hasRoom] using hroom
      rcases List.take_eq_nil_iff.mp hnone with hzero | hnil
      · omega
      · exact absurd hnil hne
    | failed errno => cases hroom
  · have hrest : c'.unsent = rest := by
      rcases hcase with ⟨_, rfl⟩ | ⟨_, rfl⟩ <;> exact hcon
    have hsent : c'.state_ = c.state_ ∧ sent c'.trace = sent c.trace := by
      rcases hcase with ⟨_, rfl⟩ | ⟨_, rfl⟩
      · exact ⟨rfl, (sent_append _ _).trans (List.append_nil _)⟩
      · refine ⟨rfl, ?_⟩
        rw [sent_append, sent_cons, sent_append, (c.completion_bytes []).2, c.halfClose_bytes.2]
        exact List.append_nil _
    refine ⟨hsent.1, hsent.2, ?_, fun _ _ => ?_⟩
    · rw [hrest, hu]
      exact List.suffix_append _ _
    · have hlen := congrArg List.length hu
      have hpos := List.length_pos_iff.mpr hdone
      rw [List.length_append] at hlen
      rw [hrest]
      omega

theorem Draining.handleWrite {w : WriteResult} (h : Draining msgs base c)
    (hok : c.handleWrite w = .ok c') : Draining msgs base c' := by
  obtain ⟨hs, hsent, hu, _⟩ := handleWrite_moves h.halves.streams hok
  refine ⟨handleWrite_halves h.halves hok, ?_⟩
  rw [hs, hsent]
  rcases h.rest with hdown | ⟨hstate, hmsgs, hbase⟩
  · exact Or.inl hdown
  · exact Or.inr ⟨hstate, hmsgs, hu.trans hbase⟩

theorem kept_draining (msgs base : List Byte) : Kept (Draining msgs base) where
  call call c c' h hok := by
    have hh := kept_halves.call call c c' h.halves hok
    cases call with
    | send message w =>
      simp only [runCall, send, h.not_up, if_false] at hok
      cases hok
      exact h
    | shutdown =>
      simp only [runCall, shutdown, h.not_up, if_false] at hok
      cases hok
      exact h
    | retrieve len =>
      cases hok
      exact h.same hh rfl rfl rfl
  notice e c he h := by
    have hnone : sent [e] = [] := by
      simp only [List.mem_cons, List.not_mem_nil, or_false] at he
      rcases he with rfl | rfl | rfl | rfl | rfl <;> rfl
    refine h.same (kept_halves.notice e c he h.halves) rfl ?_ rfl
    rw [log, sent_append, hnone, List.append_nil]
  input b c h := h.same (kept_halves.input b c h.halves) rfl rfl rfl
  revents m c h := h.same (kept_halves.revents m c h.halves) rfl rfl rfl
  down c h := ⟨kept_halves.down c h.halves, Or.inl rfl⟩
  write w c c' h hok := h.handleWrite hok

/-- A call on the loop thread keeps a connection on its way. -/
theorem Draining.step {op : Op} (h : Draining msgs base c) (ht : op.OnLoopThread c)
    (hok : machine.step c op c') : Draining msgs base c' := by
  refine (kept_draining msgs base).step ?_ ?_ ?_ h hok
  · rintro onUp rfl
    have hnew : c.state_ = .kConnecting := ht
    rcases h.rest with e | ⟨e, _⟩ <;> rw [hnew] at e <;> cases e
  · rintro message w rfl -
    exact ht.elim
  · rintro rfl
    exact ht.elim

/-- The bytes that a connection on its way has yet to write are at the end of `base`. -/
theorem Draining.toWrite_le (h : Draining msgs base c) : c.toWrite ≤ base.length := by
  unfold toWrite
  rcases h.rest with hdown | ⟨_, _, hbase⟩
  · rw [if_pos hdown]
    exact Nat.zero_le _
  · split
    · exact Nat.zero_le _
    · exact hbase.length_le

/-- A write to a socket with room, whatever the dispatch did before it. -/
theorem Draining.drains {w : WriteResult} (h : Draining msgs base c) (hroom : hasRoom w = true)
    (hok : c.handleWrite w = .ok c') : c'.toWrite ≤ base.length - 1 := by
  obtain ⟨hs, _, hu, hmoves⟩ := handleWrite_moves h.halves.streams hok
  unfold toWrite
  rw [hs]
  rcases h.rest with hdown | ⟨hstate, _, hbase⟩
  · rw [if_pos hdown]
    exact Nat.zero_le _
  · rw [if_neg (by simp [hstate])]
    by_cases hnone : c.unsent = []
    · rw [hnone, List.suffix_nil] at hu
      rw [hu]
      exact Nat.zero_le _
    · have hlt := hmoves hroom (h.halves.waits (by simp [hstate]) hnone)
      have hle := hbase.length_le
      omega

/-- A dispatch with POLLOUT comes to `handleWrite` at its end. -/
theorem Draining.dispatch {revents : Mask} {r : Reply} {alive : Bool} (h : Draining msgs base c)
    (halive : alive = true) (hout : has revents POLLOUT = true) (hroom : hasRoom r.write = true)
    (hok : c.handleEvent alive revents r = .ok c') : c'.toWrite ≤ base.length - 1 := by
  have hkept := kept_draining msgs base
  have hguard : Channel.handleEventWithGuard (callbacks r) revents
      { c with channel_ := { c.channel_ with revents_ := revents } } = .ok c' := by
    unfold TcpConnection.handleEvent Channel.handleEvent at hok
    simpa [halive] using hok
  rw [dispatch_eq] at hguard
  simp only [bind_eq_ok, hout, if_true] at hguard
  obtain ⟨c₁, hclose, c₂, hread, hwrite⟩ := hguard
  have h0 := hkept.revents revents c h
  have h1 : Draining msgs base c₁ := by
    split at hclose
    · exact hkept.handleClose h0 hclose
    · cases hclose
      exact h0
  have h2 : Draining msgs base c₂ := by
    split at hread
    · exact hkept.handleRead h1 hread
    · cases hread
      exact h1
  exact h2.drains hroom hwrite

/-- A call that drains lowers what is to write, and no call raises it. -/
theorem Draining.toWrite_step {op : Op} (h : Draining msgs base c) (ht : op.OnLoopThread c)
    (hok : machine.step c op c') : c'.toWrite ≤ c.toWrite - (if op.drains then 1 else 0) := by
  by_cases hdown : c.state_ = .kDisconnected
  · -- a connection that is down stays down
    have hnone : Draining msgs [] c := ⟨h.halves, Or.inl hdown⟩
    have hle := (hnone.step ht hok).toWrite_le
    rw [List.length_nil] at hle
    omega
  · have hown : Draining msgs c.unsent c := by
      refine ⟨h.halves, ?_⟩
      rcases h.rest with e | ⟨hstate, hmsgs, _⟩
      · exact absurd e hdown
      · exact Or.inr ⟨hstate, hmsgs, List.suffix_rfl⟩
    have hlen : c.toWrite = c.unsent.length := if_neg hdown
    have hle := (hown.step ht hok).toWrite_le
    by_cases hd : op.drains = true
    · rw [if_pos hd, hlen]
      cases op with
      | handleWrite w => exact hown.drains hd hok
      | handleEvent alive revents r =>
        simp only [Op.drains, Bool.and_eq_true] at hd
        exact hown.dispatch hd.1.1 hd.1.2 hd.2 hok
      | _ => cases hd
    · rw [if_neg hd, hlen]
      exact hle

end

/-! ## The law -/

/-- A connection that was shut down and drains is half-closed exactly when nothing
is unsent. -/
theorem Halves.half_closed_iff {c : TcpConnection} (h : c.Halves)
    (hs : c.state_ = .kDisconnecting) :
    (∃ unsent, .shutdownWrite unsent ∈ c.trace) ↔ c.unsent = [] := by
  constructor
  · rintro ⟨unsent, hmem⟩
    by_contra hne
    have hwhole := h.open_ (h.waits (by simp [hs]) hne)
    have hhalf := hwhole _ hmem
    cases hhalf
  · intro hnone
    by_contra hno
    have hwhole : Whole c.trace := by
      intro e he
      cases e with
      | shutdownWrite unsent => exact absurd ⟨unsent, he⟩ hno
      | _ => rfl
    exact h.streams.waits (h.pending hs hwhole) hnone

/-- A connection that was shut down goes down, or it sends no message more, what is
unsent drains from the front by a byte with each call that writes to a socket with
room, and the half-close has run as soon as nothing is unsent and not before. -/
theorem a_shutdown_drains_a_byte_with_each_write_that_finds_room (c c' : TcpConnection)
    (ops : List Op) (h : (machine.restrict fun c op _ => op.OnLoopThread c).Reachable c)
    (hs : c.state_ = .kDisconnecting)
    (hrun : (machine.restrict fun c op _ => op.OnLoopThread c).Run c ops c') :
    c'.state_ = .kDisconnected ∨
      c'.state_ = .kDisconnecting ∧ sent c'.trace = sent c.trace ∧ c'.unsent <:+ c.unsent ∧
        c'.unsent.length ≤ c.unsent.length - ops.countP Op.drains ∧
        ((∃ unsent, .shutdownWrite unsent ∈ c'.trace) ↔ c'.unsent = []) := by
  have hstart : Draining (sent c.trace) c.unsent c :=
    ⟨reachable_halves h, Or.inr ⟨hs, rfl, List.suffix_rfl⟩⟩
  obtain ⟨hend, hle⟩ := hrun.spends toWrite Op.drains
    (fun c op c' hc hst => ⟨hc.step hst.2 hst.1, hc.toWrite_step hst.2 hst.1⟩) hstart
  rcases hend.rest with hdown | ⟨hs', hsent, hsuffix⟩
  · exact Or.inl hdown
  · refine Or.inr ⟨hs', hsent, hsuffix, ?_, hend.halves.half_closed_iff hs'⟩
    have hup : c.state_ ≠ .kDisconnected := by simp [hs]
    have hup' : c'.state_ ≠ .kDisconnected := by simp [hs']
    rwa [toWrite, if_neg hup', toWrite, if_neg hup] at hle

/-- Two dispatches that each find room for a byte half-close a connection that was shut
down with two bytes unsent. -/
theorem a_shutdown_with_two_bytes_unsent_is_over_after_two_dispatches :
    ∃ c c' ops, (machine.restrict fun c op _ => op.OnLoopThread c).Reachable c ∧
      c.state_ = .kDisconnecting ∧ c.unsent = [7, 7] ∧ ops.countP Op.drains = 2 ∧
      (machine.restrict fun c op _ => op.OnLoopThread c).Run c ops c' ∧
      ∃ unsent, .shutdownWrite unsent ∈ c'.trace := by
  let reply : Reply := { closed with write := .wrote 1 }
  let ops : List Op := [.handleEvent true POLLOUT reply, .handleEvent true POLLOUT reply]
  obtain ⟨⟨c, c'⟩, hok, hp⟩ := exists_of_passes
    (x := do
      let c ← [.connectEstablished [.send oneByte (.wrote 0), .send oneByte (.wrote 0),
        .shutdown]].foldlM (fun c op => if op.OnLoopThread c then Op.run c op else
          .error .badPointer) (construct 5 false false)
      let c' ← ops.foldlM (fun c op => if op.OnLoopThread c then Op.run c op else
          .error .badPointer) c
      pure (c, c'))
    (p := fun (c, c') => decide (c.state_ = .kDisconnecting) && c.unsent == [7, 7] &&
      decide (c'.state_ = .kDisconnecting)) (by decide +kernel)
  simp only [bind_eq_ok, pure_eq_ok, Except.ok.injEq, Prod.mk.injEq] at hok
  obtain ⟨d, hreach, d', hrun, rfl, rfl⟩ := hok
  simp only [Bool.and_eq_true, decide_eq_true_eq, beq_iff_eq] at hp
  obtain ⟨⟨hs, hu⟩, hs'⟩ := hp
  have h : (machine.restrict fun c op _ => op.OnLoopThread c).Reachable d :=
    ⟨_, _, ⟨5, false, false, rfl⟩, .restrict_of_foldlM _ (fun _ _ _ hok => hok) hreach⟩
  have hr : (machine.restrict fun c op _ => op.OnLoopThread c).Run d ops d' :=
    .restrict_of_foldlM _ (fun _ _ _ hok => hok) hrun
  refine ⟨d, d', ops, h, hs, hu, rfl, hr, ?_⟩
  rcases a_shutdown_drains_a_byte_with_each_write_that_finds_room d d' ops h hs hr with
    hdown | ⟨_, _, _, hle, hiff⟩
  · rw [hs'] at hdown
    cases hdown
  · rw [hu] at hle
    exact hiff.mpr (List.length_eq_zero_iff.mp (Nat.le_zero.mp hle))

end TcpConnection

end jmuduo.net
