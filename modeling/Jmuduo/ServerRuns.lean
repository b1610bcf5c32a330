-- The runs of a server: every step keeps the life of every connection, so
-- each call is made at most once, in its place, and a connection is held
-- until its channel is removed.
import Jmuduo.ServerCalls

open outcome runs

namespace jmuduo.net

namespace TcpServer

variable {τ : Type} [DecidableEq τ] {once : Prop}

/-! ## The other steps of a connection -/

theorem Inv.pop {s : TcpServer τ} (h : s.Inv once) {t : τ} {fr : Frame τ} {rest : List (Frame τ)}
    (hs : s.stack t = fr :: rest) (hret : ∀ l, fr ≠ .returns l) (hfr : ∀ c, fr.Beside c) :
    (s.pop t rest).Inv once :=
  h.rests (h.threads.stack (h.calm hs hret) rest) ⟨rfl, rfl, rfl⟩ (h.told.same rfl rfl rfl)
    fun c => rests_pop hs (hfr c)

theorem Inv.setConn {s : TcpServer τ} (h : s.Inv once) {c : Nat} {conn conn' : ServerConnection τ}
    (hc : s.conns c = some conn) (hl : Like once conn conn') : (s.setConn c conn').Inv once := by
  refine h.rests (h.threads.same rfl rfl) ⟨rfl, rfl, rfl⟩ (h.told.setConn hc hl.loop)
    fun c' => rests_setConn fun e => ?_
  subst e
  exact ⟨conn, hc, hl⟩

theorem Inv.runInLoop {s : TcpServer τ} (h : s.Inv once) {t : τ} (hcalm : s.Calm t) (l : τ)
    {f : Functor} (hf : f.refs = none) : (s.runInLoop t l f).Inv once := by
  refine h.rests (runInLoop.spec h.threads hcalm l f).1 (by simp) ?_
    fun c => rests_runInLoop h.threads hcalm l (by simp [hf])
  exact h.told.same (runInLoop_loop_ _ _ _ _) (runInLoop_trace _ _ _ _) (runInLoop_conns _ _ _ _)

theorem Inv.sendInLoop {s s' : TcpServer τ} (h : s.Inv once) {c : Nat} {message : Message}
    {w : WriteResult} (hok : s.onConn c (·.sendInLoop message w) = .ok s') : s'.Inv once := by
  simp only [onConn, deref, bind_eq_ok, demand_eq_ok, pure_eq_ok, Except.ok.injEq] at hok
  obtain ⟨conn, hc, c₁, hrun, rfl⟩ := hok
  have hsound := (h.life c).sound conn hc
  refine h.setConn hc (.of_same (TcpConnection.sendInLoop_follows hsound hrun).1 ?_)
  rcases TcpConnection.sendInLoop_cases hsound.streams.out hrun with
    ⟨_, _, rfl⟩ | ⟨_, _, _, _, _, _, _, _, rfl⟩
  · rfl
  · rfl

theorem Inv.shutdownInLoop {s s' : TcpServer τ} (h : s.Inv once) {c : Nat}
    (hok : s.onConn c (fun conn => pure conn.shutdownInLoop) = .ok s') : s'.Inv once := by
  simp only [onConn, deref, bind_eq_ok, demand_eq_ok, pure_eq_ok, Except.ok.injEq] at hok
  obtain ⟨conn, hc, _, rfl, rfl⟩ := hok
  have hsound := (h.life c).sound conn hc
  refine h.setConn hc (.of_same (TcpConnection.shutdownInLoop_follows hsound).1 ?_)
  unfold TcpConnection.shutdownInLoop
  split <;> rfl

theorem Inv.push {s : TcpServer τ} (h : s.Inv once) {t : τ} (hcalm : s.Calm t)
    {frames : List (Frame τ)} (hfr : ∀ c, ∀ fr ∈ frames, fr.Beside c)
    (hd : ∀ c cbs, .handleEvent c cbs ∉ frames)
    (ha : ∀ c, .setState c ∈ frames → s.stateOf c ≠ .kConnecting) : (s.push t frames).Inv once :=
  h.rests (h.threads.push hcalm frames) ⟨rfl, rfl, rfl⟩ (h.told.same rfl rfl rfl)
    fun c => rests_push (hfr c) (fun cbs hin => absurd hin (hd c cbs)) (ha c)

theorem Inv.send {s s' : TcpServer τ} (h : s.Inv once) {t : τ} (hcalm : s.Calm t) {c : Nat}
    {message : Message} {w : WriteResult} (hok : s.send t c message w = .ok s') :
    s'.Inv once := by
  simp only [TcpServer.send, deref, bind_eq_ok, demand_eq_ok] at hok
  obtain ⟨conn, hc, hok⟩ := hok
  split at hok
  · split at hok
    · exact h.sendInLoop hok
    · cases hok
      exact h.push hcalm (by simp [Frame.Beside]) (by simp) (by simp)
  · cases hok
    exact h

theorem Inv.shutdown {s s' : TcpServer τ} (h : s.Inv once) {t : τ} (hcalm : s.Calm t) {c : Nat}
    (hok : s.shutdown t c = .ok s') : s'.Inv once := by
  simp only [TcpServer.shutdown, deref, bind_eq_ok, demand_eq_ok] at hok
  obtain ⟨conn, hc, hok⟩ := hok
  split at hok
  · rename_i hup
    cases hok
    refine h.push hcalm (by simp [Frame.Beside]) (by simp) fun c' hin => ?_
    simp only [List.mem_singleton, Frame.setState.injEq] at hin
    rw [hin, stateOf_some hc, hup]
    decide
  · cases hok
    exact h

/-- The connection has its `connectEstablished` behind it, but it may be down. -/
theorem Inv.setDisconnecting {s s' : TcpServer τ} (h : s.Inv once) {t : τ} {c : Nat}
    {rest : List (Frame τ)} (hs : s.stack t = .setState c :: rest)
    (hup : once → ∀ conn, s.conns c = some conn → conn.conn.Up)
    (hok : (s.pop t rest).setDisconnecting t c = .ok s') : s'.Inv once := by
  simp only [TcpServer.setDisconnecting, deref, bind_eq_ok, demand_eq_ok, pure_eq_ok,
    Except.ok.injEq] at hok
  obtain ⟨conn, hc, rfl⟩ := hok
  have hc : s.conns c = some conn := hc
  have hlife := h.life c
  have hnew := hlife.asked ⟨t, hs ▸ List.mem_cons_self⟩
  rw [stateOf_some hc] at hnew
  have hcalm := h.calm hs (by simp)
  have hset := (h.pop hs (by simp) fun _ => trivial).setConn hc
    (.setDisconnecting (hlife.sound conn hc) hnew fun honce => hup honce conn hc)
  exact hset.push hcalm (by simp [Frame.Beside]) (by simp) (by simp)

theorem Inv.runInItsLoop {s s' : TcpServer τ} (h : s.Inv once) {t : τ} (hcalm : s.Calm t)
    {c : Nat} {f : Functor} (hf : f.refs = none) (hok : s.runInItsLoop t c f = .ok s') :
    s'.Inv once := by
  simp only [TcpServer.runInItsLoop, deref, bind_eq_ok, demand_eq_ok, pure_eq_ok,
    Except.ok.injEq] at hok
  obtain ⟨conn, _, rfl⟩ := hok
  exact h.runInLoop hcalm conn.loop_ hf

/-! ## The steps of the loops -/

/-- A thread begins a call of a loop that has nothing to do with a life. -/
theorem Inv.call {s : TcpServer τ} (h : s.Inv once) {t l : τ} (hcalm : s.Calm t)
    {a : EventLoop.Act τ ChannelId Functor} (ha : a.caller = some t) (he : a.Enabled (s.loop l))
    (hq : ∀ f ∈ a.queued, f.refs = none) (hcalled : a.called (s.loop l) = [])
    (hpoll : ∀ active, a ≠ .poll active) : ((s.act l a).push t [.returns l]).Inv once := by
  refine h.rests (h.threads.call hcalm ha he) ⟨rfl, rfl, rfl⟩ (h.told.same rfl rfl rfl)
    fun c => (rests_act h.threads he (fun f hf => by simp [hq f hf]) hcalled
      fun active hpolled => absurd hpolled (hpoll active)).trans
        (rests_push (by simp [Frame.Beside]) (by simp) (by simp))

/-- A thread returns from a call of a loop. -/
theorem Threads.callReturns {s : TcpServer τ} (h : s.Threads) {t l : τ} {rest : List (Frame τ)}
    (hs : s.stack t = .returns l :: rest) :
    ((s.pop t rest).act l (.callReturns t)).Threads := by
  obtain ⟨hid, hphase, _⟩ := (s.loop l).apply_fields (.callReturns t)
  refine ⟨act_keeps h.inv ((h.inv l).callReturns t),
    act_keeps (P := fun m e => e.threadId_ = m) h.thread (hid.trans (h.thread l)),
    fun m u hp => ?_⟩
  by_cases hm : m = l
  · subst hm
    have hphase' : ((s.loop m).callReturns t).phase u ≠ .idle := by
      simpa [act, pop, EventLoop.Act.apply] using hp
    have hu : u ≠ t := by
      rintro rfl
      exact hphase' ((s.loop m).callReturns_phase u)
    have hold : (s.loop m).phase u ≠ .idle := by
      rw [← hphase u fun e => hu (Option.some.inj e).symm]
      exact hphase'
    obtain ⟨rest', hr⟩ := h.busy m u hold
    exact ⟨rest', (Function.update_of_ne hu _ _).trans hr⟩
  · have hold : (s.loop m).phase u ≠ .idle := by
      simpa [act, pop, Function.update_of_ne hm] using hp
    obtain ⟨rest', hr⟩ := h.busy m u hold
    have hu : u ≠ t := by
      rintro rfl
      rw [hs] at hr
      cases hr
      exact hm rfl
    exact ⟨rest', (Function.update_of_ne hu _ _).trans hr⟩

theorem Inv.callReturns {s : TcpServer τ} (h : s.Inv once) {t l : τ} {rest : List (Frame τ)}
    (hs : s.stack t = .returns l :: rest) :
    ((s.pop t rest).act l (.callReturns t)).Inv once := by
  refine h.rests (h.threads.callReturns hs) ⟨rfl, rfl, rfl⟩ (h.told.same rfl rfl rfl) fun c => ?_
  refine (rests_pop hs trivial).trans ⟨rfl, Or.inl rfl, fun _ _ => rfl,
    tokens_eq (fun m f _ => ?_) (fun _ => rfl), fun m hd => ?_, Or.inl, fun _ _ h => h⟩
  · unfold due act
    by_cases hm : m = l
    · subst hm
      simp only [Function.update_self, EventLoop.Act.apply, EventLoop.waiting_callReturns]
    · simp only [Function.update_of_ne hm]
  · rcases dispatches_act hd with hd | ⟨_, _, ha, _⟩
    · exact Or.inl hd
    · cases ha

omit [DecidableEq τ] in
/-- What a step of a loop starts has a place in no life, or it was there. -/
theorem begun_beside (s : TcpServer τ) (l : τ) {a : EventLoop.Act τ ChannelId Functor}
    (alive : Bool) (revents : Mask) (ha : a ≠ .callFunctor) (c : Nat) :
    (∀ fr ∈ s.begun l a alive revents, fr.Beside c) ∧
      (∀ cbs, .handleEvent c cbs ∈ s.begun l a alive revents → s.Dispatches l c) ∧
      .setState c ∉ s.begun l a alive revents := by
  unfold begun
  split
  · simp [Frame.Beside]
  · rename_i c' cs _ hactive
    split
    · refine ⟨by simp [Frame.Beside], fun cbs hin => Or.inl ?_, by simp⟩
      simp only [List.mem_singleton, Frame.handleEvent.injEq] at hin
      rw [hactive, hin.1]
      exact List.mem_cons_self
    · simp
  · exact absurd rfl ha
  · simp

/-- The functor that a loop calls goes from its queue to its stack. -/
theorem rests_callFunctor {s : TcpServer τ} (h : s.Threads) {l : τ} {f : Functor}
    {fs : List Functor} (he : EventLoop.Act.callFunctor.Enabled (s.loop l))
    (hf : (s.loop l).functors = f :: fs) (c : Nat) :
    Rests once s ((s.act l .callFunctor).push l [.call f]) c := by
  refine ⟨rfl, Or.inl rfl, fun _ _ => rfl, tokens_eq (fun m g _ => ?_) (fun m => ?_),
    fun m hd => ?_, fun ha => Or.inl ((asked_push ha).resolve_right (by simp)), fun _ _ h => h⟩
  · have hdue := due_act h he m g
    rw [due_push]
    simp only [EventLoop.Act.called, EventLoop.Act.queued, hf, List.take_succ_cons, List.take_zero,
      List.count_nil, ite_self, List.count_singleton, beq_iff_eq, Frame.call.injEq] at hdue ⊢
    omega
  · rw [closing_push]
    simp
    rfl
  · rcases dispatches_push hd with hd | ⟨_, _, hin⟩
    · rcases dispatches_act hd with hd | ⟨_, _, ha, _⟩
      · exact Or.inl hd
      · cases ha
    · simp at hin

theorem Threads.act {s : TcpServer τ} (h : s.Threads) {l : τ}
    {a : EventLoop.Act τ ChannelId Functor} (hcaller : a.caller = none)
    (he : a.Enabled (s.loop l)) : (s.act l a).Threads := by
  obtain ⟨hid, hphase, _⟩ := (s.loop l).apply_fields a
  refine ⟨act_keeps h.inv ((h.inv l).apply he),
    act_keeps (P := fun m e => e.threadId_ = m) h.thread (hid.trans (h.thread l)),
    fun m u hp => h.busy m u ?_⟩
  refine act_keeps (P := fun m e => e.phase u ≠ .idle → (s.loop m).phase u ≠ .idle)
    (fun _ => id) (l := l) (a := a) ?_ m hp
  rw [hphase u (by simp [hcaller])]
  exact id

/-- A step of a loop between two functions. -/
theorem Inv.loop {s : TcpServer τ} (h : s.Inv once) {l : τ} {a : EventLoop.Act τ ChannelId Functor}
    {alive : Bool} {revents : Mask} (hcaller : a.caller = none) (he : a.Enabled (s.loop l))
    (hs : s.stack l = []) (hpoll : ∀ active, a = .poll active → ∀ ch ∈ active, s.Polled l ch) :
    ((s.act l a).push l (s.begun l a alive revents)).Inv once := by
  have hacted := h.threads.act hcaller he
  have hcalm : s.Calm l := h.threads.calm (by simp [hs])
  have hcalm' : (s.act l a).Calm l := hacted.calm fun m rest hr => by
    rw [show (s.act l a).stack l = s.stack l from rfl, hs] at hr
    cases hr
  refine h.rests (hacted.push hcalm' _) ⟨rfl, rfl, rfl⟩ (h.told.same rfl rfl rfl) fun c => ?_
  by_cases ha : a = .callFunctor
  · subst ha
    obtain ⟨f, fs, hf⟩ := List.exists_cons_of_ne_nil he.2
    have hbegun : s.begun l .callFunctor alive revents = [.call f] := by
      simp [begun, hf]
    rw [hbegun]
    exact rests_callFunctor h.threads he hf c
  · obtain ⟨hbeside, hdispatches, hasked⟩ := begun_beside s l alive revents ha c
    refine (rests_push hbeside hdispatches fun hin => absurd hin hasked).trans
      (rests_act (h.threads.push hcalm _) he ?_ ?_ hpoll)
    · cases a with
      | queueInLoop t f => cases hcaller
      | _ => simp [EventLoop.Act.queued]
    · cases a with
      | callFunctor => exact absurd rfl ha
      | _ => rfl

/-! ## The steps of the server -/

/-- No `shutdown` sets the state of a connection that went down since its test. -/
def Act.Prompt (s : TcpServer τ) : Act τ → Prop
  | .go t _ => ∀ c rest conn, s.stack t = .setState c :: rest → s.conns c = some conn →
    conn.conn.state_ = .kConnected ∨ conn.conn.state_ = .kDisconnecting
  | _ => True

/-- A step that keeps the number of connections below `INT_MAX`. -/
abbrev Few (_ : TcpServer τ) (_ : Act τ) (s' : TcpServer τ) : Prop := s'.accepted < 2 ^ 31 - 1

/-- A function on a stack goes on. -/
theorem Inv.resume {s s' : TcpServer τ} (h : s.Inv once) {t : τ} {inp : Input} {fr : Frame τ}
    {rest : List (Frame τ)} (hs : s.stack t = fr :: rest)
    (hok : (s.pop t rest).resume t inp fr = .ok s') (hprompt : once → (Act.go t inp).Prompt s)
    (hbound : s'.accepted < 2 ^ 31 - 1) : s'.Inv once := by
  cases fr with
  | accept =>
    simp only [TcpServer.resume] at hok
    split at hok
    · exact h.newConnection hs hok hbound
    · cases hok
      exact h.pop hs (by simp) fun _ => trivial
  | call f =>
    cases f with
    | connectEstablished c => exact h.connectEstablished hs hok
    | removeConnectionInLoop c => exact h.removeConnectionInLoop hs hok
    | connectDestroy c => exact h.connectDestroy hs hok
    | sendInLoop c message =>
      exact (h.pop hs (by simp) fun _ => by simp [Frame.Beside, Functor.refs]).sendInLoop hok
    | shutdownInLoop c =>
      exact (h.pop hs (by simp) fun _ => by simp [Frame.Beside, Functor.refs]).shutdownInLoop hok
    | other n =>
      cases hok
      exact h.pop hs (by simp) fun _ => by simp [Frame.Beside, Functor.refs]
  | holds c =>
    cases hok
    exact h.pop hs (by simp) fun _ => trivial
  | handleEvent c cbs =>
    cases cbs with
    | nil =>
      cases hok
      exact h.pop hs (by simp) fun _ => trivial
    | cons cb cbs => exact h.handler hs hok
  | closeCallback c =>
    cases hok
    exact h.closeCallback hs
  | send c message =>
    exact (h.pop hs (by simp) fun _ => trivial).runInItsLoop (h.calm hs (by simp)) rfl hok
  | setState c =>
    exact h.setDisconnecting hs (fun honce conn hc => hprompt honce c rest conn hs hc) hok
  | shutdown c =>
    exact (h.pop hs (by simp) fun _ => trivial).runInItsLoop (h.calm hs (by simp)) rfl hok
  | returns l =>
    cases hok
    exact h.callReturns hs

theorem Inv.step {s s' : TcpServer τ} (h : s.Inv once) {a : Act τ} (he : a.Enabled s)
    (hok : a.run s = .ok s') (hprompt : once → a.Prompt s)
    (hbound : s'.accepted < 2 ^ 31 - 1) : s'.Inv once := by
  cases a with
  | loop l a alive revents =>
    obtain ⟨hcaller, hloop, hs, hpoll, _⟩ := he
    cases hok
    exact h.loop hcaller hloop hs hpoll
  | go t inp =>
    simp only [Act.run, go] at hok
    split at hok
    · cases hok
      exact h
    · rename_i fr rest hs
      exact h.resume hs hok hprompt hbound
  | send t c message w => exact h.send (h.threads.user he) hok
  | shutdown t c => exact h.shutdown (h.threads.user he) hok
  | queueInLoop t l n =>
    obtain ⟨huser, hcall⟩ := he
    cases hok
    exact h.call (h.threads.user huser) rfl hcall (by simp [EventLoop.Act.queued, Functor.refs])
      rfl (by simp)
  | quit t l =>
    obtain ⟨huser, hcall⟩ := he
    cases hok
    exact h.call (h.threads.user huser) rfl hcall (by simp [EventLoop.Act.queued]) rfl (by simp)

theorem construct_inv (loop : τ) (loops : List τ) (name : String) :
    (construct loop loops name).Inv once := by
  refine ⟨⟨fun l => EventLoop.construct_inv l ChannelId.wake, fun _ => rfl,
      fun l t hp => absurd rfl hp⟩,
    ⟨fun c => ?_, fun c conn hc => ?_, rfl⟩, ⟨fun pre n post htrace => ?_, fun n hn => ?_⟩,
    fun c => ?_⟩
  · simp [construct]
  · cases hc
  · simp [construct] at htrace
  · cases hn
  · have hnone : ∀ l k, (construct loop loops name).tokens l c k = 0 := by
      intro l k
      cases k <;> rfl
    refine ⟨?_, rfl, fun _ => rfl, fun _ => rfl, ?_, ?_, fun k l _ => hnone l k, fun l hd => ?_,
      fun ha => ?_, fun conn hc => ?_, fun conn hc => ?_, fun conn hc => ?_⟩
    · rw [left, hnone]
      rfl
    · rw [left, left, hnone, hnone]
      rfl
    · rw [left, hnone]
      rfl
    · rcases hd with hd | ⟨cbs, hd⟩
      · cases hd
      · cases hd
    · obtain ⟨_, hin⟩ := ha
      cases hin
    · cases hc
    · cases hc
    · cases hc

/-! ## The law of the connections -/

/-- Until `connectDestroy` ran, the map refers to the connection, or the
functor that is due to destroy it does. -/
theorem Life.held {s : TcpServer τ} {c : Nat} (h : s.Life once c) {conn : ServerConnection τ}
    (hc : s.conns c = some conn) (h0 : s.did c .connectDestroy = 0) : s.Held c := by
  by_cases hremoved : s.did c .removeConnectionInLoop = 0
  · exact Or.inl ⟨conn.name_, h.mapped conn hc hremoved⟩
  · have hdestroyed := h.destroyed
    have hpos : 0 < s.due (s.loopOf c) (.connectDestroy c) := by
      have hleft : s.left c .connectDestroy = s.due (s.loopOf c) (.connectDestroy c) := rfl
      omega
    unfold due at hpos
    rcases Nat.eq_zero_or_pos ((s.loop (s.loopOf c)).waiting.count (.connectDestroy c)) with
      hwaits | hwaits
    · have hstarts : 0 < (s.stack (s.loopOf c)).count (.call (.connectDestroy c)) := by omega
      exact Or.inr (Or.inr ⟨_, _, List.count_pos_iff.mp hstarts, rfl⟩)
    · have hin := List.count_pos_iff.mp hwaits
      exact Or.inr (Or.inl ⟨_, _, (List.mem_append.mp hin).symm, rfl⟩)

/-- Each step of the life of a connection is made at most once. -/
theorem Life.at_most_once {s : TcpServer τ} {c : Nat} (h : s.Life True c) {k : Step}
    (hk : k ≠ .handler) : s.did c k ≤ 1 := by
  have hup := h.up
  have hclosed := h.closed trivial
  have hremoved := h.removed
  have hdestroyed := h.destroyed
  have hone : s.did c .handleClose ≤ 1 := by
    rw [hclosed]
    split <;> omega
  cases k with
  | handler => exact absurd rfl hk
  | connectEstablished =>
    rw [hup]
    split <;> omega
  | handleClose => exact hone
  | removeConnectionInLoop => omega
  | connectDestroy => omega

theorem reachable_inv {loop : τ} {loops : List τ} {name : String} {s : TcpServer τ}
    (h : ((machine loop loops name).restrict Few).Reachable s) : s.Inv False := by
  refine h.invariant ?_ ?_
  · rintro s rfl
    exact construct_inv loop loops name
  · rintro s a s' hs ⟨⟨he, hok⟩, hbound⟩
    exact hs.step he hok False.elim hbound

/-- In every run with fewer than `INT_MAX` connections, in which no `shutdown` sets
the state of a connection that is down, each connection is established, closed,
removed and destroyed at most once, in this order and by the loops that it belongs
to. It is held until it is destroyed, and so no poller has the channel of a
connection that is gone. -/
theorem every_connection_is_held_until_it_is_destroyed {loop : τ} {loops : List τ}
    {name : String} {s : TcpServer τ}
    (h : ((machine loop loops name).restrict fun s a s' => a.Prompt s ∧ Few s a s').Reachable s) :
    (∀ c what, what ≠ .handler → s.did c what ≤ 1) ∧
    (∀ before n after, s.trace = before ++ n :: after → ∀ what, n.what.needs = some what →
      ∃ n' ∈ before, n'.conn = n.conn ∧ n'.what = what) ∧
    (∀ n ∈ s.trace, ∃ conn, s.conns n.conn = some conn ∧ n.thread = s.place conn n.what) ∧
    (∀ c, c < s.accepted → s.did c .connectDestroy = 0 → s.Held c) ∧
    ∀ c conn, s.conns c = some conn → conn.registered = true → s.Held c := by
  have hinv : s.Inv True := by
    refine h.invariant ?_ ?_
    · rintro s rfl
      exact construct_inv loop loops name
    · rintro s a s' hs ⟨⟨he, hok⟩, hprompt, hbound⟩
      exact hs.step he hok (fun _ => hprompt) hbound
  refine ⟨fun c what hk => (hinv.life c).at_most_once hk, hinv.told.order, hinv.told.thread,
    fun c hlt h0 => ?_,
    fun c conn hc hreg => (hinv.life c).held hc ((hinv.life c).registered conn hc hreg).2⟩
  cases hc : s.conns c with
  | none =>
    have hfresh := (hinv.books.fresh c).mp hc
    omega
  | some conn => exact (hinv.life c).held hc h0

omit [DecidableEq τ] in
theorem prompt_of_stack {s : TcpServer τ} {t : τ} {inp : Input} {fr : Frame τ}
    {rest : List (Frame τ)} (hs : s.stack t = fr :: rest) (hfr : ∀ c, fr ≠ .setState c) :
    (Act.go t inp).Prompt s := by
  intro c rest' conn hr
  rw [hs] at hr
  exact absurd (List.cons.inj hr).1 (hfr c)

/-- A server with no other loop accepts a connection and establishes it. -/
theorem an_established_connection_is_held :
    ∃ s : TcpServer Unit, s.trace = [⟨(), 0, .connectEstablished⟩] ∧ s.Held 0 := by
  have h0 : ((machine () [] "server").restrict
      fun (s : TcpServer Unit) a s' => a.Prompt s ∧ Few s a s').Run
      (construct () [] "server") [] (construct () [] "server") := .nil
  have h1 := h0.snoc (a := .loop () .loop false 0)
    (by exact ⟨⟨⟨rfl, ⟨⟨rfl, rfl⟩, rfl⟩, rfl, by simp, by simp⟩, rfl⟩, trivial, by decide⟩)
  have h2 := h1.snoc (a := .loop () .clearQuit false 0)
    (by exact ⟨⟨⟨rfl, ⟨rfl, rfl⟩, rfl, by simp, by simp⟩, rfl⟩, trivial, by decide⟩)
  have h3 := h2.snoc (a := .loop () .whileTest false 0)
    (by exact ⟨⟨⟨rfl, ⟨rfl, rfl⟩, rfl, by simp, by simp⟩, rfl⟩, trivial, by decide⟩)
  have hacceptor : ∀ s : TcpServer Unit, ∀ active, (.poll [.acceptor] :
      EventLoop.Act Unit ChannelId Functor) = .poll active → ∀ ch ∈ active, s.Polled () ch := by
    rintro s _ ⟨⟩ ch hch
    rw [List.mem_singleton.mp hch]
    rfl
  have h4 := h3.snoc (a := .loop () (.poll [.acceptor]) false 0)
    (by exact ⟨⟨⟨rfl, ⟨rfl, rfl⟩, rfl, hacceptor _, by simp⟩, rfl⟩, trivial, by decide⟩)
  have h5 := h4.snoc (a := .loop () .handleEvent false 0)
    (by exact ⟨⟨⟨rfl, ⟨⟨rfl, rfl⟩, by decide⟩, rfl, by simp, fun c cs _ hc => by cases hc⟩, rfl⟩,
      trivial, by decide⟩)
  have h6 := h5.snoc (a := .go () ⟨some 5, [], ⟨.failed 0, [], [], false, .failed 0⟩, .failed 0⟩)
    (by exact ⟨⟨List.cons_ne_nil Frame.accept [], rfl⟩, prompt_of_stack rfl (by simp), by decide⟩)
  have h7 := h6.snoc (a := .go () ⟨none, [], ⟨.failed 0, [], [], false, .failed 0⟩, .failed 0⟩)
    (by exact ⟨⟨List.cons_ne_nil (Frame.call (.connectEstablished 0)) [.holds 0], rfl⟩,
      prompt_of_stack rfl (by simp), by decide⟩)
  have hlaw := every_connection_is_held_until_it_is_destroyed ⟨_, _, rfl, h7⟩
  refine ⟨_, ?_, hlaw.2.2.2.1 0 ?_ ?_⟩
  · rfl
  · decide
  · decide

/-- A connection that is up is closed at the end of its stream. -/
theorem readCallback_closes {c : TcpConnection} (h : c.Sound) (hup : c.Up) :
    ∃ c', Callback.readCallback_.run TcpConnection.closed c = .ok (c', true) := by
  have hread : ∃ b, c.inputBuffer_.readFd 0 (.delivered []) = .ok (b, 0, 0) := by
    have hbound := h.input.ordered.bounded
    rcases Buffer.readFd_delivered h.input.ordered 0 [] with ⟨b, hb, _⟩ | ⟨hlong, _⟩
    · exact ⟨b, by simpa using hb⟩
    · simp only [List.length_nil, maxSize] at hlong hbound
      omega
  obtain ⟨b, hb⟩ := hread
  simp only [Callback.run, TcpConnection.handleRead, TcpConnection.closed, hb, ok_bind]
  simp only [TcpConnection.handleClose, TcpConnection.closeCallback,
    TcpConnection.connectionCallback, Int.lt_irrefl, gt_iff_lt, if_false, if_true]
  rw [check_of (show c.state_ = .kConnected ∨ c.state_ = .kDisconnecting from hup)]
  exact ⟨_, rfl⟩

theorem runCallback_eq_ok {s : TcpServer τ} {t : τ} {inp : Input} {c : Nat} {cb : Callback}
    {conn : ServerConnection τ} {c' : TcpConnection} (hc : s.conns c = some conn)
    (hrun : cb.run inp.reply conn.conn = .ok (c', true)) :
    s.runCallback t inp c cb = .ok ((((s.setConn c { conn with conn := c' }).note t c
      .handler).note t c .handleClose).push t [.closeCallback c]) := by
  simp only [runCallback, deref, hc, demand_some, hrun, ok_bind, pure_eq_ok, if_true]

/-- The calls of the kernel fail, and the user asks for nothing. -/
def quiet : Input := ⟨none, [], ⟨.failed 0, [], [], false, .failed 0⟩, .failed 0⟩

/-- The thread of the server is in `shutdown` when the loop of the connection runs its
`handleClose`, and sets the state before `readCallback_` finds the end of the stream. -/
theorem a_late_setState_closes_a_connection_twice : ∃ s : TcpServer Bool,
    ((machine false [true] "server").restrict Few).Reachable s ∧ s.did 0 .handleClose = 2 := by
  have h0 : ((machine false [true] "server").restrict Few).Run (construct false [true] "server") []
    (construct false [true] "server") := .nil
  -- the base loop accepts
  have h1 := h0.snoc (a := .loop false .loop false 0)
    (by exact ⟨⟨⟨rfl, ⟨⟨rfl, rfl⟩, rfl⟩, rfl, by simp, by simp⟩, rfl⟩, by decide⟩)
  have h2 := h1.snoc (a := .loop false .clearQuit false 0)
    (by exact ⟨⟨⟨rfl, ⟨rfl, rfl⟩, rfl, by simp, by simp⟩, rfl⟩, by decide⟩)
  have h3 := h2.snoc (a := .loop false .whileTest false 0)
    (by exact ⟨⟨⟨rfl, ⟨rfl, rfl⟩, rfl, by simp, by simp⟩, rfl⟩, by decide⟩)
  have hacceptor : ∀ s : TcpServer Bool, s.loop_ = false → ∀ active, (.poll [.acceptor] :
      EventLoop.Act Bool ChannelId Functor) = .poll active → ∀ ch ∈ active, s.Polled false ch := by
    rintro s hs _ ⟨⟩ ch hch
    rw [List.mem_singleton.mp hch]
    exact hs.symm
  have h4 := h3.snoc (a := .loop false (.poll [.acceptor]) false 0)
    (by exact ⟨⟨⟨rfl, ⟨rfl, rfl⟩, rfl, hacceptor _ rfl, by simp⟩, rfl⟩, by decide⟩)
  have h5 := h4.snoc (a := .loop false .handleEvent false 0)
    (by exact ⟨⟨⟨rfl, ⟨⟨rfl, rfl⟩, by decide⟩, rfl, by simp, fun c cs _ hc => by cases hc⟩, rfl⟩,
      by decide⟩)
  have h6 := h5.snoc (a := .go false { quiet with sockfd := some 5 })
    (by exact ⟨⟨List.cons_ne_nil Frame.accept [], rfl⟩, by decide⟩)
  have h7 := h6.snoc (a := .go false quiet)
    (by exact ⟨⟨List.cons_ne_nil (Frame.returns true) _, rfl⟩, by decide⟩)
  -- the other loop establishes the connection
  have h8 := h7.snoc (a := .loop true .loop false 0)
    (by exact ⟨⟨⟨rfl, ⟨⟨rfl, rfl⟩, rfl⟩, rfl, by simp, by simp⟩, rfl⟩, by decide⟩)
  have h9 := h8.snoc (a := .loop true .clearQuit false 0)
    (by exact ⟨⟨⟨rfl, ⟨rfl, rfl⟩, rfl, by simp, by simp⟩, rfl⟩, by decide⟩)
  have h10 := h9.snoc (a := .loop true .whileTest false 0)
    (by exact ⟨⟨⟨rfl, ⟨rfl, rfl⟩, rfl, by simp, by simp⟩, rfl⟩, by decide⟩)
  have h11 := h10.snoc (a := .loop true (.poll []) false 0)
    (by exact ⟨⟨⟨rfl, ⟨rfl, rfl⟩, rfl, by simp, by simp⟩, rfl⟩, by decide⟩)
  have h12 := h11.snoc (a := .loop true .doPendingFunctors_ false 0)
    (by exact ⟨⟨⟨rfl, ⟨⟨rfl, rfl⟩, rfl⟩, rfl, by simp, by simp⟩, rfl⟩, by decide⟩)
  have h13 := h12.snoc (a := .loop true .swap false 0)
    (by exact ⟨⟨⟨rfl, ⟨rfl, rfl⟩, rfl, by simp, by simp⟩, rfl⟩, by decide⟩)
  have h14 := h13.snoc (a := .loop true .callFunctor false 0)
    (by exact ⟨⟨⟨rfl, ⟨⟨rfl, rfl⟩, List.cons_ne_nil _ _⟩, rfl, by simp, by simp⟩, rfl⟩, by decide⟩)
  have h15 := h14.snoc (a := .go true quiet)
    (by exact ⟨⟨List.cons_ne_nil (Frame.call (.connectEstablished 0)) _, rfl⟩, by decide⟩)
  have h16 := h15.snoc (a := .loop true .functorReturns false 0)
    (by exact ⟨⟨⟨rfl, ⟨rfl, rfl⟩, rfl, by simp, by simp⟩, rfl⟩, by decide⟩)
  have h17 := h16.snoc (a := .loop true .clearCalling false 0)
    (by exact ⟨⟨⟨rfl, ⟨⟨rfl, rfl⟩, rfl⟩, rfl, by simp, by simp⟩, rfl⟩, by decide⟩)
  have h18 := h17.snoc (a := .loop true .whileTest false 0)
    (by exact ⟨⟨⟨rfl, ⟨rfl, rfl⟩, rfl, by simp, by simp⟩, rfl⟩, by decide⟩)
  have hconnection : ∀ s : TcpServer Bool, (∃ conn, s.conns 0 = some conn ∧ conn.loop_ = true ∧
      conn.registered = true) → ∀ active, (.poll [.connection 0] : EventLoop.Act Bool ChannelId
      Functor) = .poll active → ∀ ch ∈ active, s.Polled true ch := by
    rintro s hs _ ⟨⟩ ch hch
    rw [List.mem_singleton.mp hch]
    exact hs
  have h19 := h18.snoc (a := .loop true (.poll [.connection 0]) false 0)
    (by exact ⟨⟨⟨rfl, ⟨rfl, rfl⟩, rfl, hconnection _ ⟨_, rfl, rfl, rfl⟩, by simp⟩, rfl⟩, by decide⟩)
  -- `shutdown` finds `kConnected`, and the peer hangs up
  have h20 := h19.snoc (a := .shutdown false 0)
    (by exact ⟨⟨⟨Or.inr (Or.inl rfl), fun fr rest hr => by cases hr; rfl⟩, rfl⟩, by decide⟩)
  have h21 := h20.snoc (a := .loop true .handleEvent true POLLHUP)
    (by exact ⟨⟨⟨rfl, ⟨⟨rfl, rfl⟩, by decide⟩, rfl, by simp, fun c cs _ hc => by
      cases hc
      exact ⟨fun _ => Or.inl ⟨"server#1", rfl⟩, fun _ => rfl⟩⟩, rfl⟩, by decide⟩)
  have h22 := h21.snoc (a := .go true quiet)
    (by exact ⟨⟨List.cons_ne_nil (Frame.handleEvent 0 (dispatched POLLHUP)) _, rfl⟩, by decide⟩)
  have h23 := h22.snoc (a := .go true quiet)
    (by exact ⟨⟨List.cons_ne_nil (Frame.closeCallback 0) _, rfl⟩, by decide⟩)
  have h24 := h23.snoc (a := .go true quiet)
    (by exact ⟨⟨List.cons_ne_nil (Frame.returns false) _, rfl⟩, by decide⟩)
  have h25 := h24.snoc (a := .go true quiet)
    (by exact ⟨⟨List.cons_ne_nil (Frame.holds 0) _, rfl⟩, by decide⟩)
  have h26 := h25.snoc (a := .go false quiet)
    (by exact ⟨⟨List.cons_ne_nil (Frame.setState 0) _, rfl⟩, by decide⟩)
  have hinv := reachable_inv ⟨_, _, rfl, h26⟩
  obtain ⟨c', hclose⟩ := readCallback_closes ((hinv.life 0).sound _ rfl) (Or.inr rfl)
  have h27 := h26.snoc (a := .go true { quiet with reply := TcpConnection.closed })
    (by exact ⟨⟨List.cons_ne_nil (Frame.handleEvent 0 [.readCallback_]) _,
      runCallback_eq_ok rfl hclose⟩, show 1 < 2 ^ 31 - 1 by decide⟩)
  exact ⟨_, ⟨_, _, rfl, h27⟩, rfl⟩

end TcpServer

end jmuduo.net
