-- What refers to the connections of a server, and what follows for their descriptors:
-- a reference is made from another one, so a connection that is gone stays gone, and no
-- poller has two channels with one descriptor.
import Jmuduo.ServerNames
import Jmuduo.ServerRuns

open outcome runs maps

namespace jmuduo.net

/-! ## The descriptor of a connection -/

namespace TcpConnection

/-- The descriptor of the channel, which is the one of `socket_`. -/
def fd (c : TcpConnection) : Int := c.channel_.fd_

theorem queueHighWaterMark_fd (oldlen len : Int) (c : TcpConnection) :
    (c.queueHighWaterMark oldlen len).fd = c.fd := by
  unfold queueHighWaterMark
  split <;> rfl

theorem queueWriteComplete_fd (c : TcpConnection) : c.queueWriteComplete.fd = c.fd := by
  unfold queueWriteComplete
  split <;> rfl

theorem sendRest_fd {c c' : TcpConnection} {message : Message} {nwrote remaining : Int}
    (hok : sendRest message nwrote remaining c = .ok c') : c'.fd = c.fd := by
  simp only [sendRest, bind_eq_ok] at hok
  obtain ⟨_, _, hok⟩ := hok
  split at hok
  · simp only [bind_eq_ok] at hok
    obtain ⟨len, _, out, _, hok⟩ := hok
    have hnotice := queueHighWaterMark_fd
      (toInt (c.log [.send message.bytes]).outputBuffer_.readableBytes) len
      (c.log [.send message.bytes])
    split at hok
    · cases hok
      exact hnotice
    · cases hok
      exact hnotice
  · cases hok
    rfl

theorem sendInLoop_fd {c c' : TcpConnection} {message : Message} {w : WriteResult}
    (hok : c.sendInLoop message w = .ok c') : c'.fd = c.fd := by
  simp only [sendInLoop] at hok
  split at hok
  · split at hok
    · rw [sendRest_fd hok]
      split
      · exact queueWriteComplete_fd _
      · rfl
    · split at hok
      · cases hok
        rfl
      · rw [sendRest_fd hok]
        rfl
  · rw [sendRest_fd hok]

theorem shutdownInLoop_fd (c : TcpConnection) : c.shutdownInLoop.fd = c.fd := by
  unfold shutdownInLoop
  split <;> rfl

theorem drained_fd (c : TcpConnection) : c.drained.fd = c.fd := by
  have hnotice : ({ c with channel_ := c.channel_.disableWriting } :
      TcpConnection).queueWriteComplete.fd = c.fd := queueWriteComplete_fd _
  simp only [drained]
  split
  · rw [shutdownInLoop_fd, hnotice]
  · exact hnotice

theorem handleWrite_fd {c c' : TcpConnection} {w : WriteResult}
    (hok : c.handleWrite w = .ok c') : c'.fd = c.fd := by
  simp only [handleWrite] at hok
  split at hok
  · split at hok
    · split at hok
      · cases hok
        exact drained_fd _
      · cases hok
        rfl
    · cases hok
      rfl
  · cases hok
    rfl

/-- No function changes the descriptor. -/
theorem kept_fd (fd : Int) : Kept fun c => c.fd = fd where
  call call c c' hc hok := by
    cases call with
    | send message w =>
      simp only [runCall, send] at hok
      split at hok
      · rw [sendInLoop_fd hok, hc]
      · cases hok
        exact hc
    | shutdown =>
      cases hok
      unfold shutdown
      split
      · rw [shutdownInLoop_fd]
        exact hc
      · exact hc
    | retrieve len =>
      cases hok
      exact hc
  notice _ _ _ hc := hc
  input _ _ hc := hc
  revents _ _ hc := hc
  down _ hc := hc
  write w c c' hc hok := by rw [handleWrite_fd hok, hc]

end TcpConnection

namespace TcpServer

variable {τ : Type} [DecidableEq τ] {once : Prop}

/-! ## Where a reference comes from -/

/-- What the loops are told of a connection. -/
def slot (conn : ServerConnection τ) : Int × τ × Bool :=
  (conn.conn.fd, conn.loop_, conn.registered)

/-- What `getNextLoop` reads. -/
def pool (s : TcpServer τ) : τ × List τ × Nat := (s.loop_, s.loops_, s.nextId_)

/-- None is accepted, and none that nothing referred to is referred to again. The
pollers and the descriptors are as before. -/
structure Stays (s s' : TcpServer τ) : Prop where
  accepted : s'.accepted = s.accepted
  pool : s'.pool = s.pool
  held : ∀ c, s'.Held c → s.Held c
  slot : ∀ c, (s'.conns c).map slot = (s.conns c).map slot
  did : ∀ c k, k ∈ [Step.connectEstablished, .connectDestroy] → s'.did c k = s.did c k

omit [DecidableEq τ] in
theorem Held.of_frame {s : TcpServer τ} {t : τ} {fr : Frame τ} {c : Nat}
    (hfr : fr ∈ s.stack t) (hc : fr.refs = some c) : s.Held c :=
  Or.inr (Or.inr ⟨t, fr, hfr, hc⟩)

section

variable {s s₁ s' : TcpServer τ}

omit [DecidableEq τ] in
theorem Stays.refl (s : TcpServer τ) : Stays s s :=
  ⟨rfl, rfl, fun _ h => h, fun _ => rfl, fun _ _ _ => rfl⟩

omit [DecidableEq τ] in
theorem Stays.trans (h : Stays s s₁) (h' : Stays s₁ s') : Stays s s' :=
  ⟨h'.accepted.trans h.accepted, h'.pool.trans h.pool, fun c hc => h.held c (h'.held c hc),
    fun c => (h'.slot c).trans (h.slot c), fun c k hk => (h'.did c k hk).trans (h.did c k hk)⟩

theorem Stays.pop (h : Stays s s₁) {t : τ} {fr : Frame τ} {rest : List (Frame τ)}
    (hs : s₁.stack t = fr :: rest) : Stays s (s₁.pop t rest) := by
  refine ⟨h.accepted, h.pool, fun c hc => h.held c ?_, h.slot, h.did⟩
  rcases hc with hmap | hqueue | ⟨u, fr', hfr, hrefs⟩
  · exact Or.inl hmap
  · exact Or.inr (Or.inl hqueue)
  · by_cases hu : u = t
    · subst hu
      simp only [TcpServer.pop, Function.update_self] at hfr
      exact .of_frame (hs ▸ List.mem_cons_of_mem _ hfr) hrefs
    · simp only [TcpServer.pop, Function.update_of_ne hu] at hfr
      exact .of_frame hfr hrefs

theorem Stays.push (h : Stays s s₁) (t : τ) {frames : List (Frame τ)}
    (hframes : ∀ fr ∈ frames, ∀ c, fr.refs = some c → s.Held c) :
    Stays s (s₁.push t frames) := by
  refine ⟨h.accepted, h.pool, fun c hc => ?_, h.slot, h.did⟩
  rcases hc with hmap | hqueue | ⟨u, fr, hfr, hrefs⟩
  · exact h.held c (Or.inl hmap)
  · exact h.held c (Or.inr (Or.inl hqueue))
  · by_cases hu : u = t
    · subst hu
      simp only [TcpServer.push, Function.update_self, List.mem_append] at hfr
      rcases hfr with hnew | hold
      · exact hframes fr hnew c hrefs
      · exact h.held c (.of_frame hold hrefs)
    · simp only [TcpServer.push, Function.update_of_ne hu] at hfr
      exact h.held c (.of_frame hfr hrefs)

omit [DecidableEq τ] in
theorem Stays.note (h : Stays s s₁) (t : τ) (c : Nat) {k : Step}
    (hk : k ∉ [Step.connectEstablished, .connectDestroy]) : Stays s (s₁.note t c k) := by
  refine ⟨h.accepted, h.pool, fun c' hc => h.held c' hc, h.slot, fun c' k' hk' => ?_⟩
  rw [did_note, h.did c' k' hk', if_neg, Nat.add_zero]
  rintro ⟨_, rfl⟩
  exact hk hk'

omit [DecidableEq τ] in
theorem Stays.setConn (h : Stays s s₁) {c : Nat} {conn conn' : ServerConnection τ}
    (hc : s₁.conns c = some conn) (hslot : TcpServer.slot conn' = TcpServer.slot conn) :
    Stays s (s₁.setConn c conn') := by
  refine ⟨h.accepted, h.pool, h.held, fun c' => ?_, h.did⟩
  rw [← h.slot c']
  by_cases hc' : c' = c
  · subst hc'
    rw [show (s₁.setConn c' conn').conns c' = some conn' from Function.update_self _ _ _, hc,
      Option.map_some, Option.map_some, hslot]
  · rw [show (s₁.setConn c conn').conns c' = s₁.conns c' from Function.update_of_ne hc' _ _]

omit [DecidableEq τ] in
theorem Stays.forget (h : Stays s s₁) (name : String) : Stays s (s₁.forget name) := by
  refine ⟨h.accepted, h.pool, fun c hc => h.held c ?_, h.slot, h.did⟩
  rcases hc with ⟨name', hmap⟩ | hrest
  · refine Or.inl ⟨name', ?_⟩
    simp only [TcpServer.forget, Map.find_erase] at hmap
    split at hmap
    · cases hmap
    · exact hmap
  · exact Or.inr hrest

/-- A step of a loop has its functors from its queue, or queued them. -/
theorem functors_apply {κ φ : Type} [DecidableEq κ] (e : EventLoop τ κ φ)
    (a : EventLoop.Act τ κ φ) {f : φ}
    (hf : f ∈ (a.apply e).pendingFunctors_ ∨ f ∈ (a.apply e).functors) :
    f ∈ a.queued ∨ f ∈ e.pendingFunctors_ ∨ f ∈ e.functors := by
  cases a with
  | queueInLoop t cb =>
    simp only [EventLoop.Act.apply, EventLoop.queueInLoop, EventLoop.setPhase,
      List.mem_append] at hf
    rcases hf with (hold | hnew) | hbatch
    · exact Or.inr (Or.inl hold)
    · exact Or.inl hnew
    · exact Or.inr (Or.inr hbatch)
  | callReturns t =>
    simp only [EventLoop.Act.apply, EventLoop.callReturns] at hf
    split at hf <;> exact Or.inr hf
  | whileTest =>
    simp only [EventLoop.Act.apply, EventLoop.whileTest] at hf
    split at hf <;> exact Or.inr hf
  | handleEvent =>
    obtain ⟨counter, pc, _, he⟩ := EventLoop.handleEvent.spec e
    simp only [EventLoop.Act.apply, he] at hf
    exact Or.inr hf
  | doPendingFunctors_ => exact Or.inr (hf.imp_right fun h => absurd h List.not_mem_nil)
  | swap => exact Or.inr hf.symm
  | callFunctor =>
    simp only [EventLoop.Act.apply, EventLoop.callFunctor] at hf
    split at hf
    · exact Or.inr hf
    · rename_i hfs
      exact Or.inr (hf.imp_right fun h => hfs ▸ List.mem_cons_of_mem _ h)
  | _ => exact Or.inr hf

theorem Stays.act (h : Stays s s₁) (l : τ) {a : EventLoop.Act τ ChannelId Functor}
    (hq : ∀ f ∈ a.queued, ∀ c, f.refs = some c → s.Held c) : Stays s (s₁.act l a) := by
  refine ⟨h.accepted, h.pool, fun c hc => ?_, h.slot, h.did⟩
  rcases hc with hmap | ⟨m, f, hf, hrefs⟩ | hframe
  · exact h.held c (Or.inl hmap)
  · by_cases hm : m = l
    · subst hm
      simp only [TcpServer.act, Function.update_self] at hf
      rcases functors_apply _ _ hf with hnew | hold
      · exact hq f hnew c hrefs
      · exact h.held c (Or.inr (Or.inl ⟨m, f, hold, hrefs⟩))
    · simp only [TcpServer.act, Function.update_of_ne hm] at hf
      exact h.held c (Or.inr (Or.inl ⟨m, f, hf, hrefs⟩))
  · exact h.held c (Or.inr (Or.inr hframe))

theorem Stays.runInLoop (h : Stays s s₁) (t l : τ) {f : Functor}
    (hf : ∀ c, f.refs = some c → s.Held c) : Stays s (s₁.runInLoop t l f) := by
  unfold TcpServer.runInLoop
  split
  · refine h.push t fun fr hfr c hrefs => ?_
    rw [List.mem_singleton.mp hfr] at hrefs
    exact hf c hrefs
  · refine (h.act l fun g hg c hrefs => ?_).push t fun fr hfr c hrefs => ?_
    · rw [List.mem_singleton.mp hg] at hrefs
      exact hf c hrefs
    · rw [List.mem_singleton.mp hfr] at hrefs
      cases hrefs

/-! ## The steps -/

/-- The step puts the channel of the connection into the poller, or takes it out. -/
structure Turns (s s' : TcpServer τ) (c : Nat) (k : Step) : Prop where
  accepted : s'.accepted = s.accepted
  pool : s'.pool = s.pool
  held : ∀ c, s'.Held c → s.Held c
  slot : ∀ c', (s'.conns c').map slot = if c' = c then
    (s.conns c').map fun conn => (conn.conn.fd, conn.loop_, decide (k = .connectEstablished))
    else (s.conns c').map slot
  did : ∀ c' k', k' ∈ [Step.connectEstablished, .connectDestroy] →
    s'.did c' k' = s.did c' k' + if c = c' ∧ k = k' then 1 else 0

/-- The step accepts a connection with the descriptor, and gives it to the next loop. -/
structure Accepts (s s' : TcpServer τ) (fd : Int) (l : τ) : Prop where
  accepted : s'.accepted = s.accepted + 1
  pool : s.loops_ = [] ∧ l = s.loop_ ∧ s'.pool = s.pool ∨
    s.loops_[s.nextId_]? = some l ∧ s'.pool = (s.loop_, s.loops_,
      if s.nextId_ + 1 = s.loops_.length then 0 else s.nextId_ + 1)
  held : ∀ c, s'.Held c → s.Held c ∨ c = s.accepted
  slot : ∀ c, (s'.conns c).map slot =
    if c = s.accepted then some (fd, l, false) else (s.conns c).map slot
  did : ∀ c k, k ∈ [Step.connectEstablished, .connectDestroy] → s'.did c k = s.did c k

omit [DecidableEq τ] in
theorem Stays.onConn (h : Stays s s₁) {c : Nat} {f : TcpConnection → Outcome TcpConnection}
    (hfd : ∀ conn conn', f conn = .ok conn' → conn'.fd = conn.fd)
    (hok : s₁.onConn c f = .ok s') : Stays s s' := by
  simp only [TcpServer.onConn, deref, bind_eq_ok, demand_eq_ok] at hok
  obtain ⟨conn, hc, c', hrun, hok⟩ := hok
  cases hok
  refine h.setConn hc ?_
  simp only [TcpServer.slot, hfd _ _ hrun]

theorem Stays.runInItsLoop (h : Stays s s₁) {t : τ} {c : Nat} {f : Functor} (hf : f.refs = none)
    (hok : s₁.runInItsLoop t c f = .ok s') : Stays s s' := by
  simp only [TcpServer.runInItsLoop, deref, bind_eq_ok, demand_eq_ok] at hok
  obtain ⟨conn, _, hok⟩ := hok
  cases hok
  exact h.runInLoop t conn.loop_ (by simp [hf])

theorem Stays.setDisconnecting (h : Stays s s₁) {t : τ} {c : Nat}
    (hok : s₁.setDisconnecting t c = .ok s') : Stays s s' := by
  simp only [TcpServer.setDisconnecting, deref, bind_eq_ok, demand_eq_ok] at hok
  obtain ⟨conn, hc, hok⟩ := hok
  cases hok
  exact (h.setConn hc (by rfl)).push t (by simp [Frame.refs])

omit [DecidableEq τ] in
/-- A connection got or lost its place in the poller. -/
theorem Stays.turn (h : Stays s s₁) {c : Nat} {conn : ServerConnection τ} {c' : TcpConnection}
    {k : Step} (hc : s₁.conns c = some conn) (hfd : c'.fd = conn.conn.fd) (t : τ) {b : Bool}
    (hb : b = decide (k = .connectEstablished)) :
    Turns s ((s₁.setConn c { conn with registered := b, conn := c' }).note t c k) c k := by
  refine ⟨h.accepted, h.pool, h.held, fun d => ?_, fun d k' hk' => ?_⟩
  · have hd := h.slot d
    split
    · rename_i e
      subst e
      rw [hc] at hd
      obtain ⟨conn₀, hconn₀, e₀⟩ := Option.map_eq_some_iff.mp hd.symm
      have hnew : ((s₁.setConn d { conn with registered := b, conn := c' }).note t d k).conns d =
        some { conn with registered := b, conn := c' } := Function.update_self _ _ _
      simp only [TcpServer.slot, Prod.mk.injEq] at e₀
      rw [hnew, hconn₀, Option.map_some, Option.map_some, TcpServer.slot, hfd, hb, e₀.1, e₀.2.1]
    · rename_i e
      rw [← hd]
      exact congrArg (Option.map TcpServer.slot) (Function.update_of_ne e _ _)
  · rw [did_note, did_setConn, h.did d k' hk']

theorem Callback.run_fd {cb : Callback} {r : Reply} {c c' : TcpConnection} {closed : Bool}
    (hok : cb.run r c = .ok (c', closed)) : c'.fd = c.fd := by
  have hkept := TcpConnection.kept_fd c.fd
  cases cb with
  | closeCallback_ =>
    simp only [Callback.run, bind_eq_ok, pure_eq_ok, Except.ok.injEq, Prod.mk.injEq] at hok
    obtain ⟨c₁, hrun, rfl, _⟩ := hok
    exact hkept.handleClose rfl hrun
  | errorCallback_ =>
    cases hok
    rfl
  | readCallback_ =>
    simp only [Callback.run, bind_eq_ok, pure_eq_ok, Except.ok.injEq, Prod.mk.injEq] at hok
    obtain ⟨_, _, c₁, hrun, rfl, _⟩ := hok
    exact hkept.handleRead rfl hrun
  | writeCallback_ =>
    simp only [Callback.run, bind_eq_ok, pure_eq_ok, Except.ok.injEq, Prod.mk.injEq] at hok
    obtain ⟨c₁, hrun, rfl, _⟩ := hok
    exact TcpConnection.handleWrite_fd hrun

theorem Stays.runCallback (h : Stays s s₁) {t : τ} {inp : Input} {c : Nat} {cb : Callback}
    (hc : s.Held c) (hok : s₁.runCallback t inp c cb = .ok s') : Stays s s' := by
  simp only [TcpServer.runCallback, deref, bind_eq_ok, demand_eq_ok] at hok
  obtain ⟨conn, hconn, ⟨c', closed⟩, hrun, hok⟩ := hok
  have hset : Stays s (s₁.setConn c { conn with conn := c' }) := by
    refine h.setConn hconn ?_
    simp only [TcpServer.slot, Callback.run_fd hrun]
  have hran := hset.note t c (k := .handler) (by decide)
  cases closed with
  | false =>
    cases hok
    exact hran
  | true =>
    cases hok
    refine (hran.note t c (k := .handleClose) (by decide)).push t fun fr hfr c' hrefs => ?_
    rw [List.mem_singleton.mp hfr] at hrefs
    cases hrefs
    exact hc

/-- A frame that holds the connection joins the stack. -/
theorem Stays.hold (h : Stays s s₁) (t : τ) {c : Nat} (hc : s.Held c) :
    Stays s (s₁.push t [.holds c]) := by
  refine h.push t fun fr hfr c' hrefs => ?_
  rw [List.mem_singleton.mp hfr] at hrefs
  cases hrefs
  exact hc

theorem Stays.removeConnectionInLoop (h : Stays s s₁) {t : τ} {c : Nat} (hc : s.Held c)
    (hok : s₁.removeConnectionInLoop t c = .ok s') : Stays s s' := by
  simp only [TcpServer.removeConnectionInLoop, deref, bind_eq_ok, demand_eq_ok] at hok
  obtain ⟨conn, _, hok⟩ := hok
  cases hok
  refine ((h.forget conn.name_).note t c (by decide)).runInLoop t conn.loop_ fun c' hrefs => ?_
  cases hrefs
  exact hc

omit [DecidableEq τ] in
theorem Accepts.stays {fd : Int} {l : τ} (h : Accepts s s₁ fd l) (h' : Stays s₁ s') :
    Accepts s s' fd l := by
  refine ⟨h'.accepted.trans h.accepted, ?_, fun c hc => h.held c (h'.held c hc),
    fun c => (h'.slot c).trans (h.slot c), fun c k hk => (h'.did c k hk).trans (h.did c k hk)⟩
  rw [h'.pool]
  exact h.pool

omit [DecidableEq τ] in
/-- The next loop is the one at `nextId_`, or the base loop where there is no other. -/
theorem getNextLoop.spec {l : τ} (hok : s.getNextLoop = .ok (l, s')) : ∃ nextId,
    s' = { s with nextId_ := nextId } ∧ (s.loops_ = [] ∧ l = s.loop_ ∧ nextId = s.nextId_ ∨
      s.loops_[s.nextId_]? = some l ∧
        nextId = if s.nextId_ + 1 = s.loops_.length then 0 else s.nextId_ + 1) := by
  unfold getNextLoop at hok
  split at hok
  · rename_i hempty
    cases hok
    exact ⟨s.nextId_, rfl, Or.inl ⟨List.isEmpty_iff.mp hempty, rfl, rfl⟩⟩
  · simp only [bind_eq_ok, demand_eq_ok, pure_eq_ok, Except.ok.injEq, Prod.mk.injEq] at hok
    obtain ⟨l', hl, rfl, rfl⟩ := hok
    exact ⟨_, rfl, Or.inr ⟨hl, rfl⟩⟩

theorem Stays.newConnection (h : Stays s s₁) {t : τ} {fd : Int}
    (hok : s₁.newConnection t fd = .ok s') : ∃ l, Accepts s s' fd l := by
  simp only [TcpServer.newConnection, bind_eq_ok] at hok
  obtain ⟨⟨ioLoop, s₂⟩, hnext, hok⟩ := hok
  obtain ⟨nextId, rfl, hpool⟩ := getNextLoop.spec hnext
  cases hok
  have htaken : Accepts s (s₁.take ⟨connName s₁.name_ s₁.nextConnId_, ioLoop, false,
      .construct fd false false⟩ nextId) fd ioLoop := by
    obtain ⟨hloop, hloops, hid⟩ : s₁.loop_ = s.loop_ ∧ s₁.loops_ = s.loops_ ∧
        s₁.nextId_ = s.nextId_ := by simpa [TcpServer.pool] using h.pool
    refine ⟨congrArg (· + 1) h.accepted, ?_, fun c hc => ?_, fun c => ?_, h.did⟩
    · simpa [TcpServer.pool, TcpServer.take, TcpServer.setConn, hloop, hloops, hid] using hpool
    · rcases hc with ⟨name, hmap⟩ | hrest
      · simp only [TcpServer.take, Map.find_insert] at hmap
        split at hmap
        · cases hmap
          exact Or.inr h.accepted
        · exact Or.inl (h.held c (Or.inl ⟨name, hmap⟩))
      · exact Or.inl (h.held c (Or.inr hrest))
    · rw [← h.accepted, ← h.slot c]
      split
      · rename_i e
        rw [e]
        exact congrArg (Option.map TcpServer.slot) (Function.update_self s₁.accepted _ s₁.conns)
      · rename_i e
        exact congrArg (Option.map TcpServer.slot) (Function.update_of_ne e _ s₁.conns)
  -- the map refers to the new connection
  have hnew : (s₁.take ⟨connName s₁.name_ s₁.nextConnId_, ioLoop, false,
      .construct fd false false⟩ nextId).Held s₁.accepted :=
    Or.inl ⟨connName s₁.name_ s₁.nextConnId_, Map.find_insert_self _ _ _⟩
  refine ⟨ioLoop, htaken.stays (((Stays.refl _).hold t hnew).runInLoop t ioLoop fun c hrefs => ?_)⟩
  cases hrefs
  exact hnew

/-- A function of a thread goes on. -/
theorem resume_cases {t : τ} {inp : Input} {fr : Frame τ} {rest : List (Frame τ)}
    (hs : s.stack t = fr :: rest) (hok : (s.pop t rest).resume t inp fr = .ok s') :
    Stays s s' ∨
    (∃ c, s.Held c ∧ ∃ k ∈ [Step.connectEstablished, .connectDestroy], Turns s s' c k) ∨
    ∃ fd l, fr = .accept ∧ inp.sockfd = some fd ∧ Accepts s s' fd l := by
  have hpop : Stays s (s.pop t rest) := (Stays.refl s).pop hs
  have hheld : ∀ c, fr.refs = some c → s.Held c := fun c hc =>
    .of_frame (hs ▸ List.mem_cons_self) hc
  cases fr with
  | accept =>
    simp only [TcpServer.resume] at hok
    split at hok
    · rename_i fd hfd
      obtain ⟨l, haccepts⟩ := hpop.newConnection hok
      exact Or.inr (Or.inr ⟨fd, l, rfl, hfd, haccepts⟩)
    · cases hok
      exact Or.inl hpop
  | call f =>
    cases f with
    | connectEstablished c =>
      simp only [TcpServer.resume, TcpServer.runFunctor, TcpServer.connectEstablished, deref,
        bind_eq_ok, demand_eq_ok] at hok
      obtain ⟨conn, hc, c', hrun, hok⟩ := hok
      cases hok
      have hfd : c'.fd = conn.conn.fd :=
        (TcpConnection.kept_fd conn.conn.fd).connectionCallback (c := conn.conn.established) rfl
          hrun
      exact Or.inr (Or.inl ⟨c, hheld c rfl, .connectEstablished, by simp,
        hpop.turn hc hfd t rfl⟩)
    | removeConnectionInLoop c =>
      have hc := hheld c rfl
      exact Or.inl ((hpop.hold t hc).removeConnectionInLoop hc hok)
    | connectDestroy c =>
      simp only [TcpServer.resume, TcpServer.runFunctor, TcpServer.connectDestroy, deref,
        bind_eq_ok, demand_eq_ok] at hok
      obtain ⟨conn, hc, c', hrun, hok⟩ := hok
      cases hok
      have hfd : c'.fd = conn.conn.fd :=
        (TcpConnection.kept_fd conn.conn.fd).connectDestroy rfl hrun
      exact Or.inr (Or.inl ⟨c, hheld c rfl, .connectDestroy, by simp,
        hpop.turn hc hfd t rfl⟩)
    | sendInLoop c message =>
      exact Or.inl (hpop.onConn (fun _ _ h => TcpConnection.sendInLoop_fd h) hok)
    | shutdownInLoop c =>
      refine Or.inl (hpop.onConn (c := c) (f := fun conn => pure conn.shutdownInLoop) ?_ hok)
      rintro conn _ ⟨⟩
      exact conn.shutdownInLoop_fd
    | other n =>
      cases hok
      exact Or.inl hpop
  | holds c =>
    cases hok
    exact Or.inl hpop
  | handleEvent c cbs =>
    have hc := hheld c rfl
    cases cbs with
    | nil =>
      cases hok
      exact Or.inl hpop
    | cons cb cbs =>
      refine Or.inl ((hpop.push t fun fr hfr c' hrefs => ?_).runCallback hc hok)
      rw [List.mem_singleton.mp hfr] at hrefs
      cases hrefs
      exact hc
  | closeCallback c =>
    have hc := hheld c rfl
    cases hok
    refine Or.inl ((hpop.hold t hc).runInLoop t s.loop_ fun c' hrefs => ?_)
    cases hrefs
    exact hc
  | send c message => exact Or.inl (hpop.runInItsLoop rfl hok)
  | setState c => exact Or.inl (hpop.setDisconnecting hok)
  | shutdown c => exact Or.inl (hpop.runInItsLoop rfl hok)
  | returns l =>
    cases hok
    exact Or.inl (hpop.act l (by simp [EventLoop.Act.queued]))

omit [DecidableEq τ] in
/-- What a loop starts refers only to connections that something refers to. -/
theorem begun_held {l : τ} {a : EventLoop.Act τ ChannelId Functor} {alive : Bool}
    {revents : Mask} (halive : ∀ c cs, a = .handleEvent →
      (s.loop l).activeChannels_ = .connection c :: cs → (alive = true ↔ s.Held c)) :
    ∀ fr ∈ s.begun l a alive revents, ∀ c, fr.refs = some c → s.Held c := by
  intro fr hfr c hc
  unfold begun at hfr
  split at hfr
  · rw [List.mem_singleton.mp hfr] at hc
    cases hc
  · rename_i c' cs hactive
    split at hfr
    · rename_i hlock
      rw [List.mem_singleton.mp hfr] at hc
      cases hc
      exact (halive c cs rfl hactive).mp hlock
    · cases hfr
  · rename_i f fs hf
    rw [List.mem_singleton.mp hfr] at hc
    exact Or.inr (Or.inl ⟨l, f, Or.inr (hf ▸ List.mem_cons_self), hc⟩)
  · cases hfr

/-- Every step leaves the references and the pollers as they are, but for the place of
one connection in its poller, or accepts a connection. -/
theorem step_cases {a : Act τ} (he : a.Enabled s) (hok : a.run s = .ok s') :
    Stays s s' ∨
    (∃ c, s.Held c ∧ ∃ k ∈ [Step.connectEstablished, .connectDestroy], Turns s s' c k) ∨
    ∃ t inp rest fd l, a = .go t inp ∧ s.stack t = .accept :: rest ∧ inp.sockfd = some fd ∧
      Accepts s s' fd l := by
  cases a with
  | loop l a alive revents =>
    obtain ⟨hcaller, _, _, _, halive⟩ := he
    cases hok
    refine Or.inl (((Stays.refl s).act l fun f hf => ?_).push l (begun_held halive))
    cases a with
    | queueInLoop t f => cases hcaller
    | _ => cases hf
  | go t inp =>
    simp only [Act.run, TcpServer.go] at hok
    split at hok
    · cases hok
      exact Or.inl (.refl s)
    · rename_i fr rest hs
      rcases resume_cases hs hok with h | h | ⟨fd, l, rfl, hfd, h⟩
      · exact Or.inl h
      · exact Or.inr (Or.inl h)
      · exact Or.inr (Or.inr ⟨t, inp, rest, fd, l, rfl, hs, hfd, h⟩)
  | send t c message w =>
    simp only [Act.run, send, deref, bind_eq_ok, demand_eq_ok] at hok
    obtain ⟨conn, _, hok⟩ := hok
    split at hok
    · split at hok
      · exact Or.inl ((Stays.refl s).onConn (fun _ _ h => TcpConnection.sendInLoop_fd h) hok)
      · cases hok
        exact Or.inl ((Stays.refl s).push t (by simp [Frame.refs]))
    · cases hok
      exact Or.inl (.refl s)
  | shutdown t c =>
    simp only [Act.run, shutdown, deref, bind_eq_ok, demand_eq_ok] at hok
    obtain ⟨conn, hc, hok⟩ := hok
    split at hok
    · cases hok
      exact Or.inl ((Stays.refl s).push t (by simp [Frame.refs]))
    · cases hok
      exact Or.inl (.refl s)
  | queueInLoop t l n =>
    cases hok
    refine Or.inl (((Stays.refl s).act l fun f hf c hrefs => ?_).push t ?_)
    · rw [List.mem_singleton.mp hf] at hrefs
      cases hrefs
    · simp [Frame.refs]
  | quit t l =>
    cases hok
    exact Or.inl (((Stays.refl s).act l (by simp [EventLoop.Act.queued])).push t
      (by simp [Frame.refs]))

end

/-! ## The descriptors -/

/-- The descriptor is the one of a connection that something refers to. The last
reference closes `socket_`. -/
def Opens (s : TcpServer τ) (c : Nat) (fd : Int) : Prop :=
  s.Held c ∧ ∃ conn, s.conns c = some conn ∧ conn.conn.fd = fd

/-- The kernel gives no descriptor that is open. -/
def Act.Unused (s : TcpServer τ) : Act τ → Prop
  | .go t inp => ∀ rest fd, s.stack t = .accept :: rest → inp.sockfd = some fd →
    ∀ c, ¬ s.Opens c fd
  | _ => True

/-- Nothing refers to a connection that is not accepted, and the connections that
something refers to have different descriptors. -/
structure Apart (s : TcpServer τ) : Prop where
  known : ∀ c, s.Held c → c < s.accepted
  apart : ∀ c c' fd, s.Opens c fd → s.Opens c' fd → c = c'

section

variable {s s' : TcpServer τ}

omit [DecidableEq τ] in
theorem opens_iff {c : Nat} {fd : Int} :
    s.Opens c fd ↔ s.Held c ∧ ∃ b, (s.conns c).map slot = some (fd, b) := by
  refine and_congr_right fun _ => ⟨?_, ?_⟩
  · rintro ⟨conn, hc, rfl⟩
    exact ⟨(conn.loop_, conn.registered), by rw [hc]; rfl⟩
  · rintro ⟨b, hb⟩
    obtain ⟨conn, hc, e⟩ := Option.map_eq_some_iff.mp hb
    exact ⟨conn, hc, congrArg Prod.fst e⟩

omit [DecidableEq τ] in
theorem Stays.opens (h : Stays s s') {c : Nat} {fd : Int} (hc : s'.Opens c fd) :
    s.Opens c fd := by
  rw [opens_iff, h.slot] at hc
  exact opens_iff.mpr ⟨h.held c hc.1, hc.2⟩

omit [DecidableEq τ] in
theorem Turns.opens {c₀ : Nat} {k : Step} (h : Turns s s' c₀ k) {c : Nat} {fd : Int}
    (hc : s'.Opens c fd) : s.Opens c fd := by
  rw [opens_iff, h.slot] at hc
  obtain ⟨hheld, b, hb⟩ := hc
  split at hb
  · obtain ⟨conn, hconn, e⟩ := Option.map_eq_some_iff.mp hb
    exact ⟨h.held c hheld, conn, hconn, congrArg Prod.fst e⟩
  · exact opens_iff.mpr ⟨h.held c hheld, b, hb⟩

omit [DecidableEq τ] in
theorem Accepts.opens {fd : Int} {l : τ} (h : Accepts s s' fd l) {c : Nat} {fd' : Int}
    (hc : s'.Opens c fd') : c ≠ s.accepted ∧ s.Opens c fd' ∨ c = s.accepted ∧ fd' = fd := by
  rw [opens_iff, h.slot] at hc
  obtain ⟨hheld, b, hb⟩ := hc
  split at hb
  · rename_i e
    cases hb
    exact Or.inr ⟨e, rfl⟩
  · rename_i hne
    exact Or.inl ⟨hne, opens_iff.mpr ⟨(h.held c hheld).resolve_right hne, b, hb⟩⟩

omit [DecidableEq τ] in
theorem Apart.of_opens (h : s.Apart) (haccepted : s'.accepted = s.accepted)
    (hheld : ∀ c, s'.Held c → s.Held c) (hopens : ∀ c fd, s'.Opens c fd → s.Opens c fd) :
    s'.Apart where
  known c hc := haccepted ▸ h.known c (hheld c hc)
  apart c c' fd hc hc' := h.apart c c' fd (hopens c fd hc) (hopens c' fd hc')

theorem Apart.step {a : Act τ} (h : s.Apart) (he : a.Enabled s) (hunused : a.Unused s)
    (hok : a.run s = .ok s') : s'.Apart := by
  rcases step_cases he hok with hs | ⟨c, _, k, _, hs⟩ |
    ⟨t, inp, rest, fd, l, rfl, hstack, hfd, hs⟩
  · exact h.of_opens hs.accepted hs.held fun _ _ => hs.opens
  · exact h.of_opens hs.accepted hs.held fun _ _ => hs.opens
  · have hfree := hunused rest fd hstack hfd
    refine ⟨fun c hc => ?_, fun c c' fd' hc hc' => ?_⟩
    · rw [hs.accepted]
      rcases hs.held c hc with hold | rfl
      · have hlt := h.known c hold
        omega
      · exact Nat.lt_succ_self _
    · rcases hs.opens hc with ⟨_, hold⟩ | ⟨rfl, rfl⟩ <;>
        rcases hs.opens hc' with ⟨_, hold'⟩ | ⟨e, e'⟩
      · exact h.apart c c' fd' hold hold'
      · exact absurd (e' ▸ hold) (hfree c)
      · exact absurd hold' (hfree c')
      · exact e.symm

/-- A connection that nothing refers to is never referred to again. -/
theorem gone_of_run {loop : τ} {loops : List τ} {name : String} {as : List (Act τ)}
    (h : (machine loop loops name).Run s as s') {c : Nat} (hc : c < s.accepted)
    (hgone : ¬ s.Held c) : c < s'.accepted ∧ ¬ s'.Held c := by
  refine h.keeps (P := fun s => c < s.accepted ∧ ¬ s.Held c) ?_ ⟨hc, hgone⟩
  rintro u a v ⟨hlt, hnone⟩ ⟨he, hok⟩
  rcases step_cases he hok with hs | ⟨_, _, _, _, hs⟩ | ⟨_, _, _, _, _, _, _, _, hs⟩
  · exact ⟨hs.accepted ▸ hlt, fun hh => hnone (hs.held c hh)⟩
  · exact ⟨hs.accepted ▸ hlt, fun hh => hnone (hs.held c hh)⟩
  · refine ⟨by rw [hs.accepted]; omega, fun hh => ?_⟩
    rcases hs.held c hh with hold | rfl
    · exact hnone hold
    · omega

end

/-! ## What the threads leave when they rest -/

/-- A poller has the channel between `connectEstablished` and `connectDestroy`. -/
def Polls (s : TcpServer τ) : Prop := ∀ c conn, s.conns c = some conn →
  (conn.registered = true ↔ s.did c .connectEstablished ≠ 0 ∧ s.did c .connectDestroy = 0)

/-- No function is on a stack, and no functor waits. -/
def AtRest (s : TcpServer τ) : Prop :=
  (∀ t, s.stack t = []) ∧ ∀ l, (s.loop l).waiting = []

section

variable {s s' : TcpServer τ}

/-- `connectDestroy` runs only after `connectEstablished`. -/
theorem Life.destroyed_le {c : Nat} (h : s.Life True c) :
    s.did c .connectDestroy ≤ s.did c .connectEstablished := by
  have hup := h.up
  have hclosed := h.closed trivial
  have hremoved := h.removed
  have hdestroyed := h.destroyed
  cases hstate : s.stateOf c with
  | kDisconnected =>
    rw [hstate] at hup hclosed
    simp only [reduceCtorEq, if_false, if_true] at hup hclosed
    omega
  | kConnecting | kConnected | kDisconnecting =>
    rw [hstate] at hclosed
    simp only [reduceCtorEq, if_false] at hclosed
    omega

omit [DecidableEq τ] in
theorem polls_iff : s.Polls ↔ ∀ c fd l b, (s.conns c).map slot = some (fd, l, b) →
    (b = true ↔ s.did c .connectEstablished ≠ 0 ∧ s.did c .connectDestroy = 0) := by
  constructor
  · intro h c fd l b hb
    obtain ⟨conn, hc, e⟩ := Option.map_eq_some_iff.mp hb
    have hreg : conn.registered = b := congrArg (·.2.2) e
    rw [← hreg]
    exact h c conn hc
  · intro h c conn hc
    exact h c conn.conn.fd conn.loop_ conn.registered (by rw [hc]; rfl)

theorem Polls.step {a : Act τ} (h : s.Polls) (hi : s.Inv True) (hi' : s'.Inv True)
    (he : a.Enabled s)
    (hok : a.run s = .ok s') : s'.Polls := by
  rw [polls_iff] at h ⊢
  intro c fd l b hb
  rcases step_cases he hok with hs | ⟨c₀, _, k, hk, hs⟩ | ⟨_, _, _, _, _, _, _, _, hs⟩
  · rw [hs.slot] at hb
    rw [hs.did _ _ (by simp), hs.did _ _ (by simp)]
    exact h c fd l b hb
  · have hest := hs.did c .connectEstablished (by simp)
    have hdes := hs.did c .connectDestroy (by simp)
    rw [hs.slot] at hb
    by_cases hc : c = c₀
    · subst hc
      rw [if_pos rfl] at hb
      obtain ⟨conn, _, e⟩ := Option.map_eq_some_iff.mp hb
      have hturn : decide (k = .connectEstablished) = b := congrArg (·.2.2) e
      rw [← hturn]
      have honce := (hi'.life c).at_most_once (k := .connectEstablished) (by decide)
      have hle := (hi.life c).destroyed_le
      rcases List.mem_pair.mp hk with rfl | rfl
      · simp only [and_self, if_true, true_and, reduceCtorEq, if_false] at hest hdes
        simp only [decide_true, true_iff]
        omega
      · simp only [and_self, if_true, true_and, reduceCtorEq, if_false] at hest hdes
        simp only [reduceCtorEq, decide_false, Bool.false_eq_true, false_iff]
        omega
    · simp only [hc, if_false] at hb
      simp only [Ne.symm hc, false_and, if_false, Nat.add_zero] at hest hdes
      rw [hest, hdes]
      exact h c fd l b hb
  · rw [hs.did _ _ (by simp), hs.did _ _ (by simp)]
    rw [hs.slot] at hb
    split at hb
    · rename_i e
      cases hb
      have hnone := (hi.books.fresh c).mpr (Nat.le_of_eq e.symm)
      have hzero := ((hi.life c).unborn hnone).1 .connectEstablished (by decide)
      simp [hzero]
    · exact h c fd l b hb

/-- Bookings lead to a map that lists the live connections, as long as the numbers have
not come round. -/
theorem Books.Lead.listed {loop : τ} {loops : List τ} {name : String}
    (h : Books.Lead loop loops name s s') (hc : s.Counted) (hl : s.Listed)
    (hbound : s'.accepted < 2 ^ 31) : s'.Counted ∧ s'.Listed := by
  obtain ⟨bs, hrun⟩ := h
  have hall : s'.Counted ∧ (s'.accepted < 2 ^ 31 → s'.Listed) := by
    refine hrun.keeps (P := fun u => u.Counted ∧ (u.accepted < 2 ^ 31 → u.Listed)) ?_
      ⟨hc, fun _ => hl⟩
    rintro u b v ⟨hu, hlisted⟩ hst
    refine ⟨hu.step hst, fun hv => ?_⟩
    have hle : u.accepted ≤ v.accepted := by
      cases b with
      | newConnection t sockfd =>
        rw [(newConnection_books hu hst).2.2.1]
        omega
      | removeConnectionInLoop t c => rw [(removeConnectionInLoop_books hu hst.2).2.2.1]
      | other => exact Nat.le_of_eq (SameBooks.accepted hst).symm
    refine (step_listed_iff hu (hlisted (by omega)) hst).mpr ?_
    cases b with
    | newConnection t sockfd =>
      rintro c n ⟨⟨conn, hconn, _⟩, _⟩ hnumber
      have hlt : ¬ u.accepted ≤ c := fun hge => by
        rw [(hu.fresh c).mpr hge] at hconn
        cases hconn
      omega
    | removeConnectionInLoop t c => trivial
    | other => trivial
  exact ⟨hall.1, hall.2 hbound⟩

theorem AtRest.left (h : s.AtRest) (c : Nat) (k : Token) : s.left c k = 0 := by
  have hdue : ∀ l f, s.due l f = 0 := fun l f => by simp [due, h.1, h.2]
  cases k with
  | closeCallback => simp [TcpServer.left, tokens, closing, h.1]
  | connectEstablished | removeConnectionInLoop | connectDestroy => exact hdue _ _

omit [DecidableEq τ] in
/-- At rest, only the map refers to a connection. -/
theorem AtRest.held_iff (h : s.AtRest) (c : Nat) :
    s.Held c ↔ ∃ name, s.connections_.find name = some c := by
  refine ⟨?_, Or.inl⟩
  rintro (hmap | ⟨l, f, hf, _⟩ | ⟨t, fr, hfr, _⟩)
  · exact hmap
  · have hin : f ∈ (s.loop l).waiting := List.mem_append.mpr hf.symm
    rw [h.2] at hin
    cases hin
  · rw [h.1] at hfr
    cases hfr

end

/-! ## The laws -/

/-- What the proofs of the laws carry along a run. -/
structure Kept (s : TcpServer τ) : Prop where
  inv : s.Inv True
  polls : s.Polls
  counted : s.Counted
  listed : s.Listed

theorem construct_kept (loop : τ) (loops : List τ) (name : String) :
    (construct loop loops name).Kept := by
  obtain ⟨hcounted, hlisted⟩ := construct_books loop loops name
  refine ⟨construct_inv loop loops name, fun c conn hc => ?_, hcounted, hlisted⟩
  cases hc

theorem Kept.step {loop : τ} {loops : List τ} {name : String} {s s' : TcpServer τ} {a : Act τ}
    (h : s.Kept) (hst : (machine loop loops name).step s a s') (hprompt : a.Prompt s)
    (hbound : Few s a s') : s'.Kept := by
  obtain ⟨he, hok⟩ := hst
  have hinv := h.inv.step he hok (fun _ => hprompt) hbound
  have hlead : Books.Lead loop loops name s s' :=
    .step hok fun c => (hinv.life c).at_most_once (by decide)
  obtain ⟨hcounted, hlisted⟩ := hlead.listed h.counted h.listed (by unfold Few at hbound; omega)
  exact ⟨hinv, h.polls.step h.inv hinv he hok, hcounted, hlisted⟩

theorem reachable_kept {loop : τ} {loops : List τ} {name : String} {s : TcpServer τ}
    (h : ((machine loop loops name).restrict fun s a s' => a.Prompt s ∧ Few s a s').Reachable s) :
    s.Kept := by
  refine h.invariant ?_ ?_
  · rintro s rfl
    exact construct_kept loop loops name
  · rintro s a s' hs ⟨hst, hprompt, hbound⟩
    exact hs.step hst hprompt hbound

/-- At rest, the calls that are due to a connection are those of its state. -/
theorem Kept.at_rest {s : TcpServer τ} (h : s.Kept) (hrest : s.AtRest) {c : Nat}
    {conn : ServerConnection τ} (hc : s.conns c = some conn) :
    conn.conn.state_ ≠ .kConnecting ∧ (s.Held c ↔ conn.conn.state_ ≠ .kDisconnected) ∧
      (conn.registered = true ↔ conn.conn.state_ ≠ .kDisconnected) ∧
      ∀ n, s.connections_.find n = some c ↔ n = conn.name_ ∧
        conn.conn.state_ ≠ .kDisconnected := by
  have hlife := h.inv.life c
  have hest := hlife.established
  have hup := hlife.up
  have hclosed := hlife.closed trivial
  have hremoved := hlife.removed
  have hdestroyed := hlife.destroyed
  simp only [hrest.left, hc, Option.isSome_some, if_true, Nat.add_zero] at hest hremoved hdestroyed
  rw [stateOf_some hc] at hup hclosed
  have hfind : ∀ n, s.connections_.find n = some c ↔ n = conn.name_ ∧
      conn.conn.state_ ≠ .kDisconnected := by
    intro n
    rw [h.listed n c, Live, hremoved, hclosed]
    constructor
    · rintro ⟨⟨conn', hc', rfl⟩, hzero⟩
      rw [hc] at hc'
      cases hc'
      exact ⟨rfl, fun hdown => by simp [hdown] at hzero⟩
    · rintro ⟨rfl, hne⟩
      exact ⟨⟨conn, hc, rfl⟩, if_neg hne⟩
  refine ⟨fun hnew => ?_, ?_, ?_, hfind⟩
  · rw [if_pos hnew] at hup
    omega
  · rw [hrest.held_iff]
    constructor
    · rintro ⟨n, hn⟩
      exact ((hfind n).mp hn).2
    · intro hne
      exact ⟨conn.name_, (hfind _).mpr ⟨rfl, hne⟩⟩
  · rw [h.polls c conn hc, hest, hdestroyed, hremoved, hclosed]
    simp

/-- The kernel gives no descriptor twice while it is open. Then no two connections that
something refers to share one, the channel in a poller is one of a connection whose
descriptor is open, and a connection whose descriptor was closed is never referred to
again, so that it is closed once. -/
theorem no_poller_has_a_closed_or_shared_descriptor {loop : τ} {loops : List τ} {name : String}
    {s : TcpServer τ}
    (h : ((machine loop loops name).restrict fun s a s' => a.Unused s ∧ Few s a s').Reachable s) :
    (∀ c c' fd, s.Opens c fd → s.Opens c' fd → c = c') ∧
    (∀ c conn, s.conns c = some conn → conn.registered = true → s.Opens c conn.conn.fd) ∧
    ∀ as s', (machine loop loops name).Run s as s' →
      ∀ c < s.accepted, ¬ s.Held c → ¬ s'.Held c := by
  have hall : s.Apart ∧ s.Inv False := by
    apply h.invariant (P := fun s => s.Apart ∧ s.Inv False)
    · rintro s rfl
      refine ⟨⟨fun c hc => ?_, fun c c' fd hc _ => ?_⟩, construct_inv loop loops name⟩
      · rcases hc with ⟨_, hmap⟩ | ⟨_, _, hf, _⟩ | ⟨_, _, hfr, _⟩
        · cases hmap
        · rcases hf with hf | hf <;> cases hf
        · cases hfr
      · obtain ⟨_, _, hconn, _⟩ := hc
        cases hconn
    · rintro s a s' ⟨hapart, hinv⟩ ⟨⟨he, hok⟩, hunused, hbound⟩
      exact ⟨hapart.step he hunused hok, hinv.step he hok False.elim hbound⟩
  obtain ⟨hapart, hinv⟩ := hall
  refine ⟨hapart.apart, fun c conn hc hreg => ?_, fun as s' hrun c hlt hgone =>
    (gone_of_run hrun hlt hgone).2⟩
  have hlife := hinv.life c
  exact ⟨hlife.held hc (hlife.registered conn hc hreg).2, conn, hc, rfl⟩

omit [DecidableEq τ] in
theorem unused_of_no_socket {s : TcpServer τ} {t : τ} {inp : Input} (h : inp.sockfd = none) :
    (Act.go t inp).Unused s := by
  rintro rest fd _ hfd
  rw [h] at hfd
  cases hfd

omit [DecidableEq τ] in
theorem unused_of_no_connection {s : TcpServer τ} {t : τ} {inp : Input}
    (h : ∀ c, s.conns c = none) : (Act.go t inp).Unused s := by
  rintro rest fd _ _ c ⟨_, conn, hc, _⟩
  rw [h c] at hc
  cases hc

/-- A server with no other loop accepts a connection, and rests with it. -/
theorem rests_with_a_connection : ∃ as, ∃ s : TcpServer Unit,
    ((machine () [] "server").restrict fun s a s' => a.Unused s ∧ a.Prompt s ∧ Few s a s').Run
      (construct () [] "server") as s ∧ s.AtRest ∧ s.accepted = 1 ∧
    ∃ conn, s.conns 0 = some conn ∧ conn.registered = true ∧ conn.conn.fd = 5 ∧
      conn.name_ = "server#1" := by
  have h0 : ((machine () [] "server").restrict
      fun (s : TcpServer Unit) a s' => a.Unused s ∧ a.Prompt s ∧ Few s a s').Run
      (construct () [] "server") [] (construct () [] "server") := .nil
  have h1 := h0.snoc (a := .loop () .loop false 0)
    (by exact ⟨⟨⟨rfl, ⟨⟨rfl, rfl⟩, rfl⟩, rfl, by simp, by simp⟩, rfl⟩, trivial, trivial, by decide⟩)
  have h2 := h1.snoc (a := .loop () .clearQuit false 0)
    (by exact ⟨⟨⟨rfl, ⟨rfl, rfl⟩, rfl, by simp, by simp⟩, rfl⟩, trivial, trivial, by decide⟩)
  have h3 := h2.snoc (a := .loop () .whileTest false 0)
    (by exact ⟨⟨⟨rfl, ⟨rfl, rfl⟩, rfl, by simp, by simp⟩, rfl⟩, trivial, trivial, by decide⟩)
  have hacceptor : ∀ s : TcpServer Unit, ∀ active, (.poll [.acceptor] :
      EventLoop.Act Unit ChannelId Functor) = .poll active → ∀ ch ∈ active, s.Polled () ch := by
    rintro s _ ⟨⟩ ch hch
    rw [List.mem_singleton.mp hch]
    rfl
  have h4 := h3.snoc (a := .loop () (.poll [.acceptor]) false 0)
    (by exact ⟨⟨⟨rfl, ⟨rfl, rfl⟩, rfl, hacceptor _, by simp⟩, rfl⟩, trivial, trivial, by decide⟩)
  have h5 := h4.snoc (a := .loop () .handleEvent false 0)
    (by exact ⟨⟨⟨rfl, ⟨⟨rfl, rfl⟩, by decide⟩, rfl, by simp, fun c cs _ hc => by cases hc⟩, rfl⟩,
      trivial, trivial, by decide⟩)
  have h6 := h5.snoc (a := .go () ⟨some 5, [], ⟨.failed 0, [], [], false, .failed 0⟩, .failed 0⟩)
    (by exact ⟨⟨List.cons_ne_nil Frame.accept [], rfl⟩,
      unused_of_no_connection fun _ => rfl, prompt_of_stack rfl (by simp), by decide⟩)
  have h7 := h6.snoc (a := .go () ⟨none, [], ⟨.failed 0, [], [], false, .failed 0⟩, .failed 0⟩)
    (by exact ⟨⟨List.cons_ne_nil (Frame.call (.connectEstablished 0)) [.holds 0], rfl⟩,
      unused_of_no_socket rfl, prompt_of_stack rfl (by simp), by decide⟩)
  have h8 := h7.snoc (a := .go () ⟨none, [], ⟨.failed 0, [], [], false, .failed 0⟩, .failed 0⟩)
    (by exact ⟨⟨List.cons_ne_nil (Frame.holds 0) [], rfl⟩,
      unused_of_no_socket rfl, prompt_of_stack rfl (by simp), by decide⟩)
  exact ⟨_, _, h8, ⟨fun _ => rfl, fun _ => rfl⟩, rfl, _, rfl, rfl, rfl, by decide⟩

/-- The channel in the poller has the descriptor that the kernel gave. -/
theorem the_poller_has_the_descriptor_of_the_connection :
    ∃ s : TcpServer Unit, s.Opens 0 5 := by
  obtain ⟨as, s, hrun, _, _, conn, hc, hreg, hfd, _⟩ := rests_with_a_connection
  have hfew : ((machine () [] "server").restrict fun s a s' => a.Unused s ∧ Few s a s').Run
      (construct () [] "server") as s :=
    (hrun.restrict_congr (P := fun _ => True) trivial (fun _ _ _ _ _ hr => ⟨hr.1, hr.2.2⟩)
      fun _ _ _ _ _ _ => trivial).1
  have hlaw := no_poller_has_a_closed_or_shared_descriptor ⟨_, as, rfl, hfew⟩
  exact ⟨s, hfd ▸ hlaw.2.1 0 conn hc hreg⟩

/-- Where no `shutdown` sets the state of a connection that is down: when no thread runs
a function and no functor waits, every connection that was accepted is established. One
that is up is the entry of its name, and its channel is in the poller. One that is down is
gone: nothing refers to it, the map does not list it, and no poller has its channel. -/
theorem at_rest_the_server_has_the_connections_that_are_up {loop : τ} {loops : List τ}
    {name : String} {s : TcpServer τ}
    (h : ((machine loop loops name).restrict fun s a s' => a.Prompt s ∧ Few s a s').Reachable s)
    (hrest : s.AtRest) :
    ∀ c conn, s.conns c = some conn → conn.conn.state_ ≠ .kConnecting ∧
      (s.Held c ↔ conn.conn.state_ ≠ .kDisconnected) ∧
      (conn.registered = true ↔ conn.conn.state_ ≠ .kDisconnected) ∧
      ∀ n, s.connections_.find n = some c ↔ n = conn.name_ ∧
        conn.conn.state_ ≠ .kDisconnected := by
  have hkept := reachable_kept h
  exact fun c conn hc => hkept.at_rest hrest hc

/-- The connection that is up is the entry of its name. -/
theorem at_rest_the_server_has_a_connection :
    ∃ s : TcpServer Unit, s.AtRest ∧ s.Held 0 ∧
      s.connections_.find "server#1" = some 0 := by
  obtain ⟨as, s, hrun, hrest, _, conn, hc, hreg, _, hname⟩ := rests_with_a_connection
  have hfew : ((machine () [] "server").restrict fun s a s' => a.Prompt s ∧ Few s a s').Run
      (construct () [] "server") as s :=
    (hrun.restrict_congr (P := fun _ => True) trivial (fun _ _ _ _ _ hr => hr.2)
      fun _ _ _ _ _ _ => trivial).1
  have hlaw := at_rest_the_server_has_the_connections_that_are_up ⟨_, as, rfl, hfew⟩ hrest 0 conn
    hc
  have hup := hlaw.2.2.1.mp hreg
  refine ⟨s, hrest, hlaw.2.1.mpr hup, (hlaw.2.2.2 _).mpr ⟨hname.symm, hup⟩⟩

end TcpServer

end jmuduo.net
