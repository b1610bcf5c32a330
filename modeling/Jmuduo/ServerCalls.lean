-- The calls of a server that make up the lives of its connections, from
-- `newConnection` to `connectDestroy`: each keeps the invariant of the server.
import Jmuduo.ConnectionLifetime

open outcome runs maps

namespace jmuduo.net

/-! ## The callbacks of a connection -/

namespace TcpConnection

/-- A state that is no longer the first one. -/
theorem up_or_down {c : TcpConnection} (h : c.state_ ≠ .kConnecting) :
    c.Up ∨ c.state_ = .kDisconnected := by
  unfold Up
  cases hs : c.state_ with
  | kConnecting => exact absurd hs h
  | kConnected => exact Or.inl (Or.inl rfl)
  | kDisconnecting => exact Or.inl (Or.inr rfl)
  | kDisconnected => exact Or.inr rfl

/-- A call that leaves a connection up or down, and does not bring `kConnected` back. -/
structure Stays (c c' : TcpConnection) : Prop where
  up : c.Up → c'.Up
  half : c.state_ = .kDisconnecting → c'.state_ = .kDisconnecting
  down : c.state_ = .kDisconnected → c'.state_ = .kDisconnected

theorem Stays.refl (c : TcpConnection) : c.Stays c := ⟨id, id, id⟩

theorem Follows.stays {c c' : TcpConnection} (h : c.Follows c') : c.Stays c' :=
  ⟨h.up, h.half, h.down⟩

/-- The state of a connection that was closed stays. -/
theorem Stays.same {c c' : TcpConnection} (h : c.Stays c') (hnew : c.state_ ≠ .kConnecting)
    (hup : c.state_ ≠ .kConnected) : c'.state_ = c.state_ := by
  cases hs : c.state_ with
  | kConnecting => exact absurd hs hnew
  | kConnected => exact absurd hs hup
  | kDisconnecting => exact h.half hs
  | kDisconnected => exact h.down hs

theorem Stays.connected {c c' : TcpConnection} (h : c.Stays c') (hnew : c.state_ ≠ .kConnecting)
    (hc : c'.state_ = .kConnected) : c.state_ = .kConnected := by
  by_contra hup
  exact hup ((h.same hnew hup).symm.trans hc)

/-- What a read does goes by the number of its bytes. -/
theorem handleRead_state {c c' : TcpConnection} (h : c.Sound) {r : Reply} {b : Buffer} {n : Int}
    {errno : Nat} (hread : c.inputBuffer_.readFd 0 r.read = .ok (b, n, errno))
    (hok : c.handleRead r = .ok c') :
    (n = 0 → c.Up ∧ c'.state_ = .kDisconnected) ∧ (n ≠ 0 → c.Stays c') := by
  have hin : ({ c with inputBuffer_ := b } : TcpConnection).Sound := by
    refine ⟨⟨h.streams.out, h.streams.stream, h.streams.waits⟩, ?_⟩
    cases hr : r.read with
    | failed errno' =>
      rw [hr] at hread
      cases hread
      exact h.input
    | delivered bytes =>
      rw [hr] at hread
      rcases Buffer.readFd_delivered h.input.ordered 0 bytes with ⟨b', hb, hi, _, hge⟩ | ⟨_, hb⟩
      · rw [hb] at hread
        cases hread
        exact h.input.of_ordered hi hge
      · rw [hb] at hread
        cases hread
  simp only [handleRead, hread, ok_bind] at hok
  split at hok
  · obtain ⟨_, hf⟩ := (calls_spec (e := .messageCallback) (log_sound hin ⟨rfl, rfl⟩)
      r.onMessage).1 c' hok
    exact ⟨fun _ => by omega, fun _ => ⟨hf.up, hf.half, hf.down⟩⟩
  · split at hok
    · rename_i hzero
      obtain ⟨hup, _, hst, _⟩ := (handleClose_spec hin r).1 c' hok
      exact ⟨fun _ => ⟨hup, hst⟩, fun hne => absurd hzero hne⟩
    · rename_i hne
      cases hok
      exact ⟨fun hzero => absurd hzero hne, fun _ => ⟨id, id, id⟩⟩

end TcpConnection

namespace TcpServer

/-- A callback takes its connection down when it runs `handleClose`, and
leaves it up or down otherwise. -/
theorem Callback.run.spec {c c' : TcpConnection} (h : c.Sound) {cb : Callback} {r : Reply}
    {closed : Bool} (hok : cb.run r c = .ok (c', closed)) :
    c'.Sound ∧ (closed = true → c.Up ∧ c'.state_ = .kDisconnected) ∧
    (closed = false → c.Stays c') := by
  cases cb with
  | closeCallback_ =>
    simp only [Callback.run, bind_eq_ok, pure_eq_ok, Except.ok.injEq, Prod.mk.injEq] at hok
    obtain ⟨c₁, hc, rfl, rfl⟩ := hok
    obtain ⟨hup, hs, hst, _⟩ := (TcpConnection.handleClose_spec h _).1 c₁ hc
    exact ⟨hs, fun _ => ⟨hup, hst⟩, by simp⟩
  | errorCallback_ =>
    simp only [Callback.run, TcpConnection.handleError, bind_eq_ok, pure_eq_ok, Except.ok.injEq,
      Prod.mk.injEq] at hok
    obtain ⟨c₁, rfl, rfl, rfl⟩ := hok
    exact ⟨h, by simp, fun _ => .refl _⟩
  | readCallback_ =>
    simp only [Callback.run, bind_eq_ok, pure_eq_ok, Except.ok.injEq, Prod.mk.injEq] at hok
    obtain ⟨⟨b, n, errno⟩, hread, c₁, hc, rfl, rfl⟩ := hok
    have hs := ((TcpConnection.handleRead_spec h _).1 c₁ hc).1
    obtain ⟨hzero, hne⟩ :=
      TcpConnection.handleRead_state (r := { r with destroys := false }) h hread hc
    exact ⟨hs, fun e => hzero (of_decide_eq_true e), fun e => hne (of_decide_eq_false e)⟩
  | writeCallback_ =>
    simp only [Callback.run, bind_eq_ok, pure_eq_ok, Except.ok.injEq, Prod.mk.injEq] at hok
    obtain ⟨c₁, hc, rfl, rfl⟩ := hok
    obtain ⟨hs, hf⟩ := TcpConnection.handleWrite_follows h hc
    exact ⟨hs, by simp, fun _ => hf.stays⟩

/-- A call that leaves a connection up or down. -/
theorem Like.of_stays {τ : Type} {once : Prop} {conn : ServerConnection τ} {c' : TcpConnection}
    (hs : c'.Sound) (hnew : conn.conn.state_ ≠ .kConnecting) (h : conn.conn.Stays c') :
    Like once conn { conn with conn := c' } := by
  have hconnected := h.connected hnew
  rcases TcpConnection.up_or_down hnew with hup | hdown
  · have hup' := h.up hup
    exact ⟨rfl, rfl, rfl, hs, ⟨fun e => absurd e hup'.not_new, fun e => absurd e hnew⟩, hconnected,
      fun _ => ⟨fun e => absurd e hup'.not_down, fun e => absurd e hup.not_down⟩⟩
  · have hdown' := h.down hdown
    exact ⟨rfl, rfl, rfl, hs, by simp [hdown, hdown'], hconnected,
      fun _ => by simp [hdown, hdown']⟩

/-- A call that leaves the state as it is. -/
theorem Like.of_same {τ : Type} {once : Prop} {conn : ServerConnection τ} {c' : TcpConnection}
    (hs : c'.Sound) (hst : c'.state_ = conn.conn.state_) :
    Like once conn { conn with conn := c' } :=
  ⟨rfl, rfl, rfl, hs, by simp [hst], by simp [hst], fun _ => by simp [hst]⟩

/-- The `setState` of `shutdown`. It may find the connection down, unless `once`. -/
theorem Like.setDisconnecting {τ : Type} {once : Prop} {conn : ServerConnection τ}
    (hs : conn.conn.Sound) (hnew : conn.conn.state_ ≠ .kConnecting)
    (hup : once → conn.conn.Up) : Like once conn { conn with
      conn := { conn.conn with state_ := .kDisconnecting }.log [.shutdown] } := by
  refine ⟨rfl, rfl, rfl, ⟨hs.streams.idle rfl rfl ⟨rfl, rfl⟩ id, hs.input⟩, ?_, ?_,
    fun honce => ?_⟩
  · simp [TcpConnection.log, hnew]
  · simp [TcpConnection.log]
  · simp [TcpConnection.log, (hup honce).not_down]

variable {τ : Type} [DecidableEq τ] {once : Prop}

/-! ## The names of the connections -/

theorem connName_inj {name : String} {a b : Nat}
    (h : connName name ((a : Int) + 1) = connName name ((b : Int) + 1)) : a = b := by
  have hrepr : (a + 1).repr = (b + 1).repr :=
    (String.append_right_inj _).mp ((String.append_right_inj _).mp h)
  have hdigits := congrArg (fun s => Nat.ofDigitChars 10 s.toList 0) hrepr
  simp only [Nat.toList_repr] at hdigits
  rw [Nat.ofDigitChars_toDigits (by decide) (by decide),
    Nat.ofDigitChars_toDigits (by decide) (by decide)] at hdigits
  omega

/-- What the fields of the server say about its connections. -/
structure Books (s : TcpServer τ) : Prop where
  fresh : ∀ c, s.conns c = none ↔ s.accepted ≤ c
  names : ∀ c conn, s.conns c = some conn → conn.name_ = connName s.name_ ((c : Int) + 1)
  number : s.nextConnId_ = (s.accepted : Int) + 1

/-- The connections keep their names and loops, and none is accepted. -/
structure Keeps (s s' : TcpServer τ) : Prop where
  base : s'.loop_ = s.loop_
  name : s'.name_ = s.name_
  accepted : s'.accepted = s.accepted
  number : s'.nextConnId_ = s.nextConnId_
  conn : ∀ c, s'.conns c = s.conns c ∨ ∃ conn conn', s.conns c = some conn ∧
    s'.conns c = some conn' ∧ conn'.name_ = conn.name_ ∧ conn'.loop_ = conn.loop_

omit [DecidableEq τ] in
theorem Books.keeps {s s' : TcpServer τ} (h : s.Books) (hk : Keeps s s') : s'.Books := by
  refine ⟨fun c => ?_, fun c conn₁ hc₁ => ?_, ?_⟩
  · rw [hk.accepted, ← h.fresh c]
    rcases hk.conn c with he | ⟨conn, conn', hc, hc', _, _⟩
    · rw [he]
    · rw [hc, hc']
      simp
  · rw [hk.name]
    rcases hk.conn c with he | ⟨conn, conn', hc, hc', hname, _⟩
    · exact h.names c conn₁ (he ▸ hc₁)
    · rw [hc'] at hc₁
      cases hc₁
      rw [hname]
      exact h.names c conn hc
  · rw [hk.number, hk.accepted, h.number]

omit [DecidableEq τ] in
theorem Books.same {s s' : TcpServer τ} (h : s.Books) (hname : s'.name_ = s.name_)
    (haccepted : s'.accepted = s.accepted) (hnumber : s'.nextConnId_ = s.nextConnId_)
    (hconns : s'.conns = s.conns) : s'.Books := by
  refine ⟨?_, ?_, ?_⟩
  · rw [hconns, haccepted]
    exact h.fresh
  · rw [hconns, hname]
    exact h.names
  · rw [hnumber, haccepted]
    exact h.number

omit [DecidableEq τ] in
/-- Two connections never have one name. -/
theorem Books.name_ne {s : TcpServer τ} (h : s.Books) {c c' : Nat} {conn conn' : ServerConnection τ}
    (hc : s.conns c = some conn) (hc' : s.conns c' = some conn') (hne : c ≠ c') :
    conn.name_ ≠ conn'.name_ := by
  rw [h.names c conn hc, h.names c' conn' hc']
  exact fun e => hne (connName_inj e)

/-! ## What the threads did -/

/-- The step that comes before. -/
def Step.needs : Step → Option Step
  | .connectEstablished => none
  | .handler | .handleClose => some .connectEstablished
  | .removeConnectionInLoop => some .handleClose
  | .connectDestroy => some .removeConnectionInLoop

/-- The thread that makes the step. -/
def place (s : TcpServer τ) (conn : ServerConnection τ) : Step → τ
  | .removeConnectionInLoop => s.loop_
  | _ => conn.loop_

/-- Each step came after the one it needs, and on its thread. -/
structure Told (s : TcpServer τ) : Prop where
  order : ∀ pre n post, s.trace = pre ++ n :: post → ∀ k, n.what.needs = some k →
    ∃ n' ∈ pre, n'.conn = n.conn ∧ n'.what = k
  thread : ∀ n ∈ s.trace, ∃ conn, s.conns n.conn = some conn ∧ n.thread = s.place conn n.what

omit [DecidableEq τ] in
theorem Told.next {s s' : TcpServer τ} (h : s.Told) (hbase : s'.loop_ = s.loop_)
    (htrace : s'.trace = s.trace)
    (hconn : ∀ c conn, s.conns c = some conn →
      ∃ conn', s'.conns c = some conn' ∧ conn'.loop_ = conn.loop_) : s'.Told := by
  refine ⟨htrace ▸ h.order, fun n hn => ?_⟩
  rw [htrace] at hn
  obtain ⟨conn, hc, ht⟩ := h.thread n hn
  obtain ⟨conn', hc', hl⟩ := hconn n.conn conn hc
  refine ⟨conn', hc', ht.trans ?_⟩
  cases n.what <;> simp only [place, hbase, hl]

omit [DecidableEq τ] in
theorem Told.note {s : TcpServer τ} (h : s.Told) {t : τ} {c : Nat} {what : Step}
    {conn : ServerConnection τ} (hc : s.conns c = some conn) (ht : t = s.place conn what)
    (hneeds : ∀ k, what.needs = some k → 0 < s.did c k) : (s.note t c what).Told := by
  refine ⟨fun pre n post htrace k hk => ?_, fun n hn => ?_⟩
  · rcases snoc_cases htrace with ⟨_, rfl, rfl⟩ | ⟨post', _, hold⟩
    · obtain ⟨n', hin, hn'⟩ := List.countP_pos_iff.mp (hneeds k hk)
      exact ⟨n', hin, of_decide_eq_true hn'⟩
    · exact h.order pre n post' hold k hk
  · rcases List.mem_append.mp hn with hold | hnew
    · exact h.thread n hold
    · rw [List.mem_singleton] at hnew
      subst hnew
      exact ⟨conn, hc, ht⟩

omit [DecidableEq τ] in
theorem Told.same {s s' : TcpServer τ} (h : s.Told) (hbase : s'.loop_ = s.loop_)
    (htrace : s'.trace = s.trace) (hconns : s'.conns = s.conns) : s'.Told :=
  h.next hbase htrace fun _ conn hc => ⟨conn, hconns ▸ hc, rfl⟩

omit [DecidableEq τ] in
theorem Told.setConn {s : TcpServer τ} (h : s.Told) {c : Nat} {conn conn' : ServerConnection τ}
    (hc : s.conns c = some conn) (hl : conn'.loop_ = conn.loop_) : (s.setConn c conn').Told := by
  refine h.next rfl rfl fun c₁ conn₁ hc₁ => ?_
  by_cases he : c₁ = c
  · subst he
    rw [hc] at hc₁
    cases hc₁
    exact ⟨conn', Function.update_self _ _ _, hl⟩
  · exact ⟨conn₁, (Function.update_of_ne he _ _).trans hc₁, rfl⟩

/-! ## The invariant of a server -/

/-- What every step of the server keeps. -/
structure Inv (once : Prop) (s : TcpServer τ) : Prop where
  threads : s.Threads
  books : s.Books
  told : s.Told
  life : ∀ c, s.Life once c

/-- A step that is no call of any life. -/
theorem Inv.rests {s s' : TcpServer τ} (h : s.Inv once) (hthreads : s'.Threads)
    (hfields : s'.name_ = s.name_ ∧ s'.accepted = s.accepted ∧ s'.nextConnId_ = s.nextConnId_)
    (htold : s'.Told) (hr : ∀ c, Rests once s s' c) : s'.Inv once := by
  refine ⟨hthreads, h.books.keeps ?_, htold, fun c => (h.life c).rests (hr c)⟩
  refine ⟨(hr 0).base, hfields.1, hfields.2.1, hfields.2.2, fun c => ?_⟩
  rcases (hr c).conn with he | ⟨conn, conn', hc, hc', hl⟩
  · exact Or.inl he
  · exact Or.inr ⟨conn, conn', hc, hc', hl.name, hl.loop⟩

/-- A step that is a call of one life. -/
theorem Inv.calls {s s' : TcpServer τ} (h : s.Inv once) {t : τ} {c : Nat} {call : LifeCall}
    {conn conn' : ServerConnection τ} (hcalls : Calls s s' t c call conn conn')
    (hthreads : s'.Threads)
    (hfields : s'.name_ = s.name_ ∧ s'.accepted = s.accepted ∧ s'.nextConnId_ = s.nextConnId_)
    (htold : s'.Told) (hm : call.Moves conn.conn conn'.conn)
    (hmapped : call ≠ .removeConnectionInLoop → s'.connections_ = s.connections_)
    (hr : ∀ c', c' ≠ c → Rests once s s' c') : s'.Inv once := by
  have hlife : s'.Life once c := (h.life c).calls hcalls hm hmapped
  refine ⟨hthreads, h.books.keeps ?_, htold, fun c₁ => ?_⟩
  · refine ⟨hcalls.base, hfields.1, hfields.2.1, hfields.2.2, fun c₁ => ?_⟩
    by_cases he : c₁ = c
    · subst he
      exact Or.inr ⟨conn, conn', hcalls.old, hcalls.now, hcalls.name, hcalls.loop⟩
    · rcases (hr c₁ he).conn with he | ⟨conn₁, conn₂, hc₁, hc₂, hl⟩
      · exact Or.inl he
      · exact Or.inr ⟨conn₁, conn₂, hc₁, hc₂, hl.name, hl.loop⟩
  · by_cases he : c₁ = c
    · subst he
      exact hlife
    · exact (h.life c₁).rests (hr c₁ he)

/-! ## The tokens on a stack -/

/-- The function on a stack that the token is. -/
def Token.frame (c : Nat) : Token → Frame τ
  | .connectEstablished => .call (.connectEstablished c)
  | .closeCallback => .closeCallback c
  | .removeConnectionInLoop => .call (.removeConnectionInLoop c)
  | .connectDestroy => .call (.connectDestroy c)

theorem tokens_pop {s : TcpServer τ} {t : τ} {fr : Frame τ} {rest : List (Frame τ)}
    (hs : s.stack t = fr :: rest) (l : τ) (c : Nat) (k : Token) :
    s.tokens l c k = (s.pop t rest).tokens l c k + if l = t ∧ fr = k.frame c then 1 else 0 := by
  cases k with
  | closeCallback => exact closing_pop hs l c
  | _ => exact due_pop hs l _

theorem tokens_push (s : TcpServer τ) (t : τ) (frames : List (Frame τ)) (l : τ) (c : Nat)
    (k : Token) : (s.push t frames).tokens l c k =
      s.tokens l c k + if l = t then frames.count (k.frame c) else 0 := by
  cases k with
  | closeCallback => exact closing_push s t frames l c
  | _ => exact due_push s t frames l _

theorem tokens_runInLoop {s : TcpServer τ} (h : s.Threads) {t : τ} (hc : s.Calm t) (l : τ)
    (f : Functor) (m : τ) (c : Nat) (k : Token) : (s.runInLoop t l f).tokens m c k =
      s.tokens m c k + if m = l ∧ .call f = (k.frame c : Frame τ) then 1 else 0 := by
  obtain ⟨_, hdue, hclosing, _⟩ := runInLoop.spec h hc l f
  cases k with
  | closeCallback => simpa [Token.frame, tokens] using hclosing m c
  | _ => simpa [Token.frame, tokens] using hdue m _

omit [DecidableEq τ] in
/-- A function is at most one token. -/
theorem Token.frame_inj {c : Nat} {k k' : Token} :
    (k.frame c : Frame τ) = k'.frame c ↔ k = k' := by
  cases k <;> cases k' <;> simp [Token.frame]

/-- A thread takes a token from its stack. -/
theorem tokens_take {s : TcpServer τ} {t : τ} {c : Nat} (k₀ : Token) {rest : List (Frame τ)}
    (hs : s.stack t = k₀.frame c :: rest) (l : τ) (k : Token) :
    s.tokens l c k = (s.pop t rest).tokens l c k + if l = t ∧ k₀ = k then 1 else 0 := by
  simpa only [Token.frame_inj] using tokens_pop hs l c k

/-- A thread gives a token to a loop. -/
theorem tokens_give {s : TcpServer τ} (k₀ : Token) (h : s.Threads) {t : τ} (hc : s.Calm t)
    (l : τ) {f : Functor} {c : Nat} (hf : .call f = (k₀.frame c : Frame τ)) (m : τ)
    (k : Token) : (s.runInLoop t l f).tokens m c k =
      s.tokens m c k + if m = l ∧ k₀ = k then 1 else 0 := by
  simp only [tokens_runInLoop h hc l f m c k, hf, Token.frame_inj]

/-- A token is taken at its home. -/
theorem Life.token {s : TcpServer τ} {c : Nat} (h : s.Life once c) {t : τ} {k : Token}
    {rest : List (Frame τ)} (hs : s.stack t = k.frame c :: rest) :
    t = s.home c k ∧ 0 < s.left c k := by
  have hpos : 0 < s.tokens t c k := by
    rw [tokens_take k hs t k, if_pos ⟨rfl, rfl⟩]
    omega
  have hhome := h.at_home hpos
  exact ⟨hhome, by rw [left, ← hhome]; exact hpos⟩

/-! ## The calls of the life -/

/-- A function that is on the stack of a thread, and is no call of a loop. -/
theorem Inv.calm {s : TcpServer τ} (h : s.Inv once) {t : τ} {fr : Frame τ} {rest : List (Frame τ)}
    (hs : s.stack t = fr :: rest) (hfr : ∀ l, fr ≠ .returns l) : s.Calm t := by
  refine h.threads.calm fun l rest' hr => ?_
  rw [hs] at hr
  exact hfr l (List.cons.inj hr).1

omit [DecidableEq τ] in
theorem Token.beside {c c' : Nat} (h : c ≠ c') (k : Token) : (k.frame c : Frame τ).Beside c' := by
  cases k <;> simpa [Token.frame, Frame.Beside, Functor.refs] using h

omit [DecidableEq τ] in
theorem Token.frame_ne_returns (c : Nat) (k : Token) (l : τ) : k.frame c ≠ .returns l := by
  cases k <;> simp [Token.frame]

/-- A functor changes its connection, and leaves nothing to do. -/
theorem Inv.functor {s : TcpServer τ} (h : s.Inv once) (call : LifeCall) {t : τ} {c : Nat}
    {k : Token} {what : Step} {rest : List (Frame τ)} (hs : s.stack t = k.frame c :: rest)
    (hcall : call.takes = some k ∧ call.gives = none ∧ call.runs = some what)
    {conn conn' : ServerConnection τ} (hc : s.conns c = some conn)
    (hname : conn'.name_ = conn.name_) (hloop : conn'.loop_ = conn.loop_)
    (hreg : conn'.registered = true →
      call ≠ .connectDestroy ∧ (conn.registered = true ∨ call = .connectEstablished))
    (hsound : conn'.conn.Sound) (hm : call.Moves conn.conn conn'.conn)
    (hplace : t = s.place conn' what) (hneeds : ∀ k, what.needs = some k → 0 < s.did c k) :
    (((s.pop t rest).setConn c conn').note t c what).Inv once := by
  obtain ⟨htakes, hgives, hruns⟩ := hcall
  refine h.calls (show Calls s _ t c call conn conn' from ?_) ?_ ⟨rfl, rfl, rfl⟩ ?_ hm
    (fun _ => rfl) fun c' hne => ?_
  · refine ⟨hc, Function.update_self _ _ _, rfl, hname, hloop, hreg, hsound, fun k' _ => ?_,
      fun l k' => ?_, fun l hd => dispatches_pop hs hd⟩
    · rw [did_note, hruns]
      simp
      rfl
    · rw [tokens_take k hs l k', htakes, hgives]
      simp
  · exact (h.threads.stack (h.calm hs (k.frame_ne_returns c)) rest).same rfl rfl
  · have htold : (s.pop t rest).Told := h.told.same rfl rfl rfl
    exact (htold.setConn hc hloop).note (Function.update_self _ _ _) hplace hneeds
  · have hother : c ≠ c' := Ne.symm hne
    exact (rests_pop hs (k.beside hother)).trans
      ((rests_setConn fun e => absurd e hother).trans (rests_note _ _ (Or.inl hother)))

theorem Inv.connectEstablished {s s' : TcpServer τ} (h : s.Inv once) {t : τ} {c : Nat}
    {rest : List (Frame τ)} {onUp : List Call}
    (hs : s.stack t = .call (.connectEstablished c) :: rest)
    (hok : (s.pop t rest).connectEstablished t onUp c = .ok s') : s'.Inv once := by
  simp only [TcpServer.connectEstablished, deref, bind_eq_ok, demand_eq_ok, pure_eq_ok,
    Except.ok.injEq] at hok
  obtain ⟨conn, hc, c₁, hrun, rfl⟩ := hok
  have hc : s.conns c = some conn := hc
  obtain ⟨hsound, hup, _⟩ :=
    TcpConnection.connectEstablished_spec ((h.life c).sound conn hc) hrun
  have hplace : t = s.loopOf c := ((h.life c).token (k := .connectEstablished) hs).1
  rw [loopOf_some hc] at hplace
  exact h.functor .connectEstablished (k := .connectEstablished) hs ⟨rfl, rfl, rfl⟩ hc rfl rfl
    (by simp) hsound ⟨by simp, fun _ => hup, by simp, by simp⟩ hplace (by simp [Step.needs])

theorem Inv.connectDestroy {s s' : TcpServer τ} (h : s.Inv once) {t : τ} {c : Nat}
    {rest : List (Frame τ)} {onDown : List Call}
    (hs : s.stack t = .call (.connectDestroy c) :: rest)
    (hok : (s.pop t rest).connectDestroy t onDown c = .ok s') : s'.Inv once := by
  simp only [TcpServer.connectDestroy, deref, bind_eq_ok, demand_eq_ok, pure_eq_ok,
    Except.ok.injEq] at hok
  obtain ⟨conn, hc, c₁, hrun, rfl⟩ := hok
  have hc : s.conns c = some conn := hc
  have hlife := h.life c
  obtain ⟨hplace, hleft⟩ := hlife.token (k := .connectDestroy) hs
  obtain ⟨_, hnew, hup⟩ := hlife.late (k := .connectDestroy) (by decide) hleft
  rw [stateOf_some hc] at hnew hup
  obtain ⟨hsound, hfollows, _⟩ :=
    (TcpConnection.connectDestroy_spec (hlife.sound conn hc) onDown).1 c₁ hrun
  have hsame := (hfollows hup).stays.same hnew hup
  have hplace : t = s.loopOf c := hplace
  rw [loopOf_some hc] at hplace
  refine h.functor .connectDestroy (k := .connectDestroy) hs
    ⟨rfl, rfl, rfl⟩ hc rfl rfl (by simp) hsound ⟨by simp, by simp, by simp, fun _ _ => hsame⟩
    hplace ?_
  rintro k ⟨⟩
  have hdestroyed := hlife.destroyed
  omega

/-- The last statement of `handleClose` hands the connection to the server. -/
theorem Inv.closeCallback {s : TcpServer τ} (h : s.Inv once) {t : τ} {c : Nat}
    {rest : List (Frame τ)} (hs : s.stack t = .closeCallback c :: rest) :
    (((s.pop t rest).push t [.holds c]).removeConnection t c).Inv once := by
  have hlife := h.life c
  have hleft := (hlife.token (k := .closeCallback) hs).2
  obtain ⟨_, hnew, _⟩ := hlife.late (k := .closeCallback) (by decide) hleft
  obtain ⟨conn, hc⟩ : ∃ conn, s.conns c = some conn := by
    cases hc : s.conns c with
    | none => simp [stateOf, hc] at hnew
    | some conn => exact ⟨conn, rfl⟩
  have hcalm := h.calm hs (by simp)
  have hthreads : ((s.pop t rest).push t [.holds c]).Threads :=
    (h.threads.stack hcalm rest).push hcalm _
  have hheld : ∀ c', Rests once (s.pop t rest) ((s.pop t rest).push t [.holds c]) c' :=
    fun c' => rests_hold (s.pop t rest) t c' c
  have hspec := runInLoop.spec hthreads hcalm s.loop_ (.removeConnectionInLoop c)
  refine h.calls (show Calls s _ t c .closeCallback conn conn from ?_) hspec.1
    ⟨runInLoop_name_ _ _ _ _, runInLoop_accepted _ _ _ _, runInLoop_nextConnId_ _ _ _ _⟩ ?_
    ⟨by simp, by simp, by simp, fun _ _ => rfl⟩ (fun _ => runInLoop_connections_ _ _ _ _)
    fun c' hne => ?_
  · refine ⟨hc, ?_, runInLoop_loop_ _ _ _ _, rfl, rfl, by simp, hlife.sound conn hc,
      fun k _ => ?_, fun l k => ?_,
      fun l hd => dispatches_pop hs (dispatches_hold (hspec.2.2.2.1 l c hd))⟩
    · rw [removeConnection, runInLoop_conns]
      exact hc
    · exact runInLoop_did _ _ _ _ _ _
    · rw [removeConnection, tokens_give .removeConnectionInLoop hthreads hcalm _ rfl,
        (hheld c).tokens, tokens_take .closeCallback hs l k]
      have hbase : ((s.pop t rest).push t [.holds c]).loop_ = s.loop_ := rfl
      rw [hbase]
      cases k <;> simp [LifeCall.takes, LifeCall.gives, home]
  · exact h.told.same (runInLoop_loop_ _ _ _ _) (runInLoop_trace _ _ _ _)
      (runInLoop_conns _ _ _ _)
  · have hother : c ≠ c' := Ne.symm hne
    exact (rests_pop hs (Token.closeCallback.beside hother)).trans ((hheld c').trans
      (rests_runInLoop hthreads hcalm _ (by simpa [Functor.refs] using hother)))

theorem Inv.removeConnectionInLoop {s s' : TcpServer τ} (h : s.Inv once) {t : τ} {c : Nat}
    {rest : List (Frame τ)} (hs : s.stack t = .call (.removeConnectionInLoop c) :: rest)
    (hok : ((s.pop t rest).push t [.holds c]).removeConnectionInLoop t c = .ok s') :
    s'.Inv once := by
  simp only [TcpServer.removeConnectionInLoop, deref, bind_eq_ok, demand_eq_ok, pure_eq_ok,
    Except.ok.injEq] at hok
  obtain ⟨conn, hc, rfl⟩ := hok
  have hlife := h.life c
  obtain ⟨hplace, hleft⟩ := hlife.token (k := .removeConnectionInLoop) hs
  have hcalm := h.calm hs (by simp)
  have hheld : ∀ c', Rests once (s.pop t rest) ((s.pop t rest).push t [.holds c]) c' :=
    fun c' => rests_hold (s.pop t rest) t c' c
  have hthreads : ((((s.pop t rest).push t [.holds c]).forget conn.name_).note t c
      .removeConnectionInLoop).Threads :=
    ((h.threads.stack hcalm rest).push hcalm _).same rfl rfl
  have hspec := runInLoop.spec hthreads hcalm conn.loop_ (.connectDestroy c)
  change (((((s.pop t rest).push t [.holds c]).forget conn.name_).note t c
    .removeConnectionInLoop).runInLoop t conn.loop_ (.connectDestroy c)).Inv once
  refine h.calls (show Calls s _ t c .removeConnectionInLoop conn conn from ?_) hspec.1
    ⟨runInLoop_name_ _ _ _ _, runInLoop_accepted _ _ _ _, runInLoop_nextConnId_ _ _ _ _⟩ ?_
    ⟨by simp, by simp, by simp, fun _ _ => rfl⟩ (by simp) fun c' hne => ?_
  · refine ⟨hc, (congrFun (runInLoop_conns _ _ _ _) c).trans hc, runInLoop_loop_ _ _ _ _, rfl, rfl,
      by simp, hlife.sound conn hc, fun k _ => ?_, fun l k => ?_,
      fun l hd => dispatches_pop hs (dispatches_hold (hspec.2.2.2.1 l c hd))⟩
    · rw [runInLoop_did, did_note]
      simp [LifeCall.runs]
      rfl
    · have hheld' : ((((s.pop t rest).push t [.holds c]).forget conn.name_).note t c
          .removeConnectionInLoop).tokens l c k = (s.pop t rest).tokens l c k :=
        (hheld c).tokens l k
      have hloop : s.loopOf c = conn.loop_ := loopOf_some hc
      rw [tokens_give .connectDestroy hthreads hcalm _ rfl, hheld',
        tokens_take .removeConnectionInLoop hs l k]
      cases k <;> simp [LifeCall.takes, LifeCall.gives, home, hloop]
  · have htold : (((s.pop t rest).push t [.holds c]).forget conn.name_).Told :=
      h.told.same rfl rfl rfl
    refine Told.same (htold.note hc hplace ?_) (runInLoop_loop_ _ _ _ _) (runInLoop_trace _ _ _ _)
      (runInLoop_conns _ _ _ _)
    rintro k ⟨⟩
    have hpos : 0 < s.did c .handleClose := by
      have hremoved := hlife.removed
      omega
    exact hpos
  · have hother : c ≠ c' := Ne.symm hne
    have hforget : Rests once ((s.pop t rest).push t [.holds c])
        (((s.pop t rest).push t [.holds c]).forget conn.name_) c' :=
      rests_forget fun conn' hc' => h.books.name_ne hc' hc hne
    refine (rests_pop hs (Token.removeConnectionInLoop.beside hother)).trans ((hheld c').trans
      (hforget.trans ((rests_note _ _ (Or.inl hother)).trans
        (rests_runInLoop hthreads hcalm _ ?_))))
    simpa [Functor.refs] using hother

/-! ## The handlers -/

theorem dispatches_handleEvent {s : TcpServer τ} {t l : τ} {c c' : Nat}
    {cbs cbs' : List Callback} {rest : List (Frame τ)}
    (hs : s.stack t = .handleEvent c cbs :: rest)
    (h : ((s.pop t rest).push t [.handleEvent c cbs']).Dispatches l c') : s.Dispatches l c' := by
  rcases dispatches_push h with hd | ⟨rfl, cbs₁, hin⟩
  · exact dispatches_pop hs hd
  · simp only [List.mem_singleton, Frame.handleEvent.injEq] at hin
    exact Or.inr ⟨cbs, by rw [hs, hin.1]; exact List.mem_cons_self⟩

/-- A dispatch goes on to its next callback. -/
theorem rests_handleEvent {s : TcpServer τ} {t : τ} {c : Nat} {cbs : List Callback}
    {rest : List (Frame τ)} (hs : s.stack t = .handleEvent c cbs :: rest)
    (cbs' : List Callback) (c' : Nat) :
    Rests once s ((s.pop t rest).push t [.handleEvent c cbs']) c' := by
  have hpop : Rests once s (s.pop t rest) c' := rests_pop hs trivial
  refine ⟨rfl, Or.inl rfl, fun _ _ => rfl, fun l k => ?_,
    fun l hd => Or.inl (dispatches_handleEvent hs hd), fun ha => Or.inl ?_, fun _ _ h => h⟩
  · have hnone : List.count (k.frame c' : Frame τ) [.handleEvent c cbs'] = 0 := by
      cases k <;> simp [Token.frame]
    rw [tokens_push, hnone, ite_self, Nat.add_zero, hpop.tokens]
  · exact asked_pop hs ((asked_push ha).resolve_right (by simp))

/-- A callback took the connection down. -/
theorem Inv.handleClose {s s₁ : TcpServer τ} (h : s.Inv once) {t : τ} {c : Nat}
    {conn : ServerConnection τ} {c₁ : TcpConnection} (hc : s.conns c = some conn)
    (hplace : t = s.loopOf c) (hup : conn.conn.Up) (hsound : c₁.Sound)
    (hdown : c₁.state_ = .kDisconnected) (hthreads : s₁.Threads) (hcalm : s₁.Calm t)
    (hfields : s₁.name_ = s.name_ ∧ s₁.accepted = s.accepted ∧ s₁.nextConnId_ = s.nextConnId_)
    (hmap : s₁.connections_ = s.connections_) (hgoes : ∀ c', Rests once s s₁ c')
    (hdispatches : ∀ l, s₁.Dispatches l c → s.Dispatches l c)
    (htold : ((s₁.setConn c { conn with conn := c₁ }).note t c .handler).Told) :
    ((((s₁.setConn c { conn with conn := c₁ }).note t c .handler).note t c .handleClose).push t
      [.closeCallback c]).Inv once := by
  have hloop : s.loopOf c = conn.loop_ := loopOf_some hc
  have hlife := h.life c
  have hpushed : ((s₁.push t [.closeCallback c]).setConn c { conn with conn := c₁ }).Threads :=
    (hthreads.push hcalm [.closeCallback c]).same rfl rfl
  refine h.calls (show Calls s _ t c .handleClose conn { conn with conn := c₁ } from ?_)
    (hpushed.same rfl rfl) hfields ?_ ⟨fun _ => hup, by simp, fun _ => hdown, by simp⟩
    (fun _ => hmap) fun c' hne => ?_
  · refine ⟨hc, Function.update_self _ _ _, (hgoes c).base, rfl, rfl, by simp, hsound,
      fun k hk => ?_, fun l k => ?_, fun l hd => ?_⟩
    · rw [did_push, did_note, did_note, did_setConn, (hgoes c).did k hk,
        if_neg fun e => hk e.2.symm]
      simp [LifeCall.runs]
    · rw [tokens_push, tokens_note, tokens_note, tokens_setConn, (hgoes c).tokens]
      cases k <;> simp [LifeCall.takes, LifeCall.gives, home, hplace, Token.frame]
    · rcases dispatches_push hd with hold | ⟨_, _, hin⟩
      · rw [dispatches_note, dispatches_note, dispatches_setConn] at hold
        exact hdispatches l hold
      · simp at hin
  · have hnow : ((s₁.setConn c { conn with conn := c₁ }).note t c .handler).conns c =
        some { conn with conn := c₁ } := Function.update_self _ _ _
    have hestablished : s.did c .connectEstablished = 1 := by
      rw [hlife.up, if_neg]
      rw [stateOf_some hc]
      exact hup.not_new
    have hnext : (((s₁.setConn c { conn with conn := c₁ }).note t c .handler).note t c
        .handleClose).Told := by
      refine htold.note hnow (hplace.trans hloop) ?_
      rintro k ⟨⟩
      rw [did_note, did_setConn, (hgoes c).did _ (by decide)]
      omega
    exact hnext.same rfl rfl rfl
  · have hother : c ≠ c' := Ne.symm hne
    refine (hgoes c').trans ((rests_setConn fun e => absurd e hother).trans ((rests_note _ _
      (Or.inl hother)).trans ((rests_note _ _ (Or.inl hother)).trans
      (rests_push ?_ (by simp) (by simp)))))
    simpa [Frame.Beside] using hother

theorem Inv.handler {s s' : TcpServer τ} (h : s.Inv once) {t : τ} {inp : Input} {c : Nat}
    {cb : Callback} {cbs : List Callback} {rest : List (Frame τ)}
    (hs : s.stack t = .handleEvent c (cb :: cbs) :: rest)
    (hok : ((s.pop t rest).push t [.handleEvent c cbs]).runCallback t inp c cb = .ok s') :
    s'.Inv once := by
  simp only [runCallback, deref, bind_eq_ok, demand_eq_ok, pure_eq_ok, Except.ok.injEq] at hok
  obtain ⟨conn, hc, ⟨c₁, closed⟩, hrun, rfl⟩ := hok
  have hlife := h.life c
  obtain ⟨hplace, hstarted⟩ := hlife.dispatches t (Or.inr ⟨cb :: cbs, hs ▸ List.mem_cons_self⟩)
  have hestablished : 0 < s.did c .connectEstablished := by
    rw [hlife.up, if_neg hstarted]
    exact Nat.one_pos
  have hstate : s.stateOf c = conn.conn.state_ := stateOf_some hc
  rw [hstate] at hstarted
  obtain ⟨hsound, hcloses, hstays⟩ := Callback.run.spec (hlife.sound conn hc) hrun
  have hcalm := h.calm hs (by simp)
  have hgoes : ∀ c', Rests once s ((s.pop t rest).push t [.handleEvent c cbs]) c' :=
    rests_handleEvent hs cbs
  have hthreads : ((s.pop t rest).push t [.handleEvent c cbs]).Threads :=
    (h.threads.stack hcalm rest).push hcalm _
  have htold : ((((s.pop t rest).push t [.handleEvent c cbs]).setConn c
      { conn with conn := c₁ }).note t c .handler).Told := by
    have hold : ((s.pop t rest).push t [.handleEvent c cbs]).Told := h.told.same rfl rfl rfl
    have hloop : s.loopOf c = conn.loop_ := loopOf_some hc
    refine Told.note (hold.setConn hc (by rfl)) (Function.update_self _ _ _) (hplace.trans hloop) ?_
    rintro k ⟨⟩
    exact hestablished
  cases closed with
  | false =>
    rw [if_neg (by simp)]
    refine h.rests (hthreads.same rfl rfl) ⟨rfl, rfl, rfl⟩ htold fun c' => ?_
    refine (hgoes c').trans ((rests_setConn fun e => ?_).trans (rests_note _ _ (Or.inr rfl)))
    subst e
    exact ⟨conn, hc, .of_stays hsound hstarted (hstays rfl)⟩
  | true =>
    obtain ⟨hup, hdown⟩ := hcloses rfl
    rw [if_pos rfl]
    exact h.handleClose hc hplace hup hsound hdown hthreads hcalm ⟨rfl, rfl, rfl⟩ rfl hgoes
      (fun l hd => dispatches_handleEvent hs hd) htold

/-! ## A new connection -/

/-- The state after the server took the connection in. -/
def take (conn : ServerConnection τ) (nextId : Nat) (s : TcpServer τ) : TcpServer τ :=
  { s.setConn s.accepted conn with
    nextId_ := nextId
    nextConnId_ := toInt (s.nextConnId_ + 1)
    accepted := s.accepted + 1
    connections_ := s.connections_.insert conn.name_ s.accepted }

theorem newConnection.spec {s s' : TcpServer τ} {t : τ} {sockfd : Int}
    (hok : s.newConnection t sockfd = .ok s') : ∃ ioLoop nextId,
      s' = ((s.take ⟨connName s.name_ s.nextConnId_, ioLoop, false,
        .construct sockfd false false⟩ nextId).push t [.holds s.accepted]).runInLoop t ioLoop
          (.connectEstablished s.accepted) := by
  simp only [newConnection, getNextLoop, bind_eq_ok] at hok
  obtain ⟨⟨ioLoop, s₁⟩, hloop, hok⟩ := hok
  split at hloop
  · cases hloop
    cases hok
    exact ⟨s.loop_, s.nextId_, rfl⟩
  · simp only [bind_eq_ok, demand_eq_ok, pure_eq_ok, Except.ok.injEq, Prod.mk.injEq] at hloop
    obtain ⟨l, _, rfl, rfl⟩ := hloop
    cases hok
    exact ⟨l, _, rfl⟩

/-- Nothing is done or left to do for a connection that is not accepted. -/
theorem Life.unborn {s : TcpServer τ} {c : Nat} (h : s.Life once c) (hc : s.conns c = none) :
    (∀ k, k ≠ .handler → s.did c k = 0) ∧ (∀ l k, s.tokens l c k = 0) ∧
      (∀ l, ¬ s.Dispatches l c) ∧ ¬ s.Asked c := by
  have hnew : s.stateOf c = .kConnecting := by simp only [stateOf, hc]
  have h1 := h.established
  have h2 := h.whole (Or.inl hnew)
  have h3 := h.removed
  have h4 := h.destroyed
  simp only [hc, Option.isSome_none, Bool.false_eq_true, if_false] at h1
  refine ⟨fun k hk => ?_, fun l k => ?_, fun l hd => (h.dispatches l hd).2 hnew,
    fun ha => h.asked ha hnew⟩
  · cases k with
    | handler => exact absurd rfl hk
    | connectEstablished => omega
    | handleClose => omega
    | removeConnectionInLoop => omega
    | connectDestroy => omega
  · by_cases hl : l = s.home c k
    · have hleft : s.left c k = 0 := by
        cases k with
        | connectEstablished => omega
        | closeCallback => omega
        | removeConnectionInLoop => omega
        | connectDestroy => omega
      rw [hl]
      exact hleft
    · exact h.stray k l hl

/-- The life of a connection begins. -/
theorem Life.born {s s' : TcpServer τ} {c : Nat} (h : s.Life once c) (hc : s.conns c = none)
    {conn : ServerConnection τ} (hc' : s'.conns c = some conn) (hsound : conn.conn.Sound)
    (hnew : conn.conn.state_ = .kConnecting) (hreg : conn.registered = false)
    (hdid : ∀ k, k ≠ .handler → s'.did c k = s.did c k)
    (htokens : ∀ l k, s'.tokens l c k =
      s.tokens l c k + if l = conn.loop_ ∧ .connectEstablished = k then 1 else 0)
    (hdispatches : ∀ l, s'.Dispatches l c → s.Dispatches l c) (hasked : s'.Asked c → s.Asked c)
    (hmapped : s'.connections_.find conn.name_ = some c) : s'.Life once c := by
  obtain ⟨hzero, hnone, hquiet, hsilent⟩ := h.unborn hc
  have hdid' : ∀ k, k ≠ .handler → s'.did c k = 0 := fun k hk => (hdid k hk).trans (hzero k hk)
  have hloop := loopOf_some hc'
  have hstate : s'.stateOf c = .kConnecting := (stateOf_some hc').trans hnew
  have hleft : ∀ k, s'.left c k = if .connectEstablished = k then 1 else 0 := by
    intro k
    rw [left, htokens, hnone, Nat.zero_add]
    cases k <;> simp [home, hloop]
  have hdead : ∀ k, k ≠ .connectEstablished → s'.left c k = 0 :=
    fun k hk => (hleft k).trans (if_neg (Ne.symm hk))
  have hout : ∀ l, ¬ s'.Dispatches l c := fun l hd => hquiet l (hdispatches l hd)
  refine ⟨?_, ?_, fun _ => hdid' _ (by decide), fun _ => ?_, ?_, ?_, fun k l hl => ?_,
    fun l hd => absurd hd (hout l), fun ha => absurd (hasked ha) hsilent,
    fun conn₁ hc₁ hr => ?_, fun conn₁ hc₁ _ => ?_, fun conn₁ hc₁ => ?_⟩
  · rw [hdid' _ (by decide), hleft, hc']
    rfl
  · rw [hdid' _ (by decide), hstate]
    rfl
  · rw [hdid' _ (by decide), hstate]
    rfl
  · rw [hdid' _ (by decide), hdid' _ (by decide), hdead _ (by decide), hdead _ (by decide)]
  · rw [hdid' _ (by decide), hdid' _ (by decide), hdead _ (by decide)]
  · rw [htokens, hnone, if_neg]
    rintro ⟨rfl, rfl⟩
    exact hl hloop.symm
  · rw [hc'] at hc₁
    cases hc₁
    rw [hreg] at hr
    cases hr
  · rw [hc'] at hc₁
    cases hc₁
    exact hmapped
  · rw [hc'] at hc₁
    cases hc₁
    exact hsound

theorem rests_take {s : TcpServer τ} {conn : ServerConnection τ} {nextId c : Nat}
    (hne : c ≠ s.accepted) (hname : ∀ conn', s.conns c = some conn' → conn'.name_ ≠ conn.name_) :
    Rests once s (s.take conn nextId) c := by
  refine ⟨rfl, Or.inl (Function.update_of_ne hne _ _), fun _ _ => rfl, fun _ _ => rfl,
    fun _ h => Or.inl h, Or.inl, fun conn' hc hm => ?_⟩
  exact (Map.find_insert_ne (hname conn' hc)).trans hm

omit [DecidableEq τ] in
theorem Books.take {s : TcpServer τ} (h : s.Books) {conn : ServerConnection τ} {nextId : Nat}
    (hname : conn.name_ = connName s.name_ ((s.accepted : Int) + 1))
    (hbound : s.accepted + 1 < 2 ^ 31 - 1) : (s.take conn nextId).Books := by
  refine ⟨fun c => ?_, fun c conn' hc => ?_, ?_⟩
  · by_cases hcase : c = s.accepted
    · simp [TcpServer.take, setConn, hcase]
    · have hold := h.fresh c
      simp only [TcpServer.take, setConn, Function.update_of_ne hcase, hold]
      omega
  · by_cases hcase : c = s.accepted
    · subst hcase
      simp only [TcpServer.take, setConn, Function.update_self, Option.some.injEq] at hc
      rw [← hc]
      exact hname
    · simp only [TcpServer.take, setConn, Function.update_of_ne hcase] at hc
      exact h.names c conn' hc
  · simp only [TcpServer.take, h.number]
    rw [toInt_eq (by omega) (by omega)]
    omega

/-- A connection that is taken in is new, and `connectEstablished` is due. -/
theorem Inv.take {s : TcpServer τ} (h : s.Inv once) {t : τ} {rest : List (Frame τ)}
    (hs : s.stack t = .accept :: rest) {conn : ServerConnection τ} {nextId : Nat}
    (hname : conn.name_ = connName s.name_ ((s.accepted : Int) + 1)) (hsound : conn.conn.Sound)
    (hnew : conn.conn.state_ = .kConnecting) (hreg : conn.registered = false)
    (hbound : s.accepted + 1 < 2 ^ 31 - 1) :
    ((((s.pop t rest).take conn nextId).push t [.holds s.accepted]).runInLoop t conn.loop_
      (.connectEstablished s.accepted)).Inv once := by
  have hcalm := h.calm hs (by simp)
  have htaken : ((s.pop t rest).take conn nextId).Threads :=
    (h.threads.stack hcalm rest).same rfl rfl
  have hthreads := htaken.push hcalm [.holds s.accepted]
  have hspec := runInLoop.spec hthreads hcalm conn.loop_ (.connectEstablished s.accepted)
  have hfresh : s.conns s.accepted = none := (h.books.fresh _).mpr (Nat.le_refl _)
  have hpop : ∀ c, Rests once s (s.pop t rest) c := fun c => rests_pop hs trivial
  have hheld : ∀ c, Rests once ((s.pop t rest).take conn nextId)
      (((s.pop t rest).take conn nextId).push t [.holds s.accepted]) c :=
    fun c => rests_hold _ t c s.accepted
  have hpopped : (s.pop t rest).Books := h.books.same rfl rfl rfl rfl
  have hbooks : ((s.pop t rest).take conn nextId).Books := hpopped.take hname hbound
  have htold : ((s.pop t rest).take conn nextId).Told := by
    refine h.told.next rfl rfl fun c conn' hc => ⟨conn', ?_, rfl⟩
    have hold : c ≠ s.accepted := by
      rintro rfl
      rw [hfresh] at hc
      cases hc
    exact (Function.update_of_ne hold _ _).trans hc
  refine ⟨hspec.1, ?_, ?_, fun c => ?_⟩
  · exact hbooks.same (runInLoop_name_ _ _ _ _) (runInLoop_accepted _ _ _ _)
      (runInLoop_nextConnId_ _ _ _ _) (runInLoop_conns _ _ _ _)
  · exact htold.same (runInLoop_loop_ _ _ _ _) (runInLoop_trace _ _ _ _) (runInLoop_conns _ _ _ _)
  · by_cases hc : c = s.accepted
    · subst hc
      refine (h.life _).born hfresh ?_ hsound hnew hreg (fun k hk => ?_) (fun l k => ?_)
        (fun l hd => ?_) (fun ha => ?_) ?_
      · rw [runInLoop_conns]
        exact Function.update_self _ _ _
      · rw [runInLoop_did, did_push]
        exact (hpop s.accepted).did k hk
      · rw [tokens_give .connectEstablished hthreads hcalm _ rfl,
          (hheld s.accepted).tokens, ← (hpop s.accepted).tokens]
        rfl
      · exact dispatches_pop hs (dispatches_hold (hspec.2.2.2.1 l s.accepted hd))
      · exact asked_pop hs (asked_hold (hspec.2.2.2.2 s.accepted ha))
      · rw [runInLoop_connections_]
        exact Map.find_insert_self _ _ _
    · have hborn : Rests once (s.pop t rest) ((s.pop t rest).take conn nextId) c := by
        refine rests_take hc fun conn' hc' hsame => hc ?_
        rw [h.books.names c conn' hc', hname] at hsame
        exact connName_inj hsame
      refine (h.life c).rests ((hpop c).trans (hborn.trans ((hheld c).trans
        (rests_runInLoop hthreads hcalm _ ?_))))
      simpa [Functor.refs] using Ne.symm hc

theorem Inv.newConnection {s s' : TcpServer τ} (h : s.Inv once) {t : τ} {sockfd : Int}
    {rest : List (Frame τ)} (hs : s.stack t = .accept :: rest)
    (hok : (s.pop t rest).newConnection t sockfd = .ok s')
    (hbound : s'.accepted < 2 ^ 31 - 1) : s'.Inv once := by
  obtain ⟨ioLoop, nextId, rfl⟩ := newConnection.spec hok
  rw [runInLoop_accepted] at hbound
  refine h.take hs ?_ (TcpConnection.construct_sound _ _ _) rfl rfl hbound
  exact congrArg (connName s.name_) h.books.number

end TcpServer

end jmuduo.net
