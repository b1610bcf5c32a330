-- The law of a half-close on a connection that several threads use: when it
-- waits for the messages that are still on their way to the loop.
import Jmuduo.SharedSends

open outcome runs

namespace jmuduo.net

namespace SharedConnection

open TcpConnection

variable {τ κ : Type} [DecidableEq τ] [DecidableEq κ]

/-! ## The half-close and the messages -/

/-- A message is on its way: its `send` has found the connection up, and its
`sendInLoop` is yet to run. -/
def OnItsWay (s : SharedConnection τ κ) : Prop :=
  (∃ t range said, s.calling t = .sending range said) ∨
    ∃ range said, .sendInLoop range said ∈ s.loop_.waiting

def HalfClosed (c : TcpConnection) : Prop := ∃ unsent, .shutdownWrite unsent ∈ c.trace

/-- The half-close came after all the messages. -/
def Waited (s : SharedConnection τ κ) : Prop := HalfClosed s.conn → ¬ s.OnItsWay

/-- The step takes the branch of `shutdownWrite()`: of `shutdown` on the loop
thread, of a drain, or of a functor. -/
def Act.HalfCloses (s : SharedConnection τ κ) : Act τ κ → Prop
  | .shutdown t =>
    s.loop_.isInLoopThread t = true ∧ s.conn.state_ = .kConnected ∧
      s.conn.channel_.isWriting = false
  | .handler (.handleWrite w) => Drains w s.conn
  | a => (∃ w, a.calls s = some (.shutdownInLoop, w)) ∧ s.conn.channel_.isWriting = false

/-- A step takes that branch only where no thread is between the test of
`send` and its functor, and no functor is left that sends. -/
def Act.Patient (s : SharedConnection τ κ) (a : Act τ κ) : Prop :=
  a.HalfCloses s → (∀ t range said, s.calling t ≠ .sending range said) ∧
    ∀ range said, .sendInLoop range said ∉ s.loop_.waiting

theorem halfClosed_append {c c' : TcpConnection} {es : List Event}
    (htrace : c'.trace = c.trace ++ es) (h : HalfClosed c') :
    HalfClosed c ∨ ∃ unsent, .shutdownWrite unsent ∈ es := by
  obtain ⟨unsent, hmem⟩ := h
  rw [htrace] at hmem
  rcases List.mem_append.mp hmem with hold | hnew
  · exact Or.inl ⟨unsent, hold⟩
  · exact Or.inr ⟨unsent, hnew⟩

theorem IsOutput.not_halfClose {e : Event} (h : IsOutput e) :
    ∀ unsent, e ≠ .shutdownWrite unsent := by
  rintro unsent rfl
  rcases h with ⟨_, h⟩ | ⟨_, h⟩ | h | ⟨_, h⟩ <;> cases h

omit [DecidableEq κ] in
/-- Only the steps with the branch half-close the connection. -/
theorem Effect.halfCloses {s : SharedConnection τ κ} {a : Act τ κ} {c : TcpConnection}
    {said : List Byte} (h : s.conn.Streams) (he : Effect s a c said) (hc : HalfClosed c) :
    HalfClosed s.conn ∨ a.HalfCloses s := by
  cases he with
  | none => exact Or.inl hc
  | established hup => exact Or.inl ((halfClosed_append (by rfl) hc).resolve_right (by simp))
  | @inward input revents es hes =>
    refine Or.inl ((halfClosed_append (by rfl) hc).resolve_right ?_)
    rintro ⟨unsent, he⟩
    have hmem := hes _ he
    simp at hmem
  | @down es hes =>
    refine Or.inl ((halfClosed_append (c := s.conn) (by rfl) hc).resolve_right ?_)
    rintro ⟨unsent, he⟩
    have hmem := down_notices hes _ he
    simp at hmem
  | handleWrite ha hok =>
    subst ha
    obtain ⟨_, es, htrace, hes, _⟩ := handleWrite_events h hok
    rcases halfClosed_append htrace hc with hold | ⟨unsent, he⟩
    · exact Or.inl hold
    · rcases hes _ he with hout | ⟨hdrains, _⟩
      · exact absurd rfl (hout.not_halfClose unsent)
      · exact Or.inr hdrains
  | sendInLoop ha hok =>
    obtain ⟨_, es, htrace, hes⟩ := sendInLoop_events h hok
    refine Or.inl ((halfClosed_append htrace hc).resolve_right ?_)
    rintro ⟨unsent, he⟩
    exact (hes _ he).not_halfClose unsent rfl
  | shutdown ha ht =>
    subst ha
    rcases s.conn.shutdown_cases with ⟨_, e⟩ | ⟨_, _, e⟩ | ⟨hup, hw, _⟩
    · rw [e] at hc
      exact Or.inl hc
    · rw [e] at hc
      exact Or.inl ((halfClosed_append (by rfl) hc).resolve_right (by simp))
    · exact Or.inr ⟨ht, hup, hw⟩
  | setState ha =>
    exact Or.inl ((halfClosed_append (c := s.conn) (by rfl) hc).resolve_right (by simp))
  | @shutdownInLoop w ha =>
    by_cases hw : s.conn.channel_.isWriting = true
    · simp only [TcpConnection.shutdownInLoop, hw] at hc
      exact Or.inl hc
    · refine Or.inr ?_
      have hbranch : (∃ w, a.calls s = some (.shutdownInLoop, w)) ∧
          s.conn.channel_.isWriting = false := ⟨⟨w, ha⟩, by simpa using hw⟩
      cases a with
      | loop a v => exact hbranch
      | _ => cases ha

/-! ## What was asked for -/

/-- A half-close was asked for before it comes, and a connection of which it
was asked is not up again. -/
structure Asked (s : SharedConnection τ κ) : Prop where
  ready : s.Ready
  streams : s.conn.Streams
  fresh : s.conn.state_ = .kConnecting ∨ s.conn.state_ = .kConnected → .shutdown ∉ s.conn.trace
  asked : s.conn.state_ = .kDisconnecting → .shutdown ∈ s.conn.trace
  calling : ∀ t, s.calling t = .shut → .shutdown ∈ s.conn.trace
  queued : .shutdownInLoop ∈ s.loop_.waiting → .shutdown ∈ s.conn.trace
  half : HalfClosed s.conn → .shutdown ∈ s.conn.trace

omit [DecidableEq τ] [DecidableEq κ] in
theorem mem_waiting_of_calls {s : SharedConnection τ κ} {a : Act τ κ} {f : Functor}
    {w : WriteResult} (ha : a.calls s = some (f, w)) : f ∈ s.loop_.waiting := by
  unfold Act.calls at ha
  split at ha
  · obtain ⟨g, hg, he⟩ := Option.map_eq_some_iff.mp ha
    cases he
    exact List.mem_append_left _ (List.mem_of_mem_head? hg)
  · cases ha

omit [DecidableEq κ] in
/-- What a step does to the state, and to the requests in the trace. -/
theorem Effect.asked {s : SharedConnection τ κ} {a : Act τ κ} {c : TcpConnection}
    {said : List Byte} (h : s.Asked) (he : Effect s a c said) :
    (∃ es, c.trace = s.conn.trace ++ es) ∧
    (c.state_ = .kConnecting ∨ c.state_ = .kConnected → .shutdown ∉ c.trace) ∧
    (c.state_ = .kDisconnecting → .shutdown ∈ c.trace) := by
  -- a step that keeps the state and asks for nothing
  have hkeep : ∀ {c : TcpConnection} {es : List Event}, c.trace = s.conn.trace ++ es →
      c.state_ = s.conn.state_ → .shutdown ∉ es →
      (∃ es, c.trace = s.conn.trace ++ es) ∧
      (c.state_ = .kConnecting ∨ c.state_ = .kConnected → .shutdown ∉ c.trace) ∧
      (c.state_ = .kDisconnecting → .shutdown ∈ c.trace) := by
    intro c es htrace hstate hes
    rw [hstate, htrace, List.mem_append, or_iff_left hes]
    exact ⟨⟨es, rfl⟩, h.fresh, h.asked⟩
  cases he with
  | none => exact hkeep (List.append_nil _).symm rfl List.not_mem_nil
  | established hup =>
    refine ⟨⟨_, rfl⟩, fun _ hmem => h.fresh (Or.inl hup) ?_, fun hs => ?_⟩
    · simpa [log, TcpConnection.established] using hmem
    · cases hs
  | @inward input revents es hes =>
    refine hkeep rfl rfl fun he => ?_
    have hmem := hes _ he
    simp at hmem
  | down hes => exact ⟨⟨_, rfl⟩, by simp [log, TcpConnection.down], fun hs => by cases hs⟩
  | handleWrite ha hok =>
    obtain ⟨hstate, es, htrace, hes, _⟩ := handleWrite_events h.streams hok
    refine hkeep htrace hstate fun he => ?_
    rcases hes _ he with (⟨_, h⟩ | ⟨_, h⟩ | h | ⟨_, h⟩) | ⟨_, h⟩ <;> cases h
  | sendInLoop ha hok =>
    obtain ⟨hstate, es, htrace, hes⟩ := sendInLoop_events h.streams hok
    refine hkeep htrace hstate fun he => ?_
    rcases hes _ he with ⟨_, h⟩ | ⟨_, h⟩ | h | ⟨_, h⟩ <;> cases h
  | shutdown ha ht =>
    rcases s.conn.shutdown_cases with ⟨_, e⟩ | ⟨_, _, e⟩ | ⟨_, _, e⟩
    · rw [e]
      exact hkeep (List.append_nil _).symm rfl List.not_mem_nil
    · rw [e]
      exact ⟨⟨_, rfl⟩, by simp, by simp⟩
    · rw [e]
      exact ⟨⟨_, rfl⟩, by simp, by simp⟩
  | setState ha => exact ⟨⟨_, rfl⟩, by simp [log], by simp [log]⟩
  | shutdownInLoop ha =>
    by_cases hw : s.conn.channel_.isWriting = true
    · simp only [TcpConnection.shutdownInLoop, hw]
      exact hkeep (List.append_nil _).symm rfl List.not_mem_nil
    · simp only [TcpConnection.shutdownInLoop, hw]
      exact hkeep (c := s.conn.log _) rfl rfl (by simp)

/-- A step that takes the branch half-closes the connection, and takes no
message from its way. -/
theorem Act.HalfCloses.run {s s' : SharedConnection τ κ} {a : Act τ κ} (h : s.Asked)
    (hhalf : a.HalfCloses s) (hok : a.run s = .ok s') :
    HalfClosed s'.conn ∧ .shutdown ∈ s'.conn.trace ∧ s'.calling = s.calling ∧
      (s'.loop_.waiting = s.loop_.waiting ∨
        s.loop_.waiting = .shutdownInLoop :: s'.loop_.waiting) := by
  cases a with
  | shutdown t =>
    obtain ⟨ht, hup, hw⟩ := hhalf
    simp only [Act.run, SharedConnection.shutdown, hup, ht, if_true] at hok
    cases hok
    rcases s.conn.shutdown_cases with ⟨hnot, _⟩ | ⟨_, hwr, _⟩ | ⟨_, _, e⟩
    · exact absurd hup hnot
    · rw [hw] at hwr
      cases hwr
    · refine ⟨⟨s.conn.unsent, ?_⟩, ?_, rfl, Or.inl rfl⟩
      · simp [e]
      · simp [e]
  | handler p =>
    cases p with
    | handleWrite w =>
      simp only [Act.run] at hok
      obtain ⟨c, hc, rfl⟩ := onConn_eq_ok.mp hok
      obtain ⟨_, es, htrace, _, hdrains⟩ := handleWrite_events h.streams hc
      refine ⟨⟨[], ?_⟩, ?_, rfl, Or.inl rfl⟩
      · simp only [htrace]
        exact List.mem_append_right _ (hdrains hhalf)
      · simp only [htrace]
        exact List.mem_append_left _ (h.asked hhalf.2.2)
    | _ =>
      obtain ⟨⟨_, ha⟩, _⟩ := hhalf
      cases ha
  | loop a w =>
    obtain ⟨⟨v, ha⟩, hw⟩ := hhalf
    have hqueued := h.queued (mem_waiting_of_calls ha)
    have hwaiting : s.loop_.waiting = .shutdownInLoop :: s.loop_.callFunctor.waiting := by
      unfold Act.calls at ha
      split at ha
      · obtain ⟨g, hg, hpair⟩ := Option.map_eq_some_iff.mp ha
        cases hpair
        cases hfs : s.loop_.functors with
        | nil => simp [hfs] at hg
        | cons f fs =>
          rw [hfs] at hg
          cases hg
          simp [EventLoop.waiting, EventLoop.callFunctor, hfs]
      · cases ha
    rw [Act.run_of_calls ha] at hok
    cases hok
    refine ⟨⟨s.conn.unsent, ?_⟩, ?_, rfl, Or.inr hwaiting⟩
    · simp [TcpConnection.shutdownInLoop, hw, log, unsent]
    · simp [TcpConnection.shutdownInLoop, hw, log, hqueued]
  | _ =>
    obtain ⟨⟨_, ha⟩, _⟩ := hhalf
    cases ha

theorem Asked.step {s s' : SharedConnection τ κ} {a : Act τ κ} (h : s.Asked) (he : a.Enabled s)
    (hok : a.run s = .ok s') : s'.Asked := by
  have heffect := Act.effect he hok
  obtain ⟨⟨es, htrace⟩, hfresh, hasked⟩ := heffect.asked h
  have hkeep : .shutdown ∈ s.conn.trace → .shutdown ∈ s'.conn.trace := by
    rw [htrace]
    exact List.mem_append_left es
  refine ⟨h.ready.step he hok, heffect.streams h.streams, hfresh, hasked, fun t ht => ?_,
    fun hq => ?_, fun hc => ?_⟩
  · rcases calling_run he hok t with
      hsame | hidle | ⟨_, hnew⟩ | ⟨rfl, _⟩ | ⟨_, _, _, _, _, _, hnew⟩
    · exact hkeep (h.calling t (hsame.symm.trans ht))
    · rw [hidle] at ht
      cases ht
    · rw [hnew] at ht
      cases ht
    · cases hok
      simp [SharedConnection.setState, setCalling, log]
    · rw [hnew] at ht
      cases ht
  · rcases waiting_run h.ready.loop_ he hok hq with
      hold | hnew | ⟨_, hnew⟩ | ⟨t, ht, _⟩ | ⟨_, _, _, _, hnew⟩
    · exact hkeep (h.queued hold)
    · cases hnew
    · cases hnew
    · exact hkeep (h.calling t ht)
    · cases hnew
  · rcases heffect.halfCloses h.streams hc with hold | hnew
    · exact hkeep (h.half hold)
    · exact (hnew.run h hok).2.1

/-! ## The law -/

/-- No message is on its way that was not before, unless its `send` has just
found the connection up. -/
theorem onItsWay_run {s s' : SharedConnection τ κ} {a : Act τ κ} (h : s.Ready) (he : a.Enabled s)
    (hok : a.run s = .ok s') (hway : s'.OnItsWay) :
    s.OnItsWay ∨ s.conn.state_ = .kConnected ∧ ∃ t range w, a = .send t range w := by
  rcases hway with ⟨t, range, said, ht⟩ | ⟨range, said, hq⟩
  · rcases calling_run he hok t with
      hsame | hidle | ⟨_, hnew⟩ | ⟨_, hnew⟩ | ⟨_, hup, range, _, w, ha, _⟩
    · exact Or.inl (Or.inl ⟨t, range, said, hsame.symm.trans ht⟩)
    · rw [hidle] at ht
      cases ht
    · rw [hnew] at ht
      cases ht
    · rw [hnew] at ht
      cases ht
    · exact Or.inr ⟨hup, t, range, w, ha⟩
  · rcases waiting_run h.loop_ he hok hq with
      hold | hnew | ⟨_, hnew⟩ | ⟨_, _, hnew⟩ | ⟨t, range, said, ht, _⟩
    · exact Or.inl (Or.inr ⟨range, said, hold⟩)
    · cases hnew
    · cases hnew
    · cases hnew
    · exact Or.inl (Or.inl ⟨t, range, said, ht⟩)

/-- A step keeps the half-close behind the messages exactly when it is
patient. -/
theorem waited_step {s s' : SharedConnection τ κ} {a : Act τ κ} (h : s.Asked) (hw : s.Waited)
    (he : a.Enabled s) (hok : a.run s = .ok s') : s'.Waited ↔ a.Patient s := by
  constructor
  · intro hw' hhalf
    obtain ⟨hclosed, _, hcalling, hwaiting⟩ := hhalf.run h hok
    have hnone := hw' hclosed
    refine ⟨fun t range said ht => hnone (Or.inl ⟨t, range, said, ?_⟩),
      fun range said hq => hnone (Or.inr ⟨range, said, ?_⟩)⟩
    · rw [hcalling]
      exact ht
    · rcases hwaiting with e | e
      · rw [e]
        exact hq
      · rw [e] at hq
        exact (List.mem_cons.mp hq).resolve_left (by simp)
  · intro hpatient hclosed hway
    have hnone : ¬ s.OnItsWay ∧ s.conn.state_ ≠ .kConnected ∨
        ¬ s.OnItsWay ∧ a.HalfCloses s := by
      rcases (Act.effect he hok).halfCloses h.streams hclosed with hold | hhalf
      · exact Or.inl ⟨hw hold, fun hup => h.fresh (Or.inr hup) (h.half hold)⟩
      · obtain ⟨hnosend, hnofunctor⟩ := hpatient hhalf
        refine Or.inr ⟨?_, hhalf⟩
        rintro (⟨t, range, said, ht⟩ | ⟨range, said, hq⟩)
        · exact hnosend t range said ht
        · exact hnofunctor range said hq
    rcases onItsWay_run h.ready he hok hway with hold | ⟨hup, t, range, w, rfl⟩
    · rcases hnone with ⟨hnone, _⟩ | ⟨hnone, _⟩
      · exact hnone hold
      · exact hnone hold
    · rcases hnone with ⟨_, hdown⟩ | ⟨_, hhalf⟩
      · exact hdown hup
      · obtain ⟨⟨_, ha⟩, _⟩ := hhalf
        cases ha

/-- In every run, no message is on its way after the half-close in any of the
states, exactly when all the steps are patient. -/
theorem the_half_close_waits_exactly_where_no_message_is_on_its_way (threadId : τ)
    (wakeChannel : κ) (memory : Nat → Byte) (sockfd : Int) (writeComplete highWaterMark : Bool)
    (as : List (Act τ κ)) (s : SharedConnection τ κ) :
    ((machine threadId wakeChannel memory sockfd writeComplete highWaterMark).restrict
        fun s a _ => a.Patient s).Run
        (construct threadId wakeChannel memory sockfd writeComplete highWaterMark) as s ↔
      ((machine threadId wakeChannel memory sockfd writeComplete highWaterMark).restrict
        fun _ _ s' => s'.Waited).Run
        (construct threadId wakeChannel memory sockfd writeComplete highWaterMark) as s := by
  have hopen : ¬ HalfClosed (TcpConnection.construct sockfd writeComplete highWaterMark) := by
    rintro ⟨_, hmem⟩
    cases hmem
  have hwaited : (construct threadId wakeChannel memory sockfd writeComplete highWaterMark :
      SharedConnection τ κ).Waited := fun hhalf => absurd hhalf hopen
  have hasked : (construct threadId wakeChannel memory sockfd writeComplete highWaterMark :
      SharedConnection τ κ).Asked := by
    refine ⟨construct_ready threadId wakeChannel memory sockfd writeComplete highWaterMark,
      (construct_streams sockfd writeComplete highWaterMark).1, fun _ => List.not_mem_nil, ?_, ?_,
      ?_, fun hhalf => absurd hhalf hopen⟩
    · intro hstate
      cases hstate
    · intro t ht
      cases ht
    · intro hmem
      cases hmem
  apply Machine.Run.good_iff hasked hwaited
  · rintro s a s' hs ⟨he, hok⟩
    exact hs.step he hok
  · rintro s a s' hs hw ⟨he, hok⟩
    exact waited_step hs hw he hok

/-- A `shutdown` on the loop thread half-closes before a message that another
thread has queued. -/
theorem a_shutdown_overtakes_a_queued_send :
    ∃ s : SharedConnection Bool Unit, (machine false () (fun _ => 1) 5 false false).Reachable s ∧
      s.conn.trace = [.connectionCallback true, .shutdown, .shutdownWrite []] ∧
      s.loop_.waiting = [.sendInLoop firstByte [1]] ∧ ¬ s.Waited := by
  obtain ⟨s, hok, hp⟩ := exists_of_passes
    (x := ([.handler .established, .send true firstByte (.wrote 0), .queueSend true,
        .shutdown false] : List (Act Bool Unit)).foldlM Act.take
      (construct false () (fun _ => 1) 5 false false))
    (p := fun s =>
      s.conn.trace = [.connectionCallback true, .shutdown, .shutdownWrite []] ∧
      s.loop_.waiting = [.sendInLoop firstByte [1]]) (by decide +kernel)
  simp only [decide_eq_true_eq] at hp
  obtain ⟨htrace, hwaiting⟩ := hp
  refine ⟨s, reachable_of_ok hok, htrace, hwaiting, fun hw => ?_⟩
  exact hw ⟨[], by simp [htrace]⟩ (Or.inr ⟨firstByte, [1], by simp [hwaiting]⟩)

end SharedConnection

end jmuduo.net
