-- The laws of a send from another thread: when it hands over the bytes that
-- its caller meant, and when it leaves a connection alone that went down.
import Jmuduo.SharedConnection

open outcome runs

namespace jmuduo.net

namespace SharedConnection

open TcpConnection

variable {τ κ : Type} [DecidableEq τ] [DecidableEq κ]

/-! ## What the sends say -/

/-- The output is what the callers said. -/
def Faithful (s : SharedConnection τ κ) : Prop :=
  written s.conn.trace ++ s.conn.unsent = s.said

/-- A functor that sends finds the bytes in the memory that were there at the
call of `send`, unless it is to return at an `EPIPE`. -/
def Act.FindsBytes (s : SharedConnection τ κ) (a : Act τ κ) : Prop :=
  ∀ range said w, a.calls s = some (.sendInLoop range said, w) → ¬ s.conn.TakesEpipe w →
    (range.read s.memory).bytes = said

omit [DecidableEq κ] in
/-- A step sends nothing, or it is a `sendInLoop`. -/
theorem Effect.sent {s : SharedConnection τ κ} {a : Act τ κ} {c : TcpConnection}
    {said : List Byte} (h : s.conn.Streams) (he : Effect s a c said) :
    (said = s.said ∧ TcpConnection.sent c.trace = TcpConnection.sent s.conn.trace) ∨
    ∃ message bytes w, a.Sends s message bytes w ∧
      (s.conn.TakesEpipe w ∧ said = s.said ∧
          TcpConnection.sent c.trace = TcpConnection.sent s.conn.trace ∨
        ¬ s.conn.TakesEpipe w ∧ said = s.said ++ bytes ∧
          TcpConnection.sent c.trace = TcpConnection.sent s.conn.trace ++ message.bytes) := by
  cases he with
  | none => exact Or.inl ⟨rfl, rfl⟩
  | established hup => exact Or.inl ⟨rfl, (sent_append _ _).trans (List.append_nil _)⟩
  | @inward input revents es hes =>
    have hnone := bytes_of_notices fun e he => List.mem_cons_of_mem _ (hes e he)
    exact Or.inl ⟨rfl, by rw [sent_append, hnone.2, List.append_nil]⟩
  | @down es hes =>
    refine Or.inl ⟨rfl, (sent_append _ _).trans ?_⟩
    rw [(bytes_of_notices (down_notices hes)).2]
    exact List.append_nil _
  | handleWrite ha hok => exact Or.inl ⟨rfl, (handleWrite_bytes h hok).1⟩
  | @sendInLoop message bytes w _ ha hok =>
    refine Or.inr ⟨message, bytes, w, ha, ?_⟩
    have hsent := (sendInLoop_bytes h hok).1
    by_cases he : s.conn.TakesEpipe w
    · rw [if_pos he, List.append_nil] at hsent
      exact Or.inl ⟨he, if_pos he, hsent⟩
    · rw [if_neg he] at hsent
      exact Or.inr ⟨he, if_neg he, hsent⟩
  | shutdown ha ht =>
    refine Or.inl ⟨rfl, ?_⟩
    rcases s.conn.shutdown_cases with ⟨_, e⟩ | ⟨_, _, e⟩ | ⟨_, _, e⟩
    · rw [e]
    · rw [e]
      exact (sent_append _ _).trans (List.append_nil _)
    · rw [e]
      exact (sent_append _ _).trans (List.append_nil _)
  | setState ha => exact Or.inl ⟨rfl, (sent_append _ _).trans (List.append_nil _)⟩
  | shutdownInLoop ha =>
    refine Or.inl ⟨rfl, ?_⟩
    unfold TcpConnection.shutdownInLoop
    split
    · exact (sent_append _ _).trans (List.append_nil _)
    · rfl

omit [DecidableEq τ] [DecidableEq κ] in
theorem Streams.faithful_iff {s : SharedConnection τ κ} (h : s.conn.Streams) :
    s.Faithful ↔ TcpConnection.sent s.conn.trace = s.said := by
  rw [Faithful, h.stream]

/-- A step keeps the output faithful exactly when it finds its bytes. -/
theorem faithful_step {s s' : SharedConnection τ κ} {a : Act τ κ} (h : s.conn.Streams)
    (hf : s.Faithful) (he : a.Enabled s) (hok : a.run s = .ok s') :
    s'.Faithful ↔ a.FindsBytes s := by
  have heffect := Act.effect he hok
  have h' := heffect.streams h
  rw [Streams.faithful_iff h] at hf
  rw [Streams.faithful_iff h']
  constructor
  · intro hf' range said w ha htakes
    rw [Act.run_of_calls ha] at hok
    obtain ⟨c, hc, rfl⟩ := sendInLoop_eq_ok.mp hok
    have hsent := (sendInLoop_bytes h hc).1
    simp only [htakes, if_false] at hf' hsent
    rw [hsent, hf] at hf'
    exact List.append_cancel_left hf'
  · intro hfinds
    rcases heffect.sent h with ⟨hsaid, hsent⟩ | ⟨message, bytes, w, hsends, hcases⟩
    · rw [hsaid, hsent, hf]
    · rcases hcases with ⟨_, hsaid, hsent⟩ | ⟨htakes, hsaid, hsent⟩
      · rw [hsaid, hsent, hf]
      · have hbytes : message.bytes = bytes := by
          cases hsends with
          | direct ha hup => rfl
          | queued ha => exact hfinds _ _ _ ha htakes
        rw [hsaid, hsent, hf, hbytes]

/-- In every run, the output is what the callers said in all the states,
exactly when every functor that sends finds its bytes. -/
theorem the_output_is_what_was_said_exactly_where_the_bytes_stay (threadId : τ) (wakeChannel : κ)
    (memory : Nat → Byte) (sockfd : Int) (writeComplete highWaterMark : Bool)
    (as : List (Act τ κ)) (s : SharedConnection τ κ) :
    ((machine threadId wakeChannel memory sockfd writeComplete highWaterMark).restrict
        fun s a _ => a.FindsBytes s).Run
        (construct threadId wakeChannel memory sockfd writeComplete highWaterMark) as s ↔
      ((machine threadId wakeChannel memory sockfd writeComplete highWaterMark).restrict
        fun _ _ s' => s'.Faithful).Run
        (construct threadId wakeChannel memory sockfd writeComplete highWaterMark) as s := by
  obtain ⟨hstreams, hnone⟩ := construct_streams sockfd writeComplete highWaterMark
  have hfaithful : (construct threadId wakeChannel memory sockfd writeComplete highWaterMark :
      SharedConnection τ κ).Faithful := hnone
  apply Machine.Run.good_iff (P := fun s => s.conn.Streams) hstreams hfaithful
  · rintro s a s' hs ⟨he, hok⟩
    exact (Act.effect he hok).streams hs
  · rintro s a s' hs hf ⟨he, hok⟩
    exact faithful_step hs hf he hok

/-- A byte that its caller stores over before the functor runs. -/
theorem a_queued_send_sends_what_was_stored_later :
    ∃ s : SharedConnection Bool Unit, (machine false () (fun _ => 1) 5 false false).Reachable s ∧
      s.said = [1] ∧ written s.conn.trace = [7] ∧ ¬ s.Faithful := by
  obtain ⟨s, hok, hp⟩ := exists_of_passes
    (x := ([.handler .established, .send true firstByte (.wrote 0), .store 0 7,
        .queueSend true] ++ firstFunctor (.wrote 1) : List (Act Bool Unit)).foldlM Act.take
      (construct false () (fun _ => 1) 5 false false))
    (p := fun s => s.said = [1] ∧ written s.conn.trace = [7] ∧ s.conn.unsent = [])
    (by decide +kernel)
  simp only [decide_eq_true_eq] at hp
  obtain ⟨hsaid, hwritten, hu⟩ := hp
  refine ⟨s, reachable_of_ok hok, hsaid, hwritten, ?_⟩
  rw [Faithful, hsaid, hwritten, hu]
  decide

/-! ## A connection that went down -/

/-- The connection went down: it is disconnected and its channel disabled. -/
def WentDown (c : TcpConnection) : Prop := .connectionCallback false ∈ c.trace

/-- After the connection went down it makes no write and waits for nothing, so
that the assertion of `Channel::remove` holds in `connectDestroy`. -/
structure Silent (c : TcpConnection) : Prop where
  mute : ∀ bytes, ¬ [.connectionCallback false, .write bytes].Sublist c.trace
  idle : WentDown c → c.channel_.isNoneEvent = true
  removes : WentDown c → c.connectDestroy [] ≠ .error (.assertion "isNoneEvent()")

/-- A functor that sends on a connection that went down has an empty message,
and comes where bytes are still unsent. -/
def Act.LeavesAlone (s : SharedConnection τ κ) (a : Act τ κ) : Prop :=
  ∀ range said w, a.calls s = some (.sendInLoop range said, w) → WentDown s.conn →
    s.conn.unsent ≠ [] ∧ range.len = 0

/-- A pair is in order in a list that grew where it was before, or where its
second part is new. -/
theorem pair_sublist_append {α : Type*} {x y : α} {t u : List α}
    (h : [x, y].Sublist (t ++ u)) (hy : y ∉ u) : [x, y].Sublist t := by
  obtain ⟨l₁, l₂, heq, h1, h2⟩ := List.sublist_append_iff.mp h
  rcases List.eq_nil_or_concat l₂ with rfl | ⟨l, z, rfl⟩
  · rwa [heq, List.append_nil]
  · rw [List.concat_eq_append] at heq h2
    have hlast : [x] ++ [y] = (l₁ ++ l) ++ [z] := by
      rw [List.append_assoc, ← heq, List.singleton_append]
    obtain ⟨_, hz⟩ := List.append_inj' hlast rfl
    rw [← hz] at h2
    exact absurd (h2.subset (by simp)) hy

theorem mem_completion {c : TcpConnection} {rest : List Byte} {e : Event}
    (h : e ∈ c.completion rest) : e = .queueWriteComplete := by
  unfold completion at h
  split at h
  · exact List.mem_singleton.mp h
  · cases h

theorem mem_crossing {c : TcpConnection} {rest : List Byte} {e : Event}
    (h : e ∈ c.crossing rest) : ∃ len, e = .queueHighWaterMark len := by
  unfold crossing at h
  simp only at h
  split at h
  · exact ⟨_, List.mem_singleton.mp h⟩
  · cases h

theorem mem_halfClose {c : TcpConnection} {e : Event} (h : e ∈ c.halfClose) :
    c.state_ = .kDisconnecting ∧ e = .shutdownWrite [] := by
  unfold halfClose at h
  split at h
  · rename_i hs
    exact ⟨hs, List.mem_singleton.mp h⟩
  · cases h

theorem isWriting_of_isNoneEvent {c : Channel} (h : c.isNoneEvent = true) :
    c.isWriting = false := by
  simp only [Channel.isNoneEvent, beq_iff_eq] at h
  rw [Channel.isWriting, h]
  decide

theorem connectDestroy_removes {c : TcpConnection} (h : c.channel_.isNoneEvent = true) :
    c.connectDestroy [] ≠ .error (.assertion "isNoneEvent()") := by
  unfold TcpConnection.connectDestroy disconnect
  split
  · simp [TcpConnection.connectionCallback, TcpConnection.down, log, check, Channel.disableAll,
      Channel.isNoneEvent]
  · simp [check, h]

theorem Silent.of_up {c : TcpConnection} (h : ¬ WentDown c) : Silent c where
  mute bytes hs := h (hs.subset (by simp))
  idle hd := absurd hd h
  removes hd := absurd hd h

/-- A connection stays silent where it makes no write and changes nothing in
its interest, or waits for nothing. -/
theorem Silent.extend {c c' : TcpConnection} {es : List Event} (h : Silent c)
    (htrace : c'.trace = c.trace ++ es) (hmute : ∀ bytes, .write bytes ∉ es)
    (hidle : WentDown c' → c'.channel_.isNoneEvent = true) : Silent c' where
  mute bytes hs := by
    rw [htrace] at hs
    exact h.mute bytes (pair_sublist_append hs (hmute bytes))
  idle := hidle
  removes hd := connectDestroy_removes (hidle hd)

/-- The event is one of `sendInLoop`. -/
def IsOutput (e : Event) : Prop :=
  (∃ bytes, e = .write bytes) ∨ (∃ bytes, e = .send bytes) ∨ e = .queueWriteComplete ∨
    ∃ len, e = .queueHighWaterMark len

theorem sendInLoop_events {c c' : TcpConnection} {message : Message} {w : WriteResult}
    (h : c.Streams) (hok : c.sendInLoop message w = .ok c') :
    c'.state_ = c.state_ ∧ ∃ es, c'.trace = c.trace ++ es ∧ ∀ e ∈ es, IsOutput e := by
  rcases sendInLoop_cases h.out hok with
    ⟨_, _, rfl⟩ | ⟨done, rest, es, out, _, hes, _, _, rfl⟩
  · exact ⟨rfl, _, rfl, fun e he => Or.inl ⟨[], List.mem_singleton.mp he⟩⟩
  · refine ⟨rfl, _, rfl, fun e he => ?_⟩
    rcases List.mem_append.mp he with he | he
    · rcases hes with ⟨_, _, rfl⟩ | ⟨_, _, rfl⟩
      · rcases List.mem_cons.mp he with rfl | he
        · exact Or.inl ⟨_, rfl⟩
        · exact Or.inr (Or.inr (Or.inl (mem_completion he)))
      · cases he
    · rcases List.mem_cons.mp he with rfl | he
      · exact Or.inr (Or.inl ⟨_, rfl⟩)
      · exact Or.inr (Or.inr (Or.inr (mem_crossing he)))

/-- The write of a `handleWrite` half-closes the connection after it. -/
def Drains (w : WriteResult) (c : TcpConnection) : Prop :=
  c.channel_.isWriting = true ∧ w.taken c.unsent = c.unsent ∧ c.state_ = .kDisconnecting

theorem handleWrite_events {c c' : TcpConnection} {w : WriteResult} (h : c.Streams)
    (hok : c.handleWrite w = .ok c') :
    c'.state_ = c.state_ ∧ ∃ es, c'.trace = c.trace ++ es ∧
      (∀ e ∈ es, IsOutput e ∨ Drains w c ∧ e = .shutdownWrite []) ∧
      (Drains w c → .shutdownWrite [] ∈ es) := by
  have hwrite : ∀ bytes, IsOutput (.write bytes) := fun bytes => Or.inl ⟨bytes, rfl⟩
  rcases handleWrite.spec h.out hok with
    ⟨hw, rfl⟩ | ⟨hw, hnone, rfl⟩ | ⟨rest, out, hw, hu, _, _, _, ⟨hr, rfl⟩ | ⟨hr, rfl⟩⟩
  · refine ⟨rfl, [], (List.append_nil _).symm, by simp, ?_⟩
    rintro ⟨hwr, _⟩
    rw [hw] at hwr
    cases hwr
  · refine ⟨rfl, _, rfl, fun e he => Or.inl (List.mem_singleton.mp he ▸ hwrite []), ?_⟩
    rintro ⟨_, hall, _⟩
    exact absurd (hall.symm.trans hnone) (h.waits hw)
  · refine ⟨rfl, _, rfl, fun e he => Or.inl (List.mem_singleton.mp he ▸ hwrite _), ?_⟩
    rintro ⟨_, hall, _⟩
    rw [hall] at hu
    exact absurd (List.append_right_eq_self.mp hu.symm) hr
  · rw [hr, List.append_nil] at hu
    refine ⟨rfl, _, rfl, fun e he => ?_, ?_⟩
    · rcases List.mem_cons.mp he with rfl | he
      · exact Or.inl (hwrite _)
      · rcases List.mem_append.mp he with he | he
        · exact Or.inl (Or.inr (Or.inr (Or.inl (mem_completion he))))
        · obtain ⟨hs, rfl⟩ := mem_halfClose he
          exact Or.inr ⟨⟨hw, hu.symm, hs⟩, rfl⟩
    · rintro ⟨_, _, hs⟩
      simp [halfClose, hs]

theorem wentDown_append {c c' : TcpConnection} {es : List Event} (htrace : c'.trace = c.trace ++ es)
    (hes : .connectionCallback false ∉ es) : WentDown c' ↔ WentDown c := by
  unfold WentDown
  rw [htrace, List.mem_append, or_iff_left hes]

theorem IsOutput.ne_down {e : Event} (h : IsOutput e) : e ≠ .connectionCallback false := by
  rintro rfl
  rcases h with ⟨_, h⟩ | ⟨_, h⟩ | h | ⟨_, h⟩ <;> cases h

/-- What holds of the connection as long as it is left alone. -/
structure Settled (c : TcpConnection) : Prop where
  streams : c.Streams
  silent : Silent c
  gone : WentDown c → c.state_ ≠ .kConnecting ∧ c.state_ ≠ .kConnected

theorem Settled.of_up {c : TcpConnection} (hs : c.Streams) (h : ¬ WentDown c) : Settled c where
  streams := hs
  silent := .of_up h
  gone hd := absurd hd h

/-- An event that is no write and does not change the interest. -/
theorem Settled.extend {c c' : TcpConnection} {es : List Event} (h : Settled c)
    (hs : c'.Streams) (htrace : c'.trace = c.trace ++ es) (hdown : .connectionCallback false ∉ es)
    (hmute : ∀ bytes, .write bytes ∉ es) (hevents : c'.channel_.events_ = c.channel_.events_)
    (hstate : c'.state_ = c.state_ ∨ c'.state_ = .kDisconnecting) : Settled c' := by
  have hiff := wentDown_append htrace hdown
  refine ⟨hs, h.silent.extend htrace hmute fun hd => ?_, fun hd => ?_⟩
  · unfold Channel.isNoneEvent
    rw [hevents]
    exact h.silent.idle (hiff.mp hd)
  · rcases hstate with e | e
    · rw [e]
      exact h.gone (hiff.mp hd)
    · simp [e]

/-- A `sendInLoop` of an empty message behind unsent bytes does nothing. -/
theorem Settled.sendInLoop {c c' : TcpConnection} {message : Message} {w : WriteResult}
    (h : Settled c) (hok : c.sendInLoop message w = .ok c')
    (hleave : WentDown c → c.unsent ≠ [] ∧ message.bytes = []) : Settled c' := by
  have hs := (sendInLoop_streams h.streams hok).1
  by_cases hd : WentDown c
  · obtain ⟨hne, hempty⟩ := hleave hd
    rcases sendInLoop_cases h.streams.out hok with
      ⟨_, hu, _⟩ | ⟨done, rest, es, out, hm, hes, _, _, rfl⟩
    · exact absurd hu hne
    · rw [hempty] at hm
      have hrest : rest = [] := (List.append_eq_nil_iff.mp hm.symm).2
      rcases hes with ⟨_, hu, _⟩ | ⟨_, _, rfl⟩
      · exact absurd hu hne
      · refine h.extend hs rfl ?_ ?_ ?_ (Or.inl rfl)
        · simp [hrest, crossing]
        · simp [hrest, crossing]
        · simp [hrest, waiting]
  · obtain ⟨_, es, htrace, hes⟩ := sendInLoop_events h.streams hok
    refine .of_up hs fun hd' => hd ?_
    exact (wentDown_append htrace fun he => (hes _ he).ne_down rfl).mp hd'

theorem Settled.handleWrite {c c' : TcpConnection} {w : WriteResult} (h : Settled c)
    (hok : c.handleWrite w = .ok c') : Settled c' := by
  have hs := (handleWrite_streams h.streams hok).1
  by_cases hd : WentDown c
  · have hidle := isWriting_of_isNoneEvent (h.silent.idle hd)
    rw [TcpConnection.handleWrite, hidle] at hok
    cases hok
    exact h
  · obtain ⟨_, es, htrace, hes, _⟩ := handleWrite_events h.streams hok
    refine .of_up hs fun hd' => hd ?_
    refine (wentDown_append htrace fun he => ?_).mp hd'
    rcases hes _ he with hout | ⟨_, e⟩
    · exact hout.ne_down rfl
    · cases e

omit [DecidableEq κ] in
theorem Settled.step {s : SharedConnection τ κ} {a : Act τ κ} {c : TcpConnection}
    {said : List Byte} (h : Settled s.conn) (he : Effect s a c said) (hleave : a.LeavesAlone s) :
    Settled c := by
  have hs := he.streams h.streams
  cases he with
  | none => exact h
  | established hup =>
    refine .of_up hs fun hd => ?_
    have hold : WentDown s.conn := (wentDown_append (by rfl) (by simp)).mp hd
    exact (h.gone hold).1 hup
  | @inward input revents es hes =>
    refine h.extend hs rfl (fun he => ?_) (fun bytes he => ?_) rfl (Or.inl rfl)
    · have hmem := hes _ he
      simp at hmem
    · have hmem := hes _ he
      simp at hmem
  | @down es hes =>
    refine ⟨hs, h.silent.extend rfl (fun bytes he => ?_) (fun _ => rfl), fun _ => ?_⟩
    · rcases List.mem_cons.mp he with he | he
      · cases he
      · cases hes _ he
    · simp [log, TcpConnection.down]
  | handleWrite ha hok => exact h.handleWrite hok
  | @sendInLoop message bytes w _ ha hok =>
    refine h.sendInLoop hok fun hd => ?_
    cases ha with
    | direct ha hup => exact absurd hup (h.gone hd).2
    | queued ha =>
      obtain ⟨hne, hlen⟩ := hleave _ _ _ ha hd
      exact ⟨hne, by simp [Range.read, hlen]⟩
  | shutdown ha ht =>
    rcases s.conn.shutdown_cases with ⟨_, e⟩ | ⟨hup, _, e⟩ | ⟨hup, _, e⟩
    · rwa [e]
    · refine .of_up hs fun hd => ?_
      rw [e] at hd
      exact (h.gone ((wentDown_append (by rfl) (by simp)).mp hd)).2 hup
    · refine .of_up hs fun hd => ?_
      rw [e] at hd
      exact (h.gone ((wentDown_append (by rfl) (by simp)).mp hd)).2 hup
  | setState ha => exact h.extend hs rfl (by simp) (by simp) rfl (Or.inr rfl)
  | shutdownInLoop ha =>
    unfold TcpConnection.shutdownInLoop at hs ⊢
    split at hs
    · rename_i hw
      rw [if_pos hw]
      exact h.extend hs rfl (by simp) (by simp) rfl (Or.inl rfl)
    · rename_i hw
      rwa [if_neg hw]

/-- A step that keeps the connection silent leaves it alone. -/
theorem leavesAlone_of_silent {s s' : SharedConnection τ κ} {a : Act τ κ} (h : s.conn.Streams)
    (hok : a.run s = .ok s') (hsilent : Silent s'.conn) : a.LeavesAlone s := by
  intro range said w ha hd
  rw [Act.run_of_calls ha] at hok
  obtain ⟨c, hc, rfl⟩ := sendInLoop_eq_ok.mp hok
  have hnowrite : ∀ bytes es, c.trace = s.conn.trace ++ es → .write bytes ∉ es := by
    intro bytes es htrace he
    refine hsilent.mute bytes ?_
    simp only [htrace]
    exact List.Sublist.append (List.singleton_sublist.mpr hd) (List.singleton_sublist.mpr he)
  rcases sendInLoop_cases h.out hc with
    ⟨_, _, rfl⟩ | ⟨done, rest, es, out, hm, hes, _, _, rfl⟩
  · exact absurd (by simp) (hnowrite [] _ rfl)
  · rcases hes with ⟨_, _, rfl⟩ | ⟨hwait, rfl, rfl⟩
    · exact absurd (by simp) (hnowrite done _ rfl)
    · -- the message joined the unsent bytes, and the channel waits for nothing
      have hidle := hsilent.idle (by simp only [WentDown, List.mem_append]; exact Or.inl hd)
      have hnot : ¬ (s.conn.waiting rest).isWriting = true := by
        simpa using isWriting_of_isNoneEvent hidle
      rw [waiting_isWriting, not_or, not_not] at hnot
      refine ⟨hwait.resolve_left hnot.1, ?_⟩
      rw [hnot.2, List.append_nil] at hm
      have hlen := congrArg List.length hm
      simpa [Range.read] using hlen

/-- In every run, a connection that went down stays silent in all the states,
exactly when the queued sends leave it alone. -/
theorem a_connection_stays_silent_exactly_where_it_is_left_alone (threadId : τ) (wakeChannel : κ)
    (memory : Nat → Byte) (sockfd : Int) (writeComplete highWaterMark : Bool)
    (as : List (Act τ κ)) (s : SharedConnection τ κ) :
    ((machine threadId wakeChannel memory sockfd writeComplete highWaterMark).restrict
        fun s a _ => a.LeavesAlone s).Run
        (construct threadId wakeChannel memory sockfd writeComplete highWaterMark) as s ↔
      ((machine threadId wakeChannel memory sockfd writeComplete highWaterMark).restrict
        fun _ _ s' => Silent s'.conn).Run
        (construct threadId wakeChannel memory sockfd writeComplete highWaterMark) as s := by
  have hstart : Settled (construct threadId wakeChannel memory sockfd writeComplete highWaterMark :
      SharedConnection τ κ).conn := by
    exact .of_up (construct_streams sockfd writeComplete highWaterMark).1
      List.not_mem_nil
  apply Machine.Run.restrict_iff (P := fun s => Settled s.conn) hstart
  · rintro s a s' hs ⟨he, hok⟩
    exact ⟨fun hleave => (hs.step (Act.effect he hok) hleave).silent,
      leavesAlone_of_silent hs.streams hok⟩
  · rintro s a s' hs ⟨he, hok⟩ hleave
    exact hs.step (Act.effect he hok) hleave

/-- A send that was queued before the peer closed writes after it, and turns
the channel on that the `connectDestroy` behind it is to remove. -/
theorem a_queued_send_wakes_a_closed_connection :
    ∃ s : SharedConnection Bool Unit, (machine false () (fun _ => 1) 5 false false).Reachable s ∧
      s.conn.state_ = .kDisconnected ∧ s.loop_.functors = [.connectDestroy] ∧
      s.conn.connectDestroy [] = .error (.assertion "isNoneEvent()") ∧ ¬ Silent s.conn := by
  obtain ⟨s, hok, hp⟩ := exists_of_passes
    (x := ([.handler .established, .send true twoBytes (.wrote 0), .queueSend true,
        .loop (.callReturns true) (.wrote 0), .handler .handleClose, .handler .closeCallback,
        .removeConnectionInLoop true] ++ firstFunctor (.wrote 1) :
        List (Act Bool Unit)).foldlM Act.take
      (construct false () (fun _ => 1) 5 false false))
    (p := fun s => s.conn.state_ = .kDisconnected ∧ s.loop_.functors = [.connectDestroy] ∧
      s.conn.connectDestroy [] = .error (.assertion "isNoneEvent()") ∧
      .connectionCallback false ∈ s.conn.trace) (by decide +kernel)
  simp only [decide_eq_true_eq] at hp
  obtain ⟨hstate, hnext, hremoves, hdown⟩ := hp
  exact ⟨s, reachable_of_ok hok, hstate, hnext, hremoves, fun hs => hs.removes hdown hremoves⟩

end SharedConnection

end jmuduo.net
