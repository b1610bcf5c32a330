-- The laws of the output of a connection: no byte is lost, doubled or
-- reordered on the way to the socket, and a half-close waits for the drain.
import Jmuduo.ConnectionSteps

open outcome runs

namespace jmuduo.net

/-! ## What the trace says -/

def Event.written : Event → List Byte
  | .write bytes => bytes
  | _ => []

def Event.sent : Event → List Byte
  | .send bytes => bytes
  | _ => []

namespace TcpConnection

/-- The bytes that `write(2)` took. -/
def written (t : List Event) : List Byte := t.flatMap Event.written

/-- The bytes of the messages that `sendInLoop` took. -/
def sent (t : List Event) : List Byte := t.flatMap Event.sent

theorem written_append (t u : List Event) : written (t ++ u) = written t ++ written u :=
  List.flatMap_append

theorem sent_append (t u : List Event) : sent (t ++ u) = sent t ++ sent u :=
  List.flatMap_append

@[simp] theorem written_cons (e : Event) (t : List Event) :
    written (e :: t) = e.written ++ written t := rfl

@[simp] theorem sent_cons (e : Event) (t : List Event) : sent (e :: t) = e.sent ++ sent t := rfl

theorem completion_bytes (c : TcpConnection) (rest : List Byte) :
    written (c.completion rest) = [] ∧ sent (c.completion rest) = [] := by
  unfold completion
  split <;> exact ⟨rfl, rfl⟩

theorem crossing_bytes (c : TcpConnection) (rest : List Byte) :
    written (c.crossing rest) = [] ∧ sent (c.crossing rest) = [] := by
  unfold crossing
  simp only
  split <;> exact ⟨rfl, rfl⟩

theorem halfClose_bytes (c : TcpConnection) :
    written c.halfClose = [] ∧ sent c.halfClose = [] := by
  unfold halfClose
  split <;> exact ⟨rfl, rfl⟩

/-! ## The stream -/

/-- What the socket took and what still waits is what was sent, and the
connection waits for the socket only when bytes wait. -/
structure Streams (c : TcpConnection) : Prop where
  out : c.outputBuffer_.Inv
  stream : written c.trace ++ c.unsent = sent c.trace
  waits : c.channel_.isWriting = true → c.unsent ≠ []

/-- The bytes of a connection that is not down wait for the socket. -/
def Waits (c : TcpConnection) : Prop :=
  c.state_ ≠ .kDisconnected → c.unsent ≠ [] → c.channel_.isWriting = true

theorem waiting_isWriting (c : TcpConnection) (rest : List Byte) :
    (c.waiting rest).isWriting = true ↔ c.channel_.isWriting = true ∨ rest ≠ [] := by
  unfold waiting
  split <;> rename_i h
  · simp [h.1]
  · by_cases hw : c.channel_.isWriting = true
    · simp [hw]
    · have hr : rest = [] := by
        by_contra hne
        exact h ⟨hne, by simpa using hw⟩
      simp [hr]

/-- A step keeps the stream when what it writes comes from the front of the
unsent bytes, and what it sends goes behind them. -/
theorem Streams.step {c c' : TcpConnection} {es : List Event} (h : c.Streams)
    (hi : c'.outputBuffer_.Inv) (htrace : c'.trace = c.trace ++ es)
    (hmove : written es ++ c'.unsent = c.unsent ++ sent es)
    (hwaits : c'.channel_.isWriting = true → c'.unsent ≠ []) : c'.Streams := by
  refine ⟨hi, ?_, hwaits⟩
  rw [htrace, written_append, sent_append, List.append_assoc, hmove, ← List.append_assoc, h.stream]

/-- A step that moves no byte keeps the stream. -/
theorem Streams.idle {c c' : TcpConnection} {es : List Event} (h : c.Streams)
    (hout : c'.outputBuffer_ = c.outputBuffer_) (htrace : c'.trace = c.trace ++ es)
    (hes : written es = [] ∧ sent es = [])
    (hw : c'.channel_.isWriting = true → c.channel_.isWriting = true) : c'.Streams := by
  have hu : c'.unsent = c.unsent := by rw [unsent, hout, unsent]
  refine h.step (hout ▸ h.out) htrace ?_ (fun hc => hu ▸ h.waits (hw hc))
  rw [hes.1, hes.2, hu, List.append_nil, List.nil_append]

theorem sendInLoop_streams {c c' : TcpConnection} {message : Message} {w : WriteResult}
    (h : c.Streams) (hok : c.sendInLoop message w = .ok c') :
    c'.Streams ∧ (c.Waits → c'.Waits) := by
  rcases sendInLoop_cases h.out hok with ⟨_, _, rfl⟩ | ⟨done, rest, es, out, hm, hes, hi, hcon, e⟩
  · exact ⟨h.idle rfl rfl ⟨rfl, rfl⟩ id, id⟩
  · have hu : c'.unsent = c.unsent ++ rest := by rw [unsent, e, hcon]
    have hw : c'.channel_.isWriting = true ↔ c.channel_.isWriting = true ∨ rest ≠ [] := by
      rw [e]
      exact c.waiting_isWriting rest
    have hmove : written es ++ c.unsent = c.unsent ++ done ∧ sent es = [] := by
      rcases hes with ⟨_, hnone, rfl⟩ | ⟨_, rfl, rfl⟩
      · -- a direct write happens only where nothing waits
        obtain ⟨h1, h2⟩ := c.completion_bytes rest
        simp [h1, h2, hnone, Event.written, Event.sent]
      · exact ⟨by simp [written], rfl⟩
    obtain ⟨h1, h2⟩ := c.crossing_bytes rest
    refine ⟨h.step (e ▸ hi) (by rw [e]) ?_ ?_, ?_⟩
    · simp only [written_append, sent_append, written_cons, sent_cons, Event.written, Event.sent,
        h1, h2, hmove.2, hu, hm, List.append_nil, List.nil_append]
      rw [← List.append_assoc, hmove.1, List.append_assoc]
    · intro hwr
      rw [hu]
      rcases hw.mp hwr with hold | hne
      · exact List.append_ne_nil_of_left_ne_nil (h.waits hold) rest
      · exact List.append_ne_nil_of_right_ne_nil _ hne
    · intro hwaits hopen hne
      refine hw.mpr ?_
      by_cases hr : rest = []
      · rw [hu, hr, List.append_nil] at hne
        exact Or.inl (hwaits (by rwa [e] at hopen) hne)
      · exact Or.inr hr

theorem handleWrite_streams {c c' : TcpConnection} {w : WriteResult} (h : c.Streams)
    (hok : c.handleWrite w = .ok c') : c'.Streams ∧ (c.Waits → c'.Waits) := by
  rcases handleWrite_cases h.out hok with
    ⟨_, rfl⟩ | ⟨_, rfl⟩ | ⟨done, rest, out, hw, hu, hd, hi, hcon, ⟨hr, e⟩ | ⟨hr, e⟩⟩
  · exact ⟨h, id⟩
  · exact ⟨h.idle rfl rfl ⟨rfl, rfl⟩ id, id⟩
  · have hu' : c'.unsent = rest := by rw [unsent, e, hcon]
    refine ⟨h.step (e ▸ hi) (by rw [e]) ?_ (fun _ => hu' ▸ hr), fun _ _ _ => e ▸ hw⟩
    simp [written, sent, Event.written, Event.sent, hu, hu']
  · have hu' : c'.unsent = [] := by rw [unsent, e, hcon, hr]
    obtain ⟨h1, h2⟩ := c.completion_bytes []
    obtain ⟨h3, h4⟩ := c.halfClose_bytes
    refine ⟨h.step (e ▸ hi) (by rw [e]) ?_ (fun hwr => ?_), fun _ _ hne => absurd hu' hne⟩
    · simp [written_append, sent_append, Event.written, Event.sent, h1, h2, h3, h4, hu, hu', hr]
    · rw [e] at hwr
      simp at hwr

theorem shutdown_streams {c : TcpConnection} (h : c.Streams) :
    c.shutdown.Streams ∧ (c.Waits → c.shutdown.Waits) := by
  rcases c.shutdown_cases with ⟨_, e⟩ | ⟨hs, _, e⟩ | ⟨hs, _, e⟩
  · rw [e]
    exact ⟨h, id⟩
  · rw [e]
    exact ⟨h.idle rfl rfl ⟨rfl, rfl⟩ id, fun hw _ => hw (by simp [hs])⟩
  · rw [e]
    exact ⟨h.idle rfl rfl ⟨rfl, rfl⟩ id, fun hw _ => hw (by simp [hs])⟩

theorem runCall_streams {c c' : TcpConnection} {call : Call} (h : c.Streams)
    (hok : c.runCall call = .ok c') : c'.Streams ∧ (c.Waits → c'.Waits) := by
  cases call with
  | send message w =>
    simp only [runCall, send] at hok
    split at hok
    · exact sendInLoop_streams h hok
    · cases hok
      exact ⟨h, id⟩
  | shutdown =>
    cases hok
    exact shutdown_streams h
  | retrieve len =>
    cases hok
    exact ⟨⟨h.out, h.stream, h.waits⟩, id⟩

theorem shutdownInLoop_streams {c : TcpConnection} (h : c.Streams) :
    c.shutdownInLoop.Streams ∧ (c.Waits → c.shutdownInLoop.Waits) := by
  unfold shutdownInLoop
  split
  · exact ⟨h.idle rfl rfl ⟨rfl, rfl⟩ id, id⟩
  · exact ⟨h, id⟩

theorem established_streams {c : TcpConnection} (h : c.Streams) : c.established.Streams :=
  h.idle rfl (List.append_nil _).symm ⟨rfl, rfl⟩ (by simp [established])

theorem construct_streams (sockfd : Int) (writeComplete highWaterMark : Bool) :
    (construct sockfd writeComplete highWaterMark).Streams ∧
      (construct sockfd writeComplete highWaterMark).unsent = [] := by
  refine ⟨⟨Buffer.construct_inv (by decide), ?_, ?_⟩, Buffer.construct_contents _⟩
  · simp [construct, unsent, written, sent]
  · simp [construct]

/-- The functions keep the stream, and where `b` holds also that the unsent
bytes wait for the socket. -/
theorem kept_streams (b : Prop) : Kept fun c => c.Streams ∧ (b → c.Waits) where
  call call c c' hc hok := by
    obtain ⟨h, hw⟩ := runCall_streams hc.1 hok
    exact ⟨h, fun hb => hw (hc.2 hb)⟩
  notice e c he hc := by
    have hes : written [e] = [] ∧ sent [e] = [] := by
      simp only [List.mem_cons, List.not_mem_nil, or_false] at he
      rcases he with rfl | rfl | rfl | rfl | rfl <;> exact ⟨rfl, rfl⟩
    exact ⟨hc.1.idle rfl rfl hes id, hc.2⟩
  input b c hc := ⟨⟨hc.1.out, hc.1.stream, hc.1.waits⟩, hc.2⟩
  revents m c hc := ⟨⟨hc.1.out, hc.1.stream, hc.1.waits⟩, hc.2⟩
  down c hc := by
    refine ⟨hc.1.idle rfl (List.append_nil _).symm ⟨rfl, rfl⟩ ?_, fun _ hopen => ?_⟩
    · simp [TcpConnection.down]
    · exact absurd rfl hopen
  write w c c' hc hok := by
    obtain ⟨h, hw⟩ := handleWrite_streams hc.1 hok
    exact ⟨h, fun hb => hw (hc.2 hb)⟩

/-! ## What a step moves -/

/-- The bytes of the message that the step takes. -/
def Piece.sent (c : TcpConnection) (p : Piece) : List Byte :=
  match p.sends c with
  | some (message, w) => if c.TakesEpipe w then [] else message.bytes
  | none => []

/-- The bytes that `write(2)` takes in the step. -/
def Piece.written (c : TcpConnection) : Piece → List Byte
  | .handleWrite w => if c.channel_.isWriting then w.taken c.unsent else []
  | p =>
    match p.sends c with
    | some (message, w) => if c.WritesDirectly then w.taken message.bytes else []
    | none => []

/-- A `sendInLoop` takes its message, unless it returned at an `EPIPE`. -/
theorem sendInLoop_bytes {c c' : TcpConnection} {message : Message} {w : WriteResult}
    (h : c.Streams) (hok : c.sendInLoop message w = .ok c') :
    sent c'.trace = sent c.trace ++ (if c.TakesEpipe w then [] else message.bytes) ∧
    written c'.trace =
      written c.trace ++ (if c.WritesDirectly then w.taken message.bytes else []) := by
  rcases sendInLoop_leaves hok with ⟨he, rfl⟩ | ⟨he, rest, hl⟩
  · have hdirect : c.WritesDirectly := ⟨he.1, he.2.1⟩
    rw [if_pos he, if_pos hdirect, he.2.2]
    exact ⟨sent_append c.trace [.write []], written_append c.trace [.write []]⟩
  · obtain ⟨done, es, out, hm, hes, _, _, rfl⟩ := hl.spec h.out hok
    obtain ⟨h1, h2⟩ := c.crossing_bytes rest
    have hmoved : sent es = [] ∧
        written es = if c.WritesDirectly then w.taken message.bytes else [] := by
      rcases hes with ⟨hdirect, rfl⟩ | ⟨hno, _, rfl⟩
      · have hdone : done = w.taken message.bytes := by
          rcases hl with ⟨_, _, hm'⟩ | ⟨hno, _⟩
          · exact List.append_cancel_right (hm.symm.trans hm')
          · exact absurd hdirect hno
        obtain ⟨h3, h4⟩ := c.completion_bytes rest
        simp [h3, h4, Event.written, Event.sent, hdone, hdirect]
      · rw [if_neg hno]
        exact ⟨rfl, rfl⟩
    rw [if_neg he]
    simp [written_append, sent_append, Event.written, Event.sent, h1, h2, hmoved.1, hmoved.2]

theorem handleWrite_bytes {c c' : TcpConnection} {w : WriteResult} (h : c.Streams)
    (hok : c.handleWrite w = .ok c') :
    sent c'.trace = sent c.trace ∧
    written c'.trace =
      written c.trace ++ (if c.channel_.isWriting then w.taken c.unsent else []) := by
  rcases handleWrite.spec h.out hok with
    ⟨hw, rfl⟩ | ⟨hw, ht, rfl⟩ | ⟨rest, out, hw, _, _, _, _, ⟨_, rfl⟩ | ⟨_, rfl⟩⟩
  · simp [hw]
  · rw [if_pos hw, ht]
    exact ⟨(sent_append c.trace [.write []]).trans (List.append_nil _),
      written_append c.trace [.write []]⟩
  · simp [hw, written, sent, Event.written, Event.sent]
  · obtain ⟨h1, h2⟩ := c.completion_bytes []
    obtain ⟨h3, h4⟩ := c.halfClose_bytes
    simp [hw, written_append, sent_append, Event.written, Event.sent, h1, h2, h3, h4]

theorem tells_bytes {es : List Event} (hes : ∀ e ∈ es, e.tells = true) :
    written es = [] ∧ sent es = [] := by
  refine ⟨List.flatMap_eq_nil_iff.mpr ?_, List.flatMap_eq_nil_iff.mpr ?_⟩
  · intro e he
    have ht := hes e he
    cases e <;> first | rfl | cases ht
  · intro e he
    have ht := hes e he
    cases e <;> first | rfl | cases ht

/-- A step keeps the stream, and the trace tells what it moves. -/
theorem run_bytes {c c' : TcpConnection} {p : Piece} (h : c.Streams) (hok : p.run c = .ok c') :
    c'.Streams ∧ sent c'.trace = sent c.trace ++ p.sent c ∧
      written c'.trace = written c.trace ++ p.written c := by
  by_cases hp : ∃ w, p = .handleWrite w
  · obtain ⟨w, rfl⟩ := hp
    obtain ⟨hsent, hwritten⟩ := handleWrite_bytes h hok
    exact ⟨(handleWrite_streams h hok).1, hsent.trans (List.append_nil _).symm, hwritten⟩
  · have hwritten : p.written c = match p.sends c with
        | some (message, w) => if c.WritesDirectly then w.taken message.bytes else []
        | none => [] := by
      cases p with
      | handleWrite w => exact absurd ⟨w, rfl⟩ hp
      | _ => rfl
    rcases Piece.tells_cases hok with ⟨hnone, ht⟩ | ⟨message, w, hsome, hs⟩ | ⟨w, e, _⟩
    · obtain ⟨es, htrace, hes⟩ := ht.events
      obtain ⟨h1, h2⟩ := tells_bytes hes
      refine ⟨h.idle ht.out htrace ⟨h1, h2⟩ ht.wants, ?_, ?_⟩
      · simp only [Piece.sent, hnone, htrace, sent_append, h2]
      · simp only [hwritten, hnone, htrace, written_append, h1]
    · obtain ⟨h1, h2⟩ := sendInLoop_bytes h hs
      refine ⟨(sendInLoop_streams h hs).1, ?_, ?_⟩
      · simp only [Piece.sent, hsome, h1]
      · simp only [hwritten, hsome, h2]
    · exact absurd ⟨w, e⟩ hp

theorem Piece.streams {c c' : TcpConnection} {p : Piece} (h : c.Streams)
    (hok : p.run c = .ok c') : c'.Streams := (run_bytes h hok).1

theorem Leads.streams {c c' : TcpConnection} (h : Leads c c') (hs : c.Streams) : c'.Streams := by
  obtain ⟨ps, hps⟩ := h
  exact hps.keeps (P := Streams) (fun _ _ _ hc hst => Piece.streams hc hst) hs

/-- `connectEstablished` is not called on a connection that is down and
still holds bytes that do not wait for the socket any more. -/
def Op.Fresh (c : TcpConnection) : Op → Prop
  | .connectEstablished _ =>
    ¬ (c.state_ = .kDisconnected ∧ c.unsent ≠ [] ∧ c.channel_.isWriting = false)
  | _ => True

instance (c : TcpConnection) : (op : Op) → Decidable (op.Fresh c)
  | .connectEstablished _ => inferInstanceAs (Decidable (¬ _))
  | .connectDestroy _ | .send _ _ | .sendInLoop _ _ | .shutdown | .shutdownInLoop | .handleRead _
  | .handleWrite _ | .handleClose _ | .handleEvent _ _ _ => inferInstanceAs (Decidable True)

theorem step_streams {b : Prop} {c c' : TcpConnection} {op : Op} (hf : b → op.Fresh c)
    (h : c.Streams ∧ (b → c.Waits)) (hok : machine.step c op c') :
    c'.Streams ∧ (b → c'.Waits) := by
  refine (kept_streams b).step ?_ ?_ ?_ h hok
  · rintro onUp rfl
    refine ⟨established_streams h.1, fun hb _ hne => ?_⟩
    have hfresh := hf hb
    have hwaits := h.2 hb
    unfold Op.Fresh at hfresh
    unfold Waits at hwaits
    by_contra hwr
    have hidle : c.channel_.isWriting = false := by simpa [established] using hwr
    refine hfresh ⟨?_, hne, hidle⟩
    by_contra hopen
    rw [hwaits hopen hne] at hidle
    cases hidle
  · rintro message w - hok'
    obtain ⟨hs, hw⟩ := sendInLoop_streams h.1 hok'
    exact ⟨hs, fun hb => hw (h.2 hb)⟩
  · rintro -
    obtain ⟨hs, hw⟩ := shutdownInLoop_streams h.1
    exact ⟨hs, fun hb => hw (h.2 hb)⟩

/-! ## The laws -/

/-- In every run, the bytes that the socket took and the bytes that still
wait are the messages that were sent, in their order. A connection that is
up waits for the socket exactly when it holds unsent bytes, as long as none
is established again after it went down with bytes left. Every step, also
between the calls of the user, sends the message that it takes and writes
the bytes that `write(2)` takes. -/
theorem the_output_is_the_messages_in_order (c : TcpConnection) (h : machine.Reachable c) :
    written c.trace ++ c.unsent = sent c.trace ∧
    ((machine.restrict fun c op _ => op.Fresh c).Reachable c →
      c.state_ = .kConnected ∨ c.state_ = .kDisconnecting →
      (c.channel_.isWriting = true ↔ c.unsent ≠ [])) ∧
    ∀ (c₁ : TcpConnection) (p : Piece) c₂, Leads c c₁ → p.run c₁ = .ok c₂ →
      sent c₂.trace = sent c₁.trace ++ p.sent c₁ ∧
      written c₂.trace = written c₁.trace ++ p.written c₁ := by
  have hstart : ∀ (b : Prop) c, machine.init c → c.Streams ∧ (b → c.Waits) := by
    rintro b c ⟨sockfd, wc, hwm, rfl⟩
    obtain ⟨hs, hu⟩ := construct_streams sockfd wc hwm
    exact ⟨hs, fun _ _ hne => absurd hu hne⟩
  have hall : c.Streams ∧ (False → c.Waits) := by
    apply h.invariant (hstart False)
    intro c op c' hc hok
    exact step_streams False.elim hc hok
  refine ⟨hall.1.stream, ?_, ?_⟩
  · intro hr hup
    have hall : c.Streams ∧ (True → c.Waits) := by
      apply hr.invariant (hstart True)
      rintro c op c' hc ⟨hok, hfresh⟩
      exact step_streams (fun _ => hfresh) hc hok
    refine ⟨hall.1.waits, hall.2 trivial ?_⟩
    rintro hdown
    rw [hdown] at hup
    rcases hup with hup | hup <;> cases hup
  · intro c₁ p c₂ hlead hok
    exact (run_bytes (hlead.streams hall.1) hok).2

/-- A reply of a dispatch in which the peer has closed. -/
def closed : Reply where
  read := .delivered []
  onMessage := []
  onDown := []
  destroys := false
  write := .wrote 0

/-- A message of one byte. -/
def oneByte : Message := ⟨[7], by decide⟩

/-- A message of two bytes. -/
def twoBytes : Message := ⟨[7, 8], by decide⟩

/-- One byte that the socket does not take waits for it, and the next write
takes it. -/
theorem the_output_is_a_message_that_waited :
    ∃ c, machine.Reachable c ∧ written c.trace ++ c.unsent = sent c.trace ∧
      sent c.trace = [7] ∧ (c.channel_.isWriting = true ↔ c.unsent ≠ []) ∧
      ∀ c', c.handleWrite (.wrote 1) = .ok c' → written c'.trace = [7] := by
  obtain ⟨c, hok, hp⟩ := exists_of_passes
    (x := [.connectEstablished [], .sendInLoop oneByte (.wrote 0)].foldlM
      (fun c op => if op.Fresh c then Op.run c op else .error .badPointer)
      (construct 5 false false))
    (p := fun c => sent c.trace == [7] && decide (c.state_ = .kConnected) &&
      (written c.trace ++ Piece.written c (.handleWrite (.wrote 1)) == [7])) (by decide +kernel)
  simp only [Bool.and_eq_true, beq_iff_eq, decide_eq_true_eq] at hp
  have hfresh : (machine.restrict fun c op _ => op.Fresh c).Run (construct 5 false false) _ c :=
    .restrict_of_foldlM _ (fun _ _ _ hok => hok) hok
  have h : machine.Reachable c := ⟨_, _, ⟨5, false, false, rfl⟩, hfresh.of_restrict⟩
  obtain ⟨hstream, hwaits, hsteps⟩ := the_output_is_the_messages_in_order c h
  refine ⟨c, h, hstream, hp.1.1, hwaits ⟨_, _, ⟨5, false, false, rfl⟩, hfresh⟩ (Or.inl hp.1.2), ?_⟩
  intro c' hw
  exact (hsteps c (.handleWrite (.wrote 1)) c' (.refl c) hw).2.trans hp.2

/-- A connection that went down with a byte left and is established again
holds the byte, and does not wait for the socket. -/
theorem a_connection_established_again_strands_its_bytes :
    ∃ c, machine.Reachable c ∧ c.state_ = .kConnected ∧ c.unsent ≠ [] ∧
      c.channel_.isWriting = false := by
  obtain ⟨c, hok, hp⟩ := exists_of_passes
    (x := [.connectEstablished [], .sendInLoop oneByte (.wrote 0), .handleClose closed,
      .connectEstablished []].foldlM Op.run (construct 5 false false))
    (p := fun c => c.state_ = .kConnected ∧ c.unsent ≠ [] ∧ c.channel_.isWriting = false)
    (by decide +kernel)
  exact ⟨c, reachable_of_ok hok, by simpa using hp⟩

end TcpConnection

end jmuduo.net
