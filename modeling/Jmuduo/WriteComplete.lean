-- The laws of the write-complete notices: a step queues one exactly when it
-- completes what was sent, and no send is noticed twice.
import Jmuduo.OutputStream

open outcome runs

namespace jmuduo.net

/-! ## What the trace says -/

def Event.isSend : Event → Bool
  | .send _ => true
  | _ => false

namespace TcpConnection

/-- The notices that were queued. -/
def notices (t : List Event) : Nat := t.count .queueWriteComplete

/-- The messages that `sendInLoop` took. -/
def sends (t : List Event) : Nat := t.countP Event.isSend

theorem notices_append (t u : List Event) : notices (t ++ u) = notices t + notices u :=
  List.count_append

theorem sends_append (t u : List Event) : sends (t ++ u) = sends t + sends u :=
  List.countP_append

@[simp] theorem notices_write (bytes : List Byte) (t : List Event) :
    notices (.write bytes :: t) = notices t := List.count_cons_of_ne (by simp)

@[simp] theorem notices_send (bytes : List Byte) (t : List Event) :
    notices (.send bytes :: t) = notices t := List.count_cons_of_ne (by simp)

@[simp] theorem sends_write (bytes : List Byte) (t : List Event) :
    sends (.write bytes :: t) = sends t := List.countP_cons_of_neg (by simp [Event.isSend])

@[simp] theorem sends_send (bytes : List Byte) (t : List Event) :
    sends (.send bytes :: t) = sends t + 1 := List.countP_cons_of_pos rfl

theorem completion_counts (c : TcpConnection) (rest : List Byte) :
    notices (c.completion rest) = (if rest = [] ∧ c.writeCompleteCallback_ then 1 else 0) ∧
    sends (c.completion rest) = 0 := by
  unfold completion
  split <;> exact ⟨rfl, rfl⟩

theorem crossing_counts (c : TcpConnection) (rest : List Byte) :
    notices (c.crossing rest) = 0 ∧ sends (c.crossing rest) = 0 := by
  unfold crossing
  simp only
  split <;> exact ⟨rfl, rfl⟩

theorem halfClose_counts (c : TcpConnection) :
    notices c.halfClose = 0 ∧ sends c.halfClose = 0 := by
  unfold halfClose
  split <;> exact ⟨rfl, rfl⟩

/-! ## What a step does -/

/-- The step moves no byte, takes no message and queues no notice. -/
structure Quiet (c c' : TcpConnection) : Prop where
  out : c'.outputBuffer_ = c.outputBuffer_
  wants : c'.channel_.isWriting = true → c.channel_.isWriting = true
  events : ∃ es, c'.trace = c.trace ++ es ∧ written es = [] ∧ sent es = [] ∧
    notices es = 0 ∧ TcpConnection.sends es = 0

theorem Tells.quiet {c c' : TcpConnection} (h : Tells c c') : Quiet c c' := by
  obtain ⟨es, htrace, hes⟩ := h.events
  obtain ⟨hwritten, hsent⟩ := tells_bytes hes
  refine ⟨h.out, h.wants, es, htrace, hwritten, hsent, ?_, ?_⟩
  · refine List.count_eq_zero.mpr fun he => ?_
    cases hes _ he
  · refine List.countP_eq_zero.mpr fun e he => ?_
    have ht := hes e he
    cases e <;> first | exact Bool.false_ne_true | cases ht

/-- A step is quiet, or it is a `sendInLoop` or a `handleWrite`. -/
theorem Piece.cases {c c' : TcpConnection} {p : Piece} (hok : p.run c = .ok c') :
    (p.sends c = none ∧ Quiet c c') ∨
    (∃ message w, p.sends c = some (message, w) ∧ c.sendInLoop message w = .ok c') ∨
    (∃ w, p = .handleWrite w ∧ c.handleWrite w = .ok c') :=
  (Piece.tells_cases hok).imp_left fun h => ⟨h.1, h.2.quiet⟩

/-- All bytes were handed to the socket exactly when none is unsent. -/
theorem Streams.handed_iff {c : TcpConnection} (h : c.Streams) :
    written c.trace = sent c.trace ↔ c.unsent = [] := by
  rw [← h.stream]
  exact List.self_eq_append_right

/-! ## The completions -/

/-- The step ends with all accepted bytes handed to the socket, and it emptied
an output buffer that was not empty, or was a `sendInLoop` that did not return
at an `EPIPE`. -/
def Completes (c : TcpConnection) (p : Piece) (c' : TcpConnection) : Prop :=
  written c'.trace = sent c'.trace ∧
    (c.unsent ≠ [] ∧ c'.unsent = [] ∨
      ∃ message w, p.sends c = some (message, w) ∧ ¬ c.TakesEpipe w)

/-- A `sendInLoop` that takes its message has its notice at once, when it
leaves nothing unsent, and none otherwise. -/
theorem sendInLoop_notices {c c' : TcpConnection} {message : Message} {w : WriteResult}
    (h : c.Streams) (hok : c.sendInLoop message w = .ok c') :
    (c.TakesEpipe w ∧ c'.unsent = c.unsent ∧ notices c'.trace = notices c.trace ∧
      sends c'.trace = sends c.trace) ∨
    (¬ c.TakesEpipe w ∧ sends c'.trace = sends c.trace + 1 ∧
      (c.unsent ≠ [] → c'.unsent ≠ []) ∧
      notices c'.trace = notices c.trace +
        if c'.unsent = [] ∧ c.writeCompleteCallback_ then 1 else 0) := by
  rcases sendInLoop.spec h.out hok with ⟨he, rfl⟩ | ⟨he, done, rest, es, out, hm, hes, hi, hcon, e⟩
  · refine Or.inl ⟨he, rfl, ?_, ?_⟩
    · exact notices_append c.trace [.write []]
    · exact sends_append c.trace [.write []]
  · have hu : c'.unsent = c.unsent ++ rest := by rw [unsent, e, hcon]
    obtain ⟨h1, h2⟩ := c.completion_counts rest
    obtain ⟨h3, h4⟩ := c.crossing_counts rest
    have hkeep : c.unsent ≠ [] → c'.unsent ≠ [] := by
      intro hne
      rw [hu]
      exact List.append_ne_nil_of_left_ne_nil hne rest
    have hnote : notices es = if c'.unsent = [] ∧ c.writeCompleteCallback_ then 1 else 0 := by
      rcases hes with ⟨_, hnone, rfl⟩ | ⟨hwait, _, rfl⟩
      · -- after a direct write, the rest is what is unsent
        rw [hu, hnone, List.nil_append, notices_write]
        exact h1
      · have hne : c.unsent ≠ [] := hwait.elim h.waits id
        rw [if_neg fun hc => hkeep hne hc.1]
        rfl
    have hsend : sends es = 0 := by
      rcases hes with ⟨_, _, rfl⟩ | ⟨_, _, rfl⟩
      · rw [sends_write]
        exact h2
      · rfl
    refine Or.inr ⟨he, ?_, hkeep, ?_⟩
    · rw [e, sends_append, sends_append, hsend, sends_send, h4]
    · rw [← hnote, e, notices_append, notices_append, notices_send, h3, Nat.add_zero]

/-- A drain has its notice, and any other `handleWrite` none. -/
theorem handleWrite_notices {c c' : TcpConnection} {w : WriteResult} (h : c.Streams)
    (hok : c.handleWrite w = .ok c') :
    sends c'.trace = sends c.trace ∧ (c.unsent = [] → c'.unsent = []) ∧
    notices c'.trace = notices c.trace +
      if c.unsent ≠ [] ∧ c'.unsent = [] ∧ c.writeCompleteCallback_ then 1 else 0 := by
  rcases handleWrite_cases h.out hok with
    ⟨_, rfl⟩ | ⟨_, rfl⟩ | ⟨done, rest, out, _, hu, hd, hi, hcon, ⟨hr, e⟩ | ⟨hr, e⟩⟩
  · refine ⟨rfl, id, ?_⟩
    rw [if_neg fun hc => hc.1 hc.2.1, Nat.add_zero]
  · refine ⟨sends_append c.trace [.write []], id, ?_⟩
    rw [if_neg fun hc => hc.1 hc.2.1]
    exact notices_append c.trace [.write []]
  · have hne : c'.unsent ≠ [] := by rwa [unsent, e, hcon]
    refine ⟨?_, fun hnone => ?_, ?_⟩
    · rw [e]
      exact sends_append c.trace [.write done]
    · rw [hu] at hnone
      exact absurd (List.append_eq_nil_iff.mp hnone).1 hd
    · rw [if_neg fun hc => hne hc.2.1, e]
      exact notices_append c.trace [.write done]
  · have hnone : c'.unsent = [] := by rw [unsent, e, hcon, hr]
    have hne : c.unsent ≠ [] := by
      rw [hu]
      exact List.append_ne_nil_of_left_ne_nil hd rest
    obtain ⟨h1, h2⟩ := c.completion_counts []
    obtain ⟨h3, h4⟩ := c.halfClose_counts
    refine ⟨?_, fun _ => hnone, ?_⟩
    · rw [e, sends_append, sends_write, sends_append, h2, h4]
      rfl
    · simp only [hnone, hne, not_false_eq_true, true_and, ne_eq]
      rw [e, notices_append, notices_write, notices_append, h1, h3]
      simp

/-- A step queues one notice when it completes what was sent, and none
otherwise. -/
theorem step_notices {c c' : TcpConnection} {p : Piece} (h : c.Streams)
    (hset : c.writeCompleteCallback_ = true) (hok : p.run c = .ok c') :
    (Completes c p c' → notices c'.trace = notices c.trace + 1) ∧
    (¬ Completes c p c' → notices c'.trace = notices c.trace) := by
  have hhanded := (Piece.streams h hok).handed_iff
  unfold Completes
  rw [hhanded]
  rcases Piece.cases hok with ⟨hnone, hq⟩ | ⟨message, w, hsome, hs⟩ | ⟨w, rfl, hw⟩
  · have hu : c'.unsent = c.unsent := by rw [unsent, hq.out, unsent]
    obtain ⟨es, htrace, _, _, hnotice, _⟩ := hq.events
    have hsame : notices c'.trace = notices c.trace := by
      rw [htrace, notices_append, hnotice, Nat.add_zero]
    refine ⟨?_, fun _ => hsame⟩
    rintro ⟨hempty, hne | ⟨message, w, hsome, _⟩⟩
    · rw [hu] at hempty
      exact absurd hempty hne.1
    · rw [hnone] at hsome
      cases hsome
  · rcases sendInLoop_notices h hs with ⟨he, hu, hsame, _⟩ | ⟨he, _, _, hnotice⟩
    · refine ⟨?_, fun _ => hsame⟩
      rintro ⟨hempty, hne | ⟨m, v, hsome', he'⟩⟩
      · rw [hu] at hempty
        exact absurd hempty hne.1
      · rw [hsome] at hsome'
        cases hsome'
        exact absurd he he'
    · rw [hnotice, hset]
      constructor
      · rintro ⟨hempty, _⟩
        rw [if_pos ⟨hempty, rfl⟩]
      · intro hno
        rw [if_neg fun hc => hno ⟨hc.1, Or.inr ⟨message, w, hsome, he⟩⟩, Nat.add_zero]
  · obtain ⟨_, _, hnotice⟩ := handleWrite_notices h hw
    rw [hnotice, hset]
    constructor
    · rintro ⟨hempty, hne | ⟨message, w, hsome, _⟩⟩
      · rw [if_pos ⟨hne.1, hempty, rfl⟩]
      · cases hsome
    · intro hno
      rw [if_neg fun hc => hno ⟨hc.2.1, Or.inl ⟨hc.1, hc.2.1⟩⟩, Nat.add_zero]

/-- A message that left bytes unsent has its notice still to come. -/
structure Noticed (c : TcpConnection) : Prop where
  streams : c.Streams
  owed : notices c.trace + (if c.unsent = [] then 0 else 1) ≤ sends c.trace

theorem Noticed.step {c c' : TcpConnection} {p : Piece} (h : c.Noticed)
    (hok : p.run c = .ok c') : c'.Noticed := by
  refine ⟨Piece.streams h.streams hok, ?_⟩
  have howed := h.owed
  rcases Piece.cases hok with ⟨_, hq⟩ | ⟨message, w, _, hs⟩ | ⟨w, rfl, hw⟩
  · have hu : c'.unsent = c.unsent := by rw [unsent, hq.out, unsent]
    obtain ⟨es, htrace, _, _, hnotice, hsend⟩ := hq.events
    rw [hu, htrace, notices_append, sends_append, hnotice, hsend]
    exact howed
  · rcases sendInLoop_notices h.streams hs with
      ⟨_, hu, hnotice, hsend⟩ | ⟨_, hsend, hkeep, hnotice⟩
    · rw [hu, hnotice, hsend]
      exact howed
    · rw [hsend, hnotice]
      by_cases hempty : c'.unsent = []
      · have hold : c.unsent = [] := by
          by_contra hne
          exact hkeep hne hempty
        rw [if_pos hold] at howed
        rw [if_pos hempty]
        split <;> omega
      · rw [if_neg hempty, if_neg fun hc => hempty hc.1]
        omega
  · obtain ⟨hsend, hkeep, hnotice⟩ := handleWrite_notices h.streams hw
    rw [hsend, hnotice]
    by_cases hempty : c'.unsent = []
    · rw [if_pos hempty]
      split
      · rename_i hc
        rw [if_neg hc.1] at howed
        exact howed
      · omega
    · rw [if_neg (mt hkeep hempty)] at howed
      rw [if_neg hempty, if_neg fun hc => hempty hc.2.1]
      exact howed

/-! ## The law -/

/-- In every run of a connection with a write-complete callback, a step
queues one notice exactly when it completes what was sent, and no step queues
two. So there are no more notices than sends, none is queued while bytes are
unsent, and every drain has its notice. -/
theorem write_complete_notices_count_completions (c : TcpConnection) (h : pieces.Reachable c)
    (hset : c.writeCompleteCallback_ = true) :
    notices c.trace ≤ sends c.trace ∧
    ∀ p c', pieces.step c p c' →
      (Completes c p c' → notices c'.trace = notices c.trace + 1) ∧
      (¬ Completes c p c' → notices c'.trace = notices c.trace) ∧
      (notices c'.trace ≠ notices c.trace → c'.unsent = []) ∧
      (c.unsent ≠ [] → c'.unsent = [] → notices c'.trace = notices c.trace + 1) := by
  have hall : c.Noticed := by
    apply h.invariant
    · rintro c ⟨sockfd, wc, hwm, rfl⟩
      obtain ⟨hs, hu⟩ := construct_streams sockfd wc hwm
      refine ⟨hs, ?_⟩
      rw [if_pos hu]
      exact le_rfl
    · intro c p c' hc hok
      exact hc.step hok
  refine ⟨le_trans (Nat.le_add_right _ _) hall.owed, fun p c' hok => ?_⟩
  obtain ⟨hone, hnone⟩ := step_notices hall.streams hset hok
  have hhanded := (Piece.streams hall.streams hok).handed_iff
  refine ⟨hone, hnone, fun hne => ?_, fun hne hempty => ?_⟩
  · by_contra hleft
    exact hne (hnone fun hc => hleft (hhanded.mp hc.1))
  · exact hone ⟨hhanded.mpr hempty, Or.inl ⟨hne, hempty⟩⟩

/-- A byte that waits for the socket, and the drain that completes it. -/
theorem write_complete_notices_count_a_drain :
    ∃ c c', pieces.Reachable c ∧ c.unsent = [7] ∧ pieces.step c (.handleWrite (.wrote 1)) c' ∧
      c'.unsent = [] ∧ notices c'.trace = notices c.trace + 1 := by
  obtain ⟨c, hok, hp⟩ := exists_of_passes
    (x := [.established, .sendInLoop oneByte (.wrote 0)].foldlM Piece.run (construct 5 true false))
    (p := fun c => c.writeCompleteCallback_ && (c.unsent == [7]) &&
      passes (c.handleWrite (.wrote 1)) fun c' => c'.unsent == []) (by decide +kernel)
  simp only [Bool.and_eq_true, beq_iff_eq] at hp
  obtain ⟨⟨hset, hu⟩, hnext⟩ := hp
  obtain ⟨c', hok', hu'⟩ := exists_of_passes hnext
  have h : pieces.Reachable c := ⟨_, _, ⟨5, true, false, rfl⟩, .of_foldlM (fun _ _ _ h => h) hok⟩
  obtain ⟨_, hlaw⟩ := write_complete_notices_count_completions c h hset
  obtain ⟨_, _, _, hdrain⟩ := hlaw (.handleWrite (.wrote 1)) c' hok'
  have hempty : c'.unsent = [] := by simpa using hu'
  exact ⟨c, c', h, hu, hok', hempty, hdrain (by simp [hu]) hempty⟩

end TcpConnection

end jmuduo.net
