-- The laws of the half-close: `shutdownWrite` runs once at most, after all
-- the bytes, and a connection that owes it never forgets it.
import Jmuduo.OutputStream

open outcome runs

namespace jmuduo.net

/-! ## What the trace says -/

def Event.isWrite : Event → Bool
  | .write _ => true
  | _ => false

def Event.isHalfClose : Event → Bool
  | .shutdownWrite _ => true
  | _ => false

namespace TcpConnection

/-- No half-close ran yet. -/
def Whole (t : List Event) : Prop := ∀ e ∈ t, e.isHalfClose = false

/-- A half-close comes after a shutdown and after all the bytes of all the
messages, and after it come no write and no other half-close. -/
def Ordered (t : List Event) : Prop :=
  ∀ before unsent after, t = before ++ .shutdownWrite unsent :: after →
    .shutdown ∈ before ∧ unsent = [] ∧ written before = sent before ∧
      ∀ e ∈ after, e.isWrite = false ∧ e.isHalfClose = false

theorem Whole.ordered {t : List Event} (h : Whole t) : Ordered t := by
  rintro before unsent after rfl
  have hhalf := h (.shutdownWrite unsent) (by simp)
  cases hhalf

theorem Whole.append {t u : List Event} (ht : Whole t) (hu : Whole u) : Whole (t ++ u) := by
  intro e he
  rcases List.mem_append.mp he with h | h
  · exact ht e h
  · exact hu e h

/-- An event that is no half-close and no write can follow anything. -/
theorem Ordered.snoc {t : List Event} {e : Event} (h : Ordered t) (hw : e.isWrite = false)
    (hh : e.isHalfClose = false) : Ordered (t ++ [e]) := by
  intro before unsent after heq
  rcases snoc_cases heq with ⟨_, _, rfl⟩ | ⟨after', rfl, ht⟩
  · cases hh
  · obtain ⟨h1, h2, h3, h4⟩ := h before unsent after' ht
    refine ⟨h1, h2, h3, ?_⟩
    intro e' he'
    rcases List.mem_append.mp he' with hin | hlast
    · exact h4 e' hin
    · rw [List.mem_singleton.mp hlast]
      exact ⟨hw, hh⟩

/-- The first half-close may follow a shutdown, when all is written. -/
theorem Whole.snoc_half {t : List Event} (h : Whole t) (hs : .shutdown ∈ t)
    (hall : written t = sent t) : Ordered (t ++ [.shutdownWrite []]) := by
  intro before unsent after heq
  rcases snoc_cases heq with ⟨rfl, rfl, he⟩ | ⟨after', _, ht⟩
  · cases he
    exact ⟨hs, rfl, hall, by simp⟩
  · have hhalf := h (.shutdownWrite unsent) (by rw [ht]; simp)
    cases hhalf

theorem whole_write {bytes : List Byte} : Whole [.write bytes] := by
  simp [Whole, Event.isHalfClose]

theorem whole_completion (c : TcpConnection) (rest : List Byte) : Whole (c.completion rest) := by
  unfold completion
  split <;> simp [Whole, Event.isHalfClose]

theorem whole_crossing (c : TcpConnection) (rest : List Byte) : Whole (c.crossing rest) := by
  unfold crossing
  simp only
  split <;> simp [Whole, Event.isHalfClose]

/-! ## The invariant -/

/-- Where the half-close of a connection stands. -/
structure Halves (c : TcpConnection) : Prop where
  streams : c.Streams
  waits : c.Waits
  early : c.state_ = .kConnecting ∨ c.state_ = .kConnected → Whole c.trace
  asked : c.state_ = .kDisconnecting → .shutdown ∈ c.trace
  open_ : c.channel_.isWriting = true → Whole c.trace
  pending : c.state_ = .kDisconnecting → Whole c.trace → c.channel_.isWriting = true
  ordered : Ordered c.trace

theorem send_halves {c c' : TcpConnection} {message : Message} {w : WriteResult} (h : c.Halves)
    (hok : c.send message w = .ok c') : c'.Halves := by
  unfold send at hok
  split at hok
  · rename_i hup
    obtain ⟨hs, hw⟩ := sendInLoop_streams h.streams hok
    have hwhole := h.early (Or.inr hup)
    have hafter : c'.state_ = .kConnected ∧ Whole c'.trace := by
      rcases sendInLoop_cases h.streams.out hok with
        ⟨_, _, rfl⟩ | ⟨done, rest, es, out, _, hes, _, _, rfl⟩
      · exact ⟨hup, hwhole.append whole_write⟩
      · have hwes : Whole es := by
          rcases hes with ⟨_, _, rfl⟩ | ⟨_, _, rfl⟩
          · exact Whole.append (t := [.write done]) whole_write (c.whole_completion rest)
          · simp [Whole]
        exact ⟨hup, hwhole.append (hwes.append (Whole.append (t := [.send message.bytes])
          (by simp [Whole, Event.isHalfClose]) (c.whole_crossing rest)))⟩
    obtain ⟨hup', hwhole'⟩ := hafter
    exact ⟨hs, hw h.waits, fun _ => hwhole', by simp [hup'], fun _ => hwhole', by simp [hup'],
      hwhole'.ordered⟩
  · cases hok
    exact h

theorem shutdown_halves {c : TcpConnection} (h : c.Halves) : c.shutdown.Halves := by
  obtain ⟨hs, hw⟩ := shutdown_streams h.streams
  rcases c.shutdown_cases with ⟨_, e⟩ | ⟨hup, hwr, e⟩ | ⟨hup, hwr, e⟩
  · rwa [e]
  · have hwhole : Whole (c.trace ++ [.shutdown]) :=
      (h.early (Or.inr hup)).append (by simp [Whole, Event.isHalfClose])
    rw [e] at hs hw ⊢
    exact ⟨hs, hw h.waits, by simp, by simp, fun _ => hwhole, fun _ _ => hwr, hwhole.ordered⟩
  · -- nothing waits, so the half-close runs at once
    have hnone : c.unsent = [] := by
      by_contra hne
      rw [h.waits (by simp [hup]) hne] at hwr
      cases hwr
    have hwhole : Whole (c.trace ++ [.shutdown]) :=
      (h.early (Or.inr hup)).append (by simp [Whole, Event.isHalfClose])
    have hall : written (c.trace ++ [.shutdown]) = sent (c.trace ++ [.shutdown]) := by
      have hstream := h.streams.stream
      rw [hnone, List.append_nil] at hstream
      rw [written_append, sent_append, hstream]
      rfl
    have hord := hwhole.snoc_half (by simp) hall
    rw [e] at hs hw ⊢
    refine ⟨hs, hw h.waits, by simp, by simp, by simp [hwr], ?_, ?_⟩
    · intro _ hw'
      have hhalf := hw' (.shutdownWrite c.unsent) (by simp)
      cases hhalf
    · simpa [hnone] using hord

theorem handleWrite_halves {c c' : TcpConnection} {w : WriteResult} (h : c.Halves)
    (hok : c.handleWrite w = .ok c') : c'.Halves := by
  obtain ⟨hs, hw⟩ := handleWrite_streams h.streams hok
  have hw' := hw h.waits
  rcases handleWrite_cases h.streams.out hok with
    ⟨_, rfl⟩ | ⟨hwr, rfl⟩ | ⟨done, rest, out, hwr, hu, _, _, _, ⟨_, rfl⟩ | ⟨hr, rfl⟩⟩
  · exact h
  · have hwhole : Whole (c.trace ++ [.write []]) := (h.open_ hwr).append whole_write
    exact ⟨hs, hw', fun _ => hwhole, fun hd => List.mem_append_left _ (h.asked hd),
      fun _ => hwhole, fun _ _ => hwr, hwhole.ordered⟩
  · have hwhole : Whole (c.trace ++ [.write done]) := (h.open_ hwr).append whole_write
    exact ⟨hs, hw', fun _ => hwhole, fun hd => List.mem_append_left _ (h.asked hd),
      fun _ => hwhole, fun _ _ => hwr, hwhole.ordered⟩
  · have hwhole : Whole (c.trace ++ .write done :: c.completion []) :=
      (h.open_ hwr).append (Whole.append (t := [.write done]) whole_write (c.whole_completion []))
    by_cases hd : c.state_ = .kDisconnecting
    · -- the drain that a half-close waited for
      have hhalf : c.halfClose = [.shutdownWrite []] := if_pos hd
      have hall : written (c.trace ++ .write done :: c.completion []) =
          sent (c.trace ++ .write done :: c.completion []) := by
        obtain ⟨h1, h2⟩ := c.completion_bytes []
        have hstream := h.streams.stream
        rw [hu, hr, List.append_nil] at hstream
        simp [written_append, sent_append, Event.written, Event.sent, h1, h2, hstream]
      have hord := hwhole.snoc_half (List.mem_append_left _ (h.asked hd)) hall
      refine ⟨hs, hw', by simp [hd], fun _ => List.mem_append_left _ (h.asked hd), by simp, ?_, ?_⟩
      · intro _ hnone
        have hfalse := hnone (.shutdownWrite []) (by simp [hhalf])
        cases hfalse
      · simpa [hhalf] using hord
    · have hhalf : c.halfClose = [] := if_neg hd
      have hwhole' : Whole (c.trace ++ .write done :: (c.completion [] ++ c.halfClose)) := by
        rwa [hhalf, List.append_nil]
      exact ⟨hs, hw', fun _ => hwhole', fun hd' => absurd hd' hd, fun _ => hwhole',
        fun hd' => absurd hd' hd, hwhole'.ordered⟩

theorem kept_halves : Kept Halves where
  call call c c' h hok := by
    cases call with
    | send message w => exact send_halves h hok
    | shutdown =>
      cases hok
      exact shutdown_halves h
    | retrieve len =>
      cases hok
      obtain ⟨⟨h1, h2, h3⟩, h4, h5, h6, h7, h8, h9⟩ := h
      exact ⟨⟨h1, h2, h3⟩, h4, h5, h6, h7, h8, h9⟩
  notice e c he h := by
    have hq : e.isWrite = false ∧ e.isHalfClose = false := by
      simp only [List.mem_cons, List.not_mem_nil, or_false] at he
      rcases he with rfl | rfl | rfl | rfl | rfl <;> exact ⟨rfl, rfl⟩
    have hwhole : Whole c.trace ↔ Whole (c.trace ++ [e]) := by
      simp [Whole, or_imp, forall_and, hq.2]
    obtain ⟨hs, hw⟩ := (kept_streams True).notice e c he ⟨h.streams, fun _ => h.waits⟩
    exact ⟨hs, hw trivial, fun hup => hwhole.mp (h.early hup),
      fun hd => List.mem_append_left _ (h.asked hd), fun hwr => hwhole.mp (h.open_ hwr),
      fun hd hn => h.pending hd (hwhole.mpr hn), h.ordered.snoc hq.1 hq.2⟩
  input b c h := by
    obtain ⟨⟨h1, h2, h3⟩, h4, h5, h6, h7, h8, h9⟩ := h
    exact ⟨⟨h1, h2, h3⟩, h4, h5, h6, h7, h8, h9⟩
  revents m c h := by
    obtain ⟨⟨h1, h2, h3⟩, h4, h5, h6, h7, h8, h9⟩ := h
    exact ⟨⟨h1, h2, h3⟩, h4, h5, h6, h7, h8, h9⟩
  down c h := by
    obtain ⟨hs, hw⟩ := (kept_streams True).down c ⟨h.streams, fun _ => h.waits⟩
    exact ⟨hs, hw trivial, by simp [TcpConnection.down], by simp [TcpConnection.down],
      by simp [TcpConnection.down], by simp [TcpConnection.down], h.ordered⟩
  write w c c' h hok := handleWrite_halves h hok

/-! ## The laws -/

/-- The server establishes a connection once, and no other thread sends or
shuts down. -/
def Op.OnLoopThread (c : TcpConnection) : Op → Prop
  | .connectEstablished _ => c.state_ = .kConnecting
  | .sendInLoop _ _ | .shutdownInLoop => False
  | _ => True

instance (c : TcpConnection) : (op : Op) → Decidable (op.OnLoopThread c)
  | .connectEstablished _ => inferInstanceAs (Decidable (c.state_ = .kConnecting))
  | .sendInLoop _ _ | .shutdownInLoop => .isFalse id
  | .connectDestroy _ | .send _ _ | .shutdown | .handleRead _ | .handleWrite _ | .handleClose _
  | .handleEvent _ _ _ => .isTrue trivial

theorem step_halves {c c' : TcpConnection} {op : Op} (ht : op.OnLoopThread c) (h : c.Halves)
    (hok : machine.step c op c') : c'.Halves := by
  refine kept_halves.step ?_ ?_ ?_ h hok
  · rintro onUp rfl
    have hnew : c.state_ = .kConnecting := ht
    have hwhole := h.early (Or.inl hnew)
    have hwaits := h.waits
    unfold Waits at hwaits
    exact ⟨established_streams h.streams, fun _ hne => by
        simpa [established] using hwaits (by simp [hnew]) hne,
      fun _ => hwhole, by simp [established], fun _ => hwhole, by simp [established],
      h.ordered⟩
  · rintro message w rfl -
    exact ht.elim
  · rintro rfl
    exact ht.elim

theorem reachable_halves {c : TcpConnection}
    (h : (machine.restrict fun c op _ => op.OnLoopThread c).Reachable c) : c.Halves := by
  apply h.invariant
  · rintro c ⟨sockfd, wc, hwm, rfl⟩
    obtain ⟨hs, hu⟩ := construct_streams sockfd wc hwm
    have hwhole : Whole (construct sockfd wc hwm).trace := by simp [Whole, construct]
    exact ⟨hs, fun _ hne => absurd hu hne, fun _ => hwhole, by simp [construct],
      fun _ => hwhole, by simp [construct], hwhole.ordered⟩
  · rintro c op c' hc ⟨hok, ht⟩
    exact step_halves ht hc hok

/-- A half-close runs once at most. It comes after a shutdown of a connection
that was up, with no byte unsent and all the messages written, and no write
comes after it. A connection that owes it has it behind, or holds unsent
bytes and waits for the socket. Every step sends the message that it takes
and writes the bytes that `write(2)` takes. -/
theorem the_half_close_waits_for_the_drain (c : TcpConnection)
    (h : (machine.restrict fun c op _ => op.OnLoopThread c).Reachable c) :
    (∀ before unsent after, c.trace = before ++ .shutdownWrite unsent :: after →
      .shutdown ∈ before ∧ unsent = [] ∧ written before = sent before ∧
        ∀ e ∈ after, e.isWrite = false ∧ e.isHalfClose = false) ∧
    (c.state_ = .kDisconnecting →
      (∃ unsent, .shutdownWrite unsent ∈ c.trace) ∨
        c.unsent ≠ [] ∧ c.channel_.isWriting = true) ∧
    ∀ (c₁ : TcpConnection) (p : Piece) c₂, Leads c c₁ → p.run c₁ = .ok c₂ →
      sent c₂.trace = sent c₁.trace ++ p.sent c₁ ∧
      written c₂.trace = written c₁.trace ++ p.written c₁ := by
  have hall := reachable_halves h
  refine ⟨hall.ordered, fun hd => ?_, fun c₁ p c₂ hlead hok =>
    (run_bytes (hlead.streams hall.streams) hok).2⟩
  by_cases hw : Whole c.trace
  · have hwr := hall.pending hd hw
    exact Or.inr ⟨hall.streams.waits hwr, hwr⟩
  · unfold Whole at hw
    push Not at hw
    obtain ⟨e, he, hhalf⟩ := hw
    cases e with
    | shutdownWrite unsent => exact Or.inl ⟨unsent, he⟩
    | _ => exact absurd rfl hhalf

/-- A shutdown that waits for a byte, until the drain half-closes. -/
theorem the_half_close_waits_for_a_byte :
    ∃ c, (machine.restrict fun c op _ => op.OnLoopThread c).Reachable c ∧
      .shutdownWrite [] ∈ c.trace ∧
      (c.state_ = .kDisconnecting →
        (∃ unsent, .shutdownWrite unsent ∈ c.trace) ∨
          c.unsent ≠ [] ∧ c.channel_.isWriting = true) := by
  obtain ⟨c, hok, hp⟩ := exists_of_passes
    (x := [.connectEstablished [.send oneByte (.wrote 0), .shutdown],
      .handleWrite (.wrote 1)].foldlM
        (fun c op => if op.OnLoopThread c then Op.run c op else .error .badPointer)
        (construct 5 false false))
    (p := fun c => decide (.shutdownWrite [] ∈ c.trace)) (by decide +kernel)
  have h : (machine.restrict fun c op _ => op.OnLoopThread c).Reachable c :=
    ⟨_, _, ⟨5, false, false, rfl⟩, .restrict_of_foldlM _ (fun _ _ _ hok => hok) hok⟩
  exact ⟨c, h, by simpa using hp, (the_half_close_waits_for_the_drain c h).2.1⟩

end TcpConnection

end jmuduo.net
