-- The laws of the high-water notices: a send queues one exactly when it carries
-- the unsent bytes over the mark, as long as their number is an `int`.
import Jmuduo.WriteFailures

open outcome runs

namespace jmuduo.net

/-! ## What the trace says -/

/-- The length that a high-water notice carries. -/
def Event.mark : Event → Option Int
  | .queueHighWaterMark len => some len
  | _ => none

namespace TcpConnection

/-- The high-water notices that were queued. -/
def marks (t : List Event) : List Int := t.filterMap Event.mark

theorem marks_append (t u : List Event) : marks (t ++ u) = marks t ++ marks u :=
  List.filterMap_append

theorem marks_log (c : TcpConnection) {es : List Event} (h : marks es = []) :
    marks (c.log es).trace = marks c.trace := by
  show marks (c.trace ++ es) = marks c.trace
  rw [marks_append, h, List.append_nil]

theorem completion_marks (c : TcpConnection) (rest : List Byte) :
    marks (c.completion rest) = [] := by
  unfold completion
  split <;> rfl

theorem halfClose_marks (c : TcpConnection) : marks c.halfClose = [] := by
  unfold halfClose
  split <;> rfl

theorem Wrote.marks_eq {c : TcpConnection} {done rest : List Byte} {es : List Event}
    (h : c.Wrote done rest es) : marks es = [] := by
  rcases h with ⟨_, rfl⟩ | ⟨_, _, rfl⟩
  · exact c.completion_marks rest
  · rfl

/-! ## The sums -/

/-- The notice that is due when `r` bytes join `l` unsent ones. -/
def due (l r mark : Nat) : List Int := if l < mark ∧ mark ≤ l + r then [(l + r : Int)] else []

/-- The notice that the code computes: the number of the unsent bytes becomes
an `int`, and the mark is compared with `int`s that become a `size_t`. -/
def computed (l r mark : Nat) : List Int :=
  if toSize (toInt l + r) ≥ mark ∧ toSize (toInt l) < mark then [toInt l + r] else []

/-- The number of all the bytes is an `int`. Or the one of the unsent bytes is
none, their sum does not overflow, and the mark lies neither between the numbers
nor between what the conversions make of them. -/
def Countable (l r mark : Nat) : Prop :=
  l + r < 2 ^ 31 ∨
    2 ^ 31 ≤ l ∧ toInt l + r < 2 ^ 31 ∧ ¬ (l < mark ∧ mark ≤ l + r) ∧
      ¬ (toSize (toInt l + r) ≥ mark ∧ toSize (toInt l) < mark)

theorem toInt_lt (n : Int) : toInt n < 2 ^ 31 := by
  unfold toInt
  have h := Int.bmod_lt (x := n) (m := 2 ^ 32) (by decide)
  omega

theorem le_toInt (n : Int) : -2 ^ 31 ≤ toInt n := by
  unfold toInt
  have h := Int.le_bmod (x := n) (m := 2 ^ 32) (by decide)
  omega

theorem toSize_natCast {n : Nat} (h : n < 2 ^ 64) : toSize n = n := by
  unfold toSize
  omega

/-- No conversion changes an `int`. -/
theorem computed_eq_due {l r : Nat} (mark : Nat) (h : l + r < 2 ^ 31) :
    computed l r mark = due l r mark := by
  have hold : toInt l = l := toInt_eq (by omega) (by omega)
  unfold computed due
  rw [hold, toSize_natCast (by omega), ← Int.natCast_add, toSize_natCast (by omega)]
  simp only [ge_iff_le, and_comm]

/-- The computed notice is the one that is due exactly where the bytes count. -/
theorem countable_iff {l r mark : Nat} (hl : l < 2 ^ 63) (hr : r < 2 ^ 31) :
    toInt l + r < 2 ^ 31 ∧ computed l r mark = due l r mark ↔ Countable l r mark := by
  unfold Countable
  by_cases hsmall : l < 2 ^ 31
  · rw [toInt_eq (n := l) (by omega) (by omega)]
    constructor
    · rintro ⟨hsum, _⟩
      exact Or.inl (by omega)
    · rintro (hsum | ⟨hbig, _⟩)
      · exact ⟨by omega, computed_eq_due mark hsum⟩
      · omega
  · have hlt := toInt_lt l
    unfold computed due
    constructor
    · rintro ⟨hsum, hsame⟩
      refine Or.inr ⟨by omega, hsum, ?_⟩
      split at hsame <;> split at hsame
      · -- two notices, of different lengths
        simp only [List.cons.injEq, and_true] at hsame
        omega
      · cases hsame
      · cases hsame
      · rename_i hno hno'
        exact ⟨hno', hno⟩
    · rintro (hsum | ⟨_, hsum, hno, hno'⟩)
      · omega
      · rw [if_neg hno, if_neg hno']
        exact ⟨hsum, rfl⟩

/-! ## One send -/

/-- The send returns, and queues the notice that is due and no other. -/
def NotifiesExactly (c : TcpConnection) (message : Message) (w : WriteResult) (rest : List Byte) :
    Prop :=
  ∃ c', c.sendInLoop message w = .ok c' ∧ c'.unsent = c.unsent ++ rest ∧
    marks c'.trace = marks c.trace ++ due c.unsent.length rest.length c.highWaterMark_

theorem crossing_marks {c : TcpConnection} (h : c.outputBuffer_.Ordered) {rest : List Byte}
    (hrest : rest ≠ []) :
    marks (c.crossing rest) = if c.highWaterMarkCallback_ then
      computed c.unsent.length rest.length c.highWaterMark_ else [] := by
  unfold crossing computed unsent
  rw [h.contents_length]
  by_cases hset : c.highWaterMarkCallback_ = true
  · simp only [hset, ne_eq, hrest, not_false_eq_true, true_and, and_true, if_true]
    split <;> rfl
  · simp only [hset, and_false, if_false, Bool.false_eq_true]
    rfl

@[simp] theorem queueHighWaterMark_out (oldlen len : Int) (c : TcpConnection) :
    (c.queueHighWaterMark oldlen len).outputBuffer_ = c.outputBuffer_ := by
  unfold queueHighWaterMark
  split <;> rfl

/-- The rest of a message joins the buffer exactly when the sum is an `int` and
the vector takes the bytes. -/
theorem sendRest_returns_iff {c : TcpConnection} (h : c.outputBuffer_.Ordered)
    {message : Message} {done rest : List Byte} (hm : message.bytes = done ++ rest)
    (hrest : rest ≠ []) :
    (∃ c', sendRest message done.length rest.length c = .ok c') ↔
      c.outputBuffer_.Takes rest.length ∧ toInt c.unsent.length + rest.length < 2 ^ 31 := by
  have hpos : 0 < rest.length := List.length_pos_iff.mpr hrest
  have hle := le_toInt c.outputBuffer_.readableBytes
  have hdrop : message.bytes.drop (done.length : Int).toNat = rest := by
    rw [hm, Int.toNat_natCast, List.drop_left]
  have hshort := message.short
  rw [hm, List.length_append] at hshort
  rw [unsent, h.contents_length, ← Buffer.append_returns_iff h (by omega)]
  unfold sendRest
  rw [check_of (by omega), ok_bind]
  simp only [gt_iff_lt, Int.natCast_pos, hpos, if_true, hdrop]
  show (∃ c', (intAdd (toInt c.outputBuffer_.readableBytes) rest.length >>= _) = .ok c') ↔ _
  constructor
  · rintro ⟨c', hok⟩
    rw [bind_eq_ok] at hok
    obtain ⟨len, hlen, hok⟩ := hok
    simp only [queueHighWaterMark_out] at hok
    rw [bind_eq_ok] at hok
    obtain ⟨out, hout, _⟩ := hok
    refine ⟨⟨out, hout⟩, ?_⟩
    unfold intAdd at hlen
    split at hlen
    · omega
    · cases hlen
  · rintro ⟨⟨out, hout⟩, hsum⟩
    unfold intAdd
    rw [if_pos ⟨by omega, hsum⟩, ok_bind]
    simp only [queueHighWaterMark_out]
    show ∃ c', (c.outputBuffer_.append rest >>= _) = .ok c'
    rw [hout, ok_bind]
    exact ⟨_, rfl⟩

/-- What a send that leaves bytes queues. -/
theorem Leaves.queues {c c' : TcpConnection} {message : Message} {w : WriteResult}
    {rest : List Byte} (h : c.outputBuffer_.Inv) (hl : c.Leaves message w rest)
    (hrest : rest ≠ []) (hok : c.sendInLoop message w = .ok c') :
    c'.unsent = c.unsent ++ rest ∧ c'.highWaterMark_ = c.highWaterMark_ ∧
      marks c'.trace = marks c.trace ++ if c.highWaterMarkCallback_ then
        computed c.unsent.length rest.length c.highWaterMark_ else [] := by
  obtain ⟨done, es, out, _, hes, _, hcon, rfl⟩ := hl.spec h hok
  refine ⟨hcon, rfl, ?_⟩
  show marks (c.trace ++ (es ++ ([.send message.bytes] ++ c.crossing rest))) = _
  rw [marks_append, marks_append, marks_append, hes.marks_eq, crossing_marks h.ordered hrest]
  rfl

theorem Leaves.returns_iff {c : TcpConnection} {message : Message} {w : WriteResult}
    {rest : List Byte} (h : c.outputBuffer_.Ordered) (hl : c.Leaves message w rest)
    (hrest : rest ≠ []) :
    (∃ c', c.sendInLoop message w = .ok c') ↔
      c.outputBuffer_.Takes rest.length ∧ toInt c.unsent.length + rest.length < 2 ^ 31 := by
  obtain ⟨done, es, hm, _, heq⟩ := hl.sendInLoop_eq
  rw [heq]
  exact sendRest_returns_iff (c := c.log es) h hm hrest

theorem Leaves.length_lt {c : TcpConnection} {message : Message} {w : WriteResult}
    {rest : List Byte} (hl : c.Leaves message w rest) : rest.length < 2 ^ 31 := by
  obtain ⟨done, es, hm, _⟩ := hl.sendInLoop_eq
  have hshort := message.short
  rw [hm, List.length_append] at hshort
  omega

/-- A send returns and queues the notice that is due exactly when the bytes
count and the vector takes them. -/
theorem Leaves.notifiesExactly_iff {c : TcpConnection} {message : Message} {w : WriteResult}
    {rest : List Byte} (h : c.outputBuffer_.Inv) (hset : c.highWaterMarkCallback_ = true)
    (hl : c.Leaves message w rest) (hrest : rest ≠ []) :
    c.NotifiesExactly message w rest ↔
      c.outputBuffer_.Takes rest.length ∧
        Countable c.unsent.length rest.length c.highWaterMark_ := by
  have hreturns := hl.returns_iff h.ordered hrest
  have hold : c.unsent.length < 2 ^ 63 := by
    have h2 := h.writer_le
    have h4 := h.bounded
    unfold maxSize at h4
    rw [unsent, h.ordered.contents_length, h.ordered.readableBytes_eq]
    omega
  rw [← countable_iff hold hl.length_lt]
  constructor
  · rintro ⟨c', hok, _, hmarks⟩
    obtain ⟨htakes, hsum⟩ := hreturns.mp ⟨c', hok⟩
    have hqueued := (hl.queues h hrest hok).2.2
    rw [if_pos hset, hmarks, List.append_cancel_left_eq] at hqueued
    exact ⟨htakes, hsum, hqueued.symm⟩
  · rintro ⟨htakes, hsum, hsame⟩
    obtain ⟨c', hok⟩ := hreturns.mpr ⟨htakes, hsum⟩
    obtain ⟨hu, _, hmarks⟩ := hl.queues h hrest hok
    exact ⟨c', hok, hu, by rw [hmarks, if_pos hset, hsame]⟩

/-! ## The runs -/

theorem Tells.marks_eq {c c' : TcpConnection} (h : Tells c c') :
    marks c'.trace = marks c.trace := by
  obtain ⟨es, htrace, hes⟩ := h.events
  have hnone : marks es = [] := by
    refine List.filterMap_eq_nil_iff.mpr fun e he => ?_
    have ht := hes e he
    cases e <;> first | rfl | cases ht
  rw [htrace, marks_append, hnone, List.append_nil]

/-- A drain queues no notice, keeps the mark and adds no byte. -/
theorem handleWrite_drains {c c' : TcpConnection} {w : WriteResult} (h : c.Streams)
    (hok : c.handleWrite w = .ok c') :
    c'.highWaterMark_ = c.highWaterMark_ ∧ marks c'.trace = marks c.trace ∧
      c'.unsent.length ≤ c.unsent.length := by
  rcases handleWrite_cases h.out hok with
    ⟨_, rfl⟩ | ⟨_, rfl⟩ | ⟨done, rest, out, _, hu, _, _, hcon, hc'⟩
  · exact ⟨rfl, rfl, Nat.le_refl _⟩
  · exact ⟨rfl, marks_log _ rfl, Nat.le_refl _⟩
  · have hle : out.contents.length ≤ c.unsent.length := by
      rw [hu, hcon, List.length_append]
      omega
    rcases hc' with ⟨_, rfl⟩ | ⟨_, rfl⟩
    · exact ⟨rfl, marks_log c rfl, hle⟩
    · have hes : marks (.write done :: (c.completion [] ++ c.halfClose)) = [] := by
        show marks (c.completion [] ++ c.halfClose) = []
        rw [marks_append, completion_marks, halfClose_marks, List.append_nil]
      exact ⟨rfl, marks_log c hes, hle⟩

/-- Any steps on a new connection with any mark. -/
def marked (mark : Nat) : Machine TcpConnection Piece where
  init c := ∃ sockfd writeComplete highWaterMark,
    c = { construct sockfd writeComplete highWaterMark with highWaterMark_ := mark }
  step := pieces.step

/-- The step queues a notice. -/
def Notifies (c c' : TcpConnection) : Prop := ∃ len, marks c'.trace = marks c.trace ++ [len]

/-- What a connection with this mark keeps: the number of the unsent bytes is an
`int`, since every sum before was one. -/
structure Counted (mark : Nat) (c : TcpConnection) : Prop where
  streams : c.Streams
  mark_eq : c.highWaterMark_ = mark
  counts : c.unsent.length < 2 ^ 31

/-- A step that is a send. -/
theorem sendInLoop_counted {mark : Nat} {c c' : TcpConnection} {message : Message}
    {w : WriteResult} (h : c.Counted mark) (hok : c.sendInLoop message w = .ok c') :
    c'.Counted mark ∧ c.unsent.length ≤ c'.unsent.length ∧
      (marks c'.trace = marks c.trace ∨
        Notifies c c' ∧ c.unsent.length < mark ∧ mark ≤ c'.unsent.length) := by
  have hs := (sendInLoop_streams h.streams hok).1
  rcases sendInLoop_leaves hok with ⟨_, rfl⟩ | ⟨_, rest, hl⟩
  · exact ⟨⟨hs, h.mark_eq, h.counts⟩, Nat.le_refl _, Or.inl (marks_log c rfl)⟩
  · by_cases hrest : rest = []
    · subst hrest
      obtain ⟨done, es, out, _, hes, _, hcon, rfl⟩ := hl.spec h.streams.out hok
      have hu : out.contents = c.unsent := by rw [hcon, List.append_nil]
      refine ⟨⟨hs, h.mark_eq, ?_⟩, ?_, Or.inl ?_⟩
      · show out.contents.length < 2 ^ 31
        rw [hu]
        exact h.counts
      · show c.unsent.length ≤ out.contents.length
        rw [hu]
      · show marks (c.trace ++ (es ++ ([.send message.bytes] ++ c.crossing []))) = _
        rw [marks_append, marks_append, marks_append, hes.marks_eq]
        simp [marks, crossing, Event.mark]
    · obtain ⟨hu, hmark, hmarks⟩ := hl.queues h.streams.out hrest hok
      have hsum := ((hl.returns_iff h.streams.out.ordered hrest).mp ⟨c', hok⟩).2
      have hcounts := h.counts
      have hold : toInt c.unsent.length = c.unsent.length := toInt_eq (by omega) (by omega)
      have hlen : c'.unsent.length = c.unsent.length + rest.length := by
        rw [hu, List.length_append]
      have hfit : c.unsent.length + rest.length < 2 ^ 31 := by
        rw [hold] at hsum
        omega
      refine ⟨⟨hs, hmark.trans h.mark_eq, by omega⟩, by omega, ?_⟩
      unfold Notifies
      rw [hmarks, computed_eq_due _ hfit, h.mark_eq, hlen]
      unfold due
      split
      · split
        · rename_i hcross
          exact Or.inr ⟨⟨_, rfl⟩, hcross⟩
        · exact Or.inl (List.append_nil _)
      · exact Or.inl (List.append_nil _)

/-- A step keeps what counts. It queues no notice, or one with which the unsent
bytes cross the mark, and only a `handleWrite` makes them fewer. -/
theorem step_counted {mark : Nat} {c c' : TcpConnection} {p : Piece} (h : c.Counted mark)
    (hok : p.run c = .ok c') :
    c'.Counted mark ∧
      (c.unsent.length ≤ c'.unsent.length ∨ ∃ w, c.handleWrite w = .ok c') ∧
      (marks c'.trace = marks c.trace ∨
        Notifies c c' ∧ c.unsent.length < mark ∧ mark ≤ c'.unsent.length) := by
  have hs := Piece.streams h.streams hok
  have hcounts := h.counts
  rcases Piece.tells_cases hok with ⟨_, ht⟩ | ⟨message, w, _, hsend⟩ | ⟨w, _, hwrite⟩
  · have hu : c'.unsent = c.unsent := by rw [unsent, ht.out, unsent]
    exact ⟨⟨hs, ht.mark.trans h.mark_eq, hu ▸ hcounts⟩, Or.inl (by rw [hu]), Or.inl ht.marks_eq⟩
  · obtain ⟨hc, hle, hmarks⟩ := sendInLoop_counted h hsend
    exact ⟨hc, Or.inl hle, hmarks⟩
  · obtain ⟨hmark, hmarks, hle⟩ := handleWrite_drains h.streams hwrite
    exact ⟨⟨hs, hmark.trans h.mark_eq, by omega⟩, Or.inr ⟨w, hwrite⟩, Or.inl hmarks⟩

/-- A step with which the unsent bytes cross the mark queues a notice, when the
callback is set. -/
theorem crossing_notifies {mark : Nat} {c c' : TcpConnection} {p : Piece} (h : c.Counted mark)
    (hset : c.highWaterMarkCallback_ = true) (hok : p.run c = .ok c')
    (hlow : c.unsent.length < mark) (hhigh : mark ≤ c'.unsent.length) : Notifies c c' := by
  rcases Piece.tells_cases hok with ⟨_, ht⟩ | ⟨message, w, _, hsend⟩ | ⟨w, _, hwrite⟩
  · have hu : c'.unsent = c.unsent := by rw [unsent, ht.out, unsent]
    rw [hu] at hhigh
    omega
  · obtain ⟨hcounted, _⟩ := sendInLoop_counted h hsend
    rcases sendInLoop_leaves hsend with ⟨_, rfl⟩ | ⟨_, rest, hl⟩
    · have hu : (c.log [.write []]).unsent = c.unsent := rfl
      rw [hu] at hhigh
      omega
    · have hrest : rest ≠ [] := by
        rintro rfl
        obtain ⟨done, es, out, _, _, _, hcon, rfl⟩ := hl.spec h.streams.out hsend
        have hu : out.contents = c.unsent := by rw [hcon, List.append_nil]
        have hlen : mark ≤ out.contents.length := hhigh
        rw [hu] at hlen
        omega
      obtain ⟨hu, _, hqueued⟩ := hl.queues h.streams.out hrest hsend
      have hfit := hcounted.counts
      rw [hu, List.length_append] at hfit hhigh
      rw [if_pos hset, computed_eq_due _ hfit, h.mark_eq, due, if_pos ⟨hlow, hhigh⟩] at hqueued
      exact ⟨_, hqueued⟩
  · obtain ⟨_, _, hle⟩ := handleWrite_drains h.streams hwrite
    omega

theorem reachable_counted {mark : Nat} {c : TcpConnection} (h : (marked mark).Reachable c) :
    c.Counted mark := by
  refine h.invariant ?_ (fun c p c' hc hok => (step_counted hc hok).1)
  rintro c ⟨sockfd, wc, hw, rfl⟩
  obtain ⟨hs, hu⟩ := construct_streams sockfd wc hw
  refine ⟨⟨hs.out, hs.stream, hs.waits⟩, rfl, ?_⟩
  show (construct sockfd wc hw).unsent.length < 2 ^ 31
  rw [hu]
  decide

/-- Between two steps that queue a notice there is a `handleWrite` that brings
the unsent bytes below the mark. -/
theorem drained_between {mark : Nat} {c₁ c₂ c₃ c₄ : TcpConnection} {p q : Piece}
    {ps : List Piece} (h : (marked mark).Reachable c₁) (hp : (marked mark).step c₁ p c₂)
    (hrun : (marked mark).Run c₂ ps c₃) (hq : (marked mark).step c₃ q c₄)
    (hn : Notifies c₁ c₂) (hn' : Notifies c₃ c₄) :
    ∃ before d after a b w, ps = before ++ d :: after ∧ (marked mark).Run c₂ before a ∧
      (marked mark).step a d b ∧ a.handleWrite w = .ok b ∧ (marked mark).Run b after c₃ ∧
      mark ≤ a.unsent.length ∧ b.unsent.length < mark := by
  have hdiffers : ∀ {a b : TcpConnection}, Notifies a b → ¬ marks b.trace = marks a.trace := by
    rintro a b ⟨len, e⟩ hsame
    rw [hsame] at e
    simp at e
  have hc₂ := h.next hp
  obtain ⟨_, _, hmarks | ⟨_, _, hhigh⟩⟩ := step_counted (reachable_counted h) hp
  · exact absurd hmarks (hdiffers hn)
  have hc₃ : c₃.Counted mark :=
    hrun.keeps (fun _ _ _ hc hst => (step_counted hc hst).1) (reachable_counted hc₂)
  obtain ⟨_, _, hmarks | ⟨_, hlow, _⟩⟩ := step_counted hc₃ hq
  · exact absurd hmarks (hdiffers hn')
  obtain ⟨before, d, after, a, b, e, hbefore, hd, hafter, ha, hb⟩ :=
    hrun.exists_losing (P := fun c => mark ≤ c.unsent.length) hhigh (by omega)
  have hca : a.Counted mark :=
    hbefore.keeps (fun _ _ _ hc hst => (step_counted hc hst).1) (reachable_counted hc₂)
  obtain ⟨_, hle | ⟨w, hw⟩, _⟩ := step_counted hca hd
  · omega
  · exact ⟨before, d, after, a, b, w, e, hbefore, hd, hw, hafter, ha, by omega⟩

/-! ## The law -/

/-- A send that leaves bytes returns and queues the notice that is due, and no
other, exactly when the number of all the unsent bytes counts as an `int` and
the vector takes the new ones. In every run a step queues at most one notice, and
between two notices the connection drains below the mark. -/
theorem high_water_notices_are_exact_iff_the_bytes_count (mark : Nat) :
    (∀ (c : TcpConnection) (message : Message) (w : WriteResult) (rest : List Byte),
      c.highWaterMark_ = mark → c.outputBuffer_.Inv → c.highWaterMarkCallback_ = true →
      c.Leaves message w rest → rest ≠ [] →
      (c.NotifiesExactly message w rest ↔
        c.outputBuffer_.Takes rest.length ∧
          Countable c.unsent.length rest.length mark)) ∧
    ∀ (c₁ c₂ : TcpConnection) (p : Piece),
      (marked mark).Reachable c₁ → (marked mark).step c₁ p c₂ →
      (marks c₂.trace = marks c₁.trace ∨ Notifies c₁ c₂) ∧
      ∀ ps c₃ q c₄, (marked mark).Run c₂ ps c₃ → (marked mark).step c₃ q c₄ →
        Notifies c₁ c₂ → Notifies c₃ c₄ →
        ∃ before d after a b w, ps = before ++ d :: after ∧ (marked mark).Run c₂ before a ∧
          (marked mark).step a d b ∧ a.handleWrite w = .ok b ∧ (marked mark).Run b after c₃ ∧
          mark ≤ a.unsent.length ∧ b.unsent.length < mark := by
  constructor
  · intro c message w rest hmark h hset hl hrest
    subst hmark
    exact hl.notifiesExactly_iff h hset hrest
  · intro c₁ c₂ p h hp
    obtain ⟨_, _, hmarks⟩ := step_counted (reachable_counted h) hp
    refine ⟨hmarks.imp_right fun hn => hn.1, ?_⟩
    intro ps c₃ q c₄ hrun hq hn hn'
    exact drained_between h hp hrun hq hn hn'

/-- A connection with a mark of one byte holds a byte, drains, and holds the
next one. Each of the two sends queues its notice. -/
theorem high_water_notices_are_exact_at_two_bytes :
    ∃ c₁ c₂ c₃ c₄ : TcpConnection, c₁.NotifiesExactly oneByte (.wrote 0) [7] ∧
      Notifies c₁ c₂ ∧ Notifies c₃ c₄ ∧
      ∃ (a b : TcpConnection) (w : WriteResult),
        a.handleWrite w = .ok b ∧ 1 ≤ a.unsent.length ∧ b.unsent.length < 1 := by
  obtain ⟨⟨_, _, _, _⟩, hok, hp⟩ := exists_of_passes
    (x := (do
      let c₁ ← Piece.run { construct 5 false true with highWaterMark_ := 1 } .established
      let c₂ ← Piece.run c₁ (.sendInLoop oneByte (.wrote 0))
      let c₃ ← Piece.run c₂ (.handleWrite (.wrote 1))
      let c₄ ← Piece.run c₃ (.sendInLoop oneByte (.wrote 0))
      pure (c₁, c₂, c₃, c₄)))
    (p := fun (c₁, c₂, c₃, c₄) => marks c₁.trace == [] && marks c₂.trace == [1] &&
      marks c₃.trace == [1] && marks c₄.trace == [1, 1]) (by decide +kernel)
  simp only [bind_eq_ok, pure_eq_ok, Except.ok.injEq, Prod.mk.injEq] at hok
  obtain ⟨c₁, h1, c₂, h2, c₃, h3, c₄, h4, rfl, rfl, rfl, rfl⟩ := hok
  simp only [Bool.and_eq_true, beq_iff_eq] at hp
  obtain ⟨⟨⟨m1, m2⟩, m3⟩, m4⟩ := hp
  have hr : (marked 1).Reachable _ := .next (.start ⟨5, false, true, rfl⟩) h1
  have hn : Notifies c₁ c₂ := ⟨1, by rw [m1, m2, List.nil_append]⟩
  have hn' : Notifies c₃ c₄ := ⟨1, by rw [m3, m4, List.singleton_append]⟩
  cases h1
  obtain ⟨hexact, hruns⟩ := high_water_notices_are_exact_iff_the_bytes_count 1
  refine ⟨_, c₂, c₃, c₄, (hexact _ oneByte (.wrote 0) [7] rfl ?_ rfl ?_ (by decide)).mpr ?_,
    hn, hn', ?_⟩
  · exact (construct_streams 5 false true).1.out
  · exact Or.inl ⟨⟨rfl, rfl⟩, by decide, rfl⟩
  · exact ⟨Or.inl (by decide +kernel), Or.inl (by decide +kernel)⟩
  · obtain ⟨_, _, _, a, b, w, _, _, _, hw, _, ha, hb⟩ :=
      (hruns _ c₂ _ hr h2).2 [_] c₃ _ c₄ (.snoc .nil h3) h4 hn hn'
    exact ⟨a, b, w, hw, ha, hb⟩

/-- A number of bytes that is an `int` is that of a message. -/
theorem exists_message {n : Nat} (h : n < 2 ^ 31) : ∃ m : Message, m.bytes.length = n :=
  ⟨⟨List.replicate n 7, by rwa [List.length_replicate]⟩, List.length_replicate⟩

/-- The socket takes one of two bytes, and a message of 2^31 - 1 bytes joins the
other. A notice of 2^31 bytes is due, but the sum of the two numbers overflows. -/
theorem a_notice_of_too_many_bytes_overflows :
    ∃ c message w, pieces.Reachable c ∧ c.highWaterMarkCallback_ = true ∧
      c.Leaves message w message.bytes ∧ c.unsent.length = 1 ∧
      message.bytes.length = 2 ^ 31 - 1 ∧ c.outputBuffer_.Takes message.bytes.length ∧
      due c.unsent.length message.bytes.length c.highWaterMark_ = [2 ^ 31] ∧
      (¬ ∃ c', c.sendInLoop message w = .ok c') ∧ ¬ c.NotifiesExactly message w message.bytes := by
  obtain ⟨c, hok, hp⟩ := exists_of_passes
    (x := [.established, .sendInLoop twoBytes (.wrote 1)].foldlM Piece.run
      (construct 5 false true))
    (p := fun c => c.highWaterMarkCallback_ && c.highWaterMark_ == 64 * 1024 * 1024 &&
      c.unsent == [8] && c.channel_.isWriting && c.outputBuffer_.writerIndex_ == 9)
    (by decide +kernel)
  simp only [Bool.and_eq_true, beq_iff_eq] at hp
  obtain ⟨⟨⟨⟨hset, hmark⟩, hu⟩, hwriting⟩, hwriter⟩ := hp
  have hreach : pieces.Reachable c :=
    ⟨_, _, ⟨5, false, true, rfl⟩, .of_foldlM (fun _ _ _ hok => hok) hok⟩
  have hstreams : c.Streams := by
    refine hreach.invariant ?_ (fun _ _ _ hc hst => Piece.streams hc hst)
    rintro c ⟨sockfd, wc, hw, rfl⟩
    exact (construct_streams sockfd wc hw).1
  obtain ⟨message, hm⟩ := exists_message (n := 2 ^ 31 - 1) (by omega)
  have hlen : c.unsent.length = 1 := by rw [hu]; rfl
  have hl : c.Leaves message (.wrote 0) message.bytes := by
    refine Or.inr ⟨?_, rfl⟩
    rintro ⟨hno, _⟩
    rw [hwriting] at hno
    cases hno
  have hne : message.bytes ≠ [] := by
    intro e
    rw [e] at hm
    cases hm
  have hno : ¬ ∃ c', c.sendInLoop message (.wrote 0) = .ok c' := by
    rw [hl.returns_iff hstreams.out.ordered hne, hlen, hm]
    rintro ⟨_, hsum⟩
    rw [toInt_eq (by omega) (by omega)] at hsum
    omega
  refine ⟨c, message, .wrote 0, hreach, hset, hl, hlen, hm, ?_, ?_, hno, ?_⟩
  · exact Or.inr (Or.inr (by omega))
  · rw [hlen, hm, hmark]
    unfold due
    rw [if_pos (by omega)]
    rfl
  · rintro ⟨c', hok', _⟩
    exact hno ⟨c', hok'⟩

end TcpConnection

end jmuduo.net
