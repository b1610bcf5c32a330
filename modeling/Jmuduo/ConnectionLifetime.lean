-- The life of a connection across the loops: each of its calls is made at
-- most once, in its place and by its thread, and something refers to the
-- connection until its channel is removed.
import Jmuduo.ConnectionCallbacks
import Jmuduo.TcpServer

open outcome runs maps

namespace jmuduo.net

namespace TcpServer

variable {τ : Type} [DecidableEq τ] {once : Prop}

/-! ## The threads -/

/-- A thread that is in a call of a loop returns from it before all else. -/
structure Threads (s : TcpServer τ) : Prop where
  inv : ∀ l, (s.loop l).Inv
  thread : ∀ l, (s.loop l).threadId_ = l
  busy : ∀ l t, (s.loop l).phase t ≠ .idle → ∃ rest, s.stack t = .returns l :: rest

/-- The thread is in no call of a loop. -/
def Calm (s : TcpServer τ) (t : τ) : Prop := ∀ l, (s.loop l).phase t = .idle

/-- The state after the innermost function of the thread returned. -/
def pop (t : τ) (rest : List (Frame τ)) (s : TcpServer τ) : TcpServer τ :=
  { s with stack := Function.update s.stack t rest }

omit [DecidableEq τ] in
theorem Threads.calm {s : TcpServer τ} (h : s.Threads) {t : τ}
    (ht : ∀ l rest, s.stack t ≠ .returns l :: rest) : s.Calm t := by
  intro l
  by_contra hp
  obtain ⟨rest, hr⟩ := h.busy l t hp
  exact ht l rest hr

/-- A calm thread may change its stack. -/
theorem Threads.stack {s : TcpServer τ} (h : s.Threads) {t : τ} (hc : s.Calm t)
    (frames : List (Frame τ)) : (s.pop t frames).Threads := by
  refine ⟨h.inv, h.thread, fun l u hp => ?_⟩
  by_cases hu : u = t
  · subst hu
    exact absurd (hc l) hp
  · obtain ⟨rest, hr⟩ := h.busy l u hp
    exact ⟨rest, (Function.update_of_ne hu _ _).trans hr⟩

omit [DecidableEq τ] in
theorem Threads.same {s s' : TcpServer τ} (h : s.Threads) (hloop : s'.loop = s.loop)
    (hstack : s'.stack = s.stack) : s'.Threads := by
  refine ⟨?_, ?_, ?_⟩
  · rw [hloop]
    exact h.inv
  · rw [hloop]
    exact h.thread
  · rw [hloop, hstack]
    exact h.busy

omit [DecidableEq τ] in
theorem Threads.user {s : TcpServer τ} (h : s.Threads) {t : τ} (hu : s.UserCode t) : s.Calm t :=
  h.calm fun l rest hr => Bool.noConfusion (hu.2 (.returns l) rest hr)

theorem Threads.push {s : TcpServer τ} (h : s.Threads) {t : τ} (hc : s.Calm t)
    (frames : List (Frame τ)) : (s.push t frames).Threads := h.stack hc _

/-- A step of one loop leaves the others. -/
theorem act_keeps {P : τ → EventLoop τ ChannelId Functor → Prop} {s : TcpServer τ} {l : τ}
    {a : EventLoop.Act τ ChannelId Functor} (h : ∀ m, P m (s.loop m))
    (hl : P l (a.apply (s.loop l))) (m : τ) : P m ((s.act l a).loop m) := by
  unfold act
  by_cases hm : m = l
  · subst hm
    simp only [Function.update_self]
    exact hl
  · simp only [Function.update_of_ne hm]
    exact h m

/-- A calm thread begins a call of a loop. -/
theorem Threads.call {s : TcpServer τ} (h : s.Threads) {t l : τ} (hc : s.Calm t)
    {a : EventLoop.Act τ ChannelId Functor} (ha : a.caller = some t)
    (he : a.Enabled (s.loop l)) : ((s.act l a).push t [.returns l]).Threads := by
  obtain ⟨hid, hphase, _⟩ := (s.loop l).apply_fields a
  have hids := act_keeps (P := fun m e => e.threadId_ = m) h.thread (hid.trans (h.thread l))
  refine ⟨act_keeps h.inv ((h.inv l).apply he), hids, fun m u hp => ?_⟩
  by_cases hu : u = t
  · subst hu
    by_cases hm : m = l
    · subst hm
      exact ⟨s.stack u, Function.update_self _ _ _⟩
    · have hold : (s.act l a).loop m = s.loop m := Function.update_of_ne hm _ _
      rw [show ((s.act l a).push u [.returns l]).loop m = s.loop m from hold] at hp
      exact absurd (hc m) hp
  · have hold := act_keeps (P := fun m e => e.phase u ≠ .idle → (s.loop m).phase u ≠ .idle)
      (fun m => id) (l := l) (a := a) (by
        rw [hphase u (by rw [ha]; exact fun e => hu (Option.some.inj e).symm)]
        exact id) m hp
    obtain ⟨rest, hr⟩ := h.busy m u hold
    exact ⟨rest, (Function.update_of_ne hu _ _).trans hr⟩

/-! ## What the life of a connection is counted by -/

/-- How often the step of the connection ran. -/
def did (s : TcpServer τ) (c : Nat) (what : Step) : Nat :=
  s.trace.countP fun n => n.conn = c ∧ n.what = what

/-- How often the functor waits in the loop, or starts on its thread. -/
def due (s : TcpServer τ) (l : τ) (f : Functor) : Nat :=
  (s.loop l).waiting.count f + (s.stack l).count (.call f)

/-- How often the thread is in `handleClose`, before `closeCallback_`. -/
def closing (s : TcpServer τ) (l : τ) (c : Nat) : Nat := (s.stack l).count (.closeCallback c)

/-- The loop can run the callbacks of the connection. -/
def Dispatches (s : TcpServer τ) (l : τ) (c : Nat) : Prop :=
  .connection c ∈ (s.loop l).activeChannels_ ∨ ∃ cbs, .handleEvent c cbs ∈ s.stack l

/-- Some thread is in `shutdown` of the connection, and has yet to set `state_`. -/
def Asked (s : TcpServer τ) (c : Nat) : Prop := ∃ t, .setState c ∈ s.stack t

omit [DecidableEq τ] in
theorem did_note (s : TcpServer τ) (t : τ) (c c' : Nat) (k k' : Step) :
    (s.note t c k).did c' k' = s.did c' k' + if c = c' ∧ k = k' then 1 else 0 := by
  simp only [did, note, List.countP_append, List.countP_singleton, decide_eq_true_eq]

/-- How often a function is on a stack, before and after its return. -/
theorem count_pop {s : TcpServer τ} {t : τ} {fr : Frame τ} {rest : List (Frame τ)}
    (hs : s.stack t = fr :: rest) (l : τ) (fr' : Frame τ) :
    (s.stack l).count fr' =
      ((s.pop t rest).stack l).count fr' + if l = t ∧ fr = fr' then 1 else 0 := by
  unfold pop
  by_cases hl : l = t
  · subst hl
    simp only [hs, Function.update_self, List.count_cons, beq_iff_eq, true_and]
  · simp only [Function.update_of_ne hl, hl, false_and, if_false, Nat.add_zero]

theorem count_push (s : TcpServer τ) (t : τ) (frames : List (Frame τ)) (l : τ) (fr : Frame τ) :
    ((s.push t frames).stack l).count fr =
      (s.stack l).count fr + if l = t then frames.count fr else 0 := by
  unfold push
  by_cases hl : l = t
  · subst hl
    simp only [Function.update_self, List.count_append, if_true]
    omega
  · simp only [Function.update_of_ne hl, hl, if_false, Nat.add_zero]

theorem due_pop {s : TcpServer τ} {t : τ} {fr : Frame τ} {rest : List (Frame τ)}
    (hs : s.stack t = fr :: rest) (l : τ) (f : Functor) :
    s.due l f = (s.pop t rest).due l f + if l = t ∧ fr = .call f then 1 else 0 := by
  unfold due
  rw [count_pop hs l (.call f), ← Nat.add_assoc]
  rfl

theorem closing_pop {s : TcpServer τ} {t : τ} {fr : Frame τ} {rest : List (Frame τ)}
    (hs : s.stack t = fr :: rest) (l : τ) (c : Nat) :
    s.closing l c =
      (s.pop t rest).closing l c + if l = t ∧ fr = .closeCallback c then 1 else 0 :=
  count_pop hs l (.closeCallback c)

theorem dispatches_pop {s : TcpServer τ} {t : τ} {fr : Frame τ} {rest : List (Frame τ)}
    (hs : s.stack t = fr :: rest) {l : τ} {c : Nat} (h : (s.pop t rest).Dispatches l c) :
    s.Dispatches l c := by
  refine h.imp id ?_
  rintro ⟨cbs, hin⟩
  by_cases hl : l = t
  · subst hl
    simp only [pop, Function.update_self] at hin
    exact ⟨cbs, hs ▸ List.mem_cons_of_mem _ hin⟩
  · simp only [pop, Function.update_of_ne hl] at hin
    exact ⟨cbs, hin⟩

theorem asked_pop {s : TcpServer τ} {t : τ} {fr : Frame τ} {rest : List (Frame τ)}
    (hs : s.stack t = fr :: rest) {c : Nat} (h : (s.pop t rest).Asked c) : s.Asked c := by
  obtain ⟨u, hin⟩ := h
  refine ⟨u, ?_⟩
  by_cases hu : u = t
  · subst hu
    simp only [pop, Function.update_self] at hin
    exact hs ▸ List.mem_cons_of_mem _ hin
  · simpa only [pop, Function.update_of_ne hu] using hin

theorem asked_push {s : TcpServer τ} {t : τ} {frames : List (Frame τ)} {c : Nat}
    (h : (s.push t frames).Asked c) : s.Asked c ∨ .setState c ∈ frames := by
  obtain ⟨u, hin⟩ := h
  by_cases hu : u = t
  · subst hu
    simp only [push, Function.update_self] at hin
    rcases List.mem_append.mp hin with hnew | hold
    · exact Or.inr hnew
    · exact Or.inl ⟨u, hold⟩
  · exact Or.inl ⟨u, by simpa only [push, Function.update_of_ne hu] using hin⟩

theorem due_push (s : TcpServer τ) (t : τ) (frames : List (Frame τ)) (l : τ) (f : Functor) :
    (s.push t frames).due l f = s.due l f + if l = t then frames.count (.call f) else 0 := by
  unfold due
  rw [count_push s t frames l (.call f), ← Nat.add_assoc]
  rfl

theorem closing_push (s : TcpServer τ) (t : τ) (frames : List (Frame τ)) (l : τ) (c : Nat) :
    (s.push t frames).closing l c =
      s.closing l c + if l = t then frames.count (.closeCallback c) else 0 :=
  count_push s t frames l (.closeCallback c)

theorem dispatches_push {s : TcpServer τ} {t : τ} {frames : List (Frame τ)} {l : τ} {c : Nat}
    (h : (s.push t frames).Dispatches l c) :
    s.Dispatches l c ∨ l = t ∧ ∃ cbs, .handleEvent c cbs ∈ frames := by
  rcases h with h | ⟨cbs, hin⟩
  · exact Or.inl (Or.inl h)
  · by_cases hl : l = t
    · subst hl
      simp only [push, Function.update_self] at hin
      rcases List.mem_append.mp hin with hnew | hold
      · exact Or.inr ⟨rfl, cbs, hnew⟩
      · exact Or.inl (Or.inr ⟨cbs, hold⟩)
    · simp only [push, Function.update_of_ne hl] at hin
      exact Or.inl (Or.inr ⟨cbs, hin⟩)

/-- A step of a loop moves the functors that it queues and calls. -/
theorem due_act {s : TcpServer τ} (h : s.Threads) {l : τ}
    {a : EventLoop.Act τ ChannelId Functor} (he : a.Enabled (s.loop l)) (m : τ) (f : Functor) :
    (s.act l a).due m f + (if m = l then (a.called (s.loop l)).count f else 0) =
      s.due m f + if m = l then a.queued.count f else 0 := by
  unfold due act
  by_cases hm : m = l
  · subst hm
    have hmove := congrArg (List.count f) (EventLoop.waiting_apply (h.inv m) he)
    rw [List.count_append, List.count_append] at hmove
    simp only [Function.update_self, if_true]
    omega
  · simp only [Function.update_of_ne hm, hm, if_false]

theorem dispatches_act {s : TcpServer τ} {l : τ} {a : EventLoop.Act τ ChannelId Functor} {m : τ}
    {c : Nat} (h : (s.act l a).Dispatches m c) :
    s.Dispatches m c ∨ m = l ∧ ∃ active, a = .poll active ∧ .connection c ∈ active := by
  rcases h with h | h
  · by_cases hm : m = l
    · subst hm
      simp only [act, Function.update_self] at h
      rcases ((s.loop m).apply_fields a).2.2 _ h with hold | hnew
      · exact Or.inl (Or.inl hold)
      · exact Or.inr ⟨rfl, hnew⟩
    · simp only [act, Function.update_of_ne hm] at h
      exact Or.inl (Or.inl h)
  · exact Or.inl (Or.inr h)

section

variable (s : TcpServer τ) (t l : τ) (f : Functor)

@[simp] theorem runInLoop_loop_ : (s.runInLoop t l f).loop_ = s.loop_ := by
  unfold runInLoop
  split <;> rfl

@[simp] theorem runInLoop_name_ : (s.runInLoop t l f).name_ = s.name_ := by
  unfold runInLoop
  split <;> rfl

@[simp] theorem runInLoop_accepted : (s.runInLoop t l f).accepted = s.accepted := by
  unfold runInLoop
  split <;> rfl

@[simp] theorem runInLoop_nextConnId_ : (s.runInLoop t l f).nextConnId_ = s.nextConnId_ := by
  unfold runInLoop
  split <;> rfl

@[simp] theorem runInLoop_connections_ :
    (s.runInLoop t l f).connections_ = s.connections_ := by
  unfold runInLoop
  split <;> rfl

@[simp] theorem runInLoop_conns : (s.runInLoop t l f).conns = s.conns := by
  unfold runInLoop
  split <;> rfl

@[simp] theorem runInLoop_trace : (s.runInLoop t l f).trace = s.trace := by
  unfold runInLoop
  split <;> rfl

@[simp] theorem runInLoop_did (c : Nat) (k : Step) :
    (s.runInLoop t l f).did c k = s.did c k := by
  simp only [did, runInLoop_trace]

end

/-- On either way of `runInLoop`, the functor is due once more in the loop. -/
theorem runInLoop.spec {s : TcpServer τ} (h : s.Threads) {t : τ} (hc : s.Calm t) (l : τ)
    (f : Functor) :
    (s.runInLoop t l f).Threads ∧
    (∀ m g, (s.runInLoop t l f).due m g = s.due m g + if m = l ∧ f = g then 1 else 0) ∧
    (∀ m c, (s.runInLoop t l f).closing m c = s.closing m c) ∧
    (∀ m c, (s.runInLoop t l f).Dispatches m c → s.Dispatches m c) ∧
    ∀ c, (s.runInLoop t l f).Asked c → s.Asked c := by
  unfold runInLoop
  split
  · rename_i hself
    have htl : l = t := by
      rw [← h.thread l]
      exact of_decide_eq_true hself
    subst htl
    refine ⟨h.push hc _, fun m g => ?_, fun m c => ?_, fun m c hd => ?_, fun c ha => ?_⟩
    · rw [due_push]
      simp only [List.count_singleton, beq_iff_eq, Frame.call.injEq, ite_and]
    · simp [closing_push]
    · rcases dispatches_push hd with hd | ⟨_, _, hin⟩
      · exact hd
      · simp at hin
    · exact (asked_push ha).resolve_right (by simp)
  · rename_i hother
    have htl : t ≠ l := by
      rintro rfl
      exact hother (decide_eq_true (h.thread t))
    have he : (EventLoop.Act.queueInLoop t f).Enabled (s.loop l) := by
      refine ⟨hc l, fun e => ?_⟩
      rw [h.thread l] at e
      exact absurd e htl
    refine ⟨h.call hc rfl he, fun m g => ?_, fun m c => ?_, fun m c hd => ?_, fun c ha => ?_⟩
    · have hdue := due_act h he m g
      simp only [EventLoop.Act.called, EventLoop.Act.queued, List.count_nil, ite_self,
        List.count_singleton, beq_iff_eq] at hdue
      simp [due_push, ite_and]
      omega
    · simp [closing_push]
      rfl
    · rcases dispatches_push hd with hd | ⟨_, _, hin⟩
      · rcases dispatches_act hd with hd | ⟨_, _, he, _⟩
        · exact hd
        · cases he
      · simp at hin
    · exact (asked_push ha).resolve_right (by simp)

/-! ## The life of one connection -/

/-- The loop of the connection. One that is not accepted yet counts as one
of the base loop. -/
def loopOf (s : TcpServer τ) (c : Nat) : τ :=
  match s.conns c with
  | some conn => conn.loop_
  | none => s.loop_

/-- The state of the connection, also before it is accepted. -/
def stateOf (s : TcpServer τ) (c : Nat) : StateE :=
  match s.conns c with
  | some conn => conn.conn.state_
  | none => .kConnecting

/-! What a step does not touch. -/

@[simp] theorem did_push (s : TcpServer τ) (t : τ) (frames : List (Frame τ)) (c : Nat)
    (k : Step) : (s.push t frames).did c k = s.did c k := rfl

omit [DecidableEq τ] in
@[simp] theorem did_setConn (s : TcpServer τ) (c' : Nat) (conn : ServerConnection τ) (c : Nat)
    (k : Step) : (s.setConn c' conn).did c k = s.did c k := rfl

omit [DecidableEq τ] in
@[simp] theorem dispatches_note (s : TcpServer τ) (t : τ) (c' : Nat) (k : Step) (l : τ)
    (c : Nat) : (s.note t c' k).Dispatches l c ↔ s.Dispatches l c := Iff.rfl

omit [DecidableEq τ] in
@[simp] theorem dispatches_setConn (s : TcpServer τ) (c' : Nat) (conn : ServerConnection τ)
    (l : τ) (c : Nat) : (s.setConn c' conn).Dispatches l c ↔ s.Dispatches l c := Iff.rfl

/-- What is left to do for the connection: a functor that is due, or the call
of `closeCallback_`. -/
inductive Token
  | connectEstablished
  | closeCallback
  | removeConnectionInLoop
  | connectDestroy
  deriving DecidableEq

/-- How often it is left to do on the thread. -/
def tokens (s : TcpServer τ) (l : τ) (c : Nat) : Token → Nat
  | .connectEstablished => s.due l (.connectEstablished c)
  | .closeCallback => s.closing l c
  | .removeConnectionInLoop => s.due l (.removeConnectionInLoop c)
  | .connectDestroy => s.due l (.connectDestroy c)

@[simp] theorem tokens_note (s : TcpServer τ) (t : τ) (c' : Nat) (k' : Step) (l : τ) (c : Nat)
    (k : Token) : (s.note t c' k').tokens l c k = s.tokens l c k := rfl

@[simp] theorem tokens_setConn (s : TcpServer τ) (c' : Nat) (conn : ServerConnection τ) (l : τ)
    (c : Nat) (k : Token) : (s.setConn c' conn).tokens l c k = s.tokens l c k := rfl

/-- The thread that it is to be done on. -/
def home (s : TcpServer τ) (c : Nat) : Token → τ
  | .removeConnectionInLoop => s.loop_
  | _ => s.loopOf c

def left (s : TcpServer τ) (c : Nat) (k : Token) : Nat := s.tokens (s.home c k) c k

/-- Each call of the life is left to do or ran, as soon as the call before it
ran, and the states and the map tell how far the life is. Of a connection that a
`shutdown` set back to `kDisconnecting` the state tells only that `handleClose`
may have run. That none was is `once`. -/
structure Life (once : Prop) (s : TcpServer τ) (c : Nat) : Prop where
  established : s.did c .connectEstablished + s.left c .connectEstablished =
    if (s.conns c).isSome then 1 else 0
  up : s.did c .connectEstablished = if s.stateOf c = .kConnecting then 0 else 1
  whole : s.stateOf c = .kConnecting ∨ s.stateOf c = .kConnected → s.did c .handleClose = 0
  closed : once → s.did c .handleClose = if s.stateOf c = .kDisconnected then 1 else 0
  removed : s.did c .removeConnectionInLoop + s.left c .removeConnectionInLoop +
    s.left c .closeCallback = s.did c .handleClose
  destroyed : s.did c .connectDestroy + s.left c .connectDestroy =
    s.did c .removeConnectionInLoop
  stray : ∀ k l, l ≠ s.home c k → s.tokens l c k = 0
  dispatches : ∀ l, s.Dispatches l c → l = s.loopOf c ∧ s.stateOf c ≠ .kConnecting
  asked : s.Asked c → s.stateOf c ≠ .kConnecting
  registered : ∀ conn, s.conns c = some conn → conn.registered = true →
    s.stateOf c ≠ .kConnecting ∧ s.did c .connectDestroy = 0
  mapped : ∀ conn, s.conns c = some conn → s.did c .removeConnectionInLoop = 0 →
    s.connections_.find conn.name_ = some c
  sound : ∀ conn, s.conns c = some conn → conn.conn.Sound

omit [DecidableEq τ] in
theorem loopOf_some {s : TcpServer τ} {c : Nat} {conn : ServerConnection τ}
    (h : s.conns c = some conn) : s.loopOf c = conn.loop_ := by
  simp only [loopOf, h]

omit [DecidableEq τ] in
theorem stateOf_some {s : TcpServer τ} {c : Nat} {conn : ServerConnection τ}
    (h : s.conns c = some conn) : s.stateOf c = conn.conn.state_ := by
  simp only [stateOf, h]

theorem tokens_eq {s s' : TcpServer τ} {c : Nat}
    (hdue : ∀ l f, f.refs = some c → s'.due l f = s.due l f)
    (hclosing : ∀ l, s'.closing l c = s.closing l c) (l : τ) (k : Token) :
    s'.tokens l c k = s.tokens l c k := by
  cases k with
  | connectEstablished => exact hdue l _ rfl
  | closeCallback => exact hclosing l
  | removeConnectionInLoop => exact hdue l _ rfl
  | connectDestroy => exact hdue l _ rfl

/-! ## The steps at which a life rests -/

/-- The connection before and after a step that is no call of its life. -/
structure Like (once : Prop) (conn conn' : ServerConnection τ) : Prop where
  name : conn'.name_ = conn.name_
  loop : conn'.loop_ = conn.loop_
  registered : conn'.registered = conn.registered
  sound : conn'.conn.Sound
  new : conn'.conn.state_ = .kConnecting ↔ conn.conn.state_ = .kConnecting
  connected : conn'.conn.state_ = .kConnected → conn.conn.state_ = .kConnected
  down : once → (conn'.conn.state_ = .kDisconnected ↔ conn.conn.state_ = .kDisconnected)

/-- A step that is no call of the life of the connection. -/
structure Rests (once : Prop) (s s' : TcpServer τ) (c : Nat) : Prop where
  base : s'.loop_ = s.loop_
  conn : (s'.conns c = s.conns c) ∨
    ∃ conn conn', s.conns c = some conn ∧ s'.conns c = some conn' ∧ Like once conn conn'
  did : ∀ k, k ≠ .handler → s'.did c k = s.did c k
  tokens : ∀ l k, s'.tokens l c k = s.tokens l c k
  dispatches : ∀ l, s'.Dispatches l c → s.Dispatches l c ∨ s.Polled l (.connection c)
  asked : s'.Asked c → s.Asked c ∨ s.stateOf c ≠ .kConnecting
  mapped : ∀ conn, s.conns c = some conn → s.connections_.find conn.name_ = some c →
    s'.connections_.find conn.name_ = some c

/-- The connection after a rest has the name, the loop and the place in the
poller that it had. -/
theorem Rests.old {s s' : TcpServer τ} {c : Nat} (h : Rests once s s' c)
    {conn' : ServerConnection τ} (hc' : s'.conns c = some conn') : ∃ conn, s.conns c = some conn ∧ conn'.name_ = conn.name_ ∧
      conn'.loop_ = conn.loop_ ∧ conn'.registered = conn.registered := by
  rcases h.conn with he | ⟨conn, conn'', hs, hs', hl⟩
  · exact ⟨conn', he ▸ hc', rfl, rfl, rfl⟩
  · rw [hs'] at hc'
    cases hc'
    exact ⟨conn, hs, hl.name, hl.loop, hl.registered⟩

theorem Rests.fields {s s' : TcpServer τ} {c : Nat} (h : Rests once s s' c) :
    s'.loopOf c = s.loopOf c ∧ (s'.conns c).isSome = (s.conns c).isSome ∧
      (s'.stateOf c = .kConnecting ↔ s.stateOf c = .kConnecting) ∧
      (s'.stateOf c = .kConnected → s.stateOf c = .kConnected) ∧
      (once → (s'.stateOf c = .kDisconnected ↔ s.stateOf c = .kDisconnected)) := by
  unfold loopOf stateOf
  rcases h.conn with he | ⟨conn, conn', hs, hs', hl⟩
  · rw [he, h.base]
    exact ⟨rfl, rfl, Iff.rfl, id, fun _ => Iff.rfl⟩
  · rw [hs, hs']
    exact ⟨hl.loop, rfl, hl.new, hl.connected, hl.down⟩

theorem Life.rests {s s' : TcpServer τ} {c : Nat} (h : s.Life once c) (hr : Rests once s s' c) :
    s'.Life once c := by
  obtain ⟨hloop, hsome, hnew, hconnected, hdown⟩ := hr.fields
  have hhome : ∀ k, s'.home c k = s.home c k := by
    intro k
    cases k <;> simp only [home, hloop, hr.base]
  have hleft : ∀ k, s'.left c k = s.left c k := fun k => by
    rw [left, left, hhome, hr.tokens]
  refine ⟨?_, ?_, fun hw => ?_, fun honce => ?_, ?_, ?_, fun k l hl => ?_, fun l hd => ?_,
    fun ha => ?_, fun conn' hc' hreg => ?_, fun conn' hc' h0 => ?_, fun conn' hc' => ?_⟩
  · rw [hr.did _ (by decide), hleft, hsome, h.established]
  · simp only [hr.did _ (by decide : Step.connectEstablished ≠ .handler), h.up, hnew]
  · rw [hr.did _ (by decide)]
    exact h.whole (hw.imp hnew.mp hconnected)
  · simp only [hr.did _ (by decide : Step.handleClose ≠ .handler), h.closed honce, hdown honce]
  · rw [hr.did _ (by decide), hleft, hleft, hr.did _ (by decide), h.removed]
  · rw [hr.did _ (by decide), hleft, hr.did _ (by decide), h.destroyed]
  · rw [hhome] at hl
    rw [hr.tokens, h.stray k l hl]
  · rw [hloop, Ne, hnew]
    rcases hr.dispatches l hd with hold | ⟨conn, hc, hl, hreg⟩
    · exact h.dispatches l hold
    · exact ⟨hl ▸ (loopOf_some hc).symm, (h.registered conn hc hreg).1⟩
  · rw [Ne, hnew]
    exact (hr.asked ha).elim h.asked id
  · rw [Ne, hnew, hr.did _ (by decide)]
    obtain ⟨conn, hc, _, _, he⟩ := hr.old hc'
    exact h.registered conn hc (he ▸ hreg)
  · rw [hr.did _ (by decide)] at h0
    obtain ⟨conn, hc, hname, _, _⟩ := hr.old hc'
    rw [hname]
    exact hr.mapped conn hc (h.mapped conn hc h0)
  · rcases hr.conn with he | ⟨conn, conn'', hs, hs', hl⟩
    · exact h.sound conn' (he ▸ hc')
    · rw [hs'] at hc'
      cases hc'
      exact hl.sound

/-- The function has nothing to do with the life of the connection. -/
def Frame.Beside (c : Nat) : Frame τ → Prop
  | .call f => f.refs ≠ some c
  | .closeCallback c' => c' ≠ c
  | _ => True

theorem rests_pop {s : TcpServer τ} {t : τ} {fr : Frame τ} {rest : List (Frame τ)}
    (hs : s.stack t = fr :: rest) {c : Nat} (hfr : fr.Beside c) :
    Rests once s (s.pop t rest) c := by
  refine ⟨rfl, Or.inl rfl, fun _ _ => rfl, tokens_eq (fun l f hf => ?_) (fun l => ?_),
    fun l hd => Or.inl (dispatches_pop hs hd), fun ha => Or.inl (asked_pop hs ha), fun _ _ h => h⟩
  · rw [due_pop hs l f, if_neg]
    · rfl
    · rintro ⟨_, rfl⟩
      exact hfr hf
  · rw [closing_pop hs l c, if_neg]
    · rfl
    · rintro ⟨_, rfl⟩
      exact hfr rfl

theorem rests_push {s : TcpServer τ} {t : τ} {frames : List (Frame τ)} {c : Nat}
    (hfr : ∀ fr ∈ frames, fr.Beside c)
    (hd : ∀ cbs, .handleEvent c cbs ∈ frames → s.Dispatches t c)
    (ha : .setState c ∈ frames → s.stateOf c ≠ .kConnecting) :
    Rests once s (s.push t frames) c := by
  refine ⟨rfl, Or.inl rfl, fun _ _ => rfl, tokens_eq (fun l f hf => ?_) (fun l => ?_),
    fun l h => ?_, fun h => (asked_push h).imp_right ha, fun _ _ h => h⟩
  · have hcall : .call f ∉ frames := fun hin => absurd hf (hfr (.call f) hin)
    rw [due_push, List.count_eq_zero.mpr hcall, ite_self, Nat.add_zero]
  · have hclose : .closeCallback c ∉ frames := fun hin => absurd rfl (hfr (.closeCallback c) hin)
    rw [closing_push, List.count_eq_zero.mpr hclose, ite_self, Nat.add_zero]
  · rcases dispatches_push h with h | ⟨rfl, cbs, hin⟩
    · exact Or.inl h
    · exact Or.inl (hd cbs hin)

theorem rests_note (s : TcpServer τ) (t : τ) {c c' : Nat} {k : Step}
    (h : c' ≠ c ∨ k = .handler) : Rests once s (s.note t c' k) c := by
  refine ⟨rfl, Or.inl rfl, fun k' hk' => ?_, fun _ _ => rfl, fun _ h => Or.inl h, Or.inl,
    fun _ _ h => h⟩
  rw [did_note, if_neg, Nat.add_zero]
  rintro ⟨rfl, rfl⟩
  rcases h with hc | hk
  · exact hc rfl
  · exact hk' hk

/-- The state after the server forgot the name. -/
def forget (name : String) (s : TcpServer τ) : TcpServer τ :=
  { s with connections_ := s.connections_.erase name }

theorem rests_forget {s : TcpServer τ} {name : String} {c : Nat}
    (h : ∀ conn, s.conns c = some conn → conn.name_ ≠ name) :
    Rests once s (s.forget name) c := by
  refine ⟨rfl, Or.inl rfl, fun _ _ => rfl, fun _ _ => rfl, fun _ h => Or.inl h, Or.inl,
    fun conn hc hm => ?_⟩
  exact (Map.find_erase_ne (h conn hc)).trans hm

theorem rests_setConn {s : TcpServer τ} {c c' : Nat} {conn' : ServerConnection τ}
    (h : c' = c → ∃ conn, s.conns c = some conn ∧ Like once conn conn') :
    Rests once s (s.setConn c' conn') c := by
  refine ⟨rfl, ?_, fun _ _ => rfl, fun _ _ => rfl, fun _ h => Or.inl h, Or.inl, fun _ _ h => h⟩
  by_cases hc : c' = c
  · obtain ⟨conn, hs, hl⟩ := h hc
    subst hc
    exact Or.inr ⟨conn, conn', hs, Function.update_self _ _ _, hl⟩
  · exact Or.inl (Function.update_of_ne (Ne.symm hc) _ _)

theorem rests_runInLoop {s : TcpServer τ} (h : s.Threads) {t : τ} (hc : s.Calm t) (l : τ)
    {f : Functor} {c : Nat} (hf : f.refs ≠ some c) : Rests once s (s.runInLoop t l f) c := by
  obtain ⟨_, hdue, hclosing, hdispatches, hasked⟩ := runInLoop.spec h hc l f
  refine ⟨by simp, Or.inl (by simp), fun k _ => by simp,
    tokens_eq (fun m g hg => ?_) (fun m => hclosing m c), fun m hd => Or.inl (hdispatches m c hd),
    fun ha => Or.inl (hasked c ha), fun conn _ hm => by simpa using hm⟩
  rw [hdue, if_neg, Nat.add_zero]
  rintro ⟨_, rfl⟩
  exact hf hg

theorem rests_hold (s : TcpServer τ) (t : τ) (c c' : Nat) :
    Rests once s (s.push t [.holds c']) c :=
  rests_push (by simp [Frame.Beside]) (by simp) (by simp)

theorem asked_hold {s : TcpServer τ} {t : τ} {c c' : Nat} (h : (s.push t [.holds c']).Asked c) :
    s.Asked c := (asked_push h).resolve_right (by simp)

theorem dispatches_hold {s : TcpServer τ} {t l : τ} {c c' : Nat}
    (h : (s.push t [.holds c']).Dispatches l c) : s.Dispatches l c := by
  rcases dispatches_push h with h | ⟨_, _, hin⟩
  · exact h
  · simp at hin

/-- A step of a loop that neither queues nor calls a functor of the life. -/
theorem rests_act {s : TcpServer τ} (h : s.Threads) {l : τ}
    {a : EventLoop.Act τ ChannelId Functor} (he : a.Enabled (s.loop l)) {c : Nat}
    (hq : ∀ f ∈ a.queued, f.refs ≠ some c) (hcalled : a.called (s.loop l) = [])
    (hpoll : ∀ active, a = .poll active → ∀ ch ∈ active, s.Polled l ch) :
    Rests once s (s.act l a) c := by
  refine ⟨rfl, Or.inl rfl, fun _ _ => rfl, tokens_eq (fun m f hf => ?_) (fun _ => rfl),
    fun m hd => ?_, Or.inl, fun _ _ h => h⟩
  · have hdue := due_act h he m f
    rw [hcalled, List.count_eq_zero.mpr fun hin => hq f hin hf] at hdue
    simpa using hdue
  · rcases dispatches_act hd with hd | ⟨rfl, active, ha, hin⟩
    · exact Or.inl hd
    · exact Or.inr (hpoll active ha _ hin)

omit [DecidableEq τ] in
theorem Like.trans {a b c : ServerConnection τ} (h : Like once a b) (h' : Like once b c) :
    Like once a c :=
  ⟨h'.name.trans h.name, h'.loop.trans h.loop, h'.registered.trans h.registered, h'.sound,
    h'.new.trans h.new, fun e => h.connected (h'.connected e),
    fun honce => (h'.down honce).trans (h.down honce)⟩

theorem Rests.trans {s s' s'' : TcpServer τ} {c : Nat} (h : Rests once s s' c)
    (h' : Rests once s' s'' c) : Rests once s s'' c := by
  refine ⟨h'.base.trans h.base, ?_, fun k hk => (h'.did k hk).trans (h.did k hk),
    fun l k => (h'.tokens l k).trans (h.tokens l k), fun l hd => ?_, fun ha => ?_,
    fun conn hc hm => ?_⟩
  · rcases h'.conn with he' | ⟨conn', conn'', hs', hs'', hl'⟩
    · rw [he']
      exact h.conn
    · rcases h.conn with he | ⟨conn, _, hs, hs₁, hl⟩
      · exact Or.inr ⟨conn', conn'', he ▸ hs', hs'', hl'⟩
      · rw [hs₁] at hs'
        cases hs'
        exact Or.inr ⟨conn, conn'', hs, hs'', hl.trans hl'⟩
  · rcases h'.dispatches l hd with hd | ⟨conn', hc', hl, hr⟩
    · exact h.dispatches l hd
    · obtain ⟨conn, hc, _, hloop, hreg⟩ := h.old hc'
      exact Or.inr ⟨conn, hc, hloop ▸ hl, hreg ▸ hr⟩
  · rcases h'.asked ha with ha | hne
    · exact h.asked ha
    · exact Or.inr fun e => hne (h.fields.2.2.1.mpr e)
  · have hm' := h.mapped conn hc hm
    rcases h.conn with he | ⟨conn₁, conn', hs, hs', hl⟩
    · exact h'.mapped conn (he ▸ hc) hm'
    · rw [hs] at hc
      cases hc
      rw [← hl.name] at hm' ⊢
      exact h'.mapped conn' hs' hm'

/-! ## The calls of a life -/

/-- A step of the life. `closeCallback` is the last statement of `handleClose`. -/
inductive LifeCall
  | connectEstablished
  | handleClose
  | closeCallback
  | removeConnectionInLoop
  | connectDestroy
  deriving DecidableEq

/-- What the call does of what was left to do. -/
def LifeCall.takes : LifeCall → Option Token
  | .connectEstablished => some .connectEstablished
  | .handleClose => none
  | .closeCallback => some .closeCallback
  | .removeConnectionInLoop => some .removeConnectionInLoop
  | .connectDestroy => some .connectDestroy

/-- What the call leaves to do. -/
def LifeCall.gives : LifeCall → Option Token
  | .connectEstablished => none
  | .handleClose => some .closeCallback
  | .closeCallback => some .removeConnectionInLoop
  | .removeConnectionInLoop => some .connectDestroy
  | .connectDestroy => none

def LifeCall.runs : LifeCall → Option Step
  | .connectEstablished => some .connectEstablished
  | .handleClose => some .handleClose
  | .closeCallback => none
  | .removeConnectionInLoop => some .removeConnectionInLoop
  | .connectDestroy => some .connectDestroy

/-- The thread makes the call of the connection. -/
structure Calls (s s' : TcpServer τ) (t : τ) (c : Nat) (call : LifeCall)
    (conn conn' : ServerConnection τ) : Prop where
  old : s.conns c = some conn
  now : s'.conns c = some conn'
  base : s'.loop_ = s.loop_
  name : conn'.name_ = conn.name_
  loop : conn'.loop_ = conn.loop_
  registered : conn'.registered = true →
    call ≠ .connectDestroy ∧ (conn.registered = true ∨ call = .connectEstablished)
  sound : conn'.conn.Sound
  did : ∀ k, k ≠ .handler → s'.did c k = s.did c k + if call.runs = some k then 1 else 0
  tokens : ∀ l k, s'.tokens l c k + (if l = t ∧ call.takes = some k then 1 else 0) =
    s.tokens l c k + if l = s.home c k ∧ call.gives = some k then 1 else 0
  dispatches : ∀ l, s'.Dispatches l c → s.Dispatches l c

/-- What a thread takes, it takes at its home. -/
theorem Life.at_home {s : TcpServer τ} {c : Nat} (h : s.Life once c) {t : τ} {k : Token}
    (hpos : 0 < s.tokens t c k) : t = s.home c k := by
  by_contra hne
  have hzero := h.stray k t hne
  omega

theorem Calls.home {s s' : TcpServer τ} {t : τ} {c : Nat} {call : LifeCall}
    {conn conn' : ServerConnection τ} (hr : Calls s s' t c call conn conn') (k : Token) :
    s'.home c k = s.home c k := by
  have hloop : s'.loopOf c = s.loopOf c := by
    rw [loopOf_some hr.now, loopOf_some hr.old, hr.loop]
  cases k <;> simp only [TcpServer.home, hloop, hr.base]

/-- A call takes what was left to do at the place where it was left. -/
theorem Calls.taken {s s' : TcpServer τ} {t : τ} {c : Nat} {call : LifeCall}
    {conn conn' : ServerConnection τ} (hr : Calls s s' t c call conn conn') (h : s.Life once c)
    {k : Token} (hk : call.takes = some k) : t = s.home c k ∧ 0 < s.left c k := by
  have hgives : call.gives ≠ some k := by
    cases call <;> cases hk <;> simp [LifeCall.gives]
  have htokens := hr.tokens t k
  rw [if_pos ⟨rfl, hk⟩, if_neg fun e => hgives e.2] at htokens
  have hhome := h.at_home (t := t) (k := k) (by omega)
  refine ⟨hhome, ?_⟩
  rw [TcpServer.left, ← hhome]
  omega

theorem Calls.left {s s' : TcpServer τ} {t : τ} {c : Nat} {call : LifeCall}
    {conn conn' : ServerConnection τ} (hr : Calls s s' t c call conn conn') (h : s.Life once c)
    (k : Token) : s'.left c k + (if call.takes = some k then 1 else 0) =
      s.left c k + if call.gives = some k then 1 else 0 := by
  have htokens := hr.tokens (s.home c k) k
  rw [TcpServer.left, TcpServer.left, hr.home]
  by_cases hk : call.takes = some k
  · have hhome := (hr.taken h hk).1
    simpa [hk, hhome] using htokens
  · simpa [hk] using htokens

/-- Only a connection that was closed has more to do than `connectEstablished`. -/
theorem Life.late {s : TcpServer τ} {c : Nat} (h : s.Life once c) {k : Token}
    (hk : k ≠ .connectEstablished) (hpos : 0 < s.left c k) :
    0 < s.did c .handleClose ∧ s.stateOf c ≠ .kConnecting ∧ s.stateOf c ≠ .kConnected := by
  have hremoved := h.removed
  have hdestroyed := h.destroyed
  have hclosed : 0 < s.did c .handleClose := by
    cases k with
    | connectEstablished => exact absurd rfl hk
    | closeCallback => omega
    | removeConnectionInLoop => omega
    | connectDestroy => omega
  refine ⟨hclosed, fun e => ?_, fun e => ?_⟩
  · have hnone := h.whole (Or.inl e)
    omega
  · have hnone := h.whole (Or.inr e)
    omega

/-- What a call makes of the state of its connection. -/
structure LifeCall.Moves (call : LifeCall) (c c' : TcpConnection) : Prop where
  up : call = .handleClose → c.Up
  established : call = .connectEstablished → c'.Up
  down : call = .handleClose → c'.state_ = .kDisconnected
  same : call ≠ .connectEstablished → call ≠ .handleClose → c'.state_ = c.state_

/-- The numbers of the life after a call. -/
theorem Calls.numbers {s s' : TcpServer τ} {t : τ} {c : Nat} {call : LifeCall}
    {conn conn' : ServerConnection τ} (hr : Calls s s' t c call conn conn')
    (h : s.Life once c) (hm : call.Moves conn.conn conn'.conn) :
    conn'.conn.state_ ≠ .kConnecting ∧
    s'.did c .connectEstablished + s'.left c .connectEstablished = 1 ∧
    s'.did c .connectEstablished = 1 ∧
    (conn'.conn.state_ = .kConnected → s'.did c .handleClose = 0) ∧
    (once → s'.did c .handleClose = if conn'.conn.state_ = .kDisconnected then 1 else 0) ∧
    s'.did c .removeConnectionInLoop + s'.left c .removeConnectionInLoop +
      s'.left c .closeCallback = s'.did c .handleClose ∧
    s'.did c .connectDestroy + s'.left c .connectDestroy = s'.did c .removeConnectionInLoop := by
  have h1 := h.established
  have h2 := h.up
  have h3 := h.whole
  have h4 := h.removed
  have h5 := h.destroyed
  have h6 := h.closed
  rw [hr.old, Option.isSome_some, if_pos rfl] at h1
  rw [stateOf_some hr.old] at h2 h3 h6
  have e1 := hr.left h .connectEstablished
  have e2 := hr.left h .closeCallback
  have e3 := hr.left h .removeConnectionInLoop
  have e4 := hr.left h .connectDestroy
  have d1 := hr.did .connectEstablished (by decide)
  have d2 := hr.did .handleClose (by decide)
  have d3 := hr.did .removeConnectionInLoop (by decide)
  have d4 := hr.did .connectDestroy (by decide)
  -- the three calls after `handleClose` find the connection closed, and leave its state
  have hlate : ∀ k, k ≠ .connectEstablished → call.takes = some k →
      conn.conn.state_ ≠ .kConnecting ∧ conn.conn.state_ ≠ .kConnected := by
    intro k hk htakes
    rw [← stateOf_some hr.old]
    exact (h.late hk (hr.taken h htakes).2).2
  cases call <;>
    simp only [LifeCall.takes, LifeCall.gives, LifeCall.runs, Option.some.injEq, reduceCtorEq,
      if_true, if_false, Nat.add_zero] at e1 e2 e3 e4 d1 d2 d3 d4
  case connectEstablished =>
    have hfresh : conn.conn.state_ = .kConnecting := by
      by_contra hc
      rw [if_neg hc] at h2
      omega
    have hup := hm.established rfl
    have hzero := h3 (Or.inl hfresh)
    rw [if_pos hfresh] at h2
    exact ⟨hup.not_new, by omega, by omega, fun _ => by omega,
      fun _ => by rw [if_neg hup.not_down]; omega, by omega, by omega⟩
  case handleClose =>
    have hup := hm.up rfl
    have hdown := hm.down rfl
    rw [if_neg hup.not_new] at h2
    refine ⟨by simp [hdown], by omega, by omega, by simp [hdown], fun honce => ?_, by omega,
      by omega⟩
    have hzero := h6 honce
    rw [if_neg hup.not_down] at hzero
    rw [if_pos hdown]
    omega
  case closeCallback | removeConnectionInLoop | connectDestroy =>
    have hsame := hm.same (by decide) (by decide)
    obtain ⟨hnew, hup⟩ := hlate _ (by decide) rfl
    rw [if_neg hnew] at h2
    rw [hsame]
    exact ⟨hnew, by omega, by omega, fun e => absurd e hup, fun honce => by rw [d2, h6 honce],
      by omega, by omega⟩

/-- Each call keeps the life, when it leaves the state that it should. -/
theorem Life.calls {s s' : TcpServer τ} {t : τ} {c : Nat} {call : LifeCall}
    {conn conn' : ServerConnection τ} (h : s.Life once c)
    (hr : Calls s s' t c call conn conn') (hm : call.Moves conn.conn conn'.conn)
    (hmapped : call ≠ .removeConnectionInLoop → s'.connections_ = s.connections_) :
    s'.Life once c := by
  obtain ⟨hnew, n1, n2, n3, n4, n5, n6⟩ := hr.numbers h hm
  have hstate' := stateOf_some hr.now
  refine ⟨?_, ?_, fun hw => ?_, fun honce => ?_, n5, n6, fun k l hl => ?_, fun l hd => ?_,
    fun _ => hstate' ▸ hnew, fun conn₁ hc hreg => ?_, fun conn₁ hc h0 => ?_, fun conn₁ hc => ?_⟩
  · rw [hr.now]
    exact n1
  · rw [hstate', if_neg hnew]
    exact n2
  · rw [hstate'] at hw
    exact n3 (hw.resolve_left hnew)
  · rw [hstate']
    exact n4 honce
  · rw [hr.home] at hl
    have htokens := hr.tokens l k
    have hgives : ¬ (l = s.home c k ∧ call.gives = some k) := fun e => hl e.1
    rw [h.stray k l hl, if_neg hgives] at htokens
    omega
  · refine ⟨?_, hstate' ▸ hnew⟩
    rw [loopOf_some hr.now, hr.loop, ← loopOf_some hr.old]
    exact (h.dispatches l (hr.dispatches l hd)).1
  · rw [hr.now] at hc
    cases hc
    refine ⟨hstate' ▸ hnew, ?_⟩
    obtain ⟨hne, hold | hcall⟩ := hr.registered hreg
    · have hran : call.runs ≠ some .connectDestroy := by
        cases call <;> simp [LifeCall.runs] at hne ⊢
      rw [hr.did _ (by decide), if_neg hran]
      exact (h.registered conn hr.old hold).2
    · -- `connectEstablished` comes first
      subst hcall
      have hstart := h.up
      have hfirst := hr.did .connectEstablished (by decide)
      have hran := hr.did .connectDestroy (by decide)
      simp only [LifeCall.runs, if_true, Option.some.injEq, reduceCtorEq, if_false] at hfirst hran
      have hfresh : s.stateOf c = .kConnecting := by
        by_contra hc
        rw [if_neg hc] at hstart
        omega
      have hzero := h.whole (Or.inl hfresh)
      have hremoved := h.removed
      have hdestroyed := h.destroyed
      omega
  · rw [hr.now] at hc
    cases hc
    have hne : call ≠ .removeConnectionInLoop := by
      rintro rfl
      have hran := hr.did .removeConnectionInLoop (by decide)
      simp only [LifeCall.runs, if_true] at hran
      omega
    have hold : s.did c .removeConnectionInLoop = 0 := by
      have hran := hr.did .removeConnectionInLoop (by decide)
      omega
    rw [hmapped hne, hr.name]
    exact h.mapped conn hr.old hold
  · rw [hr.now] at hc
    cases hc
    exact hr.sound

end TcpServer

end jmuduo.net
