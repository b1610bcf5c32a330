-- The functors that are bound to a raw pointer (TcpConnection::send and shutdown).
-- Each runs on a connection that is alive exactly where none is queued behind the
-- destruction of its connection.
import Jmuduo.ServerReferences

open outcome runs maps

namespace jmuduo.net

namespace TcpServer

/-- The connection that the functor has a raw pointer to. -/
def Functor.raw : Functor → Option Nat
  | .sendInLoop c _ | .shutdownInLoop c => some c
  | .connectEstablished _ | .removeConnectionInLoop _ | .connectDestroy _ | .other _ => none

/-- The functor that starts on the stack. -/
def Frame.functor {τ : Type} : Frame τ → Option Functor
  | .call f => some f
  | .accept | .holds _ | .handleEvent _ _ | .closeCallback _ => none
  | .send _ _ | .setState _ | .shutdown _ | .returns _ => none

variable {τ : Type}

/-! ## The agenda of a thread -/

/-- The functors that the thread of the loop has yet to run, in their order. -/
def agenda (s : TcpServer τ) (l : τ) : List Functor :=
  (s.stack l).filterMap Frame.functor ++ (s.loop l).waiting

section

variable [DecidableEq τ] {s s' : TcpServer τ}

theorem agenda_push (s : TcpServer τ) (t : τ) (frames : List (Frame τ)) (m : τ) :
    (s.push t frames).agenda m =
      (if m = t then frames.filterMap Frame.functor else []) ++ s.agenda m := by
  unfold agenda push
  by_cases hm : m = t
  · subst hm
    simp only [Function.update_self, List.filterMap_append, List.append_assoc, if_true]
  · simp only [Function.update_of_ne hm, hm, if_false, List.nil_append]

theorem agenda_pop {t : τ} {fr : Frame τ} {rest : List (Frame τ)} (hs : s.stack t = fr :: rest)
    (m : τ) :
    s.agenda m = (if m = t then fr.functor.toList else []) ++ (s.pop t rest).agenda m := by
  unfold agenda pop
  by_cases hm : m = t
  · subst hm
    simp only [Function.update_self, hs, if_true, ← List.append_assoc]
    cases hf : fr.functor with
    | none => simp [hf]
    | some f => simp [hf]
  · simp only [Function.update_of_ne hm, hm, if_false, List.nil_append]

/-- A step of a loop that neither queues nor calls a functor. -/
theorem agenda_act (h : s.Threads) {l : τ} {a : EventLoop.Act τ ChannelId Functor}
    (he : a.Enabled (s.loop l)) (hcalled : a.called (s.loop l) = []) (m : τ) :
    (s.act l a).agenda m = s.agenda m ++ if m = l then a.queued else [] := by
  unfold agenda act
  by_cases hm : m = l
  · subst hm
    have hmove := EventLoop.waiting_apply (h.inv m) he
    rw [hcalled, List.nil_append] at hmove
    simp only [Function.update_self, if_true, ← hmove, List.append_assoc]
  · simp only [Function.update_of_ne hm, hm, if_false, List.append_nil]

/-- `runInLoop` puts the functor first in the thread of the loop, and last in another. -/
theorem agenda_runInLoop (h : s.Threads) {t : τ} (hc : s.Calm t) (l : τ) (f : Functor) (m : τ) :
    (s.runInLoop t l f).agenda m =
      if m = l then if t = l then f :: s.agenda m else s.agenda m ++ [f] else s.agenda m := by
  unfold runInLoop
  split
  · rename_i hself
    have htl : l = t := by
      rw [← h.thread l]
      exact of_decide_eq_true hself
    subst htl
    rw [agenda_push]
    by_cases hm : m = l
    · simp [hm, Frame.functor]
    · simp [hm]
  · rename_i hother
    have htl : t ≠ l := by
      rintro rfl
      exact hother (decide_eq_true (h.thread t))
    have he : (EventLoop.Act.queueInLoop t f).Enabled (s.loop l) := by
      refine ⟨hc l, fun e => ?_⟩
      rw [h.thread l] at e
      exact absurd e htl
    rw [agenda_push, agenda_act h he rfl]
    by_cases hm : m = l
    · simp [hm, htl, Frame.functor, EventLoop.Act.queued]
    · simp [hm, Frame.functor]

/-- A step of a loop between two functions moves no functor. -/
theorem agenda_loop (h : s.Threads) {l : τ} {a : EventLoop.Act τ ChannelId Functor} {alive : Bool}
    {revents : Mask} (hcaller : a.caller = none) (he : a.Enabled (s.loop l))
    (hs : s.stack l = []) (m : τ) :
    ((s.act l a).push l (s.begun l a alive revents)).agenda m = s.agenda m := by
  rw [agenda_push]
  by_cases ha : a = .callFunctor
  · subst ha
    obtain ⟨f, fs, hf⟩ := List.exists_cons_of_ne_nil he.2
    have hbegun : s.begun l .callFunctor alive revents = [.call f] := by
      simp [begun, hf]
    have hmove := EventLoop.waiting_apply (h.inv l) he
    simp only [EventLoop.Act.queued, EventLoop.Act.called, hf, List.append_nil, List.take_succ_cons,
      List.take_zero] at hmove
    unfold agenda act
    by_cases hm : m = l
    · subst hm
      simp [hbegun, hs, hmove, Frame.functor]
    · simp [hm]
  · have hbegun : (s.begun l a alive revents).filterMap Frame.functor = [] := by
      unfold begun
      split
      · rfl
      · split <;> rfl
      · exact absurd rfl ha
      · rfl
    have hquiet : a.queued = [] ∧ a.called (s.loop l) = [] := by
      cases a with
      | queueInLoop t f => cases hcaller
      | callFunctor => exact absurd rfl ha
      | _ => exact ⟨rfl, rfl⟩
    rw [agenda_act h he hquiet.2, hquiet.1, hbegun]
    simp

/-! ## The functors that come too late -/

/-- The functor `f` may run after `g`. -/
def Functor.MayFollow (f g : Functor) : Prop := ∀ c, g = .connectDestroy c → f.raw ≠ some c

/-- The connection was not destroyed, and this is its loop. -/
def Lives (s : TcpServer τ) (c : Nat) (l : τ) : Prop :=
  s.did c .connectDestroy = 0 ∧ ∃ conn, s.conns c = some conn ∧ conn.loop_ = l

/-- A functor with a raw pointer is to run in the loop of its connection, and not after the
connection was destroyed. -/
structure Timely (s : TcpServer τ) : Prop where
  order : ∀ l, (s.agenda l).Pairwise fun g f => f.MayFollow g
  alive : ∀ l f c, f ∈ s.agenda l → f.raw = some c → s.Lives c l

/-- The functor may be handed to the thread of the loop, before all others. -/
def MayGoFirst (s : TcpServer τ) (l : τ) (f : Functor) : Prop :=
  (∀ c, f.raw = some c → s.Lives c l) ∧
  ∀ c, f = .connectDestroy c → ∀ g ∈ s.agenda l, g.raw ≠ some c

/-- The functor may be queued in the loop, behind all others. -/
def MayGoLast (s : TcpServer τ) (l : τ) (f : Functor) : Prop := ∀ c, f.raw = some c →
  s.Lives c l ∧ .connectDestroy c ∉ s.agenda l

/-- The connection lives on in its loop. -/
def Goes (s s' : TcpServer τ) (c : Nat) : Prop := ∀ l, s.Lives c l → s'.Lives c l

omit [DecidableEq τ] in
theorem Timely.shrink (h : s.Timely) (hsub : ∀ m, (s'.agenda m).Sublist (s.agenda m))
    (hgoes : ∀ m f c, f ∈ s'.agenda m → f.raw = some c → Goes s s' c) : s'.Timely where
  order m := (h.order m).sublist (hsub m)
  alive m f c hf hraw := hgoes m f c hf hraw m (h.alive m f c ((hsub m).subset hf) hraw)

/-- A functor that is queued waits behind the others. -/
theorem timely_back_iff {l : τ} {f : Functor}
    (hagenda : ∀ m, s'.agenda m = s.agenda m ++ if m = l then [f] else [])
    (hlives : ∀ c m, s'.Lives c m ↔ s.Lives c m) : s'.Timely ↔ s.Timely ∧ s.MayGoLast l f := by
  constructor
  · intro h
    have hold : s.Timely := by
      refine h.shrink (fun m => ?_) fun _ _ c _ _ m => (hlives c m).mp
      rw [hagenda]
      exact List.sublist_append_left _ _
    refine ⟨hold, fun c hraw => ⟨?_, fun hin => ?_⟩⟩
    · rw [← hlives]
      refine h.alive l f c ?_ hraw
      rw [hagenda, if_pos rfl]
      exact List.mem_append_right _ (List.mem_singleton_self f)
    · have horder := h.order l
      rw [hagenda, if_pos rfl, List.pairwise_append] at horder
      exact horder.2.2 _ hin f (List.mem_singleton_self f) c rfl hraw
  · intro h
    obtain ⟨hold, hlast⟩ := h
    refine ⟨fun m => ?_, fun m g c hg hraw => ?_⟩
    · rw [hagenda, List.pairwise_append]
      refine ⟨hold.order m, ?_, fun g hg g' hg' c hc hraw => ?_⟩
      · split <;> simp
      · split at hg'
        · rename_i hm
          rw [List.mem_singleton.mp hg'] at hraw
          exact (hlast c hraw).2 (hm ▸ hc ▸ hg)
        · cases hg'
    · rw [hlives]
      rw [hagenda] at hg
      rcases List.mem_append.mp hg with hg | hg
      · exact hold.alive m g c hg hraw
      · split at hg
        · rename_i hm
          rw [List.mem_singleton.mp hg] at hraw
          exact hm ▸ (hlast c hraw).1
        · cases hg

/-- A functor that runs at once comes before the others. -/
theorem timely_front_iff {l : τ} {f : Functor}
    (hagenda : ∀ m, s'.agenda m = (if m = l then [f] else []) ++ s.agenda m)
    (hlives : ∀ c m, s'.Lives c m ↔ s.Lives c m) : s'.Timely ↔ s.Timely ∧ s.MayGoFirst l f := by
  constructor
  · intro h
    have hold : s.Timely := by
      refine h.shrink (fun m => ?_) fun _ _ c _ _ m => (hlives c m).mp
      rw [hagenda]
      exact List.sublist_append_right _ _
    refine ⟨hold, fun c hraw => ?_, fun c hc g hg hraw => ?_⟩
    · rw [← hlives]
      refine h.alive l f c ?_ hraw
      rw [hagenda, if_pos rfl]
      exact List.mem_append_left _ (List.mem_singleton_self f)
    · have horder := h.order l
      rw [hagenda, if_pos rfl, List.singleton_append, List.pairwise_cons] at horder
      exact horder.1 g hg c hc hraw
  · intro h
    obtain ⟨hold, hfirst, hlate⟩ := h
    refine ⟨fun m => ?_, fun m g c hg hraw => ?_⟩
    · rw [hagenda, List.pairwise_append]
      refine ⟨?_, hold.order m, fun g hg g' hg' c hc => ?_⟩
      · split <;> simp
      · split at hg
        · rename_i hm
          rw [List.mem_singleton.mp hg] at hc
          exact hlate c hc g' (hm ▸ hg')
        · cases hg
    · rw [hlives]
      rw [hagenda] at hg
      rcases List.mem_append.mp hg with hg | hg
      · split at hg
        · rename_i hm
          rw [List.mem_singleton.mp hg] at hraw
          exact hm ▸ hfirst c hraw
        · cases hg
      · exact hold.alive m g c hg hraw

/-- Whether the functor comes in time goes by the thread that hands it over. -/
theorem timely_runInLoop_iff (h : s.Threads) {t : τ} (hc : s.Calm t) (l : τ) (f : Functor) :
    (s.runInLoop t l f).Timely ↔
      s.Timely ∧ if t = l then s.MayGoFirst l f else s.MayGoLast l f := by
  have hlives : ∀ c m, (s.runInLoop t l f).Lives c m ↔ s.Lives c m := by
    intro c m
    unfold Lives
    rw [runInLoop_did, runInLoop_conns]
  by_cases htl : t = l
  · rw [if_pos htl]
    refine timely_front_iff (fun m => ?_) hlives
    rw [agenda_runInLoop h hc, if_pos htl]
    split <;> rfl
  · rw [if_neg htl]
    refine timely_back_iff (fun m => ?_) hlives
    rw [agenda_runInLoop h hc, if_neg htl]
    split
    · rfl
    · exact (List.append_nil _).symm

/-- A functor with no raw pointer that destroys nothing may come at any time. -/
theorem mayGo_of_plain {f : Functor} (hraw : f.raw = none) (hlate : ∀ c, f ≠ .connectDestroy c)
    (t l : τ) : if t = l then s.MayGoFirst l f else s.MayGoLast l f := by
  have hno : ∀ c, f.raw ≠ some c := by
    intro c
    rw [hraw]
    exact (Option.some_ne_none c).symm
  split
  · exact ⟨fun c hc => absurd hc (hno c), fun c hc => absurd hc (hlate c)⟩
  · exact fun c hc => absurd hc (hno c)

/-! ## The steps of the server -/

/-- A function that returns leaves the agenda as it is, or takes its functor off. -/
theorem Timely.pop (h : s.Timely) {t : τ} {fr : Frame τ} {rest : List (Frame τ)}
    (hs : s.stack t = fr :: rest) : (s.pop t rest).Timely := by
  refine h.shrink (fun m => ?_) fun _ _ _ _ _ _ => id
  rw [agenda_pop hs m]
  exact List.sublist_append_right _ _

omit [DecidableEq τ] in
/-- A step that changes no agenda and destroys no connection. -/
theorem Timely.same (h : s.Timely) (hagenda : ∀ m, s'.agenda m = s.agenda m)
    (hgoes : ∀ c, Goes s s' c) : s'.Timely :=
  h.shrink (fun m => (hagenda m).symm ▸ List.Sublist.refl _) fun _ _ c _ _ => hgoes c

omit [DecidableEq τ] in
/-- The calls of one connection leave every connection in its loop. -/
theorem goes_setConn {c : Nat} {conn conn' : ServerConnection τ} (hc : s.conns c = some conn)
    (hl : conn'.loop_ = conn.loop_) (c' : Nat) : Goes s (s.setConn c conn') c' := by
  rintro l ⟨hzero, conn₁, hc₁, rfl⟩
  refine ⟨hzero, ?_⟩
  by_cases he : c' = c
  · subst he
    rw [hc] at hc₁
    cases hc₁
    exact ⟨conn', Function.update_self _ _ _, hl⟩
  · exact ⟨conn₁, (Function.update_of_ne he _ _).trans hc₁, rfl⟩

omit [DecidableEq τ] in
theorem goes_note (t : τ) (c : Nat) {k : Step} (c' : Nat)
    (hk : c = c' → k ≠ .connectDestroy) : Goes s (s.note t c k) c' := by
  rintro l ⟨hzero, hconn⟩
  refine ⟨?_, hconn⟩
  rw [did_note, hzero, if_neg]
  rintro ⟨hc, rfl⟩
  exact hk hc rfl

/-- The new functions on the stack start no functor. -/
theorem Timely.push (h : s.Timely) (t : τ) {frames : List (Frame τ)}
    (hframes : frames.filterMap Frame.functor = []) : (s.push t frames).Timely := by
  refine h.same (fun m => ?_) fun _ _ => id
  rw [agenda_push, hframes, ite_self, List.nil_append]

/-- A functor with no raw pointer that destroys nothing is handed over. -/
theorem Timely.give (h : s.Timely) (hthreads : s.Threads) {t : τ} (hc : s.Calm t) (l : τ)
    {f : Functor} (hraw : f.raw = none) (hlate : ∀ c, f ≠ .connectDestroy c) :
    (s.runInLoop t l f).Timely :=
  (timely_runInLoop_iff hthreads hc l f).mpr ⟨h, mayGo_of_plain hraw hlate t l⟩

/-- `connectDestroy` runs. In the agenda of its thread no functor has a raw pointer to the
connection any more, and no other agenda has one at all. -/
theorem Timely.connectDestroy (h : s.Timely) (hinv : s.Inv False) {t : τ} {c : Nat}
    {rest : List (Frame τ)} {onDown : List Call}
    (hs : s.stack t = .call (.connectDestroy c) :: rest)
    (hok : (s.pop t rest).connectDestroy t onDown c = .ok s') : s'.Timely := by
  simp only [TcpServer.connectDestroy, deref, bind_eq_ok, demand_eq_ok, pure_eq_ok,
    Except.ok.injEq] at hok
  obtain ⟨conn, hc, c₁, _, rfl⟩ := hok
  have hhome : t = s.loopOf c := ((hinv.life c).token (k := .connectDestroy) hs).1
  refine (h.pop hs).shrink (fun m => List.Sublist.refl _) fun m f c' hf hraw => ?_
  have hne : c ≠ c' := by
    rintro rfl
    have hin : f ∈ s.agenda m := by
      rw [agenda_pop hs m]
      exact List.mem_append_right _ hf
    obtain ⟨_, conn', hc', hl⟩ := h.alive m f c hin hraw
    have hm : m = t := by
      rw [hhome, loopOf_some hc', hl]
    subst hm
    have horder := h.order m
    rw [agenda_pop hs m, if_pos rfl] at horder
    exact (List.pairwise_cons.mp horder).1 f hf c rfl hraw
  intro l hl
  exact goes_note t c c' (fun e => absurd e hne) l (goes_setConn hc (by rfl) c' l hl)

theorem Timely.newConnection (h : s.Timely) (hinv : s.Inv False) {t : τ} {sockfd : Int}
    {rest : List (Frame τ)} (hs : s.stack t = .accept :: rest)
    (hok : (s.pop t rest).newConnection t sockfd = .ok s') : s'.Timely := by
  have hcalm := hinv.calm hs (by simp)
  obtain ⟨ioLoop, nextId, rfl⟩ := newConnection.spec hok
  have htaken : ∀ conn : ServerConnection τ, ((s.pop t rest).take conn nextId).Threads :=
    fun conn => (hinv.threads.stack hcalm rest).same rfl rfl
  have hnew : ∀ conn : ServerConnection τ, ((s.pop t rest).take conn nextId).Timely := by
    intro conn
    refine (h.pop hs).same (fun _ => rfl) fun c l hl => ⟨hl.1, ?_⟩
    obtain ⟨_, conn₁, hc₁, rfl⟩ := hl
    have hold : c ≠ s.accepted := by
      rintro rfl
      have hnone : s.conns s.accepted = none := (hinv.books.fresh _).mpr (Nat.le_refl _)
      rw [show (s.pop t rest).conns s.accepted = s.conns s.accepted from rfl, hnone] at hc₁
      cases hc₁
    exact ⟨conn₁, (Function.update_of_ne hold _ _).trans hc₁, rfl⟩
  exact ((hnew _).push t rfl).give ((htaken _).push hcalm _) hcalm ioLoop rfl fun _ => by simp

/-- A removal destroys the connection at once where its loop is the one of the server, and
goes behind all functors otherwise. -/
theorem Timely.removeConnectionInLoop_iff (h : s.Timely) (hinv : s.Inv False) {t : τ} {c : Nat}
    {rest : List (Frame τ)} (hs : s.stack t = .call (.removeConnectionInLoop c) :: rest)
    (hok : ((s.pop t rest).push t [.holds c]).removeConnectionInLoop t c = .ok s') :
    s'.Timely ↔ (s.loopOf c = t → ∀ f ∈ s.agenda t, f.raw ≠ some c) := by
  have hcalm := hinv.calm hs (by simp)
  simp only [TcpServer.removeConnectionInLoop, deref, bind_eq_ok, demand_eq_ok, pure_eq_ok,
    Except.ok.injEq] at hok
  obtain ⟨conn, hc, rfl⟩ := hok
  have hloop : s.loopOf c = conn.loop_ := loopOf_some hc
  have hthreads : ((((s.pop t rest).push t [.holds c]).forget conn.name_).note t c
      .removeConnectionInLoop).Threads :=
    ((hinv.threads.stack hcalm rest).push hcalm _).same rfl rfl
  have hheld : ((((s.pop t rest).push t [.holds c]).forget conn.name_).note t c
      .removeConnectionInLoop).Timely := by
    refine ((h.pop hs).push t rfl).same (fun _ => rfl) fun c' l hl => ?_
    exact goes_note t c c' (fun _ => by simp) l hl
  have hagenda : ((((s.pop t rest).push t [.holds c]).forget conn.name_).note t c
      .removeConnectionInLoop).agenda t = (s.pop t rest).agenda t := by
    refine (agenda_push (s.pop t rest) t [.holds c] t).trans ?_
    rw [if_pos rfl]
    rfl
  refine (timely_runInLoop_iff hthreads hcalm conn.loop_ (.connectDestroy c)).trans ?_
  rw [agenda_pop hs t, if_pos rfl]
  constructor
  · intro hgo hself f hf
    have hgo := hgo.2
    rw [if_pos (hself.symm.trans hloop)] at hgo
    rcases List.mem_append.mp hf with hf | hf
    · rw [List.mem_singleton.mp hf]
      exact (Option.some_ne_none c).symm
    · refine hgo.2 c rfl f ?_
      rw [← hloop, hself, hagenda]
      exact hf
  · intro hno
    refine ⟨hheld, ?_⟩
    split
    · rename_i htl
      refine ⟨fun c' hc' => (Option.some_ne_none c' hc'.symm).elim, ?_⟩
      rintro c' ⟨⟩ f hf
      rw [← htl, hagenda] at hf
      exact hno (hloop.trans htl.symm) f (List.mem_append_right _ hf)
    · exact fun c' hc' => (Option.some_ne_none c' hc'.symm).elim

theorem Timely.handler (h : s.Timely) {t : τ} {inp : Input} {c : Nat} {cb : Callback}
    {cbs : List Callback} {rest : List (Frame τ)}
    (hs : s.stack t = .handleEvent c (cb :: cbs) :: rest)
    (hok : ((s.pop t rest).push t [.handleEvent c cbs]).runCallback t inp c cb = .ok s') :
    s'.Timely := by
  simp only [runCallback, deref, bind_eq_ok, demand_eq_ok, pure_eq_ok, Except.ok.injEq] at hok
  obtain ⟨conn, hc, ⟨c₁, closed⟩, _, rfl⟩ := hok
  have hframe := agenda_push (s.pop t rest) t [.handleEvent c cbs]
  have hset : ∀ c', Goes (s.pop t rest) ((((s.pop t rest).push t [.handleEvent c cbs]).setConn c
      { conn with conn := c₁ }).note t c .handler) c' :=
    fun c' l hl => goes_note t c c' (fun _ => by simp) l (goes_setConn hc (by rfl) c' l hl)
  cases closed with
  | false =>
    refine (h.pop hs).same (fun m => ?_) hset
    refine (hframe m).trans ?_
    split <;> rfl
  | true =>
    refine (h.pop hs).same (fun m => ?_) fun c' l hl =>
      goes_note t c c' (fun _ => by simp) l (hset c' l hl)
    refine (agenda_push _ t [.closeCallback c] m).trans ?_
    refine (congrArg _ (hframe m)).trans ?_
    split <;> rfl

theorem Timely.callReturns (h : s.Timely) (l t : τ) : (s.act l (.callReturns t)).Timely := by
  refine h.same (fun m => ?_) fun _ _ => id
  unfold agenda act
  by_cases hm : m = l
  · subst hm
    simp only [Function.update_self, EventLoop.Act.apply, EventLoop.waiting_callReturns]
  · simp only [Function.update_of_ne hm]

omit [DecidableEq τ] in
theorem Timely.onConn (h : s.Timely) {c : Nat} {f : TcpConnection → Outcome TcpConnection}
    (hok : s.onConn c f = .ok s') : s'.Timely := by
  simp only [TcpServer.onConn, deref, bind_eq_ok, demand_eq_ok, pure_eq_ok, Except.ok.injEq] at hok
  obtain ⟨conn, hc, _, _, rfl⟩ := hok
  exact h.same (fun _ => rfl) (goes_setConn hc rfl)

/-- The thread may hand over a functor with a raw pointer to the connection: it was not
destroyed, and where the functor is to be queued, that is not due either. -/
def MayBind (s : TcpServer τ) (t : τ) (c : Nat) : Prop :=
  s.did c .connectDestroy = 0 ∧
    (t ≠ s.loopOf c → .connectDestroy c ∉ s.agenda (s.loopOf c))

theorem Timely.runInItsLoop_iff (h : s.Timely) (hthreads : s.Threads) {t : τ} (hcalm : s.Calm t)
    {c : Nat} {f : Functor} (hraw : f.raw = some c) (hok : s.runInItsLoop t c f = .ok s') :
    s'.Timely ↔ s.MayBind t c := by
  simp only [TcpServer.runInItsLoop, deref, bind_eq_ok, demand_eq_ok, pure_eq_ok,
    Except.ok.injEq] at hok
  obtain ⟨conn, hc, rfl⟩ := hok
  have hloop := loopOf_some hc
  have hlives : s.Lives c conn.loop_ ↔ s.did c .connectDestroy = 0 :=
    ⟨fun hl => hl.1, fun hzero => ⟨hzero, conn, hc, rfl⟩⟩
  refine (timely_runInLoop_iff hthreads hcalm conn.loop_ f).trans ?_
  unfold MayBind
  rw [hloop, ← hlives]
  by_cases htl : t = conn.loop_
  · rw [if_pos htl]
    refine ⟨fun hgo => ⟨hgo.2.1 c hraw, fun hne => absurd htl hne⟩, fun hgo => ⟨h, ?_, ?_⟩⟩
    · intro c' hc'
      rw [hraw] at hc'
      cases hc'
      exact hgo.1
    · rintro c' rfl
      cases hraw
  · rw [if_neg htl]
    refine ⟨fun hgo => ⟨(hgo.2 c hraw).1, fun _ => (hgo.2 c hraw).2⟩, fun hgo => ⟨h, ?_⟩⟩
    intro c' hc'
    rw [hraw] at hc'
    cases hc'
    exact ⟨hgo.1, hgo.2 htl⟩

theorem Timely.setDisconnecting (h : s.Timely) {t : τ} {c : Nat}
    (hok : s.setDisconnecting t c = .ok s') : s'.Timely := by
  simp only [TcpServer.setDisconnecting, deref, bind_eq_ok, demand_eq_ok, pure_eq_ok,
    Except.ok.injEq] at hok
  obtain ⟨conn, hc, rfl⟩ := hok
  have hset : ∀ c₁, (s.setConn c { conn with conn := c₁ }).Timely :=
    fun c₁ => h.same (fun _ => rfl) (goes_setConn hc rfl)
  exact (hset _).push t rfl

/-- The function makes no functor come too late: a functor is handed over before the
connection is to be destroyed, and no removal overtakes one in the loop of the server. -/
def Frame.InTime (s : TcpServer τ) (t : τ) : Frame τ → Prop
  | .call (.removeConnectionInLoop c) => s.loopOf c = t → ∀ f ∈ s.agenda t, f.raw ≠ some c
  | .send c _ | .shutdown c => s.MayBind t c
  | _ => True

/-- From a state where all functors are in time, a function on a stack leads to another
one exactly if it is in time itself. -/
theorem Timely.resume_iff (h : s.Timely) (hinv : s.Inv False) {t : τ} {inp : Input}
    {fr : Frame τ} {rest : List (Frame τ)} (hs : s.stack t = fr :: rest)
    (hok : (s.pop t rest).resume t inp fr = .ok s') : s'.Timely ↔ fr.InTime s t := by
  have hpop := h.pop hs
  have hplain : ∀ {p : Prop}, s'.Timely → p → (s'.Timely ↔ p) :=
    fun h' hp => ⟨fun _ => hp, fun _ => h'⟩
  -- a call of the user is no functor, so the agenda is as before
  have hbind : ∀ c, fr.functor = none → ((s.pop t rest).MayBind t c ↔ s.MayBind t c) := by
    intro c hfr
    unfold MayBind
    rw [agenda_pop hs, hfr, Option.toList_none, ite_self, List.nil_append]
    rfl
  cases fr with
  | accept =>
    simp only [TcpServer.resume] at hok
    split at hok
    · exact hplain (h.newConnection hinv hs hok) trivial
    · cases hok
      exact hplain hpop trivial
  | call f =>
    cases f with
    | connectEstablished c =>
      simp only [TcpServer.resume, TcpServer.runFunctor, TcpServer.connectEstablished, deref,
        bind_eq_ok, demand_eq_ok, pure_eq_ok, Except.ok.injEq] at hok
      obtain ⟨conn, hc, c₁, _, rfl⟩ := hok
      refine hplain (hpop.same (fun _ => rfl) fun c' l hl => ?_) trivial
      exact goes_note t c c' (fun _ => by simp) l (goes_setConn hc (by rfl) c' l hl)
    | removeConnectionInLoop c => exact h.removeConnectionInLoop_iff hinv hs hok
    | connectDestroy c => exact hplain (h.connectDestroy hinv hs hok) trivial
    | sendInLoop c message => exact hplain (hpop.onConn hok) trivial
    | shutdownInLoop c =>
      exact hplain (hpop.onConn (c := c) (f := fun conn => pure conn.shutdownInLoop) hok) trivial
    | other n =>
      cases hok
      exact hplain hpop trivial
  | holds c =>
    cases hok
    exact hplain hpop trivial
  | handleEvent c cbs =>
    cases cbs with
    | nil =>
      cases hok
      exact hplain hpop trivial
    | cons cb cbs => exact hplain (h.handler hs hok) trivial
  | closeCallback c =>
    have hcalm := hinv.calm hs (by simp)
    cases hok
    have hthreads : ((s.pop t rest).push t [.holds c]).Threads :=
      (hinv.threads.stack hcalm rest).push hcalm _
    exact hplain ((hpop.push t rfl).give hthreads hcalm _ rfl fun _ => by simp) trivial
  | send c message =>
    have hcalm := hinv.calm hs (by simp)
    have hthreads := hinv.threads.stack hcalm rest
    exact (hpop.runInItsLoop_iff hthreads hcalm rfl hok).trans (hbind c rfl)
  | setState c => exact hplain (hpop.setDisconnecting hok) trivial
  | shutdown c =>
    have hcalm := hinv.calm hs (by simp)
    have hthreads := hinv.threads.stack hcalm rest
    exact (hpop.runInItsLoop_iff hthreads hcalm rfl hok).trans (hbind c rfl)
  | returns l =>
    cases hok
    exact hplain (hpop.callReturns l t) trivial

/-- The step makes no functor come too late. -/
def Act.InTime (s : TcpServer τ) : Act τ → Prop
  | .go t _ => ∀ fr rest, s.stack t = fr :: rest → fr.InTime s t
  | _ => True

/-- From a state where all functors are in time, a step leads to another one exactly if it
is in time itself. -/
theorem Timely.step_iff (h : s.Timely) (hinv : s.Inv False) {a : Act τ}
    (he : a.Enabled s) (hok : a.run s = .ok s') : s'.Timely ↔ a.InTime s := by
  have hplain : ∀ {p : Prop}, s'.Timely → p → (s'.Timely ↔ p) :=
    fun h' hp => ⟨fun _ => hp, fun _ => h'⟩
  cases a with
  | loop l a alive revents =>
    obtain ⟨hcaller, hloop, hs, _, _⟩ := he
    cases hok
    exact hplain (h.same (agenda_loop hinv.threads hcaller hloop hs) fun _ _ => id) trivial
  | go t inp =>
    simp only [Act.run, go] at hok
    split at hok
    · rename_i hs
      exact absurd hs he
    · rename_i fr rest hs
      refine (h.resume_iff hinv hs hok).trans ⟨fun hintime fr' rest' hs' => ?_, fun hintime => ?_⟩
      · rw [hs] at hs'
        cases hs'
        exact hintime
      · exact hintime fr rest hs
  | send t c message w =>
    simp only [Act.run, send, deref, bind_eq_ok, demand_eq_ok] at hok
    obtain ⟨conn, _, hok⟩ := hok
    split at hok
    · split at hok
      · exact hplain (h.onConn hok) trivial
      · cases hok
        exact hplain (h.push t rfl) trivial
    · cases hok
      exact hplain h trivial
  | shutdown t c =>
    simp only [Act.run, shutdown, deref, bind_eq_ok, demand_eq_ok] at hok
    obtain ⟨conn, _, hok⟩ := hok
    split at hok
    · cases hok
      exact hplain (h.push t rfl) trivial
    · cases hok
      exact hplain h trivial
  | queueInLoop t l n =>
    cases hok
    have hlast : s.MayGoLast l (.other n) := fun c hc => (Option.some_ne_none c hc.symm).elim
    have hagenda : ∀ m, ((s.act l (.queueInLoop t (.other n))).push t [.returns l]).agenda m =
        s.agenda m ++ if m = l then [.other n] else [] := by
      intro m
      rw [agenda_push, agenda_act (a := .queueInLoop t (.other n)) hinv.threads he.2 rfl]
      split <;> simp [Frame.functor, EventLoop.Act.queued]
    exact hplain ((timely_back_iff hagenda fun _ _ => Iff.rfl).mpr ⟨h, hlast⟩) trivial
  | quit t l =>
    cases hok
    refine hplain (h.same (fun m => ?_) fun _ _ => id) trivial
    rw [agenda_push, agenda_act (a := .quit t) hinv.threads he.2 rfl]
    split <;> simp [Frame.functor, EventLoop.Act.queued]

/-- In time, whatever a loop has still to run is of connections that are not gone. -/
theorem Timely.held (h : s.Timely) (hinv : s.Inv False) {l : τ} {f : Functor} {c : Nat}
    (hf : f ∈ s.agenda l) (hraw : f.raw = some c) : s.Held c := by
  obtain ⟨hzero, conn, hc, _⟩ := h.alive l f c hf hraw
  exact (hinv.life c).held hc hzero

omit [DecidableEq τ] in
theorem construct_timely (loop : τ) (loops : List τ) (name : String) :
    (construct loop loops name).Timely := by
  refine ⟨fun l => ?_, fun l f c hf => ?_⟩
  · exact List.Pairwise.nil
  · cases hf

/-- The runs in which no functor with a raw pointer ever is to run after the destruction of
its connection are exactly those whose steps are all in time, and in them each such functor
finds its connection alive. -/
theorem raw_functors_find_their_connections_exactly_in_the_runs_in_time {loop : τ}
    {loops : List τ} {name : String} (as : List (Act τ)) :
    ((((machine loop loops name).restrict Few).restrict fun s a _ => a.InTime s).Run
      (construct loop loops name) as s ↔
    (((machine loop loops name).restrict Few).restrict fun _ _ s' => s'.Timely).Run
      (construct loop loops name) as s) ∧
    ((((machine loop loops name).restrict Few).restrict fun s a _ => a.InTime s).Run
      (construct loop loops name) as s →
      ∀ l f c, f ∈ s.agenda l → f.raw = some c →
        s.Held c ∧ s.did c .connectDestroy = 0) := by
  have hstart : (construct loop loops name).Inv False := construct_inv loop loops name
  have hstep : ∀ s a s', s.Inv False → ((machine loop loops name).restrict Few).step s a s' →
      s'.Inv False := by
    rintro s a s' hs ⟨⟨he, hok⟩, hbound⟩
    exact hs.step he hok False.elim hbound
  have hintime : ∀ s a s', s.Inv False → s.Timely →
      ((machine loop loops name).restrict Few).step s a s' → (s'.Timely ↔ a.InTime s) := by
    rintro s a s' hs htimely ⟨⟨he, hok⟩, _⟩
    exact htimely.step_iff hs he hok
  refine ⟨Machine.Run.good_iff hstart (construct_timely loop loops name) hstep hintime,
    fun hrun l f c hf hraw => ?_⟩
  have hinv : s.Inv False := reachable_inv ⟨_, as, rfl, hrun.of_restrict⟩
  have htimely : s.Timely := by
    refine hrun.keeps (P := fun s => s.Inv False ∧ s.Timely) ?_
      ⟨hstart, construct_timely loop loops name⟩ |>.2
    rintro u a v ⟨hu, hgood⟩ ⟨hst, ha⟩
    exact ⟨hstep u a v hu hst, (hintime u a v hu hgood hst).mpr ha⟩
  exact ⟨htimely.held hinv hf hraw, (htimely.alive l f c hf hraw).1⟩

/-- A loop is about to send a message, and nothing refers to the connection. -/
def Late (as : List (Act Bool)) (s : TcpServer Bool) : Prop :=
  ((machine false [] "server").restrict Few).Run (construct false [] "server") as s ∧
  s.stack false = [.call (.sendInLoop 0 ⟨[], Nat.two_pow_pos 31⟩)] ∧ ¬ s.Held 0

theorem late_of_rest {as : List (Act Bool)} {s : TcpServer Bool}
    (h : ((machine false [] "server").restrict Few).Run (construct false [] "server") as s)
    (hcall : s.stack false = [.call (.sendInLoop 0 ⟨[], Nat.two_pow_pos 31⟩)])
    (hmap : ∀ n, s.connections_.find n = none)
    (hloops : ∀ l, (s.loop l).pendingFunctors_ = [] ∧ (s.loop l).functors = [])
    (hstacks : ∀ t, s.stack t = [] ∨
      s.stack t = [.call (.sendInLoop 0 ⟨[], Nat.two_pow_pos 31⟩)]) : Late as s := by
  refine ⟨h, hcall, ?_⟩
  rintro (⟨n, hn⟩ | ⟨l, f, hf, _⟩ | ⟨t, fr, hfr, hrefs⟩)
  · rw [hmap n] at hn
    cases hn
  · rw [(hloops l).1, (hloops l).2] at hf
    simp at hf
  · rcases hstacks t with e | e
    · rw [e] at hfr
      cases hfr
    · rw [e, List.mem_singleton] at hfr
      rw [hfr] at hrefs
      cases hrefs

/-- A server with no other loop destroys a connection while a message for it waits. -/
theorem exists_late : ∃ as s, Late as s := by
  have h0 : ((machine false [] "server").restrict Few).Run (construct false [] "server") []
    (construct false [] "server") := .nil
  have h1 := h0.snoc (a := .loop false .loop false 0)
    (by exact ⟨⟨⟨rfl, ⟨⟨rfl, rfl⟩, rfl⟩, rfl, by simp, by simp⟩, rfl⟩, by decide⟩)
  have h2 := h1.snoc (a := .loop false .clearQuit false 0)
    (by exact ⟨⟨⟨rfl, ⟨rfl, rfl⟩, rfl, by simp, by simp⟩, rfl⟩, by decide⟩)
  have h3 := h2.snoc (a := .loop false .whileTest false 0)
    (by exact ⟨⟨⟨rfl, ⟨rfl, rfl⟩, rfl, by simp, by simp⟩, rfl⟩, by decide⟩)
  have hacceptor : ∀ s : TcpServer Bool, s.loop_ = false → ∀ active, (.poll [.acceptor] :
      EventLoop.Act Bool ChannelId Functor) = .poll active → ∀ ch ∈ active, s.Polled false ch := by
    rintro s hs _ ⟨⟩ ch hch
    rw [List.mem_singleton.mp hch]
    exact hs.symm
  have h4 := h3.snoc (a := .loop false (.poll [.acceptor]) false 0)
    (by exact ⟨⟨⟨rfl, ⟨rfl, rfl⟩, rfl, hacceptor _ rfl, by simp⟩, rfl⟩, by decide⟩)
  have h5 := h4.snoc (a := .loop false .handleEvent false 0)
    (by exact ⟨⟨⟨rfl, ⟨⟨rfl, rfl⟩, by decide⟩, rfl, by simp, fun c cs _ hc => by cases hc⟩, rfl⟩,
      by decide⟩)
  have h6 := h5.snoc (a := .go false { quiet with sockfd := some 5 })
    (by exact ⟨⟨List.cons_ne_nil Frame.accept _, rfl⟩, by decide⟩)
  have h7 := h6.snoc (a := .go false quiet)
    (by exact ⟨⟨List.cons_ne_nil (Frame.call (.connectEstablished 0)) _, rfl⟩, by decide⟩)
  have h8 := h7.snoc (a := .go false quiet)
    (by exact ⟨⟨List.cons_ne_nil (Frame.holds 0) _, rfl⟩, by decide⟩)
  have h9 := h8.snoc (a := .loop false .handlerReturns false 0)
    (by exact ⟨⟨⟨rfl, ⟨rfl, rfl⟩, rfl, by simp, by simp⟩, rfl⟩, by decide⟩)
  have h10 := h9.snoc (a := .loop false .doPendingFunctors_ false 0)
    (by exact ⟨⟨⟨rfl, ⟨⟨rfl, rfl⟩, rfl⟩, rfl, by simp, by simp⟩, rfl⟩, by decide⟩)
  have h11 := h10.snoc (a := .loop false .swap false 0)
    (by exact ⟨⟨⟨rfl, ⟨rfl, rfl⟩, rfl, by simp, by simp⟩, rfl⟩, by decide⟩)
  have h12 := h11.snoc (a := .loop false .clearCalling false 0)
    (by exact ⟨⟨⟨rfl, ⟨⟨rfl, rfl⟩, rfl⟩, rfl, by simp, by simp⟩, rfl⟩, by decide⟩)
  have h13 := h12.snoc (a := .loop false .whileTest false 0)
    (by exact ⟨⟨⟨rfl, ⟨rfl, rfl⟩, rfl, by simp, by simp⟩, rfl⟩, by decide⟩)
  have hconnection : ∀ s : TcpServer Bool, (∃ conn, s.conns 0 = some conn ∧ conn.loop_ = false ∧
      conn.registered = true) → ∀ active, (.poll [.connection 0] : EventLoop.Act Bool ChannelId
      Functor) = .poll active → ∀ ch ∈ active, s.Polled false ch := by
    rintro s hs _ ⟨⟩ ch hch
    rw [List.mem_singleton.mp hch]
    exact hs
  have h14 := h13.snoc (a := .loop false (.poll [.connection 0]) false 0)
    (by exact ⟨⟨⟨rfl, ⟨rfl, rfl⟩, rfl, hconnection _ ⟨_, rfl, rfl, rfl⟩, by simp⟩, rfl⟩,
      by decide⟩)
  -- another thread sends, and the peer hangs up
  have h15 := h14.snoc (a := .send true 0 ⟨[], Nat.two_pow_pos 31⟩ (.failed 0))
    (by exact ⟨⟨⟨Or.inl rfl, fun fr rest hr => by cases hr⟩, rfl⟩, by decide⟩)
  have h16 := h15.snoc (a := .go true quiet)
    (by exact ⟨⟨List.cons_ne_nil (Frame.send 0 ⟨[], Nat.two_pow_pos 31⟩) _, rfl⟩, by decide⟩)
  have h17 := h16.snoc (a := .go true quiet)
    (by exact ⟨⟨List.cons_ne_nil (Frame.returns false) _, rfl⟩, by decide⟩)
  have h18 := h17.snoc (a := .loop false .handleEvent true POLLHUP)
    (by exact ⟨⟨⟨rfl, ⟨⟨rfl, rfl⟩, by decide⟩, rfl, by simp, fun c cs _ hc => by
      cases hc
      exact ⟨fun _ => Or.inl ⟨"server#1", rfl⟩, fun _ => rfl⟩⟩, rfl⟩, by decide⟩)
  have h19 := h18.snoc (a := .go false quiet)
    (by exact ⟨⟨List.cons_ne_nil (Frame.handleEvent 0 (dispatched POLLHUP)) _, rfl⟩, by decide⟩)
  have h20 := h19.snoc (a := .go false quiet)
    (by exact ⟨⟨List.cons_ne_nil (Frame.closeCallback 0) _, rfl⟩, by decide⟩)
  have h21 := h20.snoc (a := .go false quiet)
    (by exact ⟨⟨List.cons_ne_nil (Frame.call (.removeConnectionInLoop 0)) _, rfl⟩, by decide⟩)
  have h22 := h21.snoc (a := .go false quiet)
    (by exact ⟨⟨List.cons_ne_nil (Frame.call (.connectDestroy 0)) _, rfl⟩, by decide⟩)
  have h23 := h22.snoc (a := .go false quiet)
    (by exact ⟨⟨List.cons_ne_nil (Frame.holds 0) _, rfl⟩, by decide⟩)
  have h24 := h23.snoc (a := .go false quiet)
    (by exact ⟨⟨List.cons_ne_nil (Frame.holds 0) _, rfl⟩, by decide⟩)
  have h25 := h24.snoc (a := .go false quiet)
    (by exact ⟨⟨List.cons_ne_nil (Frame.handleEvent 0 [.readCallback_]) _, rfl⟩, by decide⟩)
  have h26 := h25.snoc (a := .go false quiet)
    (by exact ⟨⟨List.cons_ne_nil (Frame.handleEvent 0 []) _, rfl⟩, by decide⟩)
  have h27 := h26.snoc (a := .loop false .handlerReturns false 0)
    (by exact ⟨⟨⟨rfl, ⟨rfl, rfl⟩, rfl, by simp, by simp⟩, rfl⟩, by decide⟩)
  have h28 := h27.snoc (a := .loop false .doPendingFunctors_ false 0)
    (by exact ⟨⟨⟨rfl, ⟨⟨rfl, rfl⟩, rfl⟩, rfl, by simp, by simp⟩, rfl⟩, by decide⟩)
  have h29 := h28.snoc (a := .loop false .swap false 0)
    (by exact ⟨⟨⟨rfl, ⟨rfl, rfl⟩, rfl, by simp, by simp⟩, rfl⟩, by decide⟩)
  have h30 := h29.snoc (a := .loop false .callFunctor false 0)
    (by exact ⟨⟨⟨rfl, ⟨⟨rfl, rfl⟩, List.cons_ne_nil _ _⟩, rfl, by simp, by simp⟩, rfl⟩, by decide⟩)
  refine ⟨_, _, late_of_rest h30 rfl (fun n => ?_) (fun l => ?_) fun t => ?_⟩
  · show Map.find (AList.erase (connName "server" 1) (AList.insert (connName "server" 1) 0 ∅)) n =
      none
    rw [Map.find_erase]
    split
    · rfl
    · rename_i hne
      rw [Map.find_insert_ne hne, Map.find_empty]
  · cases l <;> exact ⟨rfl, rfl⟩
  · cases t
    · exact Or.inr rfl
    · exact Or.inl rfl

/-- The message is sent on a connection that is gone, so the run was not in time. -/
theorem a_message_is_sent_on_a_destroyed_connection : ∃ as, ∃ s : TcpServer Bool, Late as s ∧
    ¬ (((machine false [] "server").restrict Few).restrict fun s a _ => a.InTime s).Run
      (construct false [] "server") as s := by
  obtain ⟨as, s, h⟩ := exists_late
  refine ⟨as, s, h, fun hrun => h.2.2 ?_⟩
  have hlaw := (raw_functors_find_their_connections_exactly_in_the_runs_in_time as).2 hrun
  refine (hlaw false (.sendInLoop 0 ⟨[], Nat.two_pow_pos 31⟩) 0 ?_ rfl).1
  unfold agenda
  rw [h.2.1]
  exact List.mem_append_left _ (List.mem_singleton_self _)

end

end TcpServer

end jmuduo.net
