-- The names of the connections of a server: its map holds exactly the live
-- connections as long as the counter of the names meets no live one again.
import Jmuduo.ServerCalls
import Mathlib

open outcome runs maps

namespace jmuduo.net

namespace TcpServer

variable {τ : Type} [DecidableEq τ]

/-! ## The bookings -/

/-- The connection was accepted under the name, and not removed since. -/
def Live (s : TcpServer τ) (c : Nat) (name : String) : Prop :=
  (∃ conn, s.conns c = some conn ∧ conn.name_ = name) ∧ s.did c .removeConnectionInLoop = 0

/-- The map holds exactly the live connections, each under its own name. -/
def Listed (s : TcpServer τ) : Prop :=
  ∀ name c, s.connections_.find name = some c ↔ s.Live c name

/-- What the server books is the same in both states. -/
structure SameBooks (s s' : TcpServer τ) : Prop where
  name : s'.name_ = s.name_
  accepted : s'.accepted = s.accepted
  number : s'.nextConnId_ = s.nextConnId_
  connections : s'.connections_ = s.connections_
  conns : ∀ c, (s'.conns c).map (·.name_) = (s.conns c).map (·.name_)
  removed : ∀ c, s'.did c .removeConnectionInLoop = s.did c .removeConnectionInLoop

/-- A step of the server, by what it books. -/
inductive Booking (τ : Type)
  | newConnection (t : τ) (sockfd : Int)
  | removeConnectionInLoop (t : τ) (c : Nat)
  | other

/-- Any order of `newConnection` and `removeConnectionInLoop`, each connection
removed at most once, with any steps between them that book nothing. -/
def bookings (loop : τ) (loops : List τ) (name : String) : Machine (TcpServer τ) (Booking τ) where
  init s := s = construct loop loops name
  step s b s' :=
    match b with
    | .newConnection t sockfd => s.newConnection t sockfd = .ok s'
    | .removeConnectionInLoop t c =>
      (∃ name, s.Live c name) ∧ s.removeConnectionInLoop t c = .ok s'
    | .other => SameBooks s s'

/-- The counter of the names has not come round to the number of a live
connection when a new one takes it. -/
def Booking.Unused (s : TcpServer τ) : Booking τ → Prop
  | .newConnection _ _ => ∀ c name, s.Live c name → s.accepted % 2 ^ 32 ≠ c % 2 ^ 32
  | _ => True

/-- The connections so far are those that were accepted, each with its number
in its name. -/
structure Counted (s : TcpServer τ) : Prop where
  fresh : ∀ c, s.conns c = none ↔ s.accepted ≤ c
  unborn : ∀ c, s.accepted ≤ c → s.did c .removeConnectionInLoop = 0
  names : ∀ c conn, s.conns c = some conn → conn.name_ = connName s.name_ (toInt (c + 1))
  number : s.nextConnId_ = toInt (s.accepted + 1)

/-! ## The numbers -/

theorem toInt_add_one (n : Int) : toInt (toInt n + 1) = toInt (n + 1) := by
  unfold toInt
  exact Int.bmod_add_bmod

theorem toInt_eq_toInt (a b : Nat) :
    toInt (a + 1) = toInt (b + 1) ↔ a % 2 ^ 32 = b % 2 ^ 32 := by
  unfold toInt Int.bmod
  push_cast
  split_ifs <;> omega

theorem connName_eq_connName (name : String) (a b : Int) :
    connName name a = connName name b ↔ a = b := by
  unfold connName
  rw [String.append_right_inj, String.append_right_inj]
  exact Int.repr_inj

omit [DecidableEq τ] in
/-- The next name is the name of the connections that were accepted a multiple
of `2 ^ 32` before. -/
theorem Counted.nextName {s : TcpServer τ} (h : s.Counted) {c : Nat} {name : String}
    (hc : s.Live c name) :
    name = connName s.name_ s.nextConnId_ ↔ s.accepted % 2 ^ 32 = c % 2 ^ 32 := by
  obtain ⟨⟨conn, hconn, rfl⟩, _⟩ := hc
  rw [h.names c conn hconn, h.number, connName_eq_connName, toInt_eq_toInt, eq_comm]

/-! ## What a booking does -/

omit [DecidableEq τ] in
theorem SameBooks.live {s s' : TcpServer τ} (h : SameBooks s s') (c : Nat) (name : String) :
    s'.Live c name ↔ s.Live c name := by
  have hc := h.conns c
  unfold Live
  rw [h.removed]
  cases hold : s.conns c with
  | none =>
    cases hnew : s'.conns c with
    | none => simp
    | some conn' => simp [hold, hnew] at hc
  | some conn =>
    cases hnew : s'.conns c with
    | none => simp [hold, hnew] at hc
    | some conn' =>
      simp only [hold, hnew, Option.map_some, Option.some.injEq] at hc
      simp [hc]

omit [DecidableEq τ] in
theorem take_live {s : TcpServer τ} (h : s.Counted) (conn : ServerConnection τ) (nextId c : Nat)
    (name : String) :
    (s.take conn nextId).Live c name ↔ c = s.accepted ∧ name = conn.name_ ∨ s.Live c name := by
  have hnone : s.conns s.accepted = none := (h.fresh s.accepted).mpr le_rfl
  have hdid : (s.take conn nextId).did c .removeConnectionInLoop =
      s.did c .removeConnectionInLoop := rfl
  unfold Live
  rw [hdid]
  by_cases hc : c = s.accepted
  · subst hc
    have hconn : (s.take conn nextId).conns s.accepted = some conn := Function.update_self _ _ _
    have hzero := h.unborn s.accepted le_rfl
    simp [hconn, hnone, hzero, eq_comm]
  · have hconn : (s.take conn nextId).conns c = s.conns c := Function.update_of_ne hc _ _
    simp [hconn, hc]

omit [DecidableEq τ] in
theorem take_counted {s : TcpServer τ} (h : s.Counted) {conn : ServerConnection τ}
    (hname : conn.name_ = connName s.name_ s.nextConnId_) (nextId : Nat) :
    (s.take conn nextId).Counted := by
  have hnew : (s.take conn nextId).accepted = s.accepted + 1 := rfl
  refine ⟨fun c => ?_, fun c hc => h.unborn c (by omega), fun c conn' hc' => ?_, ?_⟩
  · by_cases hc : c = s.accepted
    · subst hc
      have hconn : (s.take conn nextId).conns s.accepted = some conn := Function.update_self _ _ _
      rw [hconn, hnew]
      simp
    · have hconn : (s.take conn nextId).conns c = s.conns c := Function.update_of_ne hc _ _
      rw [hconn, hnew, h.fresh]
      omega
  · by_cases hc : c = s.accepted
    · subst hc
      have hconn : (s.take conn nextId).conns s.accepted = some conn := Function.update_self _ _ _
      rw [hconn] at hc'
      cases hc'
      rw [hname, h.number]
      rfl
    · have hconn : (s.take conn nextId).conns c = s.conns c := Function.update_of_ne hc _ _
      exact h.names c conn' (hconn ▸ hc')
  · rw [hnew]
    show toInt (s.nextConnId_ + 1) = _
    rw [h.number, toInt_add_one]
    rfl

omit [DecidableEq τ] in
theorem SameBooks.trans {s s₁ s' : TcpServer τ} (h : SameBooks s s₁) (h' : SameBooks s₁ s') :
    SameBooks s s' :=
  ⟨h'.name.trans h.name, h'.accepted.trans h.accepted, h'.number.trans h.number,
    h'.connections.trans h.connections, fun c => (h'.conns c).trans (h.conns c),
    fun c => (h'.removed c).trans (h.removed c)⟩

theorem sameBooks_push (s : TcpServer τ) (t : τ) (frames : List (Frame τ)) :
    SameBooks s (s.push t frames) :=
  ⟨rfl, rfl, rfl, rfl, fun _ => rfl, fun _ => rfl⟩

theorem sameBooks_runInLoop (s : TcpServer τ) (t l : τ) (f : Functor) :
    SameBooks s (s.runInLoop t l f) := by
  refine ⟨?_, ?_, ?_, ?_, fun c => ?_, fun c => ?_⟩ <;> simp

omit [DecidableEq τ] in
theorem SameBooks.counted {s s' : TcpServer τ} (h : SameBooks s s') (hs : s.Counted) :
    s'.Counted := by
  refine ⟨fun c => ?_, fun c hc => ?_, fun c conn hc => ?_, ?_⟩
  · rw [h.accepted, ← hs.fresh, ← Option.map_eq_none_iff, h.conns, Option.map_eq_none_iff]
  · rw [h.removed]
    exact hs.unborn c (h.accepted ▸ hc)
  · have hmap := h.conns c
    rw [hc, Option.map_some] at hmap
    obtain ⟨conn₀, hc₀, hname⟩ := Option.map_eq_some_iff.mp hmap.symm
    rw [h.name, ← hname]
    exact hs.names c conn₀ hc₀
  · rw [h.number, h.accepted]
    exact hs.number

/-- A new connection joins the live ones, under the next name. -/
theorem newConnection_books {s s' : TcpServer τ} {t : τ} {sockfd : Int} (h : s.Counted)
    (hok : s.newConnection t sockfd = .ok s') :
    s'.Counted ∧ s'.name_ = s.name_ ∧ s'.accepted = s.accepted + 1 ∧
    s'.nextConnId_ = toInt (s.nextConnId_ + 1) ∧
    s'.connections_ = s.connections_.insert (connName s.name_ s.nextConnId_) s.accepted ∧
    ∀ c name, s'.Live c name ↔
      c = s.accepted ∧ name = connName s.name_ s.nextConnId_ ∨ s.Live c name := by
  obtain ⟨ioLoop, nextId, rfl⟩ := newConnection.spec hok
  have hsame := (sameBooks_push (s.take ⟨connName s.name_ s.nextConnId_, ioLoop, false,
    .construct sockfd false false⟩ nextId) t [.holds s.accepted]).trans
      (sameBooks_runInLoop _ t ioLoop (.connectEstablished s.accepted))
  refine ⟨hsame.counted (take_counted h rfl _), hsame.name, hsame.accepted, hsame.number,
    hsame.connections, fun c name => ?_⟩
  rw [hsame.live]
  exact take_live h _ _ c name

/-- A removal takes the connection from the live ones. -/
theorem removeConnectionInLoop_books {s s' : TcpServer τ} {t : τ} {c : Nat} (h : s.Counted)
    (hok : s.removeConnectionInLoop t c = .ok s') :
    s'.Counted ∧ s'.name_ = s.name_ ∧ s'.accepted = s.accepted ∧
    s'.nextConnId_ = s.nextConnId_ ∧ (∃ conn, s.conns c = some conn ∧
      s'.connections_ = s.connections_.erase conn.name_) ∧
    ∀ d name, s'.Live d name ↔ d ≠ c ∧ s.Live d name := by
  simp only [removeConnectionInLoop, deref, bind_eq_ok, demand_eq_ok] at hok
  obtain ⟨conn, hc, hok⟩ := hok
  cases hok
  have hsame := sameBooks_runInLoop
    (({ s with connections_ := s.connections_.erase conn.name_ } : TcpServer τ).note t c
      .removeConnectionInLoop) t conn.loop_ (.connectDestroy c)
  have hdid : ∀ d, (({ s with connections_ := s.connections_.erase conn.name_ } :
      TcpServer τ).note t c .removeConnectionInLoop).did d .removeConnectionInLoop =
      s.did d .removeConnectionInLoop + if c = d then 1 else 0 := by
    intro d
    rw [did_note]
    simp [did]
  refine ⟨hsame.counted ⟨h.fresh, fun d hd => ?_, h.names, h.number⟩, hsame.name,
    hsame.accepted, hsame.number, ⟨conn, hc, hsame.connections⟩, fun d name => ?_⟩
  · have hne : c ≠ d := by
      rintro rfl
      rw [(h.fresh c).mpr hd] at hc
      cases hc
    rw [hdid, if_neg hne, Nat.add_zero]
    exact h.unborn d hd
  · rw [hsame.live]
    unfold Live
    rw [hdid]
    by_cases hd : d = c
    · subst hd
      simp
    · rw [if_neg (Ne.symm hd), Nat.add_zero]
      exact (and_iff_right hd).symm

/-! ## The steps -/

theorem Counted.step {loop : τ} {loops : List τ} {name : String} {s s' : TcpServer τ}
    {b : Booking τ} (h : s.Counted) (hs : (bookings loop loops name).step s b s') :
    s'.Counted := by
  cases b with
  | newConnection t sockfd => exact (newConnection_books h hs).1
  | removeConnectionInLoop t c => exact (removeConnectionInLoop_books h hs.2).1
  | other => exact SameBooks.counted hs h

/-- From a map that lists the live connections, a step leads to one that does
exactly when a new connection takes an unused name. -/
theorem step_listed_iff {loop : τ} {loops : List τ} {name : String} {s s' : TcpServer τ}
    {b : Booking τ} (h : s.Counted) (hl : s.Listed)
    (hs : (bookings loop loops name).step s b s') : s'.Listed ↔ b.Unused s := by
  cases b with
  | newConnection t sockfd =>
    obtain ⟨_, _, _, _, hmap, hlive⟩ := newConnection_books h hs
    constructor
    · -- the new connection and the old one are both under the name
      intro hl' c n hc hnumber
      obtain rfl := (h.nextName hc).mpr hnumber
      have hold := (hl' _ _).mpr ((hlive c _).mpr (Or.inr hc))
      have hnew := (hl' _ _).mpr ((hlive s.accepted _).mpr (Or.inl ⟨rfl, rfl⟩))
      rw [hnew, Option.some.injEq] at hold
      obtain ⟨⟨conn, hconn, _⟩, _⟩ := hc
      rw [← hold, (h.fresh s.accepted).mpr le_rfl] at hconn
      cases hconn
    · intro hunused n c
      rw [hmap, Map.find_insert, hlive]
      split
      · rename_i hn
        subst hn
        constructor
        · intro e
          cases e
          exact Or.inl ⟨rfl, rfl⟩
        · rintro (⟨rfl, _⟩ | hc)
          · rfl
          · exact absurd ((h.nextName hc).mp rfl) (hunused c _ hc)
      · rename_i hn
        rw [hl n c]
        exact (or_iff_right fun hc => hn hc.2).symm
  | removeConnectionInLoop t c =>
    obtain ⟨⟨n₀, hc⟩, hok⟩ := hs
    obtain ⟨_, _, _, _, ⟨conn, hconn, hmap⟩, hlive⟩ := removeConnectionInLoop_books h hok
    refine iff_of_true (fun n d => ?_) trivial
    have hname : s.Live c conn.name_ := ⟨⟨conn, hconn, rfl⟩, hc.2⟩
    rw [hmap, Map.find_erase, hlive]
    split
    · rename_i hn
      subst hn
      constructor
      · intro hnone
        cases hnone
      · rintro ⟨hne, hd⟩
        have hold := (hl _ _).mpr hname
        rw [(hl _ _).mpr hd, Option.some.injEq] at hold
        exact absurd hold hne
    · rename_i hn
      rw [hl n d]
      refine (and_iff_right_of_imp ?_).symm
      rintro ⟨⟨conn', hconn', rfl⟩, _⟩ rfl
      rw [hconn] at hconn'
      cases hconn'
      exact hn rfl
  | other =>
    have hsame : SameBooks s s' := hs
    refine iff_of_true (fun n c => ?_) trivial
    rw [hsame.connections, hsame.live]
    exact hl n c

/-! ## The law -/

omit [DecidableEq τ] in
theorem construct_books (loop : τ) (loops : List τ) (name : String) :
    (construct loop loops name).Counted ∧ (construct loop loops name).Listed := by
  have hone : toInt 1 = 1 := toInt_eq (by decide) (by decide)
  refine ⟨⟨fun c => ?_, fun c _ => rfl, fun c conn hc => ?_, ?_⟩, fun n c => ?_⟩
  · simp [construct]
  · cases hc
  · simp [construct, hone]
  · simp [construct, Live]

/-- The map of the server holds exactly the live connections, each under its
own name, in all the states of a run, exactly when no connection lives until
the counter of the names has come round to its number. -/
theorem the_map_lists_the_live_connections_exactly (loop : τ) (loops : List τ) (name : String)
    (bs : List (Booking τ)) (s : TcpServer τ) :
    ((bookings loop loops name).restrict fun s b _ => b.Unused s).Run
        (construct loop loops name) bs s ↔
      ((bookings loop loops name).restrict fun _ _ s' => s'.Listed).Run
        (construct loop loops name) bs s := by
  obtain ⟨hcounted, hlisted⟩ := construct_books loop loops name
  apply Machine.Run.good_iff hcounted hlisted
  · intro s b s' hc hs
    exact hc.step hs
  · intro s b s' hc hl hs
    exact step_listed_iff hc hl hs

/-! ## The threads of a server -/

theorem sameBooks_act (s : TcpServer τ) (l : τ) (a : EventLoop.Act τ ChannelId Functor) :
    SameBooks s (s.act l a) :=
  ⟨rfl, rfl, rfl, rfl, fun _ => rfl, fun _ => rfl⟩

theorem sameBooks_pop (s : TcpServer τ) (t : τ) (rest : List (Frame τ)) :
    SameBooks s (s.pop t rest) :=
  ⟨rfl, rfl, rfl, rfl, fun _ => rfl, fun _ => rfl⟩

omit [DecidableEq τ] in
theorem sameBooks_setConn {s : TcpServer τ} {c : Nat} {conn conn' : ServerConnection τ}
    (hc : s.conns c = some conn) (hname : conn'.name_ = conn.name_) :
    SameBooks s (s.setConn c conn') := by
  refine ⟨rfl, rfl, rfl, rfl, fun d => ?_, fun _ => rfl⟩
  by_cases hd : d = c
  · subst hd
    rw [show (s.setConn d conn').conns d = some conn' from Function.update_self _ _ _, hc]
    exact congrArg some hname
  · rw [show (s.setConn c conn').conns d = s.conns d from Function.update_of_ne hd _ _]

omit [DecidableEq τ] in
theorem sameBooks_note (s : TcpServer τ) (t : τ) (c : Nat) {k : Step}
    (hk : k ≠ .removeConnectionInLoop) : SameBooks s (s.note t c k) :=
  ⟨rfl, rfl, rfl, rfl, fun _ => rfl, fun d => by
    rw [did_note, if_neg fun hc => hk hc.2, Nat.add_zero]⟩

omit [DecidableEq τ] in
theorem sameBooks_onConn {s s' : TcpServer τ} {c : Nat}
    {f : TcpConnection → Outcome TcpConnection} (hok : s.onConn c f = .ok s') :
    SameBooks s s' := by
  simp only [onConn, deref, bind_eq_ok, demand_eq_ok] at hok
  obtain ⟨conn, hc, c', _, hok⟩ := hok
  cases hok
  exact sameBooks_setConn hc rfl

theorem sameBooks_runInItsLoop {s s' : TcpServer τ} {t : τ} {c : Nat} {f : Functor}
    (hok : s.runInItsLoop t c f = .ok s') : SameBooks s s' := by
  simp only [runInItsLoop, deref, bind_eq_ok, demand_eq_ok] at hok
  obtain ⟨conn, _, hok⟩ := hok
  cases hok
  exact sameBooks_runInLoop s t conn.loop_ f

theorem sameBooks_setDisconnecting {s s' : TcpServer τ} {t : τ} {c : Nat}
    (hok : s.setDisconnecting t c = .ok s') : SameBooks s s' := by
  simp only [setDisconnecting, deref, bind_eq_ok, demand_eq_ok] at hok
  obtain ⟨conn, hc, hok⟩ := hok
  cases hok
  exact (sameBooks_setConn hc (by rfl)).trans (sameBooks_push _ t _)

/-- No connection is removed twice. -/
def Once (s : TcpServer τ) : Prop := ∀ c, s.did c .removeConnectionInLoop ≤ 1

/-- Some bookings lead from one state to the other. -/
def Books.Lead (loop : τ) (loops : List τ) (name : String) (s s' : TcpServer τ) : Prop :=
  ∃ bs, (bookings loop loops name).Run s bs s'

section

variable {loop : τ} {loops : List τ} {name : String} {s s' : TcpServer τ}

theorem Books.Lead.other (h : SameBooks s s') : Books.Lead loop loops name s s' :=
  ⟨[.other], Machine.Run.nil.snoc (a := Booking.other) h⟩

theorem Books.Lead.trans {s₁ : TcpServer τ} (h : Books.Lead loop loops name s s₁)
    (h' : Books.Lead loop loops name s₁ s') : Books.Lead loop loops name s s' := by
  obtain ⟨bs, hbs⟩ := h
  obtain ⟨cs, hcs⟩ := h'
  exact ⟨bs ++ cs, hbs.append hcs⟩

theorem Books.Lead.remove {t : τ} {c : Nat} (hok : s.removeConnectionInLoop t c = .ok s')
    (honce : s'.Once) : Books.Lead loop loops name s s' := by
  refine ⟨[.removeConnectionInLoop t c], Machine.Run.nil.snoc ⟨?_, hok⟩⟩
  have hone := honce c
  simp only [removeConnectionInLoop, deref, bind_eq_ok, demand_eq_ok] at hok
  obtain ⟨conn, hc, hok⟩ := hok
  cases hok
  refine ⟨conn.name_, ⟨conn, hc, rfl⟩, ?_⟩
  have hold : ({ s with connections_ := s.connections_.erase conn.name_ } : TcpServer τ).did c
      .removeConnectionInLoop = s.did c .removeConnectionInLoop := rfl
  rw [runInLoop_did, did_note, hold] at hone
  simp only [and_self, if_true] at hone
  omega

theorem Books.Lead.runFunctor {t : τ} {inp : Input} {f : Functor}
    (hok : s.runFunctor t inp f = .ok s') (honce : s'.Once) :
    Books.Lead loop loops name s s' := by
  cases f with
  | connectEstablished c =>
    simp only [TcpServer.runFunctor, TcpServer.connectEstablished, deref, bind_eq_ok,
      demand_eq_ok] at hok
    obtain ⟨conn, hc, c', _, hok⟩ := hok
    cases hok
    exact .other ((sameBooks_setConn hc (by rfl)).trans
      (sameBooks_note _ _ _ (k := .connectEstablished) (by simp)))
  | removeConnectionInLoop c =>
    exact (Books.Lead.other (sameBooks_push s t [.holds c])).trans (.remove hok honce)
  | connectDestroy c =>
    simp only [TcpServer.runFunctor, TcpServer.connectDestroy, deref, bind_eq_ok,
      demand_eq_ok] at hok
    obtain ⟨conn, hc, c', _, hok⟩ := hok
    cases hok
    exact .other ((sameBooks_setConn hc (by rfl)).trans
      (sameBooks_note _ _ _ (k := .connectDestroy) (by simp)))
  | sendInLoop c message => exact .other (sameBooks_onConn hok)
  | shutdownInLoop c =>
    exact .other (sameBooks_onConn (c := c) (f := fun conn => pure conn.shutdownInLoop) hok)
  | other n =>
    cases hok
    exact .other ⟨rfl, rfl, rfl, rfl, fun _ => rfl, fun _ => rfl⟩

theorem sameBooks_runCallback {t : τ} {inp : Input} {c : Nat} {cb : Callback}
    (hok : s.runCallback t inp c cb = .ok s') : SameBooks s s' := by
  simp only [runCallback, deref, bind_eq_ok, demand_eq_ok] at hok
  obtain ⟨conn, hc, ⟨c', closed⟩, _, hok⟩ := hok
  have hset : SameBooks s (s.setConn c { conn with conn := c' }) := sameBooks_setConn hc rfl
  have hran := hset.trans (sameBooks_note _ t c (k := .handler) (by simp))
  cases closed with
  | false =>
    cases hok
    exact hran
  | true =>
    cases hok
    exact (hran.trans (sameBooks_note _ t c (k := .handleClose) (by simp))).trans
      (sameBooks_push _ t _)

theorem Books.Lead.resume {t : τ} {inp : Input} {fr : Frame τ}
    (hok : s.resume t inp fr = .ok s') (honce : s'.Once) :
    Books.Lead loop loops name s s' := by
  have hsame : SameBooks s s := ⟨rfl, rfl, rfl, rfl, fun _ => rfl, fun _ => rfl⟩
  cases fr with
  | accept =>
    simp only [TcpServer.resume] at hok
    split at hok
    · rename_i sockfd _
      exact ⟨[.newConnection t sockfd], Machine.Run.nil.snoc hok⟩
    · cases hok
      exact .other hsame
  | call f => exact .runFunctor hok honce
  | holds c =>
    cases hok
    exact .other hsame
  | handleEvent c cbs =>
    cases cbs with
    | nil =>
      cases hok
      exact .other hsame
    | cons cb cbs =>
      exact .other ((sameBooks_push s t [.handleEvent c cbs]).trans (sameBooks_runCallback hok))
  | closeCallback c =>
    cases hok
    exact .other ((sameBooks_push s t [.holds c]).trans (sameBooks_runInLoop _ _ _ _))
  | send c message => exact .other (sameBooks_runInItsLoop hok)
  | setState c => exact .other (sameBooks_setDisconnecting hok)
  | shutdown c => exact .other (sameBooks_runInItsLoop hok)
  | returns l =>
    cases hok
    exact .other (sameBooks_act s l _)

/-- A step of any thread of the server is some bookings. -/
theorem Books.Lead.step {a : Act τ} (hok : a.run s = .ok s') (honce : s'.Once) :
    Books.Lead loop loops name s s' := by
  cases a with
  | loop l a alive revents =>
    cases hok
    exact .other ((sameBooks_act s l a).trans (sameBooks_push _ _ _))
  | go t inp =>
    simp only [Act.run, go] at hok
    split at hok
    · cases hok
      exact ⟨[], .nil⟩
    · rename_i fr rest _
      exact (Books.Lead.other (sameBooks_pop s t rest)).trans (.resume hok honce)
  | send t c message w =>
    simp only [Act.run, send, deref, bind_eq_ok, demand_eq_ok] at hok
    obtain ⟨conn, hc, hok⟩ := hok
    split at hok
    · split at hok
      · exact .other (sameBooks_onConn hok)
      · cases hok
        exact .other (sameBooks_push _ _ _)
    · cases hok
      exact ⟨[], .nil⟩
  | shutdown t c =>
    simp only [Act.run, shutdown, deref, bind_eq_ok, demand_eq_ok] at hok
    obtain ⟨conn, hc, hok⟩ := hok
    split at hok
    · cases hok
      exact .other (sameBooks_push _ _ _)
    · cases hok
      exact ⟨[], .nil⟩
  | queueInLoop t l n =>
    cases hok
    exact .other ((sameBooks_act s l _).trans (sameBooks_push _ _ _))
  | quit t l =>
    cases hok
    exact .other ((sameBooks_act s l _).trans (sameBooks_push _ _ _))

end

/-- Every run of the threads of a server, in which no connection is removed
twice, is a run of bookings. -/
theorem bookings_of_run {loop : τ} {loops : List τ} {name : String} {as : List (Act τ)}
    {s : TcpServer τ} (h : ((machine loop loops name).restrict fun _ _ s' => s'.Once).Run
      (construct loop loops name) as s) :
    ∃ bs, (bookings loop loops name).Run (construct loop loops name) bs s := by
  apply h.keeps (P := Books.Lead loop loops name (construct loop loops name))
  · rintro s a s' hb ⟨⟨_, hok⟩, honce⟩
    exact hb.trans (.step hok honce)
  · exact ⟨[], .nil⟩

/-! ## A connection that lives long -/

theorem runInLoop_loops_ (s : TcpServer τ) (t l : τ) (f : Functor) :
    (s.runInLoop t l f).loops_ = s.loops_ := by
  unfold runInLoop
  split <;> rfl

/-- A server with no other loop can always accept. -/
theorem newConnection_ok {s : TcpServer τ} (h : s.loops_ = []) (t : τ) (sockfd : Int) :
    ∃ s', s.newConnection t sockfd = .ok s' ∧ s'.loops_ = [] := by
  simp only [newConnection, getNextLoop, h, List.isEmpty_nil, if_true, ok_bind, pure_eq_ok]
  exact ⟨_, rfl, runInLoop_loops_ _ _ _ _⟩

theorem removeConnectionInLoop_ok {s : TcpServer τ} (h : s.loops_ = []) (t : τ) {c : Nat}
    {name : String} (hc : s.Live c name) :
    ∃ s', s.removeConnectionInLoop t c = .ok s' ∧ s'.loops_ = [] := by
  obtain ⟨⟨conn, hconn, _⟩, _⟩ := hc
  simp only [removeConnectionInLoop, deref, hconn, demand_some, ok_bind, pure_eq_ok]
  exact ⟨_, rfl, (runInLoop_loops_ _ _ _ _).trans h⟩

/-- The first connection stays, and each later one is removed before the next
is accepted. -/
theorem first_connection_stays (n : Nat) (hn : n < 2 ^ 32) :
    ∃ s : TcpServer Unit, (bookings () [] "server").Reachable s ∧ s.Counted ∧ s.Listed ∧
      s.loops_ = [] ∧ s.accepted = n + 1 ∧ (∃ name, s.Live 0 name) ∧
      ∀ c name, s.Live c name → c = 0 := by
  induction n with
  | zero =>
    obtain ⟨hcount, hlisted⟩ := construct_books () [] "server"
    have h0 : (bookings () [] "server").Reachable (construct () [] "server") := .start rfl
    obtain ⟨s, hok, hloops⟩ := newConnection_ok (s := construct () [] "server") rfl () 5
    obtain ⟨hc, _, hacc, _, _, hlive⟩ := newConnection_books hcount hok
    have hnone : ∀ c name, ¬ (construct () [] "server").Live c name := by
      rintro c name ⟨⟨conn, hconn, _⟩, _⟩
      cases hconn
    have hstep : (bookings () [] "server").step (construct () [] "server")
        (.newConnection () 5) s := hok
    refine ⟨s, h0.next hstep, hc, ?_, hloops, hacc, ⟨_, (hlive 0 _).mpr (Or.inl ⟨rfl, rfl⟩)⟩,
      fun c name hl => ?_⟩
    · exact (step_listed_iff hcount hlisted hstep).mpr fun c name hl => absurd hl (hnone c name)
    · rcases (hlive c name).mp hl with ⟨hzero, _⟩ | hold
      · exact hzero
      · exact absurd hold (hnone c name)
  | succ n ih =>
    obtain ⟨s, hr, hcount, hlisted, hloops, hacc, ⟨first, hfirst⟩, honly⟩ := ih (by omega)
    obtain ⟨s₁, hok₁, hloops₁⟩ := newConnection_ok hloops () 5
    obtain ⟨hcount₁, _, hacc₁, _, _, hlive₁⟩ := newConnection_books hcount hok₁
    have hstep₁ : (bookings () [] "server").step s (.newConnection () 5) s₁ := hok₁
    have hlisted₁ : s₁.Listed := by
      refine (step_listed_iff hcount hlisted hstep₁).mpr fun c name hl => ?_
      rw [honly c name hl]
      omega
    have hnew := (hlive₁ s.accepted _).mpr (Or.inl ⟨rfl, rfl⟩)
    obtain ⟨s₂, hok₂, hloops₂⟩ := removeConnectionInLoop_ok hloops₁ () hnew
    obtain ⟨hcount₂, _, hacc₂, _, _, hlive₂⟩ := removeConnectionInLoop_books hcount₁ hok₂
    have hstep₂ : (bookings () [] "server").step s₁ (.removeConnectionInLoop () s.accepted) s₂ :=
      ⟨⟨_, hnew⟩, hok₂⟩
    refine ⟨s₂, (hr.next hstep₁).next hstep₂, hcount₂,
      (step_listed_iff hcount₁ hlisted₁ hstep₂).mpr trivial, hloops₂, by omega,
      ⟨first, (hlive₂ 0 first).mpr ⟨by omega, (hlive₁ 0 first).mpr (Or.inr hfirst)⟩⟩,
      fun c name hl => ?_⟩
    obtain ⟨hne, hl₁⟩ := (hlive₂ c name).mp hl
    rcases (hlive₁ c name).mp hl₁ with ⟨hc, _⟩ | hold
    · exact absurd hc hne
    · exact honly c name hold

/-- After `2 ^ 32` connections the counter comes round to the first one, which
still lives. The new connection takes its name, and its place in the map. -/
theorem a_long_lived_connection_loses_its_entry :
    ∃ s : TcpServer Unit, (bookings () [] "server").Reachable s ∧
      (∃ name, s.Live 0 name ∧ s.Live (2 ^ 32) name ∧
        s.connections_.find name = some (2 ^ 32)) ∧ ¬ s.Listed := by
  obtain ⟨s, hr, hcount, hlisted, hloops, hacc, ⟨first, hfirst⟩, _⟩ :=
    first_connection_stays (2 ^ 32 - 1) (by omega)
  obtain ⟨s', hok, _⟩ := newConnection_ok hloops () 5
  obtain ⟨_, _, _, _, hmap, hlive⟩ := newConnection_books hcount hok
  have hstep : (bookings () [] "server").step s (.newConnection () 5) s' := hok
  have hround : s.accepted % 2 ^ 32 = 0 % 2 ^ 32 := by omega
  obtain rfl := (hcount.nextName hfirst).mpr hround
  have hnumber : s.accepted = 2 ^ 32 := by omega
  refine ⟨s', hr.next hstep, ⟨_, (hlive 0 _).mpr (Or.inr hfirst),
    (hlive _ _).mpr (Or.inl ⟨hnumber.symm, rfl⟩), ?_⟩, fun hl => ?_⟩
  · rw [hmap, Map.find_insert_self, hnumber]
  · exact (step_listed_iff hcount hlisted hstep).mp hl 0 _ hfirst hround

end TcpServer

end jmuduo.net
