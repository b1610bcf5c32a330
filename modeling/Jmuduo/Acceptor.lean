-- The acceptor (Acceptor.cc): a listening socket, and a reserve descriptor that it
-- gives up for a moment when the process has no descriptor left. Its destructor
-- closes the socket, and not the reserve.
import Jmuduo.Descriptors
import Jmuduo.Poller

open outcome runs descriptors

namespace jmuduo.net

/-! ## The acceptor of the source -/

/-- An acceptor with the descriptors of its process and the channels of its loop.
`acceptSocket_` is the descriptor of the socket, and `newConnectionCallback_` says
whether one is set. -/
structure Acceptor (κ : Type) where
  ledger : Ledger
  channels : LoopChannels κ
  acceptSocket_ : Int
  acceptChannel_ : κ
  listenning_ : Bool
  idleFd_ : Int
  newConnectionCallback_ : Bool
  destroyed : Bool

def EMFILE : Int := 24

namespace Acceptor

variable {κ : Type} [DecidableEq κ]

/-- The constructor, with the results of `::socket`, `::open` and `::bind`. -/
def construct (ledger : Ledger) (channels : LoopChannels κ) (channel : κ)
    (socket openNull bind : Int) : Outcome (Acceptor κ) := do
  let ledger := ledger.gain socket
  let channels := channels.setChannel channel (Channel.construct socket)
  let ledger := ledger.gain openNull
  check "ret==0" (bind = 0)
  pure ⟨ledger, channels, socket, channel, false, openNull, false, false⟩

def listen (ret : Int) (s : Acceptor κ) : Outcome (Acceptor κ) := do
  let s := { s with listenning_ := true }
  check "ret==0" (ret = 0)
  let channels ← s.channels.enableReading s.acceptChannel_
  pure { s with channels := channels }

def setNewConnectionCallback (set : Bool) (s : Acceptor κ) : Acceptor κ :=
  { s with newConnectionCallback_ := set }

/-- What the system calls of one `handleRead` give: the first `accept` with its
`errno`, the `accept` in the place of the reserve, and the `open` of a new one. -/
structure Answers where
  accept : Int
  errno : Int
  reserve : Int
  openNull : Int

/-- The connection that waits is accepted in the place of the reserve and closed. -/
def useReserve (a : Answers) (s : Acceptor κ) : Acceptor κ :=
  let s := { s with ledger := s.ledger.close s.idleFd_ }
  let s := { s with ledger := s.ledger.gain a.reserve, idleFd_ := a.reserve }
  let s := { s with ledger := s.ledger.close s.idleFd_ }
  { s with ledger := s.ledger.gain a.openNull, idleFd_ := a.openNull }

def handleRead (a : Answers) (s : Acceptor κ) : Acceptor κ :=
  let connd := a.accept
  let s := { s with ledger := s.ledger.gain connd }
  if connd ≥ 0 then
    if s.newConnectionCallback_ then { s with ledger := s.ledger.hand connd }
    else { s with ledger := s.ledger.close connd }
  else if a.errno = EMFILE then s.useReserve a
  else s

/-- The destructor, and then the one of the member `acceptSocket_`. -/
def destruct (s : Acceptor κ) : Outcome (Acceptor κ) := do
  let channels ← s.channels.disableAll s.acceptChannel_
  let channels ← channels.remove s.acceptChannel_
  pure { s with
    channels := channels, ledger := s.ledger.close s.acceptSocket_, destroyed := true }

/-! ## The runs -/

/-- The kernel gives no descriptor that is open. -/
structure Answers.Legal (a : Answers) (s : Acceptor κ) : Prop where
  accept : s.ledger.Free a.accept
  reserve : a.accept < 0 → a.errno = EMFILE → (s.ledger.close s.idleFd_).Free a.reserve
  openNull : a.accept < 0 → a.errno = EMFILE →
    (((s.ledger.close s.idleFd_).gain a.reserve).close a.reserve).Free a.openNull

/-- A call on the acceptor, a call on another channel of the loop, or an `open` or a
`close` of somebody else. -/
inductive Act (κ : Type)
  | listen (ret : Int)
  | setNewConnectionCallback (set : Bool)
  | handleRead (a : Answers)
  | destruct
  | channel (op : LoopChannels.Op κ)
  | openOther (fd : Int)
  | closeOther (fd : Int)

def Act.run (s : Acceptor κ) : Act κ → Outcome (Acceptor κ)
  | .listen ret => s.listen ret
  | .setNewConnectionCallback set => pure (s.setNewConnectionCallback set)
  | .handleRead a => pure (s.handleRead a)
  | .destruct => s.destruct
  | .channel op => do
    let channels ← op.run s.channels
    pure { s with channels := channels }
  | .openOther fd => pure { s with ledger := s.ledger.openOther fd }
  | .closeOther fd => pure { s with ledger := s.ledger.closeOther fd }

/-- When the step can come. Nobody else closes what the acceptor has kept. -/
def Act.Enabled (s : Acceptor κ) : Act κ → Prop
  | .listen _ | .setNewConnectionCallback _ | .destruct => s.destroyed = false
  | .handleRead a => s.destroyed = false ∧ a.Legal s
  | .channel op => op.target ≠ s.acceptChannel_
  | .openOther fd => 0 ≤ fd ∧ s.ledger.table fd = none
  | .closeOther fd => s.ledger.Others fd

/-- A process before the acceptor is there. -/
structure World (table : Int → Option Nat) (next : Nat) : Prop where
  valid : ∀ fd n, table fd = some n → 0 ≤ fd ∧ n < next
  apart : ∀ fd fd' n, table fd = some n → table fd' = some n → fd = fd'

/-- A new acceptor, in any process and with any results of the system calls. -/
def New (s : Acceptor κ) : Prop :=
  ∃ table next, World table next ∧ ∃ channels channel socket openNull bind,
    (⟨table, next, [], [], []⟩ : Ledger).Free socket ∧
    ((⟨table, next, [], [], []⟩ : Ledger).gain socket).Free openNull ∧
    construct ⟨table, next, [], [], []⟩ channels channel socket openNull bind = .ok s

def machine : Machine (Acceptor κ) (Act κ) where
  init := New
  step s a s' := a.Enabled s ∧ a.run s = .ok s'

/-! ## The account -/

/-- The descriptors that the acceptor holds. -/
def held (s : Acceptor κ) : List Int :=
  if s.destroyed then [s.idleFd_] else [s.acceptSocket_, s.idleFd_]

theorem construct_sound {s : Acceptor κ} (h : New s) : s.ledger.Sound s.held := by
  obtain ⟨table, next, hworld, channels, channel, socket, openNull, bind, h1, h2, hok⟩ := h
  unfold construct at hok
  rw [bind_eq_ok] at hok
  obtain ⟨_, _, hok⟩ := hok
  cases hok
  have hstart := Ledger.Sound.start hworld.valid hworld.apart
  exact ((hstart.gain h1).gain h2).perm (List.Perm.swap _ _ _)

omit [DecidableEq κ] in
/-- Using the reserve changes the held descriptor, and closes all that it accepts. -/
theorem useReserve_sound {s : Acceptor κ} {a : Answers} {rest : List Int}
    (h : s.ledger.Sound (s.idleFd_ :: rest)) (hreserve : (s.ledger.close s.idleFd_).Free a.reserve)
    (hopen : (((s.ledger.close s.idleFd_).gain a.reserve).close a.reserve).Free a.openNull) :
    (s.useReserve a).ledger.Sound (a.openNull :: rest) :=
  ((h.close.gain hreserve).close).gain hopen

omit [DecidableEq κ] in
theorem handleRead_sound {s : Acceptor κ} {a : Answers} {rest : List Int}
    (h : s.ledger.Sound (s.idleFd_ :: rest)) (ha : a.Legal s) :
    (s.handleRead a).ledger.Sound ((s.handleRead a).idleFd_ :: rest) := by
  have hgain := h.gain ha.accept
  unfold handleRead
  by_cases hpos : a.accept ≥ 0
  · simp only [if_pos hpos]
    split
    · exact hgain.hand
    · exact hgain.close
  · have hsame : s.ledger.gain a.accept = s.ledger := if_neg (by omega)
    simp only [if_neg hpos, hsame]
    split
    · rename_i herrno
      have hneg : a.accept < 0 := by omega
      exact useReserve_sound h (ha.reserve hneg herrno) (ha.openNull hneg herrno)
    · exact h

omit [DecidableEq κ] in
theorem handleRead_fields (s : Acceptor κ) (a : Answers) :
    (s.handleRead a).acceptSocket_ = s.acceptSocket_ ∧
    (s.handleRead a).destroyed = s.destroyed := by
  unfold handleRead useReserve
  simp only
  split
  · split <;> exact ⟨rfl, rfl⟩
  · split <;> exact ⟨rfl, rfl⟩

/-- What a destructor that returns does to the descriptors. -/
theorem destruct.spec {s s' : Acceptor κ} (hok : s.destruct = .ok s') :
    s'.ledger = s.ledger.close s.acceptSocket_ ∧ s'.idleFd_ = s.idleFd_ ∧
    s'.destroyed = true := by
  unfold destruct at hok
  simp only [bind_eq_ok] at hok
  obtain ⟨_, _, _, _, hok⟩ := hok
  cases hok
  exact ⟨rfl, rfl, rfl⟩

theorem step_sound {s s' : Acceptor κ} {a : Act κ} (h : s.ledger.Sound s.held)
    (hs : machine.step s a s') : s'.ledger.Sound s'.held := by
  obtain ⟨he, hok⟩ := hs
  cases a with
  | listen ret =>
    simp only [Act.run, listen, bind_eq_ok] at hok
    obtain ⟨_, _, _, _, hok⟩ := hok
    cases hok
    exact h
  | setNewConnectionCallback set =>
    cases hok
    exact h
  | handleRead a =>
    obtain ⟨halive, hlegal⟩ := he
    cases hok
    obtain ⟨hsocket, hdestroyed⟩ := s.handleRead_fields a
    unfold held at h ⊢
    rw [halive] at h hdestroyed
    rw [hdestroyed, hsocket]
    have hswap := h.perm (List.Perm.swap s.idleFd_ s.acceptSocket_ [])
    exact (handleRead_sound hswap hlegal).perm (List.Perm.swap _ _ _)
  | destruct =>
    have halive : s.destroyed = false := he
    obtain ⟨hledger, hidle, hdestroyed⟩ := destruct.spec hok
    unfold held at h ⊢
    rw [halive] at h
    rw [hledger, hidle, hdestroyed]
    exact h.close
  | channel op =>
    simp only [Act.run, bind_eq_ok] at hok
    obtain ⟨_, _, hok⟩ := hok
    cases hok
    exact h
  | openOther fd =>
    cases hok
    exact h.openOther he.1 he.2
  | closeOther fd =>
    cases hok
    exact h.closeOther he

theorem reachable_sound {s : Acceptor κ} (h : machine.Reachable s) : s.ledger.Sound s.held := by
  apply h.invariant
  · intro s hs
    exact construct_sound hs
  · intro s a s' hs hst
    exact step_sound hs hst

/-- In every run, nothing that the acceptor opened or accepted is closed twice, handed
over twice, or both, and it closes nothing of others. With its destructor the account
is settled if and only if the reserve was not open, since the last `open` failed. -/
theorem the_account_is_settled_iff_the_reserve_is_not_open (s : Acceptor κ)
    (h : machine.Reachable s) :
    (s.ledger.closed ++ s.ledger.handed).Nodup ∧
    (∀ n ∈ s.ledger.closed ++ s.ledger.handed, n ∈ s.ledger.opened) ∧
    ∀ s', s.destroyed = false → s.destruct = .ok s' → (s'.ledger.Settled ↔ s.idleFd_ < 0) := by
  have hsound := reachable_sound h
  obtain ⟨hnodup, hmem⟩ := hsound.disjoint
  refine ⟨hnodup, hmem, fun s' halive hok => ?_⟩
  have hs' := step_sound hsound (a := .destruct) ⟨halive, hok⟩
  obtain ⟨_, hidle, hdestroyed⟩ := destruct.spec hok
  rw [hs'.settled_iff, held, hdestroyed, if_pos rfl, hidle]
  simp

theorem empty_world : World (fun _ => none) 0 where
  valid _ _ h := by cases h
  apart _ _ _ h := by cases h

/-- The last `open` of the run fails, and the account is settled. -/
theorem the_account_is_settled_after_a_failed_open :
    ∃ s s' : Acceptor Unit, machine.Reachable s ∧ s.destruct = .ok s' ∧ s'.ledger.Settled := by
  have h0 : machine.Reachable (_ : Acceptor Unit) :=
    .start ⟨_, _, empty_world, .start fun _ => 0, (), 3, 4, 0, by decide, by decide, rfl⟩
  have h1 := h0.next (a := .listen 0) (by exact ⟨rfl, rfl⟩)
  have h2 := h1.next (a := .handleRead ⟨-1, EMFILE, 4, -1⟩)
    (by exact ⟨⟨rfl, by decide, fun _ _ => by decide, fun _ _ => by decide⟩, rfl⟩)
  obtain ⟨_, _, hsettled⟩ := the_account_is_settled_iff_the_reserve_is_not_open _ h2
  exact ⟨_, _, h2, rfl, (hsettled _ rfl rfl).mpr (by decide)⟩

/-- The destructor of an acceptor that listened leaves the reserve open. -/
theorem the_destructor_leaves_the_reserve_open :
    ∃ s s' : Acceptor Unit, machine.Reachable s ∧ s.destruct = .ok s' ∧
      s'.ledger.table 4 = some 1 ∧ ¬ s'.ledger.Settled := by
  have h0 : machine.Reachable (_ : Acceptor Unit) :=
    .start ⟨_, _, empty_world, .start fun _ => 0, (), 3, 4, 0, by decide, by decide, rfl⟩
  have h1 := h0.next (a := .listen 0) (by exact ⟨rfl, rfl⟩)
  refine ⟨_, _, h1, rfl, rfl, fun hs => ?_⟩
  have hhanded := hs.left 4 1 rfl (by decide)
  cases hhanded

end Acceptor

end jmuduo.net
