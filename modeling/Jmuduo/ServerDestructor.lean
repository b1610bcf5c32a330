-- The destruction of a server while its loops run. The map of the connections goes
-- first, and with it every connection that nothing else refers to. Nobody takes the
-- channel of such a connection out of its poller any more.
import Jmuduo.ServerReferences

open outcome runs maps

namespace jmuduo.net

namespace TcpServer

variable {τ : Type} [DecidableEq τ]

/-- The destruction of `connections_`. Of the members of a server it is the first one
that has something to do: `threadPool_` stops the loops only after it. -/
def destroyConnections (s : TcpServer τ) : TcpServer τ := { s with connections_ := ∅ }

/-- A functor or a function on a stack refers to the connection. -/
def InUse (s : TcpServer τ) (c : Nat) : Prop :=
  (∃ l f, (f ∈ (s.loop l).pendingFunctors_ ∨ f ∈ (s.loop l).functors) ∧ f.refs = some c) ∨
  ∃ t fr, fr ∈ s.stack t ∧ fr.refs = some c

/-- The connection is gone, and the poller of its loop has its channel. -/
def Dangles (s : TcpServer τ) (c : Nat) : Prop :=
  ¬ s.Held c ∧ ∃ conn, s.conns c = some conn ∧ conn.registered = true

section

variable {s s' : TcpServer τ}

omit [DecidableEq τ] in
theorem held_iff_listed_or_inUse (c : Nat) :
    s.Held c ↔ (∃ name, s.connections_.find name = some c) ∨ s.InUse c := Iff.rfl

omit [DecidableEq τ] in
theorem destroyConnections_held_iff (c : Nat) : s.destroyConnections.Held c ↔ s.InUse c := by
  rw [held_iff_listed_or_inUse]
  constructor
  · intro h
    rcases h with ⟨name, hfind⟩ | huse
    · unfold destroyConnections at hfind
      rw [Map.find_empty] at hfind
      cases hfind
    · exact huse
  · intro h
    exact Or.inr h

omit [DecidableEq τ] in
theorem AtRest.not_inUse (h : s.AtRest) (c : Nat) : ¬ s.InUse c := by
  intro huse
  rcases huse with ⟨l, f, hf, _⟩ | ⟨t, fr, hfr, _⟩
  · have hin : f ∈ (s.loop l).waiting := List.mem_append.mpr hf.symm
    rw [h.2] at hin
    cases hin
  · rw [h.1] at hfr
    cases hfr

omit [DecidableEq τ] in
/-- What a poller has of a connection, and the connection itself, can be read off its slot. -/
theorem registered_iff_slot (c : Nat) :
    (∃ conn, s.conns c = some conn ∧ conn.registered = true) ↔
      ∃ fd l, (s.conns c).map slot = some (fd, l, true) := by
  constructor
  · intro h
    obtain ⟨conn, hc, hreg⟩ := h
    refine ⟨conn.conn.fd, conn.loop_, ?_⟩
    rw [hc, Option.map_some, slot, hreg]
  · intro h
    obtain ⟨fd, l, hslot⟩ := h
    obtain ⟨conn, hc, e⟩ := Option.map_eq_some_iff.mp hslot
    exact ⟨conn, hc, congrArg (·.2.2) e⟩

/-- No step brings a connection that is gone back, or takes its channel out of the
poller. Only a connection that is new to the server has a new slot. -/
theorem Dangles.step {loop : τ} {loops : List τ} {name : String} {a : Act τ} {c : Nat}
    (h : s.Dangles c) (hknown : c < s.accepted) (hst : (machine loop loops name).step s a s') :
    s'.Dangles c ∧ c < s'.accepted := by
  obtain ⟨hgone, hreg⟩ := h
  rw [registered_iff_slot] at hreg
  unfold Dangles
  rw [registered_iff_slot]
  rcases step_cases hst.1 hst.2 with hs | ⟨c₀, hheld, _, _, hs⟩ | ⟨_, _, _, _, _, _, _, _, hs⟩
  · rw [hs.slot, hs.accepted]
    exact ⟨⟨fun hc => hgone (hs.held c hc), hreg⟩, hknown⟩
  · have hne : c ≠ c₀ := by
      intro e
      exact hgone (e ▸ hheld)
    rw [hs.slot, if_neg hne, hs.accepted]
    exact ⟨⟨fun hc => hgone (hs.held c hc), hreg⟩, hknown⟩
  · have hne : c ≠ s.accepted := Nat.ne_of_lt hknown
    rw [hs.slot, if_neg hne, hs.accepted]
    refine ⟨⟨fun hc => ?_, hreg⟩, Nat.lt_succ_of_lt hknown⟩
    rcases hs.held c hc with hold | hnew
    · exact hgone hold
    · exact hne hnew

end

/-- While the server lives, no poller has the channel of a connection that is gone. Its
destructor leaves one there exactly for every registered connection that only the map
refers to, and whatever the loops do then, the channel stays. At rest these are the
connections that are up, as long as no `shutdown` set the state of one that was down, so
only a server without them goes cleanly. -/
theorem the_destructor_leaves_the_channels_of_the_connections_that_are_up {loop : τ}
    {loops : List τ} {name : String} {s : TcpServer τ}
    (h : ((machine loop loops name).restrict Few).Reachable s) :
    (∀ c, ¬ s.Dangles c) ∧
    (∀ c, s.destroyConnections.Dangles c ↔
      (∃ conn, s.conns c = some conn ∧ conn.registered = true) ∧ ¬ s.InUse c) ∧
    (∀ as s', (machine loop loops name).Run s.destroyConnections as s' →
      ∀ c, s.destroyConnections.Dangles c → s'.Dangles c) ∧
    (((machine loop loops name).restrict fun s a s' => a.Prompt s ∧ Few s a s').Reachable s →
      s.AtRest → ∀ c, s.destroyConnections.Dangles c ↔
        ∃ conn, s.conns c = some conn ∧ conn.conn.state_ ≠ .kDisconnected) := by
  have hinv := reachable_inv h
  have hdangles : ∀ c, s.destroyConnections.Dangles c ↔
      (∃ conn, s.conns c = some conn ∧ conn.registered = true) ∧ ¬ s.InUse c := by
    intro c
    unfold Dangles
    rw [destroyConnections_held_iff]
    exact and_comm
  refine ⟨fun c hc => ?_, hdangles, fun as s' hrun c hc => ?_, fun hprompt hrest c => ?_⟩
  · obtain ⟨hgone, conn, hconn, hreg⟩ := hc
    have hlife := hinv.life c
    exact hgone (hlife.held hconn (hlife.registered conn hconn hreg).2)
  · have hknown : c < s.destroyConnections.accepted := by
      obtain ⟨_, conn, hconn, _⟩ := hc
      have hfresh := hinv.books.fresh c
      by_contra hle
      have hnone : s.conns c = none := hfresh.mpr (Nat.le_of_not_lt hle)
      rw [show s.destroyConnections.conns c = s.conns c from rfl, hnone] at hconn
      cases hconn
    have hkeeps := hrun.keeps (P := fun u => u.Dangles c ∧ c < u.accepted)
      (fun u a v hu hst => hu.1.step hu.2 hst) ⟨hc, hknown⟩
    exact hkeeps.1
  · have hkept := reachable_kept hprompt
    rw [hdangles c]
    constructor
    · rintro ⟨⟨conn, hconn, hreg⟩, _⟩
      exact ⟨conn, hconn, (hkept.at_rest hrest hconn).2.2.1.mp hreg⟩
    · rintro ⟨conn, hconn, hup⟩
      exact ⟨⟨conn, hconn, (hkept.at_rest hrest hconn).2.2.1.mpr hup⟩, hrest.not_inUse c⟩

/-- The server goes with a connection that is up. -/
theorem the_destructor_leaves_a_channel : ∃ s : TcpServer Unit,
    ¬ s.Dangles 0 ∧ s.destroyConnections.Dangles 0 := by
  obtain ⟨as, s, hrun, hrest, _, conn, hc, hreg, _⟩ := rests_with_a_connection
  have hfew : ((machine () [] "server").restrict Few).Run (construct () [] "server") as s :=
    (hrun.restrict_congr (P := fun _ => True) trivial (fun _ _ _ _ _ hr => hr.2.2)
      fun _ _ _ _ _ _ => trivial).1
  have hlaw := the_destructor_leaves_the_channels_of_the_connections_that_are_up
    ⟨_, as, rfl, hfew⟩
  exact ⟨s, hlaw.1 0, (hlaw.2.1 0).mpr ⟨⟨conn, hc, hreg⟩, hrest.not_inUse 0⟩⟩

end TcpServer

end jmuduo.net
