-- How the server shares its connections among its loops: each loop in turn gets the next
-- one, so that no loop has two more than another.
import Jmuduo.ServerReferences
import Mathlib.Data.Int.CardIntervalMod

open outcome runs

namespace jmuduo.net

namespace TcpServer

variable {τ : Type} [DecidableEq τ]

/-! ## The turns -/

theorem succ_mod {m n : Nat} (h : 0 < n) :
    (m + 1) % n = if m % n + 1 = n then 0 else m % n + 1 := by
  have hlt : m % n < n := Nat.mod_lt m h
  rw [← Nat.mod_add_mod m n 1]
  split
  · rename_i hlast
    rw [hlast, Nat.mod_self]
  · exact Nat.mod_eq_of_lt (by omega)

/-- The loop of the connection with the number, where each loop in turn gets one. -/
def inTurn (loop : τ) (loops : List τ) (c : Nat) : τ := loops.getD (c % loops.length) loop

/-- How many connections the server gave to the loop. -/
def load (s : TcpServer τ) (l : τ) : Nat :=
  s.accepted.count fun c => (s.conns c).map (·.loop_) = some l

/-- The next turn is the one of the next connection, and every connection so far is where
its turn put it. -/
structure Turned (loop : τ) (loops : List τ) (s : TcpServer τ) : Prop where
  base : s.loop_ = loop
  others : s.loops_ = loops
  next : loops ≠ [] → s.nextId_ = s.accepted % loops.length
  place : ∀ c, (s.conns c).map (·.loop_) =
    if c < s.accepted then some (inTurn loop loops c) else none

section

variable {loop : τ} {loops : List τ} {s s' : TcpServer τ}

omit [DecidableEq τ] in
theorem loop_of_slot {o o' : Option (ServerConnection τ)} (h : o'.map slot = o.map slot) :
    o'.map (·.loop_) = o.map (·.loop_) := by
  have hmap := congrArg (Option.map fun x : Int × τ × Bool => x.2.1) h
  rwa [Option.map_map, Option.map_map] at hmap

omit [DecidableEq τ] in
theorem Turned.same (h : Turned loop loops s) (haccepted : s'.accepted = s.accepted)
    (hpool : s'.pool = s.pool)
    (hplace : ∀ c, (s'.conns c).map (·.loop_) = (s.conns c).map (·.loop_)) :
    Turned loop loops s' := by
  obtain ⟨hloop, hloops, hid⟩ : s'.loop_ = s.loop_ ∧ s'.loops_ = s.loops_ ∧
      s'.nextId_ = s.nextId_ := by simpa [pool] using hpool
  refine ⟨hloop.trans h.base, hloops.trans h.others, fun hne => ?_, fun c => ?_⟩
  · rw [hid, haccepted]
    exact h.next hne
  · rw [hplace, haccepted]
    exact h.place c

omit [DecidableEq τ] in
theorem Turned.accepts (h : Turned loop loops s) {fd : Int} {l : τ}
    (ha : Accepts s s' fd l) : Turned loop loops s' := by
  have hturn : l = inTurn loop loops s.accepted ∧ s'.loop_ = s.loop_ ∧ s'.loops_ = s.loops_ ∧
      (loops ≠ [] → s'.nextId_ = (s.accepted + 1) % loops.length) := by
    rcases ha.pool with ⟨hnil, hl, hpool⟩ | ⟨hl, hpool⟩
    · simp only [pool, Prod.mk.injEq] at hpool
      rw [h.others] at hnil
      subst hnil
      exact ⟨hl.trans h.base, hpool.1, hpool.2.1, fun hne => absurd rfl hne⟩
    · simp only [pool, Prod.mk.injEq] at hpool
      obtain ⟨hlt, _⟩ := List.getElem?_eq_some_iff.mp hl
      rw [h.others] at hlt hl hpool
      have hne : loops ≠ [] := List.ne_nil_of_length_pos (by omega)
      have hid := h.next hne
      rw [hid] at hl
      refine ⟨?_, hpool.1, hpool.2.1.trans h.others.symm, fun _ => ?_⟩
      · rw [inTurn, List.getD_eq_getElem?_getD, hl, Option.getD_some]
      · rw [hpool.2.2, hid, succ_mod (by omega)]
  obtain ⟨hl, hloop, hloops, hnext⟩ := hturn
  refine ⟨hloop.trans h.base, hloops.trans h.others, ?_, fun c => ?_⟩
  · rw [ha.accepted]
    exact hnext
  · have hslot := ha.slot c
    rw [ha.accepted]
    by_cases hc : c = s.accepted
    · rw [if_pos hc] at hslot
      obtain ⟨conn, hconn, e⟩ := Option.map_eq_some_iff.mp hslot
      have hplace : conn.loop_ = l := congrArg (·.2.1) e
      rw [hconn, Option.map_some, hplace, if_pos (by omega), hl, hc]
    · rw [if_neg hc] at hslot
      rw [loop_of_slot hslot, h.place c]
      split
      · rw [if_pos (by omega)]
      · rw [if_neg (by omega)]

theorem Turned.step {a : Act τ} (h : Turned loop loops s) (he : a.Enabled s)
    (hok : a.run s = .ok s') : Turned loop loops s' := by
  rcases step_cases he hok with hs | ⟨c₀, _, k, _, hs⟩ | ⟨_, _, _, fd, l, _, _, _, hs⟩
  · exact h.same hs.accepted hs.pool fun c => loop_of_slot (hs.slot c)
  · refine h.same hs.accepted hs.pool fun c => ?_
    have hslot := hs.slot c
    split at hslot
    · have hmap := congrArg (Option.map fun x : Int × τ × Bool => x.2.1) hslot
      rwa [Option.map_map, Option.map_map] at hmap
    · exact loop_of_slot hslot
  · exact h.accepts hs

/-! ## The law -/

/-- Every connection is on the loop whose turn it was, and so each loop has as many as
any other, or one more if its turn came once more often. -/
theorem every_loop_has_its_share_of_the_connections {name : String} (hnodup : loops.Nodup)
    (h : (machine loop loops name).Reachable s) :
    (∃ l s', s.getNextLoop = .ok (l, s')) ∧
    (∀ c conn, s.conns c = some conn → conn.loop_ = inTurn loop loops c) ∧
    ∀ i (hi : i < loops.length), s.load loops[i] =
      s.accepted / loops.length + if i < s.accepted % loops.length then 1 else 0 := by
  have hturned : Turned loop loops s := by
    refine h.invariant ?_ ?_
    · rintro s rfl
      refine ⟨rfl, rfl, fun _ => (Nat.zero_mod _).symm, fun c => ?_⟩
      simp [construct]
    · rintro s a s' hs ⟨he, hok⟩
      exact hs.step he hok
  refine ⟨?_, fun c conn hc => ?_, fun i hi => ?_⟩
  · unfold getNextLoop
    split
    · exact ⟨_, _, rfl⟩
    · rename_i hne
      have hpos : 0 < loops.length := by
        rw [← hturned.others]
        exact List.length_pos_iff.mpr fun e => hne (List.isEmpty_iff.mpr e)
      have hlt : s.nextId_ < s.loops_.length := by
        rw [hturned.next (List.ne_nil_of_length_pos hpos), hturned.others]
        exact Nat.mod_lt _ hpos
      rw [List.getElem?_eq_getElem hlt]
      exact ⟨_, _, rfl⟩
  · have hplace := hturned.place c
    rw [hc, Option.map_some] at hplace
    split at hplace
    · exact Option.some.inj hplace
    · cases hplace
  · have hpos : 0 < loops.length := by omega
    have hcount := Nat.count_modEq_card s.accepted hpos i
    rw [Nat.mod_eq_of_lt hi] at hcount
    rw [← hcount, load, Nat.count_eq_card_filter_range, Nat.count_eq_card_filter_range]
    congr 1
    refine Finset.filter_congr fun c hc => ?_
    have hlt : c % loops.length < loops.length := Nat.mod_lt _ hpos
    rw [hturned.place, if_pos (Finset.mem_range.mp hc), inTurn, List.getD_eq_getElem _ _ hlt,
      Option.some.injEq, hnodup.getElem_inj_iff, Nat.ModEq, Nat.mod_eq_of_lt hi]

end

/-- The base loop accepts a connection and gives it to the other loop. -/
theorem the_other_loop_has_the_connection :
    ∃ s : TcpServer Bool, s.accepted = 1 ∧ s.load true = 1 := by
  have h0 : (machine false [true] "server").Run (construct false [true] "server") []
      (construct false [true] "server") := .nil
  have h1 := h0.snoc (a := .loop false .loop false 0)
    (by exact ⟨⟨rfl, ⟨⟨rfl, rfl⟩, rfl⟩, rfl, by simp, by simp⟩, rfl⟩)
  have h2 := h1.snoc (a := .loop false .clearQuit false 0)
    (by exact ⟨⟨rfl, ⟨rfl, rfl⟩, rfl, by simp, by simp⟩, rfl⟩)
  have h3 := h2.snoc (a := .loop false .whileTest false 0)
    (by exact ⟨⟨rfl, ⟨rfl, rfl⟩, rfl, by simp, by simp⟩, rfl⟩)
  have hacceptor : ∀ active, (.poll [.acceptor] : EventLoop.Act Bool ChannelId Functor) =
      .poll active → ∀ ch ∈ active, ∀ s : TcpServer Bool, s.loop_ = false → s.Polled false ch := by
    rintro _ ⟨⟩ ch hch s hs
    rw [List.mem_singleton.mp hch]
    exact hs.symm
  have h4 := h3.snoc (a := .loop false (.poll [.acceptor]) false 0)
    (by exact ⟨⟨rfl, ⟨rfl, rfl⟩, rfl, fun active ha ch hch => hacceptor active ha ch hch _ rfl,
      by simp⟩, rfl⟩)
  have h5 := h4.snoc (a := .loop false .handleEvent false 0)
    (by exact ⟨⟨rfl, ⟨⟨rfl, rfl⟩, by decide⟩, rfl, by simp, fun c cs _ hc => by cases hc⟩, rfl⟩)
  have h6 := h5.snoc
    (a := .go false ⟨some 5, [], ⟨.failed 0, [], [], false, .failed 0⟩, .failed 0⟩)
    (by exact ⟨List.cons_ne_nil Frame.accept [], rfl⟩)
  have hlaw := every_loop_has_its_share_of_the_connections (List.nodup_singleton true)
    ⟨_, _, rfl, h6⟩
  exact ⟨_, rfl, hlaw.2.2 0 (by decide)⟩

end TcpServer

end jmuduo.net
