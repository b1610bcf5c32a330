-- The laws of a direct write that fails: the assert after it takes every
-- failure but an `EPIPE` for one that cannot be.
import Jmuduo.WriteComplete

open outcome runs

namespace jmuduo.net

def EAGAIN : Nat := 11

def EWOULDBLOCK : Nat := EAGAIN

namespace TcpConnection

/-! ## The failures -/

/-- What a connection should do at a direct write that fails. A socket that is
full takes the message later, and any other failure changes nothing. -/
def Survives (c : TcpConnection) (message : Message) (errno : Nat) : Prop :=
  ∃ c', c.sendInLoop message (.failed errno) = .ok c' ∧
    (errno = EAGAIN ∨ errno = EWOULDBLOCK →
      c'.unsent = c.unsent ++ message.bytes ∧ c'.channel_.isWriting = true) ∧
    (¬ (errno = EAGAIN ∨ errno = EWOULDBLOCK) →
      c'.outputBuffer_ = c.outputBuffer_ ∧ c'.channel_ = c.channel_ ∧ c'.state_ = c.state_)

/-! ## The law -/

/-- A connection, reachable or not, survives a direct write that fails exactly
when the `errno` is `EPIPE`. At any other one, that of a full socket among them,
the assert after the write fails. -/
theorem a_failed_write_is_survived_iff_it_is_an_epipe (c : TcpConnection)
    (h : c.WritesDirectly) (message : Message) (errno : Nat) :
    c.Survives message errno ↔ errno = EPIPE := by
  unfold Survives
  rw [sendInLoop_failed h]
  constructor
  · rintro ⟨c', hok, _⟩
    by_contra hne
    rw [if_neg hne] at hok
    cases hok
  · intro he
    subst he
    refine ⟨c.log [.write []], if_pos rfl, ?_, fun _ => ⟨rfl, rfl, rfl⟩⟩
    intro hagain
    rcases hagain with e | e <;> cases e

/-- A new connection that is up makes a direct write. -/
theorem a_new_connection_is_up :
    ∃ c, pieces.Reachable c ∧ c.state_ = .kConnected ∧ c.WritesDirectly :=
  ⟨_, Machine.Reachable.next (.start ⟨5, false, false, rfl⟩)
    (show pieces.step _ .established _ from rfl), rfl, rfl, rfl⟩

/-- Its peer resets it, and the message is dropped. -/
theorem a_failed_write_is_survived_at_an_epipe :
    ∃ c, pieces.Reachable c ∧ c.state_ = .kConnected ∧ c.Survives oneByte EPIPE := by
  obtain ⟨c, h, hup, hdirect⟩ := a_new_connection_is_up
  exact ⟨c, h, hup, (a_failed_write_is_survived_iff_it_is_an_epipe c hdirect _ _).mpr rfl⟩

/-- Its socket is full, and the assert fails. -/
theorem a_full_socket_fails_the_assert :
    ∃ c, pieces.Reachable c ∧ c.state_ = .kConnected ∧ c.WritesDirectly ∧
      c.sendInLoop oneByte (.failed EAGAIN) = .error (.assertion "nwrote>=0") ∧
      ¬ c.Survives oneByte EAGAIN := by
  obtain ⟨c, h, hup, hdirect⟩ := a_new_connection_is_up
  have hfails := sendInLoop_failed hdirect oneByte EAGAIN
  rw [if_neg (by decide)] at hfails
  refine ⟨c, h, hup, hdirect, hfails, ?_⟩
  rintro ⟨c', hok, _⟩
  rw [hfails] at hok
  cases hok

end TcpConnection

end jmuduo.net
