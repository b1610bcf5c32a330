-- How long a timerfd waits (TimerQueue.cc): the time from now to a timer, in whole
-- microseconds and at least 100 of them, as a timespec.
import Jmuduo.Outcome

open outcome

namespace jmuduo.detail

/-! ## The delay of the source -/

/-- `struct timespec`. -/
structure Timespec where
  tv_sec : Int
  tv_nsec : Int
  deriving DecidableEq, Repr

def kMicroPerSecond : Int := 1000 * 1000

/-- The division and the remainder of C++ go towards zero. -/
def howmuchTimeFromNow (timestamp now : Int) : Outcome Timespec := do
  let diff ← int64Sub timestamp now
  let diff := if diff < 100 then 100 else diff
  pure ⟨diff.tdiv kMicroPerSecond, diff.tmod kMicroPerSecond * 1000⟩

/-- A timerfd: the nanoseconds until it expires, and none while it is disarmed. -/
abbrev Timerfd := Option Int

/-- The system call with a relative time, and its return value. It fails where the
fields are no time, and zero disarms the timerfd. -/
def timerfd_settime (value : Timespec) (fd : Timerfd) : Int × Timerfd :=
  if 0 ≤ value.tv_sec ∧ 0 ≤ value.tv_nsec ∧ value.tv_nsec < 10 ^ 9 then
    if value.tv_sec = 0 ∧ value.tv_nsec = 0 then (0, none)
    else (0, some (value.tv_sec * 10 ^ 9 + value.tv_nsec))
  else (-1, fd)

def resetTimerfd (timestamp now : Int) (fd : Timerfd) : Outcome Timerfd := do
  let newvalue ← howmuchTimeFromNow timestamp now
  let (ret, fd) := timerfd_settime newvalue fd
  check "!ret" (ret = 0)
  pure fd

/-! ## The specs -/

/-- A time that the system call takes, and that does not disarm. -/
structure Timespec.Valid (value : Timespec) : Prop where
  sec : 0 ≤ value.tv_sec
  nsec : 0 ≤ value.tv_nsec
  lt : value.tv_nsec < 10 ^ 9
  nonzero : value.tv_sec ≠ 0 ∨ value.tv_nsec ≠ 0

/-- The nanoseconds of a time. -/
def Timespec.nanos (value : Timespec) : Int := value.tv_sec * 10 ^ 9 + value.tv_nsec

/-- A quotient and a remainder are the microseconds again. -/
theorem timespec_of_diff {diff : Int} (h : 0 < diff) :
    (⟨diff.tdiv kMicroPerSecond, diff.tmod kMicroPerSecond * 1000⟩ : Timespec).Valid ∧
    (⟨diff.tdiv kMicroPerSecond, diff.tmod kMicroPerSecond * 1000⟩ : Timespec).nanos =
      diff * 1000 := by
  have hq : diff.tdiv kMicroPerSecond = diff / 1000000 := Int.tdiv_eq_ediv_of_nonneg (by omega)
  have hr : diff.tmod kMicroPerSecond = diff % 1000000 := Int.tmod_eq_emod_of_nonneg (by omega)
  rw [hq, hr]
  have hsplit := Int.mul_ediv_add_emod diff 1000000
  have hlt := Int.emod_lt_of_pos diff (by decide : (0 : Int) < 1000000)
  have hnonneg := Int.emod_nonneg diff (by decide : (1000000 : Int) ≠ 0)
  refine ⟨⟨?_, ?_, ?_, ?_⟩, ?_⟩
  · exact Int.ediv_nonneg (by omega) (by decide)
  · simp only
    omega
  · simp only
    omega
  · simp only
    omega
  · simp only [Timespec.nanos]
    omega

theorem howmuchTimeFromNow.spec {timestamp now : Int} (h : IsInt64 (timestamp - now)) :
    ∃ value, howmuchTimeFromNow timestamp now = .ok value ∧ value.Valid ∧
      value.nanos = max (timestamp - now) 100 * 1000 := by
  have hclamp : (if timestamp - now < 100 then 100 else timestamp - now) =
      max (timestamp - now) 100 := by
    split <;> omega
  have hpos : 0 < max (timestamp - now) 100 := by omega
  obtain ⟨hvalid, hnanos⟩ := timespec_of_diff hpos
  refine ⟨_, ?_, hvalid, hnanos⟩
  simp only [howmuchTimeFromNow, int64Sub, if_pos h, ok_bind, pure_eq_ok, hclamp]

theorem timerfd_settime_of_valid {value : Timespec} (h : value.Valid) (fd : Timerfd) :
    timerfd_settime value fd = (0, some value.nanos) := by
  have hzero : ¬ (value.tv_sec = 0 ∧ value.tv_nsec = 0) := by
    have hnonzero := h.nonzero
    omega
  unfold timerfd_settime Timespec.nanos
  rw [if_pos ⟨h.sec, h.nsec, h.lt⟩, if_neg hzero]

/-! ## The law -/

/-- The delay is computed, is a time, and is the one from now to the timer, or 100
microseconds. The timerfd is armed for it. -/
structure ExactDelay (timestamp now : Int) : Prop where
  value : ∃ value, howmuchTimeFromNow timestamp now = .ok value ∧ value.Valid ∧
    value.nanos = max (timestamp - now) 100 * 1000
  armed : ∀ fd, ∃ nanos, resetTimerfd timestamp now fd = .ok (some nanos) ∧
    nanos = max (timestamp - now) 100 * 1000 ∧ (timestamp ≤ now → nanos ≤ 100 * 1000)

/-- For all times after the epoch and all timestamps, the delay is exact if and only
if the difference does not leave the type. It can only leave it downwards. -/
theorem the_delay_is_exact_iff_the_difference_fits (timestamp now : Int)
    (htimestamp : IsInt64 timestamp) (h0 : 0 ≤ now) :
    ExactDelay timestamp now ↔ -2 ^ 63 ≤ timestamp - now := by
  constructor
  · rintro ⟨⟨value, hok, _⟩, _⟩
    by_contra hlow
    have hno : ¬ IsInt64 (timestamp - now) := fun h => hlow h.1
    rw [howmuchTimeFromNow, int64Sub, if_neg hno] at hok
    cases hok
  · intro hlow
    have hupper := htimestamp.2
    have hfits : IsInt64 (timestamp - now) := ⟨hlow, by omega⟩
    obtain ⟨value, hok, hvalid, hnanos⟩ := howmuchTimeFromNow.spec hfits
    refine ⟨⟨value, hok, hvalid, hnanos⟩, fun fd => ⟨value.nanos, ?_, hnanos, fun hpast => ?_⟩⟩
    · rw [resetTimerfd, hok, ok_bind]
      simp only [timerfd_settime_of_valid hvalid]
      rfl
    · rw [hnanos]
      omega

/-- A timer of the past is armed 100 microseconds ahead. -/
theorem the_delay_of_a_past_timer_is_exact : ExactDelay (-5) 7 :=
  (the_delay_is_exact_iff_the_difference_fits (-5) 7 (by decide) (by decide)).mpr
    (by decide)

/-- The earliest timestamp of all, one microsecond after the epoch. -/
theorem the_delay_of_the_earliest_timer_overflows :
    IsInt64 (-2 ^ 63) ∧ howmuchTimeFromNow (-2 ^ 63) 1 = .error .overflow ∧
      ¬ ExactDelay (-2 ^ 63) 1 := by
  have hfault : howmuchTimeFromNow (-2 ^ 63) 1 = .error .overflow := by decide
  refine ⟨by decide, hfault, ?_⟩
  rintro ⟨⟨value, hok, _⟩, _⟩
  rw [hfault] at hok
  cases hok

end jmuduo.detail
