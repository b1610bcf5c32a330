-- The Gregorian calendar, carried on in both directions: the year and the month of a
-- day that is given by its number.
import Mathlib.Algebra.BigOperators.Group.List.Basic
import Mathlib.Algebra.Ring.Int.Defs

namespace calendar

/-! ## The years -/

def isLeap (year : Int) : Bool := year % 4 = 0 ∧ (year % 100 ≠ 0 ∨ year % 400 = 0)

def yearLength (year : Int) : Int := if isLeap year then 366 else 365

/-- The number of the first day of the year. Day 0 is the first one of the year 1. -/
def firstDay (year : Int) : Int :=
  365 * (year - 1) + (year - 1) / 4 - (year - 1) / 100 + (year - 1) / 400

/-- The year of a day, and the days of the year before it. The last century of four
and the last year of four have one day more than the others. -/
def yearOfDay (day : Int) : Int × Int :=
  let cycles := day / 146097
  let rest := day % 146097
  let centuries := min (rest / 36524) 3
  let rest := rest - 36524 * centuries
  let fours := rest / 1461
  let rest := rest % 1461
  let years := min (rest / 365) 3
  (400 * cycles + 100 * centuries + 4 * fours + years + 1, rest - 365 * years)

/-- The parts of a year that `yearOfDay` puts together: cycles of 400 years, centuries,
groups of four years, and years. -/
structure Parts (centuries fours years : Int) : Prop where
  centuries : 0 ≤ centuries ∧ centuries ≤ 3
  fours : 0 ≤ fours ∧ fours ≤ 24
  years : 0 ≤ years ∧ years ≤ 3

theorem Parts.firstDay_eq {a b c d : Int} (h : Parts b c d) :
    firstDay (400 * a + 100 * b + 4 * c + d + 1) =
      146097 * a + 36524 * b + 1461 * c + 365 * d := by
  obtain ⟨hb, hc, hd⟩ := h
  have h4 : (400 * a + 100 * b + 4 * c + d + 1 - 1) / 4 = 100 * a + 25 * b + c := by omega
  have h100 : (400 * a + 100 * b + 4 * c + d + 1 - 1) / 100 = 4 * a + b := by omega
  have h400 : (400 * a + 100 * b + 4 * c + d + 1 - 1) / 400 = a := by omega
  unfold firstDay
  rw [h4, h100, h400]
  omega

theorem Parts.isLeap_iff {a b c d : Int} (h : Parts b c d) :
    isLeap (400 * a + 100 * b + 4 * c + d + 1) = true ↔ d = 3 ∧ (c = 24 → b = 3) := by
  obtain ⟨hb, hc, hd⟩ := h
  unfold isLeap
  rw [decide_eq_true_eq]
  omega

theorem yearOfDay_parts (day : Int) :
    ∃ a b c d rest, Parts b c d ∧ yearOfDay day = (400 * a + 100 * b + 4 * c + d + 1, rest) ∧
      day = 146097 * a + 36524 * b + 1461 * c + 365 * d + rest ∧
      0 ≤ rest ∧ rest ≤ 365 ∧ (rest = 365 → d = 3 ∧ (c = 24 → b = 3)) := by
  refine ⟨_, _, _, _, _, ⟨⟨?_, ?_⟩, ⟨?_, ?_⟩, ⟨?_, ?_⟩⟩, rfl, ?_, ?_, ?_, ?_⟩
  all_goals omega

/-- The year begins before the day, and the day is one of the year. -/
theorem yearOfDay.spec (day : Int) :
    firstDay (yearOfDay day).1 + (yearOfDay day).2 = day ∧
    0 ≤ (yearOfDay day).2 ∧ (yearOfDay day).2 < yearLength (yearOfDay day).1 := by
  obtain ⟨a, b, c, d, rest, hparts, heq, hday, hpos, hle, hlast⟩ := yearOfDay_parts day
  rw [heq]
  refine ⟨by rw [hparts.firstDay_eq, hday], hpos, ?_⟩
  unfold yearLength
  split
  · omega
  · rename_i hcommon
    have hne : rest ≠ 365 := fun h => hcommon (hparts.isLeap_iff.mpr (hlast h))
    omega

/-! ## The months -/

def monthLengths (leap : Bool) : List Int :=
  [31, if leap then 29 else 28, 31, 30, 31, 30, 31, 31, 30, 31, 30, 31]

theorem sum_monthLengths (year : Int) : (monthLengths (isLeap year)).sum = yearLength year := by
  unfold yearLength
  cases isLeap year <;> rfl

theorem monthLengths_le {leap : Bool} {length : Int} (h : length ∈ monthLengths leap) :
    length ≤ 31 := by
  have hall : ∀ leap, ∀ length ∈ monthLengths leap, length ≤ 31 := by decide
  exact hall leap length h

/-- The first of the lengths that the day does not reach beyond, and the days of it
before this one. -/
def place : List Int → Int → Nat × Int
  | [], day => (0, day)
  | length :: lengths, day =>
    if day < length then (0, day)
    else ((place lengths (day - length)).1 + 1, (place lengths (day - length)).2)

/-- A day within the sum of the lengths is in one of them. -/
theorem place.spec {lengths : List Int} {day : Int} (h0 : 0 ≤ day) (h : day < lengths.sum) :
    (lengths.take (place lengths day).1).sum + (place lengths day).2 = day ∧
    0 ≤ (place lengths day).2 ∧
    ∃ length, lengths[(place lengths day).1]? = some length ∧ (place lengths day).2 < length := by
  induction lengths generalizing day with
  | nil =>
    rw [List.sum_nil] at h
    omega
  | cons length lengths ih =>
    unfold place
    split
    · rename_i hlt
      exact ⟨Int.zero_add day, h0, length, rfl, hlt⟩
    · rename_i hge
      rw [List.sum_cons] at h
      have hday : 0 ≤ day - length := by omega
      have hrest : day - length < lengths.sum := by omega
      obtain ⟨hsum, hpos, found, hfound, hlt⟩ := ih hday hrest
      refine ⟨?_, hpos, found, hfound, hlt⟩
      rw [List.take_succ_cons, List.sum_cons]
      omega

end calendar
