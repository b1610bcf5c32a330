-- The texts of a timestamp (Timestamp.cc): the seconds with a fraction of six columns,
-- and the date with the time of day.
import Jmuduo.Calendar
import Jmuduo.Numerals
import Jmuduo.Outcome
import Mathlib.Tactic.NormNum
import Mathlib.Tactic.Ring

open outcome numerals calendar

namespace jmuduo

/-! ## The source -/

/-- `struct tm`, with the fields that the source reads. -/
structure Tm where
  tm_sec : Int
  tm_min : Int
  tm_hour : Int
  tm_mday : Int
  tm_mon : Int
  tm_year : Int
  deriving DecidableEq, Repr

/-- The time in UTC. It fails only where the year leaves `int`, which no timestamp
reaches. -/
def gmtime_r (seconds : Int) : Tm :=
  let date := yearOfDay (firstDay 1970 + seconds / 86400)
  let month := place (monthLengths (isLeap date.1)) date.2
  let rest := seconds % 86400
  { tm_sec := rest % 60
    tm_min := rest / 60 % 60
    tm_hour := rest / 3600
    tm_mday := month.2 + 1
    tm_mon := month.1
    tm_year := date.1 - 1900 }

structure Timestamp where
  microSecondsSinceEpoch_ : Int
  int64 : IsInt64 microSecondsSinceEpoch_

namespace Timestamp

def kMicroPerSecond : Int := 1000 * 1000

/-- The format of `toString`, `"%" PRId64 ".%6" PRId64`, with its arguments. -/
def toStringFormat (t : Timestamp) : List Directive :=
  let seconds := t.microSecondsSinceEpoch_.tdiv kMicroPerSecond
  let microSeconds := t.microSecondsSinceEpoch_.tmod kMicroPerSecond
  [.decimal 0 seconds, .text ['.'], .decimal 6 microSeconds]

def toString (t : Timestamp) : String :=
  let buf := List.replicate 32 nul
  let (buf, _) := snprintf buf t.toStringFormat
  String.ofList (stringOf buf)

/-- The format of `toFormattedString`, `"%4d-%2d-%2d %2d:%2d:%2d.%6d"`, with its
arguments. -/
def toFormattedStringFormat (t : Timestamp) : List Directive :=
  let seconds := t.microSecondsSinceEpoch_.tdiv kMicroPerSecond
  let resu := gmtime_r seconds
  let microSeconds := toInt (t.microSecondsSinceEpoch_.tmod kMicroPerSecond)
  [.decimal 4 (resu.tm_year + 1900), .text ['-'], .decimal 2 (resu.tm_mon + 1), .text ['-'],
    .decimal 2 resu.tm_mday, .text [' '], .decimal 2 resu.tm_hour, .text [':'],
    .decimal 2 resu.tm_min, .text [':'], .decimal 2 resu.tm_sec, .text ['.'],
    .decimal 6 microSeconds]

def toFormattedString (t : Timestamp) : String :=
  let buf := List.replicate 32 nul
  let (buf, _) := snprintf buf t.toFormattedStringFormat
  String.ofList (stringOf buf)

end Timestamp

/-! ## The time in UTC -/

namespace Tm

/-- The seconds since the epoch that the fields denote. -/
def seconds (tm : Tm) : Int :=
  let year := tm.tm_year + 1900
  let day := firstDay year - firstDay 1970 +
    ((monthLengths (isLeap year)).take tm.tm_mon.toNat).sum + (tm.tm_mday - 1)
  86400 * day + 3600 * tm.tm_hour + 60 * tm.tm_min + tm.tm_sec

/-- The fields are within their ranges. -/
structure InRange (tm : Tm) : Prop where
  sec : 0 ≤ tm.tm_sec ∧ tm.tm_sec < 60
  min : 0 ≤ tm.tm_min ∧ tm.tm_min < 60
  hour : 0 ≤ tm.tm_hour ∧ tm.tm_hour < 24
  mday : 1 ≤ tm.tm_mday ∧ tm.tm_mday ≤ 31
  mon : 0 ≤ tm.tm_mon ∧ tm.tm_mon < 12

end Tm

/-- The time in UTC denotes the seconds that it was made from. -/
theorem gmtime_r.spec (seconds : Int) :
    (gmtime_r seconds).seconds = seconds ∧ (gmtime_r seconds).InRange := by
  obtain ⟨hday, hpos, hlt⟩ := yearOfDay.spec (firstDay 1970 + seconds / 86400)
  generalize hdate : yearOfDay (firstDay 1970 + seconds / 86400) = date at hday hpos hlt
  rw [← sum_monthLengths] at hlt
  obtain ⟨hsum, hmday, length, hlength, hle⟩ := place.spec hpos hlt
  have hmonth : (place (monthLengths (isLeap date.1)) date.2).1 < 12 :=
    (List.getElem?_eq_some_iff.mp hlength).1
  have h31 : length ≤ 31 := monthLengths_le (List.mem_of_getElem? hlength)
  unfold gmtime_r Tm.seconds
  simp only [hdate]
  constructor
  · rw [Int.sub_add_cancel, Int.toNat_natCast, Int.add_sub_cancel]
    omega
  · refine ⟨?_, ?_, ?_, ?_, ?_⟩
    all_goals simp only
    all_goals omega

/-- A time of at most 13 digits has a year of at most six. -/
theorem gmtime_r_year {seconds : Int} (h0 : 0 ≤ seconds) (h : seconds < 10 ^ 13) :
    0 ≤ (gmtime_r seconds).tm_year + 1900 ∧ (gmtime_r seconds).tm_year + 1900 < 10 ^ 6 := by
  obtain ⟨hday, hpos, hlt⟩ := yearOfDay.spec (firstDay 1970 + seconds / 86400)
  unfold gmtime_r
  simp only [Int.sub_add_cancel]
  generalize yearOfDay (firstDay 1970 + seconds / 86400) = date at hday hpos hlt ⊢
  have hlength : yearLength date.1 ≤ 366 := by
    unfold yearLength
    split <;> decide
  unfold firstDay at hday
  omega

/-! ## The specs of the texts -/

namespace Timestamp

/-- A timestamp after the epoch in seconds and microseconds. -/
theorem parts {t : Timestamp} (h0 : 0 ≤ t.microSecondsSinceEpoch_) :
    ∃ s m : Nat, t.microSecondsSinceEpoch_.tdiv kMicroPerSecond = s ∧
      t.microSecondsSinceEpoch_.tmod kMicroPerSecond = m ∧ s < 10 ^ 13 ∧ m < 10 ^ 6 ∧
      t.microSecondsSinceEpoch_ = 1000000 * s + m := by
  have hs : t.microSecondsSinceEpoch_.tdiv kMicroPerSecond =
      t.microSecondsSinceEpoch_ / 1000000 := Int.tdiv_eq_ediv_of_nonneg h0
  have hm : t.microSecondsSinceEpoch_.tmod kMicroPerSecond =
      t.microSecondsSinceEpoch_ % 1000000 := Int.tmod_eq_emod_of_nonneg h0
  have hupper := t.int64.2
  refine ⟨(t.microSecondsSinceEpoch_ / 1000000).toNat,
    (t.microSecondsSinceEpoch_ % 1000000).toNat, ?_, ?_, ?_, ?_, ?_⟩
  · rw [hs]
    omega
  · rw [hm]
    omega
  all_goals omega

/-- The directives of the formatted text before the point. -/
def date (resu : Tm) : List Directive :=
  [.decimal 4 (resu.tm_year + 1900), .text ['-'], .decimal 2 (resu.tm_mon + 1), .text ['-'],
    .decimal 2 resu.tm_mday, .text [' '], .decimal 2 resu.tm_hour, .text [':'],
    .decimal 2 resu.tm_min, .text [':'], .decimal 2 resu.tm_sec]

theorem date_length_le {resu : Tm} (h : resu.InRange)
    (hyear : 0 ≤ resu.tm_year + 1900 ∧ resu.tm_year + 1900 < 10 ^ 6) :
    (format (date resu)).length ≤ 21 := by
  obtain ⟨hsec, hmin, hhour, hmday, hmon⟩ := h
  have htwo : ∀ n : Int, 0 ≤ n → n < 100 → (pad 2 n).length ≤ 2 :=
    fun n h0 h100 => pad_length_le (k := 2) (by decide) h0 h100
  have h1 : (pad 4 (resu.tm_year + 1900)).length ≤ 6 :=
    pad_length_le (k := 6) (by decide) hyear.1 hyear.2
  have h2 := htwo (resu.tm_mon + 1) (by omega) (by omega)
  have h3 := htwo resu.tm_mday (by omega) (by omega)
  have h4 := htwo resu.tm_hour (by omega) (by omega)
  have h5 := htwo resu.tm_min (by omega) (by omega)
  have h6 := htwo resu.tm_sec (by omega) (by omega)
  simp only [format, date, List.flatMap_cons, List.flatMap_nil, Directive.write,
    List.length_append, List.length_cons, List.length_nil]
  omega

theorem point_not_mem_date (resu : Tm) : '.' ∉ format (date resu) := by
  apply foreign_point.not_mem_format
  simp [date, Directive.Without]

theorem toStringFormat.spec (t : Timestamp) {s m : Nat}
    (hs : t.microSecondsSinceEpoch_.tdiv kMicroPerSecond = s)
    (hm : t.microSecondsSinceEpoch_.tmod kMicroPerSecond = m) :
    format t.toStringFormat = pad 0 s ++ '.' :: pad 6 m := by
  unfold toStringFormat
  rw [hs, hm]
  simp [format, Directive.write]

theorem toFormattedStringFormat.spec (t : Timestamp) {m : Nat}
    (hm : t.microSecondsSinceEpoch_.tmod kMicroPerSecond = m) (hm6 : m < 10 ^ 6) :
    format t.toFormattedStringFormat =
      format (date (gmtime_r (t.microSecondsSinceEpoch_.tdiv kMicroPerSecond))) ++
        '.' :: pad 6 m := by
  have hint : toInt m = m := toInt_eq (by omega) (by omega)
  have hsplit : t.toFormattedStringFormat =
      date (gmtime_r (t.microSecondsSinceEpoch_.tdiv kMicroPerSecond)) ++
        [.text ['.'], .decimal 6 (toInt (t.microSecondsSinceEpoch_.tmod kMicroPerSecond))] := rfl
  rw [hsplit, hm, hint, format_append]
  simp [format, Directive.write]

/-- The whole text of `toString`. It has at most 20 of the 31 characters. -/
theorem toString.spec (t : Timestamp) {s m : Nat}
    (hs : t.microSecondsSinceEpoch_.tdiv kMicroPerSecond = s)
    (hm : t.microSecondsSinceEpoch_.tmod kMicroPerSecond = m) (hs13 : s < 10 ^ 13)
    (hm6 : m < 10 ^ 6) :
    (format t.toStringFormat).length < 32 ∧
    t.toString.toList = pad 0 s ++ '.' :: pad 6 m := by
  have htext := toStringFormat.spec t hs hm
  have hwhole : (pad 0 s).length ≤ 13 :=
    pad_length_le (k := 13) (by decide) (Int.natCast_nonneg s) (by exact_mod_cast hs13)
  have hfraction : (pad 6 m).length ≤ 6 :=
    pad_length_le (k := 6) (by decide) (Int.natCast_nonneg m) (by exact_mod_cast hm6)
  have hfits : (format t.toStringFormat).length < 32 := by
    rw [htext, List.length_append, List.length_cons]
    omega
  have hnul : ∀ d ∈ t.toStringFormat, d.Without nul := by
    simp [toStringFormat, Directive.Without, nul]
  refine ⟨hfits, ?_⟩
  unfold toString
  simp only
  rw [String.toList_ofList, stringOf_snprintf (by rwa [List.length_replicate]) hnul, htext]

/-- The whole text of `toFormattedString`, which has at most 28 characters. -/
theorem toFormattedString.spec (t : Timestamp) {s m : Nat}
    (hs : t.microSecondsSinceEpoch_.tdiv kMicroPerSecond = s)
    (hm : t.microSecondsSinceEpoch_.tmod kMicroPerSecond = m) (hs13 : s < 10 ^ 13)
    (hm6 : m < 10 ^ 6) :
    t.toFormattedString.toList = format (date (gmtime_r s)) ++ '.' :: pad 6 m := by
  have htext := toFormattedStringFormat.spec t hm hm6
  rw [hs] at htext
  have hyear := gmtime_r_year (Int.natCast_nonneg s) (by exact_mod_cast hs13)
  have hdate := date_length_le (gmtime_r.spec s).2 hyear
  have hfraction : (pad 6 m).length ≤ 6 :=
    pad_length_le (k := 6) (by decide) (Int.natCast_nonneg m) (by exact_mod_cast hm6)
  have hfits : (format t.toFormattedStringFormat).length < 32 := by
    rw [htext, List.length_append, List.length_cons]
    omega
  have hnul : ∀ d ∈ t.toFormattedStringFormat, d.Without nul := by
    simp [toFormattedStringFormat, Directive.Without, nul]
  unfold toFormattedString
  simp only
  rw [String.toList_ofList, stringOf_snprintf (by rwa [List.length_replicate]) hnul, htext]

example : toFormattedString ⟨1000000000123456, by decide⟩ = "2001- 9- 9  1:46:40.123456" := by
  decide +kernel

/-! ## The law -/

/-- The text is a numeral for the seconds with six digits behind its point. It fits the
buffer, and it reads as the timestamp again. In the formatted text, the six digits of
the microseconds are behind the point. -/
structure Denotes (t : Timestamp) : Prop where
  numeral : Numeral 6 t.toString.toList (t.microSecondsSinceEpoch_ / 10 ^ 6)
  fits : (snprintf (List.replicate 32 nul) t.toStringFormat).2 < 32
  parsed : (parse t.toString.toList).map (· * 10 ^ 6) = some (t.microSecondsSinceEpoch_ : ℚ)
  field : ∃ date field, t.toFormattedString.toList = date ++ '.' :: field ∧ '.' ∉ date ∧
    Digits 6 field (t.microSecondsSinceEpoch_ % 1000000).toNat

theorem six_digits_iff {t : Timestamp} {s m : Nat} (hm6 : m < 10 ^ 6)
    (ht : t.microSecondsSinceEpoch_ = 1000000 * s + m) :
    10 ^ (6 - 1) ≤ m ↔ 100000 ≤ t.microSecondsSinceEpoch_ % 1000000 := by
  omega

/-- The text of `toString` is a numeral exactly if the microseconds have six digits. -/
theorem numeral_iff {t : Timestamp} (h0 : 0 ≤ t.microSecondsSinceEpoch_) {k : Nat} {q : ℚ} :
    Numeral k t.toString.toList q ↔ 100000 ≤ t.microSecondsSinceEpoch_ % 1000000 ∧ k = 6 ∧
      q = t.microSecondsSinceEpoch_ / 10 ^ 6 := by
  obtain ⟨s, m, hs, hm, hs13, hm6, ht⟩ := parts h0
  rw [(toString.spec t hs hm hs13 hm6).2, numeral_pad_iff (by decide) hm6]
  have hq : (s : ℚ) + m / 10 ^ 6 = t.microSecondsSinceEpoch_ / 10 ^ 6 := by
    rw [ht]
    push_cast
    ring
  rw [six_digits_iff hm6 ht, hq]

/-- The field of `toFormattedString` is six digits exactly then, too. -/
theorem field_iff {t : Timestamp} (h0 : 0 ≤ t.microSecondsSinceEpoch_) :
    (∃ date field, t.toFormattedString.toList = date ++ '.' :: field ∧ '.' ∉ date ∧
      Digits 6 field (t.microSecondsSinceEpoch_ % 1000000).toNat) ↔
      100000 ≤ t.microSecondsSinceEpoch_ % 1000000 := by
  obtain ⟨s, m, hs, hm, hs13, hm6, ht⟩ := parts h0
  have hmod : (t.microSecondsSinceEpoch_ % 1000000).toNat = m := by omega
  have hpoint := point_not_mem_date (gmtime_r s)
  rw [toFormattedString.spec t hs hm hs13 hm6, hmod, ← six_digits_iff hm6 ht]
  constructor
  · rintro ⟨front, field, htext, _, hdigits⟩
    obtain ⟨_, rfl⟩ := parts_of_point hpoint htext
    exact (digits_pad_iff (by decide) hm6).mp hdigits
  · intro h
    exact ⟨_, _, rfl, hpoint, (digits_pad_iff (by decide) hm6).mpr h⟩

/-- A timestamp after the epoch is denoted by its texts if and only if its microseconds
have six digits. Where they have fewer, the directive `%6` puts blanks in the place of
the zeros behind the point. -/
theorem the_texts_denote_the_timestamp_iff_nothing_is_padded (t : Timestamp)
    (h0 : 0 ≤ t.microSecondsSinceEpoch_) :
    t.Denotes ↔ 100000 ≤ t.microSecondsSinceEpoch_ % 1000000 := by
  constructor
  · intro h
    exact ((numeral_iff h0).mp h.numeral).1
  · intro h
    have hnumeral := (numeral_iff h0).mpr ⟨h, rfl, rfl⟩
    obtain ⟨s, m, hs, hm, hs13, hm6, _⟩ := parts h0
    refine ⟨hnumeral, (toString.spec t hs hm hs13 hm6).1, ?_, (field_iff h0).mpr h⟩
    rw [parse_eq_some.mpr ⟨6, hnumeral⟩, Option.map_some, div_mul_cancel₀ _ (by norm_num)]

/-- The microseconds are 234567. -/
theorem the_texts_denote_1_234567 : Denotes ⟨1234567, by decide⟩ :=
  (the_texts_denote_the_timestamp_iff_nothing_is_padded ⟨1234567, by decide⟩ (by decide)).mpr
    (by decide)

/-- One second and one microsecond: the text has five blanks behind the point, and no
reader of numerals takes it. -/
theorem one_microsecond_is_written_with_blanks :
    toString ⟨1000001, by decide⟩ = "1.     1" ∧
      parse (toString ⟨1000001, by decide⟩).toList = none ∧ ¬ Denotes ⟨1000001, by decide⟩ := by
  have hno : ∀ k q, ¬ Numeral k (toString ⟨1000001, by decide⟩).toList q := by
    intro k q h
    have hlow := ((numeral_iff (by decide)).mp h).1
    revert hlow
    decide
  refine ⟨by decide +kernel, ?_, fun h => hno _ _ h.numeral⟩
  rw [Option.eq_none_iff_forall_ne_some]
  intro q hq
  obtain ⟨k, hk⟩ := parse_eq_some.mp hq
  exact hno k q hk

end Timestamp

end jmuduo
