-- Numbers as text: what the directives of printf write, how it comes through a
-- buffer, and which texts are numerals with a decimal point.
import Mathlib.Algebra.Order.Field.Rat
import Mathlib.Data.List.Basic

namespace numerals

/-! ## The directives -/

/-- A number as `%<width>d` writes it: blanks stand before one that is shorter. -/
def pad (width : Nat) (n : Int) : List Char := n.repr.toList.leftpad width ' '

/-- A part of a format: characters that stand for themselves, or `%<width>d` with its
argument. The width of `%d` is 0. -/
inductive Directive
  | text (cs : List Char)
  | decimal (width : Nat) (n : Int)

def Directive.write : Directive → List Char
  | .text cs => cs
  | .decimal width n => pad width n

def format (ds : List Directive) : List Char := ds.flatMap Directive.write

theorem format_append (ds es : List Directive) : format (ds ++ es) = format ds ++ format es :=
  List.flatMap_append

/-! ## The buffer -/

/-- The end mark of a string. -/
def nul : Char := Char.ofNat 0

/-- `snprintf(buf, sizeof(buf), ...)`. The text is cut so that its end mark fits, and
the result is the length of the whole text. -/
def snprintf (buf : List Char) (ds : List Directive) : List Char × Nat :=
  let text := (format ds).take (buf.length - 1)
  ((text ++ nul :: buf.drop (text.length + 1)).take buf.length, (format ds).length)

/-- The string in a buffer, up to its end mark. -/
def stringOf (buf : List Char) : List Char := buf.takeWhile (· ≠ nul)

/-! ## What the directives write -/

theorem pad_natCast (width n : Nat) : pad width n = (Nat.toDigits 10 n).leftpad width ' ' := by
  unfold pad
  rw [Int.repr_eq_if, if_pos (Int.natCast_nonneg n), Int.toNat_natCast, Nat.toList_repr]

/-- A number of at most `k` digits takes no more characters, or the width. -/
theorem pad_length_le {width k : Nat} {n : Int} (hk : 0 < k) (h0 : 0 ≤ n) (hn : n < 10 ^ k) :
    (pad width n).length ≤ max width k := by
  obtain ⟨m, rfl⟩ := Int.eq_ofNat_of_zero_le h0
  have hm : m < 10 ^ k := by exact_mod_cast hn
  have hdigits := (Nat.length_toDigits_le_iff (by decide) hk).mpr hm
  rw [pad_natCast, List.length_leftpad]
  omega

/-- A character that no number has. -/
structure Foreign (c : Char) : Prop where
  ne_blank : c ≠ ' '
  ne_minus : c ≠ '-'
  no_digit : c.isDigit = false

theorem Foreign.not_mem_repr {c : Char} (h : Foreign c) (n : Nat) : c ∉ n.repr.toList := by
  intro hc
  rw [Nat.toList_repr] at hc
  have hdigit := Nat.isDigit_of_mem_toDigits (by decide) (by decide) hc
  rw [h.no_digit] at hdigit
  cases hdigit

theorem Foreign.not_mem_pad {c : Char} (h : Foreign c) (width : Nat) (n : Int) :
    c ∉ pad width n := by
  intro hc
  unfold pad List.leftpad at hc
  rcases List.mem_append.mp hc with hblank | hnumber
  · exact h.ne_blank (List.eq_of_mem_replicate hblank)
  · rw [Int.repr_eq_if] at hnumber
    split at hnumber
    · exact h.not_mem_repr _ hnumber
    · rw [String.toList_append, List.mem_append] at hnumber
      rcases hnumber with hsign | hnumber
      · exact h.ne_minus (by simpa using hsign)
      · exact h.not_mem_repr _ hnumber

/-- The directive is not a text with the character. -/
def Directive.Without (c : Char) : Directive → Prop
  | .text cs => c ∉ cs
  | .decimal _ _ => True

theorem Foreign.not_mem_format {c : Char} (h : Foreign c) {ds : List Directive}
    (hds : ∀ d ∈ ds, d.Without c) : c ∉ format ds := by
  intro hc
  obtain ⟨d, hd, hc⟩ := List.mem_flatMap.mp hc
  cases d with
  | text cs => exact hds _ hd hc
  | decimal width n => exact h.not_mem_pad width n hc

theorem foreign_nul : Foreign nul := ⟨by decide, by decide, by decide⟩

theorem foreign_point : Foreign '.' := ⟨by decide, by decide, by decide⟩

/-- A text without end marks that is shorter than the buffer comes through it. -/
theorem stringOf_snprintf {buf : List Char} {ds : List Directive}
    (hfits : (format ds).length < buf.length) (hds : ∀ d ∈ ds, d.Without nul) :
    stringOf (snprintf buf ds).1 = format ds := by
  have htake : (format ds).take (buf.length - 1) = format ds :=
    List.take_of_length_le (by omega)
  have hcut : (format ds ++ nul :: buf.drop ((format ds).length + 1)).take buf.length =
      format ds ++ nul :: buf.drop ((format ds).length + 1) := by
    apply List.take_of_length_le
    simp only [List.length_append, List.length_cons, List.length_drop]
    omega
  unfold stringOf snprintf
  simp only [htake, hcut]
  rw [List.takeWhile_append_of_pos]
  · simp
  · intro c hc
    rw [decide_eq_true_eq]
    rintro rfl
    exact foreign_nul.not_mem_format hds hc

/-! ## The numerals -/

/-- Digits and nothing else, and at least one of them. -/
def IsNumber (cs : List Char) : Prop := cs ≠ [] ∧ ∀ c ∈ cs, c.isDigit = true

instance : DecidablePred IsNumber := fun _ => inferInstanceAs (Decidable (_ ∧ _))

def value (cs : List Char) : Nat := Nat.ofDigitChars 10 cs 0

/-- The text has `k` characters, which are digits with the value `n`. -/
structure Digits (k : Nat) (cs : List Char) (n : Nat) : Prop where
  number : IsNumber cs
  length : cs.length = k
  value : value cs = n

/-- The text is a numeral for `q`, with `k` digits behind its point. -/
def Numeral (k : Nat) (text : List Char) (q : ℚ) : Prop :=
  ∃ whole fraction n, text = whole ++ '.' :: fraction ∧ IsNumber whole ∧
    Digits k fraction n ∧ q = value whole + n / 10 ^ k

/-- Reads a numeral with a point. -/
def parse (text : List Char) : Option ℚ :=
  let whole := text.takeWhile (· ≠ '.')
  let fraction := (text.dropWhile (· ≠ '.')).tail
  if IsNumber whole ∧ IsNumber fraction then
    some (value whole + value fraction / 10 ^ fraction.length)
  else none

theorem IsNumber.ne_point {cs : List Char} (h : IsNumber cs) : '.' ∉ cs := by
  intro hin
  have hdigit := h.2 '.' hin
  cases hdigit

/-- A point is where the digits before it end. -/
theorem split_at_point {whole fraction : List Char} (h : '.' ∉ whole) :
    (whole ++ '.' :: fraction).takeWhile (· ≠ '.') = whole ∧
    (whole ++ '.' :: fraction).dropWhile (· ≠ '.') = '.' :: fraction := by
  have hall : ∀ c ∈ whole, decide (c ≠ '.') = true := by
    intro c hc
    rw [decide_eq_true_eq]
    rintro rfl
    exact h hc
  constructor
  · rw [List.takeWhile_append_of_pos hall]
    simp
  · rw [List.dropWhile_append_of_pos hall]
    simp

/-- The reader takes the numerals, and gives their numbers. -/
theorem parse_eq_some {text : List Char} {q : ℚ} :
    parse text = some q ↔ ∃ k, Numeral k text q := by
  constructor
  · intro h
    simp only [parse] at h
    split at h
    · rename_i hnumbers
      obtain ⟨hwhole, hfraction⟩ := hnumbers
      have hsplit := List.takeWhile_append_dropWhile (p := fun c => decide (c ≠ '.')) (l := text)
      have hstop := List.head?_dropWhile_not (fun c => decide (c ≠ '.')) text
      cases hrest : text.dropWhile (· ≠ '.') with
      | nil =>
        rw [hrest] at hfraction
        exact absurd rfl hfraction.1
      | cons c fraction =>
        rw [hrest] at hsplit hstop hfraction h
        have hpoint : c = '.' := by simpa using hstop
        rw [hpoint] at hsplit
        cases h
        exact ⟨_, _, _, _, hsplit.symm, hwhole, ⟨hfraction, rfl, rfl⟩, rfl⟩
    · cases h
  · rintro ⟨k, whole, fraction, n, rfl, hwhole, ⟨hfraction, rfl, rfl⟩, rfl⟩
    obtain ⟨htake, hdrop⟩ : _ ∧ (whole ++ '.' :: fraction).dropWhile (· ≠ '.') = _ :=
      split_at_point hwhole.ne_point
    simp only [parse, htake, hdrop, List.tail_cons]
    rw [if_pos ⟨hwhole, hfraction⟩]

/-! ## A number and its blanks -/

theorem isNumber_toDigits (n : Nat) : IsNumber (Nat.toDigits 10 n) :=
  ⟨Nat.toDigits_ne_nil, fun _ hc => Nat.isDigit_of_mem_toDigits (by decide) (by decide) hc⟩

theorem value_toDigits (n : Nat) : value (Nat.toDigits 10 n) = n :=
  Nat.ofDigitChars_ten_toDigits

theorem pad_zero (n : Nat) : pad 0 n = Nat.toDigits 10 n := by
  rw [pad_natCast, List.leftpad, Nat.zero_sub]
  rfl

/-- A number is as long as the width exactly if it reaches the least number of that
length. -/
theorem le_length_toDigits_iff {width n : Nat} (hw : 1 < width) :
    width ≤ (Nat.toDigits 10 n).length ↔ 10 ^ (width - 1) ≤ n := by
  have hshort : (Nat.toDigits 10 n).length ≤ width - 1 ↔ n < 10 ^ (width - 1) :=
    Nat.length_toDigits_le_iff (by decide) (by omega)
  omega

/-- A number that is as long as the width has no blanks. -/
theorem pad_of_long {width n : Nat} (hw : 1 < width) (hn : 10 ^ (width - 1) ≤ n) :
    pad width n = Nat.toDigits 10 n := by
  have hlong := (le_length_toDigits_iff hw).mpr hn
  rw [pad_natCast, List.leftpad, Nat.sub_eq_zero_of_le hlong]
  rfl

/-- With a width of more than one digit, a number is all digits exactly if it has as
many, and else a blank stands first. -/
theorem isNumber_pad_iff {width n : Nat} (hw : 1 < width) :
    IsNumber (pad width n) ↔ 10 ^ (width - 1) ≤ n := by
  constructor
  · intro h
    by_contra hlow
    have hshort := mt (le_length_toDigits_iff hw).mp hlow
    rw [pad_natCast, List.leftpad] at h
    have hdigit := h.2 ' ' (List.mem_append_left _ (List.mem_replicate.mpr ⟨by omega, rfl⟩))
    cases hdigit
  · intro hn
    rw [pad_of_long hw hn]
    exact isNumber_toDigits n

/-- A padded number is its digits exactly if there is nothing to pad. -/
theorem digits_pad_iff {width n : Nat} (hw : 1 < width) (hn : n < 10 ^ width) :
    Digits width (pad width n) n ↔ 10 ^ (width - 1) ≤ n := by
  constructor
  · intro h
    exact (isNumber_pad_iff hw).mp h.number
  · intro hlow
    have hshort : (pad width n).length ≤ max width width :=
      pad_length_le (by omega) (Int.natCast_nonneg n) (by exact_mod_cast hn)
    rw [pad_of_long hw hlow] at hshort ⊢
    have hlong := (le_length_toDigits_iff hw).mpr hlow
    refine ⟨isNumber_toDigits n, ?_, value_toDigits n⟩
    omega

/-- A text with one point, and a number behind it, has no other parts. -/
theorem parts_of_point {front whole fraction : List Char} {width : Nat} {n : Int}
    (hfront : '.' ∉ front) (h : front ++ '.' :: pad width n = whole ++ '.' :: fraction) :
    whole = front ∧ fraction = pad width n := by
  rw [List.append_cons_inj_of_notMem hfront (foreign_point.not_mem_pad width n)] at h
  exact ⟨h.1.symm, h.2.2.symm⟩

/-- A whole part, and a fraction that is padded to its width: they are a numeral
exactly if there is nothing to pad. -/
theorem numeral_pad_iff {width s n : Nat} (hw : 1 < width) (hn : n < 10 ^ width) {k : Nat}
    {q : ℚ} :
    Numeral k (pad 0 s ++ '.' :: pad width n) q ↔
      10 ^ (width - 1) ≤ n ∧ k = width ∧ q = s + n / 10 ^ width := by
  rw [pad_zero]
  constructor
  · rintro ⟨whole, fraction, m, htext, _, hfraction, rfl⟩
    obtain ⟨rfl, rfl⟩ := parts_of_point (isNumber_toDigits s).ne_point htext
    have hlow := (isNumber_pad_iff hw).mp hfraction.number
    have hdigits := (digits_pad_iff hw hn).mpr hlow
    have hk : k = width := hfraction.length.symm.trans hdigits.length
    have hm : m = n := hfraction.value.symm.trans hdigits.value
    rw [hk, hm, value_toDigits]
    exact ⟨hlow, rfl, rfl⟩
  · rintro ⟨hlow, rfl, rfl⟩
    refine ⟨_, _, n, rfl, isNumber_toDigits s, (digits_pad_iff hw hn).mpr hlow, ?_⟩
    rw [value_toDigits]

end numerals
