-- Addresses as text: four octets in decimal with points between them, how the
-- text comes through a buffer, and which texts a reader takes.
import Jmuduo.Endian
import Jmuduo.Numerals

open endian numerals

namespace dotted

/-! ## The two directions -/

/-- Four octets, in the order of the network. -/
structure Quad where
  octets : List Byte
  four : octets.length = 4
  deriving DecidableEq, Repr

/-- The number of an octet, without leading zeros. -/
def digits (b : Byte) : List Char := Nat.toDigits 10 b.toNat

def write (q : Quad) : List Char := ['.'].intercalate (q.octets.map digits)

/-- Up to three digits, up to 255. Where `zeros` does not hold, the reader
takes no leading zero. -/
def octet (zeros : Bool) (cs : List Char) : Option Byte :=
  if IsNumber cs ∧ cs.length ≤ 3 ∧ value cs < 256 ∧
      (zeros = true ∨ cs.length = 1 ∨ cs.head? ≠ some '0') then
    some (BitVec.ofNat 8 (value cs))
  else none

def read (zeros : Bool) (text : List Char) : Option Quad :=
  match (text.splitOn '.').mapM (octet zeros) with
  | some octets => if h : octets.length = 4 then some ⟨octets, h⟩ else none
  | none => none

/-- A text goes into a buffer with its end mark, or not at all. -/
def intoBuffer (buf text : List Char) : List Char :=
  if text.length < buf.length then text ++ nul :: buf.drop (text.length + 1) else buf

theorem stringOf_intoBuffer {buf text : List Char} (hfits : text.length < buf.length)
    (hnul : nul ∉ text) : stringOf (intoBuffer buf text) = text := by
  unfold stringOf intoBuffer
  rw [if_pos hfits, List.takeWhile_append_of_pos]
  · simp
  · intro c hc
    rw [decide_eq_true_eq]
    rintro rfl
    exact hnul hc

/-! ## The octets -/

theorem digits_number (b : Byte) : IsNumber (digits b) := isNumber_toDigits b.toNat

theorem digits_length_le (b : Byte) : (digits b).length ≤ 3 := by
  have hb := b.isLt
  exact (Nat.length_toDigits_le_iff (by decide) (by decide)).mpr (by omega)

/-- A digit is the character of its number. -/
theorem digitChar_sub {c : Char} (h : c.isDigit = true) :
    Nat.digitChar (c.toNat - '0'.toNat) = c ∧ c.toNat - '0'.toNat < 10 := by
  rw [Char.isDigit_iff_toNat] at h
  have hlow : '0'.toNat = 48 := rfl
  have hhigh : '9'.toNat = 57 := rfl
  rw [hlow, hhigh] at h
  rw [hlow]
  refine ⟨?_, by omega⟩
  apply Char.toNat_inj.mp
  rw [Nat.toNat_digitChar_of_lt_ten (by omega)]
  omega

/-- Digits behind a number that is not zero are its next digits. -/
theorem toDigits_ofDigitChars {cs : List Char} (h : ∀ c ∈ cs, c.isDigit = true) {n : Nat}
    (hn : 0 < n) : Nat.toDigits 10 (Nat.ofDigitChars 10 cs n) = Nat.toDigits 10 n ++ cs := by
  induction cs generalizing n with
  | nil => rw [Nat.ofDigitChars_nil, List.append_nil]
  | cons c cs ih =>
    obtain ⟨hchar, hlt⟩ := digitChar_sub (h c List.mem_cons_self)
    have hnext := Nat.toDigits_append_toDigits (b := 10) (by decide) hn hlt
    rw [Nat.toDigits_of_lt_base hlt, hchar] at hnext
    rw [Nat.ofDigitChars_cons, ih (fun d hd => h d (List.mem_cons_of_mem _ hd)) (by omega),
      ← hnext, List.append_assoc, List.singleton_append]

/-- A number without leading zeros is what its value is written as. -/
theorem toDigits_value {cs : List Char} (h : IsNumber cs)
    (hzero : cs.length = 1 ∨ cs.head? ≠ some '0') : Nat.toDigits 10 (value cs) = cs := by
  cases cs with
  | nil => exact absurd rfl h.1
  | cons c cs =>
    obtain ⟨hchar, hlt⟩ := digitChar_sub (h.2 c List.mem_cons_self)
    have hfirst : value (c :: cs) = Nat.ofDigitChars 10 cs (c.toNat - '0'.toNat) := by
      unfold value
      rw [Nat.ofDigitChars_cons, Nat.mul_zero, Nat.zero_add]
    by_cases hc : c = '0'
    · have hone : cs = [] := by
        rcases hzero with hlen | hhead
        · simpa using hlen
        · exact absurd (congrArg some hc) hhead
      rw [hc, hone]
      rfl
    · have hpos : 0 < c.toNat - '0'.toNat := by
        rw [Nat.pos_iff_ne_zero]
        intro he
        rw [he] at hchar
        exact hc hchar.symm
      rw [hfirst, toDigits_ofDigitChars (fun d hd => h.2 d (List.mem_cons_of_mem _ hd)) hpos,
        Nat.toDigits_of_lt_base hlt, hchar, List.singleton_append]

/-- The number of an octet starts with a zero only where it is zero. -/
theorem digits_zero (b : Byte) : (digits b).length = 1 ∨ (digits b).head? ≠ some '0' := by
  have hall : ∀ n < 256, (Nat.toDigits 10 n).length = 1 ∨
      (Nat.toDigits 10 n).head? ≠ some '0' := by decide +kernel
  exact hall b.toNat b.isLt

theorem octet_digits (zeros : Bool) (b : Byte) : octet zeros (digits b) = some b := by
  have hvalue : value (digits b) = b.toNat := value_toDigits b.toNat
  unfold octet
  rw [if_pos ⟨digits_number b, digits_length_le b, hvalue ▸ b.isLt, Or.inr (digits_zero b)⟩,
    hvalue, BitVec.ofNat_toNat, BitVec.setWidth_eq]

/-- The strict reader takes an octet in one way only. -/
theorem octet_eq_some {cs : List Char} {b : Byte} : octet false cs = some b ↔ cs = digits b := by
  constructor
  · intro h
    unfold octet at h
    split at h
    · rename_i hc
      obtain ⟨hnumber, _, hlt, hzero⟩ := hc
      cases h
      unfold digits
      rw [BitVec.toNat_ofNat, Nat.mod_eq_of_lt hlt]
      exact (toDigits_value hnumber (hzero.resolve_left Bool.false_ne_true)).symm
    · cases h
  · rintro rfl
    exact octet_digits false b

/-! ## The texts -/

theorem mapM_digits (zeros : Bool) (bs : List Byte) :
    (bs.map digits).mapM (octet zeros) = some bs := by
  induction bs with
  | nil => rfl
  | cons b bs ih => simp [List.mapM_cons, octet_digits, ih]

theorem eq_digits_of_mapM {css : List (List Char)} {bs : List Byte}
    (h : css.mapM (octet false) = some bs) : css = bs.map digits := by
  induction css generalizing bs with
  | nil =>
    cases h
    rfl
  | cons cs css ih =>
    simp only [List.mapM_cons, Option.bind_eq_bind, Option.bind_eq_some_iff, Option.pure_def,
      Option.some.injEq] at h
    obtain ⟨b, hb, bs', hbs, rfl⟩ := h
    rw [List.map_cons, ← octet_eq_some.mp hb, ← ih hbs]

theorem splitOn_write (q : Quad) : (write q).splitOn '.' = q.octets.map digits := by
  apply List.splitOn_intercalate
  · intro cs hcs
    obtain ⟨b, _, rfl⟩ := List.mem_map.mp hcs
    exact (digits_number b).ne_point
  · intro hnil
    have hfour := q.four
    rw [List.map_eq_nil_iff.mp hnil] at hfour
    cases hfour

/-- What is written is read back. -/
theorem read_write (zeros : Bool) (q : Quad) : read zeros (write q) = some q := by
  unfold read
  rw [splitOn_write, mapM_digits]
  simp only [q.four, dite_true]

/-- The strict reader takes exactly what is written. -/
theorem read_eq_some {text : List Char} {q : Quad} : read false text = some q ↔ text = write q := by
  constructor
  · intro h
    unfold read at h
    split at h
    · rename_i octets hoctets
      split at h
      · cases h
        have hjoin : ['.'].intercalate (text.splitOn '.') = text := List.intercalate_splitOn '.'
        rw [← hjoin, eq_digits_of_mapM hoctets]
        rfl
      · cases h
    · cases h
  · rintro rfl
    exact read_write false q

theorem write_injective : Function.Injective write := by
  intro q q' h
  have hread := read_write false q
  rw [h, read_write] at hread
  exact (Option.some.inj hread).symm

theorem length_intercalate_le {css : List (List Char)} (h : ∀ cs ∈ css, cs.length ≤ 3) :
    (['.'].intercalate css).length ≤ 4 * css.length - 1 := by
  induction css with
  | nil => simp
  | cons cs css ih =>
    have hcs := h cs List.mem_cons_self
    cases css with
    | nil => simpa using hcs
    | cons cs' css =>
      have hrest := ih fun d hd => h d (List.mem_cons_of_mem _ hd)
      rw [List.intercalate_cons_cons]
      simp only [List.length_append, List.length_cons, List.length_nil] at hrest ⊢
      omega

/-- Fifteen characters are enough. -/
theorem write_length_le (q : Quad) : (write q).length ≤ 15 := by
  have hle : (write q).length ≤ 4 * (q.octets.map digits).length - 1 := by
    apply length_intercalate_le
    intro cs hcs
    obtain ⟨b, _, rfl⟩ := List.mem_map.mp hcs
    exact digits_length_le b
  rw [List.length_map, q.four] at hle
  exact hle

theorem mem_intercalate {css : List (List Char)} {c : Char} (h : c ∈ ['.'].intercalate css) :
    c = '.' ∨ ∃ cs ∈ css, c ∈ cs := by
  induction css with
  | nil => simp at h
  | cons cs css ih =>
    cases css with
    | nil => exact Or.inr ⟨cs, List.mem_cons_self, by simpa using h⟩
    | cons cs' css =>
      rw [List.intercalate_cons_cons, List.mem_append, List.mem_append, List.mem_singleton] at h
      rcases h with (hin | hpoint) | hrest
      · exact Or.inr ⟨cs, List.mem_cons_self, hin⟩
      · exact Or.inl hpoint
      · rcases ih hrest with hpoint | ⟨ds, hds, hin⟩
        · exact Or.inl hpoint
        · exact Or.inr ⟨ds, List.mem_cons_of_mem _ hds, hin⟩

theorem nul_not_mem_write (q : Quad) : nul ∉ write q := by
  intro hnul
  rcases mem_intercalate hnul with hpoint | ⟨cs, hcs, hin⟩
  · cases hpoint
  · obtain ⟨b, _, rfl⟩ := List.mem_map.mp hcs
    have hdigit := (digits_number b).2 nul hin
    cases hdigit

end dotted
