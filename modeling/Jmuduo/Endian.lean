-- Words in memory. A little-endian machine keeps the lowest byte first, and a
-- byte swap there gives the order of the network, with the highest byte first.
import Mathlib.Data.Int.Basic
import Mathlib.Data.List.Range
import Mathlib.Tactic.Ring

namespace endian

abbrev Byte := BitVec 8

/-! ## Bytes of a number -/

/-- The `n` lowest bytes, the lowest one first. -/
def bytesOf : Nat → Nat → List Byte
  | 0, _ => []
  | n + 1, v => BitVec.ofNat 8 v :: bytesOf n (v / 256)

/-- The number with the bytes, the lowest one first. -/
def valueOf : List Byte → Nat
  | [] => 0
  | b :: bs => b.toNat + 256 * valueOf bs

@[simp] theorem bytesOf_length (n v : Nat) : (bytesOf n v).length = n := by
  induction n generalizing v with
  | zero => rfl
  | succ n ih => rw [bytesOf, List.length_cons, ih]

theorem valueOf_lt (bs : List Byte) : valueOf bs < 256 ^ bs.length := by
  induction bs with
  | nil => exact Nat.one_pos
  | cons b bs ih =>
    have hb := b.isLt
    simp only [valueOf, List.length_cons, Nat.pow_succ]
    omega

theorem valueOf_bytesOf {n v : Nat} (h : v < 256 ^ n) : valueOf (bytesOf n v) = v := by
  induction n generalizing v with
  | zero =>
    simp only [Nat.pow_zero, Nat.lt_one_iff] at h
    rw [h]
    rfl
  | succ n ih =>
    have hlt : v / 256 < 256 ^ n := by
      rw [Nat.pow_succ] at h
      omega
    rw [bytesOf, valueOf, ih hlt, BitVec.toNat_ofNat]
    omega

theorem bytesOf_valueOf (bs : List Byte) : bytesOf bs.length (valueOf bs) = bs := by
  induction bs with
  | nil => rfl
  | cons b bs ih =>
    have hb := b.isLt
    have hdiv : (b.toNat + 256 * valueOf bs) / 256 = valueOf bs := by omega
    have hlow : BitVec.ofNat 8 (b.toNat + 256 * valueOf bs) = b := by
      apply BitVec.eq_of_toNat_eq
      rw [BitVec.toNat_ofNat]
      omega
    rw [List.length_cons, valueOf, bytesOf, hdiv, ih, hlow]

theorem bytesOf_eq_map (n v : Nat) :
    bytesOf n v = (List.range n).map fun i => BitVec.ofNat 8 (v / 256 ^ i) := by
  induction n generalizing v with
  | zero => rfl
  | succ n ih =>
    rw [bytesOf, ih, List.range_succ_eq_map, List.map_cons, List.map_map]
    simp only [Nat.pow_zero, Nat.div_one, List.cons.injEq, true_and]
    apply List.map_congr_left
    intro i _
    simp only [Function.comp_apply, Nat.succ_eq_add_one]
    rw [Nat.div_div_eq_div_mul, Nat.pow_succ, Nat.mul_comm]

/-! ## Words of `n` bytes -/

/-- The memory of a word on a little-endian machine. -/
def toMemory (n : Nat) (x : BitVec (8 * n)) : List Byte := bytesOf n x.toNat

/-- The word that the memory holds. -/
def ofMemory (n : Nat) (bs : List Byte) : BitVec (8 * n) := BitVec.ofNat (8 * n) (valueOf bs)

/-- The word with its bytes in the other order. -/
def byteSwap (n : Nat) (x : BitVec (8 * n)) : BitVec (8 * n) :=
  ofMemory n (toMemory n x).reverse

theorem two_pow_eq (n : Nat) : 2 ^ (8 * n) = 256 ^ n := by
  rw [Nat.pow_mul]

@[simp] theorem toMemory_length (n : Nat) (x : BitVec (8 * n)) : (toMemory n x).length = n :=
  bytesOf_length n x.toNat

theorem toMemory_ofMemory {n : Nat} {bs : List Byte} (h : bs.length = n) :
    toMemory n (ofMemory n bs) = bs := by
  subst h
  unfold toMemory ofMemory
  rw [BitVec.toNat_ofNat, Nat.mod_eq_of_lt (two_pow_eq _ ▸ valueOf_lt bs), bytesOf_valueOf]

theorem ofMemory_toMemory (n : Nat) (x : BitVec (8 * n)) : ofMemory n (toMemory n x) = x := by
  unfold toMemory ofMemory
  rw [valueOf_bytesOf (two_pow_eq n ▸ x.isLt), BitVec.ofNat_toNat, BitVec.setWidth_eq]

/-- The memory of a swapped word is the memory of the word, from back to front. -/
theorem toMemory_byteSwap (n : Nat) (x : BitVec (8 * n)) :
    toMemory n (byteSwap n x) = (toMemory n x).reverse :=
  toMemory_ofMemory (by simp)

theorem byteSwap_byteSwap (n : Nat) (x : BitVec (8 * n)) : byteSwap n (byteSwap n x) = x := by
  rw [byteSwap, toMemory_byteSwap, List.reverse_reverse, ofMemory_toMemory]

/-! ## Two's complement -/

/-- The two's complement of an integer in `n` bytes, the highest byte first. -/
def bigEndian (n : Nat) (z : Int) : List Byte :=
  (List.range n).reverse.map fun i => BitVec.ofInt 8 (z / 256 ^ i)

@[simp] theorem bigEndian_length (n : Nat) (z : Int) : (bigEndian n z).length = n := by
  simp [bigEndian]

/-- A signed word and its bits have the same bytes. -/
theorem digit_eq {n i : Nat} (x : BitVec (8 * n)) (h : i < n) :
    BitVec.ofNat 8 (x.toNat / 256 ^ i) = BitVec.ofInt 8 (x.toInt / 256 ^ i) := by
  have hpos : (256 : Int) ^ i ≠ 0 := Int.ne_of_gt (Int.pow_pos (by decide))
  have hdigit : BitVec.ofNat 8 (x.toNat / 256 ^ i) =
      BitVec.ofInt 8 ((x.toNat : Int) / 256 ^ i) := by
    rw [← BitVec.ofInt_natCast]
    push_cast
    rfl
  rw [hdigit, BitVec.toInt_eq_toNat_cond]
  split
  · rfl
  · -- the sign takes away a multiple of the bytes above
    obtain ⟨k, hk⟩ : ∃ k, n = i + 1 + k := ⟨n - (i + 1), by omega⟩
    have hsplit : ((2 ^ (8 * n) : Nat) : Int) = 256 ^ i * (256 * 256 ^ k) := by
      rw [two_pow_eq, hk]
      push_cast
      ring
    have hshift : ((x.toNat : Int) - (2 ^ (8 * n) : Nat)) / 256 ^ i =
        (x.toNat : Int) / 256 ^ i - 256 * 256 ^ k := by
      rw [hsplit, Int.sub_mul_ediv_left _ _ hpos]
    rw [hshift]
    apply BitVec.eq_of_toInt_eq
    rw [BitVec.toInt_ofInt, BitVec.toInt_ofInt]
    exact (Int.sub_mul_bmod_self_left _ 256 _).symm

/-- The memory of a swapped word is the big-endian two's complement of its value. -/
theorem toMemory_byteSwap_eq (n : Nat) (x : BitVec (8 * n)) :
    toMemory n (byteSwap n x) = bigEndian n x.toInt := by
  rw [toMemory_byteSwap]
  unfold toMemory bigEndian
  rw [bytesOf_eq_map, ← List.map_reverse]
  apply List.map_congr_left
  intro i hi
  exact digit_eq x (by simpa using hi)

/-- The swap of the word in the memory gives the value back. -/
theorem byteSwap_ofMemory (n : Nat) (x : BitVec (8 * n)) :
    byteSwap n (ofMemory n (bigEndian n x.toInt)) = x := by
  rw [← toMemory_byteSwap_eq, ofMemory_toMemory, byteSwap_byteSwap]

end endian
