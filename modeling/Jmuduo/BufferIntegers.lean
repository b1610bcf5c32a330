-- The integers of a buffer (Buffer.h, Endian.h). A signed integer goes into the
-- buffer in the order of the network, and comes out as it went in.
import Jmuduo.Buffer
import Jmuduo.Endian
import Jmuduo.Runs

open outcome memory runs endian

namespace jmuduo.net

/-! ## The order of the network -/

namespace socket

/-- `htobe64`. An `intN_t` or `uintN_t` is given by its bits. -/
def hostToNetwork64 (host : BitVec 64) : BitVec 64 := byteSwap 8 host

def hostToNetwork32 (host : BitVec 32) : BitVec 32 := byteSwap 4 host

def hostToNetwork16 (host : BitVec 16) : BitVec 16 := byteSwap 2 host

/-- `be64toh`. -/
def networkToHost64 (network : BitVec 64) : BitVec 64 := byteSwap 8 network

def networkToHost32 (network : BitVec 32) : BitVec 32 := byteSwap 4 network

def networkToHost16 (network : BitVec 16) : BitVec 16 := byteSwap 2 network

end socket

namespace Buffer

/-! ## The integers of the source -/

/-- `append(&be, n)`, for an integer of `n` bytes. -/
def appendInt (n : Nat) (be : BitVec (8 * n)) (b : Buffer) : Outcome Buffer :=
  b.append (toMemory n be)

def appendInt64 (x : BitVec 64) (b : Buffer) : Outcome Buffer :=
  b.appendInt 8 (socket.hostToNetwork64 x)

def appendInt32 (x : BitVec 32) (b : Buffer) : Outcome Buffer :=
  b.appendInt 4 (socket.hostToNetwork32 x)

def appendInt16 (x : BitVec 16) (b : Buffer) : Outcome Buffer :=
  b.appendInt 2 (socket.hostToNetwork16 x)

/-- One byte needs no swap. -/
def appendInt8 (x : BitVec 8) (b : Buffer) : Outcome Buffer := b.appendInt 1 x

/-- The assert of a peek, and the copy of `n` bytes from `peek()`. -/
def peekInt (n : Nat) (expr : String) (b : Buffer) : Outcome (BitVec (8 * n)) := do
  check expr (b.readableBytes ≥ n)
  pure (ofMemory n (slice b.buffer_ b.readerIndex_ (b.readerIndex_ + n)))

def peekInt64 (b : Buffer) : Outcome (BitVec 64) := do
  let be64 ← b.peekInt 8 "readableBytes() >= sizeof(int64_t)"
  pure (socket.networkToHost64 be64)

def peekInt32 (b : Buffer) : Outcome (BitVec 32) := do
  let be32 ← b.peekInt 4 "readableBytes() >= sizeof(int32_t)"
  pure (socket.networkToHost32 be32)

def peekInt16 (b : Buffer) : Outcome (BitVec 16) := do
  let be16 ← b.peekInt 2 "readableBytes() >= sizeof(int16_t)"
  pure (socket.networkToHost16 be16)

/-- The byte is read through `peek()`, and not copied. -/
def peekInt8 (b : Buffer) : Outcome (BitVec 8) := do
  check "readableBytes() >= sizeof(int8_t)" (b.readableBytes ≥ 1)
  load b.buffer_ b.readerIndex_

def retrieveInt64 (b : Buffer) : Buffer := b.retrieve 8

def retrieveInt32 (b : Buffer) : Buffer := b.retrieve 4

def retrieveInt16 (b : Buffer) : Buffer := b.retrieve 2

def retrieveInt8 (b : Buffer) : Buffer := b.retrieve 1

def readInt64 (b : Buffer) : Outcome (Buffer × BitVec 64) := do
  let result ← b.peekInt64
  pure (b.retrieveInt64, result)

def readInt32 (b : Buffer) : Outcome (Buffer × BitVec 32) := do
  let result ← b.peekInt32
  pure (b.retrieveInt32, result)

def readInt16 (b : Buffer) : Outcome (Buffer × BitVec 16) := do
  let result ← b.peekInt16
  pure (b.retrieveInt16, result)

/-- The result is an `int64_t` on its way out. -/
def readInt8 (b : Buffer) : Outcome (Buffer × BitVec 8) := do
  let result ← b.peekInt8
  let result : BitVec 64 := result.signExtend 64
  pure (b.retrieveInt8, result.setWidth 8)

/-- `prepend(&be, n)`, for an integer of `n` bytes. -/
def prependInt (n : Nat) (be : BitVec (8 * n)) (b : Buffer) : Outcome Buffer :=
  b.prepend (toMemory n be)

def prependInt64 (x : BitVec 64) (b : Buffer) : Outcome Buffer :=
  b.prependInt 8 (socket.hostToNetwork64 x)

def prependInt32 (x : BitVec 32) (b : Buffer) : Outcome Buffer :=
  b.prependInt 4 (socket.hostToNetwork32 x)

def prependInt16 (x : BitVec 16) (b : Buffer) : Outcome Buffer :=
  b.prependInt 2 (socket.hostToNetwork16 x)

def prependInt8 (x : BitVec 8) (b : Buffer) : Outcome Buffer := b.prependInt 1 x

/-! ## Integers of all widths -/

inductive Width
  | int8
  | int16
  | int32
  | int64
  deriving DecidableEq, Repr

def Width.bytes : Width → Nat
  | .int8 => 1
  | .int16 => 2
  | .int32 => 4
  | .int64 => 8

/-- An `intN_t` of the width. -/
abbrev IntN (w : Width) : Type := BitVec (8 * w.bytes)

def appendIntN : (w : Width) → IntN w → Buffer → Outcome Buffer
  | .int8, x, b => b.appendInt8 x
  | .int16, x, b => b.appendInt16 x
  | .int32, x, b => b.appendInt32 x
  | .int64, x, b => b.appendInt64 x

def peekIntN : (w : Width) → Buffer → Outcome (IntN w)
  | .int8, b => b.peekInt8
  | .int16, b => b.peekInt16
  | .int32, b => b.peekInt32
  | .int64, b => b.peekInt64

def readIntN : (w : Width) → Buffer → Outcome (Buffer × IntN w)
  | .int8, b => b.readInt8
  | .int16, b => b.readInt16
  | .int32, b => b.readInt32
  | .int64, b => b.readInt64

def prependIntN : (w : Width) → IntN w → Buffer → Outcome Buffer
  | .int8, x, b => b.prependInt8 x
  | .int16, x, b => b.prependInt16 x
  | .int32, x, b => b.prependInt32 x
  | .int64, x, b => b.prependInt64 x

/-- The bytes of an integer in the buffer: the two's complement of its value,
the highest byte first. -/
def encode (w : Width) (x : IntN w) : List Byte := bigEndian w.bytes x.toInt

@[simp] theorem encode_length (w : Width) (x : IntN w) : (encode w x).length = w.bytes :=
  bigEndian_length _ _

/-! ## The specs of the integers -/

theorem byteSwap_one (x : BitVec 8) : byteSwap 1 x = x := by
  have hmem : (toMemory 1 x).reverse = toMemory 1 x := rfl
  rw [byteSwap, hmem, ofMemory_toMemory]

theorem toMemory_one (x : BitVec 8) : toMemory 1 x = bigEndian 1 x.toInt := by
  have h := toMemory_byteSwap_eq 1 x
  rwa [byteSwap_one] at h

theorem encode_int8 (x : Byte) : encode .int8 x = [x] := by
  have hbyte : BitVec.ofNat 8 x.toNat = x := (BitVec.ofNat_toNat 8 x).trans (BitVec.setWidth_eq x)
  refine (toMemory_one x).symm.trans ?_
  exact congrArg (fun y : Byte => [y]) hbyte

/-- An append of an integer appends its encoding. -/
theorem appendIntN_eq (w : Width) (x : IntN w) (b : Buffer) :
    b.appendIntN w x = b.append (encode w x) := by
  cases w with
  | int8 => exact congrArg b.append (toMemory_one x)
  | int16 => exact congrArg b.append (toMemory_byteSwap_eq 2 x)
  | int32 => exact congrArg b.append (toMemory_byteSwap_eq 4 x)
  | int64 => exact congrArg b.append (toMemory_byteSwap_eq 8 x)

theorem prependIntN_eq (w : Width) (x : IntN w) (b : Buffer) :
    b.prependIntN w x = b.prepend (encode w x) := by
  cases w with
  | int8 => exact congrArg b.prepend (toMemory_one x)
  | int16 => exact congrArg b.prepend (toMemory_byteSwap_eq 2 x)
  | int32 => exact congrArg b.prepend (toMemory_byteSwap_eq 4 x)
  | int64 => exact congrArg b.prepend (toMemory_byteSwap_eq 8 x)

/-- A copy from `peek()` takes the first bytes of the contents. -/
theorem peekInt.spec {b : Buffer} (h : b.Ordered) {n : Nat} (expr : String) {bs rest : List Byte}
    (hcon : b.contents = bs ++ rest) (hn : bs.length = n) :
    b.peekInt n expr = .ok (ofMemory n bs) := by
  have hlen := h.contents_length
  have hread := h.readableBytes_eq
  have h1 := h.reader_le
  rw [hcon, List.length_append, hn] at hlen
  have hslice : slice b.buffer_ b.readerIndex_ (b.readerIndex_ + n) = bs := by
    rw [slice_take (j := b.writerIndex_) (by omega)]
    show b.contents.take n = bs
    rw [hcon, ← hn, List.take_left]
  unfold peekInt
  rw [check_of (by omega), ok_bind, hslice, pure_eq_ok]

theorem peekInt8.spec {b : Buffer} (h : b.Ordered) {x : Byte} {rest : List Byte}
    (hcon : b.contents = x :: rest) : b.peekInt8 = .ok x := by
  have hlen := h.contents_length
  have hread := h.readableBytes_eq
  have h2 := h.writer_le
  rw [hcon, List.length_cons] at hlen
  have hfirst : b.buffer_[b.readerIndex_]? = some x := by
    have hhead : b.contents[0]? = some x := by rw [hcon]; rfl
    unfold contents at hhead
    rw [slice_getElem?, if_pos (by omega)] at hhead
    exact hhead
  unfold peekInt8 load
  rw [check_of (by omega), ok_bind, hfirst, demand_some]

/-- A peek at the encoding of an integer gives the integer. -/
theorem peekIntN.spec {b : Buffer} (h : b.Ordered) {w : Width} {x : IntN w} {rest : List Byte}
    (hcon : b.contents = encode w x ++ rest) : b.peekIntN w = .ok x := by
  cases w with
  | int8 =>
    exact peekInt8.spec h (hcon.trans (congrArg (· ++ rest) (encode_int8 x)))
  | int16 =>
    have hpeek := peekInt.spec h "readableBytes() >= sizeof(int16_t)" hcon (n := 2) (by simp; rfl)
    show b.peekInt16 = .ok x
    rw [peekInt16, hpeek]
    exact congrArg Except.ok (byteSwap_ofMemory 2 x)
  | int32 =>
    have hpeek := peekInt.spec h "readableBytes() >= sizeof(int32_t)" hcon (n := 4) (by simp; rfl)
    show b.peekInt32 = .ok x
    rw [peekInt32, hpeek]
    exact congrArg Except.ok (byteSwap_ofMemory 4 x)
  | int64 =>
    have hpeek := peekInt.spec h "readableBytes() >= sizeof(int64_t)" hcon (n := 8) (by simp; rfl)
    show b.peekInt64 = .ok x
    rw [peekInt64, hpeek]
    exact congrArg Except.ok (byteSwap_ofMemory 8 x)

/-- A read peeks, and retrieves the width. The `int64_t` of `readInt8` changes
nothing. -/
theorem readIntN_eq (w : Width) (b : Buffer) :
    b.readIntN w = b.peekIntN w >>= fun x => pure (b.retrieve w.bytes, x) := by
  cases w with
  | int8 =>
    show b.readInt8 = b.peekInt8 >>= fun x => pure (b.retrieve 1, x)
    have hback : ∀ x : BitVec 8, (x.signExtend 64).setWidth 8 = x := by
      intro x
      ext i hi
      rw [BitVec.getElem_setWidth, BitVec.getLsbD_signExtend]
      simp [hi]
      omega
    unfold readInt8 retrieveInt8
    simp only [hback]
  | int16 | int32 | int64 => rfl

/-- A read of an encoding gives the integer and drops its bytes. -/
theorem readIntN.spec {b : Buffer} (h : b.Inv) {w : Width} {x : IntN w} {rest : List Byte}
    (hcon : b.contents = encode w x ++ rest) :
    b.readIntN w = .ok (b.retrieve w.bytes, x) ∧ (b.retrieve w.bytes).Inv ∧
      (b.retrieve w.bytes).contents = rest := by
  obtain ⟨hi, hdrop⟩ := retrieve.spec h w.bytes
  refine ⟨?_, hi, ?_⟩
  · rw [readIntN_eq, peekIntN.spec h.ordered hcon]
    rfl
  · rw [hdrop, hcon, ← encode_length w x, List.drop_left]

/-! ## The queue of integers -/

/-- An integer that was appended and not read yet. -/
abbrev Unread : Type := (w : Width) × IntN w

def Unread.encode (u : Unread) : List Byte := Buffer.encode u.1 u.2

/-- A call on the integers. The result of a read is part of its label. -/
inductive IntOp
  | append (u : Unread)
  | read (u : Unread)
  deriving DecidableEq

/-- A buffer with the integers that are unread, the oldest first. A read has
the width of the oldest one. -/
inductive IntStep : Buffer × List Unread → IntOp → Buffer × List Unread → Prop
  | append {b b' : Buffer} {q : List Unread} (u : Unread) : b.appendIntN u.1 u.2 = .ok b' →
    IntStep (b, q) (.append u) (b', q ++ [u])
  | read {b b' : Buffer} {q : List Unread} {w : Width} (x y : IntN w) :
    b.readIntN w = .ok (b', y) → IntStep (b, ⟨w, x⟩ :: q) (.read ⟨w, y⟩) (b', q)

/-- Any appends and reads on a buffer with nothing unread. -/
def integers : Machine (Buffer × List Unread) IntOp where
  init s := s.1.Inv ∧ s.1.contents = [] ∧ s.2 = []
  step := IntStep

/-- The contents are the encodings of the unread integers. -/
def Holds (s : Buffer × List Unread) : Prop :=
  s.1.Inv ∧ s.1.contents = s.2.flatMap Unread.encode

theorem encode_short (w : Width) (x : IntN w) : (encode w x).length < 2 ^ 63 := by
  rw [encode_length]
  cases w <;> decide

theorem Holds.append {b b' : Buffer} {q : List Unread} {u : Unread} (h : Holds (b, q))
    (hok : b.appendIntN u.1 u.2 = .ok b') : Holds (b', q ++ [u]) := by
  obtain ⟨hi, hcon⟩ := h
  rw [appendIntN_eq] at hok
  obtain ⟨ho, hcon', hge, _⟩ := append.spec hi.ordered (encode_short u.1 u.2) hok
  refine ⟨hi.of_ordered ho hge, ?_⟩
  rw [hcon', hcon, List.flatMap_append, List.flatMap_cons, List.flatMap_nil, List.append_nil]
  rfl

/-- The oldest integer is what a read of its width returns. -/
theorem Holds.read {b : Buffer} {q : List Unread} {w : Width} {x : IntN w}
    (h : Holds (b, ⟨w, x⟩ :: q)) :
    b.readIntN w = .ok (b.retrieve w.bytes, x) ∧ Holds (b.retrieve w.bytes, q) := by
  obtain ⟨hi, hcon⟩ := h
  obtain ⟨hread, hi', hcon'⟩ := readIntN.spec hi (by exact hcon)
  exact ⟨hread, hi', hcon'⟩

theorem reachable_holds {s : Buffer × List Unread} (h : integers.Reachable s) : Holds s := by
  apply h.invariant
  · rintro ⟨b, q⟩ ⟨hi, hcon, hq⟩
    refine ⟨hi, ?_⟩
    rw [hcon, hq]
    rfl
  · intro s a s' hs hst
    cases hst with
    | append u hok => exact hs.append hok
    | read x y hok =>
      obtain ⟨hread, hnext⟩ := hs.read
      rw [hok] at hread
      cases hread
      exact hnext

/-! ## The law -/

/-- Integers come out of a buffer as they went in. In every run of appends and
reads, the bytes of the unread integers are their big-endian two's complements.
A read of the width of the oldest one returns it and takes its bytes, as many as
its width, and a peek returns it as well. An integer that fits before them is
read back at once, and the bytes after it are what they were. -/
theorem integers_come_out_as_they_went_in (b : Buffer) (q : List Unread)
    (h : integers.Reachable (b, q)) :
    b.contents = q.flatMap (fun u => bigEndian u.1.bytes u.2.toInt) ∧
    (∀ w x rest, q = ⟨w, x⟩ :: rest →
      b.peekIntN w = .ok x ∧
      ∃ b', b.readIntN w = .ok (b', x) ∧
        b'.contents = rest.flatMap (fun u => bigEndian u.1.bytes u.2.toInt) ∧
        b.readableBytes = w.bytes + b'.readableBytes) ∧
    (∀ w (x : IntN w), w.bytes < b.prependableBytes →
      ∃ b₁ b₂, b.prependIntN w x = .ok b₁ ∧ b₁.peekIntN w = .ok x ∧
        b₁.readIntN w = .ok (b₂, x) ∧ b₂.contents = b.contents) ∧
    (∀ w (x : IntN w),
      (∃ b', b.appendIntN w x = .ok b' ∧
        b'.contents = b.contents ++ bigEndian w.bytes x.toInt) ∨
      b.appendIntN w x = .error .lengthError) := by
  have hholds := reachable_holds h
  obtain ⟨hi, hcon⟩ := hholds
  refine ⟨hcon, ?_, ?_, ?_⟩
  · intro w x rest hq
    subst hq
    obtain ⟨hread, hi', hcon'⟩ := reachable_holds h |>.read
    refine ⟨peekIntN.spec hi.ordered (by exact hcon), _, hread, hcon', ?_⟩
    rw [← hi.ordered.contents_length, ← hi'.ordered.contents_length, hcon, hcon',
      List.flatMap_cons, List.length_append]
    exact congrArg (· + _) (encode_length w x)
  · intro w x hfit
    rw [prependIntN_eq]
    have hlen : (encode w x).length < b.prependableBytes := by rwa [encode_length]
    obtain ⟨b₁, hok, ho, hcon₁, hsame⟩ := prepend.spec hi.ordered hlen
    have hi₁ : b₁.Inv := hi.of_ordered ho (Nat.le_of_eq hsame.symm)
    obtain ⟨hread, _, hcon₂⟩ := readIntN.spec hi₁ hcon₁
    exact ⟨b₁, _, hok, peekIntN.spec ho hcon₁, hread, hcon₂⟩
  · intro w x
    rw [appendIntN_eq]
    cases hok : b.append (encode w x) with
    | ok b' =>
      obtain ⟨_, hcon', _⟩ := append.spec hi.ordered (encode_short w x) hok
      exact Or.inl ⟨b', rfl, hcon'⟩
    | error e => exact Or.inr (by rw [(append_error hi.ordered (encode_short w x) hok).2])

/-- A negative integer of two bytes, and its bytes. -/
theorem integers_come_out_as_minus_two :
    ∃ b, integers.Reachable (b, [⟨.int16, (-2 : BitVec 16)⟩]) ∧
      b.contents = [0xff, 0xfe] ∧ b.peekIntN .int16 = .ok (-2 : BitVec 16) := by
  have h0 : integers.Reachable (construct 2, []) :=
    .start ⟨construct_inv (by decide), construct_contents 2, rfl⟩
  have happend : (construct 2).appendIntN .int16 (-2 : BitVec 16) =
      .ok ⟨List.replicate 8 0 ++ [0xff, 0xfe], 8, 10⟩ := by decide
  have h1 := h0.next (IntStep.append ⟨.int16, (-2 : BitVec 16)⟩ happend)
  obtain ⟨hcon, hread, _⟩ := integers_come_out_as_they_went_in _ _ h1
  exact ⟨_, h1, hcon.trans (by decide), (hread _ _ [] rfl).1⟩

end Buffer

end jmuduo.net
