-- The byte buffer of a connection (Buffer.h). Three parts of one vector: the
-- bytes before `readerIndex_` are free for a prepend, the bytes up to
-- `writerIndex_` are the contents, and the rest is free for an append.
import Jmuduo.Memory

open outcome memory

namespace jmuduo.net

/-! ## The buffer of the source -/

abbrev Byte := BitVec 8

def kCheapPrepend : Nat := 8

def kInitialSize : Nat := 1024

/-- `std::vector<char>::max_size()`. -/
def maxSize : Nat := 2 ^ 63 - 1

structure Buffer where
  buffer_ : List Byte
  readerIndex_ : Nat
  writerIndex_ : Nat
  deriving DecidableEq, Repr

/-- What `readv(2)` does: it delivers some bytes, or it fails. -/
inductive ReadResult
  | delivered (bytes : List Byte)
  | failed (errno : Nat)
  deriving DecidableEq, Repr

/-- `buffer_.resize(n)`: new bytes are 0, and too many throw. -/
def resize (mem : List Byte) (n : Nat) : Outcome (List Byte) :=
  if n ≤ maxSize then .ok (mem.take n ++ List.replicate (n - mem.length) 0)
  else .error .lengthError

namespace Buffer

/-- The constructor, for an `initialSize` that is not negative. -/
def construct (initialSize : Nat) : Buffer where
  buffer_ := List.replicate (kCheapPrepend + initialSize) 0
  readerIndex_ := kCheapPrepend
  writerIndex_ := kCheapPrepend

def prependableBytes (b : Buffer) : Nat := b.readerIndex_

def readableBytes (b : Buffer) : Nat := sizeSub b.writerIndex_ b.readerIndex_

def writableBytes (b : Buffer) : Nat := sizeSub b.buffer_.length b.writerIndex_

def retrieveAll (b : Buffer) : Buffer :=
  { b with readerIndex_ := kCheapPrepend, writerIndex_ := kCheapPrepend }

def retrieve (b : Buffer) (len : Nat) : Buffer :=
  if len < b.readableBytes then { b with readerIndex_ := sizeAdd b.readerIndex_ len }
  else b.retrieveAll

/-- The pointer `last` is given by its distance from `begin()`. -/
def retrieveUntil (b : Buffer) (last : Nat) : Outcome Buffer := do
  check "peek() <= end" (b.readerIndex_ ≤ last)
  check "end <= beginWrite()" (last ≤ b.writerIndex_)
  pure (b.retrieve (last - b.readerIndex_))

def retrieveAsString (b : Buffer) (len : Nat) : Outcome (Buffer × List Byte) := do
  check "len <= readableBytes()" (len ≤ b.readableBytes)
  let result := slice b.buffer_ b.readerIndex_ (b.readerIndex_ + len)
  pure (b.retrieve len, result)

def retrieveAllAsString (b : Buffer) : Outcome (Buffer × List Byte) :=
  b.retrieveAsString b.readableBytes

def makeSpace (b : Buffer) (len : Nat) : Outcome Buffer :=
  if sizeAdd b.prependableBytes b.writableBytes ≥ sizeAdd len kCheapPrepend then do
    let readable := b.readableBytes
    let mem ← copyWithin b.buffer_ b.readerIndex_ kCheapPrepend readable
    pure ⟨mem, kCheapPrepend, sizeAdd kCheapPrepend readable⟩
  else do
    let mem ← resize b.buffer_ (sizeAdd b.writerIndex_ len)
    pure { b with buffer_ := mem }

def ensureWritable (b : Buffer) (len : Nat) : Outcome Buffer :=
  if b.writableBytes < len then b.makeSpace len else pure b

def hasWritten (b : Buffer) (len : Nat) : Outcome Buffer := do
  check "writableBytes() >= len" (b.writableBytes ≥ len)
  pure { b with writerIndex_ := sizeAdd b.writerIndex_ len }

def append (b : Buffer) (data : List Byte) : Outcome Buffer := do
  let b ← b.ensureWritable data.length
  let mem ← copyIn b.buffer_ b.writerIndex_ data
  { b with buffer_ := mem }.hasWritten data.length

def prepend (b : Buffer) (data : List Byte) : Outcome Buffer := do
  check "len < prependableBytes()" (data.length < b.prependableBytes)
  let readerIndex := sizeSub b.readerIndex_ data.length
  let mem ← copyIn b.buffer_ readerIndex data
  pure { b with buffer_ := mem, readerIndex_ := readerIndex }

/-- A caller fills the space from `beginWrite()` on, and then calls
`hasWritten` with the size of what it wrote. -/
def fill (b : Buffer) (data : List Byte) : Outcome Buffer := do
  let mem ← copyIn b.buffer_ b.writerIndex_ data
  { b with buffer_ := mem }.hasWritten data.length

/-- The size of the second segment of a read, which is on the stack. -/
def extraSize : Nat := 65536

/-- The bytes that the segments of a read have room for. -/
def room (b : Buffer) : Nat :=
  if b.writableBytes > extraSize then b.writableBytes else sizeAdd b.writableBytes extraSize

/-- The kernel fills the free bytes first, and then the stack segment. The
results are the return value and `*savedErrno`. -/
def readFd (b : Buffer) (savedErrno : Nat) (r : ReadResult) : Outcome (Buffer × Int × Nat) :=
  let writable := b.writableBytes
  match r with
  | .failed errno => pure (b, -1, errno)
  | .delivered bytes => do
    let data := bytes.take b.room
    let mem ← copyIn b.buffer_ b.writerIndex_ (data.take writable)
    if data.length ≤ writable then
      let b := { b with buffer_ := mem, writerIndex_ := sizeAdd b.writerIndex_ data.length }
      pure (b, data.length, savedErrno)
    else
      let b ← { b with buffer_ := mem, writerIndex_ := mem.length }.append (data.drop writable)
      pure (b, data.length, savedErrno)

/-! ## The invariant -/

/-- The bytes that wait for a reader. -/
def contents (b : Buffer) : List Byte := slice b.buffer_ b.readerIndex_ b.writerIndex_

/-- The indexes are in order, and the vector is never smaller than the
cheap prepend that `retrieveAll` goes back to. -/
structure Inv (b : Buffer) : Prop where
  reader_le : b.readerIndex_ ≤ b.writerIndex_
  writer_le : b.writerIndex_ ≤ b.buffer_.length
  cheap : kCheapPrepend ≤ b.buffer_.length
  bounded : b.buffer_.length ≤ maxSize

/-- The branch of `makeSpace` that moves the contents to the front. -/
def Compacts (b : Buffer) (len : Nat) : Prop :=
  b.writableBytes < len ∧
    sizeAdd b.prependableBytes b.writableBytes ≥ sizeAdd len kCheapPrepend

/-- The buffer with its contents moved to the front. -/
def compacted (b : Buffer) : Buffer where
  buffer_ := splice b.buffer_ kCheapPrepend b.contents
  readerIndex_ := kCheapPrepend
  writerIndex_ := kCheapPrepend + b.contents.length

/-- The buffer with room for `len` bytes after its contents. -/
def grown (b : Buffer) (len : Nat) : Buffer :=
  { b with buffer_ := b.buffer_ ++ List.replicate (b.writerIndex_ + len - b.buffer_.length) 0 }

/-- The part of the invariant that needs no cheap prepend. -/
structure Ordered (b : Buffer) : Prop where
  reader_le : b.readerIndex_ ≤ b.writerIndex_
  writer_le : b.writerIndex_ ≤ b.buffer_.length
  bounded : b.buffer_.length ≤ maxSize

theorem Inv.ordered {b : Buffer} (h : b.Inv) : b.Ordered :=
  ⟨h.reader_le, h.writer_le, h.bounded⟩

/-- A vector that was large enough stays so when it does not shrink. -/
theorem Inv.of_ordered {b b' : Buffer} (h : b.Inv) (h' : b'.Ordered)
    (hle : b.buffer_.length ≤ b'.buffer_.length) : b'.Inv :=
  ⟨h'.reader_le, h'.writer_le, Nat.le_trans h.cheap hle, h'.bounded⟩

theorem Ordered.readableBytes_eq {b : Buffer} (h : b.Ordered) :
    b.readableBytes = b.writerIndex_ - b.readerIndex_ := by
  have := h.writer_le
  have := h.bounded
  unfold maxSize at this
  exact sizeSub_eq h.reader_le (by omega)

theorem Ordered.writableBytes_eq {b : Buffer} (h : b.Ordered) :
    b.writableBytes = b.buffer_.length - b.writerIndex_ := by
  have := h.bounded
  unfold maxSize at this
  exact sizeSub_eq h.writer_le (by omega)

theorem Ordered.contents_length {b : Buffer} (h : b.Ordered) :
    b.contents.length = b.readableBytes := by
  rw [h.readableBytes_eq, contents, slice_length h.writer_le]

theorem Inv.contents_eq_nil {b : Buffer} (h : b.Inv) : b.contents = [] ↔ b.readableBytes = 0 := by
  rw [← h.ordered.contents_length, List.length_eq_zero_iff]

theorem construct_inv {initialSize : Nat} (h : kCheapPrepend + initialSize < 2 ^ 63) :
    (construct initialSize).Inv := by
  refine ⟨Nat.le_refl _, ?_, ?_, ?_⟩
  · simp [construct]
  · simp [construct]
  · simp only [construct, List.length_replicate, maxSize]
    omega

@[simp] theorem construct_contents (initialSize : Nat) :
    (construct initialSize).contents = [] := by
  simp [construct, contents]

/-! ## The specs of retrieve -/

theorem Inv.retrieveAll {b : Buffer} (h : b.Inv) : b.retrieveAll.Inv := by
  obtain ⟨_, _, h3, h4⟩ := h
  exact ⟨Nat.le_refl _, h3, h3, h4⟩

@[simp] theorem retrieveAll_contents (b : Buffer) : b.retrieveAll.contents = [] := by
  simp [retrieveAll, contents]

/-- A retrieve drops the first `len` bytes, or all of them. -/
theorem retrieve.spec {b : Buffer} (h : b.Inv) (len : Nat) :
    (b.retrieve len).Inv ∧ (b.retrieve len).contents = b.contents.drop len := by
  have hlen := h.ordered.contents_length
  have hread := h.ordered.readableBytes_eq
  have hw := h.writer_le
  have hb := h.bounded
  unfold maxSize at hb
  unfold retrieve
  split
  · rw [sizeAdd_eq (by omega)]
    exact ⟨⟨by simp only; omega, hw, h.cheap, h.bounded⟩, slice_drop⟩
  · refine ⟨h.retrieveAll, ?_⟩
    rw [retrieveAll_contents, List.drop_of_length_le (by omega)]

theorem retrieve_buffer (b : Buffer) (len : Nat) : (b.retrieve len).buffer_ = b.buffer_ := by
  unfold retrieve
  split <;> rfl

theorem retrieveUntil.spec {b : Buffer} {last : Nat} (h1 : b.readerIndex_ ≤ last)
    (h2 : last ≤ b.writerIndex_) :
    b.retrieveUntil last = .ok (b.retrieve (last - b.readerIndex_)) := by
  simp [retrieveUntil, check_of h1, check_of h2]

theorem retrieveAsString.spec {b : Buffer} (h : b.Ordered) {len : Nat}
    (hlen : len ≤ b.readableBytes) :
    b.retrieveAsString len = .ok (b.retrieve len, b.contents.take len) := by
  have hr := h.reader_le
  have htake : slice b.buffer_ b.readerIndex_ (b.readerIndex_ + len) = b.contents.take len :=
    slice_take (by have := h.readableBytes_eq; omega)
  simp [retrieveAsString, check_of hlen, htake]

theorem retrieveAllAsString.spec {b : Buffer} (h : b.Ordered) :
    b.retrieveAllAsString = .ok (b.retrieve b.readableBytes, b.contents) := by
  unfold retrieveAllAsString
  rw [retrieveAsString.spec h (Nat.le_refl _), List.take_of_length_le (by rw [h.contents_length])]

/-! ## The specs of makeSpace -/

/-- The branch is taken only where the free bytes of both ends are enough. -/
theorem Compacts.room {b : Buffer} {len : Nat} (h : b.Ordered) (hlen : len < 2 ^ 63)
    (hc : b.Compacts len) :
    len + kCheapPrepend ≤ b.readerIndex_ + (b.buffer_.length - b.writerIndex_) := by
  have h2 := hc.2
  have hr := h.reader_le
  have hw := h.writer_le
  have hb := h.bounded
  unfold maxSize at hb
  unfold prependableBytes kCheapPrepend at h2
  rw [h.writableBytes_eq, sizeAdd_eq (by omega), sizeAdd_eq (by omega)] at h2
  unfold kCheapPrepend
  omega

/-- A move to the front has a smaller target than source. -/
theorem Compacts.reader_gt {b : Buffer} {len : Nat} (h : b.Ordered) (hlen : len < 2 ^ 63)
    (hc : b.Compacts len) : kCheapPrepend < b.readerIndex_ := by
  have h1 := hc.1
  have h2 := hc.room h hlen
  rw [h.writableBytes_eq] at h1
  omega

theorem compacted_length {b : Buffer} (h : b.Ordered) (hr : kCheapPrepend < b.readerIndex_) :
    b.compacted.buffer_.length = b.buffer_.length := by
  have hlen := h.contents_length
  have hread := h.readableBytes_eq
  have h1 := h.reader_le
  have h2 := h.writer_le
  exact splice_length (by omega)

theorem grown_length (b : Buffer) (len : Nat) :
    (b.grown len).buffer_.length = max b.buffer_.length (b.writerIndex_ + len) := by
  simp only [grown, List.length_append, List.length_replicate]
  omega

theorem compacted_spec {b : Buffer} (h : b.Ordered) (hr : kCheapPrepend < b.readerIndex_) :
    b.compacted.Ordered ∧ b.compacted.contents = b.contents := by
  have hlen := h.contents_length
  rw [h.readableBytes_eq] at hlen
  have h1 := h.reader_le
  have h2 := h.writer_le
  have hsize := compacted_length h hr
  refine ⟨⟨?_, ?_, ?_⟩, ?_⟩
  · simp [compacted]
  · rw [hsize]
    simp only [compacted]
    omega
  · exact hsize ▸ h.bounded
  · exact slice_splice_self (by omega)

theorem grown_spec {b : Buffer} (h : b.Ordered) {len : Nat} (hfit : b.writerIndex_ + len < 2 ^ 63) :
    (b.grown len).Ordered ∧ (b.grown len).contents = b.contents := by
  have h2 := h.writer_le
  have h4 := h.bounded
  have hsize := grown_length b len
  refine ⟨⟨h.reader_le, ?_, ?_⟩, ?_⟩
  · rw [hsize]
    exact Nat.le_trans h2 (Nat.le_max_left _ _)
  · rw [hsize]
    unfold maxSize at *
    omega
  · exact slice_append_right h2

theorem makeSpace_compacts {b : Buffer} {len : Nat} (h : b.Ordered) (hlen : len < 2 ^ 63)
    (hc : b.Compacts len) : b.makeSpace len = .ok b.compacted := by
  have hr := hc.reader_gt h hlen
  have hread := h.readableBytes_eq
  have h1 := h.reader_le
  have h2 := h.writer_le
  have h4 := h.bounded
  unfold maxSize at h4
  have hcopy : copyWithin b.buffer_ b.readerIndex_ kCheapPrepend b.readableBytes =
      .ok (splice b.buffer_ kCheapPrepend b.contents) := by
    rw [copyWithin_eq (Nat.le_of_lt hr) (by omega)]
    rw [show b.readerIndex_ + b.readableBytes = b.writerIndex_ by omega]
    rfl
  unfold makeSpace
  rw [if_pos hc.2]
  simp only [hcopy, ok_bind, pure_eq_ok, compacted, h.contents_length]
  rw [sizeAdd_eq (by unfold kCheapPrepend at *; omega)]

theorem resize_grows {b : Buffer} {len : Nat} (h : b.Ordered) (hw : b.writableBytes < len)
    (hfit : b.writerIndex_ + len ≤ maxSize) :
    resize b.buffer_ (b.writerIndex_ + len) = .ok (b.grown len).buffer_ := by
  rw [h.writableBytes_eq] at hw
  unfold resize
  rw [if_pos hfit, List.take_of_length_le (by omega)]
  rfl

/-- All that `ensureWritable` can do: nothing, a move of the contents to
the front, a larger vector, or a throw of `resize`. -/
theorem ensureWritable_cases {b : Buffer} {len : Nat} (h : b.Ordered) (hlen : len < 2 ^ 63) :
    (len ≤ b.writableBytes ∧ b.ensureWritable len = .ok b) ∨
    (b.Compacts len ∧ b.ensureWritable len = .ok b.compacted) ∨
    (b.writableBytes < len ∧ b.writerIndex_ + len < 2 ^ 63 ∧
      b.ensureWritable len = .ok (b.grown len)) ∨
    (2 ^ 63 ≤ b.writerIndex_ + len ∧ b.ensureWritable len = .error .lengthError) := by
  have h2 := h.writer_le
  have h4 := h.bounded
  unfold maxSize at h4
  unfold ensureWritable
  by_cases hw : b.writableBytes < len
  · rw [if_pos hw]
    by_cases hc : b.Compacts len
    · exact Or.inr (Or.inl ⟨hc, makeSpace_compacts h hlen hc⟩)
    · have hnot : ¬ sizeAdd b.prependableBytes b.writableBytes ≥ sizeAdd len kCheapPrepend :=
        fun h2 => hc ⟨hw, h2⟩
      unfold makeSpace
      rw [if_neg hnot, sizeAdd_eq (by omega)]
      by_cases hfit : b.writerIndex_ + len < 2 ^ 63
      · rw [resize_grows h hw (by unfold maxSize; omega)]
        exact Or.inr (Or.inr (Or.inl ⟨hw, hfit, rfl⟩))
      · have hbig : ¬ b.writerIndex_ + len ≤ maxSize := by unfold maxSize; omega
        refine Or.inr (Or.inr (Or.inr ⟨by omega, ?_⟩))
        simp [resize, hbig]
  · rw [if_neg hw]
    exact Or.inl ⟨by omega, rfl⟩

/-- `ensureWritable` keeps the contents, and leaves room for `len` bytes. -/
theorem ensureWritable.spec {b b' : Buffer} {len : Nat} (h : b.Ordered) (hlen : len < 2 ^ 63)
    (hr : b.ensureWritable len = .ok b') :
    b'.Ordered ∧ b'.contents = b.contents ∧ len ≤ b'.writableBytes := by
  have h2 := h.writer_le
  have hw := h.writableBytes_eq
  rcases ensureWritable_cases h hlen with ⟨h1, e⟩ | ⟨hc, e⟩ | ⟨h1, hfit, e⟩ | ⟨_, e⟩
  · rw [e] at hr
    cases hr
    exact ⟨h, rfl, h1⟩
  · rw [e] at hr
    cases hr
    have hgt := hc.reader_gt h hlen
    obtain ⟨hi, hcon⟩ := compacted_spec h hgt
    refine ⟨hi, hcon, ?_⟩
    have hroom := hc.room h hlen
    have hsize : b.compacted.buffer_.length = b.buffer_.length := compacted_length h hgt
    rw [hi.writableBytes_eq, hsize]
    simp only [compacted, h.contents_length, h.readableBytes_eq]
    have := h.reader_le
    omega
  · rw [e] at hr
    cases hr
    obtain ⟨hi, hcon⟩ := grown_spec h hfit
    refine ⟨hi, hcon, ?_⟩
    rw [hi.writableBytes_eq, grown_length]
    simp only [grown]
    omega
  · rw [e] at hr
    cases hr

theorem ensureWritable.returns {b : Buffer} {len : Nat} (h : b.Ordered)
    (hfit : b.writerIndex_ + len < 2 ^ 63) : ∃ b', b.ensureWritable len = .ok b' := by
  rcases ensureWritable_cases h (show len < 2 ^ 63 by omega) with
    ⟨_, e⟩ | ⟨_, e⟩ | ⟨_, _, e⟩ | ⟨hbig, _⟩
  · exact ⟨_, e⟩
  · exact ⟨_, e⟩
  · exact ⟨_, e⟩
  · omega

theorem ensureWritable_length {b b' : Buffer} {len : Nat} (h : b.Ordered) (hlen : len < 2 ^ 63)
    (hr : b.ensureWritable len = .ok b') :
    b.buffer_.length ≤ b'.buffer_.length ∧ b'.buffer_.length ≤ b.buffer_.length + len := by
  have h2 := h.writer_le
  rcases ensureWritable_cases h hlen with ⟨_, e⟩ | ⟨hc, e⟩ | ⟨_, _, e⟩ | ⟨_, e⟩
  · rw [e] at hr
    cases hr
    exact ⟨Nat.le_refl _, Nat.le_add_right _ _⟩
  · rw [e] at hr
    cases hr
    rw [compacted_length h (hc.reader_gt h hlen)]
    exact ⟨Nat.le_refl _, Nat.le_add_right _ _⟩
  · rw [e] at hr
    cases hr
    rw [grown_length]
    omega
  · rw [e] at hr
    cases hr

/-! ## The specs of append and prepend -/

theorem hasWritten.spec {b : Buffer} (h : b.Ordered) {len : Nat} (hlen : len ≤ b.writableBytes) :
    b.hasWritten len = .ok { b with writerIndex_ := b.writerIndex_ + len } := by
  have hw := h.writableBytes_eq
  have h4 := h.bounded
  unfold maxSize at h4
  have h2 := h.writer_le
  simp only [hasWritten, check_of hlen, ok_bind, pure_eq_ok]
  rw [sizeAdd_eq (by omega)]

/-- What a caller fills the free bytes with comes after the contents. -/
theorem fill.spec {b : Buffer} (h : b.Ordered) {data : List Byte}
    (hlen : data.length ≤ b.writableBytes) :
    ∃ b', b.fill data = .ok b' ∧ b'.Ordered ∧ b'.contents = b.contents ++ data ∧
      b'.buffer_.length = b.buffer_.length := by
  have h1 := h.reader_le
  have h2 := h.writer_le
  have hroom : b.writerIndex_ + data.length ≤ b.buffer_.length := by
    have := h.writableBytes_eq
    omega
  have hsize : (splice b.buffer_ b.writerIndex_ data).length = b.buffer_.length :=
    splice_length hroom
  have hi : ({ b with buffer_ := splice b.buffer_ b.writerIndex_ data } : Buffer).Ordered := by
    refine ⟨h1, ?_, ?_⟩
    · simpa only [hsize] using h2
    · simpa only [hsize] using h.bounded
  have hw : data.length ≤
      ({ b with buffer_ := splice b.buffer_ b.writerIndex_ data } : Buffer).writableBytes := by
    rw [hi.writableBytes_eq]
    simp only [hsize]
    omega
  unfold fill
  rw [copyIn_eq hroom, ok_bind, hasWritten.spec hi hw]
  refine ⟨_, rfl, ⟨?_, ?_, ?_⟩, ?_, hsize⟩
  · simp only
    omega
  · simp only [hsize]
    omega
  · exact hi.bounded
  · have hold : slice (splice b.buffer_ b.writerIndex_ data) b.readerIndex_ b.writerIndex_ =
        b.contents := slice_splice_before h2 (Nat.le_refl _)
    have hnew : slice (splice b.buffer_ b.writerIndex_ data) b.writerIndex_
        (b.writerIndex_ + data.length) = data := slice_splice_self h2
    rw [contents, ← slice_append h1 (by simp), hold, hnew]

theorem append_eq (b : Buffer) (data : List Byte) :
    b.append data = b.ensureWritable data.length >>= fun b => b.fill data := rfl

/-- An append that returns adds its bytes at the back. -/
theorem append.spec {b b' : Buffer} (h : b.Ordered) {data : List Byte} (hlen : data.length < 2 ^ 63)
    (hr : b.append data = .ok b') : b'.Ordered ∧ b'.contents = b.contents ++ data ∧
      b.buffer_.length ≤ b'.buffer_.length ∧
      b'.buffer_.length ≤ b.buffer_.length + data.length := by
  rw [append_eq, bind_eq_ok] at hr
  obtain ⟨b₁, he, hf⟩ := hr
  obtain ⟨hi, hcon, hroom⟩ := ensureWritable.spec h hlen he
  obtain ⟨b₂, hf', hi', hcon', hsame⟩ := fill.spec hi hroom
  rw [hf] at hf'
  cases hf'
  have hle := ensureWritable_length h hlen he
  rw [← hsame] at hle
  exact ⟨hi', by rw [hcon', hcon], hle⟩

/-- An append that does not return would make the vector too large. -/
theorem append_error {b : Buffer} (h : b.Ordered) {data : List Byte} (hlen : data.length < 2 ^ 63)
    {e : Fault} (hr : b.append data = .error e) :
    2 ^ 63 ≤ b.writerIndex_ + data.length ∧ e = .lengthError := by
  rw [append_eq, bind_eq_error] at hr
  rcases hr with hr | ⟨b₁, he, hf⟩
  · rcases ensureWritable_cases h hlen with ⟨_, e'⟩ | ⟨_, e'⟩ | ⟨_, _, e'⟩ | ⟨hbig, e'⟩ <;>
      rw [e'] at hr <;> cases hr
    exact ⟨hbig, rfl⟩
  · obtain ⟨hi, _, hroom⟩ := ensureWritable.spec h hlen he
    obtain ⟨b₂, hf', _⟩ := fill.spec hi hroom
    rw [hf'] at hf
    cases hf

/-- The vector takes `len` more bytes: at its end, after a move to the front, or
in a larger one. -/
def Takes (b : Buffer) (len : Nat) : Prop :=
  len ≤ b.writableBytes ∨ b.Compacts len ∨ b.writerIndex_ + len < 2 ^ 63

theorem ensureWritable_returns_iff {b : Buffer} {len : Nat} (h : b.Ordered) (hlen : len < 2 ^ 63) :
    (∃ b', b.ensureWritable len = .ok b') ↔ b.Takes len := by
  have hw := h.writableBytes_eq
  have h2 := h.writer_le
  have h4 := h.bounded
  unfold maxSize at h4
  unfold Takes
  constructor
  · rintro ⟨b', hr⟩
    rcases ensureWritable_cases h hlen with ⟨hroom, _⟩ | ⟨hc, _⟩ | ⟨_, hfit, _⟩ | ⟨_, e⟩
    · exact Or.inl hroom
    · exact Or.inr (Or.inl hc)
    · exact Or.inr (Or.inr hfit)
    · rw [e] at hr
      cases hr
  · rintro (hroom | hc | hfit)
    · exact ensureWritable.returns h (by omega)
    · refine ⟨b.compacted, ?_⟩
      unfold ensureWritable
      rw [if_pos hc.1, makeSpace_compacts h hlen hc]
    · exact ensureWritable.returns h hfit

/-- An append returns exactly when the vector takes its bytes. -/
theorem append_returns_iff {b : Buffer} (h : b.Ordered) {data : List Byte}
    (hlen : data.length < 2 ^ 63) :
    (∃ b', b.append data = .ok b') ↔ b.Takes data.length := by
  rw [← ensureWritable_returns_iff h hlen]
  constructor
  · rintro ⟨b', hr⟩
    rw [append_eq, bind_eq_ok] at hr
    obtain ⟨b₁, he, _⟩ := hr
    exact ⟨b₁, he⟩
  · rintro ⟨b₁, he⟩
    obtain ⟨hi, _, hroom⟩ := ensureWritable.spec h hlen he
    obtain ⟨b₂, hf, _⟩ := fill.spec hi hroom
    exact ⟨b₂, by rw [append_eq, he, ok_bind, hf]⟩

theorem append.returns {b : Buffer} (h : b.Ordered) {data : List Byte}
    (hfit : b.writerIndex_ + data.length < 2 ^ 63) : ∃ b', b.append data = .ok b' :=
  (append_returns_iff h (by omega)).mpr (Or.inr (Or.inr hfit))

/-- A prepend adds its bytes at the front. -/
theorem prepend.spec {b : Buffer} (h : b.Ordered) {data : List Byte}
    (hlen : data.length < b.prependableBytes) :
    ∃ b', b.prepend data = .ok b' ∧ b'.Ordered ∧ b'.contents = data ++ b.contents ∧
      b'.buffer_.length = b.buffer_.length := by
  have hcheck : check "len < prependableBytes()" (data.length < b.prependableBytes) = .ok () :=
    check_of hlen
  unfold prependableBytes at hlen
  have h1 := h.reader_le
  have h2 := h.writer_le
  have h4 := h.bounded
  unfold maxSize at h4
  have hroom : b.readerIndex_ - data.length + data.length ≤ b.buffer_.length := by omega
  have hsize : (splice b.buffer_ (b.readerIndex_ - data.length) data).length = b.buffer_.length :=
    splice_length hroom
  rw [prepend, hcheck, ok_bind, sizeSub_eq (by omega) (by omega)]
  simp only [copyIn_eq hroom, ok_bind, pure_eq_ok]
  refine ⟨_, rfl, ⟨?_, ?_, ?_⟩, ?_, hsize⟩
  · simp only
    omega
  · simpa only [hsize] using h2
  · simpa only [hsize] using h.bounded
  · have hnew : slice (splice b.buffer_ (b.readerIndex_ - data.length) data)
        (b.readerIndex_ - data.length) b.readerIndex_ = data := by
      have hself : slice (splice b.buffer_ (b.readerIndex_ - data.length) data)
          (b.readerIndex_ - data.length) (b.readerIndex_ - data.length + data.length) = data :=
        slice_splice_self (by omega)
      rwa [show b.readerIndex_ - data.length + data.length = b.readerIndex_ by omega] at hself
    have hold : slice (splice b.buffer_ (b.readerIndex_ - data.length) data)
        b.readerIndex_ b.writerIndex_ = b.contents := slice_splice_after (by omega) (by omega)
    rw [contents, ← slice_append (j := b.readerIndex_) (by simp) h1, hold, hnew]

/-! ## The specs of readFd -/

theorem fill_eq {b : Buffer} (h : b.Ordered) {data : List Byte}
    (hlen : data.length ≤ b.writableBytes) :
    ∃ mem, copyIn b.buffer_ b.writerIndex_ data = .ok mem ∧ mem.length = b.buffer_.length ∧
      b.fill data = .ok { b with
        buffer_ := mem, writerIndex_ := sizeAdd b.writerIndex_ data.length } := by
  obtain ⟨b', hf, _, _, hsize⟩ := fill.spec h hlen
  unfold fill at hf ⊢
  rw [bind_eq_ok] at hf
  obtain ⟨mem, hm, hw⟩ := hf
  rw [hm, ok_bind, hw]
  simp only [hasWritten, bind_eq_ok, pure_eq_ok, Except.ok.injEq] at hw
  obtain ⟨_, _, rfl⟩ := hw
  exact ⟨mem, rfl, hsize, rfl⟩

theorem fill_writer {b b' : Buffer} (h : b.Ordered) {data : List Byte}
    (hlen : data.length ≤ b.writableBytes) (hok : b.fill data = .ok b') :
    b'.writerIndex_ = b.writerIndex_ + data.length := by
  have hw := h.writableBytes_eq
  have h2 := h.writer_le
  have h4 := h.bounded
  unfold maxSize at h4
  obtain ⟨mem, _, _, hf⟩ := fill_eq h hlen
  rw [hok] at hf
  cases hf
  exact sizeAdd_eq (by omega)

/-- A read fills the free bytes, and appends what the stack segment took. -/
theorem readFd_eq {b : Buffer} (h : b.Ordered) (savedErrno : Nat) (bytes : List Byte) :
    (∃ b', (bytes.take b.room).length ≤ b.writableBytes ∧ b.fill (bytes.take b.room) = .ok b' ∧
      b.readFd savedErrno (.delivered bytes) =
        .ok (b', (bytes.take b.room).length, savedErrno)) ∨
    ∃ b₁, b.writableBytes < (bytes.take b.room).length ∧
      b.fill ((bytes.take b.room).take b.writableBytes) = .ok b₁ ∧
      b.readFd savedErrno (.delivered bytes) =
        b₁.append ((bytes.take b.room).drop b.writableBytes) >>= fun b' =>
          pure (b', ((bytes.take b.room).length : Int), savedErrno) := by
  have hw := h.writableBytes_eq
  have h2 := h.writer_le
  have h4 := h.bounded
  unfold maxSize at h4
  simp only [readFd]
  generalize bytes.take b.room = data
  by_cases hfit : data.length ≤ b.writableBytes
  · -- the free bytes take all
    obtain ⟨mem, hm, _, hf⟩ := fill_eq h hfit
    refine Or.inl ⟨_, hfit, hf, ?_⟩
    simp only [List.take_of_length_le hfit, hm, ok_bind, if_pos hfit, pure_eq_ok]
  · -- the stack segment takes the rest
    have htake : (data.take b.writableBytes).length = b.writableBytes := by
      rw [List.length_take]
      omega
    obtain ⟨mem, hm, hsize, hf⟩ := fill_eq h (le_of_eq htake)
    have hend : sizeAdd b.writerIndex_ (data.take b.writableBytes).length = mem.length := by
      rw [htake, sizeAdd_eq (by omega)]
      omega
    rw [hend] at hf
    refine Or.inr ⟨_, by omega, hf, ?_⟩
    simp only [hm, ok_bind, if_neg hfit, pure_eq_ok]

/-- A read that delivers bytes adds them at the back, or those that the free
bytes have no room for would make the vector too large. -/
theorem readFd_delivered {b : Buffer} (h : b.Ordered) (savedErrno : Nat) (bytes : List Byte) :
    (∃ b', b.readFd savedErrno (.delivered bytes) =
        .ok (b', (bytes.take b.room).length, savedErrno) ∧
      b'.Ordered ∧ b'.contents = b.contents ++ bytes.take b.room ∧
      b.buffer_.length ≤ b'.buffer_.length) ∨
    2 ^ 63 ≤ b.buffer_.length + (min bytes.length b.room - b.writableBytes) ∧
      b.readFd savedErrno (.delivered bytes) = .error .lengthError := by
  have hw := h.writableBytes_eq
  have h2 := h.writer_le
  have h4 := h.bounded
  unfold maxSize at h4
  have hroom : b.room - b.writableBytes ≤ extraSize := by
    unfold room extraSize sizeAdd
    split <;> omega
  have hread := readFd_eq h savedErrno bytes
  rw [show min bytes.length b.room = (bytes.take b.room).length by
    rw [List.length_take, Nat.min_comm]]
  have hlen : (bytes.take b.room).length ≤ b.room := by
    rw [List.length_take]
    exact Nat.min_le_left _ _
  generalize bytes.take b.room = data at hread hlen ⊢
  rcases hread with ⟨b₁, hfit, hf, heq⟩ | ⟨b₁, hfit, hf, heq⟩
  · obtain ⟨b', hf', hi, hcon, hsame⟩ := fill.spec h hfit
    rw [hf] at hf'
    cases hf'
    exact Or.inl ⟨b₁, heq, hi, hcon, le_of_eq hsame.symm⟩
  · have htake : (data.take b.writableBytes).length ≤ b.writableBytes := by
      rw [List.length_take]
      exact Nat.min_le_left _ _
    obtain ⟨b', hf', hi, hcon, hsame⟩ := fill.spec h htake
    rw [hf] at hf'
    cases hf'
    have hfull := fill_writer h htake hf
    rw [List.length_take] at hfull
    have hspill : (data.drop b.writableBytes).length = data.length - b.writableBytes :=
      List.length_drop ..
    have hrest : (data.drop b.writableBytes).length < 2 ^ 63 := by
      unfold extraSize at hroom
      omega
    rw [heq]
    cases ha : b₁.append (data.drop b.writableBytes) with
    | error e =>
      obtain ⟨hbig, he⟩ := append_error hi hrest ha
      exact Or.inr ⟨by omega, by rw [error_bind, he]⟩
    | ok b'' =>
      obtain ⟨hi', hcon', hge, _⟩ := append.spec hi hrest ha
      refine Or.inl ⟨b'', rfl, hi', ?_, hsame ▸ hge⟩
      rw [hcon', hcon, List.append_assoc, List.take_append_drop]

end Buffer

end jmuduo.net
