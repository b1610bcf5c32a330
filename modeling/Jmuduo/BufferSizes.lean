-- The laws of the sizes of a buffer, whatever its indexes are as long as they
-- are in order: a read adds what it delivers, and `ensureWritable` makes room
-- where its sums stay a `size_t`.
import Jmuduo.Buffer

open outcome memory

namespace jmuduo.net

namespace Buffer

/-! ## Reads -/

/-- A read adds exactly what it delivers. One that fails leaves the buffer as
it was and hands on its `errno`. One that delivers bytes returns their number,
and they come after the contents in their order, the indexes staying in order.
Only where the bytes beyond the free ones would make the vector larger than its
`max_size()`, `resize` throws instead. -/
theorem a_read_adds_what_it_delivers (b : Buffer) (h : b.Ordered) (savedErrno : Nat) :
    (∀ errno, b.readFd savedErrno (.failed errno) = .ok (b, -1, errno)) ∧
    ∀ bytes : List Byte,
      bytes.length ≤ (if b.writableBytes > 65536 then b.writableBytes
        else b.writableBytes + 65536) →
      (∃ b', b.readFd savedErrno (.delivered bytes) = .ok (b', bytes.length, savedErrno) ∧
        b'.contents = b.contents ++ bytes ∧
        b'.readerIndex_ ≤ b'.writerIndex_ ∧ b'.writerIndex_ ≤ b'.buffer_.length) ∨
      maxSize < b.buffer_.length + (bytes.length - b.writableBytes) ∧
        b.readFd savedErrno (.delivered bytes) = .error .lengthError := by
  refine ⟨fun errno => rfl, fun bytes hn => ?_⟩
  have hwritable := h.writableBytes_eq
  have hbounded := h.bounded
  unfold maxSize at hbounded
  have hroom : bytes.length ≤ b.room := by
    unfold room extraSize
    rwa [sizeAdd_eq (by omega)]
  have htake : bytes.take b.room = bytes := List.take_of_length_le hroom
  rcases readFd_delivered h savedErrno bytes with ⟨b', hok, hi, hcon, _⟩ | ⟨hbig, he⟩
  · rw [htake] at hok hcon
    exact Or.inl ⟨b', hok, hcon, hi.reader_le, hi.writer_le⟩
  · rw [Nat.min_eq_left hroom] at hbig
    refine Or.inr ⟨?_, he⟩
    unfold maxSize
    omega

/-- A byte that the stack segment takes. -/
theorem a_read_adds_a_byte :
    ∃ b', (⟨[1, 2], 0, 2⟩ : Buffer).readFd 0 (.delivered [7]) = .ok (b', 1, 0) ∧
      b'.contents = [1, 2, 7] := by
  obtain ⟨_, hread⟩ := a_read_adds_what_it_delivers ⟨[1, 2], 0, 2⟩
    ⟨by decide, by decide, by decide⟩ 0
  rcases hread [7] (by decide) with ⟨b', hok, hcon, _⟩ | ⟨hbig, _⟩
  · exact ⟨b', hok, hcon⟩
  · exact absurd hbig (by decide)

/-- A vector that is as large as it can be has no room for another byte. -/
theorem a_read_throws_at_the_largest_vector :
    ∃ b : Buffer, b.Ordered ∧ [(7 : Byte)].length ≤ b.writableBytes + 65536 ∧
      b.readFd 0 (.delivered [7]) = .error .lengthError := by
  obtain ⟨mem, hmem⟩ : ∃ mem : List Byte, mem.length = maxSize :=
    ⟨List.replicate maxSize 0, List.length_replicate ..⟩
  have hb : (⟨mem, 8, mem.length⟩ : Buffer).Ordered := by
    refine ⟨?_, Nat.le_refl _, Nat.le_of_eq hmem⟩
    show 8 ≤ mem.length
    unfold maxSize at hmem
    omega
  have hnone : (⟨mem, 8, mem.length⟩ : Buffer).writableBytes = 0 := by
    rw [hb.writableBytes_eq]
    exact Nat.sub_self _
  have hroom : [(7 : Byte)].take (⟨mem, 8, mem.length⟩ : Buffer).room = [7] := by
    unfold room
    rw [hnone]
    rfl
  -- neither the free bytes nor a larger vector have room for it
  have hthrows : (⟨mem, 8, mem.length⟩ : Buffer).ensureWritable 1 = .error .lengthError := by
    rcases ensureWritable_cases hb (show 1 < 2 ^ 63 by omega) with
      ⟨hfree, _⟩ | ⟨hc, _⟩ | ⟨_, hfit, _⟩ | ⟨_, e⟩
    · omega
    · have hgt := hc.room hb (by omega)
      simp only [kCheapPrepend, Nat.sub_self] at hgt
      omega
    · simp only at hfit
      unfold maxSize at hmem
      omega
    · exact e
  refine ⟨_, hb, by simp, ?_⟩
  unfold readFd
  simp only [hroom, hnone, List.take_zero, List.drop_zero, copyIn, pure_eq_ok, ok_bind,
    List.length_singleton]
  rw [if_neg (by omega), append_eq]
  simp only [List.length_singleton, hthrows, error_bind]

/-! ## Room -/

/-- What `ensureWritable` is for: it throws and leaves the buffer as it was, or
it keeps the contents and the order of the indexes and makes room. -/
def MakesRoom (b : Buffer) (len : Nat) : Prop :=
  b.ensureWritable len = .error .lengthError ∨
  ∃ b', b.ensureWritable len = .ok b' ∧ b'.contents = b.contents ∧
    b'.readerIndex_ ≤ b'.writerIndex_ ∧ b'.writerIndex_ ≤ b'.buffer_.length ∧
    len ≤ b'.writableBytes

/-- The sums of `makeSpace` stay a `size_t`, or the one that wraps still leads
to a `resize` that throws. -/
def SumsFit (b : Buffer) (len : Nat) : Prop :=
  b.writerIndex_ + len < 2 ^ 64 ∧
    (len + kCheapPrepend < 2 ^ 64 ∨
      b.prependableBytes + b.writableBytes < len + kCheapPrepend - 2 ^ 64)

instance (b : Buffer) (len : Nat) : Decidable (b.SumsFit len) :=
  inferInstanceAs (Decidable (_ ∧ _))

/-- A size that is no `size_t` of a vector sends the call to `makeSpace`. -/
theorem ensureWritable_large {b : Buffer} {len : Nat} (h : b.Ordered) (hlen : 2 ^ 63 ≤ len) :
    b.ensureWritable len = b.makeSpace len := by
  have hw := h.writableBytes_eq
  have h4 := h.bounded
  unfold maxSize at h4
  unfold ensureWritable
  rw [if_pos (by omega)]

/-- The first test of `makeSpace` at such a size: only a sum that wraps is small
enough. -/
theorem compacts_large {b : Buffer} {len : Nat} (h : b.Ordered) (hlarge : 2 ^ 63 ≤ len)
    (hlen : len < 2 ^ 64) :
    sizeAdd b.prependableBytes b.writableBytes ≥ sizeAdd len kCheapPrepend ↔
      2 ^ 64 ≤ len + kCheapPrepend ∧
        len + kCheapPrepend - 2 ^ 64 ≤ b.prependableBytes + b.writableBytes := by
  have hw := h.writableBytes_eq
  have h1 := h.reader_le
  have h2 := h.writer_le
  have h4 := h.bounded
  unfold maxSize at h4
  unfold prependableBytes kCheapPrepend
  rw [sizeAdd_eq (by omega)]
  unfold sizeAdd
  omega

/-- A copy that a wrapped sum led to makes no room. -/
theorem compaction_makes_no_room {b : Buffer} {len : Nat} (h : b.Ordered)
    (hwrap : 2 ^ 64 ≤ len + kCheapPrepend)
    (hc : sizeAdd b.prependableBytes b.writableBytes ≥ sizeAdd len kCheapPrepend) :
    ¬ b.MakesRoom len := by
  have h4 := h.bounded
  unfold maxSize at h4
  unfold kCheapPrepend at hwrap
  unfold MakesRoom
  rw [ensureWritable_large h (by omega)]
  unfold makeSpace
  rw [if_pos hc]
  rintro (he | ⟨b', hok, _, _, hwriter, hroom⟩)
  · rw [bind_eq_error] at he
    rcases he with he | ⟨mem, _, he⟩
    · cases copyWithin_error he
    · cases he
  · rw [bind_eq_ok] at hok
    obtain ⟨mem, hcopy, hok⟩ := hok
    cases hok
    have hsize := copyWithin_length hcopy
    -- the vector keeps its size, and is smaller than the room asked for
    simp only at hwriter
    unfold writableBytes at hroom
    simp only at hroom
    rw [sizeSub_eq hwriter (by omega)] at hroom
    omega

/-- A `resize` to a wrapped sum cuts the contents off. -/
theorem resize_cuts {b : Buffer} {len : Nat} (h : b.Ordered) (hlen : len < 2 ^ 64)
    (hwrap : 2 ^ 64 ≤ b.writerIndex_ + len)
    (hc : ¬ sizeAdd b.prependableBytes b.writableBytes ≥ sizeAdd len kCheapPrepend) :
    ¬ b.MakesRoom len := by
  have h2 := h.writer_le
  have h4 := h.bounded
  unfold maxSize at h4
  obtain ⟨n, hn, hsum⟩ : ∃ n, n + 2 ^ 64 = b.writerIndex_ + len ∧
      sizeAdd b.writerIndex_ len = n := by
    refine ⟨_, ?_, rfl⟩
    unfold sizeAdd
    omega
  unfold MakesRoom
  rw [ensureWritable_large h (by omega)]
  unfold makeSpace
  rw [if_neg hc, hsum]
  unfold resize
  rw [if_pos (by unfold maxSize; omega), ok_bind, pure_eq_ok]
  rintro (he | ⟨b', hok, _, _, hwriter, _⟩)
  · simp at he
  · simp only [Except.ok.injEq] at hok
    subst hok
    simp only [List.length_append, List.length_take, List.length_replicate] at hwriter
    omega

/-- Where its sums fit, a size that no vector has is thrown at. -/
theorem ensureWritable_throws {b : Buffer} {len : Nat} (h : b.Ordered) (hlarge : 2 ^ 63 ≤ len)
    (hfit : b.SumsFit len) : b.ensureWritable len = .error .lengthError := by
  obtain ⟨hsum, hwrap⟩ := hfit
  have hc : ¬ sizeAdd b.prependableBytes b.writableBytes ≥ sizeAdd len kCheapPrepend := by
    rw [compacts_large h hlarge (by omega)]
    omega
  rw [ensureWritable_large h hlarge]
  unfold makeSpace
  rw [if_neg hc, sizeAdd_eq hsum]
  unfold resize
  rw [if_neg (by unfold maxSize; omega)]
  rfl

/-- `ensureWritable` does what it is for exactly where its sums fit. Elsewhere
it moves the contents for room that is not there, or cuts the vector off below
them. -/
theorem ensureWritable_makes_room_iff_its_sums_fit (b : Buffer) (h : b.Ordered) (len : Nat)
    (hlen : len < 2 ^ 64) : b.MakesRoom len ↔ b.SumsFit len := by
  have hw := h.writableBytes_eq
  have h2 := h.writer_le
  have h4 := h.bounded
  unfold maxSize at h4
  unfold SumsFit
  by_cases hsmall : len < 2 ^ 63
  · -- no sum wraps
    constructor
    · intro _
      unfold kCheapPrepend
      omega
    · intro _
      rcases ensureWritable_cases h hsmall with ⟨_, e⟩ | ⟨_, e⟩ | ⟨_, _, e⟩ | ⟨_, e⟩
      · obtain ⟨hi, hcon, hroom⟩ := ensureWritable.spec h hsmall e
        exact Or.inr ⟨_, e, hcon, hi.reader_le, hi.writer_le, hroom⟩
      · obtain ⟨hi, hcon, hroom⟩ := ensureWritable.spec h hsmall e
        exact Or.inr ⟨_, e, hcon, hi.reader_le, hi.writer_le, hroom⟩
      · obtain ⟨hi, hcon, hroom⟩ := ensureWritable.spec h hsmall e
        exact Or.inr ⟨_, e, hcon, hi.reader_le, hi.writer_le, hroom⟩
      · exact Or.inl e
  · have hlarge : 2 ^ 63 ≤ len := by omega
    have hiff := compacts_large h hlarge hlen
    by_cases hc : sizeAdd b.prependableBytes b.writableBytes ≥ sizeAdd len kCheapPrepend
    · obtain ⟨hwrap, hle⟩ := hiff.mp hc
      constructor
      · intro hroom
        exact absurd hroom (compaction_makes_no_room h hwrap hc)
      · rintro ⟨_, hno | hlt⟩ <;> omega
    · constructor
      · intro hroom
        have hfit : b.writerIndex_ + len < 2 ^ 64 := by
          by_contra hno
          exact resize_cuts h hlen (by omega) hc hroom
        refine ⟨hfit, ?_⟩
        have hnot := mt hiff.mpr hc
        omega
      · intro hfit
        exact Or.inl (ensureWritable_throws h hlarge hfit)

/-- Room for one byte in a vector of two. -/
theorem ensureWritable_makes_room_for_a_byte : (⟨[1, 2], 0, 2⟩ : Buffer).MakesRoom 1 :=
  (ensureWritable_makes_room_iff_its_sums_fit ⟨[1, 2], 0, 2⟩ ⟨by decide, by decide, by decide⟩ 1
    (by decide)).mpr (by decide)

/-- A full buffer is asked for room for 2^64 - 10 bytes. The new size wraps to six,
and the readable bytes from index 8 on are gone. -/
theorem ensureWritable_cuts_the_contents :
    ∃ b b' : Buffer, b.Ordered ∧ b.ensureWritable (2 ^ 64 - 10) = .ok b' ∧
      b.readableBytes = 8 ∧ b'.buffer_.length = 6 ∧ b'.writerIndex_ = 16 ∧
      ¬ b.MakesRoom (2 ^ 64 - 10) := by
  have hb : (⟨List.replicate 16 0, 8, 16⟩ : Buffer).Ordered :=
    ⟨by decide, by decide, by decide⟩
  refine ⟨_, ⟨List.replicate 6 0, 8, 16⟩, hb, by decide, by decide, by decide, by decide, ?_⟩
  exact resize_cuts hb (by decide) (by decide) (by decide)

end Buffer

end jmuduo.net
