-- The laws of the bytes that a buffer keeps free before its contents: no call
-- but a prepend takes them, and a prepend can use all of them but the last.
import Jmuduo.BufferIntegers
import Jmuduo.BufferSizes

open outcome memory runs endian

namespace jmuduo.net

namespace Buffer

/-! ## The calls without a prepend -/

/-- A call that prepends nothing. -/
inductive Use
  | append (data : List Byte)
  | appendInt (u : Unread)
  | ensureWritable (len : Nat)
  | readFd (savedErrno : Nat) (r : ReadResult)
  | retrieve (len : Nat)
  | readInt (w : Width)

def Use.run (b : Buffer) : Use → Outcome Buffer
  | .append data => b.append data
  | .appendInt u => b.appendIntN u.1 u.2
  | .ensureWritable len => b.ensureWritable len
  | .readFd savedErrno r => do
    let (b, _, _) ← b.readFd savedErrno r
    pure b
  | .retrieve len => pure (b.retrieve len)
  | .readInt w => do
    let (b, _) ← b.readIntN w
    pure b

/-- The room that a call asks for, as a `size_t`. -/
def Use.len : Use → Nat
  | .append data => data.length
  | .appendInt u => u.1.bytes
  | .ensureWritable len => len
  | .readFd _ _ | .retrieve _ | .readInt _ => 0

/-- The end of the room stays a `size_t`. -/
def Use.Fits (b : Buffer) (use : Use) : Prop := b.writerIndex_ + use.len < 2 ^ 64

/-- Any such calls on a new buffer, as long as each returns. -/
def uses : Machine Buffer Use where
  init b := ∃ initialSize : Nat, initialSize < 2 ^ 31 ∧ b = construct initialSize
  step b use b' := use.run b = .ok b'

/-! ## The reserve -/

/-- The bytes before the contents are free, the cheap prepend at least. -/
structure Reserved (b : Buffer) : Prop where
  inv : b.Inv
  cheap : kCheapPrepend ≤ b.readerIndex_

theorem ensureWritable_reader {b b' : Buffer} {len : Nat} (h : b.ensureWritable len = .ok b') :
    b'.readerIndex_ = b.readerIndex_ ∨ b'.readerIndex_ = kCheapPrepend := by
  unfold ensureWritable at h
  split at h
  · unfold makeSpace at h
    split at h
    · rw [bind_eq_ok] at h
      obtain ⟨mem, _, h⟩ := h
      cases h
      exact Or.inr rfl
    · rw [bind_eq_ok] at h
      obtain ⟨mem, _, h⟩ := h
      cases h
      exact Or.inl rfl
  · cases h
    exact Or.inl rfl

theorem fill_reader {b b' : Buffer} {data : List Byte} (h : b.fill data = .ok b') :
    b'.readerIndex_ = b.readerIndex_ := by
  simp only [fill, hasWritten, bind_eq_ok] at h
  obtain ⟨mem, _, _, _, h⟩ := h
  cases h
  rfl

theorem append_reader {b b' : Buffer} {data : List Byte} (h : b.append data = .ok b') :
    b'.readerIndex_ = b.readerIndex_ ∨ b'.readerIndex_ = kCheapPrepend := by
  rw [append_eq, bind_eq_ok] at h
  obtain ⟨b₁, hroom, hfill⟩ := h
  rw [fill_reader hfill]
  exact ensureWritable_reader hroom

theorem readFd_reader {b b' : Buffer} {savedErrno errno : Nat} {r : ReadResult} {n : Int}
    (h : b.readFd savedErrno r = .ok (b', n, errno)) :
    b'.readerIndex_ = b.readerIndex_ ∨ b'.readerIndex_ = kCheapPrepend := by
  cases r with
  | failed e =>
    cases h
    exact Or.inl rfl
  | delivered bytes =>
    simp only [readFd, bind_eq_ok] at h
    obtain ⟨mem, _, h⟩ := h
    split at h
    · cases h
      exact Or.inl rfl
    · rw [bind_eq_ok] at h
      obtain ⟨b₁, happend, h⟩ := h
      cases h
      have hreader := append_reader happend
      exact hreader

theorem Reserved.reader_le {b b' : Buffer} (h : b.Reserved)
    (hreader : b'.readerIndex_ = b.readerIndex_ ∨ b'.readerIndex_ = kCheapPrepend) :
    kCheapPrepend ≤ b'.readerIndex_ := by
  have hcheap := h.cheap
  omega

/-- With the writer past the reserve, only one of the sums can wrap. -/
theorem Reserved.sumsFit {b : Buffer} (h : b.Reserved) {len : Nat}
    (hfit : b.writerIndex_ + len < 2 ^ 64) : b.SumsFit len := by
  have h1 := h.inv.reader_le
  have h2 := h.cheap
  exact ⟨hfit, Or.inl (by omega)⟩

theorem Reserved.ensureWritable {b b' : Buffer} (h : b.Reserved) {len : Nat}
    (hfit : b.writerIndex_ + len < 2 ^ 64) (hok : b.ensureWritable len = .ok b') :
    b'.Reserved ∧ len < 2 ^ 63 := by
  have ho := h.inv.ordered
  by_cases hlen : len < 2 ^ 63
  · obtain ⟨ho', _⟩ := ensureWritable.spec ho hlen hok
    obtain ⟨hge, _⟩ := ensureWritable_length ho hlen hok
    exact ⟨⟨h.inv.of_ordered ho' hge, h.reader_le (ensureWritable_reader hok)⟩, hlen⟩
  · rw [ensureWritable_throws ho (by omega) (h.sumsFit hfit)] at hok
    cases hok

theorem Reserved.append {b b' : Buffer} (h : b.Reserved) {data : List Byte}
    (hfit : b.writerIndex_ + data.length < 2 ^ 64) (hok : b.append data = .ok b') :
    b'.Reserved := by
  have hlen : data.length < 2 ^ 63 := by
    have hroom := hok
    rw [append_eq, bind_eq_ok] at hroom
    obtain ⟨b₁, hroom, _⟩ := hroom
    exact (h.ensureWritable hfit hroom).2
  obtain ⟨ho, _, hge, _⟩ := append.spec h.inv.ordered hlen hok
  exact ⟨h.inv.of_ordered ho hge, h.reader_le (append_reader hok)⟩

theorem Reserved.retrieve {b : Buffer} (h : b.Reserved) (len : Nat) :
    (b.retrieve len).Reserved := by
  have h1 := h.cheap
  have h2 := h.inv.writer_le
  have h4 := h.inv.bounded
  have hread := h.inv.ordered.readableBytes_eq
  unfold maxSize at h4
  refine ⟨(retrieve.spec h.inv len).1, ?_⟩
  unfold Buffer.retrieve
  split
  · show kCheapPrepend ≤ sizeAdd b.readerIndex_ len
    rw [sizeAdd_eq (by omega)]
    omega
  · exact Nat.le_refl _

/-- Every call keeps the reserve, as long as its size is one. -/
theorem Reserved.use {b b' : Buffer} {use : Use} (h : b.Reserved) (hfit : use.Fits b)
    (hok : use.run b = .ok b') : b'.Reserved := by
  cases use with
  | append data => exact h.append hfit hok
  | appendInt u =>
    simp only [Use.run, appendIntN_eq] at hok
    refine h.append ?_ hok
    rw [encode_length]
    exact hfit
  | ensureWritable len => exact (h.ensureWritable hfit hok).1
  | readFd savedErrno r =>
    simp only [Use.run, bind_eq_ok] at hok
    obtain ⟨⟨b₁, n, errno⟩, hread, hok⟩ := hok
    cases hok
    refine ⟨?_, h.reader_le (readFd_reader hread)⟩
    cases r with
    | failed e =>
      cases hread
      exact h.inv
    | delivered bytes =>
      rcases readFd_delivered h.inv.ordered savedErrno bytes with
        ⟨b₂, hok, ho, _, hge⟩ | ⟨_, he⟩
      · rw [hok] at hread
        cases hread
        exact h.inv.of_ordered ho hge
      · rw [he] at hread
        cases hread
  | retrieve len =>
    cases hok
    exact h.retrieve len
  | readInt w =>
    simp only [Use.run, readIntN_eq, bind_eq_ok] at hok
    obtain ⟨_, ⟨x, _, hread⟩, hok⟩ := hok
    cases hread
    cases hok
    exact h.retrieve w.bytes

theorem reachable_reserved {b : Buffer}
    (h : (uses.restrict fun b use _ => use.Fits b).Reachable b) : b.Reserved := by
  apply h.invariant
  · rintro b ⟨initialSize, hsmall, rfl⟩
    exact ⟨construct_inv (by unfold kCheapPrepend; omega), Nat.le_refl _⟩
  · rintro b use b' hb ⟨hok, hfit⟩
    exact hb.use hfit hok

/-! ## The law -/

/-- A prepend puts its data in front of the contents. -/
def Prepends (b : Buffer) (data : List Byte) : Prop :=
  ∃ b', b.prepend data = .ok b' ∧ b'.contents = data ++ b.contents

theorem Reserved.prepends_iff {b : Buffer} (h : b.Reserved) (data : List Byte) :
    b.Prepends data ↔ data.length < b.prependableBytes := by
  unfold Prepends
  constructor
  · rintro ⟨b', hok, _⟩
    simp only [prepend, bind_eq_ok, check_eq_ok] at hok
    obtain ⟨_, hlen, _⟩ := hok
    exact hlen
  · intro hlen
    obtain ⟨b', hok, _, hcon, _⟩ := prepend.spec h.inv.ordered hlen
    exact ⟨b', hok, hcon⟩

/-- A buffer keeps its cheap prepend through every run without a prepend whose
sizes are no more than a `size_t` can count. A prepend of data of up to that
many bytes, a 64-bit integer among them, passes its assert exactly when the data
is shorter than the free bytes. So a prepend of all eight of them does not, where
no byte was retrieved. -/
theorem the_cheap_prepend_is_kept_but_not_all_usable (b : Buffer)
    (h : (uses.restrict fun b use _ => use.Fits b).Reachable b) :
    kCheapPrepend ≤ b.prependableBytes ∧
    (∀ data : List Byte, data.length ≤ kCheapPrepend →
      (b.Prepends data ↔ data.length < b.prependableBytes)) ∧
    (∀ x : BitVec 64,
      (∃ b', b.prependInt64 x = .ok b' ∧ b'.contents = bigEndian 8 x.toInt ++ b.contents) ↔
        8 < b.prependableBytes) := by
  have hb := reachable_reserved h
  refine ⟨hb.cheap, fun data _ => hb.prepends_iff data, fun x => ?_⟩
  have hint : b.prependInt64 x = b.prepend (bigEndian 8 x.toInt) := prependIntN_eq .int64 x b
  have hiff := hb.prepends_iff (bigEndian 8 x.toInt)
  rw [bigEndian_length] at hiff
  rw [hint]
  exact hiff

/-- After a byte was retrieved, all eight bytes can be prepended. -/
theorem the_cheap_prepend_is_usable_past_a_byte :
    ∃ b, (uses.restrict fun b use _ => use.Fits b).Reachable b ∧ b.contents = [2] ∧
      b.Prepends [0, 0, 0, 0, 0, 0, 0, 7] := by
  have h0 : (uses.restrict fun b use _ => use.Fits b).Reachable (construct 2) :=
    .start ⟨2, by decide, rfl⟩
  have h1 := h0.next (a := .append [1, 2]) (t := ⟨List.replicate 8 0 ++ [1, 2], 8, 10⟩)
    ⟨by rfl, by unfold Use.Fits; decide⟩
  have h2 := h1.next (a := .retrieve 1) (t := ⟨List.replicate 8 0 ++ [1, 2], 9, 10⟩)
    ⟨by rfl, by unfold Use.Fits; decide⟩
  obtain ⟨_, hprepends, _⟩ := the_cheap_prepend_is_kept_but_not_all_usable _ h2
  exact ⟨_, h2, by decide, (hprepends _ (by decide)).mpr (by decide)⟩

/-- A new buffer has eight bytes free, and its assert does not take eight. -/
theorem a_new_buffer_takes_no_int64 :
    ∃ b, uses.Reachable b ∧ b.prependableBytes = kCheapPrepend ∧
      b.prependInt64 7 = .error (.assertion "len < prependableBytes()") ∧
      ¬ b.Prepends [0, 0, 0, 0, 0, 0, 0, 7] := by
  have hfails : (construct 0).prepend [0, 0, 0, 0, 0, 0, 0, 7] =
      .error (.assertion "len < prependableBytes()") := rfl
  refine ⟨construct 0, .start ⟨0, by decide, rfl⟩, rfl, rfl, ?_⟩
  rintro ⟨b', hok, _⟩
  rw [hfails] at hok
  cases hok

end Buffer

end jmuduo.net
