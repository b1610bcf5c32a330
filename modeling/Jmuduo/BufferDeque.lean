-- The laws of the buffer: whatever its callers do, it is a queue of bytes
-- with two ends. A move of the contents inside the vector is never seen.
import Jmuduo.Buffer
import Jmuduo.Runs

open outcome memory runs

namespace jmuduo.net

namespace Buffer

/-! ## The calls of a buffer -/

/-- A call on a buffer. `retrieveUntil n` gives the pointer `n` bytes after
`peek()`, and `fill` is a write from `beginWrite()` on with its `hasWritten`. -/
inductive Op
  | append (data : List Byte)
  | ensureWritable (len : Nat)
  | fill (data : List Byte)
  | retrieve (len : Nat)
  | retrieveUntil (n : Nat)
  | retrieveAll
  | retrieveAsString (len : Nat)
  | retrieveAllAsString
  | prepend (data : List Byte)
  deriving DecidableEq, Repr

/-- The call, with the string that it returns. -/
def Op.run (b : Buffer) : Op → Outcome (Buffer × List Byte)
  | .append data => do pure (← b.append data, [])
  | .ensureWritable len => do pure (← b.ensureWritable len, [])
  | .fill data => do pure (← b.fill data, [])
  | .retrieve len => pure (b.retrieve len, [])
  | .retrieveUntil n => do pure (← b.retrieveUntil (b.readerIndex_ + n), [])
  | .retrieveAll => pure (b.retrieveAll, [])
  | .retrieveAsString len => b.retrieveAsString len
  | .retrieveAllAsString => b.retrieveAllAsString
  | .prepend data => do pure (← b.prepend data, [])

/-- The assert of the call itself. -/
def Op.Asserts (b : Buffer) : Op → Prop
  | .fill data => data.length ≤ b.writableBytes
  | .retrieveUntil n => n ≤ b.readableBytes
  | .retrieveAsString len => len ≤ b.readableBytes
  | .prepend data => data.length < b.prependableBytes
  | _ => True

instance (b : Buffer) : (op : Op) → Decidable (op.Asserts b)
  | .fill data => inferInstanceAs (Decidable (data.length ≤ b.writableBytes))
  | .retrieveUntil n => inferInstanceAs (Decidable (n ≤ b.readableBytes))
  | .retrieveAsString len => inferInstanceAs (Decidable (len ≤ b.readableBytes))
  | .prepend data => inferInstanceAs (Decidable (data.length < b.prependableBytes))
  | .append _ | .ensureWritable _ | .retrieve _ | .retrieveAll | .retrieveAllAsString =>
    inferInstanceAs (Decidable True)

/-- The bytes that the call asks room for. -/
def Op.size : Op → Nat
  | .append data => data.length
  | .ensureWritable len => len
  | _ => 0

/-- The new end of the contents stays a size of a vector. -/
def Op.Fits (b : Buffer) (op : Op) : Prop := b.writerIndex_ + op.size < 2 ^ 63

instance (b : Buffer) (op : Op) : Decidable (op.Fits b) :=
  inferInstanceAs (Decidable (b.writerIndex_ + op.size < 2 ^ 63))

/-- The buffer as a machine. A label is a call with the string that it
returned. -/
def machine (initialSize : Nat) : Machine Buffer (Op × List Byte) where
  init b := b = construct initialSize
  step b l b' := l.1.Asserts b ∧ l.1.Fits b ∧ l.1.run b = .ok (b', l.2)

/-! ## The byte deque -/

/-- What the call does to a deque of bytes, with the bytes it gives back. -/
def Op.onDeque (q : List Byte) : Op → List Byte × List Byte
  | .append data => (q ++ data, [])
  | .ensureWritable _ => (q, [])
  | .fill data => (q ++ data, [])
  | .retrieve len => (q.drop len, [])
  | .retrieveUntil n => (q.drop n, [])
  | .retrieveAll => ([], [])
  | .retrieveAsString len => (q.drop len, q.take len)
  | .retrieveAllAsString => ([], q)
  | .prepend data => (data ++ q, [])

def deque : Machine (List Byte) (Op × List Byte) where
  init q := q = []
  step q l q' := l.1.onDeque q = (q', l.2)

/-! ## One call -/

/-- A call within its assert returns, does to the contents what it does to a
deque, and makes the vector larger by the room that it asks for, at most. -/
theorem Op.run.spec {b : Buffer} (h : b.Inv) (op : Op) (ha : op.Asserts b) (hfit : op.Fits b) :
    ∃ b' out, op.run b = .ok (b', out) ∧ b'.Inv ∧ op.onDeque b.contents = (b'.contents, out) ∧
      b'.buffer_.length ≤ b.buffer_.length + op.size := by
  have ho := h.ordered
  have hlen := ho.contents_length
  have hread := ho.readableBytes_eq
  cases op with
  | append data =>
    have hsize : data.length < 2 ^ 63 := by
      simp only [Op.Fits, Op.size] at hfit
      omega
    obtain ⟨b', he⟩ := append.returns ho hfit
    obtain ⟨hi, hcon, hge, hle⟩ := append.spec ho hsize he
    exact ⟨b', [], by simp [Op.run, he], h.of_ordered hi hge, by rw [Op.onDeque, hcon], hle⟩
  | ensureWritable len =>
    have hsize : len < 2 ^ 63 := by
      simp only [Op.Fits, Op.size] at hfit
      omega
    obtain ⟨b', he⟩ : ∃ b', b.ensureWritable len = .ok b' := ensureWritable.returns ho hfit
    obtain ⟨hi, hcon, _⟩ := ensureWritable.spec ho hsize he
    obtain ⟨hge, hle⟩ := ensureWritable_length ho hsize he
    exact ⟨b', [], by simp [Op.run, he], h.of_ordered hi hge, by rw [Op.onDeque, hcon], hle⟩
  | fill data =>
    obtain ⟨b', he, hi, hcon, hsame⟩ := fill.spec ho ha
    exact ⟨b', [], by simp [Op.run, he], h.of_ordered hi (by omega), by rw [Op.onDeque, hcon],
      by omega⟩
  | retrieve len =>
    obtain ⟨hi, hcon⟩ := retrieve.spec h len
    exact ⟨_, [], rfl, hi, by rw [Op.onDeque, hcon], by simp [retrieve_buffer]⟩
  | retrieveUntil n =>
    have hn : n ≤ b.readableBytes := ha
    have hr := h.reader_le
    obtain ⟨hi, hcon⟩ := retrieve.spec h n
    have he : b.retrieveUntil (b.readerIndex_ + n) = .ok (b.retrieve n) := by
      rw [retrieveUntil.spec (by omega) (by omega), Nat.add_sub_cancel_left]
    exact ⟨_, [], by simp [Op.run, he], hi, by rw [Op.onDeque, hcon], by simp [retrieve_buffer]⟩
  | retrieveAll =>
    exact ⟨_, [], rfl, h.retrieveAll, by rw [Op.onDeque, retrieveAll_contents],
      Nat.le_add_right _ _⟩
  | retrieveAsString len =>
    obtain ⟨hi, hcon⟩ := retrieve.spec h len
    exact ⟨_, _, retrieveAsString.spec ho ha, hi, by rw [Op.onDeque, hcon],
      by simp [retrieve_buffer]⟩
  | retrieveAllAsString =>
    obtain ⟨hi, hcon⟩ := retrieve.spec h b.readableBytes
    refine ⟨_, _, retrieveAllAsString.spec ho, hi, ?_, by simp [retrieve_buffer]⟩
    rw [Op.onDeque, hcon, List.drop_of_length_le (by omega)]
  | prepend data =>
    obtain ⟨b', he, hi, hcon, hsame⟩ := prepend.spec ho ha
    exact ⟨b', [], by simp [Op.run, he], h.of_ordered hi (by omega), by rw [Op.onDeque, hcon],
      by omega⟩

/-- What one step of the machine does. -/
theorem step_spec {initialSize : Nat} {b b' : Buffer} {l : Op × List Byte} (h : b.Inv)
    (hs : (machine initialSize).step b l b') :
    b'.Inv ∧ deque.step b.contents l b'.contents ∧
      b'.buffer_.length ≤ b.buffer_.length + l.1.size := by
  obtain ⟨ha, hfit, hr⟩ := hs
  obtain ⟨b₁, out, he, hi, hd, hle⟩ := Op.run.spec h l.1 ha hfit
  rw [hr] at he
  cases he
  exact ⟨hi, hd, hle⟩

/-! ## Every run -/

theorem reachable_inv {initialSize : Nat} (hinit : kCheapPrepend + initialSize < 2 ^ 63)
    {b : Buffer} (h : (machine initialSize).Reachable b) : b.Inv := by
  apply h.invariant
  · intro b hb
    rw [hb]
    exact construct_inv hinit
  · intro b l b' hi hs
    exact (step_spec hi hs).1

/-- A run of the buffer is a run of the deque, with the same strings. -/
theorem run_onDeque {initialSize : Nat} (hinit : kCheapPrepend + initialSize < 2 ^ 63)
    {b : Buffer} {calls : List (Op × List Byte)}
    (h : (machine initialSize).Run (construct initialSize) calls b) :
    deque.Run [] calls b.contents := by
  have hstart : (construct initialSize).Inv ∧ [] = (construct initialSize).contents :=
    ⟨construct_inv hinit, by simp⟩
  have hstep : ∀ b q l b', b.Inv ∧ q = b.contents → (machine initialSize).step b l b' →
      ∃ q', deque.step q l q' ∧ b'.Inv ∧ q' = b'.contents := by
    rintro b q l b' ⟨hi, rfl⟩ hs
    obtain ⟨hi', hd, _⟩ := step_spec hi hs
    exact ⟨_, hd, hi', rfl⟩
  obtain ⟨q, hrun, _, rfl⟩ := h.simulation hstep hstart
  exact hrun

/-- The room that the calls of a run ask for, in all. -/
def totalSize (calls : List (Op × List Byte)) : Nat := (calls.map (fun l => l.1.size)).sum

/-- The vector never grows past its first size and the room asked for. So
calls whose sizes sum to less than 2^63 all fit. -/
theorem a_total_below_the_bound_fits {initialSize : Nat} {b : Buffer}
    {calls : List (Op × List Byte)} (op : Op)
    (h : (machine initialSize).Run (construct initialSize) calls b)
    (htotal : kCheapPrepend + initialSize + totalSize calls + op.size < 2 ^ 63) :
    op.Fits b := by
  have key : b.Inv ∧ b.buffer_.length ≤ kCheapPrepend + initialSize + totalSize calls := by
    have hinit : kCheapPrepend + initialSize < 2 ^ 63 := by omega
    clear htotal
    induction h with
    | nil => exact ⟨construct_inv hinit, by simp [construct, totalSize]⟩
    | snoc _ hs ih =>
      obtain ⟨hi, hle⟩ := ih
      obtain ⟨hi', _, hle'⟩ := step_spec hi hs
      refine ⟨hi', ?_⟩
      simp only [totalSize, List.map_append, List.sum_append, List.map_cons, List.map_nil,
        List.sum_cons, List.sum_nil] at hle ⊢
      omega
  obtain ⟨hi, hle⟩ := key
  have hw := hi.writer_le
  unfold Op.Fits
  omega

/-! ## The laws -/

/-- Every buffer is a deque of bytes. Its indexes stay in order, each call
within its assert returns and does to the readable bytes what it does to a
deque, `ensureWritable` leaves the room that it was asked for, and where it
moves the contents, the move goes to the left and no turn of it writes over
a byte that is still to be read. -/
theorem a_buffer_is_a_byte_deque (initialSize : Nat)
    (hinit : kCheapPrepend + initialSize < 2 ^ 63) (b : Buffer) (calls : List (Op × List Byte))
    (h : (machine initialSize).Run (construct initialSize) calls b) :
    b.readerIndex_ ≤ b.writerIndex_ ∧ b.writerIndex_ ≤ b.buffer_.length ∧
    deque.Run [] calls b.contents ∧
    (∀ op : Op, op.Asserts b → op.Fits b → ∃ b' out, op.run b = .ok (b', out) ∧
      op.onDeque b.contents = (b'.contents, out)) ∧
    (∀ len, b.writerIndex_ + len < 2 ^ 63 → ∃ b', b.ensureWritable len = .ok b' ∧
      b'.contents = b.contents ∧ len ≤ b'.writableBytes) ∧
    (∀ len, b.writerIndex_ + len < 2 ^ 63 → b.Compacts len →
      kCheapPrepend < b.readerIndex_ ∧ b.makeSpace len = .ok b.compacted ∧
      ∀ k ≤ b.readableBytes, ∃ mem,
        copyWithin b.buffer_ b.readerIndex_ kCheapPrepend k = .ok mem ∧
        ∀ i, b.readerIndex_ + k ≤ i → mem[i]? = b.buffer_[i]?) := by
  have hi := reachable_inv hinit ⟨_, _, rfl, h⟩
  have h2 := hi.writer_le
  have ho := hi.ordered
  have hread := ho.readableBytes_eq
  refine ⟨hi.reader_le, h2, run_onDeque hinit h, ?_, ?_, ?_⟩
  · intro op ha hfit
    obtain ⟨b', out, he, _, hd, _⟩ := Op.run.spec hi op ha hfit
    exact ⟨b', out, he, hd⟩
  · intro len hfit
    obtain ⟨b', he⟩ := ensureWritable.returns ho hfit
    obtain ⟨_, hcon, hroom⟩ := ensureWritable.spec ho (by omega) he
    exact ⟨b', he, hcon, hroom⟩
  · intro len hfit hc
    have hgt := hc.reader_gt ho (by omega)
    refine ⟨hgt, makeSpace_compacts ho (by omega) hc, ?_⟩
    intro k hk
    have hbound : b.readerIndex_ + k ≤ b.buffer_.length := by
      have := hi.reader_le
      omega
    have he : copyWithin b.buffer_ b.readerIndex_ kCheapPrepend k =
        .ok (splice b.buffer_ kCheapPrepend
          (slice b.buffer_ b.readerIndex_ (b.readerIndex_ + k))) :=
      copyWithin_eq (Nat.le_of_lt hgt) hbound
    exact ⟨_, he, copyWithin_ahead (Nat.le_of_lt hgt) hbound he⟩

/-- Three calls on a buffer that is made for two bytes. -/
theorem a_buffer_is_a_byte_deque_of_three_calls :
    ∃ b, deque.Run [] [(.append [1, 2, 3], []), (.prepend [9], []), (.retrieveAsString 2, [9, 1])]
      b ∧ b = [2, 3] := by
  have h1 : (machine 2).Run (construct 2) ([] ++ [(.append [1, 2, 3], [])])
      ⟨List.replicate 8 0 ++ [1, 2, 3], 8, 11⟩ := Machine.Run.nil.snoc ⟨by decide, by decide, rfl⟩
  have h2 := h1.snoc (a := (.prepend [9], [])) (u := ⟨List.replicate 7 0 ++ [9, 1, 2, 3], 7, 11⟩)
    ⟨by decide, by decide, rfl⟩
  have h3 := h2.snoc (a := (.retrieveAsString 2, [9, 1]))
    (u := ⟨List.replicate 7 0 ++ [9, 1, 2, 3], 9, 11⟩)
    ⟨by decide, by decide, rfl⟩
  have h := a_buffer_is_a_byte_deque 2 (by decide) _ _ h3
  exact ⟨_, h.2.2.1, by decide⟩

end Buffer

end jmuduo.net
