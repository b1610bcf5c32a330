-- The law of the storage of a buffer: the vector is at most twice as large as
-- the most bytes that ever waited in it, however many went through.
import Jmuduo.Buffer
import Jmuduo.Runs

open outcome memory runs

namespace jmuduo.net

namespace Buffer

/-! ## The calls -/

/-- A call that adds or takes bytes. -/
inductive Traffic
  | append (data : List Byte)
  | prepend (data : List Byte)
  | retrieve (len : Nat)
  | readFd (savedErrno : Nat) (r : ReadResult)

def Traffic.run (b : Buffer) : Traffic → Outcome Buffer
  | .append data => b.append data
  | .prepend data => b.prepend data
  | .retrieve len => pure (b.retrieve len)
  | .readFd savedErrno r => do
    let (b, _, _) ← b.readFd savedErrno r
    pure b

/-- Any such calls on a new buffer, as long as each returns. -/
def traffic (initialSize : Nat) : Machine Buffer Traffic where
  init b := b = construct initialSize
  step b call b' := call.run b = .ok b'

/-- No more than `m` bytes wait for a reader. -/
def Backlog (m : Nat) (b : Buffer) : Prop := b.readableBytes ≤ m

/-! ## The growth of the vector -/

/-- The data of an append that returns fits into the vector. -/
theorem append_short {b b' : Buffer} {data : List Byte} (h : b.Ordered)
    (hok : b.append data = .ok b') : data.length < 2 ^ 63 := by
  have hbounded := h.bounded
  unfold maxSize at hbounded
  rw [append_eq, bind_eq_ok] at hok
  obtain ⟨b₁, hroom, hfill⟩ := hok
  have hsize : b₁.buffer_.length < 2 ^ 63 := by
    unfold ensureWritable makeSpace at hroom
    split at hroom
    · split at hroom
      · rw [bind_eq_ok] at hroom
        obtain ⟨mem, hcopy, hroom⟩ := hroom
        cases hroom
        rw [copyWithin_length hcopy]
        omega
      · rw [bind_eq_ok] at hroom
        obtain ⟨mem, hresize, hroom⟩ := hroom
        cases hroom
        unfold resize at hresize
        split at hresize
        · cases hresize
          rename_i hmax
          unfold maxSize at hmax
          simp only [List.length_append, List.length_take, List.length_replicate]
          omega
        · cases hresize
    · cases hroom
      omega
  rw [fill, bind_eq_ok] at hfill
  obtain ⟨mem, hcopy, _⟩ := hfill
  have hfits := copyIn_fits hcopy
  omega

/-- The vector grows only where the bytes that are free in it, without the cheap
prepend, are fewer than those asked for. So its new end is bounded by what is
readable and what is asked for. -/
theorem ensureWritable_size {b b' : Buffer} {len : Nat} (h : b.Ordered) (hlen : len < 2 ^ 63)
    (hok : b.ensureWritable len = .ok b') :
    b'.buffer_.length ≤ max b.buffer_.length (2 * (b.readableBytes + len) + 7) := by
  have h1 := h.reader_le
  have h2 := h.writer_le
  have h4 := h.bounded
  have hread := h.readableBytes_eq
  have hwritable := h.writableBytes_eq
  unfold maxSize at h4
  by_cases hc : b.Compacts len
  · unfold ensureWritable at hok
    rw [if_pos hc.1, makeSpace_compacts h hlen hc] at hok
    cases hok
    rw [compacted_length h (hc.reader_gt h hlen)]
    exact Nat.le_max_left _ _
  · rcases ensureWritable_cases h hlen with ⟨_, e⟩ | ⟨hc', _⟩ | ⟨hw, _, e⟩ | ⟨_, e⟩
    · rw [e] at hok
      cases hok
      exact Nat.le_max_left _ _
    · exact absurd hc' hc
    · rw [e] at hok
      cases hok
      have hnone : ¬ sizeAdd b.prependableBytes b.writableBytes ≥ sizeAdd len kCheapPrepend :=
        fun hge => hc ⟨hw, hge⟩
      unfold prependableBytes kCheapPrepend at hnone
      rw [sizeAdd_eq (by omega), sizeAdd_eq (by omega)] at hnone
      rw [grown_length]
      omega
    · rw [e] at hok
      cases hok

/-- An append leaves the vector as large as it was, or not more than twice as
large as what it holds. -/
theorem append_size {b b' : Buffer} {data : List Byte} (h : b.Ordered)
    (hok : b.append data = .ok b') :
    b'.Ordered ∧ b.buffer_.length ≤ b'.buffer_.length ∧
      b'.buffer_.length ≤ max b.buffer_.length (2 * b'.readableBytes + 7) := by
  have hlen := append_short h hok
  obtain ⟨ho, hcon, hge, _⟩ := append.spec h hlen hok
  refine ⟨ho, hge, ?_⟩
  have hread : b'.readableBytes = b.readableBytes + data.length := by
    rw [← ho.contents_length, hcon, List.length_append, h.contents_length]
  rw [append_eq, bind_eq_ok] at hok
  obtain ⟨b₁, hroom, hfill⟩ := hok
  obtain ⟨ho₁, _, hfits⟩ := ensureWritable.spec h hlen hroom
  obtain ⟨b₂, hfill', _, _, hsame⟩ := fill.spec ho₁ hfits
  rw [hfill] at hfill'
  cases hfill'
  rw [hsame, hread]
  exact ensureWritable_size h hlen hroom

/-- The bytes that the stack segment took are appended to a full vector. -/
theorem readFd_size {b b' : Buffer} {savedErrno errno : Nat} {r : ReadResult} {n : Int}
    (h : b.Ordered) (hok : b.readFd savedErrno r = .ok (b', n, errno)) :
    b'.Ordered ∧ b.buffer_.length ≤ b'.buffer_.length ∧
      b'.buffer_.length ≤ max b.buffer_.length (2 * b'.readableBytes + 7) := by
  cases r with
  | failed e =>
    cases hok
    exact ⟨h, Nat.le_refl _, Nat.le_max_left _ _⟩
  | delivered bytes =>
    rcases readFd_eq h savedErrno bytes with ⟨b₁, hfit, hfill, heq⟩ | ⟨b₁, _, hfill, heq⟩
    · rw [heq] at hok
      cases hok
      obtain ⟨b₂, hfill', ho, _, hsame⟩ := fill.spec h hfit
      rw [hfill] at hfill'
      cases hfill'
      exact ⟨ho, Nat.le_of_eq hsame.symm, hsame ▸ Nat.le_max_left _ _⟩
    · have htake : ((bytes.take b.room).take b.writableBytes).length ≤ b.writableBytes := by
        rw [List.length_take]
        exact Nat.min_le_left _ _
      obtain ⟨b₂, hfill', ho, _, hsame⟩ := fill.spec h htake
      rw [hfill] at hfill'
      cases hfill'
      rw [heq, bind_eq_ok] at hok
      obtain ⟨b₂, happend, hok⟩ := hok
      cases hok
      rw [← hsame]
      exact append_size ho happend

/-! ## The law -/

/-- What a call does to the size of the vector. -/
theorem Traffic.size {b b' : Buffer} {call : Traffic} (h : b.Inv) (hok : call.run b = .ok b') :
    b'.Inv ∧ b'.buffer_.length ≤ max b.buffer_.length (2 * b'.readableBytes + 7) := by
  cases call with
  | append data =>
    obtain ⟨ho, hge, hle⟩ := append_size h.ordered hok
    exact ⟨h.of_ordered ho hge, hle⟩
  | prepend data =>
    have hlen : data.length < b.prependableBytes := by
      simp only [Traffic.run, Buffer.prepend, bind_eq_ok, check_eq_ok] at hok
      exact hok.choose_spec.1
    obtain ⟨b₁, hok', ho, _, hsame⟩ := prepend.spec h.ordered hlen
    have heq : b.prepend data = .ok b' := hok
    rw [heq] at hok'
    cases hok'
    exact ⟨h.of_ordered ho (Nat.le_of_eq hsame.symm), hsame ▸ Nat.le_max_left _ _⟩
  | retrieve len =>
    cases hok
    refine ⟨(retrieve.spec h len).1, ?_⟩
    rw [retrieve_buffer]
    exact Nat.le_max_left _ _
  | readFd savedErrno r =>
    simp only [Traffic.run, bind_eq_ok] at hok
    obtain ⟨⟨b₁, n, errno⟩, hread, hok⟩ := hok
    cases hok
    obtain ⟨ho, hge, hle⟩ := readFd_size h.ordered hread
    exact ⟨h.of_ordered ho hge, hle⟩

/-- However many bytes go through a buffer, its vector is no larger than it was
made, or than twice the most bytes that waited in it and 7. -/
theorem the_storage_is_bounded_by_the_backlog (initialSize : Nat)
    (hinit : kCheapPrepend + initialSize < 2 ^ 63) (m : Nat) (b : Buffer)
    (h : ((traffic initialSize).restrict fun _ _ b' => b'.Backlog m).Reachable b) :
    b.buffer_.length ≤ max (kCheapPrepend + initialSize) (2 * m + 7) := by
  have hall : b.Inv ∧ b.buffer_.length ≤ max (kCheapPrepend + initialSize) (2 * m + 7) := by
    refine h.invariant (P := fun b => b.Inv ∧
      b.buffer_.length ≤ max (kCheapPrepend + initialSize) (2 * m + 7)) ?_ ?_
    · rintro b rfl
      refine ⟨construct_inv hinit, ?_⟩
      simp only [construct, List.length_replicate]
      exact Nat.le_max_left _ _
    · rintro b call b' ⟨hi, hle⟩ ⟨hok, hbacklog⟩
      obtain ⟨hi', hle'⟩ := Traffic.size hi hok
      unfold Backlog at hbacklog
      exact ⟨hi', by omega⟩
  exact hall.2

/-- Four bytes went through a buffer that was made for none, and three of them
waited at most. -/
theorem the_storage_is_bounded_by_three_bytes :
    ∃ b, ((traffic 0).restrict fun _ _ b' => b'.Backlog 3).Reachable b ∧ b.contents = [3, 4] ∧
      b.buffer_.length ≤ 13 := by
  have h0 : ((traffic 0).restrict fun _ _ b' => b'.Backlog 3).Reachable (construct 0) := .start rfl
  have h1 := h0.next (a := .append [1, 2, 3]) (t := ⟨List.replicate 8 0 ++ [1, 2, 3], 8, 11⟩)
    ⟨by rfl, by unfold Backlog; decide⟩
  have h2 := h1.next (a := .retrieve 2) (t := ⟨List.replicate 8 0 ++ [1, 2, 3], 10, 11⟩)
    ⟨by rfl, by unfold Backlog; decide⟩
  have h3 := h2.next (a := .readFd 0 (.delivered [4]))
    (t := ⟨List.replicate 8 0 ++ [3, 4, 3], 8, 10⟩) ⟨by rfl, by unfold Backlog; decide⟩
  exact ⟨_, h3, by decide, the_storage_is_bounded_by_the_backlog 0 (by decide) 3 _ h3⟩

end Buffer

end jmuduo.net
