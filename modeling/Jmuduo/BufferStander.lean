-- The reference buffer (BufferStander.h), which no one includes. It has the
-- members of Buffer.h, other asserts, and its own test for a larger vector.
-- Whatever its callers do within them, the buffer in use does the same.
import Jmuduo.BufferDeque
import Jmuduo.BufferIntegers

open outcome memory runs endian

namespace jmuduo.net

/-! ## The reference of the source -/

namespace BufferStander

/-- The constructor, whose `initialSize` is a `size_t`. -/
def construct (initialSize : Nat) : Outcome Buffer := do
  let b : Buffer :=
    ⟨List.replicate (sizeAdd kCheapPrepend initialSize) 0, kCheapPrepend, kCheapPrepend⟩
  check "readableBytes() == 0" (b.readableBytes = 0)
  check "writableBytes() == initialSize" (b.writableBytes = initialSize)
  check "prependableBytes() == kCheapPrepend" (b.prependableBytes = kCheapPrepend)
  pure b

def retrieveAll (b : Buffer) : Buffer :=
  { b with readerIndex_ := kCheapPrepend, writerIndex_ := kCheapPrepend }

def retrieve (b : Buffer) (len : Nat) : Outcome Buffer := do
  check "len <= readableBytes()" (len ≤ b.readableBytes)
  pure (if len < b.readableBytes then { b with readerIndex_ := sizeAdd b.readerIndex_ len }
    else retrieveAll b)

/-- The pointer `last` is given by its distance from `begin()`. -/
def retrieveUntil (b : Buffer) (last : Nat) : Outcome Buffer := do
  check "peek() <= end" (b.readerIndex_ ≤ last)
  check "end <= beginWrite()" (last ≤ b.writerIndex_)
  retrieve b (last - b.readerIndex_)

def retrieveAsString (b : Buffer) (len : Nat) : Outcome (Buffer × List Byte) := do
  check "len <= readableBytes()" (len ≤ b.readableBytes)
  let result := slice b.buffer_ b.readerIndex_ (b.readerIndex_ + len)
  let b ← retrieve b len
  pure (b, result)

def retrieveAllAsString (b : Buffer) : Outcome (Buffer × List Byte) :=
  retrieveAsString b b.readableBytes

def makeSpace (b : Buffer) (len : Nat) : Outcome Buffer :=
  if sizeAdd b.writableBytes b.prependableBytes < sizeAdd len kCheapPrepend then do
    let mem ← resize b.buffer_ (sizeAdd b.writerIndex_ len)
    pure { b with buffer_ := mem }
  else do
    check "kCheapPrepend < readerIndex_" (kCheapPrepend < b.readerIndex_)
    let readable := b.readableBytes
    let mem ← copyWithin b.buffer_ b.readerIndex_ kCheapPrepend readable
    let b : Buffer := ⟨mem, kCheapPrepend, sizeAdd kCheapPrepend readable⟩
    check "readable == readableBytes()" (readable = b.readableBytes)
    pure b

def ensureWritableBytes (b : Buffer) (len : Nat) : Outcome Buffer := do
  let b ← if b.writableBytes < len then makeSpace b len else pure b
  check "writableBytes() >= len" (b.writableBytes ≥ len)
  pure b

def hasWritten (b : Buffer) (len : Nat) : Outcome Buffer := do
  check "len <= writableBytes()" (len ≤ b.writableBytes)
  pure { b with writerIndex_ := sizeAdd b.writerIndex_ len }

def append (b : Buffer) (data : List Byte) : Outcome Buffer := do
  let b ← ensureWritableBytes b data.length
  let mem ← copyIn b.buffer_ b.writerIndex_ data
  hasWritten { b with buffer_ := mem } data.length

/-- A caller fills the space from `beginWrite()` on, and then calls
`hasWritten` with the size of what it wrote. -/
def fill (b : Buffer) (data : List Byte) : Outcome Buffer := do
  let mem ← copyIn b.buffer_ b.writerIndex_ data
  hasWritten { b with buffer_ := mem } data.length

def prepend (b : Buffer) (data : List Byte) : Outcome Buffer := do
  check "len <= prependableBytes()" (data.length ≤ b.prependableBytes)
  let readerIndex := sizeSub b.readerIndex_ data.length
  let mem ← copyIn b.buffer_ readerIndex data
  pure { b with buffer_ := mem, readerIndex_ := readerIndex }

/-! ### The integers -/

/-- `append(&be, n)`, for an integer of `n` bytes. -/
def appendInt (n : Nat) (be : BitVec (8 * n)) (b : Buffer) : Outcome Buffer :=
  append b (toMemory n be)

def appendInt64 (x : BitVec 64) (b : Buffer) : Outcome Buffer :=
  appendInt 8 (socket.hostToNetwork64 x) b

def appendInt32 (x : BitVec 32) (b : Buffer) : Outcome Buffer :=
  appendInt 4 (socket.hostToNetwork32 x) b

def appendInt16 (x : BitVec 16) (b : Buffer) : Outcome Buffer :=
  appendInt 2 (socket.hostToNetwork16 x) b

def appendInt8 (x : BitVec 8) (b : Buffer) : Outcome Buffer := appendInt 1 x b

/-- The assert of a peek, and the copy of `n` bytes from `peek()`. -/
def peekInt (n : Nat) (expr : String) (b : Buffer) : Outcome (BitVec (8 * n)) := do
  check expr (b.readableBytes ≥ n)
  pure (ofMemory n (slice b.buffer_ b.readerIndex_ (b.readerIndex_ + n)))

def peekInt64 (b : Buffer) : Outcome (BitVec 64) := do
  let be64 ← peekInt 8 "readableBytes() >= sizeof(int64_t)" b
  pure (socket.networkToHost64 be64)

def peekInt32 (b : Buffer) : Outcome (BitVec 32) := do
  let be32 ← peekInt 4 "readableBytes() >= sizeof(int32_t)" b
  pure (socket.networkToHost32 be32)

def peekInt16 (b : Buffer) : Outcome (BitVec 16) := do
  let be16 ← peekInt 2 "readableBytes() >= sizeof(int16_t)" b
  pure (socket.networkToHost16 be16)

def peekInt8 (b : Buffer) : Outcome (BitVec 8) := do
  check "readableBytes() >= sizeof(int8_t)" (b.readableBytes ≥ 1)
  load b.buffer_ b.readerIndex_

def readInt64 (b : Buffer) : Outcome (Buffer × BitVec 64) := do
  let result ← peekInt64 b
  let b ← retrieve b 8
  pure (b, result)

def readInt32 (b : Buffer) : Outcome (Buffer × BitVec 32) := do
  let result ← peekInt32 b
  let b ← retrieve b 4
  pure (b, result)

def readInt16 (b : Buffer) : Outcome (Buffer × BitVec 16) := do
  let result ← peekInt16 b
  let b ← retrieve b 2
  pure (b, result)

/-- The result stays an `int8_t`. -/
def readInt8 (b : Buffer) : Outcome (Buffer × BitVec 8) := do
  let result ← peekInt8 b
  let b ← retrieve b 1
  pure (b, result)

open Buffer (Width IntN)

def appendIntN : (w : Width) → IntN w → Buffer → Outcome Buffer
  | .int8, x, b => appendInt8 x b
  | .int16, x, b => appendInt16 x b
  | .int32, x, b => appendInt32 x b
  | .int64, x, b => appendInt64 x b

def peekIntN : (w : Width) → Buffer → Outcome (IntN w)
  | .int8, b => peekInt8 b
  | .int16, b => peekInt16 b
  | .int32, b => peekInt32 b
  | .int64, b => peekInt64 b

def readIntN : (w : Width) → Buffer → Outcome (Buffer × IntN w)
  | .int8, b => readInt8 b
  | .int16, b => readInt16 b
  | .int32, b => readInt32 b
  | .int64, b => readInt64 b

/-! ## The calls of both buffers -/

/-- A call that both buffers have. -/
inductive Call
  | common (op : Buffer.Op)
  | hasWritten (len : Nat)
  | appendInt (u : Buffer.Unread)
  | peekInt (w : Width)
  | readInt (w : Width)

/-- What a call returns. -/
inductive Value
  | string (bytes : List Byte)
  | int (w : Width) (x : IntN w)
  deriving DecidableEq

/-- The call on the buffer in use. A call that returns nothing returns the
empty string here. -/
def Call.run (b : Buffer) : Call → Outcome (Buffer × Value)
  | .common op => do
    let (b, bytes) ← op.run b
    pure (b, .string bytes)
  | .hasWritten len => do pure (← b.hasWritten len, .string [])
  | .appendInt u => do pure (← b.appendIntN u.1 u.2, .string [])
  | .peekInt w => do
    let x ← b.peekIntN w
    pure (b, .int w x)
  | .readInt w => do
    let (b, x) ← b.readIntN w
    pure (b, .int w x)

/-- The call on the reference. -/
def Call.runStander (b : Buffer) : Call → Outcome (Buffer × Value)
  | .common (.append data) => do pure (← append b data, .string [])
  | .common (.ensureWritable len) => do pure (← ensureWritableBytes b len, .string [])
  | .common (.fill data) => do pure (← fill b data, .string [])
  | .common (.retrieve len) => do pure (← retrieve b len, .string [])
  | .common (.retrieveUntil n) => do pure (← retrieveUntil b (b.readerIndex_ + n), .string [])
  | .common .retrieveAll => pure (retrieveAll b, .string [])
  | .common (.retrieveAsString len) => do
    let (b, bytes) ← retrieveAsString b len
    pure (b, .string bytes)
  | .common .retrieveAllAsString => do
    let (b, bytes) ← retrieveAllAsString b
    pure (b, .string bytes)
  | .common (.prepend data) => do pure (← prepend b data, .string [])
  | .hasWritten len => do pure (← BufferStander.hasWritten b len, .string [])
  | .appendInt u => do pure (← appendIntN u.1 u.2 b, .string [])
  | .peekInt w => do
    let x ← peekIntN w b
    pure (b, .int w x)
  | .readInt w => do
    let (b, x) ← readIntN w b
    pure (b, .int w x)

/-- The call takes no more bytes than there are, and writes no more than fit. A
prepend is within the assert of the buffer in use. -/
def Call.Allowed (b : Buffer) : Call → Prop
  | .common (.retrieve len) => len ≤ b.readableBytes
  | .common op => op.Asserts b
  | .hasWritten len => len ≤ b.writableBytes
  | .appendInt _ => True
  | .peekInt w | .readInt w => w.bytes ≤ b.readableBytes

/-- The bytes that the call asks room for. -/
def Call.size : Call → Nat
  | .common op => op.size
  | .appendInt u => u.1.bytes
  | .hasWritten _ | .peekInt _ | .readInt _ => 0

/-- The new end of the contents stays a size of a vector. -/
def Call.Fits (b : Buffer) (call : Call) : Prop := b.writerIndex_ + call.size < 2 ^ 63

/-- A new buffer in use. A label is a call with the value that it returned. -/
def inUse (initialSize : Nat) : Machine Buffer (Call × Value) where
  init b := b = .construct initialSize
  step b l b' := l.1.run b = .ok (b', l.2)

/-- A new reference buffer. -/
def stander (initialSize : Nat) : Machine Buffer (Call × Value) where
  init b := construct initialSize = .ok b
  step b l b' := l.1.runStander b = .ok (b', l.2)

/-! ## The functions agree -/

theorem construct_eq {initialSize : Nat} (hinit : kCheapPrepend + initialSize < 2 ^ 63) :
    construct initialSize = .ok (.construct initialSize) := by
  have hi := (Buffer.construct_inv hinit).ordered
  have hread := hi.readableBytes_eq
  have hwritable := hi.writableBytes_eq
  unfold construct
  rw [sizeAdd_eq (by omega)]
  show (do
    check "readableBytes() == 0" ((Buffer.construct initialSize).readableBytes = 0)
    check "writableBytes() == initialSize"
      ((Buffer.construct initialSize).writableBytes = initialSize)
    check "prependableBytes() == kCheapPrepend"
      ((Buffer.construct initialSize).prependableBytes = kCheapPrepend)
    pure (Buffer.construct initialSize)) = _
  have hempty : (Buffer.construct initialSize).readableBytes = 0 := by
    rw [hread]
    exact Nat.sub_self _
  have hfree : (Buffer.construct initialSize).writableBytes = initialSize := by
    rw [hwritable]
    simp [Buffer.construct]
  have hcheap : (Buffer.construct initialSize).prependableBytes = kCheapPrepend := rfl
  rw [check_of hempty, check_of hfree, check_of hcheap]
  rfl

/-- The assert of the reference is the only difference. -/
theorem retrieve_eq {b : Buffer} {len : Nat} (h : len ≤ b.readableBytes) :
    retrieve b len = .ok (b.retrieve len) := by
  unfold retrieve
  rw [check_of h]
  rfl

/-- The two tests for a larger vector are opposites, and the asserts hold where
the contents are moved. -/
theorem makeSpace_eq {b : Buffer} (h : b.Ordered) {len : Nat} (hlen : len < 2 ^ 63)
    (hw : b.writableBytes < len) : makeSpace b len = b.makeSpace len := by
  have hcomm : sizeAdd b.writableBytes b.prependableBytes =
      sizeAdd b.prependableBytes b.writableBytes := by
    unfold sizeAdd
    rw [Nat.add_comm]
  unfold makeSpace
  rw [hcomm]
  by_cases hc : sizeAdd b.prependableBytes b.writableBytes ≥ sizeAdd len kCheapPrepend
  · have hgt := Buffer.Compacts.reader_gt h hlen ⟨hw, hc⟩
    have hmoved := Buffer.makeSpace_compacts h hlen ⟨hw, hc⟩
    obtain ⟨ho, hcon⟩ := Buffer.compacted_spec h hgt
    have hreadable : b.readableBytes = b.compacted.readableBytes := by
      rw [← ho.contents_length, hcon, h.contents_length]
    rw [hmoved, if_neg (by omega), check_of hgt, ok_bind]
    unfold Buffer.makeSpace at hmoved
    rw [if_pos hc, bind_eq_ok] at hmoved
    obtain ⟨mem, hcopy, hmoved⟩ := hmoved
    simp only [pure_eq_ok, Except.ok.injEq] at hmoved
    simp only [hcopy, ok_bind, hmoved, check_of hreadable, pure_eq_ok]
  · unfold Buffer.makeSpace
    rw [if_pos (by omega), if_neg hc]

theorem ensureWritableBytes_eq {b : Buffer} (h : b.Ordered) {len : Nat} (hlen : len < 2 ^ 63) :
    ensureWritableBytes b len = b.ensureWritable len := by
  have hspace : ensureWritableBytes b len = b.ensureWritable len >>= fun b =>
      check "writableBytes() >= len" (b.writableBytes ≥ len) >>= fun _ => pure b := by
    unfold ensureWritableBytes Buffer.ensureWritable
    split
    · rename_i hw
      rw [makeSpace_eq h hlen hw]
    · rfl
  rw [hspace]
  cases hok : b.ensureWritable len with
  | error e => rfl
  | ok b' =>
    obtain ⟨_, _, hroom⟩ := Buffer.ensureWritable.spec h hlen hok
    rw [ok_bind, check_of hroom]
    rfl

theorem hasWritten_eq {b : Buffer} {len : Nat} (h : len ≤ b.writableBytes) :
    hasWritten b len = b.hasWritten len := by
  unfold hasWritten Buffer.hasWritten
  rw [check_of h, check_of h]

theorem fill_eq {b : Buffer} (h : b.Ordered) {data : List Byte}
    (hfit : data.length ≤ b.writableBytes) : fill b data = b.fill data := by
  obtain ⟨mem, hcopy, hsize, _⟩ := Buffer.fill_eq h hfit
  unfold fill Buffer.fill
  rw [hcopy, ok_bind, ok_bind, hasWritten_eq]
  unfold Buffer.writableBytes at hfit ⊢
  rwa [hsize]

theorem append_eq {b : Buffer} (h : b.Ordered) {data : List Byte} (hlen : data.length < 2 ^ 63) :
    append b data = b.append data := by
  have hsplit : append b data = ensureWritableBytes b data.length >>= fun b => fill b data := rfl
  rw [hsplit, Buffer.append_eq, ensureWritableBytes_eq h hlen]
  cases hok : b.ensureWritable data.length with
  | error e => rfl
  | ok b' =>
    obtain ⟨ho, _, hroom⟩ := Buffer.ensureWritable.spec h hlen hok
    exact fill_eq ho hroom

/-- A prepend that takes all the free bytes fails only the assert of the buffer
in use. -/
theorem prepend_eq {b : Buffer} {data : List Byte} (h : data.length < b.prependableBytes) :
    prepend b data = b.prepend data := by
  unfold prepend Buffer.prepend
  rw [check_of h, check_of (Nat.le_of_lt h)]

theorem appendIntN_eq {b : Buffer} (h : b.Ordered) (w : Width) (x : IntN w) :
    appendIntN w x b = b.appendIntN w x := by
  have hlen : ∀ (n : Nat) (be : BitVec (8 * n)), n < 2 ^ 63 →
      append b (toMemory n be) = b.append (toMemory n be) := by
    intro n be hn
    exact append_eq h (by rwa [toMemory_length])
  cases w with
  | int8 => exact hlen 1 x (by decide)
  | int16 => exact hlen 2 (socket.hostToNetwork16 x) (by decide)
  | int32 => exact hlen 4 (socket.hostToNetwork32 x) (by decide)
  | int64 => exact hlen 8 (socket.hostToNetwork64 x) (by decide)

theorem peekIntN_eq (w : Width) (b : Buffer) : peekIntN w b = b.peekIntN w := by
  cases w <;> rfl

theorem readIntN_eq {b : Buffer} {w : Width} (h : w.bytes ≤ b.readableBytes) :
    readIntN w b = b.readIntN w := by
  have hread : readIntN w b = peekIntN w b >>= fun x => retrieve b w.bytes >>= fun b =>
      pure (b, x) := by
    cases w <;> rfl
  rw [hread, Buffer.readIntN_eq, peekIntN_eq, retrieve_eq h]
  rfl

/-- A peek returns where its bytes are there. -/
theorem peekIntN_returns {b : Buffer} (h : b.Ordered) {w : Width}
    (hw : w.bytes ≤ b.readableBytes) : ∃ x, b.peekIntN w = .ok x := by
  have hcopied : ∀ (n : Nat) (expr : String), n ≤ b.readableBytes →
      ∃ x, b.peekInt n expr = .ok x := by
    intro n expr hn
    unfold Buffer.peekInt
    rw [check_of hn]
    exact ⟨_, rfl⟩
  cases w with
  | int8 =>
    have hread := h.readableBytes_eq
    have h2 := h.writer_le
    have hone : 1 ≤ b.readableBytes := hw
    show ∃ x, b.peekInt8 = .ok x
    unfold Buffer.peekInt8
    rw [check_of hone, ok_bind, load_of_lt (by omega)]
    exact ⟨_, rfl⟩
  | int16 =>
    obtain ⟨x, hx⟩ := hcopied 2 "readableBytes() >= sizeof(int16_t)" hw
    show ∃ x, b.peekInt16 = .ok x
    rw [Buffer.peekInt16, hx]
    exact ⟨_, rfl⟩
  | int32 =>
    obtain ⟨x, hx⟩ := hcopied 4 "readableBytes() >= sizeof(int32_t)" hw
    show ∃ x, b.peekInt32 = .ok x
    rw [Buffer.peekInt32, hx]
    exact ⟨_, rfl⟩
  | int64 =>
    obtain ⟨x, hx⟩ := hcopied 8 "readableBytes() >= sizeof(int64_t)" hw
    show ∃ x, b.peekInt64 = .ok x
    rw [Buffer.peekInt64, hx]
    exact ⟨_, rfl⟩

/-! ## The calls agree -/

/-- A call within its conditions returns. -/
theorem Call.run.spec {b : Buffer} (h : b.Inv) {call : Call} (ha : call.Allowed b)
    (hfit : call.Fits b) : ∃ b' v, call.run b = .ok (b', v) ∧ b'.Inv := by
  cases call with
  | common op =>
    have hasserts : op.Asserts b := by
      cases op <;> first | exact ha | trivial
    obtain ⟨b', out, hok, hi, _⟩ := Buffer.Op.run.spec h op hasserts hfit
    exact ⟨b', .string out, by rw [Call.run, hok]; rfl, hi⟩
  | hasWritten len =>
    have hlen : len ≤ b.writableBytes := ha
    have hw := h.ordered.writableBytes_eq
    have h1 := h.reader_le
    have h2 := h.writer_le
    refine ⟨{ b with writerIndex_ := b.writerIndex_ + len }, .string [], ?_, ?_, ?_, h.cheap,
      h.bounded⟩
    · rw [Call.run, Buffer.hasWritten.spec h.ordered hlen]
      rfl
    · simp only
      omega
    · simp only
      omega
  | appendInt u =>
    have hlen := Buffer.encode_length u.1 u.2
    have hsize : b.writerIndex_ + (Buffer.encode u.1 u.2).length < 2 ^ 63 := by
      rw [hlen]
      exact hfit
    obtain ⟨b', hok⟩ := Buffer.append.returns h.ordered hsize
    obtain ⟨ho, _, hge, _⟩ := Buffer.append.spec h.ordered (Buffer.encode_short u.1 u.2) hok
    refine ⟨b', .string [], ?_, h.of_ordered ho hge⟩
    rw [Call.run, Buffer.appendIntN_eq, hok]
    rfl
  | peekInt w =>
    obtain ⟨x, hx⟩ := peekIntN_returns h.ordered ha
    exact ⟨b, .int w x, by rw [Call.run, hx]; rfl, h⟩
  | readInt w =>
    obtain ⟨x, hx⟩ := peekIntN_returns h.ordered ha
    refine ⟨b.retrieve w.bytes, .int w x, ?_, (Buffer.retrieve.spec h w.bytes).1⟩
    rw [Call.run, Buffer.readIntN_eq, hx]
    rfl

/-- A call within its conditions does the same on both buffers. -/
theorem Call.runStander_eq {b : Buffer} (h : b.Inv) {call : Call} (ha : call.Allowed b)
    (hfit : call.Fits b) : call.runStander b = call.run b := by
  have ho := h.ordered
  have hread := ho.readableBytes_eq
  cases call with
  | common op =>
    cases op with
    | append data =>
      have hlen : data.length < 2 ^ 63 := by
        simp only [Call.Fits, Call.size, Buffer.Op.size] at hfit
        omega
      rw [Call.runStander, append_eq ho hlen, Call.run, Buffer.Op.run, bind_assoc]
      rfl
    | ensureWritable len =>
      have hlen : len < 2 ^ 63 := by
        simp only [Call.Fits, Call.size, Buffer.Op.size] at hfit
        omega
      rw [Call.runStander, ensureWritableBytes_eq ho hlen, Call.run, Buffer.Op.run, bind_assoc]
      rfl
    | fill data =>
      rw [Call.runStander, fill_eq ho ha, Call.run, Buffer.Op.run, bind_assoc]
      rfl
    | retrieve len =>
      rw [Call.runStander, retrieve_eq ha]
      rfl
    | retrieveUntil n =>
      have hn : n ≤ b.readableBytes := ha
      have h1 := h.reader_le
      have hfirst : b.readerIndex_ ≤ b.readerIndex_ + n := Nat.le_add_right _ _
      have hlast : b.readerIndex_ + n ≤ b.writerIndex_ := by omega
      rw [Call.runStander, Call.run, Buffer.Op.run, Buffer.retrieveUntil.spec hfirst hlast]
      unfold retrieveUntil
      rw [check_of hfirst, check_of hlast, ok_bind, ok_bind, Nat.add_sub_cancel_left,
        retrieve_eq hn]
      rfl
    | retrieveAll => rfl
    | retrieveAsString len =>
      have hn : len ≤ b.readableBytes := ha
      rw [Call.runStander, Call.run, Buffer.Op.run]
      unfold retrieveAsString Buffer.retrieveAsString
      rw [check_of hn, ok_bind, ok_bind, retrieve_eq hn]
      rfl
    | retrieveAllAsString =>
      rw [Call.runStander, Call.run, Buffer.Op.run]
      unfold retrieveAllAsString Buffer.retrieveAllAsString retrieveAsString Buffer.retrieveAsString
      rw [check_of (Nat.le_refl _), ok_bind, ok_bind, retrieve_eq (Nat.le_refl _)]
      rfl
    | prepend data =>
      rw [Call.runStander, prepend_eq ha, Call.run, Buffer.Op.run, bind_assoc]
      rfl
  | hasWritten len =>
    rw [Call.runStander, hasWritten_eq ha]
    rfl
  | appendInt u =>
    rw [Call.runStander, appendIntN_eq ho]
    rfl
  | peekInt w =>
    rw [Call.runStander, peekIntN_eq]
    rfl
  | readInt w =>
    rw [Call.runStander, readIntN_eq ha]
    rfl

/-! ## The law -/

/-- In every run of the buffer in use within the conditions, the reference
returns the same values and reaches the same state. So no assert of the
reference fails, neither in the run nor in any further call within the
conditions. A peek does the same on both, even where its bytes are not there. -/
theorem the_buffer_in_use_agrees_with_the_reference (initialSize : Nat)
    (hinit : kCheapPrepend + initialSize < 2 ^ 63) (b : Buffer) (calls : List (Call × Value))
    (h : ((inUse initialSize).restrict fun b l _ => l.1.Allowed b ∧ l.1.Fits b).Run
      (.construct initialSize) calls b) :
    construct initialSize = .ok (.construct initialSize) ∧
    (stander initialSize).Run (.construct initialSize) calls b ∧
    (∀ call : Call, call.Allowed b → call.Fits b →
      ∃ b' v, call.run b = .ok (b', v) ∧ call.runStander b = .ok (b', v)) ∧
    ∀ w, peekIntN w b = b.peekIntN w := by
  have hall : (stander initialSize).Run (.construct initialSize) calls b ∧ b.Inv := by
    induction h with
    | nil => exact ⟨.nil, Buffer.construct_inv hinit⟩
    | snoc _ hst ih =>
      obtain ⟨hrun, hi⟩ := ih
      obtain ⟨hok, ha, hfit⟩ := hst
      obtain ⟨b', v, hok', hi'⟩ := Call.run.spec hi ha hfit
      have heq := hok.symm.trans hok'
      cases heq
      exact ⟨hrun.snoc ((Call.runStander_eq hi ha hfit).trans hok), hi'⟩
  obtain ⟨hrun, hi⟩ := hall
  refine ⟨construct_eq hinit, hrun, fun call ha hfit => ?_, fun w => peekIntN_eq w b⟩
  obtain ⟨b', v, hok, _⟩ := Call.run.spec hi ha hfit
  exact ⟨b', v, hok, (Call.runStander_eq hi ha hfit).trans hok⟩

/-- An integer goes through both buffers. -/
theorem the_buffer_in_use_agrees_on_minus_two :
    ∃ b, (stander 2).Run (.construct 2)
      [(.appendInt ⟨.int16, (-2 : BitVec 16)⟩, .string []),
        (.readInt .int16, .int .int16 (-2 : BitVec 16))] b ∧ b.readerIndex_ = 8 := by
  have happend : (Call.appendInt ⟨.int16, (-2 : BitVec 16)⟩).run (.construct 2) =
      .ok (⟨List.replicate 8 0 ++ [0xff, 0xfe], 8, 10⟩, .string []) := by decide
  have hread : (Call.readInt .int16).run ⟨List.replicate 8 0 ++ [0xff, 0xfe], 8, 10⟩ =
      .ok (⟨List.replicate 8 0 ++ [0xff, 0xfe], 8, 8⟩, .int .int16 (-2 : BitVec 16)) := by decide
  have h0 : ((inUse 2).restrict fun b l _ => l.1.Allowed b ∧ l.1.Fits b).Run
      (.construct 2) [] (.construct 2) := .nil
  have h1 := h0.snoc (u := (⟨List.replicate 8 0 ++ [0xff, 0xfe], 8, 10⟩ : Buffer))
    (a := (Call.appendInt ⟨.int16, (-2 : BitVec 16)⟩, Value.string []))
    ⟨happend, trivial, by unfold Call.Fits; decide⟩
  have h2 := h1.snoc (u := (⟨List.replicate 8 0 ++ [0xff, 0xfe], 8, 8⟩ : Buffer))
    (a := (Call.readInt .int16, Value.int .int16 (-2 : BitVec 16)))
    ⟨hread, by unfold Call.Allowed; decide, by unfold Call.Fits; decide⟩
  obtain ⟨_, hrun, _⟩ := the_buffer_in_use_agrees_with_the_reference 2 (by decide) _ _ h2
  exact ⟨_, hrun, rfl⟩

end BufferStander

end jmuduo.net
