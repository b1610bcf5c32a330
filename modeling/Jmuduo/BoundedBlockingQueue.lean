-- The bounded queue between threads (BoundedBlockingQueue.h): a monitor whose
-- producers wait for a free slot and whose consumers wait for a value.
import Jmuduo.Monitor

open outcome runs monitors

namespace jmuduo

/-! ## The circular buffer -/

/-- `boost::circular_buffer`. -/
structure CircularBuffer (α : Type) where
  capacity : Nat
  elems : List α
  deriving DecidableEq, Repr

namespace CircularBuffer

variable {α : Type}

def full (b : CircularBuffer α) : Bool := b.elems.length == b.capacity

def empty (b : CircularBuffer α) : Bool := b.elems.isEmpty

/-- The append at the back. Where the buffer is full the oldest value makes
room, and a buffer without capacity stays empty. -/
def put_back (x : α) (b : CircularBuffer α) : CircularBuffer α :=
  if b.full then { b with elems := (b.elems ++ [x]).tail }
  else { b with elems := b.elems ++ [x] }

def front (b : CircularBuffer α) : Outcome α := demand .outOfRange b.elems.head?

def pop_front (b : CircularBuffer α) : Outcome (CircularBuffer α) :=
  match b.elems with
  | [] => .error .outOfRange
  | _ :: xs => pure { b with elems := xs }

end CircularBuffer

/-! ## The queue of the source -/

/-- The data under `mutex_`. `puts` and `takes` record the values so far. -/
structure BoundedBlockingQueue (α : Type) where
  deque_ : CircularBuffer α
  puts : List α
  takes : List α
  deriving DecidableEq, Repr

namespace BoundedBlockingQueue

variable {α : Type}

/-- The constructor. -/
def construct (size : Nat) : BoundedBlockingQueue α where
  deque_ := ⟨size, []⟩
  puts := []
  takes := []

inductive Condition
  | notFull_
  | notEmpty_
  deriving DecidableEq, Repr

inductive Call (α : Type)
  | put (x : α)
  | take
  | empty
  | full
  | size
  | capacity
  deriving DecidableEq, Repr

/-- What a call returns. -/
inductive Value (α : Type)
  | none
  | item (x : α)
  | flag (b : Bool)
  | number (n : Nat)
  deriving DecidableEq, Repr

/-- `put`, after its loop. -/
def put (x : α) (q : BoundedBlockingQueue α) : BoundedBlockingQueue α :=
  { q with deque_ := q.deque_.put_back x, puts := q.puts ++ [x] }

/-- `take`, after its loop. -/
def take (q : BoundedBlockingQueue α) : Outcome (BoundedBlockingQueue α × α) := do
  let res ← q.deque_.front
  let deque ← q.deque_.pop_front
  pure ({ q with deque_ := deque, takes := q.takes ++ [res] }, res)

def code : Code (Call α) Condition (BoundedBlockingQueue α) (Value α) where
  waitsFor
    | .put _, q => if q.deque_.full then some .notFull_ else none
    | .take, q => if q.deque_.empty then some .notEmpty_ else none
    | .empty, _ | .full, _ | .size, _ | .capacity, _ => none
  body
    | .put x, q => pure (q.put x, .none)
    | .take, q => do
      let (q, res) ← q.take
      pure (q, .item res)
    | .empty, q => pure (q, .flag q.deque_.empty)
    | .full, q => pure (q, .flag q.deque_.full)
    | .size, q => pure (q, .number q.deque_.elems.length)
    | .capacity, q => pure (q, .number q.deque_.capacity)
  notice
    | .put _, _ => .one .notEmpty_
    | .take, _ => .one .notFull_
    | .empty, _ | .full, _ | .size, _ | .capacity, _ => .none

/-! ## The law -/

/-- The values that were taken and those in the buffer are the values that
were put, and they fit in the buffer. -/
structure Fifo (bound : Nat) (q : BoundedBlockingQueue α) : Prop where
  order : q.takes ++ q.deque_.elems = q.puts
  fixed : q.deque_.capacity = bound
  size : q.deque_.elems.length ≤ bound

theorem put_fifo {bound : Nat} {q : BoundedBlockingQueue α} (h : q.Fifo bound)
    (hfull : q.deque_.full = false) (x : α) : (q.put x).Fifo bound := by
  have hlen : q.deque_.elems.length ≠ bound := by
    rw [← h.fixed]
    simpa [CircularBuffer.full] using hfull
  have hput : q.put x = { q with
      deque_ := { q.deque_ with elems := q.deque_.elems ++ [x] }, puts := q.puts ++ [x] } := by
    simp [put, CircularBuffer.put_back, hfull]
  have hsize := h.size
  rw [hput]
  refine ⟨?_, h.fixed, ?_⟩
  · rw [← h.order, List.append_assoc]
  · simp only [List.length_append, List.length_singleton]
    omega

/-- A `take` of a queue that is not empty takes the oldest value. -/
theorem take.spec {q : BoundedBlockingQueue α} (hempty : q.deque_.empty = false) :
    ∃ x xs, q.deque_.elems = x :: xs ∧ q.take = .ok ({ q with
      deque_ := { q.deque_ with elems := xs }, takes := q.takes ++ [x] }, x) := by
  cases hq : q.deque_.elems with
  | nil => simp [CircularBuffer.empty, hq] at hempty
  | cons x xs =>
    refine ⟨x, xs, rfl, ?_⟩
    simp [take, CircularBuffer.front, CircularBuffer.pop_front, hq]

theorem body_fifo {bound : Nat} {k : Call α} {q q' : BoundedBlockingQueue α} {r : Value α}
    (h : q.Fifo bound) (hpass : code.waitsFor k q = none) (hok : code.body k q = .ok (q', r)) :
    q'.Fifo bound := by
  cases k with
  | put x =>
    cases hok
    exact put_fifo h (by simpa [code] using hpass) x
  | take =>
    obtain ⟨x, xs, hq, htake⟩ := take.spec (q := q) (by simpa [code] using hpass)
    simp only [code, htake, ok_bind, pure_eq_ok, Except.ok.injEq, Prod.mk.injEq] at hok
    obtain ⟨rfl, -⟩ := hok
    have horder := h.order
    have hsize := h.size
    rw [hq] at horder hsize
    refine ⟨?_, h.fixed, ?_⟩
    · rw [← horder, List.append_assoc, List.singleton_append]
    · simp only [List.length_cons] at hsize
      exact Nat.le_of_succ_le hsize
  | empty | full | size | capacity =>
    cases hok
    exact h

/-- The value that the call put. -/
def put? : Call α × Value α → Option α
  | (.put x, _) => some x
  | _ => none

/-- The value that the call returns. -/
def taken? : Call α × Value α → Option α
  | (_, .item x) => some x
  | _ => none

/-- The queue records a call that ran, and what it returns. -/
theorem body_records {k : Call α} {q q' : BoundedBlockingQueue α} {r : Value α}
    (hpass : code.waitsFor k q = none) (hok : code.body k q = .ok (q', r)) :
    q'.puts = q.puts ++ (put? (k, r)).toList ∧ q'.takes = q.takes ++ (taken? (k, r)).toList := by
  cases k with
  | put x =>
    cases hok
    exact ⟨rfl, (List.append_nil _).symm⟩
  | take =>
    obtain ⟨x, xs, _, htake⟩ := take.spec (q := q) (by simpa [code] using hpass)
    simp only [code, htake, ok_bind, pure_eq_ok, Except.ok.injEq, Prod.mk.injEq] at hok
    obtain ⟨rfl, rfl⟩ := hok
    exact ⟨(List.append_nil _).symm, rfl⟩
  | empty | full | size | capacity =>
    cases hok
    exact ⟨(List.append_nil _).symm, (List.append_nil _).symm⟩

variable {τ : Type} [DecidableEq τ]

theorem records_of_ran {size : Nat} {ran : List (Call α × Value α)}
    {s : Monitor τ (Call α) Condition (BoundedBlockingQueue α) (Value α)}
    (h : Monitor.Ran code (Monitor.start (construct size)) ran s) :
    s.data.puts = ran.filterMap put? ∧ s.data.takes = ran.filterMap taken? := by
  apply h.data (P := fun ran q => q.puts = ran.filterMap put? ∧ q.takes = ran.filterMap taken?)
  · exact ⟨rfl, rfl⟩
  · rintro ran k q q' r ⟨hputs, htakes⟩ hpass hok
    obtain ⟨hput, htake⟩ := body_records hpass hok
    rw [hput, htake, hputs, htakes, List.filterMap_append, List.filterMap_append]
    cases hp : put? (k, r) <;> cases ht : taken? (k, r) <;> simp [hp, ht]

/-- With any threads, any calls and any wakeups, the values that were taken
and then those in the buffer are the values that were put, in their order:
the ones that the calls of the run put and returned. The buffer never holds
more than its capacity, no value is put into a full buffer, and none is taken
from an empty one. -/
theorem the_queue_is_a_bounded_fifo (size : Nat)
    (s : Monitor τ (Call α) Condition (BoundedBlockingQueue α) (Value α))
    (h : (Monitor.machine code (construct size)).Reachable s) :
    s.data.takes ++ s.data.deque_.elems = s.data.puts ∧
    s.data.deque_.elems.length ≤ size ∧
    (∀ t x, s.place t = .acting (.put x) → s.data.deque_.elems.length < size) ∧
    (∀ t, s.place t = .acting .take → s.data.deque_.elems ≠ []) ∧
    (∀ ran, Monitor.Ran code (Monitor.start (construct size)) ran s →
      s.data.puts = ran.filterMap put? ∧ s.data.takes = ran.filterMap taken?) := by
  have hfifo : s.data.Fifo size := by
    apply Monitor.data_invariant h
    · exact ⟨rfl, rfl, Nat.zero_le _⟩
    · intro k q q' r hq hpass hok
      exact body_fifo hq hpass hok
  have hinv := Monitor.reachable_inv h
  refine ⟨hfifo.order, hfifo.size, fun t x ht => ?_, fun t ht => ?_,
    fun ran hran => records_of_ran hran⟩
  · have hpass := hinv.acting t _ ht
    have hroom : s.data.deque_.elems.length ≠ s.data.deque_.capacity := by
      simpa [code, CircularBuffer.full] using hpass
    have hsize := hfifo.size
    rw [hfifo.fixed] at hroom
    omega
  · have hpass := hinv.acting t _ ht
    simpa [code, CircularBuffer.empty] using hpass

/-- A consumer that waited for a value is about to take it. -/
theorem the_queue_is_a_bounded_fifo_of_one :
    ∃ s : Monitor Bool (Call Nat) Condition (BoundedBlockingQueue Nat) (Value Nat),
      (Monitor.machine code (construct 1)).Reachable s ∧ s.place false = .acting .take ∧
      s.data.takes ++ s.data.deque_.elems = [7] ∧ s.data.deque_.elems ≠ [] ∧
      ∃ ran, Monitor.Ran code (Monitor.start (construct 1)) ran s ∧
        ran.filterMap put? = [7] ∧ ran.filterMap taken? = [] := by
  have h0 : (Monitor.machine code (construct 1)).Reachable
      (Monitor.start (construct 1) :
        Monitor Bool (Call Nat) Condition (BoundedBlockingQueue Nat) (Value Nat)) := .start rfl
  have h1 := h0.next (Monitor.Step.call (t := false) (k := .take) rfl)
  have h2 := h1.next (Monitor.Step.lock (t := false) (k := .take) (Or.inl rfl) rfl)
  have h3 := h2.next (Monitor.Step.wait (t := false) (k := .take) (c := .notEmpty_) rfl rfl)
  have h4 := h3.next (Monitor.Step.call (t := true) (k := .put 7) rfl)
  have h5 := h4.next (Monitor.Step.lock (t := true) (k := .put 7) (Or.inl rfl) rfl)
  have h6 := h5.next (Monitor.Step.pass (t := true) (k := .put 7) rfl rfl)
  have h7 := h6.next (Monitor.Step.body (t := true) (k := .put 7) rfl rfl)
  have h8 := h7.next (Monitor.Step.notifyOne (t := true) (u := false) (j := .take) rfl rfl rfl)
  have h9 := h8.next (Monitor.Step.unlock (t := true) rfl)
  have h10 := h9.next (Monitor.Step.lock (t := false) (k := .take) (Or.inr rfl) rfl)
  have h11 := h10.next (Monitor.Step.pass (t := false) (k := .take) rfl rfl)
  obtain ⟨horder, _, _, htake, hrecords⟩ := the_queue_is_a_bounded_fifo 1 _ h11
  obtain ⟨ran, hran⟩ := Monitor.exists_ran h11
  obtain ⟨hputs, htakes⟩ := hrecords ran hran
  exact ⟨_, h11, rfl, horder, htake false rfl, ran, hran, hputs.symm, htakes.symm⟩

end BoundedBlockingQueue

end jmuduo
