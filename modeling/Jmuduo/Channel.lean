-- A channel (Channel.h): one descriptor of an event loop, the events that it
-- waits for, and the slot that it has in the poller.
import Jmuduo.Outcome

open outcome

namespace jmuduo.net

/-! ## Sets of poll bits -/

/-- An `int` of poll bits. -/
abbrev Mask := BitVec 32

def POLLIN : Mask := 0x01
def POLLPRI : Mask := 0x02
def POLLOUT : Mask := 0x04
def POLLERR : Mask := 0x08
def POLLHUP : Mask := 0x10
def POLLNVAL : Mask := 0x20

/-- `mask & bits`, as a condition. -/
def has (mask bits : Mask) : Bool := mask &&& bits != 0

/-! ## The channel of the source -/

structure Channel where
  fd_ : Int
  index_ : Int
  events_ : Mask
  revents_ : Mask
  tied_ : Bool
  deriving DecidableEq, Repr

namespace Channel

def kNoneEvent : Mask := 0
def kReadEvent : Mask := POLLIN ||| POLLPRI
def kWriteEvent : Mask := POLLOUT

/-- The constructor. -/
def construct (fd : Int) : Channel where
  fd_ := fd
  index_ := -1
  events_ := 0
  revents_ := 0
  tied_ := false

def isWriting (c : Channel) : Bool := has c.events_ kWriteEvent

def isNoneEvent (c : Channel) : Bool := c.events_ == kNoneEvent

def tie (c : Channel) : Channel := { c with tied_ := true }

/-! The functions that change the interest. In the source each ends in
`update()`, which hands the new interest to the poller of the loop. -/

def enableReading (c : Channel) : Channel := { c with events_ := c.events_ ||| kReadEvent }

def enableWriting (c : Channel) : Channel := { c with events_ := c.events_ ||| kWriteEvent }

def disableWriting (c : Channel) : Channel := { c with events_ := c.events_ &&& ~~~kWriteEvent }

def disableAll (c : Channel) : Channel := { c with events_ := kNoneEvent }

/-! ## The dispatch -/

/-- The callbacks of a channel. They change a state `σ`. -/
structure Callbacks (σ : Type) where
  readCallback_ : Option (σ → Outcome σ)
  writeCallback_ : Option (σ → Outcome σ)
  errorCallback_ : Option (σ → Outcome σ)
  closeCallback_ : Option (σ → Outcome σ)

/-- A callback is called under its condition, and only when it is set. -/
def invoke {σ : Type} (cond : Bool) (cb : Option (σ → Outcome σ)) (s : σ) : Outcome σ :=
  if cond then
    match cb with
    | some f => f s
    | none => pure s
  else pure s

def handleEventWithGuard {σ : Type} (cbs : Callbacks σ) (revents : Mask) (s : σ) : Outcome σ := do
  let s ← invoke (has revents POLLHUP && !has revents POLLIN) cbs.closeCallback_ s
  let s ← invoke (has revents (POLLERR ||| POLLNVAL)) cbs.errorCallback_ s
  let s ← invoke (has revents (POLLIN ||| POLLPRI ||| POLLHUP)) cbs.readCallback_ s
  invoke (has revents POLLOUT) cbs.writeCallback_ s

/-- `alive` says whether `tie_.lock()` still finds the object. -/
def handleEvent {σ : Type} (cbs : Callbacks σ) (tied alive : Bool) (revents : Mask) (s : σ) :
    Outcome σ :=
  if tied then
    if alive then handleEventWithGuard cbs revents s else pure s
  else handleEventWithGuard cbs revents s

/-! ## What a dispatch keeps -/

section

variable {σ : Type} {P : σ → Prop}

/-- Every call of the callback keeps `P`. -/
def CallbackKeeps (P : σ → Prop) (cb : Option (σ → Outcome σ)) : Prop :=
  ∀ f, cb = some f → ∀ s s', P s → f s = .ok s' → P s'

theorem invoke_keeps {cb : Option (σ → Outcome σ)} (h : CallbackKeeps P cb) {cond : Bool}
    {s s' : σ} (hs : P s) (hok : invoke cond cb s = .ok s') : P s' := by
  unfold invoke at hok
  split at hok
  · cases cb with
    | none =>
      cases hok
      exact hs
    | some f => exact h f rfl s s' hs hok
  · cases hok
    exact hs

/-- What every callback keeps, a dispatch keeps. -/
theorem handleEvent_keeps {cbs : Callbacks σ} (hclose : CallbackKeeps P cbs.closeCallback_)
    (herror : CallbackKeeps P cbs.errorCallback_) (hread : CallbackKeeps P cbs.readCallback_)
    (hwrite : CallbackKeeps P cbs.writeCallback_) {tied alive : Bool} {revents : Mask} {s s' : σ}
    (hs : P s) (hok : handleEvent cbs tied alive revents s = .ok s') : P s' := by
  have hguard : handleEventWithGuard cbs revents s = .ok s' → P s' := by
    intro hg
    simp only [handleEventWithGuard, bind_eq_ok] at hg
    obtain ⟨s₁, h1, s₂, h2, s₃, h3, h4⟩ := hg
    have p1 := invoke_keeps hclose hs h1
    have p2 := invoke_keeps herror p1 h2
    have p3 := invoke_keeps hread p2 h3
    exact invoke_keeps hwrite p3 h4
  unfold handleEvent at hok
  split at hok
  · split at hok
    · exact hguard hok
    · cases hok
      exact hs
  · exact hguard hok

end

/-! ## The bits of an interest -/

theorem isWriting_eq (c : Channel) : c.isWriting = c.events_.getLsbD 2 := by
  have h : c.events_ &&& kWriteEvent = if c.events_.getLsbD 2 then BitVec.twoPow 32 2 else 0#32 :=
    BitVec.and_twoPow c.events_ 2
  unfold isWriting has
  rw [h]
  cases c.events_.getLsbD 2 <;> decide

@[simp] theorem isWriting_enableReading (c : Channel) :
    c.enableReading.isWriting = c.isWriting := by
  simp [isWriting_eq, enableReading, kReadEvent, POLLIN, POLLPRI]

@[simp] theorem isWriting_enableWriting (c : Channel) : c.enableWriting.isWriting = true := by
  simp [isWriting_eq, enableWriting, kWriteEvent, POLLOUT]

@[simp] theorem isWriting_disableWriting (c : Channel) : c.disableWriting.isWriting = false := by
  simp [isWriting_eq, disableWriting, kWriteEvent, POLLOUT]

@[simp] theorem isWriting_disableAll (c : Channel) : c.disableAll.isWriting = false := by
  simp [isWriting_eq, disableAll, kNoneEvent]

@[simp] theorem isWriting_construct (fd : Int) : (construct fd).isWriting = false := by
  simp [isWriting_eq, construct]

@[simp] theorem isWriting_tie (c : Channel) : c.tie.isWriting = c.isWriting := rfl

/-- The interests that the calls of a channel can reach. -/
def Known (m : Mask) : Prop :=
  m = kNoneEvent ∨ m = kReadEvent ∨ m = kWriteEvent ∨ m = kReadEvent ||| kWriteEvent

instance (m : Mask) : Decidable (Known m) := inferInstanceAs (Decidable (_ ∨ _ ∨ _ ∨ _))

theorem known_none : Known kNoneEvent := Or.inl rfl

theorem Known.or_read {m : Mask} (h : Known m) :
    Known (m ||| kReadEvent) ∧ m ||| kReadEvent ≠ kNoneEvent := by
  rcases h with rfl | rfl | rfl | rfl <;> decide

theorem Known.or_write {m : Mask} (h : Known m) :
    Known (m ||| kWriteEvent) ∧ m ||| kWriteEvent ≠ kNoneEvent := by
  rcases h with rfl | rfl | rfl | rfl <;> decide

theorem Known.and_not_write {m : Mask} (h : Known m) : Known (m &&& ~~~kWriteEvent) := by
  rcases h with rfl | rfl | rfl | rfl <;> decide

/-- A known interest survives the `short` of a poll entry. -/
theorem Known.short {m : Mask} (h : Known m) : (m.setWidth 16).signExtend 32 = m := by
  rcases h with rfl | rfl | rfl | rfl <;> decide

end Channel

end jmuduo.net
