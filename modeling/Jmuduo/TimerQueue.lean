-- The timers of an event loop (TimerQueue.h): a set of entries, each the
-- expiration and the address of a timer, and one timerfd that is armed for
-- the earliest of them.
import Jmuduo.Outcome
import Jmuduo.OrderedSet
import Mathlib.Data.Prod.Lex
import Mathlib.Order.Lattice.Nat

open outcome sets

namespace jmuduo.net

/-! ## The timers of the source -/

/-- `addTime`, for an interval of `delta` whole microseconds. -/
def addTime (timestamp : Int) (delta : Nat) : Int := timestamp + delta

/-- The interval is given in microseconds. `callback_` is left out: what it
does is an input of `handleRead`. -/
structure Timer where
  expiration_ : Int
  repeated_ : Bool
  interval_ : Nat
  sequence_ : Int
  deriving DecidableEq, Repr

def Timer.restart (now : Int) (timer : Timer) : Timer :=
  if timer.repeated_ then { timer with expiration_ := addTime now timer.interval_ } else timer

def UINTPTR_MAX : Nat := 2 ^ 64 - 1

/-- `std::pair<Timestamp,Timer*>`, ordered by the time and then by the address. -/
abbrev Entry := Lex (Int × Nat)

def Entry.first (e : Entry) : Int := (ofLex e).1

def Entry.second (e : Entry) : Nat := (ofLex e).2

/-- The entry of the timer at the address. -/
def Timer.entry (timer : Timer) (p : Nat) : Entry := toLex (timer.expiration_, p)

/-- `heap` holds the timers that live, by their addresses, and `armedFor` is
the argument of the last `resetTimerfd` that `readTimerfd` has not consumed.
`seen` and `ran` record the sequences of all timers so far, and each call of
a callback. -/
structure TimerQueue where
  timers_ : OrderedSet Entry
  heap : Nat → Option Timer
  armedFor : Option Int
  seen : List Int
  ran : List (Nat × Timer)

namespace TimerQueue

/-- The constructor. -/
def construct : TimerQueue := ⟨.empty, fun _ => none, none, [], []⟩

/-- The timer at the address. Only a live timer may be read. -/
def deref (p : Nat) (s : TimerQueue) : Outcome Timer := demand .badPointer (s.heap p)

def resetTimerfd (t : Int) (s : TimerQueue) : TimerQueue := { s with armedFor := some t }

def readTimerfd (s : TimerQueue) : TimerQueue := { s with armedFor := none }

/-- `timers_.begin()->first`. At `end()` the key is whatever stands there. -/
def beginKey (endKey : Int) (s : TimerQueue) : Int :=
  match s.timers_.begin with
  | some e => e.first
  | none => endKey

/-- The operands of `|` are both read, so an empty set reads the key at
`end()`, which is `endKey p` here. -/
def insert (endKey : Nat → Int) (p : Nat) (s : TimerQueue) : Outcome (Bool × TimerQueue) := do
  let timer ← s.deref p
  let whenExpired := timer.expiration_
  let earliestChanged := s.timers_.begin.isNone || whenExpired < s.beginKey (endKey p)
  let result := s.timers_.insert (timer.entry p)
  check "result.second == true" (result.2 = true)
  pure (earliestChanged, { s with timers_ := result.1 })

def addTimerInLoop (endKey : Nat → Int) (p : Nat) (s : TimerQueue) : Outcome TimerQueue := do
  let (earliestChanged, s) ← s.insert endKey p
  if earliestChanged then
    let timer ← s.deref p
    pure (s.resetTimerfd timer.expiration_)
  else pure s

/-- The allocator gives the address `p` to a new timer. -/
def create (p : Nat) (timer : Timer) (s : TimerQueue) : TimerQueue :=
  { s with heap := Function.update s.heap p (some timer), seen := s.seen ++ [timer.sequence_] }

/-- `addTimer` on the loop thread, where `runInLoop` runs at once. -/
def addTimer (endKey : Nat → Int) (s : TimerQueue) (new : Nat × Timer) : Outcome TimerQueue :=
  (s.create new.1 new.2).addTimerInLoop endKey new.1

/-- The entries up to `now` leave the set. -/
def getExpired (endKey : Nat → Int) (now : Int) (s : TimerQueue) :
    Outcome (List Entry × TimerQueue) := do
  let sentry : Entry := toLex (now, UINTPTR_MAX)
  let expired := s.timers_.below sentry
  let s := { s with timers_ := s.timers_.eraseBelow sentry }
  check "it == timers_.end() | now < it->first"
    (s.timers_.begin.isNone || now < s.beginKey (endKey UINTPTR_MAX))
  pure (expired, s)

/-- One callback. `adds p` are the timers that the callback at `p` adds. -/
def run (endKey : Nat → Int) (adds : Nat → List (Nat × Timer)) (s : TimerQueue) (e : Entry) :
    Outcome TimerQueue := do
  let timer ← s.deref e.second
  (adds e.second).foldlM (addTimer endKey) { s with ran := s.ran ++ [(e.second, timer)] }

/-- One turn of the loop of `reset`. -/
def resetOne (endKey : Nat → Int) (now : Int) (s : TimerQueue) (e : Entry) :
    Outcome TimerQueue := do
  let timer ← s.deref e.second
  if timer.repeated_ then
    let (_, s) ←
      { s with heap := Function.update s.heap e.second (some (timer.restart now)) }.insert
        endKey e.second
    pure s
  else pure { s with heap := Function.update s.heap e.second none }

/-- The timerfd is armed again for a valid time. -/
def rearm (s : TimerQueue) : TimerQueue :=
  let nextExpired := s.beginKey 0
  if nextExpired > 0 then s.resetTimerfd nextExpired else s

def reset (endKey : Nat → Int) (now : Int) (expired : List Entry) (s : TimerQueue) :
    Outcome TimerQueue := do
  let s ← expired.foldlM (resetOne endKey now) s
  pure s.rearm

def handleRead (endKey : Nat → Int) (now : Int) (adds : Nat → List (Nat × Timer))
    (s : TimerQueue) : Outcome TimerQueue := do
  let s := s.readTimerfd
  let (expired, s) ← s.getExpired endKey now
  let s ← expired.foldlM (run endKey adds) s
  s.reset endKey now expired

/-! ## The entries -/

end TimerQueue

@[simp] theorem Timer.entry_first (timer : Timer) (p : Nat) :
    (timer.entry p).first = timer.expiration_ := rfl

@[simp] theorem Timer.entry_second (timer : Timer) (p : Nat) : (timer.entry p).second = p := rfl

theorem Entry.first_le {e e' : Entry} (h : e ≤ e') : e.first ≤ e'.first := by
  rcases Prod.Lex.le_iff.mp h with h | h
  · exact le_of_lt h
  · exact le_of_eq h.1

/-- The sentry stands behind all the entries up to `now`. -/
theorem Entry.lt_sentry {e : Entry} {now : Int} (h : e.second < UINTPTR_MAX) :
    e < (toLex (now, UINTPTR_MAX) : Entry) ↔ e.first ≤ now := by
  rw [Prod.Lex.lt_iff]
  constructor
  · rintro (hlt | ⟨heq, _⟩)
    · exact le_of_lt hlt
    · exact le_of_eq heq
  · intro hle
    rcases lt_or_eq_of_le hle with hlt | heq
    · exact Or.inl hlt
    · exact Or.inr ⟨heq, h⟩

namespace TimerQueue

/-! ## The invariant -/

/-- The entry is the one of a live timer. -/
def Live (s : TimerQueue) (e : Entry) : Prop :=
  ∃ timer, s.heap e.second = some timer ∧ timer.entry e.second = e

/-- The entries are those of the live timers, but the ones of `out` have
left the set. -/
structure Inv (s : TimerQueue) (out : List Entry) : Prop where
  live : ∀ e, (e ∈ s.timers_ ∨ e ∈ out) ↔ s.Live e
  apart : ∀ e ∈ out, e ∉ s.timers_
  nodup : out.Nodup
  address : ∀ p timer, s.heap p = some timer → p < UINTPTR_MAX

theorem Live.unique {s : TimerQueue} {e e' : Entry} (h : s.Live e) (h' : s.Live e')
    (hp : e.second = e'.second) : e = e' := by
  obtain ⟨timer, hh, he⟩ := h
  obtain ⟨timer', hh', he'⟩ := h'
  rw [hp, hh'] at hh
  cases hh
  rw [← he, ← he', hp]

theorem Inv.live_of_heap {s : TimerQueue} {out : List Entry} (h : s.Inv out) {p : Nat}
    {timer : Timer} (hp : s.heap p = some timer) :
    timer.entry p ∈ s.timers_ ∨ timer.entry p ∈ out :=
  (h.live _).mpr ⟨timer, hp, rfl⟩

theorem Inv.entry_of_mem {s : TimerQueue} {out : List Entry} (h : s.Inv out) {e : Entry}
    (he : e ∈ s.timers_) : ∃ timer, s.heap e.second = some timer ∧ timer.entry e.second = e :=
  (h.live e).mp (Or.inl he)

/-- The entries of one batch have different addresses. -/
theorem Inv.head_apart {s : TimerQueue} {e : Entry} {out : List Entry} (h : s.Inv (e :: out)) :
    ∀ e' ∈ out, e'.second ≠ e.second := by
  intro e' he' hp
  have hl := (h.live e).mp (Or.inr List.mem_cons_self)
  have hl' := (h.live e').mp (Or.inr (List.mem_cons_of_mem _ he'))
  have heq := hl'.unique hl hp
  exact (List.nodup_cons.mp h.nodup).1 (heq ▸ he')

/-- The invariant is about the timers alone. -/
theorem Inv.congr {s s' : TimerQueue} {out : List Entry} (h : s.Inv out)
    (hheap : s'.heap = s.heap) (htimers : s'.timers_ = s.timers_) : s'.Inv out where
  live e := by
    unfold Live
    rw [hheap, htimers]
    exact h.live e
  apart e he := by
    rw [htimers]
    exact h.apart e he
  nodup := h.nodup
  address p timer hp := by
    rw [hheap] at hp
    exact h.address p timer hp

/-- Where the timer at `p` gets the entry `e`, and the others keep theirs. -/
theorem Inv.of_insert {s s' : TimerQueue} {out : List Entry} {p : Nat} {t : Timer}
    (hlive : ∀ e, e.second ≠ p → ((e ∈ s.timers_ ∨ e ∈ out) ↔ s.Live e))
    (hnone : ∀ e, e.second = p → e ∉ s.timers_ ∧ e ∉ out)
    (hapart : ∀ e ∈ out, e ∉ s.timers_) (hnodup : out.Nodup)
    (haddress : ∀ q timer, s.heap q = some timer → q < UINTPTR_MAX) (hp : p < UINTPTR_MAX)
    (hheap : s'.heap = Function.update s.heap p (some t))
    (htimers : ∀ e, e ∈ s'.timers_ ↔ e = t.entry p ∨ e ∈ s.timers_) : s'.Inv out := by
  have hself : ∀ e : Entry, e.second = p → (s'.Live e ↔ e = t.entry p) := by
    intro e he
    unfold Live
    rw [hheap, he, Function.update_self]
    constructor
    · rintro ⟨u, hu, hue⟩
      cases hu
      exact hue.symm
    · intro h
      exact ⟨t, rfl, h.symm⟩
  have hother : ∀ e : Entry, e.second ≠ p → (s'.Live e ↔ s.Live e) := by
    intro e he
    unfold Live
    rw [hheap, Function.update_of_ne he]
  refine ⟨fun e => ?_, fun e he => ?_, hnodup, fun q u hq => ?_⟩
  · rw [htimers]
    by_cases he : e.second = p
    · rw [hself e he]
      obtain ⟨h1, h2⟩ := hnone e he
      simp [h1, h2]
    · rw [hother e he, ← hlive e he]
      have hne : e ≠ t.entry p := by
        rintro rfl
        exact he rfl
      simp [hne]
  · rw [htimers]
    rintro (rfl | hin)
    · exact (hnone _ rfl).2 he
    · exact hapart e he hin
  · rw [hheap] at hq
    by_cases hqp : q = p
    · exact hqp ▸ hp
    · rw [Function.update_of_ne hqp] at hq
      exact haddress q u hq

/-! ## The timerfd -/

/-- Where `P` holds of the earliest time, the timerfd is armed for it. -/
def Armed (P : Int → Prop) (s : TimerQueue) : Prop :=
  ∀ e, s.timers_.begin = some e → P e.first → s.armedFor = some e.first

/-- The time comes before every entry. -/
def Earliest (s : TimerQueue) (t : Int) : Prop := ∀ e, e ∈ s.timers_ → t < e.first

theorem earliest_iff {s : TimerQueue} {t k : Int} :
    (s.timers_.begin.isNone || decide (t < s.beginKey k)) = true ↔ s.Earliest t := by
  unfold beginKey Earliest
  cases hb : s.timers_.begin with
  | none =>
    have hnone := OrderedSet.begin_eq_none.mp hb
    simp only [Option.isNone_none, Bool.true_or, true_iff]
    exact fun e he => absurd he (hnone e)
  | some m =>
    obtain ⟨hm, hmin⟩ := OrderedSet.begin_eq_some.mp hb
    simp only [Option.isNone_some, Bool.false_or, decide_eq_true_eq]
    constructor
    · intro ht e he
      exact lt_of_lt_of_le ht (Entry.first_le (hmin e he))
    · intro h
      exact h m hm

/-- An insert keeps the timerfd armed when it arms it for an entry that
comes before all others. -/
theorem Armed.insert {P : Int → Prop} {s s' : TimerQueue} {x : Entry} (h : s.Armed P)
    (hmem : ∀ e, e ∈ s'.timers_ ↔ e = x ∨ e ∈ s.timers_)
    (hearly : s.Earliest x.first → s'.armedFor = some x.first)
    (hlate : ¬ s.Earliest x.first → s'.armedFor = s.armedFor) : s'.Armed P := by
  intro m hm hP
  obtain ⟨hin, hmin⟩ := OrderedSet.begin_eq_some.mp hm
  have hmx : m ≤ x := hmin x ((hmem x).mpr (Or.inl rfl))
  by_cases he : s.Earliest x.first
  · rcases (hmem m).mp hin with rfl | hold
    · exact hearly he
    · exact absurd (he m hold) (not_lt_of_ge (Entry.first_le hmx))
  · rw [hlate he]
    unfold Earliest at he
    push Not at he
    obtain ⟨e, hes, hex⟩ := he
    -- the old first entry is still the earliest
    cases hb : s.timers_.begin with
    | none => exact absurd hes (OrderedSet.begin_eq_none.mp hb e)
    | some b =>
      obtain ⟨hbs, hbmin⟩ := OrderedSet.begin_eq_some.mp hb
      have hmb : m ≤ b := hmin b ((hmem b).mpr (Or.inr hbs))
      have hkey : b.first = m.first := by
        rcases (hmem m).mp hin with rfl | hold
        · exact le_antisymm (le_trans (Entry.first_le (hbmin e hes)) hex) (Entry.first_le hmb)
        · rw [le_antisymm (hbmin m hold) hmb]
      rw [← hkey] at hP ⊢
      exact h b hb hP

/-- An insert that does not arm the timerfd keeps it armed for the times
with `P`, when the time of the new entry is not one of them. -/
theorem Armed.insert_other {P : Int → Prop} {s s' : TimerQueue} {x : Entry} (h : s.Armed P)
    (hmem : ∀ e, e ∈ s'.timers_ ↔ e = x ∨ e ∈ s.timers_) (hx : ¬ P x.first)
    (harmed : s'.armedFor = s.armedFor) : s'.Armed P := by
  intro m hm hP
  obtain ⟨hin, hmin⟩ := OrderedSet.begin_eq_some.mp hm
  rcases (hmem m).mp hin with rfl | hold
  · exact absurd hP hx
  · rw [harmed]
    refine h m (OrderedSet.begin_eq_some.mpr ⟨hold, fun e he => ?_⟩) hP
    exact hmin e ((hmem e).mpr (Or.inr he))

/-! ## The specs of insert and addTimer -/

theorem insert.spec {s : TimerQueue} {p : Nat} {timer : Timer} (endKey : Nat → Int)
    (hp : s.heap p = some timer) (hnew : timer.entry p ∉ s.timers_) :
    ∃ b timers, s.insert endKey p = .ok (b, { s with timers_ := timers }) ∧
      (b = true ↔ s.Earliest timer.expiration_) ∧
      ∀ e, e ∈ timers ↔ e = timer.entry p ∨ e ∈ s.timers_ := by
  obtain ⟨hok, hmem⟩ := OrderedSet.insert_new hnew
  have hearly := earliest_iff (s := s) (t := timer.expiration_) (k := endKey p)
  refine ⟨_, (s.timers_.insert (timer.entry p)).1, ?_, hearly, hmem⟩
  simp only [insert, deref, hp, demand_some, ok_bind, check_of hok, pure_eq_ok]

/-- What the addition of a timer at a free address does. -/
structure Added (s : TimerQueue) (new : Nat × Timer) (s' : TimerQueue) : Prop where
  heap : s'.heap = Function.update s.heap new.1 (some new.2)
  timers : ∀ e, e ∈ s'.timers_ ↔ e = new.2.entry new.1 ∨ e ∈ s.timers_
  seen : s'.seen = s.seen ++ [new.2.sequence_]
  ran : s'.ran = s.ran
  armed : ∀ P, s.Armed P → s'.Armed P

theorem addTimer.spec {s : TimerQueue} {out : List Entry} {new : Nat × Timer}
    (endKey : Nat → Int) (h : s.Inv out) (hfree : s.heap new.1 = none)
    (hp : new.1 < UINTPTR_MAX) :
    ∃ s', s.addTimer endKey new = .ok s' ∧ s'.Inv out ∧ s.Added new s' := by
  obtain ⟨p, timer⟩ := new
  have hgone : ∀ e : Entry, e.second = p → ¬ s.Live e := by
    rintro e he ⟨t, ht, _⟩
    rw [he, hfree] at ht
    cases ht
  have hnew : timer.entry p ∉ s.timers_ := fun hin => hgone _ rfl ((h.live _).mp (Or.inl hin))
  have hheap : (s.create p timer).heap p = some timer := Function.update_self _ _ _
  obtain ⟨b, timers, hins, hb, hmem⟩ := insert.spec (s := s.create p timer) endKey hheap hnew
  have hearly : b = true ↔ s.Earliest timer.expiration_ := hb
  refine ⟨if b then { s.create p timer with timers_ := timers, armedFor := some timer.expiration_ }
    else { s.create p timer with timers_ := timers }, ?_, ?_, ?_⟩
  · simp only [addTimer, addTimerInLoop, hins, ok_bind]
    cases b with
    | false => rfl
    | true => simp [deref, hheap, resetTimerfd]
  · refine Inv.of_insert (s := s) (p := p) (t := timer) (fun e _ => h.live e) ?_ h.apart
      h.nodup h.address hp ?_ ?_
    · intro e he
      exact not_or.mp fun hin => hgone e he ((h.live e).mp hin)
    · cases b <;> rfl
    · cases b <;> exact hmem
  · refine ⟨?_, ?_, ?_, ?_, fun P hP => ?_⟩
    · cases b <;> rfl
    · cases b <;> exact hmem
    · cases b <;> rfl
    · cases b <;> rfl
    · refine hP.insert (x := timer.entry p) ?_ ?_ ?_
      · cases b <;> exact hmem
      · intro he
        rw [hearly.mpr he]
        rfl
      · intro he
        have hb' : b = false := by
          rw [← Bool.not_eq_true]
          exact fun hc => he (hearly.mp hc)
        rw [hb']
        rfl

/-! ## The specs of the callbacks -/

/-- New timers that the allocator can hand out while those of `heap` live:
their addresses are free and differ. -/
structure Allocated (heap : Nat → Option Timer) (news : List (Nat × Timer)) : Prop where
  free : ∀ x ∈ news, heap x.1 = none ∧ x.1 < UINTPTR_MAX
  nodup : (news.map Prod.fst).Nodup

instance (heap : Nat → Option Timer) (news : List (Nat × Timer)) :
    Decidable (Allocated heap news) :=
  decidable_of_iff (_ ∧ _) ⟨fun h => ⟨h.1, h.2⟩, fun h => ⟨h.1, h.2⟩⟩

/-- The heap with the new timers. -/
def installed (heap : Nat → Option Timer) (news : List (Nat × Timer)) : Nat → Option Timer :=
  news.foldl (fun h x => Function.update h x.1 (some x.2)) heap

theorem installed_append (heap : Nat → Option Timer) (xs ys : List (Nat × Timer)) :
    installed heap (xs ++ ys) = installed (installed heap xs) ys := List.foldl_append

theorem installed_other {heap : Nat → Option Timer} {news : List (Nat × Timer)} {p : Nat}
    (h : p ∉ news.map Prod.fst) : installed heap news p = heap p := by
  induction news generalizing heap with
  | nil => rfl
  | cons x xs ih =>
    rw [List.map_cons, List.mem_cons, not_or] at h
    exact (ih h.2).trans (Function.update_of_ne h.1 _ _)

theorem installed_self {heap : Nat → Option Timer} {news : List (Nat × Timer)}
    (h : (news.map Prod.fst).Nodup) {x : Nat × Timer} (hx : x ∈ news) :
    installed heap news x.1 = some x.2 := by
  induction news generalizing heap with
  | nil => cases hx
  | cons y ys ih =>
    rw [List.map_cons, List.nodup_cons] at h
    rcases List.mem_cons.mp hx with rfl | hin
    · exact (installed_other h.1).trans (Function.update_self _ _ _)
    · exact ih h.2 hin

theorem Allocated.head {heap : Nat → Option Timer} {xs ys : List (Nat × Timer)}
    (h : Allocated heap (xs ++ ys)) : Allocated heap xs := by
  obtain ⟨hfree, hnodup⟩ := h
  rw [List.map_append] at hnodup
  exact ⟨fun x hx => hfree x (List.mem_append_left _ hx), hnodup.of_append_left⟩

theorem Allocated.tail {heap : Nat → Option Timer} {xs ys : List (Nat × Timer)}
    (h : Allocated heap (xs ++ ys)) : Allocated (installed heap xs) ys := by
  obtain ⟨hfree, hnodup⟩ := h
  rw [List.map_append, List.nodup_append] at hnodup
  refine ⟨fun y hy => ?_, hnodup.2.1⟩
  have hy' : y.1 ∉ xs.map Prod.fst := by
    intro hin
    exact hnodup.2.2 _ hin _ (List.mem_map_of_mem hy) rfl
  rw [installed_other hy']
  exact hfree y (List.mem_append_right _ hy)

/-- What the addition of several timers does. -/
structure AddedAll (s : TimerQueue) (news : List (Nat × Timer)) (s' : TimerQueue) : Prop where
  heap : s'.heap = installed s.heap news
  seen : s'.seen = s.seen ++ news.map fun x => x.2.sequence_
  armed : ∀ P, s.Armed P → s'.Armed P

theorem addTimers.spec {s : TimerQueue} {out : List Entry} {news : List (Nat × Timer)}
    (endKey : Nat → Int) (h : s.Inv out) (hnew : Allocated s.heap news) :
    ∃ s', news.foldlM (addTimer endKey) s = .ok s' ∧ s'.Inv out ∧ s.AddedAll news s' ∧
      s'.ran = s.ran := by
  induction news generalizing s with
  | nil => exact ⟨s, rfl, h, ⟨rfl, (List.append_nil _).symm, fun _ hP => hP⟩, rfl⟩
  | cons x xs ih =>
    obtain ⟨hfree, hp⟩ := hnew.free x List.mem_cons_self
    obtain ⟨s₁, h1, hinv, ha⟩ := addTimer.spec endKey h hfree hp
    have hcons : Allocated s.heap ([x] ++ xs) := hnew
    have hrest : Allocated s₁.heap xs := by
      rw [ha.heap]
      exact hcons.tail
    obtain ⟨s₂, h2, hinv', hb, hran⟩ := ih hinv hrest
    refine ⟨s₂, ?_, hinv', ⟨?_, ?_, fun P hP => hb.armed P (ha.armed P hP)⟩, hran.trans ha.ran⟩
    · rw [List.foldlM_cons, h1, ok_bind, h2]
    · rw [hb.heap, ha.heap]
      rfl
    · rw [hb.seen, ha.seen, List.append_assoc]
      rfl

/-- The timers that the callbacks of the entries add. -/
def added (adds : Nat → List (Nat × Timer)) (es : List Entry) : List (Nat × Timer) :=
  es.flatMap fun e => adds e.second

/-- The callbacks run each entry's timer once, in the order of the entries. -/
theorem runs.spec {s : TimerQueue} {out es : List Entry} (endKey : Nat → Int)
    {adds : Nat → List (Nat × Timer)} (h : s.Inv out) (hes : ∀ e ∈ es, s.Live e)
    (hnew : Allocated s.heap (added adds es)) :
    ∃ s' rs, es.foldlM (run endKey adds) s = .ok s' ∧ s'.Inv out ∧
      s.AddedAll (added adds es) s' ∧ s'.ran = s.ran ++ rs ∧
      rs.map (fun r => r.2.entry r.1) = es ∧ ∀ r ∈ rs, s.heap r.1 = some r.2 := by
  induction es generalizing s with
  | nil =>
    exact ⟨s, [], rfl, h, ⟨rfl, (List.append_nil _).symm, fun _ hP => hP⟩,
      (List.append_nil _).symm, rfl, by simp⟩
  | cons e es ih =>
    obtain ⟨timer, ht, he⟩ := hes e List.mem_cons_self
    have hsplit : added adds (e :: es) = adds e.second ++ added adds es := List.flatMap_cons
    rw [hsplit] at hnew ⊢
    have hinv₀ : ({ s with ran := s.ran ++ [(e.second, timer)] } : TimerQueue).Inv out :=
      h.congr rfl rfl
    obtain ⟨s₁, h1, hinv₁, ha, hran⟩ := addTimers.spec endKey hinv₀ hnew.head
    -- the live timers stay where they are
    have hkeep : ∀ p timer, s.heap p = some timer → s₁.heap p = some timer := by
      intro p t hpt
      rw [ha.heap, installed_other]
      · exact hpt
      · intro hin
        obtain ⟨x, hx, rfl⟩ := List.mem_map.mp hin
        rw [(hnew.head.free x hx).1] at hpt
        cases hpt
    have hes₁ : ∀ e' ∈ es, s₁.Live e' := by
      intro e' he'
      obtain ⟨t, ht', hte⟩ := hes e' (List.mem_cons_of_mem _ he')
      exact ⟨t, hkeep _ _ ht', hte⟩
    have hnew₁ : Allocated s₁.heap (added adds es) := by
      rw [ha.heap]
      exact hnew.tail
    obtain ⟨s₂, rs, h2, hinv₂, hb, hran₂, hrs, hheap⟩ := ih hinv₁ hes₁ hnew₁
    refine ⟨s₂, (e.second, timer) :: rs, ?_, hinv₂, ⟨?_, ?_, ?_⟩, ?_, ?_, ?_⟩
    · rw [List.foldlM_cons]
      simp only [run, deref, ht, demand_some, ok_bind, h1, h2]
    · rw [hb.heap, ha.heap, installed_append]
    · rw [hb.seen, ha.seen, List.map_append, List.append_assoc]
    · exact fun P hP => hb.armed P (ha.armed P hP)
    · rw [hran₂, hran, List.append_assoc]
      rfl
    · rw [List.map_cons, hrs, he]
    · intro r hr
      rcases List.mem_cons.mp hr with rfl | hin
      · exact ht
      · have hmem : r.2.entry r.1 ∈ es := by
          rw [← hrs]
          exact List.mem_map_of_mem (f := fun r : Nat × Timer => r.2.entry r.1) hin
        obtain ⟨t, ht', _⟩ := hes _ (List.mem_cons_of_mem _ hmem)
        have hsame := hkeep _ _ ht'
        rw [Timer.entry_second, hheap r hin] at hsame
        cases hsame
        exact ht'

/-! ## The specs of getExpired and reset -/

/-- The entries that a `handleRead` at `now` finds expired. -/
def expired (now : Int) (s : TimerQueue) : List Entry :=
  s.timers_.toList.filter (·.first ≤ now)

theorem mem_expired {s : TimerQueue} {now : Int} {e : Entry} :
    e ∈ s.expired now ↔ e ∈ s.timers_ ∧ e.first ≤ now := by
  rw [expired, List.mem_filter, decide_eq_true_eq, OrderedSet.mem_def]

/-- The entries up to `now` leave the set, in their order. -/
theorem getExpired.spec {s : TimerQueue} (endKey : Nat → Int) (now : Int) (h : s.Inv []) :
    ∃ timers, s.getExpired endKey now =
        .ok (s.expired now, { s with timers_ := timers }) ∧
      ({ s with timers_ := timers } : TimerQueue).Inv (s.expired now) ∧
      ∀ e, e ∈ timers ↔ e ∈ s.timers_ ∧ now < e.first := by
  have hsentry : ∀ e, e ∈ s.timers_ →
      (e < (toLex (now, UINTPTR_MAX) : Entry) ↔ e.first ≤ now) := by
    intro e he
    obtain ⟨timer, ht, _⟩ := h.entry_of_mem he
    exact Entry.lt_sentry (h.address _ _ ht)
  have hbelow : s.timers_.below (toLex (now, UINTPTR_MAX)) =
      s.expired now := by
    refine List.filter_congr fun e he => ?_
    simp only [hsentry e he]
  have hmem : ∀ e : Entry, e ∈ s.timers_.eraseBelow (toLex (now, UINTPTR_MAX)) ↔
      e ∈ s.timers_ ∧ now < e.first := by
    intro e
    rw [OrderedSet.mem_eraseBelow]
    refine and_congr_right fun he => ?_
    rw [← not_lt, hsentry e he, not_le]
  have hearly : ({ s with timers_ := s.timers_.eraseBelow (toLex (now, UINTPTR_MAX)) } :
      TimerQueue).Earliest now := fun e he => ((hmem e).mp he).2
  refine ⟨s.timers_.eraseBelow (toLex (now, UINTPTR_MAX)), ?_,
    ⟨fun e => ?_, fun e he => ?_, ?_, h.address⟩, hmem⟩
  · have hcheck := (earliest_iff (k := endKey UINTPTR_MAX)).mpr hearly
    simp only [getExpired, hbelow, check_of hcheck, ok_bind, pure_eq_ok]
  · rw [hmem, mem_expired, ← and_or_left, and_iff_left (lt_or_ge now e.first)]
    have hlive := h.live e
    simp only [List.not_mem_nil, or_false] at hlive
    exact hlive
  · rw [hmem]
    exact fun hc => absurd hc.2 (not_lt_of_ge (mem_expired.mp he).2)
  · exact s.timers_.nodup.filter _

/-- What becomes of a timer that ran. -/
def renewed (now : Int) (timer : Timer) : Option Timer :=
  if timer.repeated_ then some (timer.restart now) else none

/-- What the reset of an expired timer does. -/
structure Renewed (now : Int) (s : TimerQueue) (e : Entry) (s' : TimerQueue) : Prop where
  self : ∀ timer, s.heap e.second = some timer → s'.heap e.second = renewed now timer
  other : ∀ p, p ≠ e.second → s'.heap p = s.heap p
  seen : s'.seen = s.seen
  ran : s'.ran = s.ran
  armed : 0 < now → s.Armed (· ≤ 0) → s'.Armed (· ≤ 0)

theorem resetOne.spec {s : TimerQueue} {e : Entry} {out : List Entry} (endKey : Nat → Int)
    (now : Int) (h : s.Inv (e :: out)) :
    ∃ s', s.resetOne endKey now e = .ok s' ∧ s'.Inv out ∧ s.Renewed now e s' := by
  obtain ⟨timer, ht, he⟩ := (h.live e).mp (Or.inr List.mem_cons_self)
  obtain ⟨hnotin, hnodup⟩ := List.nodup_cons.mp h.nodup
  have hout : ∀ e' : Entry, e'.second = e.second → e' ∉ s.timers_ ∧ e' ∉ out := by
    intro e' hp
    have heq : ∀ hl : s.Live e', e' = e := fun hl => hl.unique ⟨timer, ht, he⟩ hp
    constructor
    · intro hin
      have hl := (h.live e').mp (Or.inl hin)
      exact h.apart e List.mem_cons_self (heq hl ▸ hin)
    · intro hin
      have hl := (h.live e').mp (Or.inr (List.mem_cons_of_mem _ hin))
      exact hnotin (heq hl ▸ hin)
  have hlive : ∀ e' : Entry, e'.second ≠ e.second →
      ((e' ∈ s.timers_ ∨ e' ∈ out) ↔ s.Live e') := by
    intro e' hp
    have hne : e' ≠ e := fun hc => hp (hc ▸ rfl)
    rw [← h.live e', List.mem_cons, or_iff_right hne]
  have hapart : ∀ e' ∈ out, e' ∉ s.timers_ := fun e' hin => h.apart e' (List.mem_cons_of_mem _ hin)
  unfold resetOne
  rw [deref, ht, demand_some, ok_bind]
  by_cases hrep : timer.repeated_ = true
  · -- a repeating timer comes back with its new time
    have hheap : Function.update s.heap e.second (some (timer.restart now)) e.second =
        some (timer.restart now) := Function.update_self _ _ _
    obtain ⟨b, timers, hins, _, hmem⟩ := insert.spec
      (s := { s with heap := Function.update s.heap e.second (some (timer.restart now)) })
      endKey hheap (hout ((timer.restart now).entry e.second) rfl).1
    refine ⟨{ s with
      heap := Function.update s.heap e.second (some (timer.restart now)),
      timers_ := timers }, ?_, ?_, ?_, ?_, rfl, rfl, ?_⟩
    · rw [if_pos hrep, hins, ok_bind]
      rfl
    · exact Inv.of_insert (s := s) hlive hout hapart hnodup h.address (h.address _ _ ht) rfl hmem
    · intro t ht'
      rw [ht] at ht'
      cases ht'
      simp [renewed, hrep]
    · exact fun p hp => Function.update_of_ne hp _ _
    · intro hnow harmed
      refine harmed.insert_other (x := (timer.restart now).entry e.second) hmem ?_ rfl
      simp only [Timer.entry_first, Timer.restart, if_pos hrep, addTime]
      omega
  · -- a one-shot timer is deleted
    refine ⟨{ s with heap := Function.update s.heap e.second none }, ?_,
      ⟨fun e' => ?_, hapart, hnodup, ?_⟩, ?_, ?_, rfl, rfl, fun _ harmed => harmed⟩
    · rw [if_neg hrep]
      rfl
    · by_cases hp : e'.second = e.second
      · obtain ⟨h1, h2⟩ := hout e' hp
        simp [Live, hp, h1, h2]
      · rw [hlive e' hp]
        simp only [Live, Function.update_of_ne hp]
    · intro q t hq
      by_cases hqp : q = e.second
      · simp [hqp] at hq
      · simp only [Function.update_of_ne hqp] at hq
        exact h.address q t hq
    · intro t ht'
      rw [ht] at ht'
      cases ht'
      simp [renewed, hrep]
    · exact fun p hp => Function.update_of_ne hp _ _

/-- What the resets of several expired timers do. -/
structure RenewedAll (now : Int) (s : TimerQueue) (es : List Entry) (s' : TimerQueue) : Prop where
  self : ∀ e ∈ es, ∀ timer, s.heap e.second = some timer → s'.heap e.second = renewed now timer
  other : ∀ p, (∀ e ∈ es, p ≠ e.second) → s'.heap p = s.heap p
  seen : s'.seen = s.seen
  ran : s'.ran = s.ran
  armed : 0 < now → s.Armed (· ≤ 0) → s'.Armed (· ≤ 0)

theorem resets.spec {s : TimerQueue} {es : List Entry} (endKey : Nat → Int) (now : Int)
    (h : s.Inv es) :
    ∃ s', es.foldlM (resetOne endKey now) s = .ok s' ∧ s'.Inv [] ∧ s.RenewedAll now es s' := by
  induction es generalizing s with
  | nil => exact ⟨s, rfl, h, by simp, fun _ _ => rfl, rfl, rfl, fun _ ha => ha⟩
  | cons e es ih =>
    obtain ⟨s₁, h1, hinv₁, hr⟩ := resetOne.spec endKey now h
    obtain ⟨s₂, h2, hinv₂, hrs⟩ := ih hinv₁
    have hne := h.head_apart
    refine ⟨s₂, by rw [List.foldlM_cons, h1, ok_bind, h2], hinv₂, ?_, ?_, ?_, ?_, ?_⟩
    · intro e' he' timer ht
      rcases List.mem_cons.mp he' with rfl | hin
      · rw [hrs.other _ fun e'' hin' => (hne e'' hin').symm]
        exact hr.self timer ht
      · refine hrs.self e' hin timer ?_
        rw [hr.other _ (hne e' hin)]
        exact ht
    · intro p hp
      rw [hrs.other p fun e' hin => hp e' (List.mem_cons_of_mem _ hin),
        hr.other p (hp e List.mem_cons_self)]
    · exact hrs.seen.trans hr.seen
    · exact hrs.ran.trans hr.ran
    · exact fun hnow ha => hrs.armed hnow (hr.armed hnow ha)

/-- Arming the timerfd leaves the timers. -/
theorem rearm_fields (s : TimerQueue) :
    s.rearm.heap = s.heap ∧ s.rearm.timers_ = s.timers_ ∧ s.rearm.seen = s.seen ∧
    s.rearm.ran = s.ran := by
  unfold rearm
  simp only
  split <;> exact ⟨rfl, rfl, rfl, rfl⟩

/-- After the resets, the timerfd is armed for the earliest time. -/
theorem rearm_armed {s : TimerQueue} (h : s.Armed (· ≤ 0)) : s.rearm.Armed fun _ => True := by
  unfold rearm beginKey
  intro e he _
  cases hb : s.timers_.begin with
  | none =>
    simp only [hb, gt_iff_lt, Int.lt_irrefl, if_false] at he
    cases he
  | some m =>
    simp only [hb] at he ⊢
    split at he
    · rename_i hpos
      rw [if_pos hpos]
      have heq : m = e := by simpa [resetTimerfd, hb] using he
      rw [heq]
      rfl
    · rename_i hpos
      rw [if_neg hpos]
      have heq : m = e := by simpa [hb] using he
      rw [← heq]
      exact h m hb (by omega)

/-! ## The spec of handleRead -/

/-- What one `handleRead` does: the timers up to `now` run, once and in
their order, and are renewed. The others stay, and the new ones join. -/
structure Fired (now : Int) (news : List (Nat × Timer)) (s s' : TimerQueue) : Prop where
  ran : ∃ rs, s'.ran = s.ran ++ rs ∧
    rs.map (fun r => r.2.entry r.1) = s.expired now ∧
    ∀ r ∈ rs, s.heap r.1 = some r.2
  due : ∀ p timer, s.heap p = some timer → timer.expiration_ ≤ now →
    s'.heap p = renewed now timer
  kept : ∀ p timer, s.heap p = some timer → now < timer.expiration_ → s'.heap p = some timer
  new : ∀ x ∈ news, s'.heap x.1 = some x.2
  free : ∀ p, s.heap p = none → p ∉ news.map Prod.fst → s'.heap p = none
  seen : s'.seen = s.seen ++ news.map fun x => x.2.sequence_

theorem handleRead.spec {s : TimerQueue} (endKey : Nat → Int) (now : Int)
    {adds : Nat → List (Nat × Timer)} (h : s.Inv [])
    (hnew : Allocated s.heap (added adds (s.expired now))) :
    ∃ s', s.handleRead endKey now adds = .ok s' ∧ s'.Inv [] ∧
      Fired now (added adds (s.expired now)) s s' ∧ (0 < now → s'.Armed fun _ => True) := by
  have hread : s.readTimerfd.Inv [] := h.congr rfl rfl
  obtain ⟨timers, hget, hinv₁, hmem⟩ := getExpired.spec endKey now hread
  have hlive : ∀ e ∈ s.expired now, s.Live e := by
    intro e he
    exact (h.live e).mp (Or.inl (mem_expired.mp he).1)
  obtain ⟨s₂, rs, hrun, hinv₂, ha, hran, hrs, hheap⟩ :=
    runs.spec endKey hinv₁ hlive hnew
  obtain ⟨s₃, hreset, hinv₃, hr⟩ := resets.spec endKey now hinv₂
  have hok : s.handleRead endKey now adds = .ok s₃.rearm := by
    have hget' : s.readTimerfd.getExpired endKey now =
        .ok (s.expired now, { s.readTimerfd with timers_ := timers }) := hget
    have hreset' : (s.expired now).foldlM (resetOne endKey now) s₂ = .ok s₃ := hreset
    simp only [handleRead, hget', ok_bind, hrun, reset, hreset', pure_eq_ok]
  obtain ⟨e1, e2, e3, e4⟩ := rearm_fields s₃
  -- a live timer keeps its place while the callbacks run
  have hstay : ∀ p timer, s.heap p = some timer → s₂.heap p = some timer := by
    intro p timer hp
    rw [ha.heap, installed_other]
    · exact hp
    · intro hin
      obtain ⟨x, hx, rfl⟩ := List.mem_map.mp hin
      rw [(hnew.free x hx).1] at hp
      cases hp
  have hfree : ∀ p, s.heap p = none → s₃.heap p = s₂.heap p := by
    intro p hp
    refine hr.other p fun e he hpe => ?_
    obtain ⟨timer, ht, _⟩ := hlive e he
    rw [← hpe, hp] at ht
    cases ht
  refine ⟨s₃.rearm, hok, hinv₃.congr e1 e2,
    ⟨⟨rs, ?_, hrs, hheap⟩, fun p timer hp hdue => ?_, fun p timer hp hlate => ?_,
      fun x hx => ?_, fun p hp hnot => ?_, ?_⟩, fun hnow => ?_⟩
  · rw [e4, hr.ran, hran]
    rfl
  · have hin : timer.entry p ∈ s.expired now := by
      have hmem' := (h.live_of_heap hp).resolve_right List.not_mem_nil
      exact mem_expired.mpr ⟨hmem', hdue⟩
    rw [e1]
    exact hr.self _ hin timer (hstay p timer hp)
  · rw [e1, hr.other p, hstay p timer hp]
    rintro e he rfl
    have heq : timer.entry e.second = e := Live.unique ⟨timer, hp, rfl⟩ (hlive e he) rfl
    have hle := (mem_expired.mp he).2
    rw [← heq, Timer.entry_first] at hle
    exact absurd hlate (not_lt_of_ge hle)
  · rw [e1, hfree _ (hnew.free x hx).1, ha.heap]
    exact installed_self hnew.nodup hx
  · rw [e1, hfree p hp, ha.heap, installed_other hnot]
    exact hp
  · rw [e3, hr.seen, ha.seen]
    rfl
  · refine rearm_armed (hr.armed hnow (ha.armed _ ?_))
    -- the entries that stay are later than `now`
    intro e he hle
    have hlate := ((hmem e).mp (OrderedSet.begin_eq_some.mp he).1).2
    omega

end TimerQueue

end jmuduo.net
