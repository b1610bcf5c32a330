-- The laws of the timers: the timerfd is armed for the earliest one, every
-- timer that is due runs once, and no timer is lost or runs after its end.
import Jmuduo.Runs
import Jmuduo.TimerQueue

open outcome sets runs

namespace jmuduo.net

namespace TimerQueue

/-! ## The runs -/

/-- A step of the loop. `endKey` is what a read through `end()` gives, and
`adds p` are the timers that the callback at `p` adds. -/
inductive Op
  | addTimerInLoop (endKey : Nat → Int) (new : Nat × Timer)
  | handleRead (endKey : Nat → Int) (now : Int) (adds : Nat → List (Nat × Timer))

def Op.run (s : TimerQueue) : Op → Outcome TimerQueue
  | .addTimerInLoop endKey new => s.addTimer endKey new
  | .handleRead endKey now adds => s.handleRead endKey now adds

/-- The timers that the step creates. -/
def Op.news (s : TimerQueue) : Op → List (Nat × Timer)
  | .addTimerInLoop _ new => [new]
  | .handleRead _ now adds => added adds (s.expired now)

/-- The counter of the timers gives no sequence twice. -/
structure Counted (seen : List Int) (news : List (Nat × Timer)) : Prop where
  fresh : ∀ x ∈ news, x.2.sequence_ ∉ seen
  nodup : (news.map fun x => x.2.sequence_).Nodup

instance (seen : List Int) (news : List (Nat × Timer)) : Decidable (Counted seen news) :=
  decidable_of_iff (_ ∧ _) ⟨fun h => ⟨h.1, h.2⟩, fun h => ⟨h.1, h.2⟩⟩

def machine : Machine TimerQueue Op where
  init s := s = construct
  step s op s' := op.run s = .ok s'

/-- The allocator makes the new timers. -/
def Op.Legal (s : TimerQueue) (op : Op) : Prop := Allocated s.heap (op.news s)

instance (s : TimerQueue) (op : Op) : Decidable (op.Legal s) :=
  inferInstanceAs (Decidable (Allocated _ _))

/-- The clock stands after the epoch. -/
def Op.AfterEpoch : Op → Prop
  | .addTimerInLoop _ _ => True
  | .handleRead _ now _ => 0 < now

instance : DecidablePred Op.AfterEpoch
  | .addTimerInLoop _ _ => inferInstanceAs (Decidable True)
  | .handleRead _ _ _ => inferInstanceAs (Decidable (_ < _))

theorem construct_inv : construct.Inv [] := by
  refine ⟨fun e => ?_, by simp, .nil, ?_⟩
  · simp [construct, Live]
  · simp [construct]

/-- Every legal step returns, and keeps the invariant. -/
theorem step_inv {s : TimerQueue} {op : Op} (h : s.Inv []) (hl : op.Legal s) :
    ∃ s', op.run s = .ok s' ∧ s'.Inv [] ∧
      (op.AfterEpoch → s.Armed (fun _ => True) → s'.Armed fun _ => True) := by
  cases op with
  | addTimerInLoop endKey new =>
    obtain ⟨hfree, hp⟩ := hl.free new (List.mem_singleton_self new)
    obtain ⟨s', hok, hinv, ha⟩ := addTimer.spec endKey h hfree hp
    exact ⟨s', hok, hinv, fun _ => ha.armed _⟩
  | handleRead endKey now adds =>
    obtain ⟨s', hok, hinv, _, ha⟩ := handleRead.spec endKey now h hl
    exact ⟨s', hok, hinv, fun hnow _ => ha hnow⟩

/-! ## The history of the timers -/

/-- Every sequence names one timer, and a one-shot timer that ran is gone. -/
structure History (s : TimerQueue) : Prop where
  live : ∀ p timer, s.heap p = some timer → timer.sequence_ ∈ s.seen
  distinct : ∀ p q t u, s.heap p = some t → s.heap q = some u → t.sequence_ = u.sequence_ → p = q
  ran : ∀ r ∈ s.ran, r.2.sequence_ ∈ s.seen
  once : ((s.ran.filter fun r => !r.2.repeated_).map fun r => r.2.sequence_).Nodup
  gone : ∀ r ∈ s.ran, r.2.repeated_ = false →
    ∀ p timer, s.heap p = some timer → timer.sequence_ ≠ r.2.sequence_

theorem renewed_some {now : Int} {timer timer' : Timer} (h : renewed now timer = some timer') :
    timer.repeated_ = true ∧ timer' = timer.restart now := by
  unfold renewed at h
  split at h
  · rename_i hrep
    cases h
    exact ⟨hrep, rfl⟩
  · cases h

theorem restart_sequence (now : Int) (timer : Timer) :
    (timer.restart now).sequence_ = timer.sequence_ := by
  unfold Timer.restart
  split <;> rfl

/-- A timer that lives behind the reset of one lived before it, with its number. -/
theorem Renewed.origin {now : Int} {s s' : TimerQueue} {e : Entry} {timer : Timer}
    (h : s.Renewed now e s') (ht : s.heap e.second = some timer) {p : Nat} {t : Timer}
    (hp : s'.heap p = some t) : ∃ t₀, s.heap p = some t₀ ∧ t₀.sequence_ = t.sequence_ ∧
      (p = e.second → timer.repeated_ = true) := by
  by_cases hpe : p = e.second
  · subst hpe
    rw [h.self timer ht] at hp
    obtain ⟨hrep, rfl⟩ := renewed_some hp
    exact ⟨timer, ht, (restart_sequence now timer).symm, fun _ => hrep⟩
  · rw [h.other p hpe] at hp
    exact ⟨t, hp, rfl, fun hc => absurd hc hpe⟩

/-- A timer stays with its number, or is the one of the reset and does not repeat. -/
theorem Renewed.stays {now : Int} {s s' : TimerQueue} {e : Entry} {timer : Timer}
    (h : s.Renewed now e s') (ht : s.heap e.second = some timer) {p : Nat} {t : Timer}
    (hp : s.heap p = some t) : (timer.repeated_ = false ∧ t = timer) ∨
      ∃ t', s'.heap p = some t' ∧ t'.sequence_ = t.sequence_ := by
  by_cases hpe : p = e.second
  · subst hpe
    rw [ht] at hp
    cases hp
    cases hrep : timer.repeated_ with
    | true =>
      refine Or.inr ⟨timer.restart now, ?_, restart_sequence now timer⟩
      rw [h.self timer ht, renewed, if_pos hrep]
    | false => exact Or.inl ⟨rfl, rfl⟩
  · refine Or.inr ⟨t, ?_, rfl⟩
    rw [h.other p hpe]
    exact hp

/-- A timer that lives after a `handleRead` was there before, with the same
sequence, or it is new. One that was due repeats. -/
theorem Fired.origin {now : Int} {news : List (Nat × Timer)} {s s' : TimerQueue}
    (h : Fired now news s s') {p : Nat} {timer : Timer} (hp : s'.heap p = some timer) :
    (∃ t, s.heap p = some t ∧ t.sequence_ = timer.sequence_ ∧
      (t.expiration_ ≤ now → t.repeated_ = true)) ∨ (p, timer) ∈ news := by
  cases hold : s.heap p with
  | none =>
    refine Or.inr ?_
    by_cases hin : p ∈ news.map Prod.fst
    · obtain ⟨x, hx, rfl⟩ := List.mem_map.mp hin
      rw [h.new x hx] at hp
      cases hp
      exact hx
    · rw [h.free p hold hin] at hp
      cases hp
  | some t =>
    refine Or.inl ⟨t, rfl, ?_⟩
    by_cases hdue : t.expiration_ ≤ now
    · rw [h.due p t hold hdue] at hp
      obtain ⟨hrep, rfl⟩ := renewed_some hp
      exact ⟨(restart_sequence now t).symm, fun _ => hrep⟩
    · rw [h.kept p t hold (by omega)] at hp
      cases hp
      exact ⟨rfl, fun hc => absurd hc hdue⟩

/-- A step keeps the history when it runs live timers, each once, and what
lives after it lived before, where a one-shot timer that ran does not, or is
new. -/
theorem History.step {s s' : TimerQueue} {news rs : List (Nat × Timer)} (h : s.History)
    (hc : Counted s.seen news) (hseen : s'.seen = s.seen ++ news.map fun x => x.2.sequence_)
    (hran : s'.ran = s.ran ++ rs) (hlive : ∀ r ∈ rs, s.heap r.1 = some r.2)
    (hnodup : (rs.map Prod.fst).Nodup)
    (horigin : ∀ p timer, s'.heap p = some timer →
      (∃ t, s.heap p = some t ∧ t.sequence_ = timer.sequence_ ∧
        ((p, t) ∈ rs → t.repeated_ = true)) ∨ (p, timer) ∈ news) : s'.History := by
  have hnew : ∀ x ∈ news, x.2.sequence_ ∈ s'.seen := by
    intro x hx
    rw [hseen]
    exact List.mem_append_right _ (List.mem_map_of_mem (f := fun x => x.2.sequence_) hx)
  have hold : ∀ q ∈ s.seen, q ∈ s'.seen := by
    intro q hq
    rw [hseen]
    exact List.mem_append_left _ hq
  refine ⟨fun p timer hp => ?_, fun p q t u hp hq htu => ?_, fun r hr => ?_, ?_,
    fun r hr hone p timer hp => ?_⟩
  · rcases horigin p timer hp with ⟨t, ht, heq, _⟩ | hin
    · rw [← heq]
      exact hold _ (h.live p t ht)
    · exact hnew _ hin
  · rcases horigin p t hp with ⟨t', ht, het, _⟩ | hin <;>
      rcases horigin q u hq with ⟨u', hu, heu, _⟩ | hin'
    · exact h.distinct p q t' u' ht hu (by rw [het, heu, htu])
    · have hseq := h.live p t' ht
      rw [het, htu] at hseq
      exact absurd hseq (hc.fresh _ hin')
    · have hseq := h.live q u' hu
      rw [heu, ← htu] at hseq
      exact absurd hseq (hc.fresh _ hin)
    · have hpair := List.inj_on_of_nodup_map hc.nodup hin hin' htu
      exact congrArg Prod.fst hpair
  · rw [hran] at hr
    rcases List.mem_append.mp hr with hin | hin
    · exact hold _ (h.ran r hin)
    · exact hold _ (h.live _ _ (hlive r hin))
  · rw [hran, List.filter_append, List.map_append, List.nodup_append]
    refine ⟨h.once, ?_, ?_⟩
    · -- timers at different addresses have different sequences
      have hsub : (rs.filter fun r => !r.2.repeated_).Nodup :=
        (List.Nodup.of_map _ hnodup).filter _
      refine (List.nodup_map_iff_inj_on hsub).mpr fun r hr r' hr' heq => ?_
      have hin := (List.mem_filter.mp hr).1
      have hin' := (List.mem_filter.mp hr').1
      have hp := h.distinct _ _ _ _ (hlive r hin) (hlive r' hin') heq
      exact List.inj_on_of_nodup_map hnodup hin hin' hp
    · intro q hq q' hq' heq
      obtain ⟨r, hr, rfl⟩ := List.mem_map.mp hq
      obtain ⟨r', hr', rfl⟩ := List.mem_map.mp hq'
      obtain ⟨hin, hone⟩ := List.mem_filter.mp hr
      have hin' := (List.mem_filter.mp hr').1
      exact h.gone r hin (by simpa using hone) _ _ (hlive r' hin') heq.symm
  · rw [hran] at hr
    rcases horigin p timer hp with ⟨t, ht, heq, hrep⟩ | hin
    · rw [← heq]
      rcases List.mem_append.mp hr with hr | hr
      · exact h.gone r hr hone p t ht
      · intro hsame
        have hpr := h.distinct p r.1 t r.2 ht (hlive r hr) hsame
        rw [hpr, hlive r hr] at ht
        cases ht
        rw [hrep (by rw [hpr]; exact hr)] at hone
        cases hone
    · intro hsame
      refine hc.fresh _ hin ?_
      rw [hsame]
      rcases List.mem_append.mp hr with hr | hr
      · exact h.ran r hr
      · exact h.live _ _ (hlive r hr)

/-- The timers that ran are those that were due, each once, in the order of
their times. -/
theorem Fired.runs {now : Int} {news : List (Nat × Timer)} {s s' : TimerQueue}
    (hf : Fired now news s s') (h : s.Inv []) :
    ∃ rs, s'.ran = s.ran ++ rs ∧ (rs.map Prod.fst).Nodup ∧
      (∀ p timer, (p, timer) ∈ rs ↔ s.heap p = some timer ∧ timer.expiration_ ≤ now) ∧
      rs.Pairwise fun r r' => r.2.expiration_ ≤ r'.2.expiration_ := by
  obtain ⟨rs, hran, hrs, hheap⟩ := hf.ran
  have hsorted : (rs.map fun r => r.2.entry r.1).Pairwise (· < ·) := by
    rw [hrs]
    exact s.timers_.sorted.filter _
  have hmem : ∀ p timer, (p, timer) ∈ rs ↔ s.heap p = some timer ∧ timer.expiration_ ≤ now := by
    intro p timer
    constructor
    · intro hin
      have hex : timer.entry p ∈ s.expired now := by
        rw [← hrs]
        exact List.mem_map_of_mem (f := fun r : Nat × Timer => r.2.entry r.1) hin
      exact ⟨hheap _ hin, (mem_expired.mp hex).2⟩
    · rintro ⟨hp, hdue⟩
      have hin := (h.live_of_heap hp).resolve_right List.not_mem_nil
      have hex : timer.entry p ∈ s.expired now := mem_expired.mpr ⟨hin, hdue⟩
      rw [← hrs] at hex
      obtain ⟨r, hr, he⟩ := List.mem_map.mp hex
      have hpr : r.1 = p := congrArg Entry.second he
      have hlive := hheap r hr
      rw [hpr, hp] at hlive
      cases hlive
      rw [← hpr]
      exact hr
  refine ⟨rs, hran, ?_, hmem, ?_⟩
  · refine (List.nodup_map_iff_inj_on (List.Nodup.of_map _ (hsorted.imp ne_of_lt))).mpr ?_
    intro r hr r' hr' heq
    have hlive := hheap r hr
    rw [heq, hheap r' hr'] at hlive
    exact Prod.ext heq (Option.some.inj hlive).symm
  · exact (List.pairwise_map.mp hsorted).imp fun hlt => Entry.first_le (le_of_lt hlt)

theorem step_history {s s' : TimerQueue} {op : Op} (h : s.Inv []) (hh : s.History)
    (hl : op.Legal s) (hc : Counted s.seen (op.news s)) (hok : op.run s = .ok s') :
    s'.History := by
  cases op with
  | addTimerInLoop endKey new =>
    obtain ⟨hfree, hp⟩ := hl.free new (List.mem_singleton_self new)
    obtain ⟨s₁, hok', _, ha⟩ := addTimer.spec endKey h hfree hp
    have heq : Op.run s (.addTimerInLoop endKey new) = .ok s₁ := hok'
    rw [hok] at heq
    cases heq
    have hran : s'.ran = s.ran ++ [] := by rw [ha.ran, List.append_nil]
    have hnone : ∀ r ∈ ([] : List (Nat × Timer)), s.heap r.1 = some r.2 := by simp
    refine hh.step hc ha.seen hran hnone .nil ?_
    intro p timer hp
    rw [ha.heap] at hp
    by_cases hpn : p = new.1
    · subst hpn
      rw [Function.update_self] at hp
      cases hp
      exact Or.inr (List.mem_singleton_self new)
    · rw [Function.update_of_ne hpn] at hp
      exact Or.inl ⟨timer, hp, rfl, by simp⟩
  | handleRead endKey now adds =>
    obtain ⟨s₁, hok', _, hf, _⟩ := handleRead.spec endKey now h hl
    have heq : Op.run s (.handleRead endKey now adds) = .ok s₁ := hok'
    rw [hok] at heq
    cases heq
    obtain ⟨rs, hran, hnodup, hmem, _⟩ := hf.runs h
    refine hh.step hc hf.seen hran (fun r hr => ((hmem r.1 r.2).mp hr).1) hnodup ?_
    intro p timer hp
    rcases hf.origin hp with ⟨t, ht, heq, hrep⟩ | hin
    · exact Or.inl ⟨t, ht, heq, fun hr => hrep ((hmem p t).mp hr).2⟩
    · exact Or.inr hin

/-! ## The laws -/

/-- The timer lives at the address, and its expiration is in the one entry
of the address. -/
def HasEntry (s : TimerQueue) (p : Nat) (timer : Timer) : Prop :=
  s.heap p = some timer ∧ ∀ e, e ∈ s.timers_ ∧ e.second = p ↔ e = timer.entry p

/-- No timer lives at the address, and no entry has it. -/
def Gone (s : TimerQueue) (p : Nat) : Prop :=
  s.heap p = none ∧ ∀ e, e ∈ s.timers_ → e.second ≠ p

theorem Inv.hasEntry {s : TimerQueue} (h : s.Inv []) {p : Nat} {timer : Timer}
    (hp : s.heap p = some timer) : s.HasEntry p timer := by
  refine ⟨hp, fun e => ⟨?_, ?_⟩⟩
  · rintro ⟨he, rfl⟩
    obtain ⟨t, ht, hte⟩ := h.entry_of_mem he
    rw [hp] at ht
    cases ht
    exact hte.symm
  · rintro rfl
    exact ⟨(h.live_of_heap hp).resolve_right List.not_mem_nil, rfl⟩

theorem Inv.gone {s : TimerQueue} (h : s.Inv []) {p : Nat} (hp : s.heap p = none) :
    s.Gone p := by
  refine ⟨hp, ?_⟩
  rintro e he rfl
  obtain ⟨t, ht, _⟩ := h.entry_of_mem he
  rw [hp] at ht
  cases ht

/-- The timers that run are those with an entry up to `now`, each once and
in the order of their times, and none of the new ones. A timer that repeats
comes back with its new time, a one-shot timer is gone, and the others stay. -/
structure FiresOnce (now : Int) (news : List (Nat × Timer)) (s s' : TimerQueue) : Prop where
  runs : ∃ rs, s'.ran = s.ran ++ rs ∧ (rs.map Prod.fst).Nodup ∧
    (∀ p timer, (p, timer) ∈ rs ↔
      s.HasEntry p timer ∧ timer.entry p ∈ s.timers_ ∧ timer.expiration_ ≤ now) ∧
    rs.Pairwise (fun r r' => r.2.expiration_ ≤ r'.2.expiration_) ∧
    ∀ x ∈ news, x.1 ∉ rs.map Prod.fst
  repeats : ∀ p timer, s.HasEntry p timer → timer.expiration_ ≤ now → timer.repeated_ = true →
    s'.HasEntry p { timer with expiration_ := addTime now timer.interval_ }
  oneShot : ∀ p timer, s.HasEntry p timer → timer.expiration_ ≤ now → timer.repeated_ = false →
    s'.Gone p
  untouched : ∀ p timer, s.HasEntry p timer → now < timer.expiration_ → s'.HasEntry p timer
  new : ∀ x ∈ news, s'.HasEntry x.1 x.2

theorem Fired.firesOnce {now : Int} {news : List (Nat × Timer)} {s s' : TimerQueue}
    (hf : Fired now news s s') (h : s.Inv []) (h' : s'.Inv []) (hnew : Allocated s.heap news) :
    FiresOnce now news s s' := by
  refine ⟨?_, fun p timer hp hdue hrep => ?_, fun p timer hp hdue hone => ?_,
    fun p timer hp hlate => h'.hasEntry (hf.kept p timer hp.1 hlate),
    fun x hx => h'.hasEntry (hf.new x hx)⟩
  · obtain ⟨rs, hran, hnodup, hmem, hsorted⟩ := hf.runs h
    refine ⟨rs, hran, hnodup, fun p timer => ?_, hsorted, fun x hx hin => ?_⟩
    · rw [hmem]
      constructor
      · rintro ⟨hp, hdue⟩
        have hentry := h.hasEntry hp
        exact ⟨hentry, ((hentry.2 _).mpr rfl).1, hdue⟩
      · rintro ⟨hp, _, hdue⟩
        exact ⟨hp.1, hdue⟩
    · obtain ⟨r, hr, heq⟩ := List.mem_map.mp hin
      have hlive := ((hmem r.1 r.2).mp hr).1
      rw [heq, (hnew.free x hx).1] at hlive
      cases hlive
  · have hp' := hf.due p timer hp.1 hdue
    rw [renewed, if_pos hrep, Timer.restart, if_pos hrep] at hp'
    exact h'.hasEntry hp'
  · have hp' := hf.due p timer hp.1 hdue
    rw [renewed, if_neg (by simp [hone])] at hp'
    exact h'.gone hp'

/-- The timerfd is armed for the smallest expiration. -/
theorem the_timerfd_is_armed_for_the_earliest_timer {s : TimerQueue}
    (h : (machine.restrict fun s op _ => op.Legal s ∧ op.AfterEpoch).Reachable s)
    (hne : ∃ e, e ∈ s.timers_) :
    ∃ t, s.armedFor = some t ∧ (∃ e, e ∈ s.timers_ ∧ e.first = t) ∧
      ∀ e, e ∈ s.timers_ → t ≤ e.first := by
  have hinv : s.Inv [] ∧ s.Armed fun _ => True := by
    refine h.invariant (P := fun s => s.Inv [] ∧ s.Armed fun _ => True) ?_ ?_
    · rintro s rfl
      refine ⟨construct_inv, fun e he => ?_⟩
      cases he
    · rintro s op s' ⟨hinv, harmed⟩ ⟨hok, hl, hnow⟩
      obtain ⟨s₁, hok', hinv', harmed'⟩ := step_inv hinv hl
      have hok₁ : op.run s = .ok s' := hok
      rw [hok'] at hok₁
      cases hok₁
      exact ⟨hinv', harmed' hnow harmed⟩
  cases hb : s.timers_.begin with
  | none =>
    obtain ⟨e, he⟩ := hne
    exact absurd he (OrderedSet.begin_eq_none.mp hb e)
  | some m =>
    obtain ⟨hm, hmin⟩ := OrderedSet.begin_eq_some.mp hb
    exact ⟨m.first, hinv.2 m hb trivial, ⟨m, hm, rfl⟩, fun e he => Entry.first_le (hmin e he)⟩

/-- A repeating timer adds one that is due before the epoch. -/
def earlyTimers : List Op :=
  [.addTimerInLoop (fun _ => 0) (1, ⟨5, true, 3, 1⟩),
    .addTimerInLoop (fun _ => 0) (2, ⟨5, false, 0, 2⟩),
    .handleRead (fun _ => 0) 6 fun p => if p = 1 then [(3, ⟨-4, false, 0, 3⟩)] else []]

theorem the_timerfd_is_armed_for_a_timer_before_the_epoch :
    ∃ s : TimerQueue, s.armedFor = some (-4) ∧ ∃ t, s.armedFor = some t ∧
      (∃ e, e ∈ s.timers_ ∧ e.first = t) ∧ ∀ e, e ∈ s.timers_ → t ≤ e.first := by
  obtain ⟨s, hok, hp⟩ := exists_of_passes
    (x := earlyTimers.foldlM (fun (s : TimerQueue) (op : Op) =>
      if op.Legal s ∧ op.AfterEpoch then op.run s else .error .badPointer) construct)
    (p := fun s => s.armedFor = some (-4) && !s.timers_.toList.isEmpty) (by decide +kernel)
  have hrun := Machine.Run.restrict_of_foldlM (M := machine)
    (R := fun s op => op.Legal s ∧ op.AfterEpoch) .badPointer (fun _ _ _ h => h) hok
  simp only [Bool.and_eq_true, decide_eq_true_eq, Bool.not_eq_true', List.isEmpty_eq_false_iff]
    at hp
  obtain ⟨e, he⟩ := List.exists_mem_of_ne_nil _ hp.2
  exact ⟨s, hp.1, the_timerfd_is_armed_for_the_earliest_timer ⟨construct, _, rfl, hrun⟩ ⟨e, he⟩⟩

/-- Every live timer has its one entry, a one-shot timer runs once at most
and does not live after that, and each `handleRead` returns and runs the
timers that are due. -/
theorem every_timer_is_kept_and_fires_once_when_due {s : TimerQueue}
    (h : (machine.restrict fun s op _ => op.Legal s ∧ Counted s.seen (op.news s)).Reachable s) :
    (∀ e, e ∈ s.timers_ → ∃ timer, s.HasEntry e.second timer ∧ e.first = timer.expiration_) ∧
    (∀ p timer, s.heap p = some timer → s.HasEntry p timer) ∧
    ((s.ran.filter fun r => !r.2.repeated_).map fun r => r.2.sequence_).Nodup ∧
    (∀ r ∈ s.ran, r.2.repeated_ = false →
      ∀ p timer, s.heap p = some timer → timer.sequence_ ≠ r.2.sequence_) ∧
    (∀ endKey new, (Op.addTimerInLoop endKey new).Legal s →
      ∃ s', s.addTimer endKey new = .ok s' ∧ s'.ran = s.ran ∧ s'.HasEntry new.1 new.2 ∧
        ∀ p timer, s.HasEntry p timer → s'.HasEntry p timer) ∧
    (∀ endKey now adds, (Op.handleRead endKey now adds).Legal s →
      ∃ s', s.handleRead endKey now adds = .ok s' ∧
        FiresOnce now (added adds (s.expired now)) s s') := by
  have hinv : s.Inv [] ∧ s.History := by
    refine h.invariant (P := fun s => s.Inv [] ∧ s.History) ?_ ?_
    · rintro s rfl
      exact ⟨construct_inv, by constructor <;> simp [construct]⟩
    · rintro s op s' ⟨hinv, hh⟩ ⟨hok, hl, hc⟩
      obtain ⟨s₁, hok', hinv', _⟩ := step_inv hinv hl
      have hok₁ : op.run s = .ok s' := hok
      rw [hok'] at hok₁
      cases hok₁
      exact ⟨hinv', step_history hinv hh hl hc hok⟩
  obtain ⟨hinv, hh⟩ := hinv
  refine ⟨fun e he => ?_, fun p timer hp => hinv.hasEntry hp, hh.once, hh.gone, ?_, ?_⟩
  · obtain ⟨timer, ht, hte⟩ := hinv.entry_of_mem he
    refine ⟨timer, hinv.hasEntry ht, ?_⟩
    rw [← hte]
    rfl
  · intro endKey new hl
    obtain ⟨hfree, hnew⟩ := hl.free new (List.mem_singleton_self new)
    obtain ⟨s', hok, hinv', ha⟩ := addTimer.spec endKey hinv hfree hnew
    refine ⟨s', hok, ha.ran, hinv'.hasEntry ?_, fun p timer hp => hinv'.hasEntry ?_⟩
    · rw [ha.heap, Function.update_self]
    · rw [ha.heap, Function.update_of_ne]
      · exact hp.1
      · rintro rfl
        rw [hp.1] at hfree
        cases hfree
  · intro endKey now adds hl
    obtain ⟨s', hok, hinv', hf, _⟩ := handleRead.spec endKey now hinv hl
    exact ⟨s', hok, hf.firesOnce hinv hinv' hl⟩

/-- Three timers run, and the two one-shot timers are gone then. -/
theorem three_timers_are_kept_and_fire_once_when_due :
    ∃ s : TimerQueue, s.ran.map Prod.fst = [1, 2, 3] ∧
      (∀ p timer, s.heap p = some timer → s.HasEntry p timer) ∧
      ∀ r ∈ s.ran, r.2.repeated_ = false →
        ∀ p timer, s.heap p = some timer → timer.sequence_ ≠ r.2.sequence_ := by
  obtain ⟨s, hok, hp⟩ := exists_of_passes
    (x := (earlyTimers ++ [Op.handleRead (fun _ => 0) 7 fun _ => []]).foldlM
      (fun (s : TimerQueue) (op : Op) =>
        if op.Legal s ∧ Counted s.seen (op.news s) then op.run s else .error .badPointer) construct)
    (p := fun s => s.ran.map Prod.fst = [1, 2, 3]) (by decide +kernel)
  have hrun := Machine.Run.restrict_of_foldlM (M := machine)
    (R := fun s op => op.Legal s ∧ Counted s.seen (op.news s)) .badPointer
    (fun _ _ _ h => h) hok
  obtain ⟨_, hlive, _, hgone, _⟩ :=
    every_timer_is_kept_and_fires_once_when_due ⟨construct, _, rfl, hrun⟩
  exact ⟨s, of_decide_eq_true hp, hlive, hgone⟩

end TimerQueue

end jmuduo.net
