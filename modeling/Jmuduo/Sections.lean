-- The critical sections of a monitor. Other threads can only call and wake up
-- while one has the mutex, so a whole section can be seen as one step: the
-- states in which the mutex is free are the states between sections.
import Jmuduo.Monitor
import Mathlib.Data.Set.Card

open outcome runs

namespace monitors

namespace Monitor

variable {τ κ γ δ ρ : Type} [DecidableEq τ] [DecidableEq γ]

/-! ## The sections -/

/-- How far a thread is in its section. -/
inductive Phase
  | locked
  | passed
  | ran
  | told
  deriving DecidableEq, Repr

/-- The thread `t` took the mutex in the state `s₀` and still has it. -/
inductive Inside (C : Code κ γ δ ρ) (t : τ) (s₀ : Monitor τ κ γ δ ρ) :
    Phase → Monitor τ κ γ δ ρ → Prop
  | lock {s : Monitor τ κ γ δ ρ} : Step C s₀ (.lock t) s → Inside C t s₀ .locked s
  | test {s s' : Monitor τ κ γ δ ρ} : Inside C t s₀ .locked s → Step C s (.test t) s' →
    s'.holder = some t → Inside C t s₀ .passed s'
  | body {s s' : Monitor τ κ γ δ ρ} : Inside C t s₀ .passed s → Step C s (.body t) s' →
    Inside C t s₀ .ran s'
  | notify {s s' : Monitor τ κ γ δ ρ} : Inside C t s₀ .ran s → Step C s (.notify t) s' →
    Inside C t s₀ .told s'

inductive Part (τ κ : Type)
  | call (t : τ) (k : κ)
  | turn (t : τ)
  | wake (t : τ)
  deriving DecidableEq, Repr

/-- A step between sections, or the section of a thread: it waits, or it runs
its call to the end. -/
inductive Turn (C : Code κ γ δ ρ) (s : Monitor τ κ γ δ ρ) :
    Part τ κ → Monitor τ κ γ δ ρ → Prop
  | call {t : τ} {k : κ} {s' : Monitor τ κ γ δ ρ} : Step C s (.call t k) s' →
    Turn C s (.call t k) s'
  | wake {t : τ} {s' : Monitor τ κ γ δ ρ} : Step C s (.wake t) s' → Turn C s (.wake t) s'
  | wait {t : τ} {s₁ s' : Monitor τ κ γ δ ρ} : Inside C t s .locked s₁ → Step C s₁ (.test t) s' →
    s'.holder = none → Turn C s (.turn t) s'
  | run {t : τ} {s₁ s' : Monitor τ κ γ δ ρ} : Inside C t s .told s₁ →
    Step C s₁ (.unlock t) s' → Turn C s (.turn t) s'

/-- The monitor with each section as one step. -/
def sections (C : Code κ γ δ ρ) (d : δ) : Machine (Monitor τ κ γ δ ρ) (Part τ κ) where
  init s := s = start d
  step := Turn C

variable {C : Code κ γ δ ρ} {s s' s₀ s₁ : Monitor τ κ γ δ ρ} {t u : τ} {d : δ}

/-! ## Notices -/

/-- What a notice does to the places of the threads other than `t`. -/
def Told (t : τ) (p p' : τ → Place κ γ ρ) : Notice γ → Prop
  | .none => ∀ u, u ≠ t → p' u = p u
  | .one c =>
    (∃ v j, v ≠ t ∧ p v = .waiting j c ∧ p' v = .notified j ∧
      ∀ u, u ≠ t → u ≠ v → p' u = p u) ∨
    ((∀ u, u ≠ t → ∀ j, p u ≠ .waiting j c) ∧ ∀ u, u ≠ t → p' u = p u)
  | .all c => ∀ u, u ≠ t → p' u = (p u).wakeAll c

omit [DecidableEq γ] in
@[simp] theorem go_self (s : Monitor τ κ γ δ ρ) (p : Place κ γ ρ) : (s.go t p).place t = p :=
  Function.update_self ..

omit [DecidableEq γ] in
theorem go_other (s : Monitor τ κ γ δ ρ) {p : Place κ γ ρ} (h : u ≠ t) :
    (s.go t p).place u = s.place u :=
  Function.update_of_ne h ..

omit [DecidableEq γ] in
theorem go_comm (s : Monitor τ κ γ δ ρ) {p q : Place κ γ ρ} (h : u ≠ t) :
    (s.go u p).go t q = (s.go t q).go u p := by
  unfold go
  rw [Function.update_comm h.symm]

omit [DecidableEq τ] in
theorem Told.congr {p q p' q' : τ → Place κ γ ρ} {n : Notice γ} (h : Told t p p' n)
    (hp : ∀ u, u ≠ t → p u = q u) (hp' : ∀ u, u ≠ t → p' u = q' u) : Told t q q' n := by
  cases n with
  | none =>
    intro u hu
    rw [← hp' u hu, h u hu, hp u hu]
  | one c =>
    rcases h with ⟨v, j, hv, hw, hn, hothers⟩ | ⟨hnone, hsame⟩
    · refine Or.inl ⟨v, j, hv, (hp v hv).symm.trans hw, (hp' v hv).symm.trans hn, ?_⟩
      intro u hu huv
      rw [← hp' u hu, hothers u hu huv, hp u hu]
    · refine Or.inr ⟨fun u hu j => ?_, fun u hu => ?_⟩
      · rw [← hp u hu]
        exact hnone u hu j
      · rw [← hp' u hu, hsame u hu, hp u hu]
  | all c =>
    intro u hu
    rw [← hp' u hu, h u hu, hp u hu]

/-! ## The steps of a section -/

theorem Step.lock_spec (h : Step C s (.lock t) s') :
    ∃ k, (s.place t = .locking k ∨ s.place t = .notified k) ∧ s.holder = none ∧
      s' = { s.go t (.testing k) with holder := some t } := by
  cases h with
  | lock ht hfree => exact ⟨_, ht, hfree, rfl⟩

theorem Step.test_spec (h : Step C s (.test t) s') :
    ∃ k, s.place t = .testing k ∧
      ((∃ c, C.waitsFor k s.data = some c ∧ s' = { s.go t (.waiting k c) with holder := none }) ∨
        (C.waitsFor k s.data = none ∧ s' = s.go t (.acting k))) := by
  cases h with
  | wait ht hc => exact ⟨_, ht, Or.inl ⟨_, hc, rfl⟩⟩
  | pass ht hc => exact ⟨_, ht, Or.inr ⟨hc, rfl⟩⟩

theorem Step.body_spec (h : Step C s (.body t) s') :
    ∃ k d r, s.place t = .acting k ∧ C.body k s.data = .ok (d, r) ∧
      s' = { s.go t (.notifying k r) with data := d } := by
  cases h with
  | body ht hb => exact ⟨_, _, _, ht, hb, rfl⟩

theorem Step.notify_spec (h : Step C s (.notify t) s') :
    ∃ k r, s.place t = .notifying k r ∧ s'.data = s.data ∧ s'.holder = s.holder ∧
      s'.place t = .leaving r ∧ Told t s.place s'.place (C.notice k s.data) := by
  cases h with
  | @notifyNone t k r ht hn =>
    refine ⟨k, r, ht, rfl, rfl, go_self .., ?_⟩
    rw [hn]
    exact fun u hu => go_other s hu
  | @notifyOne t v k j r c ht hn hv =>
    have hne : v ≠ t := by
      rintro rfl
      rw [ht] at hv
      cases hv
    refine ⟨k, r, ht, rfl, rfl, go_self .., ?_⟩
    rw [hn]
    refine Or.inl ⟨v, j, hne, hv, ?_, fun u hu huv => ?_⟩
    · rw [go_other _ hne, go_self]
    · rw [go_other _ hu, go_other _ huv]
  | @notifyNobody t k r c ht hn hnone =>
    refine ⟨k, r, ht, rfl, rfl, go_self .., ?_⟩
    rw [hn]
    exact Or.inr ⟨fun u _ j => hnone u j, fun u hu => go_other s hu⟩
  | @notifyAll t k r c ht hn =>
    refine ⟨k, r, ht, rfl, rfl, go_self .., ?_⟩
    rw [hn]
    exact fun u hu => go_other _ hu

theorem Step.unlock_spec (h : Step C s (.unlock t) s') :
    ∃ r, s.place t = .leaving r ∧ s' = { s.go t .outside with holder := none } := by
  cases h with
  | unlock ht => exact ⟨_, ht, rfl⟩

/-- What holds of a thread `t` in its section, with the call `k`. -/
def Inside.At (C : Code κ γ δ ρ) (t : τ) (k : κ) (s₀ s : Monitor τ κ γ δ ρ) : Phase → Prop
  | .locked => s.data = s₀.data ∧ s.place t = .testing k ∧ ∀ u, u ≠ t → s.place u = s₀.place u
  | .passed => s.data = s₀.data ∧ C.waitsFor k s₀.data = none ∧ s.place t = .acting k ∧
    ∀ u, u ≠ t → s.place u = s₀.place u
  | .ran => C.waitsFor k s₀.data = none ∧ ∃ r, C.body k s₀.data = .ok (s.data, r) ∧
    s.place t = .notifying k r ∧ ∀ u, u ≠ t → s.place u = s₀.place u
  | .told => C.waitsFor k s₀.data = none ∧ ∃ r, C.body k s₀.data = .ok (s.data, r) ∧
    s.place t = .leaving r ∧ Told t s₀.place s.place (C.notice k s.data)

theorem Inside.spec {phase : Phase} (h : Inside C t s₀ phase s) :
    ∃ k, (s₀.place t = .locking k ∨ s₀.place t = .notified k) ∧ s₀.holder = none ∧
      s.holder = some t ∧ Inside.At C t k s₀ s phase := by
  induction h with
  | lock hs =>
    obtain ⟨k, ht, hfree, rfl⟩ := hs.lock_spec
    exact ⟨k, ht, hfree, rfl, rfl, go_self .., fun u hu => go_other _ hu⟩
  | test _ hs hheld ih =>
    obtain ⟨k, ht, hfree, _, hdata, hplace, hothers⟩ := ih
    obtain ⟨j, hj, ⟨c, _, rfl⟩ | ⟨hpass, rfl⟩⟩ := hs.test_spec
    · cases hheld
    · rw [hplace] at hj
      cases hj
      rw [hdata] at hpass
      exact ⟨k, ht, hfree, hheld, hdata, hpass, go_self .., fun u hu =>
        (go_other _ hu).trans (hothers u hu)⟩
  | body _ hs ih =>
    obtain ⟨k, ht, hfree, hheld, hdata, hpass, hplace, hothers⟩ := ih
    obtain ⟨j, d, r, hj, hb, rfl⟩ := hs.body_spec
    rw [hplace] at hj
    cases hj
    rw [hdata] at hb
    exact ⟨k, ht, hfree, hheld, hpass, r, hb, go_self .., fun u hu =>
      (go_other _ hu).trans (hothers u hu)⟩
  | notify _ hs ih =>
    obtain ⟨k, ht, hfree, hheld, hpass, r, hb, hplace, hothers⟩ := ih
    obtain ⟨j, r', hj, hdata, hholder, hleave, htold⟩ := hs.notify_spec
    rw [hplace] at hj
    cases hj
    rw [← hdata] at hb htold
    exact ⟨k, ht, hfree, hholder.trans hheld, hpass, r, hb, hleave,
      htold.congr hothers fun _ _ => rfl⟩

/-! ## Where a section leads -/

/-- A thread waits, and nothing else changes. -/
structure Blocks (C : Code κ γ δ ρ) (t : τ) (k : κ) (s s' : Monitor τ κ γ δ ρ) : Prop where
  data : s'.data = s.data
  others : ∀ u, u ≠ t → s'.place u = s.place u
  waits : ∃ c, C.waitsFor k s.data = some c ∧ s'.place t = .waiting k c

/-- A thread runs its call to the end. -/
structure Finishes (C : Code κ γ δ ρ) (t : τ) (k : κ) (s s' : Monitor τ κ γ δ ρ) : Prop where
  passes : C.waitsFor k s.data = none
  body : ∃ r, C.body k s.data = .ok (s'.data, r)
  out : s'.place t = .outside
  told : Told t s.place s'.place (C.notice k s'.data)

/-- All that a section can do. -/
theorem Turn.turn_cases (h : Turn C s (.turn t) s') :
    s'.holder = none ∧ ∃ k, (s.place t = .locking k ∨ s.place t = .notified k) ∧
      (Blocks C t k s s' ∨ Finishes C t k s s') := by
  cases h with
  | wait hin hs hfree =>
    obtain ⟨k, ht, _, hheld, hdata, hplace, hothers⟩ := hin.spec
    obtain ⟨j, hj, ⟨c, hc, rfl⟩ | ⟨_, rfl⟩⟩ := hs.test_spec
    · rw [hplace] at hj
      cases hj
      rw [hdata] at hc
      exact ⟨hfree, k, ht, Or.inl ⟨hdata, fun u hu => (go_other _ hu).trans (hothers u hu), c, hc,
        go_self ..⟩⟩
    · have hnone : none = some t := hfree.symm.trans hheld
      cases hnone
  | run hin hs =>
    obtain ⟨k, ht, _, _, hpass, r, hb, hplace, htold⟩ := hin.spec
    obtain ⟨r', _, rfl⟩ := hs.unlock_spec
    exact ⟨rfl, k, ht, Or.inr ⟨hpass, ⟨r, hb⟩, go_self .., htold.congr (fun _ _ => rfl)
      fun u hu => (go_other _ hu).symm⟩⟩

/-! ## The sections are enough -/

/-- The thread that a step is about. -/
def Act.thread : Act τ κ → τ
  | .call t _ | .lock t | .test t | .body t | .notify t | .wake t | .unlock t => t

omit [DecidableEq τ] in
theorem wakeAll_of_not_waiting {p : Place κ γ ρ} (h : ∀ j c, p ≠ .waiting j c) (c : γ) :
    p.wakeAll c = p := by
  cases p with
  | waiting j c' => exact absurd rfl (h j c')
  | _ => rfl

/-- A step notifies another thread, or leaves it where it is. -/
theorem Step.other {a : Act τ κ} (h : Step C s a s') (hu : u ≠ a.thread) :
    s'.place u = s.place u ∨ ∃ j, s'.place u = .notified j := by
  cases h with
  | @notifyOne t v k j r c ht hn hv =>
    change u ≠ t at hu
    by_cases huv : u = v
    · subst huv
      exact Or.inr ⟨j, by rw [go_other _ hu, go_self]⟩
    · exact Or.inl (by rw [go_other _ hu, go_other _ huv])
  | @notifyAll t k r c ht hn =>
    change u ≠ t at hu
    rw [go_other _ hu]
    simp only
    cases hp : s.place u with
    | waiting j c' =>
      by_cases hc : c' = c
      · exact Or.inr ⟨j, by simp [Place.wakeAll, hc]⟩
      · exact Or.inl (by simp [Place.wakeAll, hc])
    | _ => exact Or.inl rfl
  | _ => exact Or.inl (go_other _ hu)

/-- A thread that moves off the conditions can move before the step of
another one that has not notified it. -/
theorem Step.early {a : Act τ κ} (h : Step C s a s') (hu : u ≠ a.thread)
    (hsame : s'.place u = s.place u) {p : Place κ γ ρ} (hp : ∀ j c, p ≠ .waiting j c) :
    Step C (s.go u p) a (s'.go u p) := by
  cases h with
  | @call t k ht =>
    change u ≠ t at hu
    rw [← go_comm s hu]
    exact .call (by rw [go_other _ hu.symm]; exact ht)
  | @lock t k ht hfree =>
    change u ≠ t at hu
    have hstep : Step C (s.go u p) (.lock t) { (s.go u p).go t (.testing k) with
        holder := some t } := .lock (by rw [go_other _ hu.symm]; exact ht) hfree
    rw [go_comm s hu] at hstep
    exact hstep
  | @wait t k c ht hc =>
    change u ≠ t at hu
    have hstep : Step C (s.go u p) (.test t) { (s.go u p).go t (.waiting k c) with
        holder := none } := .wait (by rw [go_other _ hu.symm]; exact ht) hc
    rw [go_comm s hu] at hstep
    exact hstep
  | @pass t k ht hc =>
    change u ≠ t at hu
    rw [← go_comm s hu]
    exact .pass (by rw [go_other _ hu.symm]; exact ht) hc
  | @body t k d r ht hb =>
    change u ≠ t at hu
    have hstep : Step C (s.go u p) (.body t) { (s.go u p).go t (.notifying k r) with
        data := d } := .body (by rw [go_other _ hu.symm]; exact ht) hb
    rw [go_comm s hu] at hstep
    exact hstep
  | @notifyNone t k r ht hn =>
    change u ≠ t at hu
    rw [← go_comm s hu]
    exact .notifyNone (by rw [go_other _ hu.symm]; exact ht) hn
  | @notifyOne t v k j r c ht hn hv =>
    change u ≠ t at hu
    have huv : u ≠ v := by
      rintro rfl
      rw [go_other _ hu, go_self, hv] at hsame
      cases hsame
    rw [← go_comm _ hu, ← go_comm s huv]
    exact .notifyOne (by rw [go_other _ hu.symm]; exact ht) hn
      (by rw [go_other _ huv.symm]; exact hv)
  | @notifyNobody t k r c ht hn hnone =>
    change u ≠ t at hu
    rw [← go_comm s hu]
    refine .notifyNobody (by rw [go_other _ hu.symm]; exact ht) hn ?_
    intro v j hv
    by_cases huv : v = u
    · subst huv
      rw [go_self] at hv
      exact hp j c hv
    · rw [go_other _ huv] at hv
      exact hnone v j hv
  | @notifyAll t k r c ht hn =>
    change u ≠ t at hu
    have hstep : Step C (s.go u p) (.notify t)
        ({ s.go u p with place := fun v => ((s.go u p).place v).wakeAll c }.go t (.leaving r)) :=
      .notifyAll (by rw [go_other _ hu.symm]; exact ht) hn
    have hwoken : ({ s.go u p with place := fun v => ((s.go u p).place v).wakeAll c } :
        Monitor τ κ γ δ ρ) = ({ s with place := fun v => (s.place v).wakeAll c } :
        Monitor τ κ γ δ ρ).go u p := by
      unfold go
      simp only [mk.injEq, true_and]
      funext v
      by_cases huv : v = u
      · subst huv
        rw [Function.update_self, Function.update_self, wakeAll_of_not_waiting hp]
      · rw [Function.update_of_ne huv, Function.update_of_ne huv]
    rw [hwoken, go_comm _ hu] at hstep
    exact hstep
  | @wake t k c ht =>
    change u ≠ t at hu
    rw [← go_comm s hu]
    exact .wake (by rw [go_other _ hu.symm]; exact ht)
  | @unlock t r ht =>
    change u ≠ t at hu
    have hstep : Step C (s.go u p) (.unlock t) { (s.go u p).go t .outside with
        holder := none } := .unlock (by rw [go_other _ hu.symm]; exact ht)
    rw [go_comm s hu] at hstep
    exact hstep

/-- A thread that no notice has reached stands where it stood before the
section, and could have moved then. -/
theorem Inside.early {phase : Phase} (h : Inside C t s₀ phase s) (hu : u ≠ t)
    (hfree : ∀ j, s.place u ≠ .notified j) {p : Place κ γ ρ} (hp : ∀ j c, p ≠ .waiting j c) :
    s₀.place u = s.place u ∧ Inside C t (s₀.go u p) phase (s.go u p) := by
  have hstay : ∀ {s₁ s : Monitor τ κ γ δ ρ} {a : Act τ κ}, Step C s₁ a s → a.thread = t →
      (∀ j, s.place u ≠ .notified j) → s.place u = s₁.place u := by
    rintro s₁ s a hs rfl hfree
    rcases hs.other hu with e | ⟨j, e⟩
    · exact e
    · exact absurd e (hfree j)
  induction h with
  | lock hs =>
    have e := hstay hs rfl hfree
    exact ⟨e.symm, .lock (hs.early hu e hp)⟩
  | test _ hs hheld ih =>
    have e := hstay hs rfl hfree
    obtain ⟨e', hin⟩ := ih (by rw [← e]; exact hfree)
    exact ⟨e'.trans e.symm, .test hin (hs.early hu e hp) hheld⟩
  | body _ hs ih =>
    have e := hstay hs rfl hfree
    obtain ⟨e', hin⟩ := ih (by rw [← e]; exact hfree)
    exact ⟨e'.trans e.symm, .body hin (hs.early hu e hp)⟩
  | notify _ hs ih =>
    have e := hstay hs rfl hfree
    obtain ⟨e', hin⟩ := ih (by rw [← e]; exact hfree)
    exact ⟨e'.trans e.symm, .notify hin (hs.early hu e hp)⟩

theorem Inside.reachable {phase : Phase} (h : Inside C t s₀ phase s)
    (h₀ : (machine C d).Reachable s₀) : (machine C d).Reachable s := by
  induction h with
  | lock hs => exact h₀.next hs
  | test _ hs _ ih => exact ih.next hs
  | body _ hs ih => exact ih.next hs
  | notify _ hs ih => exact ih.next hs

/-- Between two sections the mutex is free, and every such state is one of
the monitor. -/
theorem sections_reachable (h : (sections C d).Reachable s) :
    (machine C d).Reachable s ∧ s.holder = none := by
  apply h.invariant
  · rintro s rfl
    exact ⟨.start rfl, rfl⟩
  · rintro s a s' ⟨hr, hfree⟩ hst
    cases hst with
    | call hs =>
      refine ⟨hr.next hs, ?_⟩
      cases hs
      exact hfree
    | wake hs =>
      refine ⟨hr.next hs, ?_⟩
      cases hs
      exact hfree
    | wait hin hs hnone => exact ⟨(hin.reachable hr).next hs, hnone⟩
    | run hin hs =>
      refine ⟨(hin.reachable hr).next hs, ?_⟩
      obtain ⟨r, _, rfl⟩ := hs.unlock_spec
      rfl

/-- The state is one between sections, or in the section of a thread that
began in such a state. -/
def Covered (C : Code κ γ δ ρ) (d : δ) (s : Monitor τ κ γ δ ρ) : Prop :=
  ∃ s₀, (sections C d).Reachable s₀ ∧ (s = s₀ ∨ ∃ t phase, Inside C t s₀ phase s)

/-- How far a thread at the place is in its section. -/
def Place.phase : Place κ γ ρ → Option Phase
  | .testing _ => some .locked
  | .acting _ => some .passed
  | .notifying _ _ => some .ran
  | .leaving _ => some .told
  | .outside | .locking _ | .waiting _ _ | .notified _ => none

/-- How far a thread is in its section when it takes the step. -/
def Act.phase : Act τ κ → Option Phase
  | .test _ => some .locked
  | .body _ => some .passed
  | .notify _ => some .ran
  | .unlock _ => some .told
  | .call _ _ | .lock _ | .wake _ => none

theorem Step.phase {a : Act τ κ} (h : Step C s a s') :
    Place.phase (s.place a.thread) = a.phase := by
  cases h with
  | lock ht _ => rcases ht with ht | ht <;> exact congrArg Place.phase ht
  | call ht | wait ht _ | pass ht _ | body ht _ | notifyNone ht _ | notifyOne ht _ _
  | notifyNobody ht _ _ | notifyAll ht _ | wake ht | unlock ht => exact congrArg Place.phase ht

theorem Inside.phase {phase : Phase} (h : Inside C t s₀ phase s) :
    Place.phase (s.place t) = some phase := by
  obtain ⟨k, _, _, _, hat⟩ := h.spec
  cases phase with
  | locked => exact congrArg Place.phase hat.2.1
  | passed => exact congrArg Place.phase hat.2.2.1
  | ran | told =>
    obtain ⟨_, r, _, hplace, _⟩ := hat
    exact congrArg Place.phase hplace

/-- The thread in its section goes on. -/
theorem Inside.next {phase : Phase} {a : Act τ κ} (h : Inside C t s₀ phase s)
    (h₀ : (sections C d).Reachable s₀) (hs : Step C s a s') (ha : a.thread = t) :
    Covered C d s' := by
  have hphase : a.phase = some phase := by
    rw [← hs.phase, ha]
    exact h.phase
  cases a with
  | call | lock | wake => cases hphase
  | test u =>
    cases hphase
    change u = t at ha
    subst ha
    obtain ⟨k, _, _, hheld, _⟩ := h.spec
    obtain ⟨j, _, ⟨c, _, e⟩ | ⟨_, e⟩⟩ := hs.test_spec
    · exact ⟨s', h₀.next (.wait h hs (by rw [e])), Or.inl rfl⟩
    · exact ⟨s₀, h₀, Or.inr ⟨u, _, h.test hs (by rw [e]; exact hheld)⟩⟩
  | body u =>
    cases hphase
    change u = t at ha
    subst ha
    exact ⟨s₀, h₀, Or.inr ⟨u, _, h.body hs⟩⟩
  | notify u =>
    cases hphase
    change u = t at ha
    subst ha
    exact ⟨s₀, h₀, Or.inr ⟨u, _, h.notify hs⟩⟩
  | unlock u =>
    cases hphase
    change u = t at ha
    subst ha
    exact ⟨s', h₀.next (.run h hs), Or.inl rfl⟩

/-- Another thread calls or wakes up, as it could have done before the
section. -/
theorem Inside.stir {phase : Phase} {a : Act τ κ} (h : Inside C t s₀ phase s)
    (h₀ : (sections C d).Reachable s₀) (hs : Step C s a s') (ha : a.thread ≠ t) :
    Covered C d s' := by
  obtain ⟨_, _, _, hheld, _⟩ := h.spec
  have hreach := sections_reachable h₀
  have hinv := reachable_inv (h.reachable hreach.1)
  have hnone : a.phase = none := by
    rw [← hs.phase]
    by_contra hsome
    -- only the thread in the section has the mutex
    have hholds : (s.place a.thread).Holds := by
      cases hp : s.place a.thread <;> rw [hp] at hsome <;> trivial
    have hown := (hinv.holder _).mp hholds
    rw [hheld] at hown
    exact ha (Option.some.inj hown).symm
  cases hs with
  | @call u k hu =>
    have hfree : ∀ j, s.place u ≠ .notified j := by
      intro j hj
      rw [hu] at hj
      cases hj
    obtain ⟨e, hin⟩ := h.early (u := u) ha hfree (p := .locking k) (by simp)
    exact ⟨_, h₀.next (.call (.call (e.trans hu))), Or.inr ⟨t, _, hin⟩⟩
  | @wake u k c hu =>
    have hfree : ∀ j, s.place u ≠ .notified j := by
      intro j hj
      rw [hu] at hj
      cases hj
    obtain ⟨e, hin⟩ := h.early (u := u) ha hfree (p := .notified k) (by simp)
    exact ⟨_, h₀.next (.wake (.wake (e.trans hu))), Or.inr ⟨t, _, hin⟩⟩
  | lock _ hfree =>
    rw [hheld] at hfree
    cases hfree
  | wait | pass | body | notifyNone | notifyOne | notifyNobody | notifyAll | unlock =>
    cases hnone

/-- Every state of the monitor is between sections, or in one. -/
theorem reachable_covered (h : (machine C d).Reachable s) : Covered C d s := by
  apply h.invariant
  · rintro s rfl
    exact ⟨_, .start rfl, Or.inl rfl⟩
  · rintro s a s' ⟨s₀, h₀, hs | ⟨t, phase, hin⟩⟩ hst
    · subst hs
      obtain ⟨hr, hfree⟩ := sections_reachable h₀
      have hout : a.phase = none := by
        rw [← hst.phase]
        have hnot : ¬ (s.place a.thread).Holds := by
          rw [(reachable_inv hr).holder, hfree]
          simp
        cases hp : s.place a.thread <;> rw [hp] at hnot <;>
          first | rfl | exact absurd trivial hnot
      cases hst with
      | call hu => exact ⟨_, h₀.next (.call (.call hu)), Or.inl rfl⟩
      | wake hu => exact ⟨_, h₀.next (.wake (.wake hu)), Or.inl rfl⟩
      | @lock t k ht hf => exact ⟨s, h₀, Or.inr ⟨t, _, .lock (.lock ht hf)⟩⟩
      | wait | pass | body | notifyNone | notifyOne | notifyNobody | notifyAll | unlock =>
        cases hout
    · by_cases ha : a.thread = t
      · exact hin.next h₀ hst ha
      · exact hin.stir h₀ hst ha

/-- The states between sections are the states of the monitor in which no
thread has the mutex. -/
theorem sections_reachable_iff :
    (sections C d).Reachable s ↔ (machine C d).Reachable s ∧ s.holder = none := by
  constructor
  · exact sections_reachable
  · rintro ⟨h, hfree⟩
    obtain ⟨s₀, h₀, rfl | ⟨t, phase, hin⟩⟩ := reachable_covered h
    · exact h₀
    · obtain ⟨_, _, _, hheld, _⟩ := hin.spec
      rw [hheld] at hfree
      cases hfree

/-! ## The rules of the waiting threads -/

/-- The threads that were notified of `c` and have yet to take the mutex. The
call `k` waits on `on k`. -/
def notified (on : κ → Option γ) (c : γ) (s : Monitor τ κ γ δ ρ) : Set τ :=
  {t | ∃ k, s.place t = .notified k ∧ on k = some c}

/-- A thread that waits between two sections waited before, or is the one
whose section it was. -/
theorem Finishes.waiting {k j : κ} {c : γ} (h : Finishes C t k s s')
    (hu : s'.place u = .waiting j c) :
    u ≠ t ∧ s.place u = .waiting j c ∧ C.notice k s'.data ≠ .all c := by
  have hut : u ≠ t := by
    rintro rfl
    rw [h.out] at hu
    cases hu
  have htold := h.told
  refine ⟨hut, ?_⟩
  cases hn : C.notice k s'.data with
  | none =>
    rw [hn] at htold
    exact ⟨(htold u hut).symm.trans hu, by simp⟩
  | one c' =>
    rw [hn] at htold
    refine ⟨?_, by simp⟩
    rcases htold with ⟨v, i, _, _, hv', hothers⟩ | ⟨_, hsame⟩
    · by_cases huv : u = v
      · subst huv
        rw [hv'] at hu
        cases hu
      · exact (hothers u hut huv).symm.trans hu
    · exact (hsame u hut).symm.trans hu
  | all c' =>
    rw [hn] at htold
    have hall := (htold u hut).symm.trans hu
    cases hp : s.place u with
    | waiting i c'' =>
      rw [hp] at hall
      simp only [Place.wakeAll] at hall
      split at hall
      · cases hall
      · rename_i hne
        cases hall
        refine ⟨rfl, ?_⟩
        intro e
        cases e
        exact hne rfl
    | _ =>
      rw [hp] at hall
      cases hall

/-- The rule of broadcasts: where a body that ends a reason to wait notifies
all that wait for it, the threads that wait still have their reason. -/
theorem waiting_has_reason {P : δ → Prop} (h : (sections C d).Reachable s) (hd : P d)
    (hbody : ∀ k d d' r, P d → C.waitsFor k d = none → C.body k d = .ok (d', r) → P d' ∧
      ∀ j c, C.waitsFor j d = some c → C.waitsFor j d' = some c ∨ C.notice k d' = .all c) :
    P s.data ∧ ∀ u j c, s.place u = .waiting j c → C.waitsFor j s.data = some c := by
  apply h.invariant
  · rintro s rfl
    refine ⟨hd, fun u j c hu => ?_⟩
    cases hu
  · rintro s a s' ⟨hp, hwait⟩ hst
    cases a with
    | call t k =>
      cases hst with
      | call hs =>
        cases hs with
        | call ht =>
          refine ⟨hp, fun u j c hu => hwait u j c ?_⟩
          by_cases hut : u = t
          · subst hut
            rw [go_self] at hu
            cases hu
          · rwa [go_other _ hut] at hu
    | wake t =>
      cases hst with
      | wake hs =>
        cases hs with
        | wake ht =>
          refine ⟨hp, fun u j c hu => hwait u j c ?_⟩
          by_cases hut : u = t
          · subst hut
            rw [go_self] at hu
            cases hu
          · rwa [go_other _ hut] at hu
    | turn t =>
      obtain ⟨_, k, _, hb | hf⟩ := hst.turn_cases
      · rw [hb.data]
        refine ⟨hp, fun u j c hu => ?_⟩
        by_cases hut : u = t
        · subst hut
          obtain ⟨c', hc, hplace⟩ := hb.waits
          rw [hplace] at hu
          cases hu
          exact hc
        · rw [hb.others u hut] at hu
          exact hwait u j c hu
      · obtain ⟨r, hok⟩ := hf.body
        obtain ⟨hp', hkeep⟩ := hbody k _ _ r hp hf.passes hok
        refine ⟨hp', fun u j c hu => ?_⟩
        obtain ⟨_, hold, hnot⟩ := hf.waiting hu
        exact (hkeep j c (hwait u j c hold)).resolve_right hnot

/-- What a condition counts. A call waits on the condition that it is `on`
only at 0, takes one of `avail`, and a call that adds one notifies one. -/
structure Counts (C : Code κ γ δ ρ) (P : δ → Prop) (on : κ → Option γ) (avail : γ → δ → Nat) :
    Prop where
  waits : ∀ k d c, P d → C.waitsFor k d = some c → on k = some c ∧ avail c d = 0
  keeps : ∀ k d d' r, P d → C.waitsFor k d = none → C.body k d = .ok (d', r) → P d'
  moves : ∀ k d d' r c, P d → C.waitsFor k d = none → C.body k d = .ok (d', r) →
    C.notice k d' ≠ .all c →
    avail c d' + (if on k = some c then 1 else 0) ≤
      avail c d + (if C.notice k d' = .one c then 1 else 0)

/-- What a finished section does to the notified threads: its own thread is
none of them any more, and a thread that waited became one. -/
theorem Finishes.notified_le {on : κ → Option γ} {k : κ} {c : γ} (h : Finishes C t k s s')
    (hk : s.place t = .locking k ∨ s.place t = .notified k)
    (hon : ∀ v j, s.place v = .waiting j c → on j = some c)
    (hu : ∃ u j, s'.place u = .waiting j c) :
    (s.notified on c).encard + (if C.notice k s'.data = .one c then 1 else 0) ≤
      (s'.notified on c).encard + (if on k = some c then 1 else 0) := by
  obtain ⟨u, i, hu⟩ := hu
  obtain ⟨hut, hwait, hnot⟩ := h.waiting hu
  have htold := h.told
  -- the notified threads besides `t` stay notified
  have hleft : (s.notified on c).encard ≤
      (s.notified on c \ {t}).encard + (if on k = some c then 1 else 0) := by
    by_cases hin : t ∈ s.notified on c
    · obtain ⟨j, hj, hc⟩ := hin
      have hjk : j = k := by
        rcases hk with e | e <;> rw [hj] at e <;> cases e
        rfl
      rw [← hjk, if_pos hc]
      exact (Set.encard_le_encard_sdiff_add_encard _ {t}).trans (by rw [Set.encard_singleton])
    · rw [Set.sdiff_singleton_eq_self hin]
      exact le_self_add
  have hstay : s.notified on c \ {t} ⊆ s'.notified on c := by
    rintro v ⟨⟨j, hj, hc⟩, hvt⟩
    have hne : v ≠ t := hvt
    refine ⟨j, ?_, hc⟩
    cases hn : C.notice k s'.data with
    | none =>
      rw [hn] at htold
      exact (htold v hne).trans hj
    | one c' =>
      rw [hn] at htold
      rcases htold with ⟨w, i', _, hw, _, hothers⟩ | ⟨_, hsame⟩
      · have hvw : v ≠ w := by
          rintro rfl
          rw [hj] at hw
          cases hw
        exact (hothers v hne hvw).trans hj
      · exact (hsame v hne).trans hj
    | all c' =>
      rw [hn] at htold
      rw [htold v hne, hj]
      rfl
  have hadd : (s.notified on c \ {t}).encard + (if C.notice k s'.data = .one c then 1 else 0) ≤
      (s'.notified on c).encard := by
    split
    · rename_i hn
      rw [hn] at htold
      rcases htold with ⟨v, j, hvt, hv, hv', _⟩ | ⟨hnone, _⟩
      · have hfresh : v ∉ s.notified on c \ {t} := by
          rintro ⟨⟨j', hj', _⟩, _⟩
          rw [hv] at hj'
          cases hj'
        rw [← Set.encard_insert_of_notMem hfresh]
        exact Set.encard_le_encard (Set.insert_subset ⟨j, hv', hon v j hv⟩ hstay)
      · exact absurd hwait (hnone u hut i)
    · rw [add_zero]
      exact Set.encard_le_encard hstay
  calc (s.notified on c).encard + (if C.notice k s'.data = .one c then 1 else 0)
      ≤ (s.notified on c \ {t}).encard + (if on k = some c then 1 else 0) +
        (if C.notice k s'.data = .one c then 1 else 0) := by gcongr
    _ = (s.notified on c \ {t}).encard + (if C.notice k s'.data = .one c then 1 else 0) +
        (if on k = some c then 1 else 0) := add_right_comm ..
    _ ≤ (s'.notified on c).encard + (if on k = some c then 1 else 0) := by gcongr

/-- No notice is lost: the threads that wait are on their conditions, and where
one waits, there is no more to take than threads that were notified of it. -/
structure Served (P : δ → Prop) (on : κ → Option γ) (avail : γ → δ → Nat)
    (s : Monitor τ κ γ δ ρ) : Prop where
  data : P s.data
  placed : ∀ u j c, s.place u = .waiting j c → on j = some c
  served : ∀ c, (∃ u j, s.place u = .waiting j c) →
    (avail c s.data : ℕ∞) ≤ (s.notified on c).encard

variable {P : δ → Prop} {on : κ → Option γ} {avail : γ → δ → Nat}

omit [DecidableEq τ] [DecidableEq γ] in
/-- A step that keeps the data, adds no waiting thread and takes back no notice. -/
theorem Served.mono (h : s.Served P on avail) (hdata : s'.data = s.data)
    (hwait : ∀ u j c, s'.place u = .waiting j c → s.place u = .waiting j c)
    (hnotified : ∀ u k, s.place u = .notified k → s'.place u = .notified k) :
    s'.Served P on avail := by
  refine ⟨hdata ▸ h.data, fun u j c hu => h.placed u j c (hwait u j c hu), ?_⟩
  rintro c ⟨u, j, hu⟩
  rw [hdata]
  refine (h.served c ⟨u, j, hwait u j c hu⟩).trans (Set.encard_le_encard ?_)
  rintro v ⟨k, hv, hc⟩
  exact ⟨k, hnotified v k hv, hc⟩

omit [DecidableEq γ] in
theorem Served.go (h : s.Served P on avail) {p : Place κ γ ρ} (hp : ∀ j c, p ≠ .waiting j c)
    (ht : ∀ k, s.place t ≠ .notified k) : (s.go t p).Served P on avail := by
  refine h.mono rfl (fun u j c hu => ?_) (fun u k hu => ?_)
  · by_cases hut : u = t
    · subst hut
      rw [go_self] at hu
      exact absurd hu (hp j c)
    · rwa [go_other _ hut] at hu
  · by_cases hut : u = t
    · subst hut
      exact absurd hu (ht k)
    · rwa [go_other _ hut]

theorem Served.blocks {k : κ} (hC : Counts C P on avail) (h : s.Served P on avail)
    (hk : s.place t = .locking k ∨ s.place t = .notified k) (hb : Blocks C t k s s') :
    s'.Served P on avail := by
  obtain ⟨c, hc, hplace⟩ := hb.waits
  obtain ⟨hon, hzero⟩ := hC.waits k s.data c h.data hc
  have hothers := hb.others
  refine ⟨hb.data ▸ h.data, fun u j c' hu => ?_, ?_⟩
  · by_cases hut : u = t
    · subst hut
      rw [hplace] at hu
      cases hu
      exact hon
    · exact h.placed u j c' ((hothers u hut).symm.trans hu)
  · rintro c' ⟨u, j, hu⟩
    rw [hb.data]
    by_cases hcc : c' = c
    · -- the thread waits where there is nothing to take
      rw [hcc, hzero]
      simp
    · have hut : u ≠ t := by
        rintro rfl
        rw [hplace] at hu
        cases hu
        exact hcc rfl
      refine (h.served c' ⟨u, j, (hothers u hut).symm.trans hu⟩).trans (Set.encard_le_encard ?_)
      rintro v ⟨i, hv, hi⟩
      refine ⟨i, ?_, hi⟩
      by_cases hvt : v = t
      · subst hvt
        have hik : i = k := by
          rcases hk with e | e <;> rw [hv] at e <;> cases e
          rfl
        rw [hik, hon] at hi
        exact absurd (Option.some.inj hi).symm hcc
      · exact (hothers v hvt).trans hv

theorem Served.finishes {k : κ} (hC : Counts C P on avail) (h : s.Served P on avail)
    (hk : s.place t = .locking k ∨ s.place t = .notified k) (hf : Finishes C t k s s') :
    s'.Served P on avail := by
  obtain ⟨r, hok⟩ := hf.body
  refine ⟨hC.keeps k _ _ r h.data hf.passes hok, fun u j c hu => ?_, ?_⟩
  · exact h.placed u j c (hf.waiting hu).2.1
  · intro c hex
    obtain ⟨u, j, hu⟩ := hex
    obtain ⟨_, hold, hnot⟩ := hf.waiting hu
    have hserved := h.served c ⟨u, j, hold⟩
    have hmoves := hC.moves k _ _ r c h.data hf.passes hok hnot
    have hcount := hf.notified_le hk (fun v j hv => h.placed v j c hv) ⟨u, j, hu⟩
    have hmoves' : (avail c s'.data : ℕ∞) + (if on k = some c then 1 else 0) ≤
        (avail c s.data : ℕ∞) + (if C.notice k s'.data = .one c then 1 else 0) := by
      exact_mod_cast hmoves
    have hle := hmoves'.trans ((add_le_add_left hserved _).trans hcount)
    have hfin : (if on k = some c then 1 else 0 : ℕ∞) ≠ ⊤ := by
      split <;> simp
    exact (ENat.add_le_add_iff_right hfin).mp hle

/-- The rule of counts. -/
theorem reachable_served (hC : Counts C P on avail) (h : (sections C d).Reachable s) (hd : P d) :
    s.Served P on avail := by
  apply h.invariant
  · rintro s rfl
    refine ⟨hd, fun u j c hu => (by cases hu), ?_⟩
    rintro c ⟨u, j, hu⟩
    cases hu
  · intro s a s' hs hst
    cases a with
    | call t k =>
      cases hst with
      | call hst =>
        cases hst with
        | call ht => exact hs.go (by simp) (by simp [ht])
    | wake t =>
      cases hst with
      | wake hst =>
        cases hst with
        | wake ht => exact hs.go (by simp) (by simp [ht])
    | turn t =>
      obtain ⟨_, k, hk, hb | hf⟩ := hst.turn_cases
      · exact hs.blocks hC hk hb
      · exact hs.finishes hC hk hf

end Monitor

end monitors
