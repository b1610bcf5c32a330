-- Monitors: threads change data under one mutex. A call waits on a condition
-- while its test holds, and another thread can take the mutex between the
-- notice and the return of the wait, so that the test is made again.
import Jmuduo.Runs
import Mathlib.Logic.Function.Basic

open outcome runs

namespace monitors

/-! ## The code of a monitor -/

/-- The threads that the end of a call notifies. -/
inductive Notice (γ : Type)
  | none
  | one (c : γ)
  | all (c : γ)
  deriving DecidableEq, Repr

/-- The calls `κ` of a monitor with the conditions `γ`, the data `δ` and the
results `ρ`. A call takes the mutex, waits as long as `waitsFor` names a
condition, runs its body, notifies and releases the mutex. -/
structure Code (κ γ δ ρ : Type) where
  waitsFor : κ → δ → Option γ
  body : κ → δ → Outcome (δ × ρ)
  notice : κ → δ → Notice γ

/-- Where a thread stands in a call. A thread that is `notified` has yet to
take the mutex again. -/
inductive Place (κ γ ρ : Type)
  | outside
  | locking (k : κ)
  | testing (k : κ)
  | waiting (k : κ) (c : γ)
  | notified (k : κ)
  | acting (k : κ)
  | notifying (k : κ) (r : ρ)
  | leaving (r : ρ)
  deriving DecidableEq, Repr

/-- A thread at the place has the mutex. -/
def Place.Holds {κ γ ρ : Type} : Place κ γ ρ → Prop
  | .testing _ | .acting _ | .notifying _ _ | .leaving _ => True
  | .outside | .locking _ | .waiting _ _ | .notified _ => False

/-- The place of a thread after all that wait on `c` were notified. -/
def Place.wakeAll {κ γ ρ : Type} [DecidableEq γ] (c : γ) : Place κ γ ρ → Place κ γ ρ
  | .waiting k c' => if c' = c then .notified k else .waiting k c'
  | p => p

/-- The threads `τ` at their places, and the data between them. -/
structure Monitor (τ κ γ δ ρ : Type) where
  holder : Option τ
  data : δ
  place : τ → Place κ γ ρ

namespace Monitor

variable {τ κ γ δ ρ : Type} [DecidableEq τ] [DecidableEq γ]

omit [DecidableEq τ] [DecidableEq γ] in
/-- Every thread is outside. -/
def start (d : δ) : Monitor τ κ γ δ ρ where
  holder := none
  data := d
  place _ := .outside

def go (t : τ) (p : Place κ γ ρ) (s : Monitor τ κ γ δ ρ) : Monitor τ κ γ δ ρ :=
  { s with place := Function.update s.place t p }

/-! ## The steps -/

inductive Act (τ κ : Type)
  | call (t : τ) (k : κ)
  | lock (t : τ)
  | test (t : τ)
  | body (t : τ)
  | notify (t : τ)
  | wake (t : τ)
  | unlock (t : τ)
  deriving DecidableEq, Repr

/-- A step of one thread. A wait can also end without a notice. -/
inductive Step (C : Code κ γ δ ρ) (s : Monitor τ κ γ δ ρ) :
    Act τ κ → Monitor τ κ γ δ ρ → Prop
  | call {t : τ} {k : κ} : s.place t = .outside → Step C s (.call t k) (s.go t (.locking k))
  | lock {t : τ} {k : κ} : s.place t = .locking k ∨ s.place t = .notified k → s.holder = none →
    Step C s (.lock t) { s.go t (.testing k) with holder := some t }
  | wait {t : τ} {k : κ} {c : γ} : s.place t = .testing k → C.waitsFor k s.data = some c →
    Step C s (.test t) { s.go t (.waiting k c) with holder := none }
  | pass {t : τ} {k : κ} : s.place t = .testing k → C.waitsFor k s.data = none →
    Step C s (.test t) (s.go t (.acting k))
  | body {t : τ} {k : κ} {d : δ} {r : ρ} : s.place t = .acting k → C.body k s.data = .ok (d, r) →
    Step C s (.body t) { s.go t (.notifying k r) with data := d }
  | notifyNone {t : τ} {k : κ} {r : ρ} : s.place t = .notifying k r →
    C.notice k s.data = .none → Step C s (.notify t) (s.go t (.leaving r))
  | notifyOne {t u : τ} {k j : κ} {r : ρ} {c : γ} : s.place t = .notifying k r →
    C.notice k s.data = .one c → s.place u = .waiting j c →
    Step C s (.notify t) ((s.go u (.notified j)).go t (.leaving r))
  | notifyNobody {t : τ} {k : κ} {r : ρ} {c : γ} : s.place t = .notifying k r →
    C.notice k s.data = .one c → (∀ u j, s.place u ≠ .waiting j c) →
    Step C s (.notify t) (s.go t (.leaving r))
  | notifyAll {t : τ} {k : κ} {r : ρ} {c : γ} : s.place t = .notifying k r →
    C.notice k s.data = .all c →
    Step C s (.notify t) ({ s with place := fun u => (s.place u).wakeAll c }.go t (.leaving r))
  | wake {t : τ} {k : κ} {c : γ} : s.place t = .waiting k c →
    Step C s (.wake t) (s.go t (.notified k))
  | unlock {t : τ} {r : ρ} : s.place t = .leaving r →
    Step C s (.unlock t) { s.go t .outside with holder := none }

/-- All the interleavings of the threads, from the data `d` on. -/
def machine (C : Code κ γ δ ρ) (d : δ) : Machine (Monitor τ κ γ δ ρ) (Act τ κ) where
  init s := s = start d
  step := Step C

/-! ## Mutual exclusion -/

/-- The threads that have the mutex are its holder, so one at most. A thread
that is past its test still has no reason to wait. -/
structure Inv (C : Code κ γ δ ρ) (s : Monitor τ κ γ δ ρ) : Prop where
  holder : ∀ t, (s.place t).Holds ↔ s.holder = some t
  acting : ∀ t k, s.place t = .acting k → C.waitsFor k s.data = none

variable {C : Code κ γ δ ρ} {s s' : Monitor τ κ γ δ ρ} {t : τ}

omit [DecidableEq τ] [DecidableEq γ] in
/-- Two threads that have the mutex are the same. -/
theorem Inv.unique (h : s.Inv C) {u : τ} (ht : (s.place t).Holds) (hu : (s.place u).Holds) :
    u = t := by
  have h1 := (h.holder t).mp ht
  have h2 := (h.holder u).mp hu
  rw [h1] at h2
  cases h2
  rfl

omit [DecidableEq γ] in
/-- A thread moves, and takes, keeps or releases the mutex. -/
theorem Inv.move (h : s.Inv C) {p : Place κ γ ρ} {holder : Option τ}
    (hself : p.Holds ↔ holder = some t)
    (hother : ∀ u, u ≠ t → (holder = some u ↔ s.holder = some u))
    (hact : ∀ k, p = .acting k → C.waitsFor k s.data = none) :
    ({ s.go t p with holder := holder } : Monitor τ κ γ δ ρ).Inv C := by
  refine ⟨fun u => ?_, fun u k hu => ?_⟩
  · simp only [go, Function.update_apply]
    split
    · rename_i e
      rw [e]
      exact hself
    · rename_i hne
      rw [hother u hne]
      exact h.holder u
  · simp only [go, Function.update_apply] at hu
    split at hu
    · exact hact k hu
    · exact h.acting u k hu

omit [DecidableEq γ] in
/-- A thread that keeps what it has of the mutex moves. -/
theorem Inv.stay (h : s.Inv C) {p : Place κ γ ρ} (hself : p.Holds ↔ (s.place t).Holds)
    (hact : ∀ k, p = .acting k → C.waitsFor k s.data = none) : (s.go t p).Inv C :=
  h.move (hself.trans (h.holder t)) (fun _ _ => Iff.rfl) hact

omit [DecidableEq τ] in
theorem wakeAll_holds (c : γ) (p : Place κ γ ρ) : (p.wakeAll c).Holds ↔ p.Holds := by
  cases p with
  | waiting k c' =>
    simp only [Place.wakeAll]
    split <;> exact Iff.rfl
  | _ => exact Iff.rfl

omit [DecidableEq τ] in
theorem wakeAll_acting {c : γ} {p : Place κ γ ρ} {k : κ} (h : p.wakeAll c = .acting k) :
    p = .acting k := by
  cases p with
  | waiting k' c' =>
    simp only [Place.wakeAll] at h
    split at h <;> cases h
  | _ => exact h

theorem Inv.step {a : Act τ κ} (h : s.Inv C) (hs : Step C s a s') : s'.Inv C := by
  cases hs with
  | call ht => exact h.stay (by rw [ht]; exact Iff.rfl) (by simp)
  | lock ht hfree =>
    refine h.move ⟨fun _ => rfl, fun _ => trivial⟩ (fun u hu => ?_) (by simp)
    rw [hfree]
    simp [Ne.symm hu]
  | wait ht hc =>
    have hheld : s.holder = some _ := (h.holder _).mp (by rw [ht]; trivial)
    refine h.move ⟨False.elim, fun hn => by cases hn⟩ (fun u hu => ?_) (by simp)
    rw [hheld]
    simp [Ne.symm hu]
  | pass ht hc =>
    refine h.stay (by rw [ht]; exact Iff.rfl) (fun k hk => ?_)
    cases hk
    exact hc
  | @body t k d r ht hb =>
    have hheld : (s.place t).Holds := by
      rw [ht]
      trivial
    obtain ⟨hholder, _⟩ := h.stay (t := t) (p := .notifying k r)
      (by rw [ht]; exact Iff.rfl) (by simp)
    refine ⟨hholder, fun u k hu => ?_⟩
    -- no other thread is past its test
    simp only [go, Function.update_apply] at hu
    split at hu
    · cases hu
    · rename_i hne
      exact absurd (h.unique hheld (by rw [hu]; trivial)) hne
  | notifyNone ht hn => exact h.stay (by rw [ht]; exact Iff.rfl) (by simp)
  | @notifyOne t u k j r c ht hn hu =>
    have hwoken := h.stay (t := u) (p := .notified j) (by rw [hu]; exact Iff.rfl) (by simp)
    refine hwoken.stay ?_ (by simp)
    simp only [go, Function.update_apply]
    split
    · rename_i e
      rw [e, hu] at ht
      cases ht
    · rw [ht]
      exact Iff.rfl
  | notifyNobody ht hn hnone => exact h.stay (by rw [ht]; exact Iff.rfl) (by simp)
  | @notifyAll t k r c ht hn =>
    have hwoken : ({ s with place := fun u => (s.place u).wakeAll c } :
        Monitor τ κ γ δ ρ).Inv C :=
      ⟨fun u => (wakeAll_holds c _).trans (h.holder u), fun u k hu =>
        h.acting u k (wakeAll_acting hu)⟩
    refine hwoken.stay ?_ (by simp)
    rw [wakeAll_holds, ht]
    exact Iff.rfl
  | wake ht => exact h.stay (by rw [ht]; exact Iff.rfl) (by simp)
  | unlock ht =>
    have hheld : s.holder = some _ := (h.holder _).mp (by rw [ht]; trivial)
    refine h.move ⟨False.elim, fun hn => by cases hn⟩ (fun u hu => ?_) (by simp)
    rw [hheld]
    simp [Ne.symm hu]

omit [DecidableEq τ] [DecidableEq γ] in
theorem start_inv (C : Code κ γ δ ρ) (d : δ) : (start d : Monitor τ κ γ δ ρ).Inv C :=
  ⟨fun _ => ⟨False.elim, (fun hn => by cases hn)⟩, fun _ _ ha => by cases ha⟩

theorem reachable_inv {d : δ} (h : (machine C d).Reachable s) : s.Inv C := by
  apply h.invariant
  · rintro s rfl
    exact start_inv C d
  · intro s a s' hs hst
    exact hs.step hst

/-! ## The rule of the data -/

/-- Only the body of a call changes the data. -/
theorem Step.data {a : Act τ κ} (hs : Step C s a s') :
    s'.data = s.data ∨ ∃ t k r, a = .body t ∧ s.place t = .acting k ∧
      C.body k s.data = .ok (s'.data, r) := by
  cases hs with
  | body ht hb => exact Or.inr ⟨_, _, _, rfl, ht, hb⟩
  | _ => exact Or.inl rfl

/-- A run from `s₀`, with the calls whose bodies ran in it and what they return,
in their order. -/
inductive Ran (C : Code κ γ δ ρ) (s₀ : Monitor τ κ γ δ ρ) :
    List (κ × ρ) → Monitor τ κ γ δ ρ → Prop
  | nil : Ran C s₀ [] s₀
  | step {ran : List (κ × ρ)} {s s' : Monitor τ κ γ δ ρ} {a : Act τ κ} : Ran C s₀ ran s →
    Step C s a s' → (∀ t, a ≠ .body t) → Ran C s₀ ran s'
  | body {ran : List (κ × ρ)} {s s' : Monitor τ κ γ δ ρ} {t : τ} {k : κ} {r : ρ} :
    Ran C s₀ ran s → Step C s (.body t) s' → s'.place t = .notifying k r →
    Ran C s₀ (ran ++ [(k, r)]) s'

theorem exists_ran {d : δ} (h : (machine C d).Reachable s) : ∃ ran, Ran C (start d) ran s := by
  apply h.invariant
  · rintro s rfl
    exact ⟨[], .nil⟩
  · rintro s a s' ⟨ran, hran⟩ hst
    by_cases ha : ∃ t, a = .body t
    · obtain ⟨t, rfl⟩ := ha
      have hnew : ∃ k r, s'.place t = .notifying k r := by
        cases hst with
        | body ht hb => exact ⟨_, _, Function.update_self ..⟩
      obtain ⟨k, r, hplace⟩ := hnew
      exact ⟨_, hran.body hst hplace⟩
    · exact ⟨ran, hran.step hst fun t e => ha ⟨t, e⟩⟩

/-- What the bodies keep between the calls that ran and the data, where their calls
need not wait, all runs keep. -/
theorem Ran.data {P : List (κ × ρ) → δ → Prop} {d : δ} {ran : List (κ × ρ)}
    (h : Ran C (start d) ran s) (hd : P [] d)
    (hbody : ∀ ran k d d' r, P ran d → C.waitsFor k d = none → C.body k d = .ok (d', r) →
      P (ran ++ [(k, r)]) d') : P ran s.data := by
  have hall : s.Inv C ∧ P ran s.data := by
    induction h with
    | nil => exact ⟨start_inv C d, hd⟩
    | step _ hst hno ih =>
      refine ⟨ih.1.step hst, ?_⟩
      rcases Step.data hst with e | ⟨t, _, _, rfl, _⟩
      · rw [e]
        exact ih.2
      · exact absurd rfl (hno t)
    | body _ hst hplace ih =>
      refine ⟨ih.1.step hst, ?_⟩
      cases hst with
      | body ht hb =>
        simp only [go, Function.update_self, Place.notifying.injEq] at hplace
        obtain ⟨rfl, rfl⟩ := hplace
        exact hbody _ _ _ _ _ ih.2 (ih.1.acting _ _ ht) hb
  exact hall.2

/-- What the bodies keep where their calls need not wait, all runs keep. -/
theorem data_invariant {P : δ → Prop} {d : δ} (h : (machine C d).Reachable s) (hd : P d)
    (hbody : ∀ k d d' r, P d → C.waitsFor k d = none → C.body k d = .ok (d', r) → P d') :
    P s.data := by
  obtain ⟨ran, hran⟩ := exists_ran h
  exact hran.data (P := fun _ d => P d) hd fun _ => hbody

end Monitor

end monitors
