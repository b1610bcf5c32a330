-- The runs of a machine. A machine starts in one of its initial states and
-- takes steps, and each step has a label. An invariant of the steps holds in
-- every state that a run reaches.
import Jmuduo.Outcome
import Mathlib.Data.List.Induction

open outcome

namespace runs

/-- Where the runs start, and what one step does. -/
structure Machine (σ α : Type*) where
  init : σ → Prop
  step : σ → α → σ → Prop

/-- In a trace that grew by one step, an old step is the new one or came
before it. -/
theorem snoc_cases {α : Type*} {t before after : List α} {a b : α}
    (h : t ++ [a] = before ++ b :: after) :
    (after = [] ∧ t = before ∧ a = b) ∨
    ∃ after', after = after' ++ [a] ∧ t = before ++ b :: after' := by
  rcases List.eq_nil_or_concat after with rfl | ⟨after', a', rfl⟩
  · obtain ⟨h1, h2⟩ := List.append_inj' h rfl
    simp only [List.cons.injEq, and_true] at h2
    exact Or.inl ⟨rfl, h1, h2⟩
  · rw [List.concat_eq_append] at h ⊢
    rw [← List.cons_append, ← List.append_assoc] at h
    obtain ⟨h1, h2⟩ := List.append_inj' h rfl
    simp only [List.cons.injEq, and_true] at h2
    exact Or.inr ⟨after', by rw [h2], h1⟩

namespace Machine

variable {σ α : Type*} (M : Machine σ α)

/-- A run from one state to another, with the labels of its steps. -/
inductive Run (s : σ) : List α → σ → Prop
  | nil : Run s [] s
  | snoc {t u : σ} {as : List α} {a : α} : Run s as t → M.step t a u → Run s (as ++ [a]) u

/-- The states that a run from an initial state reaches. -/
def Reachable (s : σ) : Prop := ∃ s₀ as, M.init s₀ ∧ M.Run s₀ as s

/-- The machine that takes only the steps with `R`. -/
def restrict (R : σ → α → σ → Prop) : Machine σ α where
  init := M.init
  step s a t := M.step s a t ∧ R s a t

variable {M}

theorem Reachable.start {s : σ} (h : M.init s) : M.Reachable s := ⟨s, [], h, .nil⟩

theorem Reachable.next {s t : σ} {a : α} (h : M.Reachable s) (hs : M.step s a t) :
    M.Reachable t := by
  obtain ⟨s₀, as, h0, hr⟩ := h
  exact ⟨s₀, as ++ [a], h0, hr.snoc hs⟩

/-- A run goes on with another one. -/
theorem Run.append {s t u : σ} {as bs : List α} (h : M.Run s as t) (h' : M.Run t bs u) :
    M.Run s (as ++ bs) u := by
  induction h' with
  | nil =>
    rw [List.append_nil]
    exact h
  | snoc _ hst ih =>
    rw [← List.append_assoc]
    exact ih.snoc hst

/-- What every step keeps, a whole run keeps. -/
theorem Run.keeps {P : σ → Prop} {s t : σ} {as : List α}
    (hstep : ∀ s a t, P s → M.step s a t → P t) (h : M.Run s as t) (hs : P s) : P t := by
  induction h with
  | nil => exact hs
  | snoc _ hst ih => exact hstep _ _ _ ih hst

/-- The rule of invariants: `P` holds at the start and every step keeps it. -/
theorem Reachable.invariant {P : σ → Prop} {s : σ} (h : M.Reachable s)
    (hinit : ∀ s, M.init s → P s) (hstep : ∀ s a t, P s → M.step s a t → P t) : P s := by
  obtain ⟨s₀, as, h0, hr⟩ := h
  exact hr.keeps hstep (hinit s₀ h0)

/-- A run of a restricted machine is a run of the machine. -/
theorem Run.of_restrict {R : σ → α → σ → Prop} {s t : σ} {as : List α}
    (h : (M.restrict R).Run s as t) : M.Run s as t := by
  induction h with
  | nil => exact .nil
  | snoc _ hst ih => exact ih.snoc hst.1

/-- The rule of simulation: where every step of `M` is a step of `N` with
the same label, every run of `M` is a run of `N` with the same labels. -/
theorem Run.simulation {τ : Type*} {N : Machine τ α} {R : σ → τ → Prop} {s s' : σ} {t : τ}
    {as : List α} (hstep : ∀ s t a s', R s t → M.step s a s' → ∃ t', N.step t a t' ∧ R s' t')
    (h : M.Run s as s') (hR : R s t) : ∃ t', N.Run t as t' ∧ R s' t' := by
  induction h with
  | nil => exact ⟨t, .nil, hR⟩
  | snoc _ hst ih =>
    obtain ⟨u, hu, hRu⟩ := ih
    obtain ⟨t', ht', hRt'⟩ := hstep _ _ _ _ hRu hst
    exact ⟨t', hu.snoc ht', hRt'⟩

/-- When an invariant makes two restrictions agree on every step, the two
restricted machines have the same runs from a state with the invariant. -/
theorem Run.restrict_congr {R S : σ → α → σ → Prop} {P : σ → Prop} {s t : σ} {as : List α}
    (hs : P s) (hRS : ∀ s a t, P s → M.step s a t → R s a t → S s a t)
    (hP : ∀ s a t, P s → M.step s a t → R s a t → P t)
    (h : (M.restrict R).Run s as t) : (M.restrict S).Run s as t ∧ P t := by
  induction h with
  | nil => exact ⟨.nil, hs⟩
  | snoc _ hst ih =>
    obtain ⟨hr, hp⟩ := ih
    exact ⟨hr.snoc ⟨hst.1, hRS _ _ _ hp hst.1 hst.2⟩, hP _ _ _ hp hst.1 hst.2⟩

/-- Two restrictions that agree on every step from a state with an invariant
have the same runs. -/
theorem Run.restrict_iff {R S : σ → α → σ → Prop} {P : σ → Prop} {s t : σ} {as : List α}
    (hs : P s) (hRS : ∀ s a t, P s → M.step s a t → (R s a t ↔ S s a t))
    (hP : ∀ s a t, P s → M.step s a t → R s a t → P t) :
    (M.restrict R).Run s as t ↔ (M.restrict S).Run s as t := by
  constructor
  · intro h
    exact (h.restrict_congr hs (fun s a t hp hst => (hRS s a t hp hst).mp) hP).1
  · intro h
    refine (h.restrict_congr hs (fun s a t hp hst => (hRS s a t hp hst).mpr) ?_).1
    intro s a t hp hst hr
    exact hP s a t hp hst ((hRS s a t hp hst).mpr hr)

/-- The rule of good states: where a step from a good state leads to a good
one exactly if it meets `R`, the runs through good states are the runs whose
steps all meet `R`. -/
theorem Run.good_iff {P G : σ → Prop} {R : σ → α → Prop} {s t : σ} {as : List α} (hs : P s)
    (hgood : G s) (hP : ∀ s a t, P s → M.step s a t → P t)
    (hG : ∀ s a t, P s → G s → M.step s a t → (G t ↔ R s a)) :
    (M.restrict fun s a _ => R s a).Run s as t ↔ (M.restrict fun _ _ t => G t).Run s as t := by
  refine Run.restrict_iff (P := fun s => P s ∧ G s) ⟨hs, hgood⟩ ?_ ?_
  · rintro s a t ⟨hp, hg⟩ hst
    exact (hG s a t hp hg hst).symm
  · rintro s a t ⟨hp, hg⟩ hst hr
    exact ⟨hP s a t hp hst, (hG s a t hp hg hst).mpr hr⟩

/-- A run that loses `P` has a step that loses it. -/
theorem Run.exists_losing {P : σ → Prop} {s t : σ} {as : List α} (h : M.Run s as t) (hs : P s)
    (ht : ¬ P t) :
    ∃ before a after u v, as = before ++ a :: after ∧ M.Run s before u ∧ M.step u a v ∧
      M.Run v after t ∧ P u ∧ ¬ P v := by
  induction h with
  | nil => exact absurd hs ht
  | @snoc t' t as a hrun hst ih =>
    by_cases hp : P t'
    · exact ⟨as, a, [], t', t, rfl, hrun, hst, .nil, hp, ht⟩
    · obtain ⟨before, b, after, u, v, rfl, hu, huv, hv, hpu, hpv⟩ := ih hp
      exact ⟨before, b, after ++ [a], u, v, by simp, hu, huv, hv.snoc hst, hpu, hpv⟩

/-- The rule of ranks: where each state with `P` has the goal or a step that
keeps `P` and lowers the rank, a run reaches the goal. -/
theorem Run.of_rank {P Q : σ → Prop} (rank : σ → Nat)
    (hstep : ∀ s, P s → Q s ∨ ∃ a t, M.step s a t ∧ P t ∧ rank t < rank s) {s : σ} (hs : P s) :
    ∃ as t, M.Run s as t ∧ Q t := by
  induction hr : rank s using Nat.strong_induction_on generalizing s with
  | _ n ih =>
    rcases hstep s hs with hq | ⟨a, t, hst, ht, hlt⟩
    · exact ⟨[], s, .nil, hq⟩
    · obtain ⟨as, u, hrun, hu⟩ := ih (rank t) (hr ▸ hlt) ht rfl
      have hone : M.Run s [a] t := Run.nil.snoc hst
      exact ⟨[a] ++ as, u, hone.append hrun, hu⟩

/-- The rule of spending: where every step keeps the rank from growing, and a step
with `F` lowers it as long as there is any left, a run lowers it by the number of
its steps with `F`. -/
theorem Run.spends {P : σ → Prop} (rank : σ → Nat) (F : α → Bool)
    (hstep : ∀ s a t, P s → M.step s a t → P t ∧ rank t ≤ rank s - (if F a then 1 else 0))
    {s t : σ} {as : List α} (h : M.Run s as t) (hs : P s) :
    P t ∧ rank t ≤ rank s - as.countP F := by
  induction h with
  | nil => exact ⟨hs, Nat.le_refl _⟩
  | @snoc u v as a _ hst ih =>
    obtain ⟨hp, hle⟩ := ih
    obtain ⟨hp', hle'⟩ := hstep _ _ _ hp hst
    refine ⟨hp', ?_⟩
    rw [List.countP_append, List.countP_singleton]
    omega

/-- Calls that all return are a run. -/
theorem Run.of_foldlM {σ α : Type} {M : Machine σ α} {f : σ → α → Outcome σ}
    (hstep : ∀ s a t, f s a = .ok t → M.step s a t) {as : List α} {s t : σ}
    (h : as.foldlM f s = .ok t) : M.Run s as t := by
  induction as using List.reverseRecOn generalizing t with
  | nil =>
    cases h
    exact .nil
  | append_singleton as a ih =>
    rw [List.foldlM_append, bind_eq_ok] at h
    obtain ⟨u, hu, ha⟩ := h
    simp only [List.foldlM_cons, List.foldlM_nil, bind_eq_ok, pure_eq_ok, Except.ok.injEq] at ha
    obtain ⟨t', ht, rfl⟩ := ha
    exact (ih hu).snoc (hstep u a _ ht)

/-- Calls that all return, each where `R` allows it, are a run of the
restricted machine. -/
theorem Run.restrict_of_foldlM {σ α : Type} {M : Machine σ α} {f : σ → α → Outcome σ}
    {R : σ → α → Prop} [∀ s a, Decidable (R s a)] (e : Fault)
    (hstep : ∀ s a t, f s a = .ok t → M.step s a t) {as : List α} {s t : σ}
    (h : as.foldlM (fun s a => if R s a then f s a else .error e) s = .ok t) :
    (M.restrict fun s a _ => R s a).Run s as t := by
  refine .of_foldlM ?_ h
  intro s a t hok
  split at hok
  · rename_i hr
    exact ⟨hstep s a t hok, hr⟩
  · cases hok

end Machine

end runs
