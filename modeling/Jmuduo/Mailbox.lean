-- The mail of one owner. Its own messages it handles at once. Every other
-- sender takes a message in its hand and posts it, and the owner handles what
-- was posted in the order of the posts.
import Jmuduo.Runs
import Mathlib.Logic.Function.Basic

open runs

namespace mailboxes

/-- `τ` names senders, `μ` are messages and `ρ` what comes of one. `accepted`
and `posted` record all the messages so far, and `handled` the results. -/
structure Mailbox (τ μ ρ : Type) where
  owner : τ
  accepted : List (τ × μ)
  hand : τ → Option μ
  posted : List (τ × μ)
  queue : List (τ × μ)
  handled : List (τ × μ × ρ)

namespace Mailbox

variable {τ μ ρ : Type}

/-- No message was accepted. -/
def empty (owner : τ) : Mailbox τ μ ρ where
  owner := owner
  accepted := []
  hand := fun _ => none
  posted := []
  queue := []
  handled := []

/-- The messages that were handled, without what came of them. -/
def done (s : Mailbox τ μ ρ) : List (τ × μ) := s.handled.map fun x => (x.1, x.2.1)

inductive Act (τ μ ρ : Type)
  | direct (m : μ) (r : ρ)
  | offer (t : τ) (m : μ)
  | post (t : τ)
  | handle (r : ρ)

variable [DecidableEq τ]

/-- The messages of one sender, in their order. -/
def sentBy (t : τ) (l : List (τ × μ)) : List μ :=
  l.filterMap fun x => if x.1 = t then some x.2 else none

/-- The mail of the other senders. -/
def fromOthers (owner : τ) (l : List (τ × μ)) : List (τ × μ) := l.filter fun x => x.1 ≠ owner

def Act.apply (s : Mailbox τ μ ρ) : Act τ μ ρ → Mailbox τ μ ρ
  | .direct m r =>
    { s with accepted := s.accepted ++ [(s.owner, m)], handled := s.handled ++ [(s.owner, m, r)] }
  | .offer t m =>
    { s with accepted := s.accepted ++ [(t, m)], hand := Function.update s.hand t (some m) }
  | .post t =>
    match s.hand t with
    | some m =>
      { s with
        hand := Function.update s.hand t none
        posted := s.posted ++ [(t, m)]
        queue := s.queue ++ [(t, m)] }
    | none => s
  | .handle r =>
    match s.queue with
    | (t, m) :: queue => { s with queue := queue, handled := s.handled ++ [(t, m, r)] }
    | [] => s

/-- A sender has one message in its hand at most, and the owner has none. -/
def Act.Enabled (s : Mailbox τ μ ρ) : Act τ μ ρ → Prop
  | .direct _ _ => True
  | .offer t _ => t ≠ s.owner ∧ s.hand t = none
  | .post t => s.hand t ≠ none
  | .handle _ => s.queue ≠ []

def machine (owner : τ) : Machine (Mailbox τ μ ρ) (Act τ μ ρ) where
  init s := s = empty owner
  step s a s' := a.Enabled s ∧ s' = a.apply s

theorem Act.apply_owner (a : Act τ μ ρ) (s : Mailbox τ μ ρ) : (a.apply s).owner = s.owner := by
  unfold Act.apply
  cases a with
  | direct m r => rfl
  | offer t m => rfl
  | post t => simp only; split <;> rfl
  | handle r => simp only; split <;> rfl

/-! ## The senders of a list -/

@[simp] theorem sentBy_nil (t : τ) : sentBy t ([] : List (τ × μ)) = [] := rfl

@[simp] theorem sentBy_append (t : τ) (l l' : List (τ × μ)) :
    sentBy t (l ++ l') = sentBy t l ++ sentBy t l' :=
  List.filterMap_append

theorem sentBy_cons_self (t : τ) (m : μ) (l : List (τ × μ)) :
    sentBy t ((t, m) :: l) = m :: sentBy t l := by
  unfold sentBy
  rw [List.filterMap_cons_some (b := m) (by simp)]

theorem sentBy_cons_ne {t u : τ} (h : u ≠ t) (m : μ) (l : List (τ × μ)) :
    sentBy t ((u, m) :: l) = sentBy t l := by
  unfold sentBy
  rw [List.filterMap_cons_none (by simp [h])]

theorem sentBy_eq_nil {t : τ} {l : List (τ × μ)} (h : ∀ x ∈ l, x.1 ≠ t) : sentBy t l = [] := by
  induction l with
  | nil => rfl
  | cons x l ih =>
    obtain ⟨u, m⟩ := x
    rw [sentBy_cons_ne (h (u, m) List.mem_cons_self)]
    exact ih fun y hy => h y (List.mem_cons_of_mem _ hy)

theorem fromOthers_snoc_self (t : τ) (m : μ) (l : List (τ × μ)) :
    fromOthers t (l ++ [(t, m)]) = fromOthers t l := by
  unfold fromOthers
  rw [List.filter_append, List.filter_cons_of_neg (by simp), List.filter_nil, List.append_nil]

theorem fromOthers_snoc_ne {t u : τ} (h : u ≠ t) (m : μ) (l : List (τ × μ)) :
    fromOthers t (l ++ [(u, m)]) = fromOthers t l ++ [(u, m)] := by
  unfold fromOthers
  rw [List.filter_append, List.filter_cons_of_pos (by simpa using h), List.filter_nil]

/-! ## What the steps keep -/

/-- Each sender's messages are handled, in the queue or in its hand, in the
order in which they were accepted, and what was posted is handled in the order
of the posts. -/
structure Inv (s : Mailbox τ μ ρ) : Prop where
  sender : ∀ t, sentBy t s.done ++ sentBy t s.queue ++ (s.hand t).toList = sentBy t s.accepted
  posts : fromOthers s.owner s.done ++ s.queue = s.posted
  free : s.hand s.owner = none
  others : ∀ x ∈ s.queue, x.1 ≠ s.owner

theorem empty_inv (owner : τ) : (empty owner : Mailbox τ μ ρ).Inv :=
  ⟨fun _ => rfl, rfl, rfl, fun x hx => by cases hx⟩

theorem Inv.direct {s : Mailbox τ μ ρ} (h : s.Inv) (m : μ) (r : ρ) :
    ((Act.direct m r).apply s).Inv := by
  have hdone : ((Act.direct m r).apply s).done = s.done ++ [(s.owner, m)] := List.map_append
  refine ⟨fun t => ?_, ?_, h.free, h.others⟩
  · have hold := h.sender t
    rw [hdone]
    simp only [Act.apply, sentBy_append]
    by_cases ht : s.owner = t
    · -- the owner has no message on its way
      subst ht
      rw [sentBy_eq_nil h.others, h.free] at hold
      rw [sentBy_eq_nil h.others, h.free, ← hold, sentBy_cons_self]
      simp
    · rw [sentBy_cons_ne ht, sentBy_nil, List.append_nil, List.append_nil]
      exact hold
  · rw [hdone]
    simp only [Act.apply]
    rw [fromOthers_snoc_self]
    exact h.posts

theorem Inv.offer {s : Mailbox τ μ ρ} (h : s.Inv) {t : τ} (m : μ)
    (he : (Act.offer t m : Act τ μ ρ).Enabled s) : ((Act.offer t m : Act τ μ ρ).apply s).Inv := by
  obtain ⟨howner, hfree⟩ := he
  refine ⟨fun u => ?_, h.posts, ?_, h.others⟩
  · have hold := h.sender u
    have hdone : ((Act.offer t m : Act τ μ ρ).apply s).done = s.done := rfl
    rw [hdone]
    simp only [Act.apply, sentBy_append]
    by_cases hu : t = u
    · subst hu
      rw [hfree, Option.toList_none, List.append_nil] at hold
      rw [Function.update_self, sentBy_cons_self, hold]
      rfl
    · rw [Function.update_of_ne (Ne.symm hu), sentBy_cons_ne hu, sentBy_nil, List.append_nil]
      exact hold
  · exact (Function.update_of_ne (Ne.symm howner) _ _).trans h.free

theorem Inv.post {s : Mailbox τ μ ρ} (h : s.Inv) (t : τ) :
    ((Act.post t : Act τ μ ρ).apply s).Inv := by
  simp only [Act.apply]
  split
  · rename_i m hm
    have howner : t ≠ s.owner := by
      rintro rfl
      rw [h.free] at hm
      cases hm
    refine ⟨fun u => ?_, ?_, ?_, ?_⟩
    · have hold := h.sender u
      simp only [sentBy_append]
      by_cases hu : t = u
      · subst hu
        rw [hm] at hold
        rw [Function.update_self, sentBy_cons_self, ← hold]
        simp [done]
      · rw [Function.update_of_ne (Ne.symm hu), sentBy_cons_ne hu, sentBy_nil, List.append_nil]
        exact hold
    · have hold := h.posts
      simp only
      rw [← hold, List.append_assoc]
      rfl
    · exact (Function.update_of_ne (Ne.symm howner) _ _).trans h.free
    · intro x hx
      rcases List.mem_append.mp hx with hx | hx
      · exact h.others x hx
      · rw [List.mem_singleton.mp hx]
        exact howner
  · exact h

theorem Inv.handle {s : Mailbox τ μ ρ} (h : s.Inv) (r : ρ) :
    ((Act.handle r : Act τ μ ρ).apply s).Inv := by
  simp only [Act.apply]
  split
  · rename_i t m queue hq
    have howner : t ≠ s.owner := h.others (t, m) (by rw [hq]; exact List.mem_cons_self)
    have hdone : ({ s with queue := queue, handled := s.handled ++ [(t, m, r)] } :
        Mailbox τ μ ρ).done = s.done ++ [(t, m)] := List.map_append
    refine ⟨fun u => ?_, ?_, h.free, ?_⟩
    · have hold := h.sender u
      rw [hq] at hold
      rw [hdone, sentBy_append]
      simp only
      by_cases hu : t = u
      · subst hu
        rw [sentBy_cons_self] at hold
        rw [sentBy_cons_self, sentBy_nil, ← hold, List.append_assoc (sentBy t s.done)]
        rfl
      · rw [sentBy_cons_ne hu] at hold
        rw [sentBy_cons_ne hu, sentBy_nil, List.append_nil]
        exact hold
    · have hold := h.posts
      rw [hq] at hold
      rw [hdone]
      simp only
      rw [fromOthers_snoc_ne howner, ← hold, List.append_assoc]
      rfl
    · intro x hx
      exact h.others x (by rw [hq]; exact List.mem_cons_of_mem _ hx)
  · exact h

theorem Inv.step {s : Mailbox τ μ ρ} (h : s.Inv) {a : Act τ μ ρ} (he : a.Enabled s) :
    (a.apply s).Inv := by
  cases a with
  | direct m r => exact h.direct m r
  | offer t m => exact h.offer m he
  | post t => exact h.post t
  | handle r => exact h.handle r

/-- The rule of a step: what the machine does keeps the order. -/
theorem Inv.next {owner : τ} {s s' : Mailbox τ μ ρ} (h : s.Inv) {a : Act τ μ ρ}
    (hs : (machine owner).step s a s') : s'.Inv := by
  obtain ⟨he, rfl⟩ := hs
  exact h.step he

/-- A sender with nothing on its way has had all its messages handled. -/
theorem Inv.all_handled {s : Mailbox τ μ ρ} (h : s.Inv) {t : τ} (hq : sentBy t s.queue = [])
    (hh : s.hand t = none) : sentBy t s.done = sentBy t s.accepted := by
  have hall := h.sender t
  rw [hq, hh] at hall
  simpa using hall

end Mailbox

end mailboxes
