-- The descriptors of a process, and the account of one object that opens, closes and
-- hands over some of them. The kernel gives a number again after its close, so the
-- openings have numbers of their own.
import Jmuduo.Outcome
import Mathlib.Data.List.Nodup
import Mathlib.Data.List.Perm.Basic
import Mathlib.Logic.Function.Basic

namespace descriptors

/-- `table` has the opening that each open descriptor comes from. The lists have the
openings that the object made, that it closed, and that it handed over. -/
structure Ledger where
  table : Int → Option Nat
  next : Nat
  opened : List Nat
  closed : List Nat
  handed : List Nat

namespace Ledger

/-! ## The calls -/

/-- A result of the kernel: a descriptor that is not open, or -1. -/
def Free (l : Ledger) (fd : Int) : Prop := fd = -1 ∨ (0 ≤ fd ∧ l.table fd = none)

instance (l : Ledger) (fd : Int) : Decidable (l.Free fd) := inferInstanceAs (Decidable (_ ∨ _))

/-- The object got the result of a call that opens. -/
def gain (fd : Int) (l : Ledger) : Ledger :=
  if 0 ≤ fd then { l with
    table := Function.update l.table fd (some l.next)
    next := l.next + 1
    opened := l.opened ++ [l.next] }
  else l

/-- `close(fd)` of the object. It fails where the descriptor is not open. -/
def close (fd : Int) (l : Ledger) : Ledger :=
  match l.table fd with
  | some n => { l with table := Function.update l.table fd none, closed := l.closed ++ [n] }
  | none => l

/-- The object gives the open descriptor away. -/
def hand (fd : Int) (l : Ledger) : Ledger :=
  match l.table fd with
  | some n => { l with handed := l.handed ++ [n] }
  | none => l

/-- Somebody else opens a descriptor. -/
def openOther (fd : Int) (l : Ledger) : Ledger :=
  { l with table := Function.update l.table fd (some l.next), next := l.next + 1 }

/-- Somebody else closes a descriptor. -/
def closeOther (fd : Int) (l : Ledger) : Ledger :=
  { l with table := Function.update l.table fd none }

/-- Whether the descriptor is open and not one that the object has kept. -/
def Others (l : Ledger) (fd : Int) : Prop :=
  ∃ n, l.table fd = some n ∧ (n ∈ l.opened → n ∈ l.handed)

@[simp] theorem gain_handed (l : Ledger) (fd : Int) : (l.gain fd).handed = l.handed := by
  unfold gain
  split <;> rfl

@[simp] theorem gain_closed (l : Ledger) (fd : Int) : (l.gain fd).closed = l.closed := by
  unfold gain
  split <;> rfl

@[simp] theorem close_handed (l : Ledger) (fd : Int) : (l.close fd).handed = l.handed := by
  unfold close
  split <;> rfl

theorem gain_table {fd : Int} (h : 0 ≤ fd) (l : Ledger) : (l.gain fd).table fd = some l.next := by
  unfold gain
  rw [if_pos h]
  exact Function.update_self ..

/-- A new opening is handed over. -/
theorem hand_gain {fd : Int} (h : 0 ≤ fd) (l : Ledger) :
    ((l.gain fd).hand fd).handed = l.handed ++ [l.next] ∧
      ((l.gain fd).hand fd).closed = l.closed := by
  unfold hand
  rw [gain_table h]
  exact ⟨congrArg (· ++ [l.next]) (l.gain_handed fd), l.gain_closed fd⟩

/-- A new opening is closed. -/
theorem close_gain {fd : Int} (h : 0 ≤ fd) (l : Ledger) :
    ((l.gain fd).close fd).closed = l.closed ++ [l.next] ∧
      ((l.gain fd).close fd).table fd = none := by
  unfold close
  rw [gain_table h]
  exact ⟨congrArg (· ++ [l.next]) (l.gain_closed fd), Function.update_self ..⟩

/-! ## The account -/

/-- The openings of the descriptors that the object holds. -/
def openings (l : Ledger) (held : List Int) : List Nat := held.filterMap l.table

/-- Each opening of the object was closed once, or handed over once, or is the one of
a descriptor that it holds. -/
structure Sound (l : Ledger) (held : List Int) : Prop where
  valid : ∀ fd n, l.table fd = some n → 0 ≤ fd ∧ n < l.next
  apart : ∀ fd fd' n, l.table fd = some n → l.table fd' = some n → fd = fd'
  below : ∀ n ∈ l.opened, n < l.next
  once : l.opened.Nodup
  account : l.opened.Perm (l.closed ++ l.handed ++ l.openings held)
  gone : ∀ n ∈ l.closed, ∀ fd, l.table fd ≠ some n
  held : ∀ fd ∈ held, 0 ≤ fd → l.table fd ≠ none

/-- Nothing of the object is open, and each of its openings was closed once or handed
over once. -/
structure Settled (l : Ledger) : Prop where
  account : l.opened.Perm (l.closed ++ l.handed)
  once : (l.closed ++ l.handed).Nodup
  left : ∀ fd n, l.table fd = some n → n ∈ l.opened → n ∈ l.handed

variable {l : Ledger} {held held' : List Int} {fd : Int}

theorem Sound.nodup (h : l.Sound held) : (l.closed ++ l.handed ++ l.openings held).Nodup :=
  h.account.nodup_iff.mp h.once

theorem Sound.perm (h : l.Sound held) (hp : held.Perm held') : l.Sound held' where
  valid := h.valid
  apart := h.apart
  below := h.below
  once := h.once
  account := h.account.trans ((hp.filterMap l.table).append_left _)
  gone := h.gone
  held fd hfd := h.held fd (hp.mem_iff.mpr hfd)

theorem Sound.start {table : Int → Option Nat} {next : Nat}
    (hvalid : ∀ fd n, table fd = some n → 0 ≤ fd ∧ n < next)
    (hapart : ∀ fd fd' n, table fd = some n → table fd' = some n → fd = fd') :
    (⟨table, next, [], [], []⟩ : Ledger).Sound [] where
  valid := hvalid
  apart := hapart
  below n hn := by cases hn
  once := .nil
  account := .nil
  gone n hn := by cases hn
  held fd hfd := by cases hfd

theorem Sound.not_open (h : l.Sound held) (hneg : fd < 0) : l.table fd = none := by
  cases ht : l.table fd with
  | none => rfl
  | some n =>
    have hpos := (h.valid fd n ht).1
    omega

/-- The openings do not change with another descriptor. -/
theorem openings_update (hne : ∀ g ∈ held, g ≠ fd) (o : Option Nat) :
    held.filterMap (Function.update l.table fd o) = l.openings held :=
  List.filterMap_congr fun g hg => Function.update_of_ne (hne g hg) o l.table

theorem openings_cons (l : Ledger) (fd : Int) (held : List Int) :
    l.openings (fd :: held) = (l.table fd).toList ++ l.openings held := by
  unfold openings
  cases ht : l.table fd with
  | none => rw [List.filterMap_cons_none ht]; rfl
  | some n => rw [List.filterMap_cons_some ht]; rfl

/-- A held descriptor is another one than one that is not open. -/
theorem Sound.ne_of_free (h : l.Sound held) (hpos : 0 ≤ fd) (hfree : l.table fd = none) :
    ∀ g ∈ held, g ≠ fd := by
  rintro g hg rfl
  exact h.held g hg hpos hfree

/-- A new opening keeps the numbers apart. -/
theorem Sound.update_next (h : l.Sound held) (hpos : 0 ≤ fd) :
    (∀ g n, Function.update l.table fd (some l.next) g = some n → 0 ≤ g ∧ n < l.next + 1) ∧
    ∀ g g' n, Function.update l.table fd (some l.next) g = some n →
      Function.update l.table fd (some l.next) g' = some n → g = g' := by
  refine ⟨fun g n hg => ?_, fun g g' n hg hg' => ?_⟩
  · rw [Function.update_apply] at hg
    split at hg
    · rename_i hgf
      cases hg
      exact ⟨by omega, Nat.lt_succ_self _⟩
    · have hold := h.valid g n hg
      exact ⟨hold.1, Nat.lt_succ_of_lt hold.2⟩
  · rw [Function.update_apply] at hg hg'
    split at hg <;> split at hg'
    · omega
    · cases hg
      exact absurd (h.valid g' _ hg').2 (Nat.lt_irrefl _)
    · cases hg'
      exact absurd (h.valid g _ hg).2 (Nat.lt_irrefl _)
    · exact h.apart g g' n hg hg'

/-- What is open after a close was open before. -/
theorem of_update_none {g : Int} {n : Nat} (hg : Function.update l.table fd none g = some n) :
    g ≠ fd ∧ l.table g = some n := by
  rw [Function.update_apply] at hg
  split at hg
  · cases hg
  · rename_i hgf
    exact ⟨hgf, hg⟩

/-- A close keeps the numbers apart. -/
theorem Sound.update_none (h : l.Sound held) (fd : Int) :
    (∀ g n, Function.update l.table fd none g = some n → 0 ≤ g ∧ n < l.next) ∧
    ∀ g g' n, Function.update l.table fd none g = some n →
      Function.update l.table fd none g' = some n → g = g' := by
  refine ⟨fun g n hg => ?_, fun g g' n hg hg' => ?_⟩
  · exact h.valid g n (of_update_none hg).2
  · exact h.apart g g' n (of_update_none hg).2 (of_update_none hg').2

/-- An opening of a held descriptor is one of the object, and it is in neither list. -/
theorem Sound.of_held (h : l.Sound held) {n : Nat} (hfd : fd ∈ held) (hn : l.table fd = some n) :
    n ∈ l.opened ∧ n ∉ l.closed ++ l.handed := by
  have hin : n ∈ l.openings held := List.mem_filterMap.mpr ⟨fd, hfd, hn⟩
  have hnodup := h.nodup
  rw [List.nodup_append] at hnodup
  refine ⟨h.account.mem_iff.mpr (List.mem_append_right _ hin), fun hout => ?_⟩
  exact hnodup.2.2 n hout n hin rfl

theorem Sound.gain (h : l.Sound held) (hfree : l.Free fd) : (l.gain fd).Sound (fd :: held) := by
  unfold Ledger.gain
  split
  · rename_i hpos
    have hnone : l.table fd = none := by
      rcases hfree with rfl | ⟨_, hnone⟩
      · omega
      · exact hnone
    have hne := h.ne_of_free hpos hnone
    have hfresh : l.next ∉ l.opened := fun hin => Nat.lt_irrefl _ (h.below _ hin)
    obtain ⟨hvalid, hapart⟩ := h.update_next hpos
    refine ⟨hvalid, hapart, fun n hn => ?_, ?_, ?_, fun n hn g hg => ?_, fun g hg hpos' => ?_⟩
    · rcases List.mem_append.mp hn with hold | hnew
      · exact Nat.lt_succ_of_lt (h.below n hold)
      · rw [List.mem_singleton.mp hnew]
        exact Nat.lt_succ_self _
    · rw [List.nodup_append]
      refine ⟨h.once, List.nodup_singleton _, ?_⟩
      rintro n hn m hm rfl
      rw [List.mem_singleton.mp hm] at hn
      exact hfresh hn
    · have haccount := h.account
      rw [← openings_update hne (some l.next)] at haccount
      rw [openings_cons]
      simp only [Function.update_self, Option.toList_some]
      refine (haccount.append_right [l.next]).trans ?_
      rw [List.append_assoc]
      exact List.perm_append_comm.append_left _
    · simp only [Function.update_apply] at hg
      split at hg
      · cases hg
        exact hfresh (h.account.mem_iff.mpr
          (List.mem_append_left _ (List.mem_append_left _ hn)))
      · exact h.gone n hn g hg
    · simp only [Function.update_apply]
      split
      · simp
      · rename_i hgf
        exact h.held g ((List.mem_cons.mp hg).resolve_left hgf) hpos'
  · rename_i hneg
    have hnone : l.table fd = none := h.not_open (by omega)
    refine ⟨h.valid, h.apart, h.below, h.once, ?_, h.gone, fun g hg hpos => ?_⟩
    · rw [openings_cons, hnone]
      exact h.account
    · rcases List.mem_cons.mp hg with rfl | hg
      · exact absurd hpos hneg
      · exact h.held g hg hpos

/-- A descriptor is held once. -/
theorem Sound.ne_of_held (h : l.Sound (fd :: held)) {n : Nat} (hn : l.table fd = some n) :
    ∀ g ∈ held, g ≠ fd := by
  rintro g hg rfl
  have hnodup := h.nodup
  rw [openings_cons, hn, Option.toList_some, List.nodup_append] at hnodup
  obtain ⟨_, hheld, _⟩ := hnodup
  rw [List.singleton_append, List.nodup_cons] at hheld
  exact hheld.1 (List.mem_filterMap.mpr ⟨g, hg, hn⟩)

theorem Sound.close (h : l.Sound (fd :: held)) : (l.close fd).Sound held := by
  unfold Ledger.close
  cases hn : l.table fd with
  | none =>
    refine ⟨h.valid, h.apart, h.below, h.once, ?_, h.gone,
      fun g hg => h.held g (List.mem_cons_of_mem _ hg)⟩
    have haccount := h.account
    rw [openings_cons, hn] at haccount
    exact haccount
  | some n =>
    have hne := h.ne_of_held hn
    obtain ⟨hvalid, hapart⟩ := h.update_none fd
    refine ⟨hvalid, hapart, h.below, h.once, ?_, fun m hm g hg => ?_, fun g hg hpos => ?_⟩
    · have haccount := h.account
      rw [openings_cons, hn, Option.toList_some, ← openings_update hne none] at haccount
      refine haccount.trans ?_
      -- the opening goes from the held ones to the closed ones
      simp only [List.append_assoc, openings]
      refine List.Perm.append_left _ ?_
      rw [← List.append_assoc l.handed, ← List.append_assoc [n]]
      exact List.perm_append_comm.append_right _
    · obtain ⟨hgf, hold⟩ := of_update_none hg
      rcases List.mem_append.mp hm with hin | hnew
      · exact h.gone m hin g hold
      · rw [List.mem_singleton.mp hnew] at hold
        exact hgf (h.apart g fd n hold hn)
    · simp only [Function.update_of_ne (hne g hg)]
      exact h.held g (List.mem_cons_of_mem _ hg) hpos

theorem Sound.hand (h : l.Sound (fd :: held)) : (l.hand fd).Sound held := by
  have haccount := h.account
  unfold Ledger.hand
  cases hn : l.table fd with
  | none =>
    rw [openings_cons, hn] at haccount
    exact ⟨h.valid, h.apart, h.below, h.once, haccount, h.gone,
      fun g hg => h.held g (List.mem_cons_of_mem _ hg)⟩
  | some n =>
    rw [openings_cons, hn, Option.toList_some] at haccount
    refine ⟨h.valid, h.apart, h.below, h.once, ?_, h.gone,
      fun g hg => h.held g (List.mem_cons_of_mem _ hg)⟩
    refine haccount.trans ?_
    simp only [List.append_assoc]
    exact List.Perm.refl _

theorem Sound.openOther (h : l.Sound held) (hpos : 0 ≤ fd) (hfree : l.table fd = none) :
    (l.openOther fd).Sound held := by
  have hne := h.ne_of_free hpos hfree
  obtain ⟨hvalid, hapart⟩ := h.update_next hpos
  unfold Ledger.openOther
  refine ⟨hvalid, hapart, fun n hn => Nat.lt_succ_of_lt (h.below n hn), h.once, ?_,
    fun n hn g hg => ?_, fun g hg hpos' => ?_⟩
  · have haccount := h.account
    rw [← openings_update hne (some l.next)] at haccount
    exact haccount
  · simp only [Function.update_apply] at hg
    split at hg
    · cases hg
      exact Nat.lt_irrefl _ (h.below _ (h.account.mem_iff.mpr
        (List.mem_append_left _ (List.mem_append_left _ hn))))
    · exact h.gone n hn g hg
  · simp only [Function.update_of_ne (hne g hg)]
    exact h.held g hg hpos'

/-- Somebody else does not close what the object holds. -/
theorem Sound.closeOther (h : l.Sound held) (ho : l.Others fd) :
    (l.closeOther fd).Sound held := by
  obtain ⟨n, hn, hhanded⟩ := ho
  have hne : ∀ g ∈ held, g ≠ fd := by
    rintro g hg rfl
    obtain ⟨hopened, hout⟩ := h.of_held hg hn
    exact hout (List.mem_append_right _ (hhanded hopened))
  obtain ⟨hvalid, hapart⟩ := h.update_none fd
  unfold Ledger.closeOther
  refine ⟨hvalid, hapart, h.below, h.once, ?_, fun m hm g hg => ?_, fun g hg hpos => ?_⟩
  · have haccount := h.account
    rw [← openings_update hne none] at haccount
    exact haccount
  · exact h.gone m hm g (of_update_none hg).2
  · simp only [Function.update_of_ne (hne g hg)]
    exact h.held g hg hpos

/-! ## The end of the account -/

/-- In a sound account nothing is closed or handed over twice, nor both. -/
theorem Sound.disjoint (h : l.Sound held) :
    (l.closed ++ l.handed).Nodup ∧ ∀ n ∈ l.closed ++ l.handed, n ∈ l.opened := by
  have hnodup := h.nodup
  rw [List.nodup_append] at hnodup
  exact ⟨hnodup.1, fun n hn => h.account.mem_iff.mpr (List.mem_append_left _ hn)⟩

/-- The account is settled exactly if no held descriptor is one. -/
theorem Sound.settled_iff (h : l.Sound held) : l.Settled ↔ ∀ fd ∈ held, fd < 0 := by
  constructor
  · intro hs fd hfd
    by_contra hpos
    cases hn : l.table fd with
    | none => exact h.held fd hfd (by omega) hn
    | some n =>
      obtain ⟨hopened, hout⟩ := h.of_held hfd hn
      exact hout (List.mem_append_right _ (hs.left fd n hn hopened))
  · intro hall
    have hnone : l.openings held = [] := by
      unfold openings
      rw [List.filterMap_eq_nil_iff]
      intro fd hfd
      exact h.not_open (hall fd hfd)
    have haccount := h.account
    rw [hnone, List.append_nil] at haccount
    refine ⟨haccount, h.disjoint.1, fun fd n hn hopened => ?_⟩
    rcases List.mem_append.mp (haccount.mem_iff.mp hopened) with hclosed | hhanded
    · exact absurd hn (h.gone n hclosed fd)
    · exact hhanded

end Ledger

end descriptors
