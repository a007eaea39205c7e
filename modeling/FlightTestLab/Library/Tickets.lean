import Mathlib.Data.Finset.Card
import Mathlib.Logic.Function.Basic
import Mathlib.Order.Interval.Finset.Nat

/-!
# Numbers handed out by a counter

Parties take the next number of a counter, keep it for a while and then use it or give
it up. Who takes a number, and when it is used, is any.

## Main definitions

- `Tickets.Desk`: the numbers issued, held and used
- `Tickets.Move`: what one step can do to them
- `Tickets.Desk.Sound`: no number is in two places

## Main results

- `Tickets.Move.sound`: a step keeps that
- `Tickets.Desk.Sound.length_used_lt`: how many numbers below a bound can be used
-/

namespace Tickets

variable {ι : Type*} [DecidableEq ι]

structure Desk (ι : Type*) where
  /-- How many numbers were issued; the first is 1. -/
  issued : Nat
  held : ι → Option Nat
  /-- The latest first. -/
  used : List Nat

namespace Desk

variable (d : Desk ι) (i : ι)

def take : Desk ι :=
  { d with issued := d.issued + 1, held := Function.update d.held i (some (d.issued + 1)) }

def drop : Desk ι := { d with held := Function.update d.held i none }

def use (k : Nat) : Desk ι := { d.drop i with used := k :: d.used }

end Desk

/-- One step: nothing, a number taken, given up, or used by who holds it. -/
inductive Move (d : Desk ι) : Desk ι → Prop
  | stay : Move d d
  | take (i : ι) : Move d (d.take i)
  | drop (i : ι) : Move d (d.drop i)
  | use (i : ι) (k : Nat) (h : d.held i = some k) : Move d (d.use i k)

/-- Each number issued is held by one party at most, or used once, or neither. -/
structure Desk.Sound (d : Desk ι) : Prop where
  held_range : ∀ i k, d.held i = some k → 0 < k ∧ k ≤ d.issued
  held_single : ∀ i j k, d.held i = some k → d.held j = some k → i = j
  held_unused : ∀ i k, d.held i = some k → k ∉ d.used
  used_range : ∀ k ∈ d.used, 0 < k ∧ k ≤ d.issued
  used_nodup : d.used.Nodup

namespace Desk

variable {d : Desk ι} {i : ι} {k : Nat}

theorem held_take_iff (j : ι) :
    (d.take i).held j = some k ↔ if j = i then k = d.issued + 1 else d.held j = some k := by
  show Function.update d.held i (some (d.issued + 1)) j = some k ↔ _
  rw [Function.update_apply]
  by_cases hj : j = i
  · rw [if_pos hj, if_pos hj, Option.some.injEq, eq_comm]
  · rw [if_neg hj, if_neg hj]

theorem held_drop_iff (j : ι) :
    (d.drop i).held j = some k ↔ j ≠ i ∧ d.held j = some k := by
  show Function.update d.held i none j = some k ↔ _
  rw [Function.update_apply]
  by_cases hj : j = i
  · simp [hj]
  · simp [hj]

theorem Sound.take (h : d.Sound) (i : ι) : (d.take i).Sound where
  held_range := by
    intro j k hj
    rw [held_take_iff] at hj
    show 0 < k ∧ k ≤ d.issued + 1
    split at hj
    · omega
    · have := h.held_range j k hj
      omega
  held_single := by
    intro j j' k hj hj'
    rw [held_take_iff] at hj hj'
    split at hj <;> split at hj'
    · rename_i hji hji'
      rw [hji, hji']
    -- a number held before is not the new one
    · have := h.held_range _ _ hj'
      omega
    · have := h.held_range _ _ hj
      omega
    · exact h.held_single j j' k hj hj'
  held_unused := by
    intro j k hj hk
    rw [held_take_iff] at hj
    split at hj
    · have := h.used_range k hk
      omega
    · exact h.held_unused j k hj hk
  used_range := by
    intro k hk
    have := h.used_range k hk
    show 0 < k ∧ k ≤ d.issued + 1
    omega
  used_nodup := h.used_nodup

theorem Sound.drop (h : d.Sound) (i : ι) : (d.drop i).Sound where
  held_range := fun j k hj => h.held_range j k ((held_drop_iff j).mp hj).2
  held_single := fun j j' k hj hj' =>
    h.held_single j j' k ((held_drop_iff j).mp hj).2 ((held_drop_iff j').mp hj').2
  held_unused := fun j k hj => h.held_unused j k ((held_drop_iff j).mp hj).2
  used_range := h.used_range
  used_nodup := h.used_nodup

theorem Sound.use (h : d.Sound) (hk : d.held i = some k) : (d.use i k).Sound where
  held_range := (h.drop i).held_range
  held_single := (h.drop i).held_single
  held_unused := by
    intro j l hj hl
    have hj' := (held_drop_iff j).mp hj
    obtain hlk | hl := List.mem_cons.mp hl
    -- who else held it would be its holder
    · rw [hlk] at hj'
      exact hj'.1 (h.held_single j i k hj'.2 hk)
    · exact h.held_unused j l hj'.2 hl
  used_range := by
    intro l hl
    obtain hlk | hl := List.mem_cons.mp hl
    · rw [hlk]
      exact h.held_range i k hk
    · exact h.used_range l hl
  used_nodup := List.nodup_cons.mpr ⟨h.held_unused i k hk, h.used_nodup⟩

omit [DecidableEq ι] in
/-- Numbers below a bound are fewer than it. -/
theorem Sound.length_used_lt {n : Nat} (h : d.Sound) (hn : 0 < n) (hlt : ∀ k ∈ d.used, k < n) :
    d.used.length < n := by
  have hsub : d.used.toFinset ⊆ Finset.Ico 1 n := by
    intro k hk
    have hk := List.mem_toFinset.mp hk
    exact Finset.mem_Ico.mpr ⟨(h.used_range k hk).1, hlt k hk⟩
  have hcard := Finset.card_le_card hsub
  rw [List.toFinset_card_of_nodup h.used_nodup, Nat.card_Ico] at hcard
  omega

end Desk

theorem Move.sound {d d' : Desk ι} (hd : d.Sound) (h : Move d d') : d'.Sound := by
  cases h with
  | stay => exact hd
  | take i => exact hd.take i
  | drop i => exact hd.drop i
  | use i k hk => exact hd.use hk

end Tickets
