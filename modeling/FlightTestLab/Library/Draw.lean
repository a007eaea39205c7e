import Mathlib.Algebra.Order.Field.Basic
import Mathlib.Algebra.BigOperators.Group.List.Basic
import Mathlib.Algebra.Order.BigOperators.Group.List
import Mathlib.Data.List.Basic

/-!
# Drawing by weights

A draw walks the running totals of the weights to the first that exceeds a number. Each position
then owns the interval between two running totals, whose length is its weight.

## Main definitions

- `Draw.totals`: the running totals
- `Draw.position`: the position that a number draws

## Main results

- `Draw.position_eq_iff`: the numbers that draw a position
- `Draw.position_scaled_iff`: the same for a number in the unit interval
-/

namespace Draw

variable {α : Type*} [Field α]

/-- The running totals of weights, from what comes before them. -/
def totals (before : α) : List α → List α
  | [] => []
  | w :: ws => (before + w) :: totals (before + w) ws

@[simp] theorem length_totals (before : α) (ws : List α) :
    (totals before ws).length = ws.length := by
  induction ws generalizing before with
  | nil => rfl
  | cons w ws ih => simp [totals, ih]

theorem getElem_totals (before : α) (ws : List α) {i : Nat} (h : i < (totals before ws).length) :
    (totals before ws)[i] = before + (ws.take (i + 1)).sum := by
  induction ws generalizing before i with
  | nil => cases h
  | cons w ws ih =>
    cases i with
    | zero => simp [totals]
    | succ i =>
      simp only [totals, List.getElem_cons_succ, List.take_succ_cons, List.sum_cons]
      rw [ih, add_assoc]

variable [LinearOrder α]

/-- The first position whose running total exceeds `x`, or the last position. -/
def position (ws : List α) (x : α) : Nat :=
  ((totals 0 ws).take (ws.length - 1)).findIdx (x < ·)

/-- The position that is drawn owns the number. -/
theorem position_spec {ws : List α} {x : α} (h0 : 0 ≤ x) (hx : x < ws.sum) :
    position ws x < ws.length ∧ (ws.take (position ws x)).sum ≤ x ∧
      x < (ws.take (position ws x + 1)).sum := by
  have hpos : 0 < ws.length := by
    cases ws with
    | nil => exact absurd hx (not_lt.mpr h0)
    | cons w ws => exact Nat.succ_pos _
  have hlength : ((totals 0 ws).take (ws.length - 1)).length = ws.length - 1 := by
    rw [List.length_take, length_totals]
    omega
  have hle : position ws x ≤ ws.length - 1 := by
    rw [← hlength]
    exact List.findIdx_le_length
  have hget {j : Nat} (hj : j < ((totals 0 ws).take (ws.length - 1)).length) :
      ((totals 0 ws).take (ws.length - 1))[j] = (ws.take (j + 1)).sum := by
    rw [List.getElem_take, getElem_totals, zero_add]
  refine ⟨by omega, ?_, ?_⟩
  · -- the total before it does not exceed the number
    obtain hzero | ⟨j, hj⟩ : position ws x = 0 ∨ ∃ j, position ws x = j + 1 := by
      cases position ws x with
      | zero => exact .inl rfl
      | succ j => exact .inr ⟨j, rfl⟩
    · rw [hzero, List.take_zero, List.sum_nil]
      exact h0
    · have hlt : j < position ws x := by omega
      have hnot := List.not_of_lt_findIdx (p := fun total => decide (x < total)) hlt
      rw [hget, decide_eq_false_iff_not, not_lt] at hnot
      rw [hj]
      exact hnot
  · by_cases hlast : position ws x < ws.length - 1
    · have hj : position ws x < ((totals 0 ws).take (ws.length - 1)).length := by omega
      have hfound := List.findIdx_getElem (p := fun total => decide (x < total)) (w := hj)
      rw [← hget hj]
      exact of_decide_eq_true hfound
    · rw [List.take_of_length_le (by omega)]
      exact hx

variable [IsStrictOrderedRing α]

/-- Running totals of weights that are not negative do not fall. -/
theorem sum_take_mono {ws : List α} (h : ∀ w ∈ ws, 0 ≤ w) {i j : Nat} (hij : i ≤ j) :
    (ws.take i).sum ≤ (ws.take j).sum := by
  obtain ⟨d, rfl⟩ := Nat.exists_eq_add_of_le hij
  rw [List.take_add, List.sum_append]
  have hrest : 0 ≤ ((ws.drop i).take d).sum :=
    List.sum_nonneg fun w hw => h w (List.mem_of_mem_drop (List.mem_of_mem_take hw))
  exact le_add_of_nonneg_right hrest

/-- A position is drawn by the numbers from the total before it up to its own, below the sum. -/
theorem position_eq_iff {ws : List α} (h : ∀ w ∈ ws, 0 ≤ w) {x : α} (h0 : 0 ≤ x)
    (hx : x < ws.sum) (i : Nat) :
    position ws x = i ↔ i < ws.length ∧ (ws.take i).sum ≤ x ∧ x < (ws.take (i + 1)).sum := by
  obtain ⟨hlt, hbelow, habove⟩ := position_spec h0 hx
  constructor
  · rintro rfl
    exact ⟨hlt, hbelow, habove⟩
  · rintro ⟨-, hbelow', habove'⟩
    -- of two positions the first has its total below the number
    refine le_antisymm (not_lt.mp fun hi => ?_) (not_lt.mp fun hi => ?_)
    · exact absurd habove' (not_lt.mpr ((sum_take_mono h hi).trans hbelow))
    · exact absurd habove (not_lt.mpr ((sum_take_mono h hi).trans hbelow'))

/-- Of the numbers in the unit interval, a position is drawn by an interval whose length is its
share of the weights. -/
theorem position_scaled_iff {ws : List α} (h : ∀ w ∈ ws, 0 ≤ w) (hsum : 0 < ws.sum) {u : α}
    (h0 : 0 ≤ u) (h1 : u < 1) (i : Nat) :
    position ws (u * ws.sum) = i ↔ i < ws.length ∧
      (ws.take i).sum / ws.sum ≤ u ∧ u < (ws.take (i + 1)).sum / ws.sum := by
  rw [div_le_iff₀ hsum, lt_div_iff₀ hsum]
  refine position_eq_iff h (mul_nonneg h0 hsum.le) ?_ i
  calc u * ws.sum < 1 * ws.sum := mul_lt_mul_of_pos_right h1 hsum
    _ = ws.sum := one_mul _

end Draw
