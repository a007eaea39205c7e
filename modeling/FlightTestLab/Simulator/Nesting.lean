import Mathlib.Tactic.Lift
import FlightTestLab.Library.Search
import FlightTestLab.Simulator.Request

/-!
# The nesting walk against the depth of a value

`exceeds_nesting_limit` keeps the values it has still to look at on a stack, each with its
level, and returns at the first one below the limit. It is one of the searches of the tree
of values for a level below the limit, and they all answer alike.

## Main definitions

- `Simulator.entries`: the tree of values with their levels
- `Simulator.TooDeep`: what the walk looks for

## Main results

- `Simulator.nesting_walk`: the walk ends and compares the depth with the limit
-/

namespace Simulator

open Python (Value)

variable {F : Type}

theorem pending_extension_lt (entry : Value F × Nat) :
    pending (extension entry.1 entry.2) < nodes entry.1 := by
  have hpushed := pending_extension entry.1 entry.2
  omega

/-- A value with its level, and below it what the walk pushes for it. -/
def entries : Walk.Branching (Value F × Nat) where
  children entry := extension entry.1 entry.2
  sized := ⟨fun entry => nodes entry.1, pending_extension_lt⟩

/-- The test of the walk. -/
def TooDeep (limit : Int) (entry : Value F × Nat) : Prop := limit < entry.2

/-- The loop is a search that goes on with what was pushed last and ends at once. -/
theorem nestingLoop_search (limit : Int) (stack : List (Value F × Nat)) :
    entries.Search (TooDeep limit) (stack : Multiset (Value F × Nat)) (nestingLoop limit stack) := by
  induction stack using nestingLoop.induct limit with
  | case1 =>
    rw [nestingLoop]
    exact .exhausted
  | case2 current depth stack h =>
    have hdeep : TooDeep limit (current, depth) := h
    rw [nestingLoop, if_pos h, ← Multiset.cons_coe]
    exact .stop hdeep
  | case3 current depth stack h ih =>
    have hdeep : ¬ TooDeep limit (current, depth) := h
    rw [← Multiset.coe_add] at ih
    rw [nestingLoop, if_neg h, ← Multiset.cons_coe]
    exact .pass hdeep ih

/-- Children reach past the limit from the next level when their depth does. -/
theorem children_deep {α : Type} {children : List α} {depthOf : α → Nat} {below depth limit : Nat}
    (hbelow : ∀ n, below ≤ n ↔ ∀ child ∈ children, depthOf child ≤ n) (h : depth ≤ limit) :
    (∃ child ∈ children, limit + 1 < depth + 1 + depthOf child) ↔
      limit + 1 < depth + (1 + below) := by
  have hle := hbelow (limit - depth)
  constructor
  · rintro ⟨child, hchild, hlt⟩
    by_contra hno
    have hdepth := hle.mp (by omega) child hchild
    omega
  · intro hlt
    by_contra hno
    push Not at hno
    have hall (child : α) (hchild : child ∈ children) : depthOf child ≤ limit - depth := by
      have hdepth := hno child hchild
      omega
    have hdepth := hle.mpr hall
    omega

/-- A value within the limit reaches past it exactly through what it pushes. -/
theorem extension_deep {current : Value F} {depth limit : Nat} (h : depth ≤ limit) :
    (∃ entry ∈ extension current depth, limit + 1 < entry.2 + entry.1.depth) ↔
      limit + 1 < depth + current.depth := by
  cases current with
  | dict items =>
    have hbelow (n : Nat) : Value.depthItems items ≤ n ↔ ∀ item ∈ items, item.2.depth ≤ n :=
      Value.depthItems_le_iff
    have hdeep := children_deep hbelow h
    simp only [extension, List.mem_reverse, List.mem_map, exists_exists_and_eq_and, Value.depth]
    exact hdeep
  | list items =>
    have hbelow (n : Nat) : Value.depthElements items ≤ n ↔ ∀ item ∈ items, item.depth ≤ n :=
      Value.depthElements_le_iff
    have hdeep := children_deep hbelow h
    simp only [extension, List.mem_reverse, List.mem_map, exists_exists_and_eq_and, Value.depth]
    exact hdeep
  | _ =>
    simp only [extension, List.not_mem_nil, false_and, exists_false, Value.depth, false_iff]
    omega

/-- A level below the limit is reached when the depth goes past it from the level of the
value. -/
theorem reaches_iff (limit : Int) (entry : Value F × Nat) :
    (∃ deeper, entries.Inside entry deeper ∧ TooDeep limit deeper) ↔
      limit + 1 < entry.2 + entry.1.depth := by
  induction entry using entries.induction with
  | h entry ih =>
    have hpos := entry.1.depth_pos
    by_cases hdeep : TooDeep limit entry
    · have hlimit : limit < entry.2 := hdeep
      refine iff_of_true ⟨entry, .refl, hdeep⟩ ?_
      omega
    · have hlimit : (entry.2 : Int) ≤ limit := Int.not_lt.mp hdeep
      lift limit to Nat using by omega
      have hpushed : (∃ child ∈ extension entry.1 entry.2, limit + 1 < child.2 + child.1.depth) ↔
          limit + 1 < entry.2 + entry.1.depth := extension_deep (by omega)
      have hbelow : (∃ deeper, entries.Inside entry deeper ∧ TooDeep limit deeper) ↔
          ∃ child ∈ extension entry.1 entry.2,
            ∃ deeper, entries.Inside child deeper ∧ TooDeep limit deeper := by
        constructor
        · rintro ⟨deeper, hinside, htoo⟩
          obtain rfl | ⟨child, hchild, hinside⟩ := entries.inside_iff.mp hinside
          · exact absurd htoo hdeep
          · exact ⟨child, hchild, deeper, hinside, htoo⟩
        · rintro ⟨child, hchild, deeper, hinside, htoo⟩
          exact ⟨deeper, entries.inside_iff.mpr (Or.inr ⟨child, hchild, hinside⟩), htoo⟩
      have hcast : (limit : Int) + 1 < entry.2 + entry.1.depth ↔
          limit + 1 < entry.2 + entry.1.depth := by omega
      rw [hbelow, hcast, ← hpushed]
      refine exists_congr fun child => and_congr_right fun hchild => ?_
      rw [ih child hchild]
      omega

theorem exceedsNestingLimit_iff (value : Value F) (limit : Int) :
    exceedsNestingLimit value limit = true ↔ limit < value.depth := by
  have hsearch := nestingLoop_search limit [(value, 1)]
  rw [exceedsNestingLimit, hsearch.answer_iff]
  simp only [Multiset.mem_coe, List.mem_singleton, exists_eq_left, reaches_iff]
  omega

/-- The walk compares the depth of the value with the limit. It is a search of the values
with their levels; every such search, in whatever order and whether or not it stops at the
first value below the limit, comes to an end and answers the same. -/
theorem nesting_walk (value : Value F) (limit : Int) :
    (exceedsNestingLimit value limit = true ↔ limit < value.depth) ∧
    entries.Search (TooDeep limit) {(value, 1)} (exceedsNestingLimit value limit) ∧
    (∀ answer, entries.Search (TooDeep limit) {(value, 1)} answer →
      answer = exceedsNestingLimit value limit) ∧
    ∀ walk : Nat → Multiset (Value F × Nat), walk 0 = {(value, 1)} →
      ∃ n, ¬ entries.Visits (walk n) (walk (n + 1)) := by
  have hsearch : entries.Search (TooDeep limit) {(value, 1)} (exceedsNestingLimit value limit) :=
    nestingLoop_search limit [(value, 1)]
  refine ⟨exceedsNestingLimit_iff value limit, hsearch, ?_, ?_⟩
  · intro answer hanswer
    exact hanswer.unique hsearch
  · intro walk _
    exact Walk.Branching.visits_end walk

end Simulator
