import Mathlib.Algebra.BigOperators.Group.Multiset.Basic
import FlightTestLab.Library.Walk

/-!
# Searches in any order

A search takes a node out of what is left, in whatever order, and puts its children in
its place. What it answers does not depend on the order, nor on whether it stops at the
first node that it looks for.

## Main definitions

- `Walk.Branching.Visits`: one node is visited
- `Walk.Branching.Search`: a search and its answer

## Main results

- `Walk.Branching.visits_end`: no search goes on forever
- `Walk.Branching.Search.answer_iff`: the answer is about what is in the trees
- `Walk.Branching.Search.unique`: no two searches answer differently
-/

namespace Walk.Branching

variable {α : Type*} (B : Branching α) (p : α → Prop)

/-- Any node is taken out and its children are put in. -/
inductive Visits : Multiset α → Multiset α → Prop
  | visit (a : α) (todo : Multiset α) : Visits (a ::ₘ todo) (B.children a + todo)

/-- A search for a node with `p`. One that is met may end it or only be noted. -/
inductive Search : Multiset α → Bool → Prop
  | exhausted : Search 0 false
  | stop {a : α} {todo : Multiset α} : p a → Search (a ::ₘ todo) true
  | note {a : α} {todo : Multiset α} {answer : Bool} :
      p a → Search (B.children a + todo) answer → Search (a ::ₘ todo) true
  | pass {a : α} {todo : Multiset α} {answer : Bool} :
      ¬ p a → Search (B.children a + todo) answer → Search (a ::ₘ todo) answer

/-- The size of all that is left. -/
noncomputable def total (todo : Multiset α) : Nat := (todo.map B.size).sum

theorem total_visit (a : α) (todo : Multiset α) :
    B.total (B.children a + todo) < B.total (a ::ₘ todo) := by
  have hsum := B.sum_lt a
  rw [total, total, Multiset.map_add, Multiset.sum_add, Multiset.map_coe, Multiset.sum_coe,
    Multiset.map_cons, Multiset.sum_cons]
  omega

variable {B p} {todo : Multiset α} {answer : Bool}

theorem Visits.total_lt {after : Multiset α} (h : B.Visits todo after) :
    B.total after < B.total todo := by
  cases h with
  | visit a todo => exact B.total_visit a todo

/-- Visits in any order come to an end. -/
theorem visits_end (walk : Nat → Multiset α) : ∃ n, ¬ B.Visits (walk n) (walk (n + 1)) := by
  by_contra hgoes
  push Not at hgoes
  have hdrop (n : Nat) : B.total (walk n) + n ≤ B.total (walk 0) := by
    induction n with
    | zero => exact Nat.le_refl _
    | succ n ih =>
      have hlt := (hgoes n).total_lt
      omega
  have hlate := hdrop (B.total (walk 0) + 1)
  omega

/-- In the trees of `a` and of `todo` there is what is in `a`, below it or in `todo`. -/
theorem exists_inside_cons {a : α} :
    (∃ root ∈ a ::ₘ todo, ∃ b, B.Inside root b ∧ p b) ↔
      p a ∨ ∃ root ∈ B.children a + todo, ∃ b, B.Inside root b ∧ p b := by
  simp only [Multiset.mem_cons, Multiset.mem_add, Multiset.mem_coe]
  constructor
  · rintro ⟨root, rfl | hroot, b, hb, hpb⟩
    · obtain rfl | ⟨child, hchild, hb⟩ := B.inside_iff.mp hb
      · exact Or.inl hpb
      · exact Or.inr ⟨child, Or.inl hchild, b, hb, hpb⟩
    · exact Or.inr ⟨root, Or.inr hroot, b, hb, hpb⟩
  · rintro (hpa | ⟨root, hroot | hroot, b, hb, hpb⟩)
    · exact ⟨a, Or.inl rfl, a, .refl, hpa⟩
    · exact ⟨a, Or.inl rfl, b, B.inside_iff.mpr (Or.inr ⟨root, hroot, hb⟩), hpb⟩
    · exact ⟨root, Or.inr hroot, b, hb, hpb⟩

/-- Every search answers whether what it looks for is there. -/
theorem Search.answer_iff (h : B.Search p todo answer) :
    answer = true ↔ ∃ root ∈ todo, ∃ b, B.Inside root b ∧ p b := by
  induction h with
  | exhausted => simp
  | stop hpa => exact iff_of_true rfl (exists_inside_cons.mpr (Or.inl hpa))
  | note hpa _ _ => exact iff_of_true rfl (exists_inside_cons.mpr (Or.inl hpa))
  | pass hpa _ ih => rw [ih, exists_inside_cons, or_iff_right hpa]

/-- Whatever the order, the answer is the same. -/
theorem Search.unique {other : Bool} (h : B.Search p todo answer) (h' : B.Search p todo other) :
    answer = other := by
  rw [Bool.eq_iff_iff, h.answer_iff, h'.answer_iff]

end Walk.Branching
