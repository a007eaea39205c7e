import Mathlib.Algebra.GroupWithZero.Nat
import Mathlib.Algebra.Order.BigOperators.Group.List
import Mathlib.Algebra.Order.Group.Nat
import Mathlib.Logic.Relation

/-!
# Walks over finitely branching trees

A tree is a node with a list of children, each of them smaller. Two ways of listing what
is in it: breadth first with a queue, and depth first with the node before its children.

## Main definitions

- `Walk.Branching`: children that are smaller than their node
- `Walk.Branching.walk`: breadth first
- `Walk.Branching.iter`: depth first

## Main results

- `Walk.Branching.induction`: what holds of a node whose children it holds of holds of all
- `Walk.Branching.mem_walk_iff`, `Walk.Branching.mem_iter_iff`: both list what is in the tree
-/

namespace Walk

variable {α : Type*}

/-- The children of a node, together smaller than it in some measure. -/
structure Branching (α : Type*) where
  children : α → List α
  sized : ∃ size : α → Nat, ∀ a, ((children a).map size).sum < size a

namespace Branching

variable (B : Branching α) {a b : α}

noncomputable def size : α → Nat := B.sized.choose

theorem sum_lt (a : α) : ((B.children a).map B.size).sum < B.size a := B.sized.choose_spec a

theorem size_lt (h : b ∈ B.children a) : B.size b < B.size a :=
  Nat.lt_of_le_of_lt (List.single_le_sum (fun _ _ => Nat.zero_le _) _ (List.mem_map_of_mem h)) (B.sum_lt a)

theorem induction {p : α → Prop} (h : ∀ a, (∀ b ∈ B.children a, p b) → p a) (a : α) : p a := by
  induction hn : B.size a using Nat.strongRecOn generalizing a with
  | ind n ih =>
    apply h
    intro b hb
    exact ih (B.size b) (hn ▸ B.size_lt hb) b rfl

/-- `b` is `a` or somewhere below it. -/
def Inside (a b : α) : Prop := Relation.ReflTransGen (fun x y => y ∈ B.children x) a b

theorem inside_iff : B.Inside a b ↔ b = a ∨ ∃ c ∈ B.children a, B.Inside c b := by
  rw [Inside, Relation.ReflTransGen.cases_head_iff, eq_comm]
  rfl

/-- Take a node from the front of the queue and put its children at the end. -/
def walk (todo : List α) : List α :=
  match todo with
  | [] => []
  | a :: todo => a :: walk (todo ++ B.children a)
termination_by (todo.map B.size).sum
decreasing_by
  have := B.sum_lt a
  simp only [List.map_append, List.sum_append, List.map_cons, List.sum_cons]
  omega

/-- A node, then each of its children in the same way. -/
def iter (a : α) : List α := a :: (B.children a).attach.flatMap fun c => iter c.1
termination_by B.size a
decreasing_by exact B.size_lt c.2

theorem iter_eq (a : α) : B.iter a = a :: (B.children a).flatMap B.iter := by
  rw [iter, List.flatMap_subtype (g := B.iter) fun _ _ => rfl, List.unattach_attach]

theorem mem_walk_iff {todo : List α} : b ∈ B.walk todo ↔ ∃ a ∈ todo, B.Inside a b := by
  induction todo using walk.induct B with
  | case1 => simp [walk]
  | case2 a todo ih =>
    rw [walk, List.mem_cons, ih]
    simp only [List.mem_append, List.mem_cons]
    constructor
    · rintro (rfl | ⟨c, hc | hc, hb⟩)
      · exact ⟨b, Or.inl rfl, .refl⟩
      · exact ⟨c, Or.inr hc, hb⟩
      · exact ⟨a, Or.inl rfl, B.inside_iff.mpr (Or.inr ⟨c, hc, hb⟩)⟩
    · rintro ⟨c, rfl | hc, hb⟩
      · obtain rfl | ⟨d, hd, hb⟩ := B.inside_iff.mp hb
        · exact Or.inl rfl
        · exact Or.inr ⟨d, Or.inr hd, hb⟩
      · exact Or.inr ⟨c, Or.inl hc, hb⟩

theorem mem_iter_iff : b ∈ B.iter a ↔ B.Inside a b := by
  induction a using B.induction with
  | h a ih =>
    rw [iter_eq, List.mem_cons, List.mem_flatMap, inside_iff]
    refine or_congr_right (exists_congr fun c => and_congr_right fun hc => ?_)
    exact ih c hc

end Branching

end Walk
