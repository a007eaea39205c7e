import FlightTestLab.Library.Json.Strings
import FlightTestLab.Library.Walk

/-!
# Python syntax trees

The nodes of `ast`. The classes that the checks look at have a constructor with the
fields of the class; every other class is its list of child nodes. Contexts, operators
and what is neither a node nor looked at are left out.

## Main definitions

- `Python.Syntax.Node`: a node
- `Python.Syntax.Node.iterChildNodes`: `ast.iter_child_nodes`
- `Python.Syntax.walk`: `ast.walk`
-/

namespace Python.Syntax

open Json (Text)

/-- The value of a `Constant`. -/
inductive Constant
  | str (value : Text)
  | bool (value : Bool)
  /-- Neither a string nor a boolean. -/
  | other
  deriving DecidableEq, Repr

inductive Node
  | name (id : Text) (lineno : Nat)
  | attribute (value : Node) (attr : Text)
  | constant (value : Constant)
  | call (func : Node) (args : List Node) (keywords : List (Option Text × Node))
  | keyword (arg : Option Text) (value : Node)
  | assign (targets : List Node) (value : Node)
  | ifStmt (test : Node) (body orelse : List Node)
  /-- `With` or `AsyncWith`. -/
  | withStmt (isAsync : Bool) (items : List (Node × Option Node)) (body : List Node)
  | withitem (contextExpr : Node) (optionalVars : Option Node)
  /-- `FunctionDef` or `AsyncFunctionDef`, with the fields of its `arguments`. -/
  | functionDef (isAsync : Bool) (name : Text) (posonlyargs args : List (Text × Option Node))
      (otherArgs body decoratorList others : List Node)
  | arguments (posonlyargs args : List (Text × Option Node)) (others : List Node)
  | arg (arg : Text) ( annotation : Option Node)
  | other (children : List Node)

namespace Node

/-- `ast.iter_child_nodes` -/
def iterChildNodes : Node → List Node
  | .name .. | .constant _ => []
  | .attribute value _ => [value]
  | .call func args keywords => func :: args ++ keywords.map fun kw => .keyword kw.1 kw.2
  | .keyword _ value => [value]
  | .assign targets value => targets ++ [value]
  | .ifStmt test body orelse => test :: body ++ orelse
  | .withStmt _ items body => items.map (fun item => .withitem item.1 item.2) ++ body
  | .withitem contextExpr optionalVars => contextExpr :: optionalVars.toList
  | .functionDef _ _ posonlyargs args otherArgs body decoratorList others =>
    .arguments posonlyargs args otherArgs :: body ++ decoratorList ++ others
  | .arguments posonlyargs args others =>
    posonlyargs.map (fun a => .arg a.1 a.2) ++ args.map (fun a => .arg a.1 a.2) ++ others
  | .arg _ annotation => Option.toList annotation
  | .other children => children

/-- The identifier of an attribute or a name. -/
def identifier? : Node → Option Text
  | .attribute _ attr => some attr
  | .name id _ => some id
  | _ => none

end Node

theorem sum_sizeOf_le {α : Type} [SizeOf α] {f : α → Node} (h : ∀ a, sizeOf (f a) ≤ sizeOf a)
    (l : List α) : ((l.map f).map sizeOf).sum ≤ sizeOf l := by
  induction l with
  | nil => exact Nat.zero_le _
  | cons a l ih =>
    have := h a
    rw [List.map_cons, List.map_cons, List.sum_cons, List.cons.sizeOf_spec]
    omega

theorem sum_sizeOf_self_le (l : List Node) : (l.map sizeOf).sum ≤ sizeOf l := by
  have h := sum_sizeOf_le (f := id) (fun _ => Nat.le_refl _) l
  rwa [List.map_id] at h

theorem sum_sizeOf_toList_le (v : Option Node) : (v.toList.map sizeOf).sum ≤ sizeOf v := by
  cases v with
  | none => exact Nat.zero_le _
  | some a =>
    show sizeOf a + 0 ≤ sizeOf (some a)
    rw [Option.some.sizeOf_spec]
    omega

/-- The fields of a node come one by one, each with what it holds. -/
theorem sum_sizeOf_lt (node : Node) : (node.iterChildNodes.map sizeOf).sum < sizeOf node := by
  have hself := sum_sizeOf_self_le
  have hvars := sum_sizeOf_toList_le
  have hargs (l : List (Text × Option Node)) :=
    sum_sizeOf_le (f := fun a => Node.arg a.1 a.2) (by rintro ⟨a, b⟩; simp) l
  have hkeywords (l : List (Option Text × Node)) :=
    sum_sizeOf_le (f := fun kw => Node.keyword kw.1 kw.2) (by rintro ⟨a, b⟩; simp) l
  have hitems (l : List (Node × Option Node)) :=
    sum_sizeOf_le (f := fun item => Node.withitem item.1 item.2) (by rintro ⟨a, b⟩; simp) l
  cases node with
  | functionDef isAsync name posonlyargs args otherArgs body decoratorList others =>
    have hbody := hself body
    have hdecorators := hself decoratorList
    have hothers := hself others
    have hname : 0 < sizeOf isAsync := by cases isAsync <;> simp
    simp only [Node.iterChildNodes, List.map_append, List.map_cons, List.sum_append,
      List.sum_cons, Node.functionDef.sizeOf_spec, Node.arguments.sizeOf_spec]
    omega
  | _ => simp only [Node.iterChildNodes]; grind

def branching : Walk.Branching Node where
  children := Node.iterChildNodes
  sized := ⟨sizeOf, sum_sizeOf_lt⟩

/-- `ast.walk` -/
def walk (tree : Node) : List Node := branching.walk [tree]

/-- A node is in a tree. -/
def Inside (tree node : Node) : Prop := branching.Inside tree node

theorem inside_iff {tree node : Node} :
    Inside tree node ↔ node = tree ∨ ∃ child ∈ tree.iterChildNodes, Inside child node :=
  branching.inside_iff

theorem mem_walk_iff {tree node : Node} : node ∈ walk tree ↔ Inside tree node := by
  rw [walk, Walk.Branching.mem_walk_iff]
  simp [Inside]

end Python.Syntax
