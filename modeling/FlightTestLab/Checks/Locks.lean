import FlightTestLab.Python.Syntax

/-!
# Uses of a name outside a lock

The `must_hold_lock` part of `source_check`: where a branch refers to a shared name
outside the body of a `with` whose header mentions a lock.

## Main definitions

- `Checks.mentionsLock`: a `with` header names something lock-shaped
- `Checks.unguardedUses`: the lines the check reports
- `Checks.exposure`: what is not in the body of a `with` that mentions a lock
- `Checks.references`: the lines of the references there

## Main results

- `Checks.unguardedUses_eq_references`: nothing is missed where no target of a `with` item
  refers to the name
- `Checks.length_unguardedUses_lt`: such a target is missed
- `Checks.mustHoldLock_iff`: when the part adds no failure, and which lines it names
-/

namespace Checks

open Json (Text ascii)
open Python.Syntax (Node Inside walk branching sum_sizeOf_lt)

/-- `str.lower`, as far as the letters of "lock" come out of it; other characters are kept. -/
def lowerChar (c : Nat) : Nat :=
  if 0x41 ≤ c ∧ c ≤ 0x5A then c + 0x20 else if c = 0x212A then 0x6B else c

/-- `"lock" in text.lower()` -/
def namesLock (text : Text) : Bool := decide (ascii "lock" <:+: text.map lowerChar)

/-- `_mentions_lock` -/
def mentionsLock (node : Node) : Bool :=
  (walk node).any fun inner => inner.identifier?.any namesLock

theorem mentionsLock_iff {node : Node} :
    mentionsLock node = true ↔
      ∃ inner id, Inside node inner ∧ inner.identifier? = some id ∧
        ascii "lock" <:+: id.map lowerChar := by
  rw [mentionsLock, List.any_eq_true]
  simp only [Python.Syntax.mem_walk_iff, Option.any_eq_true, namesLock, decide_eq_true_eq]
  constructor
  · rintro ⟨inner, hinside, id, hid, hlock⟩
    exact ⟨inner, id, hinside, hid, hlock⟩
  · rintro ⟨inner, id, hinside, hid, hlock⟩
    exact ⟨inner, hinside, id, hid, hlock⟩

/-- Some context expression of a `with` mentions a lock. -/
def holdsLock (items : List (Node × Option Node)) : Bool :=
  items.any fun item => mentionsLock item.1

/-- An identifier with "lock" in it is somewhere in a context expression. -/
def NamesALock (items : List (Node × Option Node)) : Prop :=
  ∃ item ∈ items, ∃ inner id, Inside item.1 inner ∧ inner.identifier? = some id ∧
    ascii "lock" <:+: id.map lowerChar

theorem holdsLock_iff {items : List (Node × Option Node)} :
    holdsLock items = true ↔ NamesALock items := by
  rw [holdsLock, List.any_eq_true]
  exact exists_congr fun item => and_congr_right fun _ => mentionsLock_iff

/-- The line of a node that is the target's name. -/
def reference? (target : Text) : Node → Option Nat
  | .name id lineno => if id = target then some lineno else none
  | _ => none

theorem size_contextExpr_lt {isAsync : Bool} {items : List (Node × Option Node)}
    {body : List Node} {item : Node × Option Node} (h : item ∈ items) :
    branching.size item.1 < branching.size (.withStmt isAsync items body) := by
  have hitem : branching.size (.withitem item.1 item.2) <
      branching.size (.withStmt isAsync items body) :=
    branching.size_lt (List.mem_append_left _ (List.mem_map_of_mem h))
  have hexpr : branching.size item.1 < branching.size (.withitem item.1 item.2) :=
    branching.size_lt List.mem_cons_self
  exact Nat.lt_trans hexpr hitem

/-- `_unguarded_uses` -/
def unguardedUses (target : Text) (guarded : Bool) (node : Node) : List Nat :=
  match node with
  | .withStmt _ items body =>
    let holds := guarded || holdsLock items
    (items.attach.flatMap fun item => unguardedUses target guarded item.1.1) ++
      body.attach.flatMap fun child => unguardedUses target holds child.1
  | node =>
    match reference? target node with
    | some lineno => if guarded then [] else [lineno]
    | none => node.iterChildNodes.attach.flatMap fun descendant =>
        unguardedUses target guarded descendant.1
termination_by branching.size node
decreasing_by
  · exact size_contextExpr_lt item.2
  · exact branching.size_lt (List.mem_append_right _ child.2)
  · exact branching.size_lt descendant.2

section Uses

variable (target : Text) (guarded : Bool)

theorem unguardedUses_with (isAsync : Bool) (items : List (Node × Option Node))
    (body : List Node) :
    unguardedUses target guarded (.withStmt isAsync items body) =
      (items.flatMap fun item => unguardedUses target guarded item.1) ++
        body.flatMap (unguardedUses target (guarded || holdsLock items)) := by
  rw [unguardedUses, List.flatMap_subtype (g := fun item => unguardedUses target guarded item.1)
    fun _ _ => rfl, List.flatMap_subtype
    (g := unguardedUses target (guarded || holdsLock items)) fun _ _ => rfl,
    List.unattach_attach, List.unattach_attach]

/-- A node that is not a `with` statement. -/
def Plain (node : Node) : Prop := ∀ isAsync items body, node ≠ .withStmt isAsync items body

theorem unguardedUses_plain {node : Node} (h : Plain node) :
    unguardedUses target guarded node =
      match reference? target node with
      | some lineno => if guarded then [] else [lineno]
      | none => node.iterChildNodes.flatMap (unguardedUses target guarded) := by
  rw [unguardedUses]
  · rw [List.flatMap_subtype (g := unguardedUses target guarded) fun _ _ => rfl,
      List.unattach_attach]
  · exact fun isAsync items body => h isAsync items body

end Uses

section Exposure

/-- The children of a node that are not in a body under a lock. -/
def exposedNodes : Node → List Node
  | .withStmt _ items body =>
    items.map (fun item => .withitem item.1 item.2) ++ if holdsLock items then [] else body
  | node => node.iterChildNodes

theorem exposedNodes_plain {node : Node} (h : Plain node) :
    exposedNodes node = node.iterChildNodes := by
  cases node with
  | withStmt isAsync items body => exact absurd rfl (h isAsync items body)
  | _ => rfl

theorem sum_exposedNodes_lt (node : Node) :
    ((exposedNodes node).map sizeOf).sum < sizeOf node := by
  refine Nat.lt_of_le_of_lt ?_ (sum_sizeOf_lt node)
  cases node with
  | withStmt isAsync items body =>
    rw [exposedNodes, Node.iterChildNodes, List.map_append, List.map_append, List.sum_append,
      List.sum_append]
    apply Nat.add_le_add_left
    split
    · exact Nat.zero_le _
    · exact Nat.le_refl _
  | _ => exact Nat.le_refl _

/-- What is reached without entering a body under a lock. -/
def exposure : Walk.Branching Node where
  children := exposedNodes
  sized := ⟨sizeOf, sum_exposedNodes_lt⟩

/-- A node of the tree that is in no body under a lock. -/
def Exposed (tree node : Node) : Prop := exposure.Inside tree node

/-- The lines of the target's name outside every body under a lock, in the order of the
tree. -/
def references (target : Text) (node : Node) : List Nat :=
  (exposure.iter node).filterMap (reference? target)

variable (target : Text)

theorem mem_references_iff {target : Text} {tree : Node} {line : Nat} :
    line ∈ references target tree ↔ Exposed tree (.name target line) := by
  rw [references, List.mem_filterMap]
  simp only [Walk.Branching.mem_iter_iff]
  constructor
  · rintro ⟨node, hexposed, hline⟩
    cases node with
    | name id lineno =>
      rw [reference?] at hline
      split at hline
      · rename_i hid
        rw [← hid, ← Option.some.inj hline]
        exact hexposed
      · cases hline
    | _ => cases hline
  · intro h
    exact ⟨_, h, if_pos rfl⟩

theorem references_eq (node : Node) :
    references target node = (reference? target node).toList ++
      (exposedNodes node).flatMap (references target) := by
  rw [references, Walk.Branching.iter_eq, List.filterMap_cons, List.filterMap_flatMap]
  cases reference? target node with
  | none => rfl
  | some lineno => rfl

theorem references_withitem (contextExpr : Node) (optionalVars : Option Node) :
    references target (.withitem contextExpr optionalVars) =
      references target contextExpr ++ optionalVars.toList.flatMap (references target) :=
  references_eq target _

theorem references_with (isAsync : Bool) (items : List (Node × Option Node))
    (body : List Node) :
    references target (.withStmt isAsync items body) =
      (items.flatMap fun item => references target item.1 ++
        item.2.toList.flatMap (references target)) ++
      if holdsLock items then [] else body.flatMap (references target) := by
  rw [references_eq, exposedNodes, List.flatMap_append, List.flatMap_map]
  simp only [references_withitem]
  split
  · rfl
  · rfl

theorem references_plain {node : Node} (h : Plain node) :
    references target node = (reference? target node).toList ++
      node.iterChildNodes.flatMap (references target) := by
  rw [references_eq, exposedNodes_plain h]

end Exposure

section Exactness

variable {target : Text}

/-- Induction the way `_unguarded_uses` goes down a tree. -/
theorem uses_induction {p : Node → Prop}
    (hwith : ∀ isAsync items body, (∀ item ∈ items, p item.1) → (∀ child ∈ body, p child) →
      p (.withStmt isAsync items body))
    (hplain : ∀ node, Plain node → (∀ child ∈ node.iterChildNodes, p child) → p node)
    (node : Node) : p node := by
  induction hn : branching.size node using Nat.strongRecOn generalizing node with
  | ind n ih =>
    subst hn
    by_cases h : Plain node
    · exact hplain node h fun child hc => ih _ (branching.size_lt hc) child rfl
    · rw [Plain] at h
      push Not at h
      obtain ⟨isAsync, items, body, rfl⟩ := h
      apply hwith
      · exact fun item hi => ih _ (size_contextExpr_lt hi) item.1 rfl
      · exact fun child hc => ih _ (branching.size_lt (List.mem_append_right _ hc)) child rfl

theorem iterChildNodes_of_reference {node : Node} {line : Nat}
    (h : reference? target node = some line) : node.iterChildNodes = [] := by
  cases node with
  | name id lineno => rfl
  | _ => cases h

/-- Under a lock nothing is reported. -/
theorem unguardedUses_true (node : Node) : unguardedUses target true node = [] := by
  induction node using uses_induction with
  | hwith isAsync items body hitems hbody =>
    rw [unguardedUses_with, List.append_eq_nil_iff, List.flatMap_eq_nil_iff,
      List.flatMap_eq_nil_iff]
    exact ⟨hitems, hbody⟩
  | hplain node h ih =>
    rw [unguardedUses_plain target true h]
    cases reference? target node with
    | some lineno => rfl
    | none => exact List.flatMap_eq_nil_iff.mpr ih

/-- The body of a `with` statement, as either side sees it. -/
theorem unguardedUses_body (items : List (Node × Option Node)) (body : List Node) :
    body.flatMap (unguardedUses target (false || holdsLock items)) =
      if holdsLock items then [] else body.flatMap (unguardedUses target false) := by
  rw [Bool.false_or]
  cases holdsLock items with
  | true =>
    rw [if_pos rfl, List.flatMap_eq_nil_iff]
    exact fun child _ => unguardedUses_true child
  | false => rfl

/-- The target of a `with` item, outside every body under a lock, refers to the name. -/
def BoundByWith (target : Text) (tree : Node) : Prop :=
  ∃ isAsync items body, Exposed tree (.withStmt isAsync items body) ∧
    ∃ contextExpr vars, (contextExpr, some vars) ∈ items ∧ references target vars ≠ []

theorem BoundByWith.of_exposed {tree child : Node} (hchild : child ∈ exposedNodes tree)
    (h : BoundByWith target child) : BoundByWith target tree := by
  obtain ⟨isAsync, items, body, hexposed, hitem⟩ := h
  exact ⟨isAsync, items, body, exposure.inside_iff.mpr (Or.inr ⟨child, hchild, hexposed⟩), hitem⟩

theorem BoundByWith.of_contextExpr {isAsync : Bool} {items : List (Node × Option Node)}
    {body : List Node} {item : Node × Option Node} (hitem : item ∈ items)
    (h : BoundByWith target item.1) : BoundByWith target (.withStmt isAsync items body) := by
  have hwithitem : BoundByWith target (.withitem item.1 item.2) :=
    h.of_exposed List.mem_cons_self
  exact hwithitem.of_exposed (List.mem_append_left _ (List.mem_map_of_mem hitem))

/-- Where no target of a `with` item refers to the name, every reference is reported. -/
theorem unguardedUses_eq_references {node : Node} (h : ¬ BoundByWith target node) :
    unguardedUses target false node = references target node := by
  induction node using uses_induction with
  | hwith isAsync items body hitems hbody =>
    rw [unguardedUses_with, references_with, unguardedUses_body]
    have hheads : (items.flatMap fun item => unguardedUses target false item.1) =
        items.flatMap fun item => references target item.1 ++
          item.2.toList.flatMap (references target) := by
      apply List.flatMap_congr
      intro item hi
      -- a target that refers to the name would bind it by this `with`
      have hvars : item.2.toList.flatMap (references target) = [] := by
        rw [List.flatMap_eq_nil_iff]
        intro vars hvars
        by_contra hne
        have hmem : (item.1, some vars) ∈ items := by
          rw [← Option.mem_toList.mp hvars]
          exact hi
        exact h ⟨isAsync, items, body, .refl, item.1, vars, hmem, hne⟩
      rw [hvars, List.append_nil]
      exact hitems item hi fun hb => h (hb.of_contextExpr hi)
    rw [hheads]
    congr 1
    split
    · rfl
    · rename_i hlock
      apply List.flatMap_congr
      intro child hc
      apply hbody child hc
      intro hb
      refine h (hb.of_exposed (List.mem_append_right _ ?_))
      rwa [if_neg hlock]
  | hplain node hplain ih =>
    rw [unguardedUses_plain target false hplain, references_plain target hplain]
    -- a reference has no children to look into
    cases href : reference? target node with
    | some lineno =>
      rw [iterChildNodes_of_reference href]
      rfl
    | none =>
      apply List.flatMap_congr
      intro child hc
      apply ih child hc
      intro hb
      refine h (hb.of_exposed ?_)
      rwa [exposedNodes_plain hplain]

theorem length_flatMap_le {α : Type} {f g : α → List Nat} {l : List α}
    (h : ∀ a ∈ l, (f a).length ≤ (g a).length) : (l.flatMap f).length ≤ (l.flatMap g).length := by
  rw [List.length_flatMap, List.length_flatMap]
  exact List.sum_le_sum h

theorem length_flatMap_lt {α : Type} {f g : α → List Nat} {l : List α}
    (h : ∀ a ∈ l, (f a).length ≤ (g a).length) {a : α} (ha : a ∈ l)
    (hlt : (f a).length < (g a).length) : (l.flatMap f).length < (l.flatMap g).length := by
  rw [List.length_flatMap, List.length_flatMap]
  exact List.sum_lt_sum _ _ h ⟨a, ha, hlt⟩

/-- No more is reported than there is. -/
theorem length_unguardedUses_le (node : Node) :
    (unguardedUses target false node).length ≤ (references target node).length := by
  induction node using uses_induction with
  | hwith isAsync items body hitems hbody =>
    rw [unguardedUses_with, references_with, unguardedUses_body, List.length_append,
      List.length_append]
    apply Nat.add_le_add
    · apply length_flatMap_le
      intro item hi
      rw [List.length_append]
      exact Nat.le_trans (hitems item hi) (Nat.le_add_right _ _)
    · split
      · exact Nat.le_refl _
      · exact length_flatMap_le hbody
  | hplain node hplain ih =>
    rw [unguardedUses_plain target false hplain, references_plain target hplain]
    cases href : reference? target node with
    | some lineno => exact Nat.le_add_left _ _
    | none => exact length_flatMap_le ih

theorem Exposed.references_ne_nil {tree node : Node} (h : Exposed tree node)
    (hne : references target node ≠ []) : references target tree ≠ [] := by
  obtain ⟨line, hline⟩ := List.exists_mem_of_ne_nil _ hne
  rw [mem_references_iff] at hline
  exact List.ne_nil_of_mem (mem_references_iff.mpr (h.trans hline))

/-- What is bound somewhere in a tree is referred to in it. -/
theorem BoundByWith.references_ne_nil {tree : Node} (h : BoundByWith target tree) :
    references target tree ≠ [] := by
  obtain ⟨isAsync, items, body, hexposed, contextExpr, vars, hitem, hne⟩ := h
  have hwithitem : Exposed (.withStmt isAsync items body) (.withitem contextExpr (some vars)) :=
    .single (List.mem_append_left _ (List.mem_map_of_mem hitem))
  have hvars : Exposed (.withitem contextExpr (some vars)) vars :=
    .single (List.mem_cons_of_mem _ List.mem_cons_self)
  exact Exposed.references_ne_nil ((hexposed.trans hwithitem).trans hvars) hne

/-- The target of a `with` item that refers to the name is missed. -/
theorem length_unguardedUses_lt {node : Node} (h : BoundByWith target node) :
    (unguardedUses target false node).length < (references target node).length := by
  induction node using uses_induction with
  | hwith isAsync items body hitems hbody =>
    rw [unguardedUses_with, references_with, unguardedUses_body, List.length_append,
      List.length_append]
    have hle (item : Node × Option Node) : (unguardedUses target false item.1).length ≤
        (references target item.1 ++ item.2.toList.flatMap (references target)).length := by
      rw [List.length_append]
      exact Nat.le_trans (length_unguardedUses_le item.1) (Nat.le_add_right _ _)
    -- an item whose target refers to the name is one reference short
    have hshort {item : Node × Option Node} (hi : item ∈ items)
        (hvars : item.2.toList.flatMap (references target) ≠ []) :
        (items.flatMap fun item => unguardedUses target false item.1).length <
          (items.flatMap fun item => references target item.1 ++
            item.2.toList.flatMap (references target)).length := by
      refine length_flatMap_lt (fun item _ => hle item) hi ?_
      have hpos := List.length_pos_iff.mpr hvars
      have hexpr : (unguardedUses target false item.1).length ≤
          (references target item.1).length := length_unguardedUses_le item.1
      rw [List.length_append]
      omega
    have hbodies : (if holdsLock items then []
        else body.flatMap (unguardedUses target false)).length ≤
        (if holdsLock items then [] else body.flatMap (references target)).length := by
      split
      · exact Nat.le_refl _
      · exact length_flatMap_le fun child _ => length_unguardedUses_le child
    obtain ⟨isAsync', items', body', hexposed, contextExpr, vars, hitem, hne⟩ := h
    -- the `with` that binds the name is this one, or lies in an item or in the body
    obtain heq | ⟨child, hchild, hinside⟩ := exposure.inside_iff.mp hexposed
    · cases heq
      have hvars : ((contextExpr, some vars) : Node × Option Node).2.toList.flatMap
          (references target) ≠ [] := by
        rw [Option.toList_some, List.flatMap_singleton]
        exact hne
      exact Nat.add_lt_add_of_lt_of_le (hshort hitem hvars) hbodies
    · obtain hchild | hchild := List.mem_append.mp hchild
      · obtain ⟨item, hi, rfl⟩ := List.mem_map.mp hchild
        refine Nat.add_lt_add_of_lt_of_le ?_ hbodies
        obtain heq | ⟨part, hpart, hinside⟩ := exposure.inside_iff.mp hinside
        · cases heq
        have hbound : BoundByWith target part :=
          ⟨isAsync', items', body', hinside, contextExpr, vars, hitem, hne⟩
        obtain rfl | hpart := List.mem_cons.mp hpart
        · have hlt := hitems item hi hbound
          refine length_flatMap_lt (fun item _ => hle item) hi ?_
          rw [List.length_append]
          omega
        · apply hshort hi
          intro hnil
          exact hbound.references_ne_nil (List.flatMap_eq_nil_iff.mp hnil part hpart)
      · have hheads := length_flatMap_le fun item (_ : item ∈ items) => hle item
        refine Nat.add_lt_add_of_le_of_lt hheads ?_
        split at hchild
        · cases hchild
        · rename_i hlock
          rw [if_neg hlock, if_neg hlock]
          exact length_flatMap_lt (fun child _ => length_unguardedUses_le child) hchild
            (hbody child hchild
              ⟨isAsync', items', body', hinside, contextExpr, vars, hitem, hne⟩)
  | hplain node hplain ih =>
    rw [unguardedUses_plain target false hplain, references_plain target hplain]
    obtain ⟨isAsync, items, body, hexposed, hitem⟩ := h
    obtain heq | ⟨child, hchild, hinside⟩ := exposure.inside_iff.mp hexposed
    · exact absurd heq.symm (hplain isAsync items body)
    · have hchild : child ∈ exposedNodes node := hchild
      rw [exposedNodes_plain hplain] at hchild
      cases href : reference? target node with
      | some lineno =>
        rw [iterChildNodes_of_reference href] at hchild
        cases hchild
      | none =>
        exact length_flatMap_lt (fun child _ => length_unguardedUses_le child) hchild
          (ih child hchild ⟨isAsync, items, body, hinside, hitem⟩)

end Exactness

/-- The reported lines are those of the references outside every body under a lock exactly
when no target of a `with` item there refers to the name. -/
theorem unguardedUses_iff (target : Text) (node : Node) :
    unguardedUses target false node = references target node ↔ ¬ BoundByWith target node := by
  constructor
  · intro heq hbound
    have hlt := length_unguardedUses_lt hbound
    rw [heq] at hlt
    exact Nat.lt_irrefl _ hlt
  · exact unguardedUses_eq_references

section Branch

/-- `_branch_on_constant` -/
def branchOnConstant (tree : Node) (value : Text) : Option Node :=
  (walk tree).find? fun
    | .ifStmt test _ _ => (walk test).any fun
      | .constant (.str text) => text = value
      | _ => false
    | _ => false

inductive LockFailure
  | doesNotParse
  | noBranch
  | neverTouches
  | outsideLock (lines : List Nat)
  deriving DecidableEq, Repr

/-- The failures of a module that parses. -/
def lockFailures (branchValue target : Text) (tree : Node) : List LockFailure :=
  match branchOnConstant tree branchValue with
  | none => [.noBranch]
  | some branch =>
    if (walk branch).all fun node => (reference? target node).isNone then [.neverTouches]
    else
      let offenders := unguardedUses target false branch
      if offenders.isEmpty then [] else [.outsideLock offenders]

/-- The failures that `must_hold_lock` adds. -/
def mustHoldLock (parse : Text → Option Node) (branchValue target text : Text) :
    List LockFailure :=
  if text.isEmpty then []
  else
    match parse text with
    | none => [.doesNotParse]
    | some tree => lockFailures branchValue target tree

end Branch

section Gate

variable {target : Text}

/-- A node of a tree that is neither in the body of a `with` whose header names a lock nor in the
target of a `with` item. -/
inductive Open : Node → Node → Prop
  | refl (node : Node) : Open node node
  | header {isAsync : Bool} {items : List (Node × Option Node)} {body : List Node}
      {item : Node × Option Node} {inner : Node} (hitem : item ∈ items) (h : Open item.1 inner) :
      Open (.withStmt isAsync items body) inner
  | body {isAsync : Bool} {items : List (Node × Option Node)} {body : List Node}
      {child inner : Node} (hlock : ¬ NamesALock items) (hchild : child ∈ body)
      (h : Open child inner) : Open (.withStmt isAsync items body) inner
  | child {node child inner : Node} (hplain : Plain node) (hchild : child ∈ node.iterChildNodes)
      (h : Open child inner) : Open node inner

theorem open_with_iff {isAsync : Bool} {items : List (Node × Option Node)} {body : List Node}
    {line : Nat} :
    Open (.withStmt isAsync items body) (.name target line) ↔
      (∃ item ∈ items, Open item.1 (.name target line)) ∨
        ¬ NamesALock items ∧ ∃ child ∈ body, Open child (.name target line) := by
  constructor
  · intro h
    cases h with
    | header hitem h => exact .inl ⟨_, hitem, h⟩
    | body hlock hchild h => exact .inr ⟨hlock, _, hchild, h⟩
    | child hplain _ _ => exact absurd rfl (hplain _ _ _)
  · rintro (⟨item, hitem, h⟩ | ⟨hlock, child, hchild, h⟩)
    · exact .header hitem h
    · exact .body hlock hchild h

theorem open_plain_iff {node : Node} (hplain : Plain node) {line : Nat} :
    Open node (.name target line) ↔
      reference? target node = some line ∨
        ∃ child ∈ node.iterChildNodes, Open child (.name target line) := by
  constructor
  · intro h
    cases h with
    | refl _ => exact .inl (if_pos rfl)
    | header _ _ | body _ _ _ => exact absurd rfl (hplain _ _ _)
    | child _ hchild h => exact .inr ⟨_, hchild, h⟩
  · rintro (href | ⟨child, hchild, h⟩)
    · cases node with
      | name id lineno =>
        rw [reference?] at href
        split_ifs at href with hid
        rw [hid, Option.some.inj href]
        exact .refl _
      | _ => cases href
    · exact .child hplain hchild h

/-- The lines that are reported are those of the open references. -/
theorem mem_unguardedUses_iff {node : Node} {line : Nat} :
    line ∈ unguardedUses target false node ↔ Open node (.name target line) := by
  induction node using uses_induction with
  | hwith isAsync items body hitems hbody =>
    rw [unguardedUses_with, unguardedUses_body, List.mem_append, List.mem_flatMap, open_with_iff,
      ← holdsLock_iff]
    refine or_congr (exists_congr fun item => and_congr_right fun hi => hitems item hi) ?_
    split_ifs with hlock
    · simp [hlock]
    · rw [and_iff_right hlock, List.mem_flatMap]
      exact exists_congr fun child => and_congr_right fun hc => hbody child hc
  | hplain node hplain ih =>
    rw [unguardedUses_plain target false hplain, open_plain_iff hplain]
    cases href : reference? target node with
    | some lineno =>
      rw [iterChildNodes_of_reference href]
      simp [eq_comm]
    | none =>
      rw [or_iff_right (by simp)]
      dsimp only
      rw [List.mem_flatMap]
      exact exists_congr fun child => and_congr_right fun hc => ih child hc

theorem reference_iff {branch : Node} :
    (walk branch).all (fun node => (reference? target node).isNone) = false ↔
      ∃ line, Inside branch (.name target line) := by
  rw [List.all_eq_false]
  simp only [Python.Syntax.mem_walk_iff]
  constructor
  · rintro ⟨node, hinside, href⟩
    cases node with
    | name id lineno =>
      rw [reference?] at href
      split_ifs at href with hid
      · exact ⟨lineno, hid ▸ hinside⟩
      · exact absurd rfl href
    | _ => exact absurd rfl href
  · rintro ⟨line, hinside⟩
    exact ⟨_, hinside, by simp [reference?]⟩

/-- On a text that parses, the part adds no failure when there is a branch on the constant that
refers to the name, and each of its references is in the body of a `with` that names a lock or in the
target of one; else the lines that it names are those of the other references. -/
theorem mustHoldLock_iff {parse : Text → Option Node} (branchValue target : Text) {text : Text}
    {tree : Node} (hparse : parse text = some tree) :
    (mustHoldLock parse branchValue target text = [] ↔
      text ≠ [] → ∃ branch, branchOnConstant tree branchValue = some branch ∧
        (∃ line, Inside branch (.name target line)) ∧
        ∀ line, ¬ Open branch (.name target line)) ∧
    ∀ lines, .outsideLock lines ∈ mustHoldLock parse branchValue target text →
      ∃ branch, branchOnConstant tree branchValue = some branch ∧
        ∀ line, line ∈ lines ↔ Open branch (.name target line) := by
  rw [mustHoldLock]
  cases text with
  | nil => exact ⟨iff_of_true rfl fun hne => absurd rfl hne, fun lines h => by cases h⟩
  | cons c text =>
    rw [List.isEmpty_cons, hparse, if_neg Bool.false_ne_true]
    dsimp only
    rw [forall_prop_of_true (List.cons_ne_nil _ _), lockFailures]
    cases branchOnConstant tree branchValue with
    | none => simp
    | some branch =>
      simp only [Option.some.injEq, exists_eq_left', ← reference_iff, ← mem_unguardedUses_iff,
        ← List.eq_nil_iff_forall_not_mem]
      split_ifs with hnever hnone
      · simp [hnever]
      · simpa [hnever] using hnone
      · simp only [List.mem_singleton, LockFailure.outsideLock.injEq]
        refine ⟨by simpa [hnever] using hnone, ?_⟩
        rintro lines rfl line
        exact Iff.rfl

/-- `with _lock: _counter = _counter` -/
def heldWith : Node :=
  .withStmt false [(.name (ascii "_lock") 2, none)]
    [.assign [.name (ascii "_counter") 2] (.name (ascii "_counter") 2)]

def counterTest : Node := .other [.name (ascii "command") 1, .constant (.str (ascii "counter"))]

def heldBranch : Node := .ifStmt counterTest [heldWith] []

/-- The branch with a read before. -/
def racyBranch : Node :=
  .ifStmt counterTest [.assign [.name (ascii "old") 2] (.name (ascii "_counter") 2), heldWith] []

def counterText : Text := ascii "if command == 'counter':\n"

def heldText : Text := counterText ++ ascii " with _lock: _counter = _counter\n"

def racyText : Text :=
  counterText ++ ascii " old = _counter\n" ++ ascii " with _lock: _counter = _counter\n"

/-- `ast.parse` on these texts. -/
def branchParse (text : Text) : Option Node :=
  if text = heldText then some (.other [heldBranch])
  else if text = racyText then some (.other [racyBranch]) else none

theorem branchParse_held : branchParse heldText = some (.other [heldBranch]) := if_pos rfl

theorem branchParse_racy : branchParse racyText = some (.other [racyBranch]) := by
  rw [branchParse, if_neg (by decide), if_pos rfl]

theorem branchOnConstant_sample (body : List Node) :
    branchOnConstant (.other [.ifStmt counterTest body []]) (ascii "counter") =
      some (.ifStmt counterTest body []) := by
  have htest : walk counterTest =
      [counterTest, .name (ascii "command") 1, .constant (.str (ascii "counter"))] := by
    simp [walk, branching, Walk.Branching.walk, Node.iterChildNodes, counterTest]
  rw [branchOnConstant, walk, Walk.Branching.walk, List.find?_cons_of_neg (by simp)]
  show ((Walk.Branching.walk branching [.ifStmt counterTest body []]).find? _) = _
  rw [Walk.Branching.walk, List.find?_cons_of_pos]
  dsimp only
  rw [htest]
  decide

theorem not_open_held (line : Nat) : ¬ Open heldBranch (.name (ascii "_counter") line) := by
  have hlock : holdsLock [(.name (ascii "_lock") 2, none)] = true :=
    holdsLock_iff.mpr ⟨_, List.mem_cons_self, _, _, .refl, rfl, by decide⟩
  have hnone : unguardedUses (ascii "_counter") false heldBranch = [] := by
    have hcommand : ascii "command" ≠ ascii "_counter" := by decide
    have hname : ascii "_lock" ≠ ascii "_counter" := by decide
    simp [unguardedUses, heldBranch, heldWith, counterTest, Node.iterChildNodes, reference?, hlock,
      hcommand, hname]
  rw [← mem_unguardedUses_iff, hnone]
  exact List.not_mem_nil

theorem mustHoldLock_iff_sample :
    mustHoldLock branchParse (ascii "counter") (ascii "_counter") heldText = [] ∧
    mustHoldLock branchParse (ascii "counter") (ascii "_counter") racyText ≠ [] := by
  constructor
  · apply (mustHoldLock_iff (ascii "counter") (ascii "_counter") branchParse_held).1.mpr
    intro _
    refine ⟨heldBranch, branchOnConstant_sample _, ⟨2, ?_⟩, not_open_held⟩
    rw [← Python.Syntax.mem_walk_iff]
    simp [walk, branching, Walk.Branching.walk, Node.iterChildNodes, heldBranch, heldWith,
      counterTest]
  · intro hnil
    obtain ⟨branch, hbranch, -, hnone⟩ := (mustHoldLock_iff (ascii "counter") (ascii "_counter")
      branchParse_racy).1.mp hnil (by decide)
    obtain rfl := Option.some.inj ((branchOnConstant_sample _).symm.trans hbranch)
    refine hnone 2 (.child (fun _ _ _ => by simp) (List.mem_cons_of_mem _ List.mem_cons_self) ?_)
    exact .child (fun _ _ _ => by simp) (List.mem_cons_of_mem _ List.mem_cons_self) (.refl _)

end Gate

/-- `with source() as _counter: pass` -/
def sampleWith : Node :=
  .withStmt false [(.call (.name (ascii "source") 3) [] [], some (.name (ascii "_counter") 3))]
    [.other []]

/-- The write of a `with` target is not reported. -/
theorem with_target_missed :
    unguardedUses (ascii "_counter") false sampleWith ≠
      references (ascii "_counter") sampleWith := by
  have hvars : references (ascii "_counter") (.name (ascii "_counter") 3) ≠ [] :=
    List.ne_nil_of_mem (mem_references_iff.mpr .refl)
  have hbound : BoundByWith (ascii "_counter") sampleWith :=
    ⟨_, _, _, .refl, _, _, List.mem_cons_self, hvars⟩
  intro heq
  have hlt := length_unguardedUses_lt hbound
  rw [heq] at hlt
  exact Nat.lt_irrefl _ hlt

end Checks
