import Mathlib.Data.List.Basic
import Mathlib.Data.List.Induction
import Mathlib.Logic.Relation

/-!
# Completion over a prerequisite graph

A node is complete when it is marked, passes its own check, and all its
prerequisites are complete. The evaluation here walks the prerequisites in order,
handing on a set of nodes already seen: a seen node is not looked into again, and
what a node's evaluation adds below itself is forgotten by its siblings.

## Main definitions

- `Prerequisites.System`: the graph with the checks on its nodes
- `Prerequisites.visit`: the evaluation, up to a recursion limit
- `Prerequisites.Path`: reachability that avoids the seen nodes
- `Prerequisites.Complete`: the completion relation

## Main results

- `Prerequisites.visit_isSome`: as many levels as nodes suffice, on any graph
- `Prerequisites.visit_iff`: what the evaluation of a node decides
- `Prerequisites.visit_nil_iff_complete`: from no seen nodes it decides completion
- `Prerequisites.scan_iff_complete`: a scan decides completion of all its nodes together
-/

namespace Prerequisites

/-- A prerequisite graph: the nodes it knows, the marks and the checks on them. -/
structure System (ι : Type*) where
  known : ι → Bool
  marked : ι → Bool
  check : ι → Bool
  prereqs : ι → List ι
  check_unknown : ∀ p, known p = false → check p = true
  prereqs_unknown : ∀ p, known p = false → prereqs p = []

variable {ι : Type*} [DecidableEq ι]

section Evaluation

/-- Evaluate nodes in order, handing on the seen set. -/
def scan (eval : List ι → ι → Option (Bool × List ι)) (seen : List ι) :
    List ι → Option (List Bool)
  | [] => some []
  | p :: ps =>
    match eval seen p with
    | none => none
    | some (b, seen) => (scan eval seen ps).map (b :: ·)

/-- Evaluate one node, at most `limit` levels deep. -/
def visit (G : System ι) : Nat → List ι → ι → Option (Bool × List ι)
  | 0, _, _ => none
  | limit + 1, seen, p =>
    if G.marked p = false then some (false, seen)
    else if p ∈ seen ∨ G.known p = false then some (true, seen)
    else
      (scan (visit G limit) (p :: seen) (G.prereqs p)).map fun bs =>
        (G.check p && bs.all id, p :: seen)

/-- The seen set after a node was evaluated. -/
def after (G : System ι) (seen : List ι) (p : ι) : List ι :=
  if G.marked p = false ∨ p ∈ seen ∨ G.known p = false then seen else p :: seen

variable {G : System ι}

theorem visit_seen {limit : Nat} {seen seen' : List ι} {p : ι} {b : Bool}
    (h : visit G limit seen p = some (b, seen')) : seen' = after G seen p := by
  cases limit with
  | zero => cases h
  | succ limit =>
    rw [visit] at h
    rw [after]
    by_cases hm : G.marked p = false
    · rw [if_pos hm, Option.some.injEq, Prod.mk.injEq] at h
      rw [if_pos (.inl hm), h.2]
    by_cases hs : p ∈ seen ∨ G.known p = false
    · rw [if_neg hm, if_pos hs, Option.some.injEq, Prod.mk.injEq] at h
      rw [if_pos (.inr hs), h.2]
    · rw [if_neg hm, if_neg hs, Option.map_eq_some_iff] at h
      obtain ⟨bs, -, hbs⟩ := h
      rw [if_neg (not_or.mpr ⟨hm, hs⟩), (Prod.mk.inj hbs).2]

theorem mem_after {seen : List ι} {p q : ι} (h : q ∈ after G seen p) :
    q ∈ seen ∨ q = p ∧ G.marked p = true := by
  rw [after] at h
  split_ifs at h with hif
  · exact .inl h
  · obtain rfl | h := List.mem_cons.mp h
    · rw [not_or, Bool.not_eq_false] at hif
      exact .inr ⟨rfl, hif.1⟩
    · exact .inl h

theorem subset_after (seen : List ι) (p : ι) : seen ⊆ after G seen p := by
  intro q hq
  rw [after]
  split_ifs
  · exact hq
  · exact List.mem_cons_of_mem _ hq

/-- The seen set in front of a node of a list. -/
def before (G : System ι) (seen : List ι) (pre : List ι) : List ι := pre.foldl (after G) seen

theorem subset_before (seen pre : List ι) : seen ⊆ before G seen pre := by
  induction pre generalizing seen with
  | nil => exact fun _ h => h
  | cons p pre ih => exact fun q hq => ih (after G seen p) (subset_after seen p hq)

theorem mem_before {seen pre : List ι} {q : ι} (h : q ∈ before G seen pre) :
    q ∈ seen ∨ q ∈ pre ∧ G.marked q = true := by
  induction pre generalizing seen with
  | nil => exact .inl h
  | cons p pre ih =>
    obtain hq | ⟨hq, hm⟩ := ih h
    · obtain hq | ⟨rfl, hm⟩ := mem_after hq
      · exact .inl hq
      · exact .inr ⟨List.mem_cons_self, hm⟩
    · exact .inr ⟨List.mem_cons_of_mem _ hq, hm⟩

/-- A scan that ends has evaluated each of its nodes. -/
theorem scan_visited {limit : Nat} {seen ps : List ι} {bs : List Bool}
    (h : scan (visit G limit) seen ps = some bs) {pre post : List ι} {p : ι}
    (hsplit : ps = pre ++ p :: post) :
    ∃ b seen', visit G limit (before G seen pre) p = some (b, seen') := by
  induction ps generalizing seen bs pre with
  | nil => simp at hsplit
  | cons q ps ih =>
    rw [scan] at h
    cases hv : visit G limit seen q with
    | none =>
      rw [hv] at h
      cases h
    | some r =>
      rw [hv] at h
      dsimp only at h
      rw [Option.map_eq_some_iff] at h
      obtain ⟨bs', hbs', -⟩ := h
      cases pre with
      | nil =>
        obtain ⟨rfl, -⟩ := List.cons_eq_cons.mp hsplit
        exact ⟨r.1, r.2, hv⟩
      | cons a pre =>
        obtain ⟨rfl, htail⟩ := List.cons_eq_cons.mp hsplit
        rw [visit_seen hv] at hbs'
        exact ih hbs' htail

/-- A scan evaluates each node in front of the ones after it. -/
theorem scan_eq {limit : Nat} {seen ps : List ι} {bs : List Bool}
    (h : scan (visit G limit) seen ps = some bs) :
    bs.all id = true ↔ ∀ pre p post, ps = pre ++ p :: post →
      ∃ seen', visit G limit (before G seen pre) p = some (true, seen') := by
  induction ps generalizing seen bs with
  | nil =>
    cases h
    simp
  | cons p ps ih =>
    rw [scan] at h
    cases hv : visit G limit seen p with
    | none =>
      rw [hv] at h
      cases h
    | some r =>
      obtain ⟨b, seen'⟩ := r
      rw [hv] at h
      dsimp only at h
      rw [Option.map_eq_some_iff] at h
      obtain ⟨bs', hbs', rfl⟩ := h
      have hseen := visit_seen hv
      rw [List.all_cons, Bool.and_eq_true, id_eq, ih hbs']
      constructor
      · rintro ⟨rfl, hrest⟩ pre q post hsplit
        cases pre with
        | nil =>
          obtain ⟨rfl, -⟩ := List.cons_eq_cons.mp hsplit
          exact ⟨seen', hv⟩
        | cons r pre =>
          obtain ⟨rfl, htail⟩ := List.cons_eq_cons.mp hsplit
          rw [hseen] at hrest
          exact hrest pre q post htail
      · intro hall
        refine ⟨?_, ?_⟩
        · obtain ⟨s, hs⟩ := hall [] p ps rfl
          rw [show before G seen [] = seen from rfl, hv, Option.some.injEq] at hs
          exact (Prod.mk.inj hs).1
        · intro pre q post hsplit
          rw [hseen]
          exact hall (p :: pre) q post (congrArg _ hsplit)

theorem scan_length {limit : Nat} {seen ps : List ι} {bs : List Bool}
    (h : scan (visit G limit) seen ps = some bs) : bs.length = ps.length := by
  induction ps generalizing seen bs with
  | nil =>
    cases h
    rfl
  | cons p ps ih =>
    rw [scan] at h
    cases hv : visit G limit seen p with
    | none =>
      rw [hv] at h
      cases h
    | some r =>
      rw [hv] at h
      dsimp only at h
      rw [Option.map_eq_some_iff] at h
      obtain ⟨bs', hbs', rfl⟩ := h
      rw [List.length_cons, List.length_cons, ih hbs']

/-- The answers of a scan, each with its node. -/
theorem scan_mem {limit : Nat} {seen ps : List ι} {bs : List Bool}
    (h : scan (visit G limit) seen ps = some bs) (p : ι) (b : Bool) :
    (p, b) ∈ ps.zip bs ↔ ∃ pre post seen', ps = pre ++ p :: post ∧
      visit G limit (before G seen pre) p = some (b, seen') := by
  induction ps generalizing seen bs with
  | nil => simp
  | cons q ps ih =>
    rw [scan] at h
    cases hv : visit G limit seen q with
    | none =>
      rw [hv] at h
      cases h
    | some r =>
      obtain ⟨b', seen'⟩ := r
      rw [hv] at h
      dsimp only at h
      rw [Option.map_eq_some_iff] at h
      obtain ⟨bs', hbs', rfl⟩ := h
      have hseen := visit_seen hv
      rw [List.zip_cons_cons, List.mem_cons, ih hbs']
      constructor
      · rintro (heq | ⟨pre, post, seen'', rfl, hp⟩)
        · obtain ⟨rfl, rfl⟩ := Prod.mk.inj heq
          exact ⟨[], ps, seen', rfl, hv⟩
        · refine ⟨q :: pre, post, seen'', rfl, ?_⟩
          rw [hseen] at hp
          exact hp
      · rintro ⟨pre, post, seen'', hsplit, hp⟩
        cases pre with
        | nil =>
          obtain ⟨rfl, -⟩ := List.cons_eq_cons.mp hsplit
          rw [show before G seen [] = seen from rfl, hv] at hp
          exact .inl (congrArg _ (Prod.mk.inj (Option.some.inj hp)).1.symm)
        | cons a pre =>
          obtain ⟨rfl, htail⟩ := List.cons_eq_cons.mp hsplit
          refine .inr ⟨pre, post, seen'', htail, ?_⟩
          rw [hseen]
          exact hp

theorem mem_before_of_mem {seen pre : List ι} {p : ι} (hmem : p ∈ pre)
    (hm : G.marked p = true) (hk : G.known p = true) : p ∈ before G seen pre := by
  induction pre generalizing seen with
  | nil => cases hmem
  | cons q pre ih =>
    obtain rfl | hmem := List.mem_cons.mp hmem
    · apply subset_before (after G seen p) pre
      rw [after]
      split_ifs with hif
      · rw [hm, hk] at hif
        simpa using hif
      · exact List.mem_cons_self
    · exact ih hmem

theorem takeWhile_first {pre post : List ι} {p : ι} (h : p ∉ pre) :
    (pre ++ p :: post).takeWhile (· ≠ p) = pre := by
  rw [List.takeWhile_append_of_pos]
  · simp
  · intro q hq
    simpa using fun he : q = p => h (he ▸ hq)

/-- A node is evaluated to false somewhere in a list when its first occurrence is. -/
theorem exists_false_iff_first {limit : Nat} {seen pre post : List ι} {p : ι} {b : Bool}
    {seen' : List ι} (hk : G.known p = true) (hfirst : p ∉ pre)
    (hv : visit G limit (before G seen pre) p = some (b, seen')) :
    (∃ pre' post' seen'', pre ++ p :: post = pre' ++ p :: post' ∧
      visit G limit (before G seen pre') p = some (false, seen'')) ↔ b = false := by
  constructor
  · rintro ⟨pre', post', seen'', hsplit, hfalse⟩
    by_cases hmem : p ∈ pre'
    · cases limit with
      | zero => cases hv
      | succ limit =>
        by_cases hm : G.marked p = false
        · rw [visit, if_pos hm] at hv
          exact (Prod.mk.inj (Option.some.inj hv)).1.symm
        · have hseen : p ∈ before G seen pre' := mem_before_of_mem hmem (by simpa using hm) hk
          rw [visit, if_neg hm, if_pos (.inl hseen)] at hfalse
          cases hfalse
    · have hpre : pre = pre' := by
        rw [← takeWhile_first hfirst, hsplit, takeWhile_first hmem]
      subst hpre
      rw [hv] at hfalse
      exact (Prod.mk.inj (Option.some.inj hfalse)).1
  · rintro rfl
    exact ⟨pre, post, seen', rfl, hv⟩

end Evaluation

section Termination

variable {G : System ι}

/-- How many of the given nodes are not seen. -/
def remaining (nodes seen : List ι) : Nat := (nodes.filter (· ∉ seen)).length

theorem remaining_le {nodes seen seen' : List ι} (h : seen ⊆ seen') :
    remaining nodes seen' ≤ remaining nodes seen := by
  apply List.Sublist.length_le
  apply List.monotone_filter_right
  intro p hp
  simp only [decide_eq_true_eq] at hp ⊢
  exact fun hmem => hp (h hmem)

theorem remaining_le_length (nodes seen : List ι) : remaining nodes seen ≤ nodes.length :=
  List.length_filter_le _ _

theorem remaining_cons_lt {nodes seen : List ι} {p : ι} (hn : p ∈ nodes) (hs : p ∉ seen) :
    remaining nodes (p :: seen) < remaining nodes seen := by
  rw [remaining, remaining]
  induction nodes with
  | nil => cases hn
  | cons q nodes ih =>
    have hle : remaining nodes (p :: seen) ≤ remaining nodes seen :=
      remaining_le (List.subset_cons_self p seen)
    by_cases hq : q = p
    · subst hq
      rw [List.filter_cons_of_neg (by simp), List.filter_cons_of_pos (by simpa using hs)]
      exact Nat.lt_succ_of_le hle
    · have hlt := ih ((List.mem_cons.mp hn).resolve_left (Ne.symm hq))
      by_cases hqs : q ∈ seen
      · rwa [List.filter_cons_of_neg (by simp [hqs]), List.filter_cons_of_neg (by simp [hqs])]
      · rw [List.filter_cons_of_pos (by simp [hq, hqs]), List.filter_cons_of_pos (by simp [hqs])]
        exact Nat.succ_lt_succ hlt

omit [DecidableEq ι] in
theorem scan_isSome {eval : List ι → ι → Option (Bool × List ι)} (good : List ι → Prop)
    (heval : ∀ seen p, good seen → ∃ b seen', eval seen p = some (b, seen') ∧ good seen')
    {seen : List ι} (hseen : good seen) (ps : List ι) : (scan eval seen ps).isSome := by
  induction ps generalizing seen with
  | nil => rfl
  | cons p ps ih =>
    obtain ⟨b, seen', hv, hgood⟩ := heval seen p hseen
    rw [scan, hv, Option.isSome_map]
    exact ih hgood

theorem scan_visit_isSome {nodes : List ι} {limit : Nat}
    (h : ∀ {seen : List ι}, remaining nodes seen < limit → ∀ p, (visit G limit seen p).isSome)
    {seen : List ι} (hseen : remaining nodes seen < limit) (ps : List ι) :
    (scan (visit G limit) seen ps).isSome := by
  refine scan_isSome (fun seen => remaining nodes seen < limit) ?_ hseen ps
  intro seen' q hseen'
  obtain ⟨r, hr⟩ := Option.isSome_iff_exists.mp (h hseen' q)
  refine ⟨r.1, r.2, hr, ?_⟩
  rw [visit_seen hr]
  exact Nat.lt_of_le_of_lt (remaining_le (subset_after seen' q)) hseen'

/-- As many levels as there are unseen nodes suffice, whatever the graph. -/
theorem visit_isSome {nodes : List ι} (hnodes : ∀ p, G.known p = true → p ∈ nodes) {limit : Nat}
    {seen : List ι} (h : remaining nodes seen < limit) (p : ι) :
    (visit G limit seen p).isSome := by
  induction limit generalizing seen p with
  | zero => omega
  | succ limit ih =>
    rw [visit]
    by_cases hm : G.marked p = false
    · rw [if_pos hm]
      rfl
    by_cases hs : p ∈ seen ∨ G.known p = false
    · rw [if_neg hm, if_pos hs]
      rfl
    · rw [if_neg hm, if_neg hs, Option.isSome_map]
      rw [not_or, Bool.not_eq_false] at hs
      have hlt := remaining_cons_lt (hnodes p hs.2) hs.1
      exact scan_visit_isSome (fun hseen q => ih hseen q) (by omega) _

end Termination

section Meaning

variable (G : System ι)

/-- A node that is marked and passes its own check. -/
def Good (p : ι) : Prop := G.marked p = true ∧ G.check p = true

/-- Reachability through prerequisites that are not seen. -/
def Path (seen : List ι) : ι → ι → Prop :=
  Relation.ReflTransGen fun p q => q ∈ G.prereqs p ∧ q ∉ seen

/-- A node is complete when it is good and all its prerequisites are complete. -/
inductive Complete : ι → Prop
  | intro (p : ι) (good : Good G p) (below : ∀ q ∈ G.prereqs p, Complete q) : Complete p

variable {G}

omit [DecidableEq ι] in
theorem Path.mono {seen seen' : List ι} (h : seen ⊆ seen') {p q : ι} (hp : Path G seen' p q) :
    Path G seen p q := by
  induction hp with
  | refl => exact .refl
  | tail _ hstep ih => exact ih.tail ⟨hstep.1, fun hs => hstep.2 (h hs)⟩

/-- A first occurrence of a prerequisite other than the node itself is not yet seen. -/
theorem exists_first {seen : List ι} {p q : ι} (hq : q ∈ G.prereqs p) (hs : q ∉ seen)
    (hne : q ≠ p) :
    ∃ pre post, G.prereqs p = pre ++ q :: post ∧ q ∉ before G (p :: seen) pre := by
  obtain ⟨pre, post, hsplit, hpre⟩ := List.eq_append_cons_of_mem hq
  refine ⟨pre, post, hsplit, fun hmem => ?_⟩
  obtain hmem | ⟨hmem, -⟩ := mem_before hmem
  · obtain rfl | hmem := List.mem_cons.mp hmem
    · exact hne rfl
    · exact hs hmem
  · exact hpre hmem

/-- What is reached from a node is the node, or is reached from one of its prerequisites
avoiding what is seen in front of it. -/
theorem Path.cases {seen : List ι} {p q : ι} (h : Path G seen p q) :
    q = p ∨ ∃ pre r post, G.prereqs p = pre ++ r :: post ∧ r ∉ before G (p :: seen) pre ∧
      Path G (before G (p :: seen) pre) r q := by
  induction h with
  | refl => exact .inl rfl
  | tail _ hstep ih =>
    rename_i x y hpath
    obtain ⟨hy, hseen⟩ := hstep
    have hdirect (hmem : y ∈ G.prereqs p) : y = p ∨ ∃ pre r post,
        G.prereqs p = pre ++ r :: post ∧ r ∉ before G (p :: seen) pre ∧
          Path G (before G (p :: seen) pre) r y := by
      by_cases hyp : y = p
      · exact .inl hyp
      · obtain ⟨pre, post, hsplit, hfirst⟩ := exists_first hmem hseen hyp
        exact .inr ⟨pre, y, post, hsplit, hfirst, .refl⟩
    obtain rfl | ⟨pre, r, post, hsplit, hfirst, hr⟩ := ih
    · exact hdirect hy
    · by_cases hmem : y ∈ before G (p :: seen) pre
      · -- the path runs into the node or an earlier sibling: start again from there
        obtain hmem | ⟨hmem, -⟩ := mem_before hmem
        · obtain rfl | hmem := List.mem_cons.mp hmem
          · exact .inl rfl
          · exact absurd hmem hseen
        · apply hdirect
          rw [hsplit]
          exact List.mem_append_left _ hmem
      · exact .inr ⟨pre, r, post, hsplit, hfirst, hr.tail ⟨hy, hmem⟩⟩

/-- A marked node evaluates to true when it is seen, or when all that it reaches avoiding the
seen nodes is good. Seen nodes that it reaches have to be marked. -/
theorem visit_iff {limit : Nat} {seen seen' : List ι} {p : ι} {b : Bool}
    (hseen : ∀ s ∈ seen, Path G [] p s → G.marked s = true)
    (h : visit G limit seen p = some (b, seen')) :
    b = true ↔ G.marked p = true ∧ (p ∈ seen ∨ ∀ q, Path G seen p q → Good G q) := by
  induction limit generalizing seen seen' p b with
  | zero => cases h
  | succ limit ih =>
    rw [visit] at h
    by_cases hm : G.marked p = false
    · rw [if_pos hm, Option.some.injEq, Prod.mk.injEq] at h
      simp [← h.1, hm]
    rw [if_neg hm] at h
    rw [Bool.not_eq_false] at hm
    by_cases hs : p ∈ seen ∨ G.known p = false
    · rw [if_pos hs, Option.some.injEq, Prod.mk.injEq] at h
      refine iff_of_true h.1.symm ⟨hm, hs.imp id ?_⟩
      -- an unknown node has nothing below it
      intro hk q hq
      have hnil := G.prereqs_unknown p hk
      obtain rfl | ⟨pre, r, post, hsplit, -⟩ := hq.cases
      · exact ⟨hm, G.check_unknown q hk⟩
      · rw [hnil] at hsplit
        exact absurd hsplit (by simp)
    rw [if_neg hs, Option.map_eq_some_iff] at h
    obtain ⟨bs, hbs, hb⟩ := h
    obtain ⟨rfl, -⟩ := Prod.mk.inj hb
    rw [not_or] at hs
    have hmarked {pre post : List ι} {r : ι} (hsplit : G.prereqs p = pre ++ r :: post) :
        ∀ s ∈ before G (p :: seen) pre, Path G [] r s → G.marked s = true := by
      intro s hmem hpath
      obtain hmem | ⟨-, hms⟩ := mem_before hmem
      · obtain rfl | hmem := List.mem_cons.mp hmem
        · exact hm
        · apply hseen s hmem
          refine .head ⟨?_, List.not_mem_nil⟩ hpath
          rw [hsplit]
          exact List.mem_append_right _ List.mem_cons_self
      · exact hms
    rw [Bool.and_eq_true, scan_eq hbs]
    constructor
    · rintro ⟨hcheck, hall⟩
      refine ⟨hm, .inr ?_⟩
      intro q hq
      obtain rfl | ⟨pre, r, post, hsplit, hfirst, hr⟩ := hq.cases
      · exact ⟨hm, hcheck⟩
      · obtain ⟨seen'', hv⟩ := hall pre r post hsplit
        exact (((ih (hmarked hsplit) hv).mp rfl).2.resolve_left hfirst) q hr
    · rintro ⟨-, hor⟩
      have hgood := hor.resolve_left hs.1
      refine ⟨(hgood p .refl).2, ?_⟩
      intro pre r post hsplit
      obtain ⟨b, seen'', hv⟩ := scan_visited hbs hsplit
      have hmem : r ∈ G.prereqs p := by
        rw [hsplit]
        exact List.mem_append_right _ List.mem_cons_self
      have hsub : seen ⊆ before G (p :: seen) pre :=
        fun s hs => subset_before _ _ (List.mem_cons_of_mem _ hs)
      have htrue : b = true := by
        rw [ih (hmarked hsplit) hv]
        by_cases hr : r ∈ before G (p :: seen) pre
        · exact ⟨hmarked hsplit r hr .refl, .inl hr⟩
        · have hstep : Path G seen p r := .single ⟨hmem, fun hs => hr (hsub hs)⟩
          refine ⟨(hgood r hstep).1, .inr ?_⟩
          intro q hq
          exact hgood q (hstep.trans (hq.mono hsub))
      exact ⟨seen'', htrue ▸ hv⟩

omit [DecidableEq ι] in
/-- Only seen nodes that can be reached matter. -/
theorem Path.congr {seen seen' : List ι} {p q : ι}
    (h : ∀ r, Path G [] p r → (r ∈ seen ↔ r ∈ seen')) (hp : Path G seen p q) :
    Path G seen' p q := by
  induction hp with
  | refl => exact .refl
  | tail hpath hstep ih =>
    refine ih.tail ⟨hstep.1, ?_⟩
    have hreach := Path.mono (List.nil_subset seen) (hpath.tail hstep)
    exact fun hmem => hstep.2 ((h _ hreach).mpr hmem)

omit [DecidableEq ι] in
/-- On a well-founded graph a node is complete when all that it reaches is good. -/
theorem complete_iff (hwf : WellFounded fun q p => q ∈ G.prereqs p) (p : ι) :
    Complete G p ↔ ∀ q, Path G [] p q → Good G q := by
  constructor
  · intro h
    induction h with
    | intro p good _ ih =>
      intro q hq
      obtain rfl | ⟨r, hr, hrest⟩ := Relation.ReflTransGen.cases_head hq
      · exact good
      · exact ih r hr.1 q hrest
  · induction p using hwf.induction with
    | h p ih =>
      intro hall
      refine .intro p (hall p .refl) ?_
      intro q hq
      apply ih q hq
      intro r hr
      exact hall r (.head ⟨hq, List.not_mem_nil⟩ hr)

/-- From no seen nodes the evaluation decides completion. -/
theorem visit_nil_iff_complete (hwf : WellFounded fun q p => q ∈ G.prereqs p) {limit : Nat}
    {seen' : List ι} {p : ι} {b : Bool} (h : visit G limit [] p = some (b, seen')) :
    b = true ↔ Complete G p := by
  rw [visit_iff (by simp) h, complete_iff hwf]
  constructor
  · rintro ⟨-, hor⟩
    exact hor.resolve_left List.not_mem_nil
  · intro hall
    exact ⟨(hall p .refl).1, .inr hall⟩

omit [DecidableEq ι] in
/-- A path avoids given nodes, or the last of them on it leads to its end. -/
theorem Path.avoids (seen : List ι) {p q : ι} (h : Path G [] p q) :
    Path G seen p q ∨ ∃ s ∈ seen, Path G [] p s ∧ Path G [] s q := by
  induction h with
  | refl => exact .inl .refl
  | @tail x y hpath hstep ih =>
    by_cases hy : y ∈ seen
    · exact .inr ⟨y, hy, hpath.tail hstep, .refl⟩
    · obtain havoid | ⟨s, hs, hreach, hrest⟩ := ih
      · exact .inl (havoid.tail ⟨hstep.1, hy⟩)
      · exact .inr ⟨s, hs, hreach, hrest.tail hstep⟩

/-- The nodes of a scan hide each other's names only: all are answered with true when all are
complete. -/
theorem scan_iff_complete (hwf : WellFounded fun q p => q ∈ G.prereqs p) {limit : Nat} {r : ι}
    {ps : List ι} {bs : List Bool} (h : scan (visit G limit) [r] ps = some bs)
    (hr : ∀ p ∈ ps, ¬ Path G [] p r) : bs.all id = true ↔ ∀ p ∈ ps, Complete G p := by
  have hmem {pre post : List ι} {p : ι} (hsplit : ps = pre ++ p :: post) : p ∈ ps := by
    rw [hsplit]
    exact List.mem_append_right _ List.mem_cons_self
  -- of the seen nodes, `p` can only reach earlier ones of the scan
  have hseen {pre post : List ι} {p s : ι} (hsplit : ps = pre ++ p :: post)
      (hs : s ∈ before G [r] pre) (hpath : Path G [] p s) : s ∈ pre ∧ G.marked s = true := by
    refine (mem_before hs).resolve_left fun hsr => hr p (hmem hsplit) ?_
    rwa [List.mem_singleton.mp hsr] at hpath
  rw [scan_eq h]
  constructor
  · intro hall
    have hprefix : ∀ pre, pre <+: ps → ∀ p ∈ pre, Complete G p := by
      intro pre
      induction pre using List.reverseRecOn with
      | nil => simp
      | append_singleton pre p ih =>
        rintro ⟨post, hpost⟩
        have hsplit : ps = pre ++ p :: post := by rw [← hpost, List.append_assoc]; rfl
        have hearlier := ih ⟨p :: post, hsplit.symm⟩
        rw [List.forall_mem_append]
        refine ⟨hearlier, fun q hq => ?_⟩
        obtain rfl := List.mem_singleton.mp hq
        obtain ⟨seen', hv⟩ := hall pre q post hsplit
        obtain ⟨-, hin | hgood⟩ :=
          (visit_iff (fun s hs hpath => (hseen hsplit hs hpath).2) hv).mp rfl
        · exact hearlier q (hseen hsplit hin .refl).1
        · refine (complete_iff hwf q).mpr fun x hx => ?_
          obtain havoid | ⟨s, hs, hreach, hrest⟩ := hx.avoids (before G [r] pre)
          · exact hgood x havoid
          · exact (complete_iff hwf s).mp (hearlier s (hseen hsplit hs hreach).1) x hrest
    exact hprefix ps List.prefix_rfl
  · intro hall pre p post hsplit
    obtain ⟨b, seen', hv⟩ := scan_visited h hsplit
    have hgood := (complete_iff hwf p).mp (hall p (hmem hsplit))
    have htrue : b = true := by
      rw [visit_iff (fun s hs hpath => (hseen hsplit hs hpath).2) hv]
      exact ⟨(hgood p .refl).1, .inr fun q hq => hgood q (hq.mono (List.nil_subset _))⟩
    exact ⟨seen', htrue ▸ hv⟩

end Meaning

end Prerequisites
