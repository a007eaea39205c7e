import Mathlib.Data.List.DropRight
import Mathlib.Data.List.Infix

/-!
# Separator-terminated framing

A stream cut after each separator into lines, the last of which may be unterminated.
The cut is a function of the stream alone and can be taken up again from the
unterminated rest, so it does not matter how the stream arrives.

## Main definitions

- `Framing.whole`, `Framing.rest`: the terminated lines and what follows them
- `Framing.lines`: all lines of a stream
- `Framing.body`: a line without its separator
- `Framing.first`: the first line of a stream whose elements carry more than a byte
- `Framing.Event`: what becomes of one frame
-/

namespace Framing

/-- What becomes of one extracted frame. -/
inductive Event (α : Type*)
  | request (payload : α)
  | tooLong
  deriving DecidableEq, Repr

def Event.map {α β : Type*} (f : α → β) : Event α → Event β
  | .request payload => .request (f payload)
  | .tooLong => .tooLong

variable {α : Type*}

section Strip

variable {p : α → Bool}

/-- Stripping leaves at most `k` elements exactly when all from the `k`-th on are stripped. -/
theorem length_rdropWhile_le_iff (l : List α) (k : Nat) :
    (l.rdropWhile p).length ≤ k ↔ ∀ x ∈ l.drop k, p x = true := by
  induction l using List.reverseRecOn with
  | nil => simp [List.rdropWhile]
  | append_singleton l x ih =>
    rw [List.rdropWhile_concat]
    by_cases hk : k ≤ l.length
    · rw [List.drop_append_of_le_length hk]
      by_cases hx : p x = true
      · rw [if_pos hx, ih]
        simp [or_imp, forall_and, hx]
      · rw [if_neg hx]
        constructor
        · intro h
          simp only [List.length_append, List.length_singleton] at h
          omega
        · intro h
          exact absurd (h x (by simp)) hx
    · have hnil : (l ++ [x]).drop k = [] := List.drop_eq_nil_of_le (by simp; omega)
      rw [hnil]
      simp only [List.not_mem_nil, false_implies, implies_true, iff_true]
      split
      · have := (List.rdropWhile_prefix p l).length_le
        omega
      · simp only [List.length_append, List.length_singleton]
        omega

/-- A longer list strips to at least as much. -/
theorem length_rdropWhile_append (l m : List α) :
    (l.rdropWhile p).length ≤ ((l ++ m).rdropWhile p).length := by
  rw [length_rdropWhile_le_iff]
  intro x hx
  have h := (length_rdropWhile_le_iff (p := p) (l ++ m) _).mp (Nat.le_refl _)
  refine h x ?_
  rw [List.drop_append]
  exact List.mem_append_left _ hx

theorem rdropWhile_append_of_forall {m : List α} (h : ∀ x ∈ m, p x = true) (l : List α) :
    (l ++ m).rdropWhile p = l.rdropWhile p := by
  induction m using List.reverseRecOn with
  | nil => rw [List.append_nil]
  | append_singleton m x ih =>
    rw [← List.append_assoc, List.rdropWhile_concat_pos _ _ _ (h x (by simp)),
      ih fun y hy => h y (by simp [hy])]

theorem rdropWhile_congr {q : α → Bool} {l : List α} (h : ∀ x ∈ l, p x = q x) :
    l.rdropWhile p = l.rdropWhile q := by
  induction l using List.reverseRecOn with
  | nil => rfl
  | append_singleton l x ih =>
    rw [List.rdropWhile_concat, List.rdropWhile_concat, h x (by simp), ih fun y hy => h y (by simp [hy])]

end Strip

variable [DecidableEq α] (sep : α)

/-- The terminated lines of a stream, each with its separator, and what follows them. -/
def pieces : List α → List (List α) × List α
  | [] => ([], [])
  | c :: s =>
    if c = sep then ([c] :: (pieces s).1, (pieces s).2)
    else
      match (pieces s).1 with
      | [] => ([], c :: (pieces s).2)
      | l :: ls => ((c :: l) :: ls, (pieces s).2)

/-- The terminated lines of a stream. -/
def whole (s : List α) : List (List α) := (pieces sep s).1

/-- What follows the last separator of a stream. -/
def rest (s : List α) : List α := (pieces sep s).2

/-- The lines of a stream; a nonempty unterminated rest is one of them. -/
def lines (s : List α) : List (List α) :=
  whole sep s ++ if rest sep s = [] then [] else [rest sep s]

/-- A line without its separator. -/
def body (l : List α) : List α := l.takeWhile (· ≠ sep)

variable {sep}

theorem body_of_not_mem {f : List α} (h : sep ∉ f) : body sep f = f := by
  rw [body, List.takeWhile_eq_self_iff]
  intro x hx
  simpa using fun he : x = sep => h (he ▸ hx)

theorem body_terminated {f : List α} (h : sep ∉ f) : body sep (f ++ [sep]) = f := by
  rw [body, List.takeWhile_append_of_pos]
  · simp
  · intro x hx
    simpa using fun he : x = sep => h (he ▸ hx)

@[simp] theorem whole_nil : whole sep ([] : List α) = [] := rfl

@[simp] theorem rest_nil : rest sep ([] : List α) = [] := rfl

theorem pieces_of_not_mem {s : List α} (h : sep ∉ s) : pieces sep s = ([], s) := by
  induction s with
  | nil => rfl
  | cons c s ih =>
    rw [List.mem_cons, not_or] at h
    rw [pieces, if_neg (Ne.symm h.1), ih h.2]

theorem whole_of_not_mem {s : List α} (h : sep ∉ s) : whole sep s = [] := by
  rw [whole, pieces_of_not_mem h]

theorem rest_of_not_mem {s : List α} (h : sep ∉ s) : rest sep s = s := by
  rw [rest, pieces_of_not_mem h]

theorem pieces_append_sep {f : List α} (h : sep ∉ f) (s : List α) :
    pieces sep (f ++ sep :: s) = ((f ++ [sep]) :: whole sep s, rest sep s) := by
  induction f with
  | nil => rw [List.nil_append, pieces, if_pos rfl]; rfl
  | cons c f ih =>
    rw [List.mem_cons, not_or] at h
    rw [List.cons_append, pieces, if_neg (Ne.symm h.1), ih h.2]
    rfl

theorem whole_append_sep {f : List α} (h : sep ∉ f) (s : List α) :
    whole sep (f ++ sep :: s) = (f ++ [sep]) :: whole sep s := by
  rw [whole, pieces_append_sep h]

theorem rest_append_sep {f : List α} (h : sep ∉ f) (s : List α) :
    rest sep (f ++ sep :: s) = rest sep s := by
  rw [rest, pieces_append_sep h]

theorem lines_append_sep {f : List α} (h : sep ∉ f) (s : List α) :
    lines sep (f ++ sep :: s) = (f ++ [sep]) :: lines sep s := by
  rw [lines, whole_append_sep h, rest_append_sep h, List.cons_append]
  rfl

theorem lines_of_not_mem {f : List α} (h : sep ∉ f) (hne : f ≠ []) : lines sep f = [f] := by
  rw [lines, whole_of_not_mem h, rest_of_not_mem h, if_neg hne, List.nil_append]

@[simp] theorem lines_nil : lines sep ([] : List α) = [] := rfl

/-- A stream starts with a terminated line or has no separator. -/
theorem first_cases (sep : α) (s : List α) :
    sep ∉ s ∨ ∃ f t, s = f ++ sep :: t ∧ sep ∉ f := by
  by_cases h : sep ∈ s
  · obtain ⟨f, t, rfl, hf⟩ := List.eq_append_cons_of_mem h
    exact .inr ⟨f, t, rfl, hf⟩
  · exact .inl h

/-- Induction on a stream, line by line. -/
theorem stream_induction (sep : α) {motive : List α → Prop}
    (last : ∀ s, sep ∉ s → motive s)
    (line : ∀ f s, sep ∉ f → motive s → motive (f ++ sep :: s)) (s : List α) : motive s := by
  induction hn : s.length using Nat.strongRecOn generalizing s with
  | ind n ih =>
    obtain h | ⟨f, t, rfl, hf⟩ := first_cases sep s
    · exact last s h
    · refine line f t hf (ih _ ?_ t rfl)
      simp only [List.length_append, List.length_cons] at hn
      omega

theorem not_mem_rest (s : List α) : sep ∉ rest sep s := by
  induction s using stream_induction sep with
  | last s h => rwa [rest_of_not_mem h]
  | line f s hf ih => rwa [rest_append_sep hf]

/-- Each terminated line ends with its only separator. -/
theorem mem_whole {s l : List α} (h : l ∈ whole sep s) : ∃ f, l = f ++ [sep] ∧ sep ∉ f := by
  induction s using stream_induction sep with
  | last s hs => simp [whole_of_not_mem hs] at h
  | line f s hf ih =>
    rw [whole_append_sep hf, List.mem_cons] at h
    obtain rfl | h := h
    · exact ⟨f, rfl, hf⟩
    · exact ih h

variable (sep) in
theorem flatten_whole_append_rest (s : List α) : (whole sep s).flatten ++ rest sep s = s := by
  induction s using stream_induction sep with
  | last s h => simp [whole_of_not_mem h, rest_of_not_mem h]
  | line f s hf ih =>
    rw [whole_append_sep hf, rest_append_sep hf, List.flatten_cons, List.append_assoc, ih]
    simp

/-- Cutting can be taken up again from the unterminated rest. -/
theorem whole_append (s t : List α) :
    whole sep (s ++ t) = whole sep s ++ whole sep (rest sep s ++ t) := by
  induction s using stream_induction sep with
  | last s h => rw [whole_of_not_mem h, rest_of_not_mem h, List.nil_append]
  | line f s hf ih =>
    rw [List.append_assoc, List.cons_append, whole_append_sep hf, ih, whole_append_sep hf,
      rest_append_sep hf, List.cons_append]

theorem rest_append (s t : List α) : rest sep (s ++ t) = rest sep (rest sep s ++ t) := by
  induction s using stream_induction sep with
  | last s h => rw [rest_of_not_mem h]
  | line f s hf ih =>
    rw [List.append_assoc, List.cons_append, rest_append_sep hf, ih, rest_append_sep hf]

/-- What arrives after a separator in it is all that the rest can hold. -/
theorem length_rest_append_le {s t : List α} (h : sep ∉ s) (ht : sep ∈ t) :
    (rest sep (s ++ t)).length < t.length := by
  obtain ⟨f, u, rfl, hf⟩ := List.eq_append_cons_of_mem ht
  have hsf : sep ∉ s ++ f := by simp [h, hf]
  rw [← List.append_assoc, rest_append_sep hsf]
  have hlen := congrArg List.length (flatten_whole_append_rest sep u)
  simp only [List.length_append, List.length_cons] at hlen ⊢
  omega

section First

variable {β : Type*} (ends : β → Bool)

/-- What comes before the first terminator, the terminator, and what follows it. -/
def first : List β → Option (List β × β × List β)
  | [] => none
  | a :: s =>
    if ends a then some ([], a, s)
    else (first s).map fun (line, terminator, rest) => (a :: line, terminator, rest)

variable {ends}

theorem first_eq_some_iff {s line rest : List β} {terminator : β} :
    first ends s = some (line, terminator, rest) ↔
      s = line ++ terminator :: rest ∧ ends terminator = true ∧ ∀ a ∈ line, ends a = false := by
  induction s generalizing line with
  | nil => simp [first]
  | cons a s ih =>
    rw [first]
    by_cases ha : ends a = true
    · rw [if_pos ha]
      constructor
      · rintro ⟨⟩
        exact ⟨rfl, ha, by simp⟩
      · rintro ⟨hs, -, hline⟩
        cases line with
        | nil => cases hs; rfl
        | cons b line =>
          cases hs
          exact absurd ha (by simp [hline a (by simp)])
    · rw [if_neg ha, Option.map_eq_some_iff]
      constructor
      · rintro ⟨⟨line', terminator', rest'⟩, hfirst, ⟨⟩⟩
        obtain ⟨rfl, hend, hline⟩ := ih.mp hfirst
        exact ⟨rfl, hend, List.forall_mem_cons.mpr ⟨by simpa using ha, hline⟩⟩
      · rintro ⟨hs, hend, hline⟩
        cases line with
        | nil => cases hs; exact absurd hend ha
        | cons b line =>
          cases hs
          exact ⟨_, ih.mpr ⟨rfl, hend, fun c hc => hline c (List.mem_cons_of_mem _ hc)⟩, rfl⟩

theorem first_append {line : List β} {terminator : β} (hend : ends terminator = true)
    (hline : ∀ a ∈ line, ends a = false) (rest : List β) :
    first ends (line ++ terminator :: rest) = some (line, terminator, rest) :=
  first_eq_some_iff.mpr ⟨rfl, hend, hline⟩

end First

end Framing
