import Mathlib.Data.List.Basic

/-!
# Runs of a system that takes one event at a time

A system is its step function. A run is a list of events, in the order in which they
happen; an interleaving of several parties is such a list whose events name the party.

## Main definitions

- `Runs.run`: the state that a run leads to
- `Runs.Along`: each event of the run meets a condition in the state before it
- `Runs.trace`: the events of a run, each with what the system answers
- `Runs.Since`: one thing has happened, and another has not happened since

## Main results

- `Runs.run_invariant`: what each step preserves holds after every run
- `Runs.Along.invariant`: the same for steps that meet a condition
- `Runs.Along.imp`: one condition on the steps from another
- `Runs.trace_filter`: what can be left out of a run
- `Runs.since_snoc`: what the last event makes of `Runs.Since`
-/

namespace Runs

variable {σ ε : Type*}

def run (step : σ → ε → σ) (s : σ) (es : List ε) : σ := es.foldl step s

variable {step : σ → ε → σ} {s : σ}

@[simp] theorem run_nil : run step s [] = s := rfl

@[simp] theorem run_cons (e : ε) (es : List ε) :
    run step s (e :: es) = run step (step s e) es := rfl

@[simp] theorem run_append (es fs : List ε) :
    run step s (es ++ fs) = run step (run step s es) fs :=
  List.foldl_append

/-- What holds at first and is preserved by each step holds after every run. -/
theorem run_invariant {inv : σ → Prop} (hs : inv s)
    (hstep : ∀ s e, inv s → inv (step s e)) (es : List ε) : inv (run step s es) := by
  induction es generalizing s with
  | nil => exact hs
  | cons e es ih => exact ih (hstep s e hs)

/-- Each event of the run meets the condition in the state before it. -/
def Along (step : σ → ε → σ) (ok : σ → ε → Prop) : σ → List ε → Prop
  | _, [] => True
  | s, e :: es => ok s e ∧ Along step ok (step s e) es

variable {ok : σ → ε → Prop}

instance decidableAlong [∀ s e, Decidable (ok s e)] :
    ∀ (s : σ) (es : List ε), Decidable (Along step ok s es)
  | _, [] => isTrue trivial
  | s, e :: es =>
    have := decidableAlong (step s e) es
    inferInstanceAs (Decidable (ok s e ∧ Along step ok (step s e) es))

/-- What steps that meet the condition preserve holds after every run of such steps. -/
theorem Along.invariant {inv : σ → Prop} {es : List ε} (h : Along step ok s es) (hs : inv s)
    (hstep : ∀ s e, ok s e → inv s → inv (step s e)) : inv (run step s es) := by
  induction es generalizing s with
  | nil => exact hs
  | cons e es ih => exact ih h.2 (hstep s e h.1 hs)

theorem Along.of_forall {p : ε → Prop} {es : List ε} (h : ∀ e ∈ es, p e) :
    Along step (fun _ e => p e) s es := by
  induction es generalizing s with
  | nil => trivial
  | cons e es ih =>
    rw [List.forall_mem_cons] at h
    exact ⟨h.1, ih h.2⟩

theorem Along.and {ok' : σ → ε → Prop} {es : List ε} (h : Along step ok s es)
    (h' : Along step ok' s es) : Along step (fun s e => ok s e ∧ ok' s e) s es := by
  induction es generalizing s with
  | nil => trivial
  | cons e es ih => exact ⟨⟨h.1, h'.1⟩, ih h.2 h'.2⟩

/-- Steps that meet a condition meet another, when what they preserve gives it. -/
theorem Along.imp {inv : σ → Prop} {ok' : σ → ε → Prop} {es : List ε} (h : Along step ok s es)
    (hs : inv s) (hstep : ∀ s e, ok s e → inv s → ok' s e ∧ inv (step s e)) :
    Along step ok' s es := by
  induction es generalizing s with
  | nil => trivial
  | cons e es ih =>
    obtain ⟨hok, hinv⟩ := hstep s e h.1 hs
    exact ⟨hok, ih h.2 hinv⟩

section Trace

variable {ο : Type*} (out : σ → ε → ο)

/-- The events of a run, each with the answer that it gets in the state before it. -/
def trace (step : σ → ε → σ) (out : σ → ε → ο) : σ → List ε → List (ε × ο)
  | _, [] => []
  | s, e :: es => (e, out s e) :: trace step out (step s e) es

theorem trace_snoc (es : List ε) (e : ε) :
    trace step out s (es ++ [e]) = trace step out s es ++ [(e, out (run step s es) e)] := by
  induction es generalizing s with
  | nil => rfl
  | cons e' es ih =>
    show (e', out s e') :: trace step out (step s e') (es ++ [e]) = _
    rw [ih]
    rfl

theorem mem_trace {es : List ε} {answered : ε × ο} (h : answered ∈ trace step out s es) :
    ∃ s', answered.2 = out s' answered.1 := by
  induction es generalizing s with
  | nil => cases h
  | cons e es ih =>
    obtain rfl | h := List.mem_cons.mp h
    · exact ⟨s, rfl⟩
    · exact ih h

/-- Events that change nothing can be left out of a run, and their answers out of its trace. -/
theorem trace_filter {keep : ε → Bool} (h : ∀ s e, keep e = false → step s e = s) (es : List ε) :
    run step s (es.filter keep) = run step s es ∧
      trace step out s (es.filter keep) =
        (trace step out s es).filter fun answered => keep answered.1 := by
  induction es generalizing s with
  | nil => exact ⟨rfl, rfl⟩
  | cons e es ih =>
    obtain ⟨hrun, htrace⟩ := ih (s := step s e)
    cases hkeep : keep e with
    | true =>
      rw [List.filter_cons_of_pos hkeep]
      refine ⟨hrun, ?_⟩
      simp only [trace, htrace, List.filter_cons, hkeep, if_true]
    | false =>
      rw [List.filter_cons_of_neg (by simp [hkeep])]
      rw [h s e hkeep] at hrun htrace
      refine ⟨by rw [run_cons, h s e hkeep, hrun], ?_⟩
      rw [htrace]
      simp only [trace, List.filter_cons, hkeep, Bool.false_eq_true, if_false, h s e hkeep]

end Trace

section Since

variable {p q : ε → Prop}

/-- Some event has `p`, and none after it has `q`. -/
def Since (p q : ε → Prop) (es : List ε) : Prop :=
  ∃ before e after, es = before ++ e :: after ∧ p e ∧ ∀ e' ∈ after, ¬ q e'

theorem not_since_nil : ¬ Since p q [] := by
  rintro ⟨before, e, after, h, -⟩
  simp at h

theorem since_snoc (es : List ε) (e : ε) :
    Since p q (es ++ [e]) ↔ p e ∨ Since p q es ∧ ¬ q e := by
  constructor
  · rintro ⟨before, e', after, heq, hp, hq⟩
    obtain rfl | ⟨after, last, rfl⟩ := List.eq_nil_or_concat after
    · obtain ⟨-, hlast⟩ := List.append_inj' heq rfl
      cases hlast
      exact .inl hp
    · rw [List.concat_eq_append] at heq hq
      rw [← List.cons_append, ← List.append_assoc] at heq
      obtain ⟨hrest, hlast⟩ := List.append_inj' heq rfl
      cases hlast
      rw [List.forall_mem_append] at hq
      exact .inr ⟨⟨before, e', after, hrest, hp, hq.1⟩, hq.2 _ List.mem_cons_self⟩
  · rintro (hp | ⟨⟨before, e', after, rfl, hp, hq⟩, hlast⟩)
    · exact ⟨es, e, [], rfl, hp, by simp⟩
    · refine ⟨before, e', after ++ [e], by simp, hp, ?_⟩
      rw [List.forall_mem_append]
      exact ⟨hq, by simpa using hlast⟩

end Since

end Runs
