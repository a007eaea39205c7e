import Mathlib.Data.List.Basic

/-!
# Triples for programs over a state

A program changes a state and returns, or it stops with an error; the state in which it stops
stays. A triple says that it returns.

## Main definitions

- `Hoare.Prog`: a program
- `Hoare.Triple`: from each state with the precondition it returns, with the postcondition
- `Hoare.Partial`: when it returns from such a state, it does so with the postcondition
- `Hoare.Keeps`: a part of the state that it does not touch

## Main results

- `Hoare.triple_pure`, `Hoare.triple_bind`, `Hoare.triple_ite`: the rules for sequences
- `Hoare.triple_access`, `Hoare.triple_modify`: and for what reads or changes the state
- `Hoare.partial_pure`, `Hoare.partial_bind`, …: the same rules when nothing is said of errors
-/

namespace Hoare

/-- A program over states `σ` that returns an `α` or stops with an `ε`. -/
def Prog (σ ε α : Type) : Type := σ → Except ε α × σ

variable {σ ε α β : Type}

namespace Prog

instance : Monad (Prog σ ε) where
  pure a := fun s => (.ok a, s)
  bind p f := fun s =>
    match p s with
    | (.ok a, s') => f a s'
    | (.error e, s') => (.error e, s')

/-- Change the state by an operation that may fail; then the state stays. -/
def access (op : σ → Except ε (α × σ)) : Prog σ ε α := fun s =>
  match op s with
  | .ok (a, s') => (.ok a, s')
  | .error e => (.error e, s)

/-- A result, or an error, that does not depend on the state. -/
def lift (x : Except ε α) : Prog σ ε α := fun s => (x, s)

def modify (f : σ → σ) : Prog σ ε Unit := fun s => (.ok (), f s)

theorem bind_of_ok {p : Prog σ ε α} {f : α → Prog σ ε β} {s s' : σ} {a : α}
    (h : p s = (.ok a, s')) : (p >>= f) s = f a s' := by
  show (match p s with
    | (.ok a, s') => f a s'
    | (.error e, s') => (.error e, s')) = _
  rw [h]

theorem bind_of_error {p : Prog σ ε α} {f : α → Prog σ ε β} {s s' : σ} {e : ε}
    (h : p s = (.error e, s')) : (p >>= f) s = (.error e, s') := by
  show (match p s with
    | (.ok a, s') => f a s'
    | (.error e, s') => (.error e, s')) = _
  rw [h]

@[simp] theorem lift_ok_bind (a : α) (f : α → Prog σ ε β) : (lift (.ok a) >>= f) = f a := rfl

@[simp] theorem lift_error_bind (e : ε) (f : α → Prog σ ε β) :
    (lift (.error e) >>= f) = lift (.error e) := rfl

end Prog

/-- From each state with the precondition, the program returns with the postcondition. -/
def Triple (pre : σ → Prop) (p : Prog σ ε α) (post : α → σ → Prop) : Prop :=
  ∀ s, pre s → ∃ a s', p s = (.ok a, s') ∧ post a s'

section Rules

variable {pre : σ → Prop} {p q : Prog σ ε α} {post : α → σ → Prop}

theorem triple_pure {a : α} (h : ∀ s, pre s → post a s) :
    Triple pre (pure a : Prog σ ε α) post :=
  fun s hs => ⟨a, s, rfl, h s hs⟩

theorem triple_bind {mid : α → σ → Prop} {f : α → Prog σ ε β} {final : β → σ → Prop}
    (hp : Triple pre p mid) (hf : ∀ a, Triple (mid a) (f a) final) :
    Triple pre (p >>= f) final := by
  intro s hs
  obtain ⟨a, s', hrun, ha⟩ := hp s hs
  obtain ⟨b, s'', hrun', hb⟩ := hf a s' ha
  refine ⟨b, s'', ?_, hb⟩
  rw [Prog.bind_of_ok hrun]
  exact hrun'

theorem triple_ite {condition : Prop} [Decidable condition]
    (htrue : condition → Triple pre p post) (hfalse : ¬ condition → Triple pre q post) :
    Triple pre (if condition then p else q) post := by
  split_ifs with h
  · exact htrue h
  · exact hfalse h

theorem triple_access {op : σ → Except ε (α × σ)}
    (h : ∀ s, pre s → ∃ a s', op s = .ok (a, s') ∧ post a s') :
    Triple pre (Prog.access op) post := by
  intro s hs
  obtain ⟨a, s', hop, ha⟩ := h s hs
  refine ⟨a, s', ?_, ha⟩
  rw [Prog.access, hop]

theorem triple_modify {f : σ → σ} {after : Unit → σ → Prop} (h : ∀ s, pre s → after () (f s)) :
    Triple pre (Prog.modify f : Prog σ ε Unit) after :=
  fun s hs => ⟨(), f s, rfl, h s hs⟩

end Rules

/-- When the program returns from a state with the precondition, the postcondition holds. -/
def Partial (pre : σ → Prop) (p : Prog σ ε α) (post : α → σ → Prop) : Prop :=
  ∀ s a s', pre s → p s = (.ok a, s') → post a s'

section PartialRules

variable {pre : σ → Prop} {p q : Prog σ ε α} {post : α → σ → Prop}

theorem partial_pure {a : α} (h : ∀ s, pre s → post a s) :
    Partial pre (pure a : Prog σ ε α) post := by
  rintro s _ _ hs ⟨⟩
  exact h s hs

theorem partial_bind {mid : α → σ → Prop} {f : α → Prog σ ε β} {final : β → σ → Prop}
    (hp : Partial pre p mid) (hf : ∀ a, Partial (mid a) (f a) final) :
    Partial pre (p >>= f) final := by
  intro s b s'' hs hrun
  cases hps : p s with
  | mk result s' =>
    cases result with
    | ok a =>
      rw [Prog.bind_of_ok hps] at hrun
      exact hf a s' b s'' (hp s a s' hs hps) hrun
    | error e =>
      rw [Prog.bind_of_error hps] at hrun
      cases hrun

theorem partial_ite {condition : Prop} [Decidable condition]
    (htrue : condition → Partial pre p post) (hfalse : ¬ condition → Partial pre q post) :
    Partial pre (if condition then p else q) post := by
  split_ifs with h
  · exact htrue h
  · exact hfalse h

theorem partial_access {op : σ → Except ε (α × σ)}
    (h : ∀ s a s', pre s → op s = .ok (a, s') → post a s') :
    Partial pre (Prog.access op) post := by
  intro s a s' hs hrun
  rw [Prog.access] at hrun
  split at hrun
  · next hop =>
    cases hrun
    exact h s a s' hs hop
  · cases hrun

theorem partial_modify {f : σ → σ} {after : Unit → σ → Prop} (h : ∀ s, pre s → after () (f s)) :
    Partial pre (Prog.modify f : Prog σ ε Unit) after := by
  rintro s _ _ hs ⟨⟩
  exact h s hs

end PartialRules

/-- Whether the program returns or stops, this part of the state stays as it is. -/
def Keeps {τ : Type} (part : σ → τ) (p : Prog σ ε α) : Prop := ∀ s, part (p s).2 = part s

section KeepsRules

variable {τ : Type} {part : σ → τ} {p q : Prog σ ε α}

theorem keeps_pure (a : α) : Keeps part (pure a : Prog σ ε α) := fun _ => rfl

theorem keeps_lift (x : Except ε α) : Keeps part (Prog.lift x : Prog σ ε α) := fun _ => rfl

theorem keeps_bind {f : α → Prog σ ε β} (hp : Keeps part p) (hf : ∀ a, Keeps part (f a)) :
    Keeps part (p >>= f) := by
  intro s
  cases hps : p s with
  | mk result s' =>
    have hs' : part s' = part s := by
      rw [← hp s, hps]
    cases result with
    | ok a =>
      rw [Prog.bind_of_ok hps, hf a s', hs']
    | error e =>
      rw [Prog.bind_of_error hps]
      exact hs'

theorem keeps_ite {condition : Prop} [Decidable condition] (hp : Keeps part p)
    (hq : Keeps part q) : Keeps part (if condition then p else q) := by
  split_ifs
  · exact hp
  · exact hq

theorem keeps_access {op : σ → Except ε (α × σ)}
    (h : ∀ s a s', op s = .ok (a, s') → part s' = part s) : Keeps part (Prog.access op) := by
  intro s
  rw [Prog.access]
  split
  · next hop => exact h s _ _ hop
  · rfl

theorem keeps_modify {f : σ → σ} (h : ∀ s, part (f s) = part s) :
    Keeps part (Prog.modify f : Prog σ ε Unit) := h

end KeepsRules

end Hoare
