import Mathlib.Data.List.Basic

/-!
# Programs that return or raise

How a result comes out of a sequence of steps, any of which may raise.

## Main results

- `Except.bind_eq_ok`: a sequence returns when each step does
- `Except.RaisesOnly.bind`: and raises what one of them raises
- `Except.forM_eq_ok`, `Except.mapM_eq_ok`: likewise for loops
- `Except.mapM_spec`: what holds of the steps of a loop holds of its results
-/

namespace Except

variable {ε α β : Type}

@[simp] theorem ok_bind (a : α) (f : α → Except ε β) : (Except.ok a >>= f) = f a := rfl

@[simp] theorem error_bind (e : ε) (f : α → Except ε β) :
    ((Except.error e : Except ε α) >>= f) = .error e := rfl

@[simp] theorem pure_eq_ok (a : α) : (pure a : Except ε α) = .ok a := rfl

theorem bind_eq_ok {x : Except ε α} {f : α → Except ε β} {b : β} :
    (x >>= f) = .ok b ↔ ∃ a, x = .ok a ∧ f a = .ok b := by
  cases x with
  | error e => simp
  | ok a => simp

/-- Whatever is raised has the property. -/
def RaisesOnly (p : ε → Prop) (x : Except ε α) : Prop := ∀ e, x = .error e → p e

theorem raisesOnly_ok (p : ε → Prop) (a : α) : (Except.ok a : Except ε α).RaisesOnly p := by
  intro e h
  cases h

theorem raisesOnly_error {p : ε → Prop} {e : ε} (h : p e) :
    (Except.error e : Except ε α).RaisesOnly p := by
  rintro _ ⟨⟩
  exact h

/-- A sequence raises what one of its steps raises. -/
theorem RaisesOnly.bind {p : ε → Prop} {x : Except ε α} {f : α → Except ε β} (h : x.RaisesOnly p)
    (hf : ∀ a, (f a).RaisesOnly p) : (x >>= f).RaisesOnly p := by
  cases x with
  | error e => exact raisesOnly_error (h e rfl)
  | ok a => exact hf a

theorem map_eq_ok {x : Except ε α} {f : α → β} {b : β} :
    x.map f = .ok b ↔ ∃ a, x = .ok a ∧ f a = b := by
  cases x with
  | error e => simp [Except.map]
  | ok a => simp [Except.map]

theorem forM_eq_ok {f : α → Except ε Unit} {l : List α} {u : Unit} :
    l.forM f = .ok u ↔ ∀ a ∈ l, f a = .ok () := by
  induction l with
  | nil => simp [List.forM]
  | cons a l ih =>
    show (f a >>= fun _ => l.forM f) = .ok u ↔ _
    rw [bind_eq_ok, List.forall_mem_cons]
    simp only [ih]
    constructor
    · rintro ⟨⟨⟩, ha, hrest⟩
      exact ⟨ha, hrest⟩
    · rintro ⟨ha, hrest⟩
      exact ⟨_, ha, hrest⟩

theorem mapM_eq_ok {f : α → Except ε β} {g : α → β} {l : List α}
    (h : ∀ a ∈ l, f a = .ok (g a)) : l.mapM f = .ok (l.map g) := by
  induction l with
  | nil => rfl
  | cons a l ih =>
    rw [List.forall_mem_cons] at h
    rw [List.mapM_cons, h.1, ih h.2]
    rfl

/-- A loop returns when each step does. -/
theorem exists_mapM_eq_ok {f : α → Except ε β} {l : List α} (h : ∀ a ∈ l, ∃ b, f a = .ok b) :
    ∃ bs, l.mapM f = .ok bs := by
  induction l with
  | nil => exact ⟨[], rfl⟩
  | cons a l ih =>
    rw [List.forall_mem_cons] at h
    obtain ⟨b, hb⟩ := h.1
    obtain ⟨bs, hbs⟩ := ih h.2
    refine ⟨b :: bs, ?_⟩
    rw [List.mapM_cons, hb, hbs]
    rfl

/-- What a loop returns comes from its steps, one for one. -/
theorem mapM_spec {γ : Type*} {f : α → Except ε β} {l : List α} {bs : List β} (key : α → γ)
    (label : β → γ) {p : β → Prop} (h : l.mapM f = .ok bs)
    (hf : ∀ a ∈ l, ∀ b, f a = .ok b → label b = key a ∧ p b) :
    bs.map label = l.map key ∧ ∀ b ∈ bs, p b := by
  induction l generalizing bs with
  | nil =>
    cases h
    simp
  | cons a l ih =>
    rw [List.forall_mem_cons] at hf
    rw [List.mapM_cons, bind_eq_ok] at h
    obtain ⟨b, hb, h⟩ := h
    obtain ⟨rest, hrest, hpure⟩ := bind_eq_ok.mp h
    cases hpure
    obtain ⟨hlabel, hp⟩ := hf.1 b hb
    obtain ⟨hlabels, hps⟩ := ih hrest hf.2
    rw [List.map_cons, List.map_cons, hlabel, hlabels, List.forall_mem_cons]
    exact ⟨rfl, hp, hps⟩

end Except
