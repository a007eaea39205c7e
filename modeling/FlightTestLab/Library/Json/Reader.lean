import Mathlib.Data.List.TakeWhile
import Mathlib.Tactic.Tauto
import FlightTestLab.Library.Json.Grammar

/-!
# A reader for the JSON grammar

`readDocument` is a greedy recursive-descent reader that answers the syntax tree
of a text. It is sound and complete for `Json.Document`, so the tree of a text is
unique. The `Nat` argument bounds the recursion; `readDocument` gives it more
than any text needs, which is what completeness shows.
-/

namespace Json

def skipBlank : Text → Text
  | [] => []
  | c :: s => if IsBlank c then skipBlank s else c :: s

def startsWithDigit : Text → Bool
  | [] => false
  | c :: _ => decide (IsDigit c)

/-- The longest run of digits at the head, and the rest. -/
def spanDigits (s : Text) : Text × Text :=
  (s.takeWhile (fun c => decide (IsDigit c)), s.dropWhile (fun c => decide (IsDigit c)))

/-- A nonempty run of digits. -/
def readDigits (s : Text) : Option (Text × Text) :=
  if startsWithDigit s then some (spanDigits s) else none

def readMinus : Text → Text × Text
  | [] => ([], [])
  | c :: s => if c = 0x2D then ([0x2D], s) else ([], c :: s)

def readInt : Text → Option (Text × Text)
  | [] => none
  | c :: s =>
    if c = 0x30 then if startsWithDigit s then none else some ([0x30], s)
    else readDigits (c :: s)

def readFrac : Text → Option (Text × Text)
  | [] => some ([], [])
  | c :: s =>
    if c = 0x2E then (readDigits s).map fun (ds, r) => (0x2E :: ds, r) else some ([], c :: s)

def readExpSign : Text → Text × Text
  | [] => ([], [])
  | c :: s => if c = 0x2B ∨ c = 0x2D then ([c], s) else ([], c :: s)

def readExp : Text → Option (Text × Text)
  | [] => some ([], [])
  | c :: s =>
    if c = 0x65 ∨ c = 0x45 then
      let (sign, s') := readExpSign s
      (readDigits s').map fun (ds, r) => (c :: (sign ++ ds), r)
    else some ([], c :: s)

def readNumber (s : Text) : Option (Tree × Text) :=
  let (sign, s₁) := readMinus s
  match readInt s₁ with
  | none => none
  | some (int, s₂) =>
    match readFrac s₂ with
    | none => none
    | some (frac, s₃) =>
      match readExp s₃ with
      | none => none
      | some (exp, r) =>
        if frac ++ exp = [] then some (.int (sign ++ int), r)
        else some (.float (sign ++ int ++ frac ++ exp), r)

def readLiteral (s : Text) : Option (Tree × Text) :=
  literals.findSome? fun (lit, t) => (s.dropPrefix? lit).map fun r => (t, r)

def readItems : Text → Option (List Item × Text)
  | [] => none
  | c :: s =>
    if c = 0x22 then some ([], s)
    else if c = 0x5C then
      match s with
      | [] => none
      | e :: s₁ =>
        if e = 0x75 then
          match s₁ with
          | w :: x :: y :: z :: s₂ =>
            match hex4 w x y z with
            | none => none
            | some u => (readItems s₂).map fun (is, r) => (.unicode u :: is, r)
          | _ => none
        else
          match escapeOf e with
          | none => none
          | some c => (readItems s₁).map fun (is, r) => (.escape c :: is, r)
    else if c < 0x20 then none
    else (readItems s).map fun (is, r) => (.raw c :: is, r)

/-- A string literal with its opening quote. -/
def readString : Text → Option (List Item × Text)
  | [] => none
  | c :: s => if c = 0x22 then readItems s else none

mutual
/-- A value, after any blanks. -/
def readValue : Nat → Text → Option (Tree × Text)
  | 0, _ => none
  | n + 1, s =>
    match skipBlank s with
    | [] => none
    | c :: s₁ =>
      if c = 0x7B then readObject n s₁
      else if c = 0x5B then readArray n s₁
      else if c = 0x22 then (readItems s₁).map fun (is, r) => (.str is, r)
      else (readLiteral (c :: s₁)).or (readNumber (c :: s₁))
/-- An array after its opening bracket. -/
def readArray : Nat → Text → Option (Tree × Text)
  | 0, _ => none
  | n + 1, s =>
    match skipBlank s with
    | [] => none
    | c :: s₁ =>
      if c = 0x5D then some (.arr [], s₁)
      else (readElements n (c :: s₁)).map fun (ts, r) => (.arr ts, r)
/-- One element or more, with the closing bracket. -/
def readElements : Nat → Text → Option (List Tree × Text)
  | 0, _ => none
  | n + 1, s =>
    match readValue n s with
    | none => none
    | some (t, s₁) =>
      match skipBlank s₁ with
      | [] => none
      | c :: s₂ =>
        if c = 0x2C then (readElements n s₂).map fun (ts, r) => (t :: ts, r)
        else if c = 0x5D then some ([t], s₂)
        else none
/-- An object after its opening brace. -/
def readObject : Nat → Text → Option (Tree × Text)
  | 0, _ => none
  | n + 1, s =>
    match skipBlank s with
    | [] => none
    | c :: s₁ =>
      if c = 0x7D then some (.obj [], s₁)
      else (readMembers n (c :: s₁)).map fun (ms, r) => (.obj ms, r)
/-- One member or more, with the closing brace. -/
def readMembers : Nat → Text → Option (List (List Item × Tree) × Text)
  | 0, _ => none
  | n + 1, s =>
    match readString (skipBlank s) with
    | none => none
    | some (is, s₁) =>
      match skipBlank s₁ with
      | [] => none
      | c :: s₂ =>
        if c = 0x3A then
          match readValue n s₂ with
          | none => none
          | some (t, s₃) =>
            match skipBlank s₃ with
            | [] => none
            | c' :: s₄ =>
              if c' = 0x2C then (readMembers n s₄).map fun (ms, r) => ((is, t) :: ms, r)
              else if c' = 0x7D then some ([(is, t)], s₄)
              else none
        else none
end

/-- More levels than any text of this length uses. -/
def fuelFor (s : Text) : Nat := 3 * s.length + 3

/-- The syntax tree of a text, if it has one. -/
def readDocument (s : Text) : Option Tree :=
  match readValue (fuelFor s) s with
  | none => none
  | some (t, r) => if skipBlank r = [] then some t else none

section Lexical

theorem blank_skipBlank (s : Text) : Blank s (skipBlank s) := by
  induction s with
  | nil => exact .nil
  | cons c s ih =>
    rw [skipBlank]
    split
    · next h => exact .cons h ih
    · exact .nil

theorem not_isBlank_of_skipBlank {s r : Text} {c : Nat} (h : skipBlank s = c :: r) :
    ¬ IsBlank c := by
  induction s with
  | nil => simp [skipBlank] at h
  | cons d s ih =>
    rw [skipBlank] at h
    split at h
    · exact ih h
    · next hd =>
      cases h
      exact hd

/-- Skipping is the only way to pass blanks up to a code point that is not one. -/
theorem Blank.skipBlank_eq {s r : Text} {c : Nat} (h : Blank s (c :: r)) (hc : ¬ IsBlank c) :
    skipBlank s = c :: r := by
  generalize hr : c :: r = t at h
  induction h with
  | nil =>
    subst hr
    exact if_neg hc
  | cons hd _ ih =>
    rw [skipBlank, if_pos hd]
    exact ih hr

theorem Blank.skipBlank_nil {s : Text} (h : Blank s []) : skipBlank s = [] := by
  generalize hr : [] = t at h
  induction h with
  | nil => rw [← hr]; rfl
  | cons hd _ ih =>
    rw [skipBlank, if_pos hd]
    exact ih hr

theorem startsWithDigit_append {ds : Text} (hne : ds ≠ []) (hd : ∀ c ∈ ds, IsDigit c) (r : Text) :
    startsWithDigit (ds ++ r) = true := by
  cases ds with
  | nil => exact absurd rfl hne
  | cons c ds => simpa [startsWithDigit] using hd c (by simp)

theorem spanDigits_append {ds : Text} (hd : ∀ c ∈ ds, IsDigit c) {r : Text}
    (hr : startsWithDigit r = false) : spanDigits (ds ++ r) = (ds, r) := by
  have hp : ∀ c ∈ ds, decide (IsDigit c) = true := fun c hc => decide_eq_true (hd c hc)
  rw [spanDigits, List.takeWhile_append_of_pos hp, List.dropWhile_append_of_pos hp]
  cases r with
  | nil => simp
  | cons c r =>
    have hc : ¬ IsDigit c := by simpa [startsWithDigit] using hr
    simp [hc]

theorem readDigits_sound {s ds r : Text} (h : readDigits s = some (ds, r)) :
    s = ds ++ r ∧ IsDigits ds := by
  rw [readDigits] at h
  split at h
  · next hs =>
    cases h
    refine ⟨(List.takeWhile_append_dropWhile).symm, ?_, fun c hc => ?_⟩
    · cases s with
      | nil => simp [startsWithDigit] at hs
      | cons c s =>
        have hc : IsDigit c := by simpa [startsWithDigit] using hs
        simp [hc]
    · simpa using List.mem_takeWhile_imp hc
  · cases h

theorem readDigits_complete {ds r : Text} (h : IsDigits ds) (hr : startsWithDigit r = false) :
    readDigits (ds ++ r) = some (ds, r) := by
  rw [readDigits, if_pos (startsWithDigit_append h.1 h.2 r), spanDigits_append h.2 hr]

theorem readMinus_sound (s : Text) :
    s = (readMinus s).1 ++ (readMinus s).2 ∧ IsMinus (readMinus s).1 := by
  cases s with
  | nil => exact ⟨rfl, .inl rfl⟩
  | cons c s =>
    by_cases hc : c = 0x2D
    · simp [readMinus, hc, IsMinus]
    · simp [readMinus, hc, IsMinus]

theorem readInt_sound {s ds r : Text} (h : readInt s = some (ds, r)) :
    s = ds ++ r ∧ IsInt ds := by
  cases s with
  | nil => simp [readInt] at h
  | cons c s =>
    rw [readInt] at h
    split at h
    · next hc =>
      split at h
      · cases h
      · cases h
        exact ⟨by rw [hc]; rfl, .inl rfl⟩
    · next hc =>
      obtain ⟨hs, hd⟩ := readDigits_sound h
      refine ⟨hs, .inr ⟨hd, ?_⟩⟩
      cases ds with
      | nil => simp
      | cons d ds =>
        rw [List.cons_append, List.cons.injEq] at hs
        simpa [← hs.1] using hc

theorem readInt_complete {ds r : Text} (h : IsInt ds) (hr : startsWithDigit r = false) :
    readInt (ds ++ r) = some (ds, r) := by
  obtain rfl | ⟨hd, hz⟩ := h
  · simp [readInt, hr]
  · cases ds with
    | nil => exact absurd rfl hd.1
    | cons c ds =>
      have hc : c ≠ 0x30 := by simpa using hz
      rw [List.cons_append, readInt, if_neg hc]
      exact readDigits_complete hd hr

theorem readFrac_sound {s frac r : Text} (h : readFrac s = some (frac, r)) :
    s = frac ++ r ∧ IsFrac frac := by
  cases s with
  | nil =>
    cases h
    exact ⟨rfl, .inl rfl⟩
  | cons c s =>
    rw [readFrac] at h
    split at h
    · next hc =>
      rw [Option.map_eq_some_iff] at h
      obtain ⟨⟨ds, r'⟩, hd, he⟩ := h
      cases he
      obtain ⟨rfl, hds⟩ := readDigits_sound hd
      exact ⟨by rw [hc]; rfl, .inr ⟨ds, rfl, hds⟩⟩
    · cases h
      exact ⟨rfl, .inl rfl⟩

theorem readFrac_complete {frac r : Text} (h : IsFrac frac) (hr : startsWithDigit r = false)
    (hdot : r.head? ≠ some 0x2E) : readFrac (frac ++ r) = some (frac, r) := by
  obtain rfl | ⟨ds, rfl, hd⟩ := h
  · cases r with
    | nil => rfl
    | cons c r =>
      have hc : c ≠ 0x2E := by simpa using hdot
      simp [readFrac, hc]
  · simp [readFrac, readDigits_complete hd hr]

theorem readExpSign_sound (s : Text) :
    s = (readExpSign s).1 ++ (readExpSign s).2 ∧
      ((readExpSign s).1 = [] ∨ (readExpSign s).1 = [0x2B] ∨ (readExpSign s).1 = [0x2D]) := by
  cases s with
  | nil => exact ⟨rfl, .inl rfl⟩
  | cons c s =>
    by_cases hc : c = 0x2B ∨ c = 0x2D
    · rcases hc with rfl | rfl <;> simp [readExpSign]
    · simp [readExpSign, hc]

theorem readExp_sound {s exp r : Text} (h : readExp s = some (exp, r)) :
    s = exp ++ r ∧ IsExp exp := by
  cases s with
  | nil =>
    cases h
    exact ⟨rfl, .inl rfl⟩
  | cons c s =>
    rw [readExp] at h
    split at h
    · next hc =>
      dsimp only at h
      rw [Option.map_eq_some_iff] at h
      obtain ⟨⟨ds, r'⟩, hd, he⟩ := h
      cases he
      obtain ⟨hs, hds⟩ := readDigits_sound hd
      obtain ⟨hsign, hk⟩ := readExpSign_sound s
      refine ⟨?_, .inr ⟨c, _, ds, rfl, hc, hk, hds⟩⟩
      rw [List.cons_append, List.append_assoc, ← hs, ← hsign]
    · cases h
      exact ⟨rfl, .inl rfl⟩

theorem readExpSign_complete {sign ds : Text} (hs : sign = [] ∨ sign = [0x2B] ∨ sign = [0x2D])
    (hd : IsDigits ds) (r : Text) : readExpSign (sign ++ (ds ++ r)) = (sign, ds ++ r) := by
  obtain ⟨c, ds, rfl⟩ := List.exists_cons_of_ne_nil hd.1
  have hc := hd.2 c (by simp)
  obtain rfl | rfl | rfl := hs
  · have hne : ¬ (c = 0x2B ∨ c = 0x2D) := by
      unfold IsDigit at hc
      omega
    simp [readExpSign, hne]
  · simp [readExpSign]
  · simp [readExpSign]

theorem readExp_complete {exp r : Text} (h : IsExp exp) (hr : startsWithDigit r = false)
    (he : r.head? ≠ some 0x65) (hE : r.head? ≠ some 0x45) :
    readExp (exp ++ r) = some (exp, r) := by
  obtain rfl | ⟨e, sign, ds, rfl, hk, hs, hd⟩ := h
  · cases r with
    | nil => rfl
    | cons c r =>
      have hc : ¬ (c = 0x65 ∨ c = 0x45) := by
        rintro (rfl | rfl)
        · exact he rfl
        · exact hE rfl
      simp [readExp, hc]
  · simp [readExp, hk, readExpSign_complete hs hd r, readDigits_complete hd hr]

/-- A number literal cannot be continued by this text. -/
def Stops (r : Text) : Prop :=
  startsWithDigit r = false ∧ r.head? ≠ some 0x2E ∧ r.head? ≠ some 0x65 ∧ r.head? ≠ some 0x45

theorem readNumber_sound {s r : Text} {t : Tree} (h : readNumber s = some (t, r)) :
    (∃ tok, t = .int tok ∧ s = tok ++ r ∧ IsIntToken tok) ∨
      ∃ tok, t = .float tok ∧ s = tok ++ r ∧ IsFloatToken tok := by
  unfold readNumber at h
  obtain ⟨hs, hm⟩ := readMinus_sound s
  generalize readMinus s = p at h hs hm
  obtain ⟨sign, s₁⟩ := p
  dsimp only at h hs hm
  cases hi : readInt s₁ with
  | none => simp [hi] at h
  | some p =>
    obtain ⟨int, s₂⟩ := p
    obtain ⟨rfl, hint⟩ := readInt_sound hi
    cases hf : readFrac s₂ with
    | none => simp [hi, hf] at h
    | some p =>
      obtain ⟨frac, s₃⟩ := p
      obtain ⟨rfl, hfrac⟩ := readFrac_sound hf
      cases he : readExp s₃ with
      | none => simp [hi, hf, he] at h
      | some p =>
        obtain ⟨exp, s₄⟩ := p
        obtain ⟨rfl, hexp⟩ := readExp_sound he
        simp only [hi, hf, he] at h
        split at h
        · next hnil =>
          cases h
          rw [List.append_eq_nil_iff] at hnil
          refine .inl ⟨_, rfl, ?_, sign, int, rfl, hm, hint⟩
          simp [hs, hnil.1, hnil.2]
        · next hnil =>
          cases h
          refine .inr ⟨_, rfl, ?_, sign, int, frac, exp, rfl, hm, hint, hfrac, hexp, hnil⟩
          simp [hs]

theorem readMinus_complete {sign int : Text} (hm : IsMinus sign) (hi : IsInt int) (r : Text) :
    readMinus (sign ++ (int ++ r)) = (sign, int ++ r) := by
  obtain ⟨c, ds, rfl, hc⟩ := hi.head
  obtain rfl | rfl := hm
  · have hne : c ≠ 0x2D := by
      unfold IsDigit at hc
      omega
    simp [readMinus, hne]
  · simp [readMinus]

theorem readNumber_complete {sign int frac exp r : Text} (hm : IsMinus sign) (hi : IsInt int)
    (hf : IsFrac frac) (he : IsExp exp) (hr : Stops r) :
    readNumber (sign ++ int ++ frac ++ exp ++ r) =
      some (if frac ++ exp = [] then .int (sign ++ int)
        else .float (sign ++ int ++ frac ++ exp), r) := by
  obtain ⟨hd, hdot, he1, he2⟩ := hr
  have hx : startsWithDigit (exp ++ r) = false ∧ (exp ++ r).head? ≠ some 0x2E := by
    obtain rfl | ⟨e, sgn, ds, rfl, hk, -⟩ := he
    · exact ⟨hd, hdot⟩
    · rcases hk with rfl | rfl <;> simp [startsWithDigit, IsDigit]
  have hfx : startsWithDigit (frac ++ (exp ++ r)) = false := by
    obtain rfl | ⟨ds, rfl, -⟩ := hf
    · exact hx.1
    · simp [startsWithDigit, IsDigit]
  have h1 := readMinus_complete hm hi (frac ++ (exp ++ r))
  have h2 := readInt_complete hi hfx
  have h3 := readFrac_complete hf hx.1 hx.2
  have h4 := readExp_complete he hd he1 he2
  simp only [List.append_assoc, readNumber, h1, h2, h3, h4]
  split <;> rfl

theorem readLiteral_sound {s r : Text} {t : Tree} (h : readLiteral s = some (t, r)) :
    ∃ lit, (lit, t) ∈ literals ∧ s = lit ++ r := by
  obtain ⟨⟨lit, t'⟩, hmem, hp⟩ := List.exists_of_findSome?_eq_some h
  rw [Option.map_eq_some_iff] at hp
  obtain ⟨r', hd, he⟩ := hp
  cases he
  obtain ⟨lit', rfl, hb⟩ := List.dropPrefix?_eq_some_iff.mp hd
  rw [eq_of_beq hb]
  exact ⟨lit, hmem, rfl⟩

theorem readLiteral_complete {lit : Text} {t : Tree} (h : (lit, t) ∈ literals) (r : Text) :
    readLiteral (lit ++ r) = some (t, r) := by
  simp only [literals, List.mem_cons, Prod.mk.injEq, List.not_mem_nil, or_false] at h
  rcases h with ⟨rfl, rfl⟩ | ⟨rfl, rfl⟩ | ⟨rfl, rfl⟩ | ⟨rfl, rfl⟩ | ⟨rfl, rfl⟩ | ⟨rfl, rfl⟩ <;>
    simp [readLiteral, literals, List.findSome?, List.dropPrefix?]

/-- No literal name starts like a number. -/
theorem readLiteral_number {sign int : Text} (hm : IsMinus sign) (hi : IsInt int) (r : Text) :
    readLiteral (sign ++ (int ++ r)) = none := by
  obtain ⟨c, ds, rfl, hc⟩ := hi.head
  unfold IsDigit at hc
  have h1 : c ≠ 0x6E ∧ c ≠ 0x74 ∧ c ≠ 0x66 ∧ c ≠ 0x4E ∧ c ≠ 0x49 ∧ c ≠ 0x2D := by omega
  obtain rfl | rfl := hm
  · simp [readLiteral, literals, List.findSome?, List.dropPrefix?, h1]
  · simp [readLiteral, literals, List.findSome?, List.dropPrefix?, h1]

theorem readItems_cons (c : Nat) (s : Text) :
    readItems (c :: s) =
      if c = 0x22 then some ([], s)
      else if c = 0x5C then
        match s with
        | [] => none
        | e :: s₁ =>
          if e = 0x75 then
            match s₁ with
            | w :: x :: y :: z :: s₂ =>
              match hex4 w x y z with
              | none => none
              | some u => (readItems s₂).map fun (is, r) => (.unicode u :: is, r)
            | _ => none
          else
            match escapeOf e with
            | none => none
            | some c => (readItems s₁).map fun (is, r) => (.escape c :: is, r)
      else if c < 0x20 then none
      else (readItems s).map fun (is, r) => (.raw c :: is, r) := by
  conv_lhs => rw [readItems.eq_def]
  rfl

theorem readItems_sound {s r : Text} {is : List Item} (h : readItems s = some (is, r)) :
    Items is s r := by
  induction hn : s.length using Nat.strongRecOn generalizing s is with
  | ind n ih =>
    cases s with
    | nil => simp [readItems] at h
    | cons c s =>
      subst hn
      rw [readItems_cons] at h
      split at h
      · next hc =>
        cases h
        rw [hc]
        exact .close
      · next hq =>
        split at h
        · next hc =>
          subst hc
          cases s with
          | nil => simp at h
          | cons e s₁ =>
            dsimp only at h
            split at h
            · next he =>
              subst he
              split at h
              · next w x y z s₂ =>
                split at h
                · cases h
                · next u hu =>
                  rw [Option.map_eq_some_iff] at h
                  obtain ⟨⟨is', r'⟩, hr, hi⟩ := h
                  cases hi
                  exact .unicode hu (ih _ (by simp only [List.length_cons]; omega) hr rfl)
              · cases h
            · split at h
              · cases h
              · next d hd =>
                rw [Option.map_eq_some_iff] at h
                obtain ⟨⟨is', r'⟩, hr, hi⟩ := h
                cases hi
                exact .escape hd (ih _ (by simp only [List.length_cons]; omega) hr rfl)
        · next hb =>
          split at h
          · cases h
          · next hlow =>
            rw [Option.map_eq_some_iff] at h
            obtain ⟨⟨is', r'⟩, hr, hi⟩ := h
            cases hi
            exact .raw (by omega) hq hb (ih _ (by simp) hr rfl)

theorem Items.readItems_eq {s r : Text} {is : List Item} (h : Items is s r) :
    readItems s = some (is, r) := by
  induction h with
  | close => simp [readItems_cons]
  | raw h1 h2 h3 _ ih =>
    rw [readItems_cons, if_neg h2, if_neg h3, if_neg (by omega), ih]
    rfl
  | @escape e c is s r he _ ih =>
    have hu : e ≠ 0x75 := by
      rintro rfl
      simp [escapeOf] at he
    simp [readItems_cons, hu, he, ih]
  | unicode hu _ ih => simp [readItems_cons, hu, ih]

end Lexical

section Structure

private theorem map_pair_eq {α β : Type*} {f : α → β} {o : Option (α × Text)} {b : β} {r : Text}
    (h : (o.map fun p => (f p.1, p.2)) = some (b, r)) : ∃ a, o = some (a, r) ∧ f a = b := by
  rw [Option.map_eq_some_iff] at h
  obtain ⟨⟨a, r'⟩, ho, he⟩ := h
  cases he
  exact ⟨a, ho, rfl⟩

theorem readString_sound {s r : Text} {is : List Item} (h : readString s = some (is, r)) :
    ∃ s₁, s = 0x22 :: s₁ ∧ Items is s₁ r := by
  cases s with
  | nil => simp [readString] at h
  | cons c s =>
    rw [readString] at h
    split at h
    · next hc => exact ⟨s, by rw [hc], readItems_sound h⟩
    · cases h

/-- What each reader has derived when it answers. -/
private def SoundAt (n : Nat) : Prop :=
  (∀ s t r, readValue n s = some (t, r) → ∃ s₁, Blank s s₁ ∧ Derives (.value t) s₁ r) ∧
  (∀ s t r, readArray n s = some (t, r) → Derives (.value t) (0x5B :: s) r) ∧
  (∀ s ts r, readElements n s = some (ts, r) → Derives (.elements ts) s r) ∧
  (∀ s t r, readObject n s = some (t, r) → Derives (.value t) (0x7B :: s) r) ∧
  (∀ s ms r, readMembers n s = some (ms, r) → Derives (.members ms) s r)

private theorem readValue_sound_step {n : Nat} (ih : SoundAt n) {s r : Text} {t : Tree}
    (h : readValue (n + 1) s = some (t, r)) : ∃ s₁, Blank s s₁ ∧ Derives (.value t) s₁ r := by
  obtain ⟨-, ihArr, -, ihObj, -⟩ := ih
  rw [readValue] at h
  have hb := blank_skipBlank s
  cases hs : skipBlank s with
  | nil => simp [hs] at h
  | cons c s₁ =>
    rw [hs] at h hb
    dsimp only at h
    refine ⟨c :: s₁, hb, ?_⟩
    split at h
    · next hc =>
      rw [hc]
      exact ihObj _ _ _ h
    split at h
    · next hc =>
      rw [hc]
      exact ihArr _ _ _ h
    split at h
    · next hc =>
      obtain ⟨is, hi, rfl⟩ := map_pair_eq h
      rw [hc]
      exact .str (readItems_sound hi)
    rw [Option.or_eq_some_iff] at h
    obtain h | ⟨-, h⟩ := h
    · obtain ⟨lit, hm, he⟩ := readLiteral_sound h
      rw [he]
      exact .literal hm
    · obtain ⟨tok, rfl, he, ht⟩ | ⟨tok, rfl, he, ht⟩ := readNumber_sound h
      · rw [he]
        exact .int ht
      · rw [he]
        exact .float ht

private theorem readArray_sound_step {n : Nat} (ih : SoundAt n) {s r : Text} {t : Tree}
    (h : readArray (n + 1) s = some (t, r)) : Derives (.value t) (0x5B :: s) r := by
  have hb := blank_skipBlank s
  rw [readArray] at h
  cases hs : skipBlank s with
  | nil => simp [hs] at h
  | cons c s₁ =>
    rw [hs] at h hb
    dsimp only at h
    split at h
    · next hc =>
      cases h
      rw [hc] at hb
      exact .emptyArr hb
    · obtain ⟨ts, hts, rfl⟩ := map_pair_eq h
      have hd := ih.2.2.1 _ _ _ hts
      refine .arr ?_
      cases hd with
      | lastElement h₁ hv h₂ => exact .lastElement (hb.trans h₁) hv h₂
      | element h₁ hv h₂ hr => exact .element (hb.trans h₁) hv h₂ hr

private theorem readElements_sound_step {n : Nat} (ih : SoundAt n) {s r : Text} {ts : List Tree}
    (h : readElements (n + 1) s = some (ts, r)) : Derives (.elements ts) s r := by
  rw [readElements] at h
  cases hv : readValue n s with
  | none => simp [hv] at h
  | some p =>
    obtain ⟨t, s₁⟩ := p
    obtain ⟨s₀, hb₀, hd⟩ := ih.1 _ _ _ hv
    have hb := blank_skipBlank s₁
    rw [hv] at h
    dsimp only at h
    cases hs : skipBlank s₁ with
    | nil => simp [hs] at h
    | cons c s₂ =>
      rw [hs] at h hb
      dsimp only at h
      split at h
      · next hc =>
        obtain ⟨ts', hts, rfl⟩ := map_pair_eq h
        rw [hc] at hb
        exact .element hb₀ hd hb (ih.2.2.1 _ _ _ hts)
      split at h
      · next hc =>
        cases h
        rw [hc] at hb
        exact .lastElement hb₀ hd hb
      · cases h

private theorem readObject_sound_step {n : Nat} (ih : SoundAt n) {s r : Text} {t : Tree}
    (h : readObject (n + 1) s = some (t, r)) : Derives (.value t) (0x7B :: s) r := by
  have hb := blank_skipBlank s
  rw [readObject] at h
  cases hs : skipBlank s with
  | nil => simp [hs] at h
  | cons c s₁ =>
    rw [hs] at h hb
    dsimp only at h
    split at h
    · next hc =>
      cases h
      rw [hc] at hb
      exact .emptyObj hb
    · obtain ⟨ms, hms, rfl⟩ := map_pair_eq h
      have hd := ih.2.2.2.2 _ _ _ hms
      refine .obj ?_
      cases hd with
      | lastMember h₁ hi h₂ h₃ hv h₄ => exact .lastMember (hb.trans h₁) hi h₂ h₃ hv h₄
      | member h₁ hi h₂ h₃ hv h₄ hr => exact .member (hb.trans h₁) hi h₂ h₃ hv h₄ hr

private theorem readMembers_sound_step {n : Nat} (ih : SoundAt n) {s r : Text}
    {ms : List (List Item × Tree)} (h : readMembers (n + 1) s = some (ms, r)) :
    Derives (.members ms) s r := by
  have hb := blank_skipBlank s
  rw [readMembers] at h
  cases hk : readString (skipBlank s) with
  | none => simp [hk] at h
  | some p =>
    obtain ⟨is, s₁⟩ := p
    obtain ⟨s₀, he, hi⟩ := readString_sound hk
    rw [he] at hb
    rw [hk] at h
    dsimp only at h
    have hb₁ := blank_skipBlank s₁
    cases hs : skipBlank s₁ with
    | nil => simp [hs] at h
    | cons c s₂ =>
      rw [hs] at h hb₁
      dsimp only at h
      split at h
      · next hc =>
        rw [hc] at hb₁
        cases hv : readValue n s₂ with
        | none => simp [hv] at h
        | some p =>
          obtain ⟨t, s₃⟩ := p
          obtain ⟨s₂', hb₂, hd⟩ := ih.1 _ _ _ hv
          have hb₃ := blank_skipBlank s₃
          rw [hv] at h
          dsimp only at h
          cases hs' : skipBlank s₃ with
          | nil => simp [hs'] at h
          | cons c' s₄ =>
            rw [hs'] at h hb₃
            dsimp only at h
            split at h
            · next hc' =>
              obtain ⟨ms', hms, rfl⟩ := map_pair_eq h
              rw [hc'] at hb₃
              exact .member hb hi hb₁ hb₂ hd hb₃ (ih.2.2.2.2 _ _ _ hms)
            split at h
            · next hc' =>
              cases h
              rw [hc'] at hb₃
              exact .lastMember hb hi hb₁ hb₂ hd hb₃
            · cases h
      · cases h

private theorem soundAt (n : Nat) : SoundAt n := by
  induction n with
  | zero => exact ⟨by simp [readValue], by simp [readArray], by simp [readElements],
      by simp [readObject], by simp [readMembers]⟩
  | succ n ih =>
    exact ⟨fun _ _ _ h => readValue_sound_step ih h, fun _ _ _ h => readArray_sound_step ih h,
      fun _ _ _ h => readElements_sound_step ih h, fun _ _ _ h => readObject_sound_step ih h,
      fun _ _ _ h => readMembers_sound_step ih h⟩

theorem readValue_sound {n : Nat} {s r : Text} {t : Tree} (h : readValue n s = some (t, r)) :
    ∃ s₁, Blank s s₁ ∧ Derives (.value t) s₁ r := (soundAt n).1 s t r h

theorem skipBlank_idem (s : Text) : skipBlank (skipBlank s) = skipBlank s := by
  cases hs : skipBlank s with
  | nil => rfl
  | cons c r => exact if_neg (not_isBlank_of_skipBlank hs)

theorem readValue_skipBlank (n : Nat) (s : Text) : readValue n (skipBlank s) = readValue n s := by
  cases n with
  | zero => rfl
  | succ n => simp only [readValue, skipBlank_idem]

theorem readValue_nil (n : Nat) : readValue n [] = none := by
  cases n <;> rfl

theorem readElements_skipBlank (n : Nat) (s : Text) :
    readElements n (skipBlank s) = readElements n s := by
  cases n with
  | zero => rfl
  | succ n => simp only [readElements, readValue_skipBlank]

theorem readMembers_skipBlank (n : Nat) (s : Text) :
    readMembers n (skipBlank s) = readMembers n s := by
  cases n with
  | zero => rfl
  | succ n => simp only [readMembers, skipBlank_idem]

/-- The first code point of a value is ASCII, not a blank and closes nothing. -/
theorem Derives.value_head {t : Tree} {s r : Text} (h : Derives (.value t) s r) :
    ∃ c s', s = c :: s' ∧ c < 0x80 ∧ ¬ IsBlank c ∧ c ≠ 0x5D := by
  have token : ∀ {sign int : Text} (rest : Text), IsMinus sign → IsInt int →
      ∃ c s', sign ++ int ++ rest = c :: s' ∧ c < 0x80 ∧ ¬ IsBlank c ∧ c ≠ 0x5D := by
    intro sign int rest hm hi
    obtain ⟨c, ds, rfl, hc⟩ := hi.head
    unfold IsDigit at hc
    obtain rfl | rfl := hm
    · exact ⟨c, _, rfl, by omega, by unfold IsBlank; omega, by omega⟩
    · exact ⟨0x2D, _, rfl, by decide, by decide, by decide⟩
  cases h with
  | literal h =>
    simp only [literals, List.mem_cons, Prod.mk.injEq, List.not_mem_nil, or_false] at h
    rcases h with ⟨rfl, -⟩ | ⟨rfl, -⟩ | ⟨rfl, -⟩ | ⟨rfl, -⟩ | ⟨rfl, -⟩ | ⟨rfl, -⟩ <;>
      exact ⟨_, _, rfl, by decide, by decide, by decide⟩
  | int h =>
    obtain ⟨sign, int, rfl, hm, hi⟩ := h
    exact token _ hm hi
  | float h =>
    obtain ⟨sign, int, frac, exp, rfl, hm, hi, -⟩ := h
    obtain ⟨c, s', he, hc⟩ := token (frac ++ exp ++ r) hm hi
    exact ⟨c, s', by rw [← he]; simp, hc⟩
  | str _ | emptyArr _ | arr _ | emptyObj _ | obj _ =>
    exact ⟨_, _, rfl, by decide, by decide, by decide⟩

theorem Blank.stops {s r : Text} {c : Nat} (h : Blank s (c :: r))
    (hc : ¬ IsDigit c ∧ c ≠ 0x2E ∧ c ≠ 0x65 ∧ c ≠ 0x45) : Stops s := by
  cases h with
  | nil => simpa [Stops, startsWithDigit] using hc
  | cons hb _ =>
    rcases hb with rfl | rfl | rfl | rfl <;>
      simp [Stops, startsWithDigit, IsDigit]

theorem Blank.stops_nil {s : Text} (h : Blank s []) : Stops s := by
  cases h with
  | nil => simp [Stops, startsWithDigit]
  | cons hb _ =>
    rcases hb with rfl | rfl | rfl | rfl <;>
      simp [Stops, startsWithDigit, IsDigit]

theorem readValue_of_blank {s s₁ r : Text} {t : Tree} {n : Nat} (hb : Blank s s₁)
    (hd : Derives (.value t) s₁ r) : readValue n s = readValue n s₁ := by
  obtain ⟨c, s', rfl, -, hc, -⟩ := hd.value_head
  rw [← readValue_skipBlank, hb.skipBlank_eq hc]

/-- What the reader answers on a derived phrase, once the recursion may go deep enough. -/
private def CompleteAt : Phrase → Text → Text → Prop
  | .value t, s, r => Stops r → ∀ n, 3 * s.length ≤ n → readValue n s = some (t, r)
  | .elements ts, s, r => ∀ n, 3 * s.length + 1 ≤ n → readElements n s = some (ts, r)
  | .members ms, s, r => ∀ n, 3 * s.length + 1 ≤ n → readMembers n s = some (ms, r)

private theorem readValue_token {sign int rest : Text} {n : Nat} (hm : IsMinus sign)
    (hi : IsInt int) (hn : 0 < n) :
    readValue n (sign ++ (int ++ rest)) = readNumber (sign ++ (int ++ rest)) := by
  obtain ⟨m, rfl⟩ := Nat.exists_eq_succ_of_ne_zero (Nat.ne_of_gt hn)
  have hl := readLiteral_number hm hi rest
  obtain ⟨c, ds, rfl, hc⟩ := hi.head
  unfold IsDigit at hc
  rw [readValue]
  obtain rfl | rfl := hm
  · have hb : ¬ IsBlank c := by unfold IsBlank; omega
    have h1 : c ≠ 0x7B ∧ c ≠ 0x5B ∧ c ≠ 0x22 := by omega
    simp only [List.nil_append, List.cons_append] at hl ⊢
    simp [skipBlank, hb, h1, hl]
  · simp only [List.cons_append, List.nil_append] at hl ⊢
    simp [skipBlank, IsBlank, hl]

private theorem completeAt {p : Phrase} {s r : Text} (h : Derives p s r) : CompleteAt p s r := by
  induction h with
  | @literal lit t r h =>
    intro _ n hn
    have hlen := length_pos_of_mem_literals h
    obtain ⟨m, rfl⟩ := Nat.exists_eq_succ_of_ne_zero (n := n) (by
      simp only [List.length_append] at hn
      omega)
    have hl := readLiteral_complete h r
    simp only [literals, List.mem_cons, Prod.mk.injEq, List.not_mem_nil, or_false] at h
    rcases h with ⟨rfl, rfl⟩ | ⟨rfl, rfl⟩ | ⟨rfl, rfl⟩ | ⟨rfl, rfl⟩ | ⟨rfl, rfl⟩ | ⟨rfl, rfl⟩ <;>
      simp only [List.cons_append, List.nil_append] at hl ⊢ <;>
      simp [readValue, skipBlank, IsBlank, hl]
  | @int tok r h =>
    intro hr n hn
    obtain ⟨sign, int, rfl, hm, hi⟩ := h
    have hp := hi.length_pos
    have hc := readNumber_complete hm hi (.inl rfl) (.inl rfl) hr
    simp only [List.append_nil, if_true, List.append_assoc] at hc
    simp only [List.length_append] at hn
    rw [List.append_assoc, readValue_token hm hi (by omega), hc]
  | @float tok r h =>
    intro hr n hn
    obtain ⟨sign, int, frac, exp, rfl, hm, hi, hf, he, hne⟩ := h
    have hp := hi.length_pos
    have hc := readNumber_complete hm hi hf he hr
    simp only [if_neg hne, List.append_assoc] at hc
    simp only [List.length_append] at hn
    simp only [List.append_assoc]
    rw [readValue_token hm hi (by omega), hc]
  | str h =>
    intro _ n hn
    obtain ⟨m, rfl⟩ := Nat.exists_eq_succ_of_ne_zero (n := n) (by
      simp only [List.length_cons] at hn
      omega)
    simp [readValue, skipBlank, IsBlank, h.readItems_eq]
  | emptyArr h =>
    intro _ n hn
    obtain ⟨m, rfl⟩ : ∃ m, n = m + 2 := ⟨n - 2, by simp only [List.length_cons] at hn; omega⟩
    have hs := h.skipBlank_eq (by decide)
    simp [readValue, readArray, skipBlank, IsBlank, hs]
  | @arr ts s r h ih =>
    intro _ n hn
    obtain ⟨m, rfl⟩ : ∃ m, n = m + 2 := ⟨n - 2, by simp only [List.length_cons] at hn; omega⟩
    simp only [List.length_cons] at hn
    obtain ⟨c, s', hs, hc⟩ : ∃ c s', skipBlank s = c :: s' ∧ c ≠ 0x5D := by
      cases h with
      | lastElement hb hv _ | element hb hv _ _ =>
        obtain ⟨c, s', rfl, -, hnb, hne⟩ := hv.value_head
        exact ⟨c, s', hb.skipBlank_eq hnb, hne⟩
    have hi := ih m (by omega)
    rw [← readElements_skipBlank, hs] at hi
    simp [readValue, readArray, skipBlank, IsBlank, hs, hc, hi]
  | emptyObj h =>
    intro _ n hn
    obtain ⟨m, rfl⟩ : ∃ m, n = m + 2 := ⟨n - 2, by simp only [List.length_cons] at hn; omega⟩
    have hs := h.skipBlank_eq (by decide)
    simp [readValue, readObject, skipBlank, IsBlank, hs]
  | @obj ms s r h ih =>
    intro _ n hn
    obtain ⟨m, rfl⟩ : ∃ m, n = m + 2 := ⟨n - 2, by simp only [List.length_cons] at hn; omega⟩
    simp only [List.length_cons] at hn
    obtain ⟨s', hs⟩ : ∃ s', skipBlank s = 0x22 :: s' := by
      cases h with
      | lastMember hb _ _ _ _ _ | member hb _ _ _ _ _ _ => exact ⟨_, hb.skipBlank_eq (by decide)⟩
    have hi := ih m (by omega)
    rw [← readMembers_skipBlank, hs] at hi
    simp [readValue, readObject, skipBlank, IsBlank, hs, hi]
  | @lastElement t s s₁ s₂ r hb hv hb' ih =>
    intro n hn
    obtain ⟨m, rfl⟩ : ∃ m, n = m + 1 := ⟨n - 1, by omega⟩
    have hl := hb.length_le
    have hi := ih (hb'.stops (by decide)) m (by omega)
    have hs := hb'.skipBlank_eq (by decide)
    simp [readElements, readValue_of_blank hb hv, hi, hs]
  | @element t ts s s₁ s₂ s₃ r hb hv hb' hr ih ih' =>
    intro n hn
    obtain ⟨m, rfl⟩ : ∃ m, n = m + 1 := ⟨n - 1, by omega⟩
    have hl := hb.length_le
    have hl' := hb'.length_le
    have hlt := hv.length_lt
    simp only [List.length_cons] at hl'
    have hi := ih (hb'.stops (by decide)) m (by omega)
    have hi' := ih' m (by omega)
    have hs := hb'.skipBlank_eq (by decide)
    simp [readElements, readValue_of_blank hb hv, hi, hs, hi']
  | @lastMember is t s s₁ s₂ s₃ s₄ s₅ r hb hk hb₂ hb₃ hv hb₅ ih =>
    intro n hn
    obtain ⟨m, rfl⟩ : ∃ m, n = m + 1 := ⟨n - 1, by omega⟩
    have hl := hb.length_le
    have hl₁ := hk.length_lt
    have hl₂ := hb₂.length_le
    have hl₃ := hb₃.length_le
    simp only [List.length_cons] at hl hl₂
    have hi := ih (hb₅.stops (by decide)) m (by omega)
    have hs := hb.skipBlank_eq (by decide)
    have hs₂ := hb₂.skipBlank_eq (by decide)
    have hs₅ := hb₅.skipBlank_eq (by decide)
    simp [readMembers, readString, hs, hk.readItems_eq, hs₂, readValue_of_blank hb₃ hv, hi, hs₅]
  | @member is t ms s s₁ s₂ s₃ s₄ s₅ s₆ r hb hk hb₂ hb₃ hv hb₅ hr ih ih' =>
    intro n hn
    obtain ⟨m, rfl⟩ : ∃ m, n = m + 1 := ⟨n - 1, by omega⟩
    have hl := hb.length_le
    have hl₁ := hk.length_lt
    have hl₂ := hb₂.length_le
    have hl₃ := hb₃.length_le
    have hl₄ := hv.length_lt
    have hl₅ := hb₅.length_le
    simp only [List.length_cons] at hl hl₂ hl₅
    have hi := ih (hb₅.stops (by decide)) m (by omega)
    have hi' := ih' m (by omega)
    have hs := hb.skipBlank_eq (by decide)
    have hs₂ := hb₂.skipBlank_eq (by decide)
    have hs₅ := hb₅.skipBlank_eq (by decide)
    simp [readMembers, readString, hs, hk.readItems_eq, hs₂, readValue_of_blank hb₃ hv, hi, hs₅,
      hi']

/-- With levels enough, the reader leaves only blanks exactly on the texts of the grammar. -/
theorem readValue_document_iff {s : Text} {t : Tree} {n : Nat} (hn : 3 * s.length ≤ n) :
    (∃ r, readValue n s = some (t, r) ∧ skipBlank r = []) ↔ Document t s := by
  constructor
  · rintro ⟨r, hv, hr⟩
    obtain ⟨s₁, hb, hd⟩ := readValue_sound hv
    exact ⟨s₁, r, hb, hd, hr ▸ blank_skipBlank r⟩
  · rintro ⟨s₁, s₂, hb, hd, hb'⟩
    have hl := hb.length_le
    refine ⟨s₂, ?_, hb'.skipBlank_nil⟩
    rw [readValue_of_blank hb hd]
    exact completeAt hd hb'.stops_nil _ (by omega)

theorem readDocument_eq_some_iff {s : Text} {t : Tree} :
    readDocument s = some t ↔ Document t s := by
  rw [← readValue_document_iff (n := fuelFor s) (by unfold fuelFor; omega), readDocument]
  constructor
  · intro h
    split at h
    · cases h
    · next t' r hv =>
      split at h
      · next hr =>
        cases h
        exact ⟨r, hv, hr⟩
      · cases h
  · rintro ⟨r, hv, hr⟩
    simp only [hv, hr, if_true]

/-- A document starts with an ASCII code point. -/
theorem Document.head_lt {t : Tree} {s : Text} (h : Document t s) : ∃ c s', s = c :: s' ∧ c < 0x80 := by
  obtain ⟨s₁, s₂, hb, hd, -⟩ := h
  cases hb with
  | nil =>
    obtain ⟨c, s', rfl, hc, -⟩ := hd.value_head
    exact ⟨c, s', rfl, hc⟩
  | @cons c s' _ hc _ =>
    refine ⟨c, s', rfl, ?_⟩
    unfold IsBlank at hc
    omega

/-- A text has at most one tree. -/
theorem Document.unique {s : Text} {t u : Tree} (ht : Document t s) (hu : Document u s) : t = u :=
  Option.some.inj
    ((readDocument_eq_some_iff.mpr ht).symm.trans (readDocument_eq_some_iff.mpr hu))

end Structure

end Json
