import FlightTestLab.Cpp.Lexing

/-!
# The native parser against the grammar

On the encoding of a text the parser answers what the reader of the grammar answers,
cut at the nesting and digit limits. The two recursions use their levels in step, so
one induction on the number of levels carries all five functions.

## Main definitions

- `Cpp.ofTree`: the value of a syntax tree
- `Cpp.Fits`: the limits the parser enforces

## Main results

- `Cpp.parse_eq_some_iff`: `dut::parse` against the grammar
-/

namespace Cpp

open Json (Text Tree Item ascii IsDigit skipBlank decodeItems DigitsFit)
open Utf8 (encodeAll encodeAll_cons_cases)

variable {D : Type}

/-- `strtod` reads number tokens to their end. -/
def StrtodReads (N : NativeDouble D) : Prop :=
  ∀ tok, Json.IsFloatToken tok → (N.strtod tok).2 = tok.length

theorem Sample.strtodReads : StrtodReads Sample.native := fun _ _ => rfl

mutual
/-- The value of a syntax tree. -/
def ofTree (N : NativeDouble D) : Tree → Value D
  | .null => .null
  | .bool b => .bool b
  | .nan => .double N.quietNan
  | .inf false => .double N.infinity
  | .inf true => .double N.negInfinity
  | .int tok => intValue tok
  | .float tok => .double (N.strtod tok).1
  | .str is => .string (encodeAll (decodeItems is))
  | .arr ts => .array (ofElements N ts)
  | .obj ms => .object (Assoc.ofPairs (ofMembers N ms))
/-- The values of array elements. -/
def ofElements (N : NativeDouble D) : List Tree → List (Value D)
  | [] => []
  | t :: ts => ofTree N t :: ofElements N ts
/-- The keys and values of object members, in source order. -/
def ofMembers (N : NativeDouble D) : List (List Item × Tree) → List (Bytes × Value D)
  | [] => []
  | (is, t) :: ms => (encodeAll (decodeItems is), ofTree N t) :: ofMembers N ms
end

/-- A value parsed at this depth stays within both limits. -/
def Fits (depth : Nat) (t : Tree) : Prop :=
  t.depth + depth ≤ kMaxDepth + 1 ∧ DigitsFit kMaxIntDigits t.intTokens

instance (depth : Nat) (t : Tree) : Decidable (Fits depth t) := inferInstanceAs (Decidable (_ ∧ _))

/-- The elements of an array at this depth stay within both limits. -/
def FitsElements (depth : Nat) (ts : List Tree) : Prop :=
  Tree.depthElements ts + depth ≤ kMaxDepth ∧ DigitsFit kMaxIntDigits (Tree.intTokensElements ts)

instance (depth : Nat) (ts : List Tree) : Decidable (FitsElements depth ts) :=
  inferInstanceAs (Decidable (_ ∧ _))

/-- The members of an object at this depth stay within both limits. -/
def FitsMembers (depth : Nat) (ms : List (List Item × Tree)) : Prop :=
  Tree.depthMembers ms + depth ≤ kMaxDepth ∧ DigitsFit kMaxIntDigits (Tree.intTokensMembers ms)

instance (depth : Nat) (ms : List (List Item × Tree)) : Decidable (FitsMembers depth ms) :=
  inferInstanceAs (Decidable (_ ∧ _))

section Limits

theorem fitsElements_cons {depth : Nat} {t : Tree} {ts : List Tree} :
    FitsElements depth (t :: ts) ↔ Fits (depth + 1) t ∧ FitsElements depth ts := by
  have hm : max t.depth (Tree.depthElements ts) + depth ≤ kMaxDepth ↔
      t.depth + (depth + 1) ≤ kMaxDepth + 1 ∧ Tree.depthElements ts + depth ≤ kMaxDepth := by omega
  simp only [FitsElements, Fits, Tree.depthElements, Tree.intTokensElements, Json.digitsFit_append, hm]
  tauto

theorem fitsMembers_cons {depth : Nat} {is : List Item} {t : Tree}
    {ms : List (List Item × Tree)} :
    FitsMembers depth ((is, t) :: ms) ↔ Fits (depth + 1) t ∧ FitsMembers depth ms := by
  have hm : max t.depth (Tree.depthMembers ms) + depth ≤ kMaxDepth ↔
      t.depth + (depth + 1) ≤ kMaxDepth + 1 ∧ Tree.depthMembers ms + depth ≤ kMaxDepth := by omega
  simp only [FitsMembers, Fits, Tree.depthMembers, Tree.intTokensMembers, Json.digitsFit_append, hm]
  tauto

theorem fitsElements_nil {depth : Nat} (h : depth ≤ kMaxDepth) : FitsElements depth [] := by
  simpa [FitsElements, Tree.depthElements, Tree.intTokensElements, DigitsFit] using h

theorem fitsMembers_nil {depth : Nat} (h : depth ≤ kMaxDepth) : FitsMembers depth [] := by
  simpa [FitsMembers, Tree.depthMembers, Tree.intTokensMembers, DigitsFit] using h

theorem fits_arr {depth : Nat} {ts : List Tree} :
    Fits depth (.arr ts) ↔ FitsElements depth ts := by
  have : 1 + Tree.depthElements ts + depth ≤ kMaxDepth + 1 ↔
      Tree.depthElements ts + depth ≤ kMaxDepth := by omega
  simp only [Fits, FitsElements, Tree.depth, Tree.intTokens, this]

theorem fits_obj {depth : Nat} {ms : List (List Item × Tree)} :
    Fits depth (.obj ms) ↔ FitsMembers depth ms := by
  have : 1 + Tree.depthMembers ms + depth ≤ kMaxDepth + 1 ↔
      Tree.depthMembers ms + depth ≤ kMaxDepth := by omega
  simp only [Fits, FitsMembers, Tree.depth, Tree.intTokens, this]

end Limits

section Scalars

/-- What `parse_value` answers for a tree the reader found. -/
def answer (N : NativeDouble D) (depth : Nat) (p : Tree × Text) : Option (Value D × Bytes) :=
  if Fits depth p.1 then some (ofTree N p.1, encodeAll p.2) else none

theorem fits_scalar {depth : Nat} {t : Tree} (hd : depth ≤ kMaxDepth) (ht : t.depth = 1) :
    Fits depth t ↔ DigitsFit kMaxIntDigits t.intTokens := by
  rw [Fits, ht]
  exact ⟨And.right, fun h => ⟨by omega, h⟩⟩

theorem answer_scalar (N : NativeDouble D) {depth : Nat} {t : Tree} {r : Text}
    (hd : depth ≤ kMaxDepth) (ht : t.depth = 1) (hi : t.intTokens = []) :
    answer N depth (t, r) = some (ofTree N t, encodeAll r) :=
  if_pos ((fits_scalar hd ht).mpr (by simp [hi, DigitsFit]))

/-- The number tokens of the reader, under the digit limit. -/
theorem parseNumber_answer {N : NativeDouble D} (hN : StrtodReads N) {depth : Nat}
    (hd : depth ≤ kMaxDepth) (s : Text) :
    parseNumber N (encodeAll s) = (Json.readNumber s).bind (answer N depth) := by
  rw [parseNumber_encodeAll]
  cases hr : Json.readNumber s with
  | none => rfl
  | some p =>
    obtain ⟨t, r⟩ := p
    rw [Option.bind_some, Option.bind_some]
    obtain ⟨tok, rfl, -, htok⟩ | ⟨tok, rfl, -, htok⟩ := Json.readNumber_sound hr
    · rw [numberValue, numberOf_int N htok, answer]
      by_cases hf : Json.digitCount tok ≤ kMaxIntDigits
      · rw [if_pos hf, if_pos ((fits_scalar hd rfl).mpr (by simpa [Tree.intTokens, DigitsFit]))]
        rfl
      · rw [if_neg hf, if_neg]
        · rfl
        · rw [fits_scalar hd rfl]
          simpa [Tree.intTokens, DigitsFit] using hf
    · rw [answer_scalar N hd rfl rfl, numberValue, numberOf, if_pos rfl]
      simp [hN tok htok, ofTree]

theorem readNumber_eq_none {c : Nat} (h : c ≠ 0x2D) (h' : ¬ IsDigit c) (s : Text) :
    Json.readNumber (c :: s) = none := by
  have hz : c ≠ 0x30 := by
    rintro rfl
    exact h' (by decide)
  simp [Json.readNumber, Json.readMinus, h, Json.readInt, hz, Json.readDigits,
    Json.startsWithDigit, h']

/-- The scalars of the reader: what is neither an array nor an object. -/
def readScalar : Text → Option (Tree × Text)
  | [] => none
  | c :: s =>
    if c = 0x22 then (Json.readItems s).map fun (is, r) => (.str is, r)
    else (Json.readLiteral (c :: s)).or (Json.readNumber (c :: s))

private theorem literal_answer (N : NativeDouble D) {depth : Nat} (hd : depth ≤ kMaxDepth)
    {t : Tree} (ht : t.depth = 1) (hi : t.intTokens = []) {lit : Text}
    (hl : ∀ c ∈ lit, c < 0x80) (s : Text) :
    ((consumeLiteral lit (encodeAll s)).map fun r => (ofTree N t, r)) =
      ((s.dropPrefix? lit).map fun r => (t, r)).bind (answer N depth) := by
  rw [consumeLiteral_encodeAll hl]
  cases s.dropPrefix? lit with
  | none => rfl
  | some r => exact (answer_scalar N hd ht hi).symm

theorem readLiteral_cons (c : Nat) (s : Text) :
    Json.readLiteral (c :: s) =
      if c = 0x6E then ((c :: s).dropPrefix? (ascii "null")).map fun r => (.null, r)
      else if c = 0x74 then ((c :: s).dropPrefix? (ascii "true")).map fun r => (.bool true, r)
      else if c = 0x66 then ((c :: s).dropPrefix? (ascii "false")).map fun r => (.bool false, r)
      else if c = 0x4E then ((c :: s).dropPrefix? (ascii "NaN")).map fun r => (.nan, r)
      else if c = 0x49 then ((c :: s).dropPrefix? (ascii "Infinity")).map fun r => (.inf false, r)
      else if c = 0x2D then ((c :: s).dropPrefix? (ascii "-Infinity")).map fun r => (.inf true, r)
      else none := by
  have other {l : Nat} {ls : Text} (hc : c ≠ l) : (c :: s).dropPrefix? (l :: ls) = none := by
    rw [dropPrefix?_eq, List.length_cons, List.take_succ_cons, if_neg]
    rw [List.cons.injEq]
    exact fun h => hc h.1
  simp only [Json.readLiteral, Json.literals, List.findSome?_cons, List.findSome?_nil]
  split_ifs with h1 h2 h3 h4 h5 h6
  · subst h1
    simp only [other, ne_eq, Nat.reduceEqDiff, not_false_eq_true, Option.map_none]
    split <;> simp_all [ascii]
  · subst h2
    simp only [other, ne_eq, Nat.reduceEqDiff, not_false_eq_true, Option.map_none]
    split <;> simp_all [ascii]
  · subst h3
    simp only [other, ne_eq, Nat.reduceEqDiff, not_false_eq_true, Option.map_none]
    split <;> simp_all [ascii]
  · subst h4
    simp only [other, ne_eq, Nat.reduceEqDiff, not_false_eq_true, Option.map_none]
    split <;> simp_all [ascii]
  · subst h5
    simp only [other, ne_eq, Nat.reduceEqDiff, not_false_eq_true, Option.map_none]
    split <;> simp_all [ascii]
  · subst h6
    simp only [other, ne_eq, Nat.reduceEqDiff, not_false_eq_true, Option.map_none]
    split <;> simp_all [ascii]
  · simp [other, h1, h2, h3, h4, h5, h6]

/-- The cases of the switch that do not recurse. -/
theorem parseScalar_answer {N : NativeDouble D} (hN : StrtodReads N) {depth : Nat}
    (hd : depth ≤ kMaxDepth) {c b : Nat} {s : Text} {bs : Bytes}
    (hb : encodeAll (c :: s) = b :: bs) :
    parseScalar N b (b :: bs) = (readScalar (c :: s)).bind (answer N depth) := by
  have literal {t : Tree} (ht : t.depth = 1) (hi : t.intTokens = []) {lit : Text}
      (hl : ∀ c ∈ lit, c < 0x80) := literal_answer N hd ht hi hl (c :: s)
  have hor {x : Option (Tree × Text)} (h2d : c ≠ 0x2D) (hdig : ¬ IsDigit c) :
      x.or (Json.readNumber (c :: s)) = x := by
    rw [readNumber_eq_none h2d hdig, Option.or_none]
  rw [readScalar, readLiteral_cons]
  obtain ⟨-, he⟩ | ⟨b', bs', hc, hb', he⟩ := encodeAll_cons_cases c s
  · rw [he, List.cons.injEq] at hb
    obtain ⟨rfl, rfl⟩ := hb
    rw [parseScalar, ← he]
    by_cases h22 : c = 0x22
    · subst h22
      rw [if_pos rfl, if_pos rfl, parseString_encodeAll, Json.readString, if_pos rfl]
      cases Json.readItems s with
      | none => rfl
      | some q => exact (answer_scalar N hd (t := .str q.1) rfl rfl).symm
    rw [if_neg h22, if_neg h22]
    by_cases h6E : c = 0x6E
    · subst h6E
      rw [hor (by omega) (by decide)]
      exact literal (t := .null) rfl rfl (by decide)
    by_cases h74 : c = 0x74
    · subst h74
      rw [hor (by omega) (by decide)]
      exact literal (t := .bool true) rfl rfl (by decide)
    by_cases h66 : c = 0x66
    · subst h66
      rw [hor (by omega) (by decide)]
      exact literal (t := .bool false) rfl rfl (by decide)
    by_cases h4E : c = 0x4E
    · subst h4E
      rw [hor (by omega) (by decide)]
      exact literal (t := .nan) rfl rfl (by decide)
    by_cases h49 : c = 0x49
    · subst h49
      rw [hor (by omega) (by decide)]
      exact literal (t := .inf false) rfl rfl (by decide)
    simp only [if_neg h6E, if_neg h74, if_neg h66, if_neg h4E, if_neg h49]
    by_cases h2D : c = 0x2D
    · subst h2D
      -- `-Infinity` is tried before a number
      have hl : ∀ c ∈ ascii "-Infinity", c < 0x80 := by decide
      have h9 : (9 : Nat) = (ascii "-Infinity").length := by decide
      rw [if_pos rfl, if_pos rfl, dropPrefix?_eq, h9]
      by_cases ht : (0x2D :: s).take (ascii "-Infinity").length = ascii "-Infinity"
      · rw [if_pos ((take_encodeAll hl _).mpr ht), if_pos ht, drop_encodeAll hl ht]
        exact (answer_scalar N hd (t := .inf true) rfl rfl).symm
      · rw [if_neg fun h => ht ((take_encodeAll hl _).mp h), if_neg ht]
        exact parseNumber_answer hN hd _
    · rw [if_neg h2D, if_neg h2D, Option.none_or]
      exact parseNumber_answer hN hd _
  · rw [he, List.cons.injEq] at hb
    obtain ⟨rfl, rfl⟩ := hb
    rw [parseScalar, ← he]
    simp only [show ∀ n < 0x80, (b' = n) = False from fun n hn => by simp; omega,
      show ∀ n < 0x80, (c = n) = False from fun n hn => by simp; omega, Nat.reduceLT, if_false,
      Option.none_or]
    exact parseNumber_answer hN hd _

end Scalars

section Recursion

/-- The five functions of the parser on the encoding of what the reader reads. -/
private structure SimulatesAt (N : NativeDouble D) (n : Nat) : Prop where
  value : ∀ depth s, (parseValue N n depth (encodeAll s)).toOption =
    (Json.readValue n s).bind (answer N depth)
  array : ∀ depth s, depth ≤ kMaxDepth → (parseArray N n depth (0x5B :: encodeAll s)).toOption =
    (Json.readArray n s).bind (answer N depth)
  object : ∀ depth s, depth ≤ kMaxDepth → (parseObject N n depth (0x7B :: encodeAll s)).toOption =
    (Json.readObject n s).bind (answer N depth)
  elements : ∀ depth acc s, depth ≤ kMaxDepth →
    (parseElements N n depth acc (encodeAll s)).toOption =
      (Json.readElements n s).bind fun p =>
        if FitsElements depth p.1 then some (.array (acc ++ ofElements N p.1), encodeAll p.2)
        else none
  members : ∀ depth acc s, depth ≤ kMaxDepth →
    (parseMembers N n depth acc (encodeAll s)).toOption =
      (Json.readMembers n s).bind fun p =>
        if FitsMembers depth p.1 then
          some (.object ((ofMembers N p.1).foldl (fun o e => Assoc.upsert e.1 e.2 o) acc),
            encodeAll p.2)
        else none

theorem eq_ok_of_toOption {ε α : Type} {x : Except ε α} {a : α} (h : x.toOption = some a) :
    x = .ok a := by
  cases x with
  | error e => cases h
  | ok b =>
    cases h
    rfl

theorem eq_error_of_toOption {ε α : Type} {x : Except ε α} (h : x.toOption = none) :
    ∃ e, x = .error e := by
  cases x with
  | error e => exact ⟨e, rfl⟩
  | ok b => cases h

theorem toOption_orNullopt {α : Type} (o : Option (α × Bytes)) : (orNullopt o).toOption = o := by
  cases o <;> rfl

private theorem value_step {N : NativeDouble D} (hN : StrtodReads N) {n : Nat}
    (ih : SimulatesAt N n) (depth : Nat) (s : Text) :
    (parseValue N (n + 1) depth (encodeAll s)).toOption =
      (Json.readValue (n + 1) s).bind (answer N depth) := by
  rw [parseValue, Json.readValue, skipWhitespace_encodeAll]
  by_cases hd : depth ≤ kMaxDepth
  · rw [if_neg (by omega)]
    cases hs : skipBlank s with
    | nil => rfl
    | cons c s₁ =>
      dsimp only
      have hscalar : (readScalar (c :: s₁)) =
          if c = 0x22 then (Json.readItems s₁).map fun (is, r) => (.str is, r)
          else (Json.readLiteral (c :: s₁)).or (Json.readNumber (c :: s₁)) := rfl
      rw [← hscalar]
      obtain ⟨-, he⟩ | ⟨b, bs, hc, hb, he⟩ := encodeAll_cons_cases c s₁
      · rw [he]
        dsimp only
        by_cases h7B : c = 0x7B
        · rw [if_pos h7B, if_pos h7B, h7B]
          exact ih.object depth s₁ hd
        by_cases h5B : c = 0x5B
        · rw [if_neg h7B, if_neg h7B, if_pos h5B, if_pos h5B, h5B]
          exact ih.array depth s₁ hd
        rw [if_neg h7B, if_neg h7B, if_neg h5B, if_neg h5B, toOption_orNullopt]
        exact parseScalar_answer hN hd he
      · rw [he]
        dsimp only
        rw [if_neg (by omega), if_neg (by omega), if_neg (by omega), if_neg (by omega),
          toOption_orNullopt]
        exact parseScalar_answer hN hd he
  · rw [if_pos (by omega)]
    have hnone : answer N depth = fun _ => none := by
      funext p
      have hpos := p.1.depth_pos
      apply if_neg
      intro h
      have hle := h.1
      omega
    rw [hnone, Option.bind_fun_none]
    rfl

private theorem array_step {N : NativeDouble D} {n : Nat} (ih : SimulatesAt N n) {depth : Nat}
    (hd : depth ≤ kMaxDepth) (s : Text) :
    (parseArray N (n + 1) depth (0x5B :: encodeAll s)).toOption =
      (Json.readArray (n + 1) s).bind (answer N depth) := by
  have helems := ih.elements depth [] (skipBlank s) hd
  rw [parseArray, Json.readArray, consume_self]
  dsimp only
  rw [skipWhitespace_encodeAll, consume_encodeAll (by omega)]
  cases hs : skipBlank s with
  | nil =>
    rw [hs] at helems
    cases n with
    | zero => exact helems
    | succ n => exact helems.trans (by simp [Json.readElements, Json.readValue_nil])
  | cons c s₁ =>
    rw [hs] at helems
    by_cases hc : c = 0x5D
    · subst hc
      rw [consume_self, Option.map_some]
      dsimp only
      rw [if_pos rfl]
      exact (answer_scalar N hd (t := .arr []) rfl rfl).symm
    · rw [consume_ne hc, Option.map_none]
      dsimp only
      rw [if_neg hc]
      refine helems.trans ?_
      cases Json.readElements n (c :: s₁) with
      | none => rfl
      | some p => simp only [Option.bind_some, Option.map_some, answer, fits_arr, ofTree, List.nil_append]

private theorem object_step {N : NativeDouble D} {n : Nat} (ih : SimulatesAt N n) {depth : Nat}
    (hd : depth ≤ kMaxDepth) (s : Text) :
    (parseObject N (n + 1) depth (0x7B :: encodeAll s)).toOption =
      (Json.readObject (n + 1) s).bind (answer N depth) := by
  have hmembers := ih.members depth [] (skipBlank s) hd
  rw [parseObject, Json.readObject, consume_self]
  dsimp only
  rw [skipWhitespace_encodeAll, consume_encodeAll (by omega)]
  cases hs : skipBlank s with
  | nil =>
    rw [hs] at hmembers
    cases n with
    | zero => exact hmembers
    | succ n => exact hmembers.trans (by simp [Json.readMembers, skipBlank, Json.readString])
  | cons c s₁ =>
    rw [hs] at hmembers
    by_cases hc : c = 0x7D
    · subst hc
      rw [consume_self, Option.map_some]
      dsimp only
      rw [if_pos rfl]
      exact (answer_scalar N hd (t := .obj []) rfl rfl).symm
    · rw [consume_ne hc, Option.map_none]
      dsimp only
      rw [if_neg hc]
      refine hmembers.trans ?_
      cases Json.readMembers n (c :: s₁) with
      | none => rfl
      | some p =>
        simp only [Option.bind_some, Option.map_some, answer, fits_obj, ofTree, Assoc.ofPairs]

private theorem elements_step {N : NativeDouble D} {n : Nat} (ih : SimulatesAt N n) {depth : Nat}
    (hd : depth ≤ kMaxDepth) (acc : List (Value D)) (s : Text) :
    (parseElements N (n + 1) depth acc (encodeAll s)).toOption =
      (Json.readElements (n + 1) s).bind fun p =>
        if FitsElements depth p.1 then some (.array (acc ++ ofElements N p.1), encodeAll p.2)
        else none := by
  have hvalue := ih.value (depth + 1) s
  rw [parseElements, Json.readElements]
  cases hr : Json.readValue n s with
  | none =>
    rw [hr] at hvalue
    obtain ⟨e, he⟩ := eq_error_of_toOption hvalue
    rw [he]
    rfl
  | some p =>
    obtain ⟨t, s₁⟩ := p
    rw [hr, Option.bind_some, answer] at hvalue
    dsimp only at hvalue ⊢
    by_cases hf : Fits (depth + 1) t
    · rw [if_pos hf] at hvalue
      rw [eq_ok_of_toOption hvalue]
      dsimp only
      rw [skipWhitespace_encodeAll, consume_encodeAll (by omega), consume_encodeAll (by omega)]
      cases skipBlank s₁ with
      | nil => rfl
      | cons c s₂ =>
        by_cases hcomma : c = 0x2C
        · subst hcomma
          rw [consume_self, Option.map_some]
          dsimp only
          rw [if_pos rfl]
          refine (ih.elements depth _ s₂ hd).trans ?_
          cases Json.readElements n s₂ with
          | none => rfl
          | some p =>
            simp only [Option.bind_some, Option.map_some, fitsElements_cons, hf, true_and, ofElements,
              List.append_assoc, List.singleton_append]
        · rw [consume_ne hcomma, Option.map_none]
          dsimp only
          rw [if_neg hcomma]
          by_cases hclose : c = 0x5D
          · subst hclose
            rw [consume_self, Option.map_some, if_pos rfl, Option.bind_some, if_pos]
            · rfl
            · exact fitsElements_cons.mpr ⟨hf, fitsElements_nil hd⟩
          · rw [consume_ne hclose, Option.map_none, if_neg hclose]
            rfl
    · -- the value is past a limit, so the whole array is
      rw [if_neg hf] at hvalue
      obtain ⟨e, he⟩ := eq_error_of_toOption hvalue
      rw [he]
      have hno (ts : List Tree) : ¬ FitsElements depth (t :: ts) :=
        fun h => hf (fitsElements_cons.mp h).1
      dsimp only
      cases skipBlank s₁ with
      | nil => rfl
      | cons c s₂ =>
        dsimp only
        split
        · cases Json.readElements n s₂ with
          | none => rfl
          | some p => exact (if_neg (hno p.1)).symm
        · split
          · exact (if_neg (hno [])).symm
          · rfl

private theorem members_step {N : NativeDouble D} {n : Nat} (ih : SimulatesAt N n) {depth : Nat}
    (hd : depth ≤ kMaxDepth) (acc : List (Bytes × Value D)) (s : Text) :
    (parseMembers N (n + 1) depth acc (encodeAll s)).toOption =
      (Json.readMembers (n + 1) s).bind fun p =>
        if FitsMembers depth p.1 then
          some (.object ((ofMembers N p.1).foldl (fun o e => Assoc.upsert e.1 e.2 o) acc),
            encodeAll p.2)
        else none := by
  rw [parseMembers, Json.readMembers, skipWhitespace_encodeAll, parseString_encodeAll]
  cases Json.readString (skipBlank s) with
  | none => rfl
  | some p =>
    obtain ⟨is, s₁⟩ := p
    rw [Option.map_some]
    dsimp only
    rw [skipWhitespace_encodeAll, consume_encodeAll (by omega)]
    cases skipBlank s₁ with
    | nil => rfl
    | cons c s₂ =>
      by_cases hcolon : c = 0x3A
      · subst hcolon
        have hvalue := ih.value (depth + 1) s₂
        rw [consume_self, Option.map_some]
        dsimp only
        rw [if_pos rfl]
        cases hr : Json.readValue n s₂ with
        | none =>
          rw [hr] at hvalue
          obtain ⟨e, he⟩ := eq_error_of_toOption hvalue
          rw [he]
          rfl
        | some p =>
          obtain ⟨t, s₃⟩ := p
          rw [hr, Option.bind_some, answer] at hvalue
          dsimp only at hvalue ⊢
          by_cases hf : Fits (depth + 1) t
          · rw [if_pos hf] at hvalue
            rw [eq_ok_of_toOption hvalue]
            dsimp only
            rw [skipWhitespace_encodeAll, consume_encodeAll (by omega),
              consume_encodeAll (by omega)]
            cases skipBlank s₃ with
            | nil => rfl
            | cons c s₄ =>
              by_cases hcomma : c = 0x2C
              · subst hcomma
                rw [consume_self, Option.map_some]
                dsimp only
                rw [if_pos rfl]
                refine (ih.members depth _ s₄ hd).trans ?_
                cases Json.readMembers n s₄ with
                | none => rfl
                | some p =>
                  simp only [Option.bind_some, Option.map_some, fitsMembers_cons, hf, true_and,
                    ofMembers, List.foldl_cons]
              · rw [consume_ne hcomma, Option.map_none]
                dsimp only
                rw [if_neg hcomma]
                by_cases hclose : c = 0x7D
                · subst hclose
                  rw [consume_self, Option.map_some, if_pos rfl, Option.bind_some, if_pos]
                  · rfl
                  · exact fitsMembers_cons.mpr ⟨hf, fitsMembers_nil hd⟩
                · rw [consume_ne hclose, Option.map_none, if_neg hclose]
                  rfl
          · rw [if_neg hf] at hvalue
            obtain ⟨e, he⟩ := eq_error_of_toOption hvalue
            rw [he]
            have hno (ms : List (List Item × Tree)) : ¬ FitsMembers depth ((is, t) :: ms) :=
              fun h => hf (fitsMembers_cons.mp h).1
            dsimp only
            cases skipBlank s₃ with
            | nil => rfl
            | cons c s₄ =>
              dsimp only
              split
              · cases Json.readMembers n s₄ with
                | none => rfl
                | some p => exact (if_neg (hno p.1)).symm
              · split
                · exact (if_neg (hno [])).symm
                · rfl
      · rw [consume_ne hcolon, Option.map_none]
        dsimp only
        rw [if_neg hcolon]
        rfl

private theorem simulatesAt {N : NativeDouble D} (hN : StrtodReads N) (n : Nat) :
    SimulatesAt N n := by
  induction n with
  | zero =>
    constructor <;> intros
    · rw [parseValue, Json.readValue]
      rfl
    · rw [parseArray, Json.readArray]
      rfl
    · rw [parseObject, Json.readObject]
      rfl
    · rw [parseElements, Json.readElements]
      rfl
    · rw [parseMembers, Json.readMembers]
      rfl
  | succ n ih =>
    exact ⟨value_step hN ih, fun _ s hd => array_step ih hd s, fun _ s hd => object_step ih hd s,
      fun _ acc s hd => elements_step ih hd acc s, fun _ acc s hd => members_step ih hd acc s⟩

/-- One value on encoded text: the reader's tree, cut at the limits. -/
theorem parseValue_encodeAll {N : NativeDouble D} (hN : StrtodReads N) (n depth : Nat) (s : Text) :
    (parseValue N n depth (encodeAll s)).toOption =
      (Json.readValue n s).bind (answer N depth) :=
  (simulatesAt hN n).value depth s

end Recursion

/-- `dut::parse` answers the value of the tree of the repaired text, within the limits. -/
theorem parse_eq_some_iff {N : NativeDouble D} (hN : StrtodReads N) (text : Bytes) (v : Value D) :
    parse N text = some v ↔
      ∃ t, Json.Document t (Utf8.decodeReplace text) ∧ Fits 1 t ∧ v = ofTree N t := by
  have hlen := Utf8.length_le_encodeAll (Utf8.decodeReplace text)
  have hfuel : 3 * (Utf8.decodeReplace text).length ≤
      fuelFor (encodeAll (Utf8.decodeReplace text)) := by
    unfold fuelFor
    omega
  have hsim := parseValue_encodeAll hN (fuelFor (encodeAll (Utf8.decodeReplace text))) 1
    (skipBlank (Utf8.decodeReplace text))
  rw [Json.readValue_skipBlank, ← skipWhitespace_encodeAll] at hsim
  rw [parse, parseDocument, sanitizeUtf8_eq]
  constructor
  · intro h
    cases hp : parseValue N (fuelFor (encodeAll (Utf8.decodeReplace text))) 1
        (skipWhitespace (encodeAll (Utf8.decodeReplace text))) with
    | error e =>
      rw [hp] at h
      cases h
    | ok p =>
      rw [hp] at h hsim
      obtain ⟨v', r'⟩ := p
      obtain ⟨⟨t, r⟩, hr, ha⟩ := Option.bind_eq_some_iff.mp hsim.symm
      unfold answer at ha
      split at ha
      · next hf =>
        cases ha
        dsimp only at h hf
        rw [skipWhitespace_encodeAll] at h
        split at h
        · next hnil =>
          cases h
          have hnil : skipBlank r = [] := by
            cases hs : skipBlank r with
            | nil => rfl
            | cons c r =>
              rw [hs, Utf8.encodeAll_cons, List.append_eq_nil_iff] at hnil
              exact absurd hnil.1 (Utf8.encode_ne_nil c)
          exact ⟨t, (Json.readValue_document_iff hfuel).mp ⟨r, hr, hnil⟩, hf, rfl⟩
        · cases h
      · cases ha
  · rintro ⟨t, hdoc, hf, rfl⟩
    obtain ⟨r, hr, hnil⟩ := (Json.readValue_document_iff hfuel).mpr hdoc
    rw [hr, Option.bind_some, answer, if_pos hf] at hsim
    rw [eq_ok_of_toOption hsim]
    dsimp only
    rw [skipWhitespace_encodeAll, hnil]
    rfl

end Cpp
