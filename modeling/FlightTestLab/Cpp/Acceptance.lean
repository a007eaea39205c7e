import FlightTestLab.Library.Json.Encoded
import FlightTestLab.Cpp.Simulation

/-!
# The texts the native parser accepts

Each function of `Parser` that answers leaves less than it was given, so the levels the
model counts never run out: the recursion of the code ends on every text. The texts it
accepts are the documents of the grammar, read over the sanitised bytes, within the
nesting and digit limits.

## Main definitions

- `Cpp.Consumes`: what is left after each function that answers

## Main results

- `Cpp.parse_accepts`: acceptance against the grammar, and termination
-/

namespace Cpp

open Json (Text Tree Document DigitsFit ascii)

variable {D : Type}

section Scanners

theorem skipWhitespace_length (s : Bytes) : (skipWhitespace s).length ≤ s.length := by
  induction s with
  | nil => exact Nat.le_refl _
  | cons c s ih =>
    rw [skipWhitespace]
    split
    · exact Nat.le_succ_of_le ih
    · exact Nat.le_refl _

theorem consume_length {e : Nat} {s r : Bytes} (h : consume e s = some r) :
    r.length + 1 = s.length := by
  cases s with
  | nil => cases h
  | cons c s =>
    rw [consume] at h
    split at h
    · cases h
      rfl
    · cases h

theorem consumeLiteral_length {literal s r : Bytes} (hne : literal ≠ [])
    (h : consumeLiteral literal s = some r) : r.length < s.length := by
  rw [consumeLiteral] at h
  split at h
  · next ht =>
    rw [Option.some.injEq] at h
    have hlen := congrArg List.length ht
    have := List.length_pos_of_ne_nil hne
    rw [List.length_take] at hlen
    rw [← h, List.length_drop]
    omega
  · cases h

theorem parseStringLoop_length {out s : Bytes} {text r : Bytes}
    (h : parseStringLoop out s = some (text, r)) : r.length < s.length := by
  -- every round reads a byte, and the closing quote is read last
  induction hn : s.length using Nat.strongRecOn generalizing out s with
  | ind n ih =>
    have shorter {out' s' : Bytes} (h' : parseStringLoop out' s' = some (text, r))
        (hlt : s'.length < n) : r.length < n := by
      have := ih s'.length hlt h' rfl
      omega
    cases s with
    | nil =>
      rw [parseStringLoop.eq_def] at h
      cases h
    | cons c s =>
      rw [List.length_cons] at hn
      by_cases hq : c = 0x22
      · subst hq
        rw [parseStringLoop.eq_def] at h
        cases h
        omega
      by_cases hb : c = 0x5C
      · subst hb
        cases s with
        | nil =>
          rw [parseStringLoop.eq_def] at h
          cases h
        | cons e s =>
          rw [List.length_cons] at hn
          by_cases he : e = 0x75
          · subst he
            rw [parseStringLoop_unicode, Option.bind_eq_some_iff] at h
            obtain ⟨⟨u, r'⟩, hhex, h⟩ := h
            obtain ⟨c₁, c₂, c₃, c₄, rfl, -⟩ := hexHead_some hhex
            simp only [List.length_cons] at hn
            dsimp only at h
            split at h
            · exact shorter h (by omega)
            · exact shorter h (by rw [List.length_drop]; omega)
          · rw [parseStringLoop_escape out s he, Option.bind_eq_some_iff] at h
            obtain ⟨c', -, h⟩ := h
            exact shorter h (by omega)
      · rw [parseStringLoop.eq_def] at h
        simp only [if_neg hq, if_pos hb] at h
        split at h
        · cases h
        · exact shorter h (by omega)

theorem parseString_length {s text r : Bytes} (h : parseString s = some (text, r)) :
    r.length < s.length := by
  obtain ⟨s₁, hs₁, h⟩ := Option.bind_eq_some_iff.mp h
  have := consume_length hs₁
  have := parseStringLoop_length h
  omega

theorem consumeDigits_length (s : Bytes) : (consumeDigits s).2.length ≤ s.length :=
  (List.dropWhile_suffix _).length_le

theorem consumeDigits_moved {s : Bytes} (h : (consumeDigits s).1 = true) :
    (consumeDigits s).2.length < s.length := of_decide_eq_true h

theorem scanInteger_length {s r : Bytes} (h : scanInteger s = some r) : r.length < s.length := by
  cases s with
  | nil => cases h
  | cons c s =>
    rw [scanInteger] at h
    split at h
    · split at h
      · cases h
      · cases h
        exact Nat.lt_succ_self _
    · dsimp only at h
      split at h
      · next hm =>
        cases h
        exact consumeDigits_moved hm
      · cases h

theorem scanFraction_length {s r : Bytes} {b : Bool} (h : scanFraction s = some (r, b)) :
    r.length ≤ s.length := by
  have hdigits := consumeDigits_length s.tail
  rw [List.length_tail] at hdigits
  rw [scanFraction] at h
  split at h
  · rw [Option.ite_none_right_eq_some, Option.some.injEq, Prod.mk.injEq] at h
    rw [← h.2.1]
    omega
  · cases h
    exact Nat.le_refl _

theorem scanExponent_length {s r : Bytes} {b : Bool} (h : scanExponent s = some (r, b)) :
    r.length ≤ s.length := by
  have hsign : (if headIs (fun c => c == 0x2B || c == 0x2D) s.tail then s.tail.tail
      else s.tail).length ≤ s.length := by
    split
    · rw [List.length_tail, List.length_tail]
      omega
    · rw [List.length_tail]
      omega
  have hdigits := consumeDigits_length
    (if headIs (fun c => c == 0x2B || c == 0x2D) s.tail then s.tail.tail else s.tail)
  rw [scanExponent] at h
  split at h
  · rw [Option.ite_none_right_eq_some, Option.some.injEq, Prod.mk.injEq] at h
    rw [← h.2.1]
    omega
  · cases h
    exact Nat.le_refl _

theorem parseNumber_length {N : NativeDouble D} {s r : Bytes} {v : Value D}
    (h : parseNumber N s = some (v, r)) : r.length < s.length := by
  rw [parseNumber] at h
  split at h
  · cases h
  · next s₁ hs₁ =>
    split at h
    · cases h
    · next s₂ b hs₂ =>
      split at h
      · cases h
      · next r' b' hs₃ =>
        obtain ⟨v', -, he⟩ := Option.map_eq_some_iff.mp h
        cases he
        have hint := scanInteger_length hs₁
        have hfrac := scanFraction_length hs₂
        have hexp := scanExponent_length hs₃
        have hsign : (if headIs (· == 0x2D) s then s.tail else s).length ≤ s.length := by
          split
          · rw [List.length_tail]
            omega
          · exact Nat.le_refl _
        omega

theorem parseScalar_length {N : NativeDouble D} {c : Nat} {s r : Bytes} {v : Value D}
    (h : parseScalar N c s = some (v, r)) : r.length < s.length := by
  have literal {α : Type} {lit : Bytes} {w : α} {p : α × Bytes} (hne : lit ≠ [])
      (h' : (consumeLiteral lit s).map (fun r => (w, r)) = some p) : p.2.length < s.length := by
    obtain ⟨r', hr', rfl⟩ := Option.map_eq_some_iff.mp h'
    exact consumeLiteral_length hne hr'
  unfold parseScalar at h
  split_ifs at h with _ _ _ _ _ _ _ hinf
  · obtain ⟨p, hp, he⟩ := Option.map_eq_some_iff.mp h
    cases he
    exact parseString_length hp
  · exact literal (by decide) h
  · exact literal (by decide) h
  · exact literal (by decide) h
  · exact literal (by decide) h
  · exact literal (by decide) h
  · cases h
    have hlen := congrArg List.length hinf
    rw [List.length_take] at hlen
    have hnine : (ascii "-Infinity").length = 9 := by decide
    rw [List.length_drop]
    omega
  · exact parseNumber_length h
  · exact parseNumber_length h

end Scanners

section Recursion

/-- What is left after each function that answers, with this many levels. -/
structure ConsumesAt (N : NativeDouble D) (n : Nat) : Prop where
  value : ∀ depth s v r, parseValue N n depth s = .ok (v, r) → r.length < s.length
  object : ∀ depth s v r, parseObject N n depth s = .ok (v, r) → r.length < s.length
  members : ∀ depth object s v r, parseMembers N n depth object s = .ok (v, r) → r.length < s.length
  array : ∀ depth s v r, parseArray N n depth s = .ok (v, r) → r.length < s.length
  elements : ∀ depth array s v r, parseElements N n depth array s = .ok (v, r) → r.length < s.length

variable {N : NativeDouble D}

private theorem value_consumes {n : Nat} (ih : ConsumesAt N n) (depth : Nat) (s : Bytes)
    (v : Value D) (r : Bytes) (h : parseValue N (n + 1) depth s = .ok (v, r)) :
    r.length < s.length := by
  have hskip := skipWhitespace_length s
  rw [parseValue] at h
  split at h
  · cases h
  · split at h
    · cases h
    · next c s₁ hs =>
      rw [hs] at hskip
      refine Nat.lt_of_lt_of_le ?_ hskip
      split_ifs at h
      · exact ih.object _ _ _ _ h
      · exact ih.array _ _ _ _ h
      · cases hp : parseScalar N c (c :: s₁) with
        | none =>
          rw [hp] at h
          cases h
        | some p =>
          rw [hp] at h
          cases h
          exact parseScalar_length hp

private theorem object_consumes {n : Nat} (ih : ConsumesAt N n) (depth : Nat) (s : Bytes)
    (v : Value D) (r : Bytes) (h : parseObject N (n + 1) depth s = .ok (v, r)) :
    r.length < s.length := by
  rw [parseObject] at h
  split at h
  · cases h
  · next s₁ hs₁ =>
    have := consume_length hs₁
    have := skipWhitespace_length s₁
    dsimp only at h
    split at h
    · next r' hr' =>
      cases h
      have := consume_length hr'
      omega
    · have := ih.members _ _ _ _ _ h
      omega

private theorem members_consumes {n : Nat} (ih : ConsumesAt N n) (depth : Nat)
    (object : List (Bytes × Value D)) (s : Bytes) (v : Value D) (r : Bytes)
    (h : parseMembers N (n + 1) depth object s = .ok (v, r)) : r.length < s.length := by
  have := skipWhitespace_length s
  rw [parseMembers] at h
  split at h
  · cases h
  · next key s₁ hkey =>
    have := parseString_length hkey
    have := skipWhitespace_length s₁
    split at h
    · cases h
    · next s₂ hcolon =>
      have := consume_length hcolon
      split at h
      · cases h
      · next value s₃ hvalue =>
        have := ih.value _ _ _ _ hvalue
        have := skipWhitespace_length s₃
        dsimp only at h
        split at h
        · next s₅ hcomma =>
          have := consume_length hcomma
          have := ih.members _ _ _ _ _ h
          omega
        · split at h
          · next r' hclose =>
            cases h
            have := consume_length hclose
            omega
          · cases h

private theorem array_consumes {n : Nat} (ih : ConsumesAt N n) (depth : Nat) (s : Bytes)
    (v : Value D) (r : Bytes) (h : parseArray N (n + 1) depth s = .ok (v, r)) :
    r.length < s.length := by
  rw [parseArray] at h
  split at h
  · cases h
  · next s₁ hs₁ =>
    have := consume_length hs₁
    have := skipWhitespace_length s₁
    dsimp only at h
    split at h
    · next r' hr' =>
      cases h
      have := consume_length hr'
      omega
    · have := ih.elements _ _ _ _ _ h
      omega

private theorem elements_consumes {n : Nat} (ih : ConsumesAt N n) (depth : Nat)
    (array : List (Value D)) (s : Bytes) (v : Value D) (r : Bytes)
    (h : parseElements N (n + 1) depth array s = .ok (v, r)) : r.length < s.length := by
  rw [parseElements] at h
  split at h
  · cases h
  · next value s₁ hvalue =>
    have := ih.value _ _ _ _ hvalue
    have := skipWhitespace_length s₁
    dsimp only at h
    split at h
    · next s₃ hcomma =>
      have := consume_length hcomma
      have := ih.elements _ _ _ _ _ h
      omega
    · split at h
      · next r' hclose =>
        cases h
        have := consume_length hclose
        omega
      · cases h

theorem consumesAt (N : NativeDouble D) (n : Nat) : ConsumesAt N n := by
  induction n with
  | zero =>
    constructor
    · intro depth s v r h
      rw [parseValue] at h
      cases h
    · intro depth s v r h
      rw [parseObject] at h
      cases h
    · intro depth object s v r h
      rw [parseMembers] at h
      cases h
    · intro depth s v r h
      rw [parseArray] at h
      cases h
    · intro depth array s v r h
      rw [parseElements] at h
      cases h
  | succ n ih =>
    exact ⟨value_consumes ih, object_consumes ih, members_consumes ih, array_consumes ih,
      elements_consumes ih⟩

/-- The levels that suffice for a text: three for each byte, and one or two on top. -/
structure EnoughAt (N : NativeDouble D) (n : Nat) : Prop where
  value : ∀ depth s, 3 * s.length + 1 ≤ n → parseValue N n depth s ≠ .error .fuel
  object : ∀ depth s, s ≠ [] → 3 * s.length ≤ n → parseObject N n depth s ≠ .error .fuel
  members : ∀ depth object s, 3 * s.length + 2 ≤ n →
    parseMembers N n depth object s ≠ .error .fuel
  array : ∀ depth s, s ≠ [] → 3 * s.length ≤ n → parseArray N n depth s ≠ .error .fuel
  elements : ∀ depth array s, 3 * s.length + 2 ≤ n →
    parseElements N n depth array s ≠ .error .fuel

private theorem nullopt_ne {α : Type} : (Except.error Stop.nullopt : Parse α) ≠ .error .fuel := by
  simp

private theorem value_enough {n : Nat} (ih : EnoughAt N n) (depth : Nat) (s : Bytes)
    (hn : 3 * s.length + 1 ≤ n + 1) : parseValue N (n + 1) depth s ≠ .error .fuel := by
  have hskip := skipWhitespace_length s
  rw [parseValue]
  split
  · exact nullopt_ne
  · split
    · exact nullopt_ne
    · next c s₁ hs =>
      rw [hs] at hskip
      split_ifs
      · exact ih.object _ _ (List.cons_ne_nil _ _) (by omega)
      · exact ih.array _ _ (List.cons_ne_nil _ _) (by omega)
      · cases parseScalar N c (c :: s₁) with
        | none => exact nullopt_ne
        | some p => simp [orNullopt]

private theorem object_enough {n : Nat} (ih : EnoughAt N n) (depth : Nat) (s : Bytes)
    (hn : 3 * s.length ≤ n + 1) : parseObject N (n + 1) depth s ≠ .error .fuel := by
  rw [parseObject]
  split
  · exact nullopt_ne
  · next s₁ hs₁ =>
    have := consume_length hs₁
    have := skipWhitespace_length s₁
    dsimp only
    split
    · simp
    · exact ih.members _ _ _ (by omega)

private theorem members_enough {n : Nat} (ih : EnoughAt N n) (depth : Nat)
    (object : List (Bytes × Value D)) (s : Bytes) (hn : 3 * s.length + 2 ≤ n + 1) :
    parseMembers N (n + 1) depth object s ≠ .error .fuel := by
  have := skipWhitespace_length s
  rw [parseMembers]
  split
  · exact nullopt_ne
  · next key s₁ hkey =>
    have := parseString_length hkey
    have := skipWhitespace_length s₁
    split
    · exact nullopt_ne
    · next s₂ hcolon =>
      have := consume_length hcolon
      split
      · next e he =>
        have hvalue := ih.value (depth + 1) s₂ (by omega)
        rw [he] at hvalue
        simpa using hvalue
      · next value s₃ hvalue =>
        have := (consumesAt N n).value _ _ _ _ hvalue
        have := skipWhitespace_length s₃
        dsimp only
        split
        · next s₅ hcomma =>
          have := consume_length hcomma
          exact ih.members _ _ _ (by omega)
        · split
          · simp
          · exact nullopt_ne

private theorem array_enough {n : Nat} (ih : EnoughAt N n) (depth : Nat) (s : Bytes)
    (hn : 3 * s.length ≤ n + 1) : parseArray N (n + 1) depth s ≠ .error .fuel := by
  rw [parseArray]
  split
  · exact nullopt_ne
  · next s₁ hs₁ =>
    have := consume_length hs₁
    have := skipWhitespace_length s₁
    dsimp only
    split
    · simp
    · exact ih.elements _ _ _ (by omega)

private theorem elements_enough {n : Nat} (ih : EnoughAt N n) (depth : Nat)
    (array : List (Value D)) (s : Bytes) (hn : 3 * s.length + 2 ≤ n + 1) :
    parseElements N (n + 1) depth array s ≠ .error .fuel := by
  rw [parseElements]
  split
  · next e he =>
    have hvalue := ih.value (depth + 1) s (by omega)
    rw [he] at hvalue
    simpa using hvalue
  · next value s₁ hvalue =>
    have := (consumesAt N n).value _ _ _ _ hvalue
    have := skipWhitespace_length s₁
    dsimp only
    split
    · next s₃ hcomma =>
      have := consume_length hcomma
      exact ih.elements _ _ _ (by omega)
    · split
      · simp
      · exact nullopt_ne

theorem enoughAt (N : NativeDouble D) (n : Nat) : EnoughAt N n := by
  induction n with
  | zero =>
    constructor
    · intro depth s hn
      omega
    · intro depth s hs hn
      have := List.length_pos_of_ne_nil hs
      omega
    · intro depth object s hn
      omega
    · intro depth s hs hn
      have := List.length_pos_of_ne_nil hs
      omega
    · intro depth array s hn
      omega
  | succ n ih =>
    exact ⟨value_enough ih, fun depth s _ => object_enough ih depth s, members_enough ih,
      fun depth s _ => array_enough ih depth s, elements_enough ih⟩

/-- The recursion of the parser ends before the levels do. -/
theorem parseDocument_ends (N : NativeDouble D) (s : Bytes) :
    parseDocument N s ≠ .error .fuel := by
  have hskip := skipWhitespace_length s
  rw [parseDocument]
  split
  · next e he =>
    have hvalue := (enoughAt N (fuelFor s)).value 1 (skipWhitespace s) (by
      unfold fuelFor
      omega)
    rw [he] at hvalue
    simpa using hvalue
  · split <;> simp

end Recursion

/-- What is left after each function of the parser that answers. -/
structure Consumes (N : NativeDouble D) : Prop where
  string : ∀ s text r, parseString s = some (text, r) → r.length < s.length
  number : ∀ s v r, parseNumber N s = some (v, r) → r.length < s.length
  scalar : ∀ c s v r, parseScalar N c s = some (v, r) → r.length < s.length
  recursive : ∀ n, ConsumesAt N n

theorem consumes (N : NativeDouble D) : Consumes N where
  string _ _ _ := parseString_length
  number _ _ _ := parseNumber_length
  scalar _ _ _ _ := parseScalar_length
  recursive := consumesAt N

/-- `dut::parse` returns a value exactly on the documents of the grammar, over the sanitised
bytes, that keep to both limits; every function of the parser consumes or fails, and its
recursion ends on every text. -/
theorem parse_accepts {N : NativeDouble D} (hN : StrtodReads N) (text : Bytes) :
    ((parse N text).isSome ↔ ∃ t, Document t (sanitizeUtf8 text) ∧ t.depth ≤ 100 ∧
      DigitsFit 4300 t.intTokens) ∧
      Consumes N ∧ ∀ s, parseDocument N s ≠ .error .fuel := by
  refine ⟨?_, consumes N, parseDocument_ends N⟩
  rw [sanitizeUtf8_eq]
  constructor
  · intro h
    obtain ⟨v, hv⟩ := Option.isSome_iff_exists.mp h
    obtain ⟨t, hdoc, ⟨hdepth, hdigits⟩, -⟩ := (parse_eq_some_iff hN text v).mp hv
    refine ⟨t.bytes, Json.document_encodeAll_iff.mpr ⟨t, hdoc, rfl⟩, ?_, ?_⟩
    · rw [Tree.depth_bytes]
      exact Nat.le_of_add_le_add_right hdepth
    · rw [Tree.intTokens_bytes]
      exact hdigits
  · rintro ⟨u, hbytes, hdepth, hdigits⟩
    obtain ⟨t, hdoc, rfl⟩ := Json.document_encodeAll_iff.mp hbytes
    rw [Tree.depth_bytes] at hdepth
    rw [Tree.intTokens_bytes] at hdigits
    have hfits : Fits 1 t := ⟨Nat.add_le_add_right hdepth 1, hdigits⟩
    rw [(parse_eq_some_iff hN text (ofTree N t)).mpr ⟨t, hdoc, hfits, rfl⟩]
    rfl

/-- A string with a byte that is not UTF-8 and the escape of a lone surrogate. -/
theorem parse_accepts_sample :
    (parse Sample.native (0x22 :: 0xC0 :: ascii "\\ud83d\"")).isSome ↔
      ∃ t, Document t (sanitizeUtf8 (0x22 :: 0xC0 :: ascii "\\ud83d\"")) ∧ t.depth ≤ 100 ∧
        DigitsFit 4300 t.intTokens :=
  (parse_accepts Sample.strtodReads _).1

end Cpp
