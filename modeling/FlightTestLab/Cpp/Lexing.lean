import FlightTestLab.Library.Json.Reader
import FlightTestLab.Cpp.Encoding

/-!
# The scanners of the native DUT on encoded text

Each scanner of `Parser`, run on the UTF-8 bytes of a text, does what the reader of
the grammar does on the code points. Syntax is ASCII and an encoded code point above
`0x7F` has no byte below `0x80`, so no scanner can take one for the other.

## Main results

- `Cpp.parseNumber_encodeAll`: numbers
- `Cpp.parseString_encodeAll`: strings, lone surrogates stored encoded
-/

namespace Cpp

open Json (Text Tree Item ascii IsDigit skipBlank hexDigit hex4 hexDigit_eq_none hex4_ascii
  decodeItems)
open Utf8 (encode encodeAll encodeAll_cons_ascii encodeAll_cons_cases encodeAll_eq_cons_iff)

variable {D : Type}

section Scanning

/-- A byte predicate that holds of ASCII only. -/
def AsciiOnly (p : Nat → Bool) : Prop := ∀ b, 0x80 ≤ b → p b = false

theorem skipWhitespace_encodeAll (s : Text) :
    skipWhitespace (encodeAll s) = encodeAll (skipBlank s) := by
  induction s with
  | nil => rfl
  | cons c s ih =>
    obtain ⟨-, he⟩ | ⟨b, bs, hc, hb, he⟩ := encodeAll_cons_cases c s
    · rw [he, skipWhitespace, skipBlank, ih]
      by_cases hw : Json.IsBlank c
      · rw [if_pos hw]
        exact if_pos hw
      · rw [if_neg hw, he]
        exact if_neg hw
    · have hw : ¬ Json.IsBlank c := by unfold Json.IsBlank; omega
      rw [skipBlank, if_neg hw, he, skipWhitespace, if_neg (by omega)]

@[simp] theorem consume_self (e : Nat) (s : Bytes) : consume e (e :: s) = some s := by
  rw [consume, if_pos rfl]

theorem consume_ne {e c : Nat} (h : c ≠ e) (s : Bytes) : consume e (c :: s) = none := by
  rw [consume, if_neg h]

theorem consume_encodeAll {e : Nat} (h : e < 0x80) (s : Text) :
    consume e (encodeAll s) = (consume e s).map encodeAll := by
  cases s with
  | nil => rfl
  | cons c s =>
    obtain ⟨-, he⟩ | ⟨b, bs, hc, hb, he⟩ := encodeAll_cons_cases c s
    · rw [he, consume, consume]
      split <;> rfl
    · rw [he, consume, consume, if_neg (by omega), if_neg (by omega)]
      rfl

theorem headIs_encodeAll {p : Nat → Bool} (hp : AsciiOnly p) (s : Text) :
    headIs p (encodeAll s) = headIs p s := by
  cases s with
  | nil => rfl
  | cons c s =>
    obtain ⟨-, he⟩ | ⟨b, bs, hc, hb, he⟩ := encodeAll_cons_cases c s
    · rw [he, headIs, headIs]
    · rw [he, headIs, headIs, hp b hb, hp c hc]

theorem tail_encodeAll {p : Nat → Bool} (hp : AsciiOnly p) {s : Text} (h : headIs p s = true) :
    (encodeAll s).tail = encodeAll s.tail := by
  cases s with
  | nil => rfl
  | cons c s =>
    obtain ⟨-, he⟩ | ⟨b, bs, hc, hb, he⟩ := encodeAll_cons_cases c s
    · rw [he, List.tail_cons, List.tail_cons]
    · rw [headIs, hp c hc] at h
      cases h

theorem dropWhile_encodeAll {p : Nat → Bool} (hp : AsciiOnly p) (s : Text) :
    (encodeAll s).dropWhile p = encodeAll (s.dropWhile p) := by
  induction s with
  | nil => rfl
  | cons c s ih =>
    obtain ⟨-, he⟩ | ⟨b, bs, hc, hb, he⟩ := encodeAll_cons_cases c s
    · rw [he, List.dropWhile_cons, List.dropWhile_cons, ih]
      split <;> simp_all
    · rw [List.dropWhile_cons, hp c hc, he, List.dropWhile_cons, hp b hb]
      simp [he]

theorem take_encodeAll {lit : Text} (hl : ∀ c ∈ lit, c < 0x80) (s : Text) :
    (encodeAll s).take lit.length = lit ↔ s.take lit.length = lit := by
  induction lit generalizing s with
  | nil => simp
  | cons l lit ih =>
    cases s with
    | nil => rfl
    | cons c s =>
      have hl' := hl l (by simp)
      obtain ⟨-, he⟩ | ⟨b, bs, hc, hb, he⟩ := encodeAll_cons_cases c s
      · rw [he]
        simp only [List.length_cons, List.take_succ_cons, List.cons.injEq]
        rw [ih fun c hc => hl c (by simp [hc])]
      · rw [he]
        simp only [List.length_cons, List.take_succ_cons, List.cons.injEq]
        constructor <;> rintro ⟨rfl, -⟩ <;> omega

theorem drop_encodeAll {lit : Text} (hl : ∀ c ∈ lit, c < 0x80) {s : Text}
    (h : s.take lit.length = lit) :
    (encodeAll s).drop lit.length = encodeAll (s.drop lit.length) := by
  conv_lhs => rw [← List.take_append_drop lit.length s, h, Utf8.encodeAll_append,
    Utf8.encodeAll_ascii hl]
  exact List.drop_left

theorem dropPrefix?_eq (lit s : Text) :
    s.dropPrefix? lit = if s.take lit.length = lit then some (s.drop lit.length) else none := by
  ext r
  rw [List.dropPrefix?_eq_some_iff]
  constructor
  · rintro ⟨lit', rfl, he⟩
    rw [beq_iff_eq] at he
    rw [he, List.take_left, if_pos rfl, List.drop_left]
  · intro h
    split at h
    · next ht =>
      cases h
      exact ⟨lit, by conv_lhs => rw [← List.take_append_drop lit.length s, ht], beq_self_eq_true lit⟩
    · cases h

theorem consumeLiteral_encodeAll {lit : Text} (hl : ∀ c ∈ lit, c < 0x80) (s : Text) :
    consumeLiteral lit (encodeAll s) = (s.dropPrefix? lit).map encodeAll := by
  rw [consumeLiteral, dropPrefix?_eq]
  by_cases h : s.take lit.length = lit
  · rw [if_pos ((take_encodeAll hl s).mpr h), if_pos h, drop_encodeAll hl h]
    rfl
  · rw [if_neg fun hc => h ((take_encodeAll hl s).mp hc), if_neg h]
    rfl

end Scanning

section Numbers

theorem isDigit_asciiOnly : AsciiOnly isDigit := by
  intro b hb
  simp only [isDigit, decide_eq_false_iff_not]
  omega

theorem startsWithDigit_eq (s : Text) : Json.startsWithDigit s = headIs isDigit s := by
  cases s <;> rfl

theorem consumeDigits_eq (s : Bytes) : consumeDigits s = (headIs isDigit s, s.dropWhile isDigit) := by
  have hlen := (List.dropWhile_sublist isDigit (l := s)).length_le
  cases s with
  | nil => rfl
  | cons c s =>
    rw [consumeDigits, headIs, List.dropWhile_cons]
    by_cases hc : isDigit c = true
    · have := (List.dropWhile_sublist isDigit (l := s)).length_le
      simp only [hc, if_true, List.length_cons, Prod.mk.injEq, and_true, decide_eq_true_eq]
      omega
    · simp [hc]

theorem consumeDigits_encodeAll (s : Text) :
    consumeDigits (encodeAll s) =
      (Json.startsWithDigit s, encodeAll (Json.spanDigits s).2) := by
  rw [consumeDigits_eq, headIs_encodeAll isDigit_asciiOnly, dropWhile_encodeAll isDigit_asciiOnly,
    startsWithDigit_eq]
  rfl

theorem scanInteger_encodeAll (s : Text) :
    scanInteger (encodeAll s) = (Json.readInt s).map fun p => encodeAll p.2 := by
  cases s with
  | nil => rfl
  | cons c s =>
    have hd := consumeDigits_encodeAll (c :: s)
    obtain ⟨-, he⟩ | ⟨b, bs, hc, hb, he⟩ := encodeAll_cons_cases c s
    · rw [he] at hd
      rw [he, scanInteger, Json.readInt, headIs_encodeAll isDigit_asciiOnly, startsWithDigit_eq, hd,
        Json.readDigits]
      by_cases hz : c = 0x30
      · rw [if_pos hz, if_pos hz]
        split <;> rfl
      · rw [if_neg hz, if_neg hz]
        dsimp only
        split <;> rfl
    · rw [he] at hd
      have hs : Json.startsWithDigit (c :: s) = false := by
        rw [startsWithDigit_eq, headIs, isDigit_asciiOnly c hc]
      rw [he, scanInteger, Json.readInt, if_neg (by omega), if_neg (by omega), hd, Json.readDigits,
        hs]
      rfl

private theorem eqByte_asciiOnly {e : Nat} (h : e < 0x80) : AsciiOnly (· == e) := by
  intro b hb
  simp only [beq_eq_false_iff_ne]
  omega

private theorem eitherByte_asciiOnly {e e' : Nat} (h : e < 0x80) (h' : e' < 0x80) :
    AsciiOnly (fun c => c == e || c == e') := by
  intro b hb
  simp only [Bool.or_eq_false_iff, beq_eq_false_iff_ne]
  omega

theorem scanFraction_encodeAll (s : Text) :
    scanFraction (encodeAll s) =
      (Json.readFrac s).map fun p => (encodeAll p.2, decide (p.1 ≠ [])) := by
  have hp : AsciiOnly (· == 0x2E) := eqByte_asciiOnly (by omega)
  rw [scanFraction, headIs_encodeAll hp]
  cases s with
  | nil => rfl
  | cons c s =>
    rw [Json.readFrac, headIs]
    by_cases hc : c = 0x2E
    · have ht : headIs (· == 0x2E) (c :: s) = true := by simp [headIs, hc]
      rw [if_pos (by simpa using hc), if_pos hc, tail_encodeAll hp ht, List.tail_cons,
        consumeDigits_encodeAll, Json.readDigits]
      dsimp only
      split <;> simp
    · rw [if_neg (by simpa using hc), if_neg hc]
      simp

theorem scanExponent_encodeAll (s : Text) :
    scanExponent (encodeAll s) =
      (Json.readExp s).map fun p => (encodeAll p.2, decide (p.1 ≠ [])) := by
  have hp : AsciiOnly (fun c => c == 0x65 || c == 0x45) := eitherByte_asciiOnly (by omega) (by omega)
  have hp' : AsciiOnly (fun c => c == 0x2B || c == 0x2D) :=
    eitherByte_asciiOnly (by omega) (by omega)
  have hsign (s : Text) :
      (if headIs (fun c => c == 0x2B || c == 0x2D) (encodeAll s) then (encodeAll s).tail
        else encodeAll s) = encodeAll (Json.readExpSign s).2 := by
    rw [headIs_encodeAll hp']
    cases s with
    | nil => rfl
    | cons c s =>
      by_cases hc : c = 0x2B ∨ c = 0x2D
      · have ht : headIs (fun c => c == 0x2B || c == 0x2D) (c :: s) = true := by
          simpa [headIs] using hc
        rw [if_pos ht, tail_encodeAll hp' ht, Json.readExpSign, if_pos hc, List.tail_cons]
      · rw [if_neg (by simpa [headIs] using hc), Json.readExpSign, if_neg hc]
  rw [scanExponent, headIs_encodeAll hp]
  cases s with
  | nil => rfl
  | cons c s =>
    rw [Json.readExp]
    by_cases hc : c = 0x65 ∨ c = 0x45
    · have ht : headIs (fun c => c == 0x65 || c == 0x45) (c :: s) = true := by
        simpa [headIs] using hc
      rw [if_pos ht, if_pos hc, tail_encodeAll hp ht, List.tail_cons]
      dsimp only
      rw [hsign, consumeDigits_encodeAll, Json.readDigits]
      dsimp only
      split <;> simp
    · rw [if_neg (by simpa [headIs] using hc), if_neg hc]
      simp

/-- The value the parser stores for an integer token. -/
def intValue (tok : Bytes) : Value D :=
  if Json.ofToken tok < -2 ^ 63 ∨ 2 ^ 63 ≤ Json.ofToken tok then .raw tok
  else .int (Int64.ofInt (Json.ofToken tok))

theorem isDigits_takeWhile {int : Text} (h : Json.IsInt int) : int.takeWhile isDigit = int := by
  have hall : ∀ c ∈ int, isDigit c = true := by
    obtain rfl | ⟨⟨-, hd⟩, -⟩ := h
    · decide
    · intro c hc
      exact decide_eq_true (hd c hc)
  exact List.takeWhile_eq_self_iff.mpr hall

/-- On an integer token `stoll` reads all of it. -/
theorem stoll_token {tok : Bytes} (h : Json.IsIntToken tok) :
    stoll tok =
      if Json.ofToken tok < -2 ^ 63 ∨ 2 ^ 63 ≤ Json.ofToken tok then .error .outOfRange
      else .ok (Int64.ofInt (Json.ofToken tok), tok.length) := by
  obtain ⟨sign, int, rfl, hm, hi⟩ := h
  have hne : int ≠ [] := List.ne_nil_of_length_pos hi.length_pos
  obtain rfl | rfl := hm
  · obtain ⟨c, ds, rfl, hc⟩ := hi.head
    have hneg : headIs (· == 0x2D) (c :: ds) = false := by
      unfold IsDigit at hc
      simp only [headIs, beq_eq_false_iff_ne]
      omega
    simp only [stoll, List.nil_append, hneg, Bool.false_eq_true, if_false, isDigits_takeWhile hi, hne,
      Json.ofToken_digits hi, Nat.zero_add]
  · have hneg : headIs (· == 0x2D) (0x2D :: int) = true := rfl
    rw [List.singleton_append]
    simp only [stoll, hneg, if_true, List.tail_cons, isDigits_takeWhile hi, hne, if_false,
      Json.ofToken_minus, List.length_cons, Nat.add_comm]

theorem numberOf_int (N : NativeDouble D) {tok : Bytes} (h : Json.IsIntToken tok) :
    numberOf N tok false =
      if Json.digitCount tok ≤ kMaxIntDigits then some (intValue tok) else none := by
  have hcount : tok.length - (if headIs (· == 0x2D) tok then 1 else 0) = Json.digitCount tok := by
    obtain ⟨sign, int, rfl, hm, hi⟩ := h
    rw [Json.digitCount_token hm hi]
    obtain rfl | rfl := hm
    · obtain ⟨c, ds, rfl, hc⟩ := hi.head
      have hneg : headIs (· == 0x2D) ([] ++ c :: ds) = false := by
        unfold IsDigit at hc
        simp only [headIs, List.nil_append, beq_eq_false_iff_ne]
        omega
      rw [hneg]
      rfl
    · have hneg : headIs (· == 0x2D) ([0x2D] ++ int) = true := rfl
      rw [hneg, if_pos rfl, List.singleton_append, List.length_cons, Nat.add_sub_cancel]
  rw [numberOf, if_neg (by simp), hcount, stoll_token h, intValue]
  by_cases hd : Json.digitCount tok ≤ kMaxIntDigits
  · rw [if_neg (by omega), if_pos hd]
    by_cases hr : Json.ofToken tok < -2 ^ 63 ∨ 2 ^ 63 ≤ Json.ofToken tok
    · rw [if_pos hr, if_pos hr]
    · rw [if_neg hr, if_neg hr]
      simp
  · rw [if_pos (by omega), if_neg hd]

/-- What `parse_number` answers on the token of a number tree. -/
def numberValue (N : NativeDouble D) : Tree → Option (Value D)
  | .int tok => numberOf N tok false
  | .float tok => numberOf N tok true
  | _ => none

private theorem token_eq {tok r : Text} (h : ∀ c ∈ tok, c < 0x80) :
    (encodeAll (tok ++ r)).take ((encodeAll (tok ++ r)).length - (encodeAll r).length) = tok := by
  rw [Utf8.encodeAll_append, Utf8.encodeAll_ascii h, List.length_append, Nat.add_sub_cancel,
    List.take_left]

theorem readMinus_encodeAll (s : Text) :
    (if headIs (· == 0x2D) (encodeAll s) then (encodeAll s).tail else encodeAll s) =
      encodeAll (Json.readMinus s).2 := by
  have hp : AsciiOnly (· == 0x2D) := eqByte_asciiOnly (by omega)
  rw [headIs_encodeAll hp]
  cases s with
  | nil => rfl
  | cons c s =>
    rw [Json.readMinus]
    by_cases hc : c = 0x2D
    · have ht : headIs (· == 0x2D) (c :: s) = true := by simp [headIs, hc]
      rw [if_pos ht, if_pos hc, tail_encodeAll hp ht, List.tail_cons]
    · rw [if_neg (by simpa [headIs] using hc), if_neg hc]

/-- `parse_number` scans the token the reader scans. -/
theorem parseNumber_encodeAll (N : NativeDouble D) (s : Text) :
    parseNumber N (encodeAll s) =
      (Json.readNumber s).bind fun p => (numberValue N p.1).map fun v => (v, encodeAll p.2) := by
  rw [parseNumber, readMinus_encodeAll, scanInteger_encodeAll]
  cases hi : Json.readInt (Json.readMinus s).2 with
  | none => simp [Json.readNumber, hi]
  | some p =>
    obtain ⟨int, s₂⟩ := p
    rw [Option.map_some]
    dsimp only
    rw [scanFraction_encodeAll]
    cases hf : Json.readFrac s₂ with
    | none => simp [Json.readNumber, hi, hf]
    | some p =>
      obtain ⟨frac, s₃⟩ := p
      rw [Option.map_some]
      dsimp only
      rw [scanExponent_encodeAll]
      cases he : Json.readExp s₃ with
      | none => simp [Json.readNumber, hi, hf, he]
      | some p =>
        obtain ⟨exp, r⟩ := p
        rw [Option.map_some]
        dsimp only
        -- the token is what stands before the rest
        by_cases hnil : frac ++ exp = []
        · have hr : Json.readNumber s = some (.int ((Json.readMinus s).1 ++ int), r) := by
            simp [Json.readNumber, hi, hf, he, hnil]
          obtain ⟨tok, ht, hs, htok⟩ | ⟨tok, ht, -⟩ := Json.readNumber_sound hr
          · cases ht
            obtain ⟨hfnil, henil⟩ := List.append_eq_nil_iff.mp hnil
            have htake := token_eq (r := r) htok.ascii
            rw [← hs] at htake
            rw [hr, htake, hfnil, henil]
            rfl
          · cases ht
        · have hr : Json.readNumber s =
              some (.float ((Json.readMinus s).1 ++ int ++ frac ++ exp), r) := by
            simp only [Json.readNumber, hi, hf, he, if_neg hnil]
          obtain ⟨tok, ht, -⟩ | ⟨tok, ht, hs, htok⟩ := Json.readNumber_sound hr
          · cases ht
          · cases ht
            have hflag : (decide (frac ≠ []) || decide (exp ≠ [])) = true := by
              rw [List.append_eq_nil_iff, not_and_or] at hnil
              simpa using hnil
            have htake := token_eq (r := r) htok.ascii
            rw [← hs] at htake
            rw [hr, htake, hflag]
            rfl

end Numbers

section Strings

theorem hexStep_eq (value c : Nat) :
    hexStep value c = (hexDigit c).map fun d => value * 16 + d := by
  have join {d : Nat} (h : d < 16) : value <<< 4 ||| d = value * 16 + d := by
    rw [← Nat.shiftLeft_add_eq_or_of_lt (i := 4) h, Nat.shiftLeft_eq]
  unfold hexStep hexDigit
  split
  · rw [join (by omega)]
    rfl
  split
  · rw [join (by omega)]
    rfl
  split
  · rw [join (by omega)]
    rfl
  · rfl

theorem parseHex4_eq (a b c d : Nat) : parseHex4 a b c d = hex4 a b c d := by
  simp only [parseHex4, hex4, hexStep_eq, Option.bind_eq_bind]
  cases hexDigit a <;> cases hexDigit b <;> cases hexDigit c <;> cases hexDigit d <;>
    simp

/-- A number of hexadecimal digits at the head, after those read so far, and the rest. -/
def hexHead : Nat → Nat → Text → Option (Nat × Text)
  | 0, value, s => some (value, s)
  | _ + 1, _, [] => none
  | k + 1, value, c :: s => (hexDigit c).bind fun d => hexHead k (value * 16 + d) s

theorem hexHead_cons (a b c d : Nat) (s : Text) :
    hexHead 4 0 (a :: b :: c :: d :: s) = (hex4 a b c d).map fun u => (u, s) := by
  simp only [hexHead, hex4, Option.bind_eq_bind]
  cases hexDigit a <;> cases hexDigit b <;> cases hexDigit c <;> cases hexDigit d <;>
    simp

/-- Reading hexadecimal digits commutes with encoding. -/
theorem hexHead_encodeAll (k value : Nat) (s : Text) :
    hexHead k value (encodeAll s) = (hexHead k value s).map fun p => (p.1, encodeAll p.2) := by
  induction k generalizing value s with
  | zero => rfl
  | succ k ih =>
    cases s with
    | nil => rfl
    | cons c s =>
      obtain ⟨-, he⟩ | ⟨b, bs, hc, hb, he⟩ := encodeAll_cons_cases c s
      · rw [he, hexHead, hexHead]
        cases hexDigit c with
        | none => rfl
        | some d => exact ih _ s
      · rw [he, hexHead, hexHead, hexDigit_eq_none hb, hexDigit_eq_none hc]
        rfl

theorem hexHead_some {s r : Text} {u : Nat} (h : hexHead 4 0 s = some (u, r)) :
    ∃ a b c d, s = a :: b :: c :: d :: r ∧ hex4 a b c d = some u := by
  match s, h with
  | [], h | [_], h | [_, _], h | [_, _, _], h => simp [hexHead] at h
  | a :: b :: c :: d :: s, h =>
    rw [hexHead_cons, Option.map_eq_some_iff] at h
    obtain ⟨u', hu, he⟩ := h
    cases he
    exact ⟨a, b, c, d, rfl, hu⟩

/-- A pair is joined exactly where the escape of a low surrogate follows a high one. -/
theorem joinedPair_eq_some_iff {code cp : Nat} {s : Bytes} :
    joinedPair code s = some cp ↔
      ∃ s' low r, s = 0x5C :: 0x75 :: s' ∧ hexHead 4 0 s' = some (low, r) ∧
        Json.IsHighSurrogate code ∧ Json.IsLowSurrogate low ∧ cp = Json.joinSurrogates code low := by
  have hsum (low : Nat) : 0x10000 + (code - 0xD800) <<< 10 + (low - 0xDC00) =
      Json.joinSurrogates code low := by
    unfold Json.joinSurrogates
    rw [Nat.shiftLeft_eq]
  constructor
  · intro h
    unfold joinedPair at h
    split at h
    · next backslash u c₁ c₂ c₃ c₄ r =>
      split at h
      · next hc =>
        obtain ⟨h1, h2, rfl, rfl⟩ := hc
        split at h
        · next low hlow =>
          split at h
          · next hl =>
            rw [Option.some.injEq, hsum] at h
            rw [parseHex4_eq] at hlow
            exact ⟨_, low, r, rfl, by rw [hexHead_cons, hlow]; rfl, ⟨h1, h2⟩, hl, h.symm⟩
          · cases h
        · cases h
      · cases h
    · cases h
  · rintro ⟨s', low, r, rfl, hl, hhigh, hlow, hcp⟩
    obtain ⟨a, b, c, d, rfl, hx⟩ := hexHead_some hl
    rw [hcp]
    simp only [joinedPair, parseHex4_eq, hx]
    unfold Json.IsHighSurrogate at hhigh
    unfold Json.IsLowSurrogate at hlow
    simp only [hhigh, hlow, and_self, if_true, hsum]

theorem joinedPair_encodeAll (code : Nat) (s : Text) :
    joinedPair code (encodeAll s) = joinedPair code s := by
  ext cp
  rw [joinedPair_eq_some_iff, joinedPair_eq_some_iff]
  constructor
  · rintro ⟨s', low, r, hs, hl, h⟩
    obtain ⟨s₁, rfl, hs'⟩ := (encodeAll_eq_cons_iff (by omega)).mp hs
    obtain ⟨s₂, rfl, rfl⟩ := (encodeAll_eq_cons_iff (by omega)).mp hs'
    rw [hexHead_encodeAll, Option.map_eq_some_iff] at hl
    obtain ⟨⟨low', r'⟩, hl, he⟩ := hl
    cases he
    exact ⟨s₂, _, r', rfl, hl, h⟩
  · rintro ⟨s', low, r, rfl, hl, h⟩
    refine ⟨encodeAll s', low, encodeAll r, ?_, ?_, h⟩
    · rw [encodeAll_cons_ascii (by omega), encodeAll_cons_ascii (by omega)]
    · rw [hexHead_encodeAll, hl]
      rfl

theorem parseStringLoop_unicode (out s : Bytes) :
    parseStringLoop out (0x5C :: 0x75 :: s) =
      (hexHead 4 0 s).bind fun p =>
        match joinedPair p.1 p.2 with
        | none => parseStringLoop (appendUtf8 out p.1) p.2
        | some cp => parseStringLoop (appendUtf8 out cp) (p.2.drop 6) := by
  rw [parseStringLoop.eq_def]
  simp only [Nat.reduceEqDiff, if_false, ne_eq, not_true_eq_false, if_true]
  split
  · next c₁ c₂ c₃ c₄ s₂ =>
    rw [hexHead_cons, parseHex4_eq]
    cases hex4 c₁ c₂ c₃ c₄ with
    | none => rfl
    | some code =>
      simp only [Option.map_some, Option.bind_some]
      cases hj : joinedPair code s₂ with
      | none => rfl
      | some cp =>
        obtain ⟨s', low, r, rfl, hl, -⟩ := joinedPair_eq_some_iff.mp hj
        obtain ⟨a, b, c, d, rfl, -⟩ := hexHead_some hl
        rfl
  · next hshort =>
    cases hh : hexHead 4 0 s with
    | none => rfl
    | some p =>
      obtain ⟨a, b, c, d, hs, -⟩ := hexHead_some hh
      exact absurd hs (hshort a b c d p.2)

theorem parseStringLoop_escape (out s : Bytes) {e : Nat} (he : e ≠ 0x75) :
    parseStringLoop out (0x5C :: e :: s) =
      (Json.escapeOf e).bind fun c => parseStringLoop (out ++ [c]) s := by
  rw [parseStringLoop.eq_def]
  simp only [Nat.reduceEqDiff, if_false, ne_eq, not_true_eq_false, Json.escapeOf, if_neg he]
  split_ifs <;> rfl

theorem parseStringLoop_raw (out s : Bytes) {bs : Bytes}
    (h : ∀ b ∈ bs, 0x20 ≤ b ∧ b ≠ 0x22 ∧ b ≠ 0x5C) :
    parseStringLoop out (bs ++ s) = parseStringLoop (out ++ bs) s := by
  induction bs generalizing out with
  | nil => simp
  | cons b bs ih =>
    obtain ⟨h1, h2, h3⟩ := h b (by simp)
    rw [List.cons_append, parseStringLoop.eq_def]
    simp only [if_neg h2, if_pos h3, if_neg (Nat.not_lt.mpr h1)]
    rw [ih _ fun b' hb' => h b' (by simp [hb']), List.append_assoc, List.singleton_append]

/-- The reader's view of an escape: the elements after it are read on their own. -/
theorem readItems_unicode (s : Text) :
    Json.readItems (0x5C :: 0x75 :: s) =
      (hexHead 4 0 s).bind fun p =>
        (Json.readItems p.2).map fun q => (.unicode p.1 :: q.1, q.2) := by
  rw [Json.readItems_cons]
  simp only [Nat.reduceEqDiff, if_false, if_true]
  split
  · rw [hexHead_cons]
    split
    · next hx => rw [hx]; rfl
    · next hx => rw [hx]; rfl
  · next hshort =>
    cases hh : hexHead 4 0 s with
    | none => rfl
    | some p =>
      obtain ⟨a, b, c, d, hs, -⟩ := hexHead_some hh
      exact absurd hs (hshort a b c d p.2)

theorem readItems_escape {e : Nat} (he : e ≠ 0x75) (s : Text) :
    Json.readItems (0x5C :: e :: s) =
      (Json.escapeOf e).bind fun c =>
        (Json.readItems s).map fun q => (.escape c :: q.1, q.2) := by
  rw [Json.readItems_cons]
  simp only [Nat.reduceEqDiff, if_false, if_true, if_neg he]
  cases Json.escapeOf e <;> rfl

/-- Only the escape of a code unit is read as one. -/
theorem readItems_head_unicode {s r : Text} {v : Nat} {is : List Item}
    (h : Json.readItems s = some (.unicode v :: is, r)) :
    ∃ s' p, s = 0x5C :: 0x75 :: s' ∧ hexHead 4 0 s' = some p ∧ p.1 = v ∧
      Json.readItems p.2 = some (is, r) := by
  cases s with
  | nil => cases h
  | cons c s =>
    by_cases hq : c = 0x22
    · rw [Json.readItems_cons, if_pos hq] at h
      cases h
    by_cases hb : c = 0x5C
    · subst hb
      cases s with
      | nil => simp [Json.readItems_cons] at h
      | cons e s =>
        by_cases he : e = 0x75
        · subst he
          rw [readItems_unicode, Option.bind_eq_some_iff] at h
          obtain ⟨p, hp, h⟩ := h
          rw [Option.map_eq_some_iff] at h
          obtain ⟨q, hq, h⟩ := h
          cases h
          exact ⟨s, p, rfl, hp, rfl, hq⟩
        · rw [readItems_escape he, Option.bind_eq_some_iff] at h
          obtain ⟨c, -, h⟩ := h
          rw [Option.map_eq_some_iff] at h
          obtain ⟨q, -, h⟩ := h
          cases h
    · rw [Json.readItems_cons, if_neg hq, if_neg hb] at h
      split at h
      · cases h
      · rw [Option.map_eq_some_iff] at h
        obtain ⟨q, -, h⟩ := h
        cases h

theorem hexHead_lt {s r : Text} {u : Nat} (h : hexHead 4 0 s = some (u, r)) : u < 0x10000 := by
  obtain ⟨a, b, c, d, -, hx⟩ := hexHead_some h
  exact Json.hex4_lt hx

/-- The string loop stores the encoding of what the string elements stand for. -/
theorem parseStringLoop_encodeAll (out : Bytes) (s : Text) :
    parseStringLoop out (encodeAll s) =
      (Json.readItems s).map fun p => (out ++ encodeAll (decodeItems p.1), encodeAll p.2) := by
  induction hn : s.length using Nat.strong_induction_on generalizing out s with
  | _ n ih =>
    have ih (out : Bytes) {r : Text} (hr : r.length < s.length) := ih _ (hn ▸ hr) out r rfl
    cases s with
    | nil => rfl
    | cons c s =>
      by_cases hq : c = 0x22
      · subst hq
        rw [encodeAll_cons_ascii (by omega), parseStringLoop.eq_def, Json.readItems_cons]
        simp
      by_cases hb : c = 0x5C
      · subst hb
        rw [encodeAll_cons_ascii (by omega)]
        cases s with
        | nil => simp [parseStringLoop, Json.readItems_cons]
        | cons e s =>
          by_cases he : e = 0x75
          · subst he
            rw [encodeAll_cons_ascii (by omega), parseStringLoop_unicode, readItems_unicode,
              hexHead_encodeAll]
            cases hh : hexHead 4 0 s with
            | none => rfl
            | some p =>
              obtain ⟨u, s₂⟩ := p
              have hu := hexHead_lt hh
              obtain ⟨a, b, c, d, rfl, -⟩ := hexHead_some hh
              simp only [Option.map_some, Option.bind_some, joinedPair_encodeAll]
              cases hj : joinedPair u s₂ with
              | some cp =>
                -- the second element of the pair is consumed with the first
                obtain ⟨s', low, r, rfl, hl, hhigh, hlow, hcp⟩ := joinedPair_eq_some_iff.mp hj
                have hcp' : cp < 0x110000 := by
                  unfold Json.IsHighSurrogate at hhigh
                  unfold Json.IsLowSurrogate at hlow
                  rw [hcp]
                  unfold Json.joinSurrogates
                  omega
                obtain ⟨a', b', c', d', rfl, hx⟩ := hexHead_some hl
                have hdrop : (encodeAll (0x5C :: 0x75 :: a' :: b' :: c' :: d' :: r)).drop 6 =
                    encodeAll r := by
                  have hasc : ∀ x ∈ [0x5C, 0x75, a', b', c', d'], x < 0x80 := by
                    simpa using hex4_ascii hx
                  rw [show 0x5C :: 0x75 :: a' :: b' :: c' :: d' :: r =
                    [0x5C, 0x75, a', b', c', d'] ++ r from rfl, Utf8.encodeAll_append,
                    Utf8.encodeAll_ascii hasc]
                  rfl
                dsimp only
                rw [readItems_unicode, hl, appendUtf8_eq _ hcp', hdrop,
                  ih _ (by simp only [List.length_cons]; omega), Option.bind_some]
                dsimp only
                cases Json.readItems r with
                | none => rfl
                | some q => simp [Json.decodeItems_pair hhigh hlow, hcp]
              | none =>
                rw [appendUtf8_eq _ (by omega), ih _ (by simp only [List.length_cons]; omega)]
                cases hr : Json.readItems s₂ with
                | none => rfl
                | some q =>
                  obtain ⟨is, r⟩ := q
                  have hd : decodeItems (.unicode u :: is) = u :: decodeItems is := by
                    refine Json.decodeItems_cons (Option.eq_none_iff_forall_ne_some.mpr ?_)
                    intro cp hcp
                    obtain ⟨_, v, is', ⟨⟩, rfl, hhigh, hlow, -⟩ := Json.pairOf_eq_some_iff.mp hcp
                    obtain ⟨s', p, rfl, hp, rfl, -⟩ := readItems_head_unicode hr
                    have := joinedPair_eq_some_iff.mpr ⟨s', p.1, p.2, rfl, hp, hhigh, hlow, rfl⟩
                    rw [hj] at this
                    cases this
                  simp [hd]
          · obtain ⟨-, hs⟩ | ⟨b, bs, hc, hb, hs⟩ := encodeAll_cons_cases e s
            · rw [hs, parseStringLoop_escape _ _ he, readItems_escape he]
              cases hesc : Json.escapeOf e with
              | none => rfl
              | some c =>
                have hc : c < 0x80 := Json.escapeOf_lt hesc
                simp only [Option.bind_some]
                rw [ih _ (by simp only [List.length_cons]; omega)]
                cases Json.readItems s with
                | none => rfl
                | some q =>
                  have hpair : Json.pairOf (.escape c) q.1 = none := rfl
                  simp [Json.decodeItems_cons hpair, Item.code, Utf8.encode_ascii hc]
            · have hnone : ∀ {b : Nat}, 0x80 ≤ b → Json.escapeOf b = none := by
                intro b hb
                unfold Json.escapeOf
                split_ifs <;> first | omega | rfl
              rw [hs, parseStringLoop_escape _ _ (by omega), readItems_escape he, hnone hb, hnone hc]
              rfl
      · by_cases hctl : c < 0x20
        · rw [encodeAll_cons_ascii (by omega), parseStringLoop.eq_def, Json.readItems_cons]
          simp [hq, hb, hctl]
        · have hbytes : ∀ b ∈ encode c, 0x20 ≤ b ∧ b ≠ 0x22 ∧ b ≠ 0x5C := by
            intro b hb'
            by_cases ha : c < 0x80
            · rw [Utf8.encode_ascii ha, List.mem_singleton] at hb'
              omega
            · have := Utf8.le_of_mem_encode (Nat.le_of_not_lt ha) hb'
              omega
          rw [Utf8.encodeAll_cons, parseStringLoop_raw _ _ hbytes, Json.readItems_cons, if_neg hq,
            if_neg hb, if_neg hctl, ih _ (by simp)]
          cases Json.readItems s with
          | none => rfl
          | some q =>
            have hpair : Json.pairOf (.raw c) q.1 = none := rfl
            simp [Json.decodeItems_cons hpair, Item.code]

theorem parseString_encodeAll (s : Text) :
    parseString (encodeAll s) =
      (Json.readString s).map fun p => (encodeAll (decodeItems p.1), encodeAll p.2) := by
  cases s with
  | nil => rfl
  | cons c s =>
    rw [parseString, consume_encodeAll (by omega), consume, Json.readString]
    by_cases hc : c = 0x22
    · rw [if_pos hc, if_pos hc, Option.map_some, Option.bind_some, parseStringLoop_encodeAll]
      rfl
    · rw [if_neg hc, if_neg hc]
      rfl

end Strings

end Cpp
