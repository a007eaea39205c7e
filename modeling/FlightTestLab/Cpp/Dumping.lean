import FlightTestLab.Cpp.Encoding

/-!
# What the serialiser writes

On a stored string `dump_string` goes from code point to code point, surrogates
included. Whatever bytes a value holds, its text is printable ASCII as long as the
numbers it carries as text are.

## Main definitions

- `Cpp.dumpChar`: what `dump_string` writes for one code point
- `Cpp.Inside`: the values at any depth of a value
- `Cpp.PrintsPlain`: what is assumed of `to_chars`

## Main results

- `Cpp.dumpString_encodeAll`: `dump_string` on a stored text
- `Cpp.dumpValue_printable`: printable numbers make printable text
-/

namespace Cpp

open Json (Text Printable ascii joinComma printable_append printable_cons printable_joinComma
  unicodeEscape)
open Utf8 (encode encodeAll)

variable {D : Type}

section Values

/-- Induction on a value, with the hypothesis for every element and member. -/
@[elab_as_elim]
theorem Value.induct {motive : Value D → Prop} (null : motive .null)
    (bool : ∀ b, motive (.bool b)) (int : ∀ i, motive (.int i)) (double : ∀ x, motive (.double x))
    (string : ∀ s, motive (.string s)) (raw : ∀ text, motive (.raw text))
    (array : ∀ items, (∀ u ∈ items, motive u) → motive (.array items))
    (object : ∀ entries, (∀ e ∈ entries, motive e.2) → motive (.object entries)) :
    ∀ v, motive v
  | .null => null
  | .bool b => bool b
  | .int i => int i
  | .double x => double x
  | .string s => string s
  | .raw text => raw text
  | .array items => array items fun u hu =>
    have : sizeOf u < sizeOf items := List.sizeOf_lt_of_mem hu
    induct null bool int double string raw array object u
  | .object entries => object entries fun e he =>
    have : sizeOf e < sizeOf entries := List.sizeOf_lt_of_mem he
    have : sizeOf e.2 < sizeOf e := by
      obtain ⟨k, v⟩ := e
      show sizeOf v < sizeOf (k, v)
      rw [Prod.mk.sizeOf_spec]
      omega
    induct null bool int double string raw array object e.2
  termination_by v => sizeOf v

/-- The values at any depth of a value, the value itself included. -/
inductive Inside : Value D → Value D → Prop
  | self {v : Value D} : Inside v v
  | element {w u : Value D} {items : List (Value D)} :
      u ∈ items → Inside w u → Inside w (.array items)
  | member {w : Value D} {e : Bytes × Value D} {entries : List (Bytes × Value D)} :
      e ∈ entries → Inside w e.2 → Inside w (.object entries)

theorem dumpElements_eq (N : NativeDouble D) (items : List (Value D)) :
    dumpElements N items = items.map (dumpValue N) := by
  induction items with
  | nil => rfl
  | cons v items ih => rw [dumpElements, ih, List.map_cons]

theorem dumpEntries_eq (N : NativeDouble D) (entries : List (Bytes × Value D)) :
    dumpEntries N entries = entries.map (Prod.map id (dumpValue N)) := by
  induction entries with
  | nil => rfl
  | cons e entries ih =>
    rw [dumpEntries, ih, List.map_cons]
    rfl

theorem dumpValue_array (N : NativeDouble D) (items : List (Value D)) :
    dumpValue N (.array items) = 0x5B :: (joinComma (items.map (dumpValue N)) ++ [0x5D]) := by
  rw [dumpValue, dumpElements_eq]

theorem dumpValue_object (N : NativeDouble D) (entries : List (Bytes × Value D)) :
    dumpValue N (.object entries) =
      0x7B :: (joinComma (((entries.insertionSort entryLe).map (Prod.map id (dumpValue N))).map
        entryText) ++ [0x7D]) := by
  have hsort : (entries.map (Prod.map id (dumpValue N))).insertionSort entryLe =
      (entries.insertionSort entryLe).map (Prod.map id (dumpValue N)) :=
    (List.map_insertionSort entryLe entryLe (Prod.map id (dumpValue N)) entries
      fun _ _ _ _ => Iff.rfl).symm
  rw [dumpValue, dumpEntries_eq, hsort]

end Values

section Strings

/-- What `dump_string` writes for one code point. -/
def dumpChar (c : Nat) : Bytes :=
  if c = 0x22 then ascii "\\\""
  else if c = 0x5C then ascii "\\\\"
  else if c = 0x08 then ascii "\\b"
  else if c = 0x0C then ascii "\\f"
  else if c = 0x0A then ascii "\\n"
  else if c = 0x0D then ascii "\\r"
  else if c = 0x09 then ascii "\\t"
  else dumpCodePoint c

theorem dumpStringLoop_skip (skip : Nat) (text : Bytes) :
    dumpStringLoop skip text = dumpStringLoop 0 (text.drop skip) := by
  induction skip generalizing text with
  | zero => rfl
  | succ skip ih =>
    cases text with
    | nil => rfl
    | cons c text => exact ih text

/-- One round of the loop on a stored code point. -/
theorem dumpStringLoop_encode {c : Nat} (h : c < 0x110000) (rest : Bytes) :
    dumpStringLoop 0 (encode c ++ rest) = dumpChar c ++ dumpStringLoop 0 rest := by
  obtain ⟨b, bs, hb⟩ := List.exists_cons_of_ne_nil (Utf8.encode_ne_nil c)
  have hcp := nextCodePoint_encode h rest
  have hfirst : b = c ∧ bs = [] ∨ 0x80 ≤ b ∧ 0x80 ≤ c := by
    by_cases ha : c < 0x80
    · rw [Utf8.encode_ascii ha, List.cons.injEq] at hb
      exact .inl ⟨hb.1.symm, hb.2.symm⟩
    · have ha := Nat.le_of_not_lt ha
      exact .inr ⟨Utf8.le_of_mem_encode ha (by simp [hb]), ha⟩
  rw [hb, List.cons_append] at hcp ⊢
  rw [dumpStringLoop]
  have other (hsw : b ≠ 0x22 ∧ b ≠ 0x5C ∧ b ≠ 0x08 ∧ b ≠ 0x0C ∧ b ≠ 0x0A ∧ b ≠ 0x0D ∧ b ≠ 0x09) :
      dumpCodePoint (nextCodePoint (b :: (bs ++ rest))).1 ++
          dumpStringLoop ((nextCodePoint (b :: (bs ++ rest))).2 - 1) (bs ++ rest) =
        dumpChar c ++ dumpStringLoop 0 rest := by
    rw [hcp, dumpChar, if_neg (by omega), if_neg (by omega), if_neg (by omega), if_neg (by omega),
      if_neg (by omega), if_neg (by omega), if_neg (by omega), dumpStringLoop_skip]
    simp
  split_ifs with h1 h2 h3 h4 h5 h6 h7
  all_goals first
    | exact other ⟨h1, h2, h3, h4, h5, h6, h7⟩
    | (obtain ⟨rfl, rfl⟩ | ⟨hge, -⟩ := hfirst
       · subst b
         rfl
       · omega)

/-- `dump_string` on a stored text. -/
theorem dumpString_encodeAll {s : Text} (h : ∀ c ∈ s, c < 0x110000) :
    dumpString (encodeAll s) = 0x22 :: (s.flatMap dumpChar ++ [0x22]) := by
  have hloop : dumpStringLoop 0 (encodeAll s) = s.flatMap dumpChar := by
    induction s with
    | nil => rfl
    | cons c s ih =>
      rw [List.forall_mem_cons] at h
      rw [Utf8.encodeAll_cons, dumpStringLoop_encode h.1, ih h.2, List.flatMap_cons]
  rw [dumpString, hloop]

end Strings

section Printable

theorem unicodeEscape_printable (n : Nat) : Printable (unicodeEscape n) := by
  intro b hb
  obtain ⟨hle, hlt⟩ := Json.unicodeEscape_ascii n b hb
  exact ⟨hle, Nat.le_of_lt_succ hlt⟩

/-- Whatever the number, `dump_string` writes its code point in ASCII. -/
theorem dumpCodePoint_printable (c : Nat) : Printable (dumpCodePoint c) := by
  unfold dumpCodePoint
  split
  · exact unicodeEscape_printable c
  split
  · simp only [Printable, List.mem_singleton, forall_eq]
    omega
  split
  · exact unicodeEscape_printable c
  · exact printable_append.mpr ⟨unicodeEscape_printable _, unicodeEscape_printable _⟩

theorem dumpStringLoop_printable (skip : Nat) (text : Bytes) :
    Printable (dumpStringLoop skip text) := by
  induction text generalizing skip with
  | nil => cases skip <;> simp [dumpStringLoop, Printable]
  | cons c text ih =>
    cases skip with
    | succ skip => exact ih skip
    | zero =>
      rw [dumpStringLoop]
      split_ifs
      · exact printable_append.mpr ⟨by decide, ih 0⟩
      · exact printable_append.mpr ⟨by decide, ih 0⟩
      · exact printable_append.mpr ⟨by decide, ih 0⟩
      · exact printable_append.mpr ⟨by decide, ih 0⟩
      · exact printable_append.mpr ⟨by decide, ih 0⟩
      · exact printable_append.mpr ⟨by decide, ih 0⟩
      · exact printable_append.mpr ⟨by decide, ih 0⟩
      · exact printable_append.mpr ⟨dumpCodePoint_printable _, ih _⟩

/-- `dump_string` writes printable ASCII, also for bytes that encode nothing. -/
theorem dumpString_printable (text : Bytes) : Printable (dumpString text) :=
  printable_cons.mpr ⟨by omega, printable_append.mpr ⟨dumpStringLoop_printable 0 text, by decide⟩⟩

/-- `to_chars` writes finite doubles in printable ASCII. -/
structure PrintsPlain (N : NativeDouble D) : Prop where
  scientific : ∀ x, N.isnan x = false → N.isinf x = false → Printable (N.scientific x)
  fixed : ∀ x, N.isnan x = false → N.isinf x = false → Printable (N.fixed x)

/-- Doubles of which one is finite: every number token is read as it. -/
inductive Single
  | nan
  | inf (neg : Bool)
  | one
  deriving DecidableEq

def Single.native : NativeDouble Single where
  quietNan := .nan
  infinity := .inf false
  negInfinity := .inf true
  strtod tok := (.one, tok.length)
  isnan x := x == .nan
  isinf x := x == .inf false || x == .inf true
  positive x := x == .inf false || x == .one
  scientific _ := ascii "1e+00"
  fixed _ := ascii "1"

theorem Single.printsPlain : PrintsPlain Single.native where
  scientific _ _ _ := by
    show Printable (ascii "1e+00")
    decide
  fixed _ _ _ := by
    show Printable (ascii "1")
    decide

theorem formatDouble_printable {N : NativeDouble D} (hN : PrintsPlain N) (x : D) :
    Printable (formatDouble N x) := by
  unfold formatDouble
  cases hnan : N.isnan x
  · cases hinf : N.isinf x
    · simp only [Bool.false_eq_true, if_false]
      unfold formatFinite
      dsimp only
      split_ifs
      · exact hN.scientific x hnan hinf
      · exact hN.fixed x hnan hinf
      · exact printable_append.mpr ⟨hN.fixed x hnan hinf, by decide⟩
    · simp only [Bool.false_eq_true, if_false, if_true]
      split
      · decide
      · decide
  · simp only [if_true]
    decide

/-- A value whose raw numbers are printable is written in printable ASCII. -/
theorem dumpValue_printable {N : NativeDouble D} (hN : PrintsPlain N) {v : Value D}
    (h : ∀ text, Inside (.raw text) v → Printable text) : Printable (dumpValue N v) := by
  induction v using Value.induct with
  | null => rw [dumpValue]; decide
  | bool b => cases b <;> (rw [dumpValue]; decide)
  | int i =>
    rw [dumpValue]
    intro b hb
    have := Json.decimal_ascii _ b hb
    omega
  | double x => exact formatDouble_printable hN x
  | string s => exact dumpString_printable s
  | raw text => exact h text .self
  | array items ih =>
    rw [dumpValue_array]
    refine printable_cons.mpr ⟨by omega, printable_append.mpr ⟨printable_joinComma ?_, by decide⟩⟩
    intro text htext
    obtain ⟨u, hu, rfl⟩ := List.mem_map.mp htext
    exact ih u hu fun text hin => h text (.element hu hin)
  | object entries ih =>
    rw [dumpValue_object]
    refine printable_cons.mpr ⟨by omega, printable_append.mpr ⟨printable_joinComma ?_, by decide⟩⟩
    intro text htext
    obtain ⟨item, hitem, rfl⟩ := List.mem_map.mp htext
    obtain ⟨e, he, rfl⟩ := List.mem_map.mp hitem
    have he := (List.mem_insertionSort _).mp he
    have hvalue := ih e he fun text hin => h text (.member he hin)
    exact printable_append.mpr
      ⟨printable_append.mpr ⟨dumpString_printable _, by decide⟩, hvalue⟩

end Printable

end Cpp
