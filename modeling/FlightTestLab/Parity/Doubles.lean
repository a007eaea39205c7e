import FlightTestLab.Cpp.Simulation
import FlightTestLab.Simulator.Decoding

/-!
# One double type for both DUTs

What the two programs have to agree on about floating point, and a small type on
which they do.

## Main definitions

- `Parity.Agree`: both sides read, classify and print doubles alike
- `Parity.Sample.floats`: the sample doubles on the interpreter's side
-/

namespace Parity

open Cpp (NativeDouble StrtodReads)
open Python (FloatOps)

/-- `strtod` and `to_chars` on one side, `float` and `repr` on the other. -/
structure Agree {D : Type} (N : NativeDouble D) (fl : FloatOps D) : Prop where
  quietNan : N.quietNan = fl.nan
  infinity : N.infinity = fl.inf false
  negInfinity : N.negInfinity = fl.inf true
  strtod : ∀ tok, Json.IsFloatToken tok → N.strtod tok = (fl.parse tok, tok.length)
  isnan : ∀ x, N.isnan x = fl.isNan x
  isinf : ∀ x, fl.isNan x = false → N.isinf x = (fl.isInf x).isSome
  positive : ∀ x neg, fl.isNan x = false → fl.isInf x = some neg → N.positive x = !neg
  format : ∀ x, fl.isNan x = false → fl.isInf x = none →
    Cpp.formatFinite N x = Utf8.encodeAll (fl.repr x)

theorem Agree.strtodReads {D : Type} {N : NativeDouble D} {fl : FloatOps D} (h : Agree N fl) :
    StrtodReads N := by
  intro tok htok
  rw [h.strtod tok htok]

namespace Sample

/-- The same doubles as the interpreter sees them. -/
def floats : FloatOps Cpp.Sample where
  nan := .nan
  inf := .inf
  parse := .token
  isNan x := x == .nan
  isInf
    | .inf neg => some neg
    | _ => none
  repr x := if 0x2E ∈ x.text then x.text else x.text ++ Json.ascii ".0"
  eqInt
    | .token tok, i => tok == Json.decimal i ++ Json.ascii ".0"
    | _, _ => false

/-- The text of a sample is plain, without an exponent. -/
theorem of_mem_text {x : Cpp.Sample} {c : Nat} (hc : c ∈ x.text) : c < 0x80 ∧ c ≠ 0x65 := by
  cases x with
  | token tok =>
    have hkept := (List.mem_filter.mp hc).2
    rwa [decide_eq_true_eq] at hkept
  | nan | inf neg => cases hc

theorem exponentOf_scientific (x : Cpp.Sample) :
    Cpp.exponentOf (Cpp.Sample.native.scientific x) = 0 := by
  have hne (c : Nat) (hc : c ∈ x.text) : (c != 0x65) = true :=
    bne_iff_ne.mpr (of_mem_text hc).2
  rw [Cpp.exponentOf, Cpp.Sample.native, List.dropWhile_append_of_pos hne]
  decide

theorem agree : Agree Cpp.Sample.native floats where
  quietNan := rfl
  infinity := rfl
  negInfinity := rfl
  strtod _ _ := rfl
  isnan _ := rfl
  isinf x _ := by
    cases x with
    | inf neg => cases neg <;> rfl
    | nan | token _ => rfl
  positive x neg _ h := by
    cases x with
    | inf neg' =>
      cases h
      cases neg <;> rfl
    | nan | token _ => cases h
  format x _ _ := by
    have hascii (c : Nat) (hc : c ∈ x.text) : c < 0x80 := (of_mem_text hc).1
    rw [Cpp.formatFinite]
    simp only [exponentOf_scientific]
    rw [if_neg (by omega)]
    change (if 0x2E ∈ x.text then x.text else x.text ++ Json.ascii ".0") =
      Utf8.encodeAll (if 0x2E ∈ x.text then x.text else x.text ++ Json.ascii ".0")
    split
    · rw [Utf8.encodeAll_ascii hascii]
    · rw [Utf8.encodeAll_append, Utf8.encodeAll_ascii hascii, Utf8.encodeAll_ascii (by decide)]

end Sample

end Parity
