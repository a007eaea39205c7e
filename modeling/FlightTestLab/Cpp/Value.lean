import Mathlib.Data.List.Sort
import FlightTestLab.Library.Assoc
import FlightTestLab.Library.Json.Print

/-!
# The value type of the native DUT

`dut::Value` with its lookup and its serialiser. Strings are bytes; a lone surrogate
is stored the way `append_utf8` writes it. Doubles are opaque: what the code asks of
the standard library is a parameter.

## Main definitions

- `Cpp.Value`: the variant
- `Cpp.Value.find`: object lookup
- `Cpp.dumpValue`: the serialiser
-/

namespace Cpp

open Json (ascii joinComma unicodeEscape)

abbrev Bytes := List Nat

/-- `dut::Value` -/
inductive Value (D : Type)
  | null
  | bool (b : Bool)
  | int (i : Int64)
  | double (x : D)
  | string (s : Bytes)
  | array (items : List (Value D))
  | object (entries : List (Bytes × Value D))
  | raw (text : Bytes)

/-- What the code uses of `double` and of the library functions on it. -/
structure NativeDouble (D : Type) where
  quietNan : D
  infinity : D
  negInfinity : D
  /-- `strtod`: the value and the number of bytes it consumed -/
  strtod : Bytes → D × Nat
  isnan : D → Bool
  isinf : D → Bool
  /-- `value > 0` -/
  positive : D → Bool
  /-- `to_chars` with `chars_format::scientific` -/
  scientific : D → Bytes
  /-- `to_chars` with `chars_format::fixed` -/
  fixed : D → Bytes

/-- A double that remembers how it was spelled; exact where the spelling is the shortest. -/
inductive Sample
  | nan
  | inf (neg : Bool)
  | token (tok : Bytes)
  deriving DecidableEq, Repr

def Sample.text : Sample → Bytes
  | .token tok => tok.filter fun c => c < 0x80 ∧ c ≠ 0x65
  | _ => []

def Sample.native : NativeDouble Sample where
  quietNan := .nan
  infinity := .inf false
  negInfinity := .inf true
  strtod tok := (.token tok, tok.length)
  isnan x := x == .nan
  isinf x := x == .inf false || x == .inf true
  positive x := x == .inf false
  scientific x := x.text ++ ascii "e+00"
  fixed x := x.text

variable {D : Type}

namespace Value

def isNull : Value D → Bool
  | .null => true
  | _ => false

/-- `Value::find` -/
def find (key : Bytes) : Value D → Option (Value D)
  | .object entries => Assoc.get? key entries
  | _ => none

end Value

section Strings

def byteAt (text : Bytes) (offset : Nat) : Nat := text.getD offset 0

/-- `is_continuation`, relative to the start of the sequence. -/
def isContinuation (text : Bytes) (offset : Nat) : Bool :=
  offset < text.length && byteAt text offset &&& 0xC0 == 0x80

/-- `next_code_point` on the unread text: the code point and the bytes it takes. -/
def nextCodePoint (text : Bytes) : Nat × Nat :=
  let lead := byteAt text 0
  if lead < 0x80 then (lead, 1)
  else if lead &&& 0xE0 = 0xC0 ∧ isContinuation text 1 then
    let value := (lead &&& 0x1F) <<< 6 ||| (byteAt text 1 &&& 0x3F)
    (if value ≥ 0x80 then value else 0xFFFD, 2)
  else if lead &&& 0xF0 = 0xE0 ∧ isContinuation text 1 ∧ isContinuation text 2 then
    let value := (lead &&& 0x0F) <<< 12 ||| (byteAt text 1 &&& 0x3F) <<< 6 |||
      (byteAt text 2 &&& 0x3F)
    (if value ≥ 0x800 then value else 0xFFFD, 3)
  else if lead &&& 0xF8 = 0xF0 ∧ isContinuation text 1 ∧ isContinuation text 2 ∧
      isContinuation text 3 then
    let value := (lead &&& 0x07) <<< 18 ||| (byteAt text 1 &&& 0x3F) <<< 12 |||
      (byteAt text 2 &&& 0x3F) <<< 6 ||| (byteAt text 3 &&& 0x3F)
    (if value ≥ 0x10000 ∧ value ≤ 0x10FFFF then value else 0xFFFD, 4)
  else (0xFFFD, 1)

/-- What `dump_string` writes for a code point that is not one of the switch cases. -/
def dumpCodePoint (codePoint : Nat) : Bytes :=
  if codePoint < 0x20 then unicodeEscape codePoint
  else if codePoint < 0x7F then [codePoint]
  else if codePoint ≤ 0xFFFF then unicodeEscape codePoint
  else
    let adjusted := codePoint - 0x10000
    unicodeEscape (0xD800 + adjusted >>> 10) ++ unicodeEscape (0xDC00 + (adjusted &&& 0x3FF))

/-- The loop of `dump_string`; `skip` bytes belong to a code point already written. -/
def dumpStringLoop : Nat → Bytes → Bytes
  | _, [] => []
  | skip + 1, _ :: text => dumpStringLoop skip text
  | 0, c :: text =>
    if c = 0x22 then ascii "\\\"" ++ dumpStringLoop 0 text
    else if c = 0x5C then ascii "\\\\" ++ dumpStringLoop 0 text
    else if c = 0x08 then ascii "\\b" ++ dumpStringLoop 0 text
    else if c = 0x0C then ascii "\\f" ++ dumpStringLoop 0 text
    else if c = 0x0A then ascii "\\n" ++ dumpStringLoop 0 text
    else if c = 0x0D then ascii "\\r" ++ dumpStringLoop 0 text
    else if c = 0x09 then ascii "\\t" ++ dumpStringLoop 0 text
    else
      let (codePoint, advance) := nextCodePoint (c :: text)
      dumpCodePoint codePoint ++ dumpStringLoop (advance - 1) text

def dumpString (text : Bytes) : Bytes := 0x22 :: (dumpStringLoop 0 text ++ [0x22])

end Strings

section Numbers

/-- `atoi`: an optional sign and the digits after it. -/
def atoi : Bytes → Int
  | [] => 0
  | c :: text =>
    let digits (s : Bytes) : Nat := Json.ofDigits (s.takeWhile fun d => 0x30 ≤ d ∧ d ≤ 0x39)
    if c = 0x2D then -(digits text : Int)
    else if c = 0x2B then digits text
    else digits (c :: text)

/-- The decimal exponent of a scientific text, 0 without a marker. -/
def exponentOf (sciText : Bytes) : Int :=
  match sciText.dropWhile (· != 0x65) with
  | [] => 0
  | _ :: text => atoi text

/-- `format_double` of a finite value. -/
def formatFinite (N : NativeDouble D) (value : D) : Bytes :=
  let sciText := N.scientific value
  let exponent := exponentOf sciText
  if exponent < -4 ∨ exponent ≥ 16 then sciText
  else
    let text := N.fixed value
    if 0x2E ∈ text then text else text ++ ascii ".0"

def formatDouble (N : NativeDouble D) (value : D) : Bytes :=
  if N.isnan value then ascii "NaN"
  else if N.isinf value then if N.positive value then ascii "Infinity" else ascii "-Infinity"
  else formatFinite N value

end Numbers

section Dump

/-- The comparison `dump_object` sorts its entries with. -/
def entryLe {α : Type} (a b : Bytes × α) : Prop := ¬ b.1 < a.1

instance {α : Type} : DecidableRel (entryLe (α := α)) :=
  fun a b => inferInstanceAs (Decidable (¬ b.1 < a.1))

def entryText (entry : Bytes × Bytes) : Bytes := dumpString entry.1 ++ ascii ": " ++ entry.2

mutual
def dumpValue (N : NativeDouble D) : Value D → Bytes
  | .null => ascii "null"
  | .bool true => ascii "true"
  | .bool false => ascii "false"
  | .int i => Json.decimal i.toInt
  | .double x => formatDouble N x
  | .raw text => text
  | .string s => dumpString s
  | .array items => 0x5B :: (joinComma (dumpElements N items) ++ [0x5D])
  | .object entries =>
    0x7B :: (joinComma (((dumpEntries N entries).insertionSort entryLe).map entryText) ++ [0x7D])
/-- The texts of array elements. -/
def dumpElements (N : NativeDouble D) : List (Value D) → List Bytes
  | [] => []
  | v :: vs => dumpValue N v :: dumpElements N vs
/-- The keys of an object with the texts of their values. -/
def dumpEntries (N : NativeDouble D) : List (Bytes × Value D) → List (Bytes × Bytes)
  | [] => []
  | (k, v) :: entries => (k, dumpValue N v) :: dumpEntries N entries
end

end Dump

example : dumpString [0x61, 0xF0, 0x9F, 0x98, 0x80] = ascii "\"a\\ud83d\\ude00\"" := by decide

end Cpp
