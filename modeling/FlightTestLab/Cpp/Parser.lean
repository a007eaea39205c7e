import FlightTestLab.Cpp.Value

/-!
# The parser of the native DUT

`sanitize_utf8` and the recursive-descent `Parser`. The cursor is the unread rest of
the text. The first `Nat` of the recursive functions bounds the recursion, the second
is the depth the code itself counts; running out of the first is kept apart from
`nullopt`.

## Main definitions

- `Cpp.sanitizeUtf8`: replacement of ill-formed sequences
- `Cpp.parseValue`: one value at the cursor
- `Cpp.parse`: a whole text
-/

namespace Cpp

open Json (ascii)

variable {D : Type}

section Sanitize

/-- `in_range`, relative to the start of the sequence. -/
def inRange (text : Bytes) (offset low high : Nat) : Bool :=
  offset < text.length ∧ low ≤ byteAt text offset ∧ byteAt text offset ≤ high

/-- `expected`, `second_low` and `second_high` for a lead byte. -/
def sequenceShape (lead : Nat) : Nat × Nat × Nat :=
  if 0xC2 ≤ lead ∧ lead ≤ 0xDF then (2, 0x80, 0xBF)
  else if 0xE0 ≤ lead ∧ lead ≤ 0xEF then
    (3, if lead = 0xE0 then 0xA0 else 0x80, if lead = 0xED then 0x9F else 0xBF)
  else if 0xF0 ≤ lead ∧ lead ≤ 0xF4 then
    (4, if lead = 0xF0 then 0x90 else 0x80, if lead = 0xF4 then 0x8F else 0xBF)
  else (0, 0x80, 0xBF)

/-- The loop that extends `valid_prefix`; `left` is `expected - valid_prefix`. -/
def extendPrefix (text : Bytes) : Nat → Nat → Nat
  | 0, validPrefix => validPrefix
  | left + 1, validPrefix =>
    if inRange text validPrefix 0x80 0xBF then extendPrefix text left (validPrefix + 1)
    else validPrefix

def validPrefix (text : Bytes) : Nat :=
  let (expected, secondLow, secondHigh) := sequenceShape (byteAt text 0)
  if expected ≥ 2 ∧ inRange text 1 secondLow secondHigh then extendPrefix text (expected - 2) 2
  else 1

/-- The loop of `sanitize_utf8`; `skip` bytes are already accounted for. -/
def sanitizeLoop : Nat → Bytes → Bytes
  | _, [] => []
  | skip + 1, _ :: text => sanitizeLoop skip text
  | 0, lead :: text =>
    if lead < 0x80 then lead :: sanitizeLoop 0 text
    else
      let expected := (sequenceShape lead).1
      if expected ≠ 0 ∧ validPrefix (lead :: text) = expected then
        (lead :: text).take expected ++ sanitizeLoop (expected - 1) text
      else [0xEF, 0xBF, 0xBD] ++ sanitizeLoop (validPrefix (lead :: text) - 1) text

def sanitizeUtf8 (text : Bytes) : Bytes := sanitizeLoop 0 text

end Sanitize

section Cursor

def kMaxDepth : Nat := 100

def kMaxIntDigits : Nat := 4300

def skipWhitespace : Bytes → Bytes
  | [] => []
  | c :: s => if c = 0x20 ∨ c = 0x09 ∨ c = 0x0A ∨ c = 0x0D then skipWhitespace s else c :: s

def consume (expected : Nat) : Bytes → Option Bytes
  | [] => none
  | c :: s => if c = expected then some s else none

def consumeLiteral (literal : Bytes) (s : Bytes) : Option Bytes :=
  if s.take literal.length = literal then some (s.drop literal.length) else none

end Cursor

section Strings

/-- `append_utf8` -/
def appendUtf8 (out : Bytes) (codePoint : Nat) : Bytes :=
  if codePoint < 0x80 then out ++ [codePoint]
  else if codePoint < 0x800 then
    out ++ [0xC0 ||| codePoint >>> 6, 0x80 ||| (codePoint &&& 0x3F)]
  else if codePoint < 0x10000 then
    out ++ [0xE0 ||| codePoint >>> 12, 0x80 ||| (codePoint >>> 6 &&& 0x3F),
      0x80 ||| (codePoint &&& 0x3F)]
  else
    out ++ [0xF0 ||| codePoint >>> 18, 0x80 ||| (codePoint >>> 12 &&& 0x3F),
      0x80 ||| (codePoint >>> 6 &&& 0x3F), 0x80 ||| (codePoint &&& 0x3F)]

/-- One round of the loop in `parse_hex4`. -/
def hexStep (value c : Nat) : Option Nat :=
  if 0x30 ≤ c ∧ c ≤ 0x39 then some (value <<< 4 ||| (c - 0x30))
  else if 0x61 ≤ c ∧ c ≤ 0x66 then some (value <<< 4 ||| (c - 0x61 + 10))
  else if 0x41 ≤ c ∧ c ≤ 0x46 then some (value <<< 4 ||| (c - 0x41 + 10))
  else none

/-- `parse_hex4` on the next four bytes. -/
def parseHex4 (c₁ c₂ c₃ c₄ : Nat) : Option Nat :=
  ((hexStep 0 c₁).bind (hexStep · c₂)).bind (hexStep · c₃) |>.bind (hexStep · c₄)

/-- The code point of a high surrogate and the low one whose escape follows it. -/
def joinedPair (code : Nat) : Bytes → Option Nat
  | backslash :: u :: c₁ :: c₂ :: c₃ :: c₄ :: _ =>
    if 0xD800 ≤ code ∧ code ≤ 0xDBFF ∧ backslash = 0x5C ∧ u = 0x75 then
      match parseHex4 c₁ c₂ c₃ c₄ with
      | some low =>
        if 0xDC00 ≤ low ∧ low ≤ 0xDFFF then some (0x10000 + (code - 0xD800) <<< 10 + (low - 0xDC00))
        else none
      | none => none
    else none
  | _ => none

/-- `parse_string` after the opening quote, with the bytes stored so far. -/
def parseStringLoop (out : Bytes) : Bytes → Option (Bytes × Bytes)
  | [] => none
  | c :: s =>
    if c = 0x22 then some (out, s)
    else if c ≠ 0x5C then if c < 0x20 then none else parseStringLoop (out ++ [c]) s
    else
      match s with
      | [] => none
      | escape :: s₁ =>
        if escape = 0x22 then parseStringLoop (out ++ [0x22]) s₁
        else if escape = 0x5C then parseStringLoop (out ++ [0x5C]) s₁
        else if escape = 0x2F then parseStringLoop (out ++ [0x2F]) s₁
        else if escape = 0x62 then parseStringLoop (out ++ [0x08]) s₁
        else if escape = 0x66 then parseStringLoop (out ++ [0x0C]) s₁
        else if escape = 0x6E then parseStringLoop (out ++ [0x0A]) s₁
        else if escape = 0x72 then parseStringLoop (out ++ [0x0D]) s₁
        else if escape = 0x74 then parseStringLoop (out ++ [0x09]) s₁
        else if escape = 0x75 then
          match s₁ with
          | c₁ :: c₂ :: c₃ :: c₄ :: s₂ =>
            match parseHex4 c₁ c₂ c₃ c₄ with
            | none => none
            | some code =>
              match joinedPair code s₂ with
              | none => parseStringLoop (appendUtf8 out code) s₂
              | some codePoint =>
                -- the escape of the low surrogate is passed over
                match s₂ with
                | _ :: _ :: _ :: _ :: _ :: _ :: s₃ => parseStringLoop (appendUtf8 out codePoint) s₃
                | _ => none
          | _ => none
        else none

def parseString (s : Bytes) : Option (Bytes × Bytes) :=
  (consume 0x22 s).bind fun s₁ => parseStringLoop [] s₁

end Strings

section Numbers

def isDigit (c : Nat) : Bool := 0x30 ≤ c ∧ c ≤ 0x39

/-- `consume_digits`: whether it moved, and the rest. -/
def consumeDigits (s : Bytes) : Bool × Bytes :=
  let r := s.dropWhile isDigit
  (r.length < s.length, r)

def headIs (p : Nat → Bool) : Bytes → Bool
  | [] => false
  | c :: _ => p c

inductive StollError
  | outOfRange
  | invalidArgument

/-- `std::stoll`: the value and the number of bytes it consumed. -/
def stoll (token : Bytes) : Except StollError (Int64 × Nat) :=
  let negative := headIs (· == 0x2D) token
  let digits := (if negative then token.tail else token).takeWhile isDigit
  let value : Int := if negative then -(Json.ofDigits digits : Int) else Json.ofDigits digits
  if digits = [] then .error .invalidArgument
  else if value < -2 ^ 63 ∨ 2 ^ 63 ≤ value then .error .outOfRange
  else .ok (Int64.ofInt value, (if negative then 1 else 0) + digits.length)

/-- The integer part of a number: what is left after it. -/
def scanInteger (s : Bytes) : Option Bytes :=
  match s with
  | [] => none
  | c :: s₁ =>
    if c = 0x30 then if headIs isDigit s₁ then none else some s₁
    else
      let (moved, r) := consumeDigits (c :: s₁)
      if moved then some r else none

/-- The fraction, if any: what is left, and whether there was one. -/
def scanFraction (s : Bytes) : Option (Bytes × Bool) :=
  if headIs (· == 0x2E) s then
    let (moved, r) := consumeDigits s.tail
    if moved then some (r, true) else none
  else some (s, false)

/-- The exponent, if any: what is left, and whether there was one. -/
def scanExponent (s : Bytes) : Option (Bytes × Bool) :=
  if headIs (fun c => c == 0x65 || c == 0x45) s then
    let s₁ := s.tail
    let (moved, r) := consumeDigits (if headIs (fun c => c == 0x2B || c == 0x2D) s₁ then s₁.tail else s₁)
    if moved then some (r, true) else none
  else some (s, false)

/-- `parse_number` once the token is scanned. -/
def numberOf (N : NativeDouble D) (token : Bytes) (isDouble : Bool) : Option (Value D) :=
  if isDouble then
    let (value, consumed) := N.strtod token
    if consumed ≠ token.length then none else some (.double value)
  else if token.length - (if headIs (· == 0x2D) token then 1 else 0) > kMaxIntDigits then none
  else
    match stoll token with
    | .ok (value, consumed) => if consumed ≠ token.length then none else some (.int value)
    | .error .outOfRange => some (.raw token)
    | .error .invalidArgument => none

/-- `parse_number` -/
def parseNumber (N : NativeDouble D) (start : Bytes) : Option (Value D × Bytes) :=
  match scanInteger (if headIs (· == 0x2D) start then start.tail else start) with
  | none => none
  | some s₁ =>
    match scanFraction s₁ with
    | none => none
    | some (s₂, fraction) =>
      match scanExponent s₂ with
      | none => none
      | some (r, exponent) =>
        let token := start.take (start.length - r.length)
        (numberOf N token (fraction || exponent)).map fun value => (value, r)

end Numbers

section Values

/-- How a parse stops without a value. -/
inductive Stop
  | nullopt
  | fuel
  deriving DecidableEq, Repr

abbrev Parse (α : Type) := Except Stop (α × Bytes)

def orNullopt {α : Type} : Option (α × Bytes) → Parse α
  | none => .error .nullopt
  | some p => .ok p

/-- The cases of the switch in `parse_value` that do not recurse. -/
def parseScalar (N : NativeDouble D) (c : Nat) (s : Bytes) : Option (Value D × Bytes) :=
  if c = 0x22 then (parseString s).map fun (text, r) => (.string text, r)
  else if c = 0x74 then (consumeLiteral (ascii "true") s).map fun r => (.bool true, r)
  else if c = 0x66 then (consumeLiteral (ascii "false") s).map fun r => (.bool false, r)
  else if c = 0x6E then (consumeLiteral (ascii "null") s).map fun r => (.null, r)
  else if c = 0x4E then (consumeLiteral (ascii "NaN") s).map fun r => (.double N.quietNan, r)
  else if c = 0x49 then (consumeLiteral (ascii "Infinity") s).map fun r => (.double N.infinity, r)
  else if c = 0x2D then
    if s.take 9 = ascii "-Infinity" then some (.double N.negInfinity, s.drop 9)
    else parseNumber N s
  else parseNumber N s

mutual
def parseValue (N : NativeDouble D) : Nat → Nat → Bytes → Parse (Value D)
  | 0, _, _ => .error .fuel
  | n + 1, depth, s =>
    if depth > kMaxDepth then .error .nullopt
    else
      match skipWhitespace s with
      | [] => .error .nullopt
      | c :: s₁ =>
        if c = 0x7B then parseObject N n depth (c :: s₁)
        else if c = 0x5B then parseArray N n depth (c :: s₁)
        else orNullopt (parseScalar N c (c :: s₁))
def parseObject (N : NativeDouble D) : Nat → Nat → Bytes → Parse (Value D)
  | 0, _, _ => .error .fuel
  | n + 1, depth, s =>
    match consume 0x7B s with
    | none => .error .nullopt
    | some s₁ =>
      let s₂ := skipWhitespace s₁
      match consume 0x7D s₂ with
      | some r => .ok (.object [], r)
      | none => parseMembers N n depth [] s₂
/-- The loop of `parse_object`. -/
def parseMembers (N : NativeDouble D) :
    Nat → Nat → List (Bytes × Value D) → Bytes → Parse (Value D)
  | 0, _, _, _ => .error .fuel
  | n + 1, depth, object, s =>
    match parseString (skipWhitespace s) with
    | none => .error .nullopt
    | some (key, s₁) =>
      match consume 0x3A (skipWhitespace s₁) with
      | none => .error .nullopt
      | some s₂ =>
        match parseValue N n (depth + 1) s₂ with
        | .error e => .error e
        | .ok (value, s₃) =>
          -- a repeated key is replaced in place
          let object := Assoc.upsert key value object
          let s₄ := skipWhitespace s₃
          match consume 0x2C s₄ with
          | some s₅ => parseMembers N n depth object s₅
          | none =>
            match consume 0x7D s₄ with
            | some r => .ok (.object object, r)
            | none => .error .nullopt
def parseArray (N : NativeDouble D) : Nat → Nat → Bytes → Parse (Value D)
  | 0, _, _ => .error .fuel
  | n + 1, depth, s =>
    match consume 0x5B s with
    | none => .error .nullopt
    | some s₁ =>
      let s₂ := skipWhitespace s₁
      match consume 0x5D s₂ with
      | some r => .ok (.array [], r)
      | none => parseElements N n depth [] s₂
/-- The loop of `parse_array`. -/
def parseElements (N : NativeDouble D) :
    Nat → Nat → List (Value D) → Bytes → Parse (Value D)
  | 0, _, _, _ => .error .fuel
  | n + 1, depth, array, s =>
    match parseValue N n (depth + 1) s with
    | .error e => .error e
    | .ok (value, s₁) =>
      let array := array ++ [value]
      let s₂ := skipWhitespace s₁
      match consume 0x2C s₂ with
      | some s₃ => parseElements N n depth array s₃
      | none =>
        match consume 0x5D s₂ with
        | some r => .ok (.array array, r)
        | none => .error .nullopt
end

/-- More levels than any text of this length uses. -/
def fuelFor (text : Bytes) : Nat := 3 * text.length + 3

/-- `Parser::parse_document` -/
def parseDocument (N : NativeDouble D) (text : Bytes) : Except Stop (Value D) :=
  match parseValue N (fuelFor text) 1 (skipWhitespace text) with
  | .error e => .error e
  | .ok (value, r) => if skipWhitespace r = [] then .ok value else .error .nullopt

/-- `dut::parse` -/
def parse (N : NativeDouble D) (text : Bytes) : Option (Value D) :=
  (parseDocument N (sanitizeUtf8 text)).toOption

end Values

end Cpp
