import Mathlib.Data.List.Sort
import FlightTestLab.Library.Assoc
import FlightTestLab.Library.Json.Reader
import FlightTestLab.Library.Json.Print

/-!
# The interpreter's `json` module

Decoded values, `json.loads` with the hooks the program passes, and `json.dumps`
with `ensure_ascii` and `sort_keys`. Floats are opaque: what the module does with
one is a parameter.

## Main definitions

- `Python.Value`: a decoded JSON value
- `Python.loads`: `json.loads`
- `Python.dumps`: `json.dumps(value, sort_keys=True)`
-/

namespace Python

open Json (Text Tree Item ascii)

/-- The exceptions the program raises or handles. -/
inductive Error
  | valueError
  | recursionError
  | typeError
  | keyError
  | attributeError
  | osError
  | indexError
  deriving DecidableEq, Repr

/-- A decoded JSON value; a `str` is its code points, a `dict` lists its items in order. -/
inductive Value (F : Type)
  | none
  | bool (b : Bool)
  | int (i : Int)
  | float (x : F)
  | str (s : Text)
  | list (items : List (Value F))
  | dict (items : List (Text × Value F))

/-- What `json` uses of the float type. -/
structure FloatOps (F : Type) where
  /-- `float("nan")` -/
  nan : F
  /-- `float("inf")`, and its negation -/
  inf : Bool → F
  /-- `float(token)` -/
  parse : Text → F
  /-- `x != x` -/
  isNan : F → Bool
  /-- `x == inf` or `x == -inf`, with the sign -/
  isInf : F → Option Bool
  /-- `float.__repr__` -/
  repr : F → Text
  /-- `x == i` for an `int` -/
  eqInt : F → Int → Bool

/-- Floats that are the text they print as. -/
def FloatOps.tokens : FloatOps Text where
  nan := ascii "nan"
  inf neg := if neg then ascii "-inf" else ascii "inf"
  parse := id
  isNan x := x == ascii "nan"
  isInf x := if x = ascii "inf" then some false else if x = ascii "-inf" then some true else none
  repr := id
  eqInt x i := x == Json.decimal i ++ ascii ".0"

variable {F : Type}

namespace Value

mutual
/-- Structural depth: 1 for a scalar or an empty container. -/
def depth : Value F → Nat
  | .list vs => 1 + depthElements vs
  | .dict items => 1 + depthItems items
  | _ => 1
/-- The greatest depth among list elements. -/
def depthElements : List (Value F) → Nat
  | [] => 0
  | v :: vs => max v.depth (depthElements vs)
/-- The greatest depth among the values of a `dict`. -/
def depthItems : List (Text × Value F) → Nat
  | [] => 0
  | (_, v) :: items => max v.depth (depthItems items)
end

/-- `d.get(key)` on a `dict`; an absent key is `None`. -/
def get (key : Text) (items : List (Text × Value F)) : Value F :=
  (Assoc.get? key items).getD .none

def isNone : Value F → Bool
  | .none => true
  | _ => false

/-- `value == text` for a string constant. -/
def eqStr (text : Text) : Value F → Bool
  | .str s => s == text
  | _ => false

/-- `isinstance(value, int)`; a `bool` is one. -/
def asInt? : Value F → Option Int
  | .bool b => some (if b then 1 else 0)
  | .int i => some i
  | _ => Option.none

/-- `value == i` for an integer constant. -/
def eqInt (fl : FloatOps F) (i : Int) : Value F → Bool
  | .float x => fl.eqInt x i
  | v => v.asInt? == some i

/-- The truth value of a decoded value. -/
def truthy (fl : FloatOps F) : Value F → Bool
  | .none => false
  | .bool b => b
  | .int i => i != 0
  | .float x => !fl.eqInt x 0
  | .str s => !s.isEmpty
  | .list items => !items.isEmpty
  | .dict items => !items.isEmpty

/-- Whether `value in some_set` raises no `TypeError`. -/
def hashable : Value F → Bool
  | .list _ | .dict _ => false
  | _ => true

theorem depth_pos (v : Value F) : 1 ≤ v.depth := by
  cases v <;> simp [depth]

theorem depthElements_le_iff {vs : List (Value F)} {n : Nat} :
    depthElements vs ≤ n ↔ ∀ v ∈ vs, v.depth ≤ n := by
  induction vs with
  | nil => simp [depthElements]
  | cons v vs ih => simp [depthElements, ih]

theorem depthItems_le_iff {items : List (Text × Value F)} {n : Nat} :
    depthItems items ≤ n ↔ ∀ item ∈ items, item.2.depth ≤ n := by
  induction items with
  | nil => simp [depthItems]
  | cons item items ih => simp [depthItems, ih]

end Value

section Loads

/-- The arguments of `json.loads`, and the nesting at which its scanner gives up. -/
structure Decoder (F : Type) where
  floats : FloatOps F
  overflows : Tree → Bool
  parseInt : Text → Except Error Int
  objectPairs : List (Text × Value F) → Except Error (Value F)

/-- The default object hook: the last of repeated members stays. -/
def dictOfPairs (pairs : List (Text × Value F)) : Except Error (Value F) :=
  .ok (.dict (Assoc.ofPairs pairs))

mutual
/-- The value of a syntax tree. -/
def build (D : Decoder F) : Tree → Except Error (Value F)
  | .null => .ok .none
  | .bool b => .ok (.bool b)
  | .nan => .ok (.float D.floats.nan)
  | .inf neg => .ok (.float (D.floats.inf neg))
  | .int tok =>
    match D.parseInt tok with
    | .error e => .error e
    | .ok i => .ok (.int i)
  | .float tok => .ok (.float (D.floats.parse tok))
  | .str is => .ok (.str (Json.decodeItems is))
  | .arr ts =>
    match buildElements D ts with
    | .error e => .error e
    | .ok vs => .ok (.list vs)
  | .obj ms =>
    match buildMembers D ms with
    | .error e => .error e
    | .ok pairs => D.objectPairs pairs
/-- The values of array elements. -/
def buildElements (D : Decoder F) : List Tree → Except Error (List (Value F))
  | [] => .ok []
  | t :: ts =>
    match build D t with
    | .error e => .error e
    | .ok v =>
      match buildElements D ts with
      | .error e => .error e
      | .ok vs => .ok (v :: vs)
/-- The pairs that the object hook is given. -/
def buildMembers (D : Decoder F) :
    List (List Item × Tree) → Except Error (List (Text × Value F))
  | [] => .ok []
  | (is, t) :: ms =>
    match build D t with
    | .error e => .error e
    | .ok v =>
      match buildMembers D ms with
      | .error e => .error e
      | .ok pairs => .ok ((Json.decodeItems is, v) :: pairs)
end

section Building

variable {D : Decoder F}

theorem build_arr_eq_ok_iff {ts : List Tree} {v : Value F} :
    build D (.arr ts) = .ok v ↔ ∃ vs, buildElements D ts = .ok vs ∧ v = .list vs := by
  rw [build]
  cases buildElements D ts with
  | error e => simp
  | ok vs => simp [eq_comm]

theorem build_obj_eq_ok_iff {ms : List (List Item × Tree)} {v : Value F} :
    build D (.obj ms) = .ok v ↔
      ∃ pairs, buildMembers D ms = .ok pairs ∧ D.objectPairs pairs = .ok v := by
  rw [build]
  cases buildMembers D ms with
  | error e => simp
  | ok pairs => simp

theorem buildElements_cons_eq_ok_iff {t : Tree} {ts : List Tree} {vs : List (Value F)} :
    buildElements D (t :: ts) = .ok vs ↔
      ∃ v rest, build D t = .ok v ∧ buildElements D ts = .ok rest ∧ vs = v :: rest := by
  rw [buildElements]
  cases build D t with
  | error e => simp
  | ok v =>
    cases buildElements D ts with
    | error e => simp
    | ok rest => simp [eq_comm]

theorem buildMembers_cons_eq_ok_iff {is : List Item} {t : Tree} {ms : List (List Item × Tree)}
    {pairs : List (Text × Value F)} :
    buildMembers D ((is, t) :: ms) = .ok pairs ↔
      ∃ v rest, build D t = .ok v ∧ buildMembers D ms = .ok rest ∧
        pairs = (Json.decodeItems is, v) :: rest := by
  rw [buildMembers]
  cases build D t with
  | error e => simp
  | ok v =>
    cases buildMembers D ms with
    | error e => simp
    | ok rest => simp [eq_comm]

end Building

/-- `json.loads`. A byte order mark is refused before the scanner sees it. -/
def loads (D : Decoder F) (s : Text) : Except Error (Value F) :=
  if s.head? = some 0xFEFF then .error .valueError
  else
    match Json.readDocument s with
    | none => .error .valueError
    | some t => if D.overflows t then .error .recursionError else build D t

/-- A text loads as the value of the tree that it spells, within the limit of the scanner. -/
theorem loads_eq_ok_iff (D : Decoder F) {s : Text} {v : Value F} :
    loads D s = .ok v ↔ ∃ t, Json.Document t s ∧ D.overflows t = false ∧ build D t = .ok v := by
  constructor
  · intro h
    unfold loads at h
    split at h
    · cases h
    · split at h
      · cases h
      · next t ht =>
        split at h
        · cases h
        · next hov => exact ⟨t, Json.readDocument_eq_some_iff.mp ht, Bool.eq_false_iff.mpr hov, h⟩
  · rintro ⟨t, hdoc, hov, hbuild⟩
    obtain ⟨c, s', rfl, hc⟩ := hdoc.head_lt
    have hbom : ¬ (c :: s').head? = some 0xFEFF := by
      simp only [List.head?_cons, Option.some.injEq]
      omega
    rw [loads, if_neg hbom, Json.readDocument_eq_some_iff.mpr hdoc]
    simp only [hov, hbuild, Bool.false_eq_true, if_false]

section Errors

/-- The hooks raise nothing but `ValueError`. -/
structure Decoder.RaisesValueError (D : Decoder F) : Prop where
  parseInt : ∀ token e, D.parseInt token = .error e → e = .valueError
  objectPairs : ∀ pairs e, D.objectPairs pairs = .error e → e = .valueError

variable {D : Decoder F}

mutual
theorem build_error (hD : D.RaisesValueError) :
    ∀ {t : Tree} {e : Error}, build D t = .error e → e = .valueError
  | .null, _, h | .bool _, _, h | .nan, _, h | .inf _, _, h | .float _, _, h | .str _, _, h => by
    cases h
  | .int tok, e, h => by
    rw [build] at h
    split at h
    · next e' he' =>
      cases h
      exact hD.parseInt tok _ he'
    · cases h
  | .arr ts, e, h => by
    rw [build] at h
    split at h
    · next e' he' =>
      cases h
      exact buildElements_error hD he'
    · cases h
  | .obj ms, e, h => by
    rw [build] at h
    split at h
    · next e' he' =>
      cases h
      exact buildMembers_error hD he'
    · exact hD.objectPairs _ e h
theorem buildElements_error (hD : D.RaisesValueError) :
    ∀ {ts : List Tree} {e : Error}, buildElements D ts = .error e → e = .valueError
  | [], _, h => by cases h
  | t :: ts, e, h => by
    rw [buildElements] at h
    split at h
    · next e' he' =>
      cases h
      exact build_error hD he'
    · split at h
      · next e' he' =>
        cases h
        exact buildElements_error hD he'
      · cases h
theorem buildMembers_error (hD : D.RaisesValueError) :
    ∀ {ms : List (List Item × Tree)} {e : Error}, buildMembers D ms = .error e → e = .valueError
  | [], _, h => by cases h
  | (is, t) :: ms, e, h => by
    rw [buildMembers] at h
    split at h
    · next e' he' =>
      cases h
      exact build_error hD he'
    · split at h
      · next e' he' =>
        cases h
        exact buildMembers_error hD he'
      · cases h
end

/-- Hooks that raise nothing but `ValueError` leave it at that and `RecursionError`. -/
theorem loads_error (hD : D.RaisesValueError) {s : Text} {e : Error} (h : loads D s = .error e) :
    e = .valueError ∨ e = .recursionError := by
  rw [loads] at h
  split at h
  · cases h
    exact .inl rfl
  · split at h
    · cases h
      exact .inl rfl
    · split at h
      · cases h
        exact .inr rfl
      · exact .inl (build_error hD h)

end Errors

end Loads

section Dumps

/-- One character of an ASCII string literal. -/
def escapeChar (c : Nat) : Text :=
  if c = 0x22 then [0x5C, 0x22]
  else if c = 0x5C then [0x5C, 0x5C]
  else if c = 0x0A then [0x5C, 0x6E]
  else if c = 0x0D then [0x5C, 0x72]
  else if c = 0x09 then [0x5C, 0x74]
  else if c = 0x0C then [0x5C, 0x66]
  else if c = 0x08 then [0x5C, 0x62]
  else if 0x20 ≤ c ∧ c ≤ 0x7E then [c]
  else if c < 0x10000 then Json.unicodeEscape c
  else
    Json.unicodeEscape (0xD800 + (c - 0x10000) / 0x400) ++
      Json.unicodeEscape (0xDC00 + (c - 0x10000) % 0x400)

theorem escapeChar_ascii (c : Nat) : ∀ b ∈ escapeChar c, 0x20 ≤ b ∧ b < 0x7F := by
  intro b hb
  have hconstant {s : Text} (hs : ∀ d ∈ s, 0x20 ≤ d ∧ d < 0x7F) (h : b ∈ s) :
      0x20 ≤ b ∧ b < 0x7F := hs b h
  unfold escapeChar at hb
  split_ifs at hb with _ _ _ _ _ _ _ hprint
  · exact hconstant (by decide) hb
  · exact hconstant (by decide) hb
  · exact hconstant (by decide) hb
  · exact hconstant (by decide) hb
  · exact hconstant (by decide) hb
  · exact hconstant (by decide) hb
  · exact hconstant (by decide) hb
  · rw [List.mem_singleton.mp hb]
    exact ⟨hprint.1, Nat.lt_succ_of_le hprint.2⟩
  · exact Json.unicodeEscape_ascii c b hb
  · obtain hb | hb := List.mem_append.mp hb
    · exact Json.unicodeEscape_ascii _ b hb
    · exact Json.unicodeEscape_ascii _ b hb

/-- `json.encoder.encode_basestring_ascii` -/
def encodeString (s : Text) : Text := 0x22 :: (s.flatMap escapeChar ++ [0x22])

/-- The encoder's `floatstr`. -/
def floatText (fl : FloatOps F) (x : F) : Text :=
  if fl.isNan x then ascii "NaN"
  else
    match fl.isInf x with
    | some false => ascii "Infinity"
    | some true => ascii "-Infinity"
    | none => fl.repr x

/-- Code point order on strings, as `sorted` uses it on the keys of a `dict`. -/
def keyLe {α : Type} (a b : Text × α) : Prop := ¬ b.1 < a.1

instance {α : Type} : DecidableRel (keyLe (α := α)) :=
  fun a b => inferInstanceAs (Decidable (¬ b.1 < a.1))

def itemText (item : Text × Text) : Text := encodeString item.1 ++ ascii ": " ++ item.2

mutual
/-- `json.dumps(value, sort_keys=True)` -/
def dumps (fl : FloatOps F) : Value F → Text
  | .none => ascii "null"
  | .bool true => ascii "true"
  | .bool false => ascii "false"
  | .int i => Json.decimal i
  | .float x => floatText fl x
  | .str s => encodeString s
  | .list vs => 0x5B :: (Json.joinComma (dumpsElements fl vs) ++ [0x5D])
  | .dict items =>
    0x7B :: (Json.joinComma (((dumpsItems fl items).insertionSort keyLe).map itemText) ++ [0x7D])
/-- The texts of list items. -/
def dumpsElements (fl : FloatOps F) : List (Value F) → List Text
  | [] => []
  | v :: vs => dumps fl v :: dumpsElements fl vs
/-- The keys of a `dict` with the texts of their values. -/
def dumpsItems (fl : FloatOps F) : List (Text × Value F) → List (Text × Text)
  | [] => []
  | (k, v) :: items => (k, dumps fl v) :: dumpsItems fl items
end

end Dumps

end Python
