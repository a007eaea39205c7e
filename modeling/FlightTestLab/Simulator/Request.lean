import FlightTestLab.Python.Json

/-!
# Request decoding of the Python DUT

`simulator.py` from the raw request line to the response: the integer hook, the
nesting walk, `decode_request` and `build_response`.

## Main definitions

- `Simulator.exceedsNestingLimit`: the worklist walk over a decoded value
- `Simulator.decodeRequest`: the accepted message, if any
- `Simulator.buildResponse`: the four response shapes
-/

namespace Simulator

open Json (Text Tree ascii)
open Python (Value Error FloatOps Decoder)

variable {F : Type}

def maxNestingDepth : Nat := 100

def maxIntDigits : Nat := 4300

section Nesting

mutual
/-- The number of values in a value, itself included. -/
def nodes : Value F → Nat
  | .list vs => 1 + nodesElements vs
  | .dict items => 1 + nodesItems items
  | _ => 1
/-- The number of values in list elements. -/
def nodesElements : List (Value F) → Nat
  | [] => 0
  | v :: vs => nodes v + nodesElements vs
/-- The number of values in the items of a `dict`. -/
def nodesItems : List (Text × Value F) → Nat
  | [] => 0
  | (_, v) :: items => nodes v + nodesItems items
end

/-- What the walk still has to visit. -/
def pending (stack : List (Value F × Nat)) : Nat := (stack.map fun entry => nodes entry.1).sum

@[simp] theorem pending_cons (v : Value F) (depth : Nat) (stack : List (Value F × Nat)) :
    pending ((v, depth) :: stack) = nodes v + pending stack := by
  simp [pending]

@[simp] theorem pending_append (stack stack' : List (Value F × Nat)) :
    pending (stack ++ stack') = pending stack + pending stack' := by
  simp [pending]

@[simp] theorem pending_reverse (stack : List (Value F × Nat)) :
    pending stack.reverse = pending stack := by
  simp [pending, List.sum_reverse]

/-- What `stack.extend` pushes for one value, last pushed first. -/
def extension (current : Value F) (depth : Nat) : List (Value F × Nat) :=
  match current with
  | .dict items => (items.map fun item => (item.2, depth + 1)).reverse
  | .list items => (items.map fun item => (item, depth + 1)).reverse
  | _ => []

theorem pending_extension (current : Value F) (depth : Nat) :
    pending (extension current depth) + 1 = nodes current := by
  have elements : ∀ vs : List (Value F),
      pending (vs.map fun item => (item, depth + 1)) = nodesElements vs := by
    intro vs
    induction vs with
    | nil => rfl
    | cons v vs ih => rw [List.map_cons, pending_cons, ih, nodesElements]
  have members : ∀ items : List (Text × Value F),
      pending (items.map fun item => (item.2, depth + 1)) = nodesItems items := by
    intro items
    induction items with
    | nil => rfl
    | cons item items ih => rw [List.map_cons, pending_cons, ih, nodesItems]
  cases current with
  | dict items => rw [extension, pending_reverse, members, nodes, Nat.add_comm]
  | list items => rw [extension, pending_reverse, elements, nodes, Nat.add_comm]
  | _ => rfl

/-- The `while stack` loop; the head of the list is the top of the stack. -/
def nestingLoop (limit : Int) : List (Value F × Nat) → Bool
  | [] => false
  | (current, depth) :: stack =>
    if depth > limit then true else nestingLoop limit (extension current depth ++ stack)
termination_by stack => pending stack
decreasing_by
  have := pending_extension current depth
  simp only [pending_append, pending_cons]
  omega

def exceedsNestingLimit (value : Value F) (limit : Int) : Bool := nestingLoop limit [(value, 1)]

end Nesting

section Decoding

/-- `_parse_int`, the integer hook. -/
def parseInt (token : Text) : Except Error Int :=
  if (token.dropWhile (· == 0x2D)).length > maxIntDigits then .error .valueError
  else .ok (Json.ofToken token)

/-- What a request is decoded with: the float type and the scanner's own recursion limit. -/
structure Interpreter (F : Type) where
  floats : FloatOps F
  overflows : Tree → Bool

def Interpreter.decoder (I : Interpreter F) : Decoder F where
  floats := I.floats
  overflows := I.overflows
  parseInt := parseInt
  objectPairs := Python.dictOfPairs

/-- `decode_request`: the message, and whether the protocol accepts the line. -/
def decodeRequest (I : Interpreter F) (rawLine : Text) : Value F × Bool :=
  match Python.loads I.decoder rawLine with
  | .error _ => (.none, false)
  | .ok message =>
    if exceedsNestingLimit message maxNestingDepth then (.none, false) else (message, true)

def buildResponse (message : Value F) : Value F :=
  match message with
  | .dict items =>
    let sequence := Value.get (ascii "sequence") items
    let command := Value.get (ascii "command") items
    if command.isNone then
      .dict [(ascii "status", .str (ascii "error")),
        (ascii "error_code", .str (ascii "MISSING_COMMAND")),
        (ascii "sequence", sequence)]
    else if command.eqStr (ascii "status") then
      .dict [(ascii "status", .str (ascii "ok")),
        (ascii "state", .str (ascii "READY")),
        (ascii "sequence", sequence)]
    else
      .dict [(ascii "status", .str (ascii "error")),
        (ascii "error_code", .str (ascii "UNSUPPORTED_COMMAND")),
        (ascii "command", command),
        (ascii "sequence", sequence)]
  | _ =>
    .dict [(ascii "status", .str (ascii "error")),
      (ascii "error_code", .str (ascii "INVALID_MESSAGE_TYPE")),
      (ascii "message", .str (ascii "Request must be a JSON object"))]

/-- The answer to a line that is not decoded. -/
def invalidJson : Value F :=
  .dict [(ascii "status", .str (ascii "error")), (ascii "error_code", .str (ascii "INVALID_JSON"))]

/-- The response to one decoded line, as the handler picks it. -/
def respond (I : Interpreter F) (rawLine : Text) : Value F :=
  let (message, decoded) := decodeRequest I rawLine
  if decoded then buildResponse message else invalidJson

end Decoding

end Simulator
