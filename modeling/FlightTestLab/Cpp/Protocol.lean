import FlightTestLab.Cpp.Parser

/-!
# The protocol of the native DUT

`build_response` and `handle_request_line`.
-/

namespace Cpp

open Json (ascii)

variable {D : Type}

/-- `sequence_of`: an absent key and a null are the same. -/
def sequenceOf (request : Value D) : Value D := (request.find (ascii "sequence")).getD .null

namespace Value

def isObject : Value D → Bool
  | .object _ => true
  | _ => false

/-- `is_string() && as_string() == text` -/
def isText (text : Bytes) : Value D → Bool
  | .string s => s == text
  | _ => false

end Value

def buildResponse (request : Value D) : Value D :=
  if !request.isObject then
    .object [(ascii "status", .string (ascii "error")),
      (ascii "error_code", .string (ascii "INVALID_MESSAGE_TYPE")),
      (ascii "message", .string (ascii "Request must be a JSON object"))]
  else
    let missing : Value D :=
      .object [(ascii "status", .string (ascii "error")),
        (ascii "error_code", .string (ascii "MISSING_COMMAND")),
        (ascii "sequence", sequenceOf request)]
    match request.find (ascii "command") with
    | none => missing
    | some command =>
      if command.isNull then missing
      else if command.isText (ascii "status") then
        .object [(ascii "status", .string (ascii "ok")),
          (ascii "state", .string (ascii "READY")),
          (ascii "sequence", sequenceOf request)]
      else
        .object [(ascii "status", .string (ascii "error")),
          (ascii "error_code", .string (ascii "UNSUPPORTED_COMMAND")),
          (ascii "command", command),
          (ascii "sequence", sequenceOf request)]

def handleRequestLine (N : NativeDouble D) (line : Bytes) : Value D :=
  match parse N line with
  | none =>
    .object [(ascii "status", .string (ascii "error")),
      (ascii "error_code", .string (ascii "INVALID_JSON"))]
  | some request => buildResponse request

end Cpp
