import FlightTestLab.Library.Framing
import FlightTestLab.Library.Utf8
import FlightTestLab.Simulator.Request

/-!
# The handler of the Python DUT

`DutRequestHandler.handle` on the bytes of one connection: bounded `readline`, the
length check on the stripped line, decoding, the configured faults and the answer.

## Main definitions

- `Simulator.readline`: one bounded read
- `Simulator.handleLine`: the body of the loop
- `Simulator.handle`: the loop
- `Simulator.requests`: what the loop hands to decoding, without its other effects

## Main results

- `Simulator.handle_events`: a handler without faults decodes exactly those
-/

namespace Simulator

open Json (Text ascii)

variable {F : Type}

/-- `MAX_LINE_BYTES` -/
def maxLineBytes : Nat := 1048576

/-- The faults the handler looks at; a delay changes nothing it writes. -/
structure FaultConfig where
  dropConnection : Bool := false
  malformedResponse : Bool := false
  exitAfterRequests : Option Nat := none

/-- What was written to the client and handed to decoding, and the server's counter. -/
structure Session where
  written : List (List Nat)
  events : List (Framing.Event Text)
  requestCount : Nat

def Session.start : Session where
  written := []
  events := []
  requestCount := 0

/-- What to do after one line. -/
inductive Served
  | cont
  | closed
  | exited
  deriving DecidableEq, Repr

/-- The characters of `rstrip("\r\n")`. -/
def isCrLf (c : Nat) : Bool := c == 0x0D || c == 0x0A

/-- `readline(limit)`: the line read and what is left of the stream. -/
def readline (limit : Nat) (stream : List Nat) : List Nat × List Nat :=
  let size := min limit (stream.findIdx (· == 0x0A) + 1)
  (stream.take size, stream.drop size)

/-- One JSON answer with its newline, encoded. -/
def payload (I : Interpreter F) (response : Python.Value F) : List Nat :=
  Utf8.encodeAll (Python.dumps I.floats response ++ [0x0A])

def handleLine (I : Interpreter F) (faults : FaultConfig) (s : Session) (line : List Nat) :
    Served × Session :=
  if (line.rdropWhile isCrLf).length > maxLineBytes then
    (.closed, { s with
      written := s.written ++ [payload I invalidJson], events := s.events ++ [.tooLong] })
  else
    let rawLine := (Utf8.decodeReplace line).rdropWhile isCrLf
    let s := { s with
      requestCount := s.requestCount + if faults.exitAfterRequests.isSome then 1 else 0 }
    if faults.exitAfterRequests.any (· ≤ s.requestCount) then (.exited, s)
    else if faults.dropConnection then (.closed, s)
    else
      let response := respond I rawLine
      let s := { s with events := s.events ++ [Framing.Event.request rawLine] }
      if faults.malformedResponse then
        (.cont, { s with written := s.written ++ [ascii "this-is-not-json\n"] })
      else (.cont, { s with written := s.written ++ [payload I response] })

/-- The loop of `DutRequestHandler.handle` on what the client sends before it half-closes. -/
def handle (I : Interpreter F) (faults : FaultConfig) (s : Session) (stream : List Nat) :
    Served × Session :=
  let read := readline (maxLineBytes + 2) stream
  if _h : read.1 = [] then (.closed, s)
  else
    match handleLine I faults s read.1 with
    | (.cont, s) => handle I faults s read.2
    | stopped => stopped
termination_by stream.length
decreasing_by
  obtain _ | ⟨c, stream⟩ := stream
  · exact absurd rfl _h
  · simp only [readline, List.length_drop, List.length_cons]
    omega

section Requests

/-- What is left of the stream after a nonempty read is shorter. -/
theorem length_readline_lt {stream : List Nat} (h : stream ≠ []) (limit : Nat) :
    (readline (limit + 2) stream).2.length < stream.length := by
  have := List.length_pos_iff.mpr h
  simp only [readline, List.length_drop]
  omega

/-- The requests taken from a stream, in order, up to an over-long line. -/
def requests (stream : List Nat) : List (Framing.Event Text) :=
  if _h : stream = [] then []
  else
    let read := readline (maxLineBytes + 2) stream
    if (read.1.rdropWhile isCrLf).length > maxLineBytes then [.tooLong]
    else .request (Utf8.decodeReplace (read.1.rdropWhile isCrLf)) :: requests read.2
termination_by stream.length
decreasing_by exact length_readline_lt _h maxLineBytes

theorem isCrLf_ascii (c : Nat) (h : isCrLf c = true) : c < 0x80 := by
  simp only [isCrLf, Bool.or_eq_true, beq_iff_eq] at h
  omega

theorem readline_ne_nil {stream : List Nat} (h : stream ≠ []) (limit : Nat) :
    (readline (limit + 2) stream).1 ≠ [] := by
  have := List.length_pos_iff.mpr h
  apply List.ne_nil_of_length_pos
  simp only [readline, List.length_take]
  omega

theorem handleLine_faultless (I : Interpreter F) (s : Session) (line : List Nat) :
    handleLine I {} s line =
      if (line.rdropWhile isCrLf).length > maxLineBytes then
        (.closed, { s with
          written := s.written ++ [payload I invalidJson], events := s.events ++ [.tooLong] })
      else
        let rawLine := Utf8.decodeReplace (line.rdropWhile isCrLf)
        (.cont, { s with
          written := s.written ++ [payload I (respond I rawLine)],
          events := s.events ++ [Framing.Event.request rawLine] }) := by
  unfold handleLine
  rw [Utf8.rdropWhile_decodeReplace isCrLf_ascii]
  rfl

/-- A handler without faults decodes the requests of the stream. -/
theorem handle_events (I : Interpreter F) (s : Session) (stream : List Nat) :
    (handle I {} s stream).2.events = s.events ++ requests stream := by
  induction hn : stream.length using Nat.strongRecOn generalizing s stream with
  | ind n ih =>
    rw [handle, requests]
    by_cases hnil : stream = []
    · subst hnil
      have hread : (readline (maxLineBytes + 2) []).1 = [] := by simp [readline]
      rw [dif_pos hread, dif_pos rfl, List.append_nil]
    · have hread := readline_ne_nil hnil maxLineBytes
      have hlt := length_readline_lt hnil maxLineBytes
      rw [dif_neg hread, dif_neg hnil, handleLine_faultless]
      dsimp only
      by_cases hlong : ((readline (maxLineBytes + 2) stream).1.rdropWhile isCrLf).length >
          maxLineBytes
      · rw [if_pos hlong, if_pos hlong]
      · rw [if_neg hlong, if_neg hlong]
        dsimp only
        rw [ih _ (by omega) _ _ rfl, List.append_assoc]
        rfl

end Requests

end Simulator
