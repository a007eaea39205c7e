import FlightTestLab.Library.Framing
import FlightTestLab.Cpp.Protocol

/-!
# One connection of the native DUT

`handle_line` and the loop of `handle_connection` as a state machine that takes one
`recv` result at a time. The socket, the configured fault and the outcome of each
`send_all` come from outside.

## Main definitions

- `Cpp.handleLine`: one request line
- `Cpp.drain`: the loop that extracts lines from the buffer
- `Cpp.step`: one round of the receive loop
- `Cpp.handleConnection`: a whole connection
-/

namespace Cpp

open Json (ascii)

variable {D : Type}

def kMaxLineBytes : Nat := 1048576

inductive Fault
  | none
  | crash
  | badAccess
  | hang
  | slow
  deriving DecidableEq, Repr

structure ServerOptions where
  fault : Fault
  faultAfter : Int32

/-- What a connection handler runs on. -/
structure Server (D : Type) where
  doubles : NativeDouble D
  options : ServerOptions
  /-- whether `send_all` of a payload succeeds after the payloads sent so far -/
  sends : List Bytes → Bytes → Bool

/-- The payloads sent, the frames taken and the request counter. -/
structure Log where
  sent : List Bytes
  events : List (Framing.Event Bytes)
  requestCount : Int32

/-- What to do after one frame; a fault may leave the thread doing nothing more. -/
inductive Next
  | cont
  | stop
  | dead
  deriving DecidableEq, Repr

/-- `maybe_inject_fault`: the fault that fires on this request. -/
def maybeInjectFault (options : ServerOptions) (requestNumber : Int32) : Option Fault :=
  if options.fault = .none ∨ requestNumber ≠ options.faultAfter then none else some options.fault

def sendAll (S : Server D) (log : Log) (payload : Bytes) : Bool × Log :=
  if S.sends log.sent payload then (true, { log with sent := log.sent ++ [payload] })
  else (false, log)

/-- The `INVALID_JSON` answer with its newline. -/
def invalidJsonLine : Bytes := ascii "\x7b\"error_code\": \"INVALID_JSON\", \"status\": \"error\"\x7d\n"

/-- `while (!line.empty() && line.back() == '\r') line.pop_back();` -/
def stripCr (line : Bytes) : Bytes := line.rdropWhile (· == 0x0D)

/-- The answer to an over-long frame; the outcome of the send is not looked at. -/
def refuse (S : Server D) (log : Log) : Log :=
  { (sendAll S log invalidJsonLine).2 with events := log.events ++ [.tooLong] }

def handleLine (S : Server D) (log : Log) (line : Bytes) : Next × Log :=
  let line := stripCr line
  if line.length > kMaxLineBytes then (.stop, refuse S log)
  else
    let requestNumber := log.requestCount + 1
    let log := { log with requestCount := requestNumber }
    let answer :=
      let response := dumpValue S.doubles (handleRequestLine S.doubles line)
      let log := { log with events := log.events ++ [.request line] }
      let (ok, log) := sendAll S log (response ++ [0x0A])
      (if ok then Next.cont else Next.stop, log)
    match maybeInjectFault S.options requestNumber with
    | none | some .none | some .slow => answer
    | some .crash | some .badAccess | some .hang => (.dead, log)

/-- The extraction loop: what is left of the buffer, and whether to go on. -/
def drain (S : Server D) (log : Log) (buffer : Bytes) : Next × Log × Bytes :=
  let newline := buffer.findIdx (· == 0x0A)
  if _h : newline < buffer.length then
    let line := buffer.take newline
    let buffer := buffer.drop (newline + 1)
    match handleLine S log line with
    | (.cont, log) => drain S log buffer
    | (next, log) => (next, log, buffer)
  else (.cont, log, buffer)
termination_by buffer.length
decreasing_by
  simp only [List.length_drop]
  omega

/-- The round of the loop after `recv` delivered a chunk. -/
def receive (S : Server D) (log : Log) (buffer chunk : Bytes) : Next × Log × Bytes :=
  match drain S log (buffer ++ chunk) with
  | (.cont, log, buffer) =>
    let pending := (stripCr buffer).length
    if pending > kMaxLineBytes then (.stop, refuse S log, buffer) else (.cont, log, buffer)
  | stopped => stopped

/-- A result of `recv`. -/
inductive Recv
  | data (chunk : Bytes)
  | closed
  | failed

/-- A connection between two calls of `recv`; not `cont` means the function has returned. -/
structure Connection where
  next : Next
  log : Log
  buffer : Bytes

def step (S : Server D) (c : Connection) (received : Recv) : Connection :=
  match c.next with
  | .cont =>
    match received with
    | .data chunk =>
      let (next, log, buffer) := receive S c.log c.buffer chunk
      { next := next, log := log, buffer := buffer }
    | .closed =>
      if c.buffer = [] then { c with next := .stop }
      else
        match handleLine S c.log c.buffer with
        | (.dead, log) => { c with next := .dead, log := log }
        | (_, log) => { c with next := .stop, log := log }
    | .failed => { c with next := .stop }
  | _ => c

def accepted : Connection where
  next := .cont
  log := { sent := [], events := [], requestCount := 0 }
  buffer := []

/-- The connection after some results of `recv`. -/
def handleConnection (S : Server D) (received : List Recv) : Connection :=
  received.foldl (step S) accepted

section Lines

theorem stripCr_le_iff (r : Bytes) (k : Nat) :
    (stripCr r).length ≤ k ↔ ∀ c ∈ r.drop k, c = 0x0D := by
  rw [stripCr, Framing.length_rdropWhile_le_iff]
  simp

theorem stripCr_append_le (f g : Bytes) : (stripCr f).length ≤ (stripCr (f ++ g)).length :=
  Framing.length_rdropWhile_append f g

/-- The lines of a buffer handled in order, up to the first that stops the connection. -/
def serve (S : Server D) (log : Log) : List Bytes → Next × Log
  | [] => (.cont, log)
  | line :: rest =>
    match handleLine S log line with
    | (.cont, log) => serve S log rest
    | stopped => stopped

theorem serve_append (S : Server D) (log : Log) (ls ms : List Bytes) :
    serve S log (ls ++ ms) =
      match serve S log ls with
      | (.cont, log) => serve S log ms
      | stopped => stopped := by
  induction ls generalizing log with
  | nil => rfl
  | cons l ls ih =>
    rw [List.cons_append, serve, serve]
    obtain ⟨_ | _ | _, log'⟩ := handleLine S log l
    · exact ih log'
    · rfl
    · rfl

theorem drain_of_not_mem (S : Server D) (log : Log) {buffer : Bytes} (h : 0x0A ∉ buffer) :
    drain S log buffer = (.cont, log, buffer) := by
  have hidx : ¬ buffer.findIdx (· == 0x0A) < buffer.length := by
    rw [List.findIdx_lt_length]
    rintro ⟨c, hc, he⟩
    rw [beq_iff_eq] at he
    exact h (he ▸ hc)
  rw [drain, dif_neg hidx]

theorem drain_append (S : Server D) (log : Log) {line : Bytes} (h : 0x0A ∉ line) (s : Bytes) :
    drain S log (line ++ 0x0A :: s) =
      match handleLine S log line with
      | (.cont, log) => drain S log s
      | (next, log) => (next, log, s) := by
  have hidx : (line ++ 0x0A :: s).findIdx (· == 0x0A) = line.length := by
    rw [List.findIdx_append, List.findIdx_eq_length.mpr]
    · simp [List.findIdx_cons]
    · intro c hc
      simpa using fun he : c = 0x0A => h (he ▸ hc)
  have hlt : (line ++ 0x0A :: s).findIdx (· == 0x0A) < (line ++ 0x0A :: s).length := by
    rw [hidx, List.length_append, List.length_cons]
    omega
  rw [drain, dif_pos hlt, hidx, List.take_left, List.drop_append, List.drop_eq_nil_of_le (by omega),
    Nat.add_sub_cancel_left, List.nil_append, List.drop_one, List.tail_cons]

/-- The bodies of the terminated lines of a stream. -/
def wholeFrames (s : Bytes) : List Bytes := (Framing.whole 0x0A s).map (Framing.body 0x0A)

/-- The newline-separated frames of a stream; a nonempty unterminated rest is one. -/
def frames (s : Bytes) : List Bytes := (Framing.lines 0x0A s).map (Framing.body 0x0A)

theorem wholeFrames_append (s t : Bytes) :
    wholeFrames (s ++ t) = wholeFrames s ++ wholeFrames (Framing.rest 0x0A s ++ t) := by
  rw [wholeFrames, Framing.whole_append, List.map_append]
  rfl

theorem frames_eq (s : Bytes) :
    frames s = wholeFrames s ++
      if Framing.rest 0x0A s = [] then [] else [Framing.rest 0x0A s] := by
  rw [frames, Framing.lines, List.map_append, wholeFrames]
  congr 1
  split
  · rfl
  · rw [List.map_singleton, Framing.body_of_not_mem (Framing.not_mem_rest s)]

/-- Draining handles the terminated lines and leaves the rest. -/
theorem drain_eq (S : Server D) (log : Log) (buffer : Bytes) :
    (drain S log buffer).1 = (serve S log (wholeFrames buffer)).1 ∧
      (drain S log buffer).2.1 = (serve S log (wholeFrames buffer)).2 ∧
      ((drain S log buffer).1 = .cont → (drain S log buffer).2.2 = Framing.rest 0x0A buffer) := by
  induction buffer using Framing.stream_induction 0x0A generalizing log with
  | last s h =>
    rw [drain_of_not_mem S log h, wholeFrames, Framing.whole_of_not_mem h,
      Framing.rest_of_not_mem h]
    exact ⟨rfl, rfl, fun _ => rfl⟩
  | line f s h ih =>
    rw [drain_append S log h, wholeFrames, Framing.whole_append_sep h, Framing.rest_append_sep h,
      List.map_cons, Framing.body_terminated h, serve]
    obtain ⟨_ | _ | _, log'⟩ := handleLine S log f
    · exact ih log'
    · exact ⟨rfl, rfl, nofun⟩
    · exact ⟨rfl, rfl, nofun⟩

end Lines

end Cpp
