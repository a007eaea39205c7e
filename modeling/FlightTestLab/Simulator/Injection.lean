import FlightTestLab.Library.Runs
import FlightTestLab.Simulator.Handler
import FlightTestLab.Simulator.Manifest

/-!
# The injected faults of the Python DUT

`resolve_fault_config` on the parsed command line, and what the configuration does over
the life of the process: the startup delay of `main` and the guards of the handlers, one
handler a connection. Any handler may take the next step.

## Main definitions

- `Simulator.Faults.resolveFaultConfig`: from the command line to the configuration
- `Simulator.Faults.step`: one step of `main` or of a handler
- `Simulator.Faults.Engages`: a fault is injected, and no other

## Main results

- `Simulator.Faults.run_handleLine`: the steps for one line are the body of the loop
- `Simulator.Faults.run_engages`: the faults of a run under a preset
- `Simulator.Faults.config_honoured`: manifests and command lines
-/

namespace Simulator.Faults

open Json (Text Tree ascii DigitsFit)
open Python (Value Error)

variable {F : Type}

/-- `FAULT_NAMES` -/
inductive Fault
  | delayedResponse
  | droppedConnection
  | malformedResponse
  | startupDelay
  | processTermination
  deriving DecidableEq, Repr

def Fault.name : Fault → Text
  | .delayedResponse => ascii "delayed_response"
  | .droppedConnection => ascii "dropped_connection"
  | .malformedResponse => ascii "malformed_response"
  | .startupDelay => ascii "startup_delay"
  | .processTermination => ascii "process_termination"

section Selection

/-- `DEFAULT_FAULT_DELAY_MS` -/
def defaultFaultDelayMs : Int := 400

/-- The fault options that `parse_args` found. -/
structure Args where
  fault : Option Fault
  faultDelayMs : Option Int
  faultConfig : Option ConfigFile

/-- The entry of `presets`. -/
def Fault.preset (delay : Int) : Fault → FaultConfig
  | .delayedResponse => { responseDelayMs := delay }
  | .droppedConnection => { dropConnection := true }
  | .malformedResponse => { malformedResponse := true }
  | .startupDelay => { startupDelayMs := delay }
  | .processTermination => { exitAfterRequests := some 1 }

/-- The two timing presets. -/
def Fault.isTiming : Fault → Bool
  | .delayedResponse | .startupDelay => true
  | _ => false

def resolveFaultConfig (H : Host F) (args : Args) : Except Raised FaultConfig :=
  match args.faultConfig with
  | some file =>
    if args.fault.isSome then
      refuse (ascii ("--fault and --fault-config both select the fault behaviour; " ++
        "pass only one so the command line describes the run"))
    else if args.faultDelayMs.isSome then
      refuse (ascii ("--fault-delay-ms is ignored when --fault-config is given: the " ++
        "manifest owns the fault settings. Put response_delay_ms in " ++
        "the file, or drop the flag, so the command line describes the run"))
    else loadFaultConfig H file
  | none =>
    let delay := args.faultDelayMs.getD defaultFaultDelayMs
    if delay < 0 then refuse (ascii "--fault-delay-ms must not be negative")
    else if delay > maxDelayMs then
      refuse (ascii "--fault-delay-ms must be at most " ++ Json.decimal maxDelayMs ++
        ascii " ms (24 hours); larger values overflow time.sleep()")
    else
      match args.fault with
      | none => .ok {}
      | some fault =>
        if fault.isTiming ∧ delay = 0 then
          refuse (ascii "--fault " ++ fault.name ++
            ascii (" needs a positive --fault-delay-ms " ++
              "(0 would disable the fault it requests)"))
        else .ok (fault.preset delay)

end Selection

section Process

/-- Where the handler of a connection stands. -/
inductive Point
  | absent
  | reading
  /-- With a line from `readline`. -/
  | measuring (line : List Nat)
  /-- At the guard of `exit_after_requests`, before and after the count. -/
  | counting
  | comparing (count : Nat)
  /-- At the guard of `drop_connection`. -/
  | dropping
  /-- At the guard of `response_delay_ms`. -/
  | delaying
  /-- At the guard of `malformed_response`. -/
  | answering
  | closed
  deriving DecidableEq, Repr

/-- The process. Connections are numbered. -/
structure Server where
  listening : Bool
  point : Nat → Point
  requestCount : Nat
  exited : Bool
  /-- The faults logged as `fault_injected`, the latest first. -/
  injected : List Fault
  /-- How many requests the handlers are done with. -/
  served : Nat

def Server.start : Server where
  listening := false
  point := fun _ => .absent
  requestCount := 0
  exited := false
  injected := []
  served := 0

inductive Event
  /-- `main` gets to `run_server`. -/
  | startup
  | accept (i : Nat)
  /-- A handler reads a line; an empty one is the end of the stream. -/
  | line (i : Nat) (line : List Nat)
  /-- It takes its next step; a write may fail. -/
  | handler (i : Nat) (writes : Bool)
  /-- The process ends for another reason. -/
  | stop
  deriving DecidableEq, Repr

namespace Server

def goto (s : Server) (i : Nat) (point : Point) : Server :=
  { s with point := Function.update s.point i point }

def inject (s : Server) (fault : Fault) : Server := { s with injected := fault :: s.injected }

/-- The end of a request. -/
def serve (s : Server) : Server := { s with served := s.served + 1 }

/-- The startup delay of `main`. -/
def startup (faults : FaultConfig) (s : Server) : Server :=
  let s := { s with listening := true }
  if faults.startupDelayMs > 0 then s.inject .startupDelay else s

/-- The next step of a handler. -/
def handle (faults : FaultConfig) (s : Server) (i : Nat) (writes : Bool) : Server :=
  match s.point i with
  | .absent | .reading | .closed => s
  | .measuring line =>
    if (line.rdropWhile isCrLf).length > maxLineBytes then s.goto i .closed
    else s.goto i .counting
  | .counting =>
    -- under `request_lock`
    if faults.exitAfterRequests.isSome then
      { s with requestCount := s.requestCount + 1 }.goto i (.comparing (s.requestCount + 1))
    else s.goto i .dropping
  | .comparing count =>
    -- `os._exit(1)`
    if faults.exitAfterRequests.any (· ≤ (count : Int)) then
      { s.serve.inject .processTermination with exited := true }
    else s.goto i .dropping
  | .dropping =>
    if faults.dropConnection then (s.serve.inject .droppedConnection).goto i .closed
    else s.goto i .delaying
  | .delaying =>
    if faults.responseDelayMs > 0 then (s.inject .delayedResponse).goto i .answering
    else s.goto i .answering
  | .answering =>
    let s := if faults.malformedResponse then s.serve.inject .malformedResponse else s.serve
    s.goto i (if writes then .reading else .closed)

end Server

def step (faults : FaultConfig) (s : Server) (e : Event) : Server :=
  if s.exited then s
  else
    match e with
    | .startup => if s.listening then s else s.startup faults
    | .accept i => if s.listening ∧ s.point i = .absent then s.goto i .reading else s
    | .line i line =>
      if s.point i = .reading then s.goto i (if line = [] then .closed else .measuring line) else s
    | .handler i writes => s.handle faults i writes
    | .stop => { s with exited := true }

def run (faults : FaultConfig) (es : List Event) : Server :=
  Runs.run (step faults) .start es

/-- The part of the run in which the fault shows has begun: the server listens, or a request
has been dealt with. -/
def Reached (s : Server) : Fault → Prop
  | .startupDelay => s.listening = true
  | _ => 0 < s.served

/-- The fault is the one injected, and it is injected once the run gets to it. -/
def Engages (fault : Fault) (s : Server) : Prop :=
  (∀ other ∈ s.injected, other = fault) ∧ (Reached s fault → fault ∈ s.injected)

end Process

section Points

variable (s : Server) (i j : Nat) (point : Point)

@[simp] theorem goto_point : (s.goto i point).point j = if j = i then point else s.point j :=
  Function.update_apply ..

theorem goto_point_self : (s.goto i point).point i = point := by rw [goto_point, if_pos rfl]

end Points

section Lines

/-- What the body of the loop looks at. -/
def FaultConfig.handled (faults : FaultConfig) : Simulator.FaultConfig where
  dropConnection := faults.dropConnection
  malformedResponse := faults.malformedResponse
  exitAfterRequests := faults.exitAfterRequests.map Int.toNat

variable (faults : FaultConfig) {s : Server} {i n : Nat}

/-- A handler that nobody interrupts, for so many steps. -/
def advance (i n : Nat) (s : Server) : Server :=
  Runs.run (step faults) s (List.replicate n (.handler i true))

/-- The handler is where the body of the loop leaves it, with these counts. -/
structure Left (i : Nat) (s : Server) (outcome : Served) (requestCount served : Nat) : Prop where
  exited : s.exited = true ↔ outcome = .exited
  cont : outcome = .cont → s.point i = .reading
  closed : outcome = .closed → s.point i = .closed
  requestCount : s.requestCount = requestCount
  served : s.served = served

theorem advance_succ (hup : s.exited = false) :
    advance faults i (n + 1) s = advance faults i n (s.handle faults i true) := by
  have hstep : step faults s (.handler i true) = s.handle faults i true :=
    if_neg (by rw [hup]; exact Bool.false_ne_true)
  rw [advance, List.replicate_succ, Runs.run_cons, hstep, advance]

/-- Where there is nothing more to do, nothing more is done. The lemmas after this one go
backwards from there, one point a lemma. -/
theorem advance_idle (h : s.exited = true ∨ s.point i = .reading ∨ s.point i = .closed) :
    advance faults i n s = s := by
  induction n with
  | zero => rfl
  | succ n ih =>
    by_cases hexited : s.exited = true
    · have hstep : step faults s (.handler i true) = s := if_pos hexited
      rw [advance, List.replicate_succ, Runs.run_cons, hstep]
      exact ih
    · have hidle : s.handle faults i true = s := by
        unfold Server.handle
        obtain h | h | h := h
        · exact absurd h hexited
        · rw [h]
        · rw [h]
      rw [advance_succ faults (Bool.eq_false_iff.mpr hexited), hidle, ih]

theorem left_closed (hup : s.exited = false) (hpoint : s.point i = .closed) :
    Left i (advance faults i n s) .closed s.requestCount s.served := by
  rw [advance_idle faults (.inr (.inr hpoint))]
  exact ⟨by simp [hup], (fun h => by cases h), fun _ => hpoint, rfl, rfl⟩

theorem left_answering (hup : s.exited = false) (hpoint : s.point i = .answering) :
    Left i (advance faults i (n + 1) s) .cont s.requestCount (s.served + 1) := by
  have hreading : (s.handle faults i true).point i = .reading := by
    simp [Server.handle, hpoint]
  have hsame : (s.handle faults i true).exited = false ∧
      (s.handle faults i true).requestCount = s.requestCount ∧
      (s.handle faults i true).served = s.served + 1 := by
    rw [Server.handle, hpoint]
    dsimp only
    split <;> exact ⟨hup, rfl, rfl⟩
  rw [advance_succ faults hup, advance_idle faults (.inr (.inl hreading))]
  exact ⟨by simp [hsame.1], fun _ => hreading, (fun h => by cases h), hsame.2.1, hsame.2.2⟩

theorem left_delaying (hup : s.exited = false) (hpoint : s.point i = .delaying) :
    Left i (advance faults i (n + 2) s) .cont s.requestCount (s.served + 1) := by
  have hanswering : (s.handle faults i true).point i = .answering := by
    rw [Server.handle, hpoint]
    dsimp only
    split <;> exact goto_point_self ..
  have hsame : (s.handle faults i true).exited = false ∧
      (s.handle faults i true).requestCount = s.requestCount ∧
      (s.handle faults i true).served = s.served := by
    rw [Server.handle, hpoint]
    dsimp only
    split <;> exact ⟨hup, rfl, rfl⟩
  rw [advance_succ faults hup, ← hsame.2.1, ← hsame.2.2]
  exact left_answering faults hsame.1 hanswering

theorem left_dropping (hup : s.exited = false) (hpoint : s.point i = .dropping) :
    Left i (advance faults i (n + 3) s) (if faults.dropConnection then .closed else .cont)
      s.requestCount (s.served + 1) := by
  rw [advance_succ faults hup, Server.handle, hpoint]
  dsimp only
  split
  · exact left_closed faults (s := (s.serve.inject .droppedConnection).goto i .closed) hup
      (goto_point_self ..)
  · exact left_delaying faults (s := s.goto i .delaying) hup (goto_point_self ..)

theorem left_comparing (hup : s.exited = false) {count : Nat} (hpoint : s.point i = .comparing count) :
    Left i (advance faults i (n + 4) s)
      (if faults.exitAfterRequests.any (· ≤ (count : Int)) then .exited
        else if faults.dropConnection then .closed else .cont)
      s.requestCount (s.served + 1) := by
  rw [advance_succ faults hup, Server.handle, hpoint]
  dsimp only
  split
  · rw [advance_idle faults (.inl rfl)]
    exact ⟨iff_of_true rfl rfl, (fun h => by cases h), (fun h => by cases h), rfl, rfl⟩
  · exact left_dropping faults (s := s.goto i .dropping) hup (goto_point_self ..)

theorem left_counting (hup : s.exited = false) (hpoint : s.point i = .counting) {count : Nat}
    (hcount : count = s.requestCount + if faults.exitAfterRequests.isSome then 1 else 0) :
    Left i (advance faults i (n + 5) s)
      (if faults.exitAfterRequests.any (· ≤ (count : Int)) then .exited
        else if faults.dropConnection then .closed else .cont)
      count (s.served + 1) := by
  rw [advance_succ faults hup, Server.handle, hpoint, hcount]
  dsimp only
  cases hexit : faults.exitAfterRequests with
  | none => exact left_dropping faults (s := s.goto i .dropping) hup (goto_point_self ..)
  | some limit =>
    let counted : Server := { s with requestCount := s.requestCount + 1 }
    have hleft := left_comparing faults (n := n) (i := i)
      (s := counted.goto i (.comparing (s.requestCount + 1))) hup (goto_point_self ..)
    rw [hexit] at hleft
    exact hleft

theorem any_handled (count : Nat) :
    faults.handled.exitAfterRequests.any (· ≤ count) =
      faults.exitAfterRequests.any (· ≤ (count : Int)) := by
  rw [FaultConfig.handled, Option.any_map]
  refine congrArg (faults.exitAfterRequests.any ·) (funext fun limit => ?_)
  show decide (limit.toNat ≤ count) = decide (limit ≤ (count : Int))
  rw [decide_eq_decide]
  omega

/-- How the body of the loop ends on a line within the bound. -/
theorem handleLine_short (I : Interpreter F) (handled : Simulator.FaultConfig) (session : Session)
    {line : List Nat} (hshort : ¬ (line.rdropWhile isCrLf).length > maxLineBytes) {count : Nat}
    (hcount : count = session.requestCount + if handled.exitAfterRequests.isSome then 1 else 0) :
    (handleLine I handled session line).1 =
      (if handled.exitAfterRequests.any (· ≤ count) then .exited
        else if handled.dropConnection then .closed else .cont) ∧
    (handleLine I handled session line).2.requestCount = count := by
  rw [handleLine, if_neg hshort, hcount]
  dsimp only
  split_ifs <;> exact ⟨rfl, rfl⟩

/-- The steps that a handler takes for one line are the body of the loop; with a line within
the bound it has dealt with a request. -/
theorem run_handleLine (I : Interpreter F) (hup : s.exited = false) (hreading : s.point i = .reading)
    {line : List Nat} (hline : line ≠ []) {session : Session}
    (hcount : session.requestCount = s.requestCount) :
    Left i (advance faults i 6 (step faults s (.line i line)))
      (handleLine I faults.handled session line).1
      (handleLine I faults.handled session line).2.requestCount
      (s.served + if (line.rdropWhile isCrLf).length > maxLineBytes then 0 else 1) := by
  have hread : step faults s (.line i line) = s.goto i (.measuring line) := by
    rw [step, if_neg (by rw [hup]; exact Bool.false_ne_true)]
    show (if s.point i = .reading then s.goto i (if line = [] then .closed else .measuring line)
      else s) = _
    rw [if_pos hreading, if_neg hline]
  rw [hread, advance_succ faults (s := s.goto i (.measuring line)) hup, Server.handle,
    goto_point_self]
  dsimp only
  by_cases hlong : (line.rdropWhile isCrLf).length > maxLineBytes
  -- answered and hung up on before any guard
  · rw [if_pos hlong, if_pos hlong, handleLine, if_pos hlong, hcount]
    exact left_closed faults (s := (s.goto i (.measuring line)).goto i .closed) hup
      (goto_point_self ..)
  · have hisSome : faults.handled.exitAfterRequests.isSome = faults.exitAfterRequests.isSome := by
      rw [FaultConfig.handled, Option.isSome_map]
    obtain ⟨hserved, hcounted⟩ := handleLine_short I faults.handled session hlong rfl
    rw [if_neg hlong, if_neg hlong, hserved, hcounted, any_handled, hisSome, hcount]
    exact left_counting faults (s := (s.goto i (.measuring line)).goto i .counting) hup
      (goto_point_self ..) rfl

end Lines

section Moves

/-- The configuration lets the guard of the fault through. -/
def Armed (faults : FaultConfig) : Fault → Prop
  | .delayedResponse => faults.responseDelayMs > 0
  | .droppedConnection => faults.dropConnection = true
  | .malformedResponse => faults.malformedResponse = true
  | .startupDelay => faults.startupDelayMs > 0
  | .processTermination => faults.exitAfterRequests.isSome = true

/-- The guards that a handler has come through on its way to a point. -/
def Point.passed : Point → List Fault
  | .dropping => [.processTermination]
  | .delaying => [.processTermination, .droppedConnection]
  | .answering => [.processTermination, .droppedConnection, .delayedResponse]
  | _ => []

/-- A point without a guard behind it or a count. -/
structure Point.Outside (point : Point) : Prop where
  passed : point.passed = []
  count : ∀ count, point ≠ .comparing count

/-- What a step does, and the guard that decided it. -/
inductive Moves (faults : FaultConfig) (s : Server) : Server → Prop
  | stay : Moves faults s s
  | stop : Moves faults s { s with exited := true }
  | delayed : Armed faults .startupDelay →
      Moves faults s ({ s with listening := true }.inject .startupDelay)
  | prompt : ¬ Armed faults .startupDelay → Moves faults s { s with listening := true }
  | accept {i : Nat} : s.listening = true → Moves faults s (s.goto i .reading)
  | outside {i : Nat} {point : Point} : s.point i ≠ .absent → point.Outside →
      Moves faults s (s.goto i point)
  | count {i : Nat} : s.point i ≠ .absent →
      Moves faults s ({ s with requestCount := s.requestCount + 1 }.goto i
        (.comparing (s.requestCount + 1)))
  | exit : Armed faults .processTermination →
      Moves faults s { s.serve.inject .processTermination with exited := true }
  | below {i count : Nat} : s.point i = .comparing count →
      (∀ n ∈ faults.exitAfterRequests, (count : Int) < n) → Moves faults s (s.goto i .dropping)
  /-- A guard that lets nothing through is behind the handler. -/
  | pass {i : Nat} {point : Point} (fault : Fault) : s.point i ≠ .absent → ¬ Armed faults fault →
      (∀ count, point ≠ .comparing count) → point.passed = (s.point i).passed ++ [fault] →
      Moves faults s (s.goto i point)
  | delay {i : Nat} : s.point i ≠ .absent → Armed faults .delayedResponse →
      Moves faults s ((s.inject .delayedResponse).goto i .answering)
  /-- A fault ends the request. -/
  | spoil {i : Nat} {point : Point} (fault : Fault) : s.point i ≠ .absent → Armed faults fault →
      point.Outside → Moves faults s ((s.serve.inject fault).goto i point)
  | answer {i : Nat} {point : Point} : s.point i = .answering → ¬ Armed faults .malformedResponse →
      point.Outside → Moves faults s (s.serve.goto i point)

variable {faults : FaultConfig} {s : Server}

theorem reading_outside : Point.reading.Outside := ⟨rfl, fun _ h => by cases h⟩

theorem closed_outside : Point.closed.Outside := ⟨rfl, fun _ h => by cases h⟩

theorem handle_moves (i : Nat) (writes : Bool) : Moves faults s (s.handle faults i writes) := by
  have hpresent {point : Point} (hpoint : s.point i = point) (h : point ≠ .absent) :
      s.point i ≠ .absent := hpoint ▸ h
  have hend : (if writes then Point.reading else .closed).Outside := by
    cases writes
    · exact closed_outside
    · exact reading_outside
  unfold Server.handle
  cases hpoint : s.point i with
  | absent | reading | closed => exact .stay
  | measuring line =>
    have hi := hpresent hpoint Point.noConfusion
    dsimp only
    split
    · exact .outside hi closed_outside
    · exact .outside hi ⟨rfl, fun _ h => by cases h⟩
  | counting =>
    have hi := hpresent hpoint Point.noConfusion
    dsimp only
    split
    · exact .count hi
    · next hexit => exact .pass .processTermination hi hexit (fun _ h => by cases h) (by rw [hpoint]; rfl)
  | comparing count =>
    dsimp only
    split
    · next hexit =>
      have harmed : Armed faults .processTermination := by
        obtain ⟨n, hn, -⟩ := (Option.any_eq_true _ _).mp hexit
        exact Option.isSome_iff_exists.mpr ⟨n, hn⟩
      exact .exit harmed
    · next hexit =>
      refine .below hpoint fun n hn => ?_
      by_contra hle
      exact hexit ((Option.any_eq_true _ _).mpr ⟨n, hn, decide_eq_true (by omega)⟩)
  | dropping =>
    have hi := hpresent hpoint Point.noConfusion
    dsimp only
    split
    · next hdrop => exact .spoil .droppedConnection hi hdrop closed_outside
    · next hdrop => exact .pass .droppedConnection hi hdrop (fun _ h => by cases h) (by rw [hpoint]; rfl)
  | delaying =>
    have hi := hpresent hpoint Point.noConfusion
    dsimp only
    split
    · next hdelay => exact .delay hi hdelay
    · next hdelay => exact .pass .delayedResponse hi hdelay (fun _ h => by cases h) (by rw [hpoint]; rfl)
  | answering =>
    have hi := hpresent hpoint Point.noConfusion
    dsimp only
    split
    · next hmalformed => exact .spoil .malformedResponse hi hmalformed hend
    · next hmalformed => exact .answer hpoint hmalformed hend

theorem step_moves (faults : FaultConfig) (s : Server) (e : Event) :
    Moves faults s (step faults s e) := by
  unfold step
  by_cases hexited : s.exited = true
  · rw [if_pos hexited]
    exact .stay
  rw [if_neg hexited]
  cases e with
  | startup =>
    dsimp only
    split
    · exact .stay
    · unfold Server.startup
      dsimp only
      split
      · next hdelay => exact .delayed hdelay
      · next hdelay => exact .prompt hdelay
  | accept i =>
    dsimp only
    split
    · next haccept => exact .accept haccept.1
    · exact .stay
  | line i line =>
    dsimp only
    split
    · next hreading =>
      refine .outside (by rw [hreading]; exact Point.noConfusion) ?_
      split
      · exact closed_outside
      · exact ⟨rfl, fun _ h => by cases h⟩
    · exact .stay
  | handler i writes => exact handle_moves i writes
  | stop => exact .stop

end Moves

section Armed

/-- What was injected is armed. -/
def OnlyArmed (faults : FaultConfig) (s : Server) : Prop := ∀ fault ∈ s.injected, Armed faults fault

variable {faults : FaultConfig}

theorem armed_default (fault : Fault) : ¬ Armed {} fault := by
  cases fault <;> simp [Armed]

theorem armed_preset_iff {fault : Fault} {delay : Int} (hdelay : fault.isTiming = true → 0 < delay)
    (other : Fault) : Armed (fault.preset delay) other ↔ other = fault := by
  cases fault <;> cases other <;> simp [Armed, Fault.preset, Fault.isTiming] at hdelay ⊢ <;>
    exact hdelay

theorem OnlyArmed.step {s : Server} (h : OnlyArmed faults s) (e : Event) :
    OnlyArmed faults (step faults s e) := by
  have hinject {fault : Fault} (harmed : Armed faults fault) :
      ∀ other ∈ fault :: s.injected, Armed faults other := List.forall_mem_cons.mpr ⟨harmed, h⟩
  have hmoves := step_moves faults s e
  generalize Faults.step faults s e = s' at hmoves ⊢
  cases hmoves with
  | delayed harmed | exit harmed => exact hinject harmed
  | delay _ harmed | spoil _ _ harmed _ => exact hinject harmed
  | stay | stop | prompt | accept | outside | count | below | pass | answer => exact h

/-- A run injects what the configuration arms. -/
theorem run_onlyArmed (es : List Event) : OnlyArmed faults (run faults es) := by
  have hstart : OnlyArmed faults .start := by
    intro fault hfault
    cases hfault
  exact Runs.run_invariant hstart (fun _ e h => h.step e) es

end Armed

section Engaging

/-- A configuration for one fault; the process ends at the first request or not at all. -/
structure Selects (faults : FaultConfig) (fault : Fault) : Prop where
  armed : ∀ other, Armed faults other ↔ other = fault
  first : ∀ n ∈ faults.exitAfterRequests, n ≤ 1

/-- The fault is injected wherever its guard lies behind. -/
structure Engaging (fault : Fault) (s : Server) : Prop where
  listening : s.listening = true → fault = .startupDelay → fault ∈ s.injected
  present : ∀ i, s.point i ≠ .absent → s.listening = true
  counted : ∀ i count, s.point i = .comparing count → 1 ≤ count
  passed : ∀ i, fault ∈ (s.point i).passed → fault ∈ s.injected
  served : 0 < s.served → fault ∈ s.injected

variable {faults : FaultConfig} {fault : Fault} {s : Server}

theorem engaging_start : Engaging fault .start where
  listening h := by cases h
  present i h := absurd rfl h
  counted i count h := by cases h
  passed i h := by cases h
  served h := by cases h

/-- A handler goes to a point once the server listens. -/
theorem Engaging.goto (h : Engaging fault s) {i : Nat} {point : Point} (hup : s.listening = true)
    (hcounted : ∀ count, point = .comparing count → 1 ≤ count)
    (hpassed : fault ∈ point.passed → fault ∈ s.injected) : Engaging fault (s.goto i point) where
  listening := h.listening
  present _ _ := hup
  counted j count := by
    rw [goto_point]
    split
    · exact hcounted count
    · exact h.counted j count
  passed j := by
    rw [goto_point]
    split
    · exact hpassed
    · exact h.passed j
  served := h.served

theorem Engaging.leave (h : Engaging fault s) {i : Nat} {point : Point} (hup : s.listening = true)
    (hpoint : point.Outside) : Engaging fault (s.goto i point) := by
  refine h.goto hup (fun count heq => absurd heq (hpoint.count count)) ?_
  rw [hpoint.passed]
  intro hmem
  cases hmem

theorem Engaging.inject (h : Engaging fault s) (other : Fault) :
    Engaging fault (s.inject other) where
  listening hl hf := List.mem_cons_of_mem _ (h.listening hl hf)
  present := h.present
  counted := h.counted
  passed i hp := List.mem_cons_of_mem _ (h.passed i hp)
  served hs := List.mem_cons_of_mem _ (h.served hs)

theorem Engaging.serve (h : Engaging fault s) (hinjected : fault ∈ s.injected) :
    Engaging fault s.serve where
  listening := h.listening
  present := h.present
  counted := h.counted
  passed := h.passed
  served _ := hinjected

theorem Engaging.step (hfault : Selects faults fault) (h : Engaging fault s) (e : Event) :
    Engaging fault (step faults s e) := by
  -- a guard that injects is the guard of the fault, and one that lets nothing through is not
  have hinjected {other : Fault} (harmed : Armed faults other) : fault ∈ (s.inject other).injected := by
    rw [(hfault.armed other).mp harmed]
    exact List.mem_cons_self
  have hpast {other : Fault} (hunarmed : ¬ Armed faults other) : fault ≠ other := by
    rintro rfl
    exact hunarmed ((hfault.armed fault).mpr rfl)
  have hmoves := step_moves faults s e
  generalize Faults.step faults s e = s' at hmoves ⊢
  cases hmoves with
  | stay => exact h
  | stop => exact { h with }
  | delayed harmed =>
    exact ⟨fun _ _ => hinjected harmed, fun _ _ => rfl, h.counted, fun _ _ => hinjected harmed,
      fun _ => hinjected harmed⟩
  | prompt hunarmed =>
    exact ⟨fun _ heq => absurd heq (hpast hunarmed), fun _ _ => rfl, h.counted, h.passed, h.served⟩
  | accept hup => exact h.leave hup reading_outside
  | @outside i _ hi hpoint => exact h.leave (h.present i hi) hpoint
  | @count i hi =>
    have hcount : Engaging fault { s with requestCount := s.requestCount + 1 } := { h with }
    refine hcount.goto (h.present i hi) ?_ (fun hmem => by cases hmem)
    rintro count ⟨⟩
    exact Nat.succ_pos _
  | exit harmed =>
    have hdone := (h.inject .processTermination).serve (hinjected harmed)
    exact { hdone with }
  | @below i count hpoint hbelow =>
    have hup := h.present i (by rw [hpoint]; exact Point.noConfusion)
    -- an armed count has been reached by the first request
    have hunarmed : ¬ Armed faults .processTermination := by
      intro harmed
      obtain ⟨n, hn⟩ := Option.isSome_iff_exists.mp harmed
      have hfirst := hfault.first n hn
      have hlt := hbelow n hn
      have hcounted := h.counted i count hpoint
      omega
    refine h.goto hup (fun _ heq => by cases heq) fun hmem => ?_
    exact absurd (List.mem_singleton.mp hmem) (hpast hunarmed)
  | @pass i point other hi hunarmed hcount hpassed =>
    refine h.goto (h.present i hi) (fun count heq => absurd heq (hcount count)) fun hmem => ?_
    rw [hpassed, List.mem_append] at hmem
    obtain hmem | hmem := hmem
    · exact h.passed i hmem
    · exact absurd (List.mem_singleton.mp hmem) (hpast hunarmed)
  | @delay i hi harmed =>
    exact (h.inject _).goto (h.present i hi) (fun _ heq => by cases heq) fun _ => hinjected harmed
  | @spoil i point other hi harmed hpoint =>
    exact ((h.inject other).serve (hinjected harmed)).leave (h.present i hi) hpoint
  | @answer i point hi hunarmed hpoint =>
    have hup := h.present i (by rw [hi]; exact Point.noConfusion)
    refine (h.serve ?_).leave hup hpoint
    -- what is neither the last guard nor behind it is the startup delay
    have hpassed := h.passed i
    rw [hi] at hpassed
    cases fault with
    | startupDelay => exact h.listening hup rfl
    | malformedResponse => exact absurd rfl (hpast hunarmed)
    | _ => exact hpassed (by decide)

/-- Under a configuration for one fault, every run injects that one and no other. -/
theorem run_engages (hfault : Selects faults fault) (es : List Event) :
    Engages fault (run faults es) := by
  have hrun : Engaging fault (run faults es) := by
    refine Runs.run_invariant engaging_start ?_ es
    intro s e h
    exact h.step hfault e
  refine ⟨fun other hother => (hfault.armed other).mp (run_onlyArmed es other hother), ?_⟩
  intro hreached
  by_cases hstartup : fault = .startupDelay
  · subst hstartup
    exact hrun.listening hreached rfl
  · refine hrun.served ?_
    cases fault with
    | startupDelay => exact absurd rfl hstartup
    | _ => exact hreached

theorem selects_preset {delay : Int} (hdelay : fault.isTiming = true → 0 < delay) :
    Selects (fault.preset delay) fault where
  armed := armed_preset_iff hdelay
  first n hn := by
    cases fault <;> cases hn
    exact Int.le_refl 1

end Engaging

section Options

variable {H : Host F} {args : Args} {config : FaultConfig}

theorem resolveFaultConfig_of_file {file : ConfigFile} (hfile : args.faultConfig = some file) :
    resolveFaultConfig H args = .ok config ↔
      args.fault = none ∧ args.faultDelayMs = none ∧ loadFaultConfig H file = .ok config := by
  rw [resolveFaultConfig, hfile]
  dsimp only
  cases args.fault with
  | some fault => simp [refuse]
  | none =>
    cases args.faultDelayMs with
    | some delay => simp [refuse]
    | none => simp

/-- The delay of the presets. -/
def Args.delay (args : Args) : Int := args.faultDelayMs.getD defaultFaultDelayMs

theorem resolveFaultConfig_of_options (hfile : args.faultConfig = none) :
    resolveFaultConfig H args = .ok config ↔
      0 ≤ args.delay ∧ args.delay ≤ maxDelayMs ∧
      (∀ fault ∈ args.fault, fault.isTiming = true → 0 < args.delay) ∧
      config = args.fault.elim {} (Fault.preset args.delay) := by
  have hdelay : args.faultDelayMs.getD defaultFaultDelayMs = args.delay := rfl
  rw [resolveFaultConfig, hfile]
  dsimp only
  rw [hdelay]
  split_ifs with hneg hlarge
  · refine iff_of_false (fun h => by cases h) ?_
    rintro ⟨hpos, -⟩
    omega
  · refine iff_of_false (fun h => by cases h) ?_
    rintro ⟨-, hle, -⟩
    omega
  rw [and_iff_right (by omega), and_iff_right (by omega)]
  cases args.fault with
  | none =>
    rw [and_iff_right (fun _ h => by cases h), Except.ok.injEq, eq_comm]
    rfl
  | some fault =>
    dsimp only
    split_ifs with hzero
    · refine iff_of_false (fun h => by cases h) ?_
      rintro ⟨htiming, -⟩
      have := htiming fault rfl hzero.1
      omega
    · have htiming : ∀ other ∈ some fault, other.isTiming = true → 0 < args.delay := by
        rintro _ ⟨⟩ hother
        by_contra hle
        exact hzero ⟨hother, by omega⟩
      rw [and_iff_right htiming, Except.ok.injEq, eq_comm]
      rfl

theorem exits_resolveFaultConfig (hprints : H.Prints) (args : Args) :
    Exits (resolveFaultConfig H args) := by
  unfold resolveFaultConfig
  dsimp only
  split
  · split_ifs
    · exact exits_refuse _
    · exact exits_refuse _
    · exact exits_loadFaultConfig hprints _
  · split_ifs
    · exact exits_refuse _
    · exact exits_refuse _
    · split
      · exact Except.raisesOnly_ok _ _
      · split_ifs
        · exact exits_refuse _
        · exact Except.raisesOnly_ok _ _

/-- A manifest is loaded when it is one unambiguous object with the known keys and with values
in range, as just those values, and ends the program with a message otherwise. A command line
that is not refused gets the fault that it names and no other; without a manifest, one that
names none gets none. -/
theorem config_honoured (H : Host F) (hflat : ∀ t : Tree, t.depth ≤ 2 → H.overflows t = false)
    (hprints : H.Prints) :
    (∀ file,
      (∀ config, loadFaultConfig H file = .ok config ↔
        ∃ ms, file.Holds (.obj ms) ∧ Unambiguous (.obj ms) ∧
          DigitsFit maxIntDigits (Tree.obj ms).intTokens ∧ Describes ms config) ∧
      ∀ e, loadFaultConfig H file = .error e → ∃ message, e = .systemExit message) ∧
    ∀ args,
      (∃ message, resolveFaultConfig H args = .error (.systemExit message)) ∨
      ∃ config, resolveFaultConfig H args = .ok config ∧
        (∀ fault, args.fault = some fault → ∀ es, Engages fault (run config es)) ∧
        (args.fault = none → args.faultConfig = none → ∀ es, (run config es).injected = []) := by
  refine ⟨fun file => ⟨fun config => loadFaultConfig_eq_ok_iff hflat file,
    exits_loadFaultConfig hprints file⟩, fun args => ?_⟩
  cases hresolve : resolveFaultConfig H args with
  | error e =>
    obtain ⟨message, rfl⟩ := exits_resolveFaultConfig hprints args e hresolve
    exact .inl ⟨message, rfl⟩
  | ok config =>
    refine .inr ⟨config, rfl, ?_, ?_⟩
    · intro fault hfault es
      -- a manifest beside a fault is refused
      have hfile : args.faultConfig = none := by
        cases hfile : args.faultConfig with
        | none => rfl
        | some file =>
          have hnone := ((resolveFaultConfig_of_file hfile).mp hresolve).1
          rw [hfault] at hnone
          cases hnone
      obtain ⟨-, -, htiming, hconfig⟩ := (resolveFaultConfig_of_options hfile).mp hresolve
      rw [hfault, Option.elim_some] at hconfig
      rw [hconfig]
      exact run_engages (selects_preset (htiming fault hfault)) es
    · intro hfault hfile es
      obtain ⟨-, -, -, hconfig⟩ := (resolveFaultConfig_of_options hfile).mp hresolve
      rw [hfault, Option.elim_none] at hconfig
      rw [hconfig, List.eq_nil_iff_forall_not_mem]
      intro fault hinjected
      exact armed_default fault (run_onlyArmed es fault hinjected)

/-- A host that writes a value as JSON does. -/
def sampleHost : Host Text where
  floats := .tokens
  overflows t := 300 < t.depth
  repr value := some (Python.dumps .tokens value)
  reprStr := Python.encodeString
  explain _ _ := ascii "invalid"

def sampleFile : ConfigFile where
  path := ascii "faults.json"
  content := some (ascii "\x7b\"drop_connection\": true, \"response_delay_ms\": null\x7d")

theorem config_honoured_sample :
    (∃ ms, sampleFile.Holds (.obj ms) ∧ Unambiguous (.obj ms) ∧
      DigitsFit maxIntDigits (Tree.obj ms).intTokens ∧
      Describes ms { dropConnection := true }) ∧
    ∃ config, resolveFaultConfig sampleHost ⟨some .startupDelay, some 250, none⟩ = .ok config ∧
      ∀ es, Engages .startupDelay (run config es) := by
  have hflat (t : Tree) (h : t.depth ≤ 2) : sampleHost.overflows t = false :=
    decide_eq_false (by omega)
  have hprints : sampleHost.Prints := fun _ _ _ _ _ => rfl
  obtain ⟨hload, hresolve⟩ := config_honoured sampleHost hflat hprints
  refine ⟨((hload sampleFile).1 _).mp (by decide +kernel), ?_⟩
  obtain ⟨message, hrefused⟩ | ⟨config, hconfig, hengages, -⟩ :=
    hresolve ⟨some .startupDelay, some 250, none⟩
  · cases hrefused
  · exact ⟨config, hconfig, hengages .startupDelay rfl⟩

end Options

end Simulator.Faults
