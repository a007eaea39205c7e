import FlightTestLab.Learning.Handlers
import FlightTestLab.Library.Except
import FlightTestLab.Python.Equality

/-!
# The probe of a running DUT

`behavior_probe`: the steps of a lesson on one connection to a DUT, what is compared with the
responses, and the verdict. The DUT and the socket are given by what becomes of each step.

## Main definitions

- `Checks.Probe.runSteps`: `_run_steps`, on the steps with what becomes of each
- `Checks.Probe.faced`: what becomes of the steps, after a read has timed out
- `Checks.Probe.run`: the check
- `Checks.Probe.Meets`: what becomes of a step is what it asks for

## Main results

- `Checks.Probe.runSteps_clean_iff`: the steps have no failure when each of them is met
- `Checks.Probe.runSteps_ok_iff`: the loop raises at a step that it reaches
- `Checks.Probe.run_judged`: when the check comes to a verdict, and when it passes
-/

namespace Checks.Probe

open Json (Text ascii)
open Learning (isSpace)
open Learning.Handler (CheckResult truncate)
open Python (Value Error Decoder)

variable {F : Type}

/-- An object of the list of steps. -/
abbrev Step (F : Type) := List (Text × Value F)

def newline : Nat := 0x0A

/-- What the check uses of the interpreter. -/
structure Runtime (F : Type) where
  /-- `json.loads` -/
  decoder : Decoder F
  /-- What `json.dumps` raises, if it does. -/
  refuses : Value F → Option Error
  /-- `x == y` of two floats -/
  eqFloat : F → F → Bool
  /-- `i > x` and `i < x` for an `int` -/
  gtFloat : Int → F → Bool
  ltFloat : Int → F → Bool
  /-- `repr(value)`, of what is nested within the recursion limit. -/
  repr : Value F → Text
  /-- `re.search(pattern, text) is not None` -/
  search : Text → Text → Bool

section Steps

/-- What `reader.readline()` returns or raises; no text is the end of the stream. -/
inductive Read
  | line (text : Text)
  /-- `TimeoutError` -/
  | timesOut
  /-- Another `OSError`. -/
  | fails
  /-- `UnicodeDecodeError` -/
  | undecodable
  deriving DecidableEq, Repr

/-- What becomes of a step: what `sendall` raises, and the read with the time that it takes. -/
structure Attempt where
  sendError : Option Text
  read : Read
  elapsedMs : Nat
  deriving DecidableEq, Repr

/-- What `_matches` finds. -/
inductive Miss (F : Type)
  | notObject (type : Text)
  | differs (key : Text) (expected got : Value F)

/-- What is wrong with a step. -/
inductive Problem (F : Type)
  | sendFailed (reason : Text)
  | timedOut
  | closed
  /-- expected no response, but received one -/
  | unexpected
  | invalidJson (line : Text)
  /-- expected an unparseable response -/
  | validJson (line : Text)
  | miss (m : Miss F)
  | overBudget (elapsedMs : Nat) (budget : Value F)
  | tooEarly (elapsedMs : Nat) (least : Value F)

/-- The failures and the transcript, and whether the loop breaks off. -/
structure Taken (F : Type) where
  problems : List (Problem F) := []
  transcript : List Text
  breaks : Bool := false

variable (R : Runtime F)

/-- `step.get(key)` as a condition. -/
def flag (key : Text) (step : Step F) : Bool := (Value.get key step).truthy R.decoder.floats

/-- `type(value).__name__` -/
def typeName : Value F → Text
  | .none => ascii "NoneType"
  | .bool _ => ascii "bool"
  | .int _ => ascii "int"
  | .float _ => ascii "float"
  | .str _ => ascii "str"
  | .list _ => ascii "list"
  | .dict _ => ascii "dict"

def equal (v w : Value F) : Bool := v.equal R.decoder.floats R.eqFloat w

/-- `_matches` -/
def misses (expect : List (Text × Value F)) : Value F → List (Miss F)
  | .dict payload => expect.filterMap fun item =>
      if equal R (Value.get item.1 payload) item.2 then none
      else some (.differs item.1 item.2 (Value.get item.1 payload))
  | payload => [.notObject (typeName payload)]

/-- `isinstance(limit, (int, float)) and elapsed_ms > limit` -/
def exceeds (elapsedMs : Nat) : Value F → Bool
  | .float x => R.gtFloat elapsedMs x
  | limit => limit.asInt?.any (· < (elapsedMs : Int))

/-- `isinstance(limit, (int, float)) and elapsed_ms < limit` -/
def undercuts (elapsedMs : Nat) : Value F → Bool
  | .float x => R.ltFloat elapsedMs x
  | limit => limit.asInt?.any ((elapsedMs : Int) < ·)

/-- What a step sends. -/
def wire (step : Step F) : Text :=
  let send := Value.get (ascii "send") step
  if !send.isNone then Python.dumps R.decoder.floats send ++ [newline]
  else
    match Value.get (ascii "send_raw") step with
    | .str s => if s.getLast? = some newline then s else s ++ [newline]
    | _ => []

/-- What `json.dumps` raises on what a step sends. -/
def refusal (step : Step F) : Option Error :=
  let send := Value.get (ascii "send") step
  if send.isNone then none else R.refuses send

def rstrip (s : Text) : Text := s.rdropWhile isSpace

/-- `f"({elapsed_ms} ms)"` and the like. -/
def ms (elapsedMs : Nat) : Text := Json.decimalNat elapsedMs ++ ascii " ms"

/-- The checks on a payload, past `json.loads`. -/
def checkPayload (step : Step F) (line : Text) (elapsedMs : Nat) (payload : Value F) :
    List (Problem F) :=
  if flag R (ascii "expect_invalid_json") step then [.validJson line]
  else
    let unlike :=
      match Value.get (ascii "expect") step with
      | .dict expect => (misses R expect payload).map .miss
      | _ => []
    let budget := Value.get (ascii "max_elapsed_ms") step
    let least := Value.get (ascii "min_elapsed_ms") step
    unlike ++ (if exceeds R elapsedMs budget then [.overBudget elapsedMs budget] else []) ++
      if undercuts R elapsedMs least then [.tooEarly elapsedMs least] else []

/-- A step that asks for no response. -/
def silent (step : Step F) : Bool :=
  flag R (ascii "expect_timeout") step || flag R (ascii "expect_closed") step

/-- The rest of a round, after a line has been read. -/
def checkLine (step : Step F) (sent : List Text) (line : Text) (elapsedMs : Nat) :
    Except Error (Taken F) :=
  let transcript := sent ++ [ascii "<< " ++ rstrip line ++ ascii " (" ++ ms elapsedMs ++ ascii ")"]
  if silent R step then .ok { problems := [.unexpected], transcript }
  else
    match Python.loads R.decoder line with
    | .error .valueError | .error .recursionError =>
      let problems := if flag R (ascii "expect_invalid_json") step then [] else [.invalidJson line]
      .ok { problems, transcript }
    | .error e => .error e
    | .ok payload => .ok { problems := checkPayload R step line elapsedMs payload, transcript }

/-- One round of the loop, past the send. -/
def runRead (step : Step F) (sent : List Text) (attempt : Attempt) : Except Error (Taken F) :=
  match attempt.read with
  | .undecodable => .error .valueError
  | .timesOut | .fails =>
    if flag R (ascii "expect_timeout") step then
      .ok { transcript := sent ++
              [ascii "<< (timeout after " ++ ms attempt.elapsedMs ++ ascii ", expected)"] }
    else .ok { problems := [.timedOut], transcript := sent, breaks := true }
  | .line [] =>
    if flag R (ascii "expect_closed") step then
      .ok { transcript := sent ++ [ascii "<< (connection closed, expected)"] }
    else .ok { problems := [.closed], transcript := sent, breaks := true }
  | .line line => checkLine R step sent line attempt.elapsedMs

/-- A text that `encode("utf-8")` takes: no surrogate is in it. -/
def Encodes (s : Text) : Prop := ∀ c ∈ s, Utf8.IsScalar c

instance : DecidablePred Utf8.IsScalar := fun _ => inferInstanceAs (Decidable (_ ∨ _ ∧ _))

instance : DecidablePred Encodes := fun s => inferInstanceAs (Decidable (∀ c ∈ s, Utf8.IsScalar c))

/-- One round of the loop, past `json.dumps`. -/
def runWire (step : Step F) (attempt : Attempt) : Except Error (Taken F) :=
  let wire := wire R step
  if wire = [] then runRead R step [] attempt
  else if ¬ Encodes wire then .error .valueError
  else
    match attempt.sendError with
    | none => runRead R step [ascii ">> " ++ rstrip wire] attempt
    | some reason =>
      if flag R (ascii "expect_send_error") step then
        .ok { transcript := [ascii ">> send failed as expected (" ++ reason ++ ascii ")"] }
      else .ok { problems := [.sendFailed reason], transcript := [], breaks := true }

/-- One round of the loop. -/
def runStep (step : Step F) (attempt : Attempt) : Except Error (Taken F) :=
  match refusal R step with
  | some e => .error e
  | none => runWire R step attempt

/-- `_run_steps`, from the step with a number on: the failures with the numbers of their steps, and
the transcript. -/
def runSteps : Nat → List (Step F × Attempt) → Except Error (List (Nat × Problem F) × List Text)
  | _, [] => .ok ([], [])
  | index, (step, attempt) :: steps => do
    let taken ← runStep R step attempt
    let failures := taken.problems.map (Prod.mk index)
    -- A send or a read that fails ends the loop, a response that is not the one expected does not.
    if taken.breaks then .ok (failures, taken.transcript)
    else
      let rest ← runSteps (index + 1) steps
      .ok (failures ++ rest.1, taken.transcript ++ rest.2)

/-- The step reads: it sends nothing, or its send succeeds. -/
def reads (step : Step F) (attempt : Attempt) : Bool :=
  (wire R step).isEmpty || attempt.sendError.isNone

/-- What becomes of the steps, given what would. Once a read has timed out, the reader raises
`OSError` without reading. -/
def faced (arrivals : Nat → Attempt) : Nat → Bool → List (Step F) → List (Step F × Attempt)
  | _, _, [] => []
  | index, timedOut, step :: steps =>
    let attempt :=
      -- `SocketIO` keeps its own mark of the timeout; sends go on as before.
      if timedOut then { arrivals index with read := .fails } else arrivals index
    (step, attempt) ::
      faced arrivals (index + 1) (timedOut || (reads R step attempt && attempt.read == .timesOut))
        steps

end Steps

section Run

structure Args (F : Type) where
  steps : List (Step F)
  waitReady : Bool := true
  /-- The timeouts as the messages show them. -/
  startupTimeout : Text := ascii "5.0"
  overallTimeout : Text := ascii "30"
  logExpectRegex : Option Text := none
  expectDutExit : Value F := .none
  expectFailure : Bool := false
  /-- None where there is none, or an empty one. -/
  expectFailureMatches : Option Text := none
  successNote : Option Text := none

/-- The DUT and its process, as the check sees them. -/
structure Dut where
  /-- The `FileNotFoundError` of a DUT that is not built. -/
  missing : Option Text
  /-- It accepts connections within the startup timeout. -/
  ready : Bool
  /-- `process.poll()`, once it does. -/
  exited : Option Int
  /-- Whether the connection for the steps is accepted. -/
  connects : Bool
  arrivals : Nat → Attempt
  /-- The text of its log file, empty where there is none. -/
  log : Text
  exitStatus : Option Int
  stdout : Text
  durationMs : Nat
  /-- The check took longer than its overall timeout. -/
  overran : Bool

inductive Failure (F : Type)
  | notReady (timeout : Text)
  | exitedEarly (code : Int)
  | step (index : Nat) (problem : Problem F)
  | log (pattern : Text)
  | overran (timeout : Text)
  | exitCode (expected : Value F) (status : Option Int)

variable (R : Runtime F)

def Miss.text : Miss F → Text
  | .notObject type => ascii "expected a JSON object, got " ++ type
  | .differs key expected got =>
    ascii "expected " ++ key ++ ascii "=" ++ R.repr expected ++ ascii ", got " ++ R.repr got

def Problem.text : Problem F → Text
  | .sendFailed reason => ascii "send failed: " ++ reason
  | .timedOut => ascii "timed out waiting for a response"
  | .closed => ascii "connection closed unexpectedly"
  | .unexpected => ascii "expected no response, but received one"
  | .invalidJson line => ascii "response was not valid JSON: " ++ R.repr (.str line)
  | .validJson line =>
    ascii "expected an unparseable response, but the DUT returned valid JSON: " ++
      R.repr (.str (rstrip line))
  | .miss m => m.text R
  | .overBudget elapsedMs budget =>
    ascii "response took " ++ ms elapsedMs ++ ascii ", over the " ++ R.repr budget ++
      ascii " ms budget"
  | .tooEarly elapsedMs least =>
    ascii "response took " ++ ms elapsedMs ++ ascii ", expected at least " ++ R.repr least ++
      ascii " ms (fault did not engage?)"

def Failure.text : Failure F → Text
  | .notReady timeout => ascii "DUT did not accept connections within " ++ timeout ++ ascii "s"
  | .exitedEarly code => ascii "DUT exited early with code " ++ Json.decimal code
  | .step index problem =>
    ascii "step " ++ Json.decimalNat index ++ ascii ": " ++ problem.text R
  | .log pattern => ascii "DUT log did not match /" ++ pattern ++ ascii "/"
  | .overran timeout => ascii "probe exceeded the " ++ timeout ++ ascii "s budget"
  | .exitCode expected status =>
    ascii "expected DUT exit code " ++ R.repr expected ++ ascii ", got " ++
      status.elim (ascii "None") Json.decimal

variable (args : Args F) (dut : Dut)

/-- What becomes of the steps of the check. -/
def Dut.attempts : List (Step F × Attempt) := faced R dut.arrivals 1 false args.steps

/-- The `try` clause, up to the log. -/
def drive : Except Error (List (Failure F) × List Text) :=
  if args.waitReady && !dut.ready then .ok ([.notReady args.startupTimeout], [])
  else
    match dut.exited with
    | some code => .ok ([.exitedEarly code], [])
    | none =>
      if args.steps.isEmpty then .ok ([], [])
      else if !dut.connects then .error .osError
      else
        (runSteps R 1 (dut.attempts R args)).map fun ran =>
          (ran.1.map fun failure => .step failure.1 failure.2, ran.2)

/-- What is wrong with the log, the time and the exit status. -/
def afterwards : List (Failure F) :=
  (args.logExpectRegex.toList.filter fun pattern => !R.search pattern dut.log).map .log ++
    (if dut.overran then [.overran args.overallTimeout] else []) ++
    if args.expectDutExit.asInt?.any fun expected => dut.exitStatus != some expected then
      [.exitCode args.expectDutExit dut.exitStatus]
    else []

/-- The failures of the check and its transcript. -/
def found : Except Error (List (Failure F) × List Text) :=
  (drive R args dut).map fun driven => (driven.1 ++ afterwards R args dut, driven.2)

def joined (messages : List Text) : Text := (ascii "; ").intercalate messages

/-- The verdict on the failures, and its interpretation. -/
def verdict (failures : List Text) : Bool × Text :=
  if args.expectFailure then
    let symptom :=
      args.expectFailureMatches.elim [] fun wanted => failures.filter (R.search wanted)
    let unexpected := failures.filter fun failure => !symptom.contains failure
    let passed :=
      -- Where no symptom is stated, any failure will do.
      if args.expectFailureMatches.isSome then !symptom.isEmpty && unexpected.isEmpty
      else !failures.isEmpty
    (passed,
      if passed then
        args.successNote.getD (ascii "The symptom reproduced, which is the point: " ++
          joined (if symptom.isEmpty then failures else symptom))
      else if failures.isEmpty then
        ascii "Check failed: this run was supposed to reproduce the fault and did not " ++
          ascii "— the DUT behaved normally, so there is no symptom to diagnose. " ++
          ascii "Check the fault arguments."
      else if symptom.isEmpty then
        ascii "Check failed: the run went red for the wrong reason. " ++
          ascii "Expected a failure matching /" ++
          args.expectFailureMatches.getD (ascii "None") ++ ascii "/, got: " ++ joined failures
      else
        ascii "Check failed: the symptom reproduced, but something else went wrong too, " ++
          ascii "so the run does not show what it claims: " ++ joined unexpected)
  else if failures.isEmpty then
    (true, args.successNote.getD (ascii "DUT behaved exactly as expected."))
  else (false, ascii "Check failed: " ++ joined failures)

def run : Except Error (CheckResult F) :=
  match dut.missing with
  | some reason => .ok
    { name := ascii "behavior_probe"
      passed := false
      exitStatus := none
      stdout := []
      stderr := []
      durationMs := dut.durationMs
      interpretation := ascii "Check failed: " ++ reason
      timedOut := false
      details := [] }
  | none =>
    (found R args dut).map fun ran =>
      let judged := verdict R args (ran.1.map (Failure.text R))
      { name := ascii "behavior_probe"
        passed := judged.1
        exitStatus := dut.exitStatus
        stdout := truncate ((ascii "\n").intercalate ran.2)
        stderr := truncate dut.stdout
        durationMs := dut.durationMs
        interpretation := judged.2
        timedOut := dut.overran
        details := [] }

end Run

section Meaning

variable (R : Runtime F)

/-- The payload is an object with the values that are expected. -/
def Matches (expect : List (Text × Value F)) (payload : Value F) : Prop :=
  ∃ items, payload = .dict items ∧
    ∀ entry ∈ expect, equal R (Value.get entry.1 items) entry.2 = true

/-- A payload is what a step asks for, and it came neither too late nor too early. -/
structure Fits (step : Step F) (elapsedMs : Nat) (payload : Value F) : Prop where
  wanted : ∀ expect, Value.get (ascii "expect") step = .dict expect → Matches R expect payload
  inTime : exceeds R elapsedMs (Value.get (ascii "max_elapsed_ms") step) = false
  notEarly : undercuts R elapsedMs (Value.get (ascii "min_elapsed_ms") step) = false

/-- What is read is what a step asks for. -/
inductive MeetsRead (step : Step F) (elapsedMs : Nat) : Read → Prop
  | timesOut (h : flag R (ascii "expect_timeout") step = true) : MeetsRead step elapsedMs .timesOut
  | fails (h : flag R (ascii "expect_timeout") step = true) : MeetsRead step elapsedMs .fails
  | closed (h : flag R (ascii "expect_closed") step = true) : MeetsRead step elapsedMs (.line [])
  | unparseable {line : Text} (hline : line ≠ []) (hsilent : silent R step = false)
      (hloads : Python.loads R.decoder line = .error .valueError ∨
        Python.loads R.decoder line = .error .recursionError)
      (h : flag R (ascii "expect_invalid_json") step = true) : MeetsRead step elapsedMs (.line line)
  | answered {line : Text} {payload : Value F} (hline : line ≠ []) (hsilent : silent R step = false)
      (hloads : Python.loads R.decoder line = .ok payload)
      (h : flag R (ascii "expect_invalid_json") step = false)
      (hfits : Fits R step elapsedMs payload) : MeetsRead step elapsedMs (.line line)

/-- What a step sends can be written and encoded. -/
structure Writes (step : Step F) : Prop where
  dumps : refusal R step = none
  encodes : Encodes (wire R step)

/-- What becomes of a step is what it asks for. -/
structure Meets (step : Step F) (attempt : Attempt) : Prop where
  writes : Writes R step
  sendFails : reads R step attempt = false → flag R (ascii "expect_send_error") step = true
  read : reads R step attempt = true → MeetsRead R step attempt.elapsedMs attempt.read

/-- A round without a failure. -/
def Clean (round : Except Error (Taken F)) : Prop :=
  ∃ taken, round = .ok taken ∧ taken.problems = []

variable {R} {step : Step F}

theorem clean_ok {taken : Taken F} : Clean (.ok taken) ↔ taken.problems = [] := by
  constructor
  · rintro ⟨taken', ⟨⟩, h⟩
    exact h
  · exact fun h => ⟨taken, rfl, h⟩

theorem not_clean_error {e : Error} : ¬ Clean (F := F) (.error e) := by
  rintro ⟨taken, h, -⟩
  cases h

theorem misses_eq_nil_iff {expect : List (Text × Value F)} {payload : Value F} :
    misses R expect payload = [] ↔ Matches R expect payload := by
  cases payload with
  | dict items =>
    rw [misses, List.filterMap_eq_nil_iff, Matches]
    constructor
    · intro h
      refine ⟨items, rfl, fun entry hentry => ?_⟩
      by_contra hne
      have hnone := h entry hentry
      rw [if_neg hne] at hnone
      cases hnone
    · rintro ⟨_, ⟨⟩, h⟩ entry hentry
      exact if_pos (h entry hentry)
  | none | bool _ | int _ | float _ | str _ | list _ =>
    refine iff_of_false (List.cons_ne_nil _ _) ?_
    rintro ⟨items, hitems, -⟩
    cases hitems

/-- Nothing is wrong with a payload that the step asks for. -/
theorem checkPayload_eq_nil_iff {line : Text} {elapsedMs : Nat} {payload : Value F} :
    checkPayload R step line elapsedMs payload = [] ↔
      flag R (ascii "expect_invalid_json") step = false ∧ Fits R step elapsedMs payload := by
  have hwanted :
      (match Value.get (ascii "expect") step with
        | .dict expect => (misses R expect payload).map Problem.miss
        | _ => []) = [] ↔
      ∀ expect, Value.get (ascii "expect") step = .dict expect → Matches R expect payload := by
    cases Value.get (ascii "expect") step with
    | dict expect =>
      rw [List.map_eq_nil_iff, misses_eq_nil_iff]
      constructor
      · rintro h _ ⟨⟩
        exact h
      · exact fun h => h expect rfl
    | none | bool _ | int _ | float _ | str _ | list _ =>
      refine iff_of_true rfl ?_
      rintro expect ⟨⟩
  have hif (b : Bool) (problem : Problem F) : (if b then [problem] else []) = [] ↔ b = false := by
    cases b
    · exact iff_of_true rfl rfl
    · exact iff_of_false (List.cons_ne_nil _ _) Bool.noConfusion
  rw [checkPayload]
  cases flag R (ascii "expect_invalid_json") step with
  | true => exact iff_of_false (List.cons_ne_nil _ _) fun h => Bool.noConfusion h.1
  | false =>
    rw [if_neg Bool.false_ne_true]
    dsimp only
    rw [List.append_eq_nil_iff, List.append_eq_nil_iff, hif, hif, hwanted]
    exact ⟨fun h => ⟨rfl, h.1.1, h.1.2, h.2⟩, fun h => ⟨⟨h.2.1, h.2.2⟩, h.2.3⟩⟩

theorem checkLine_clean_iff {sent : List Text} {line : Text} {elapsedMs : Nat} (hline : line ≠ []) :
    Clean (checkLine R step sent line elapsedMs) ↔ MeetsRead R step elapsedMs (.line line) := by
  rw [checkLine]
  cases hsilent : silent R step with
  | true =>
    rw [if_pos rfl, clean_ok]
    refine iff_of_false (List.cons_ne_nil _ _) fun h => ?_
    cases h with
    | closed _ => exact hline rfl
    | unparseable _ hno _ _ | answered _ hno _ _ _ =>
      rw [hsilent] at hno
      cases hno
  | false =>
    rw [if_neg Bool.false_ne_true]
    cases hloads : Python.loads R.decoder line with
    | ok payload =>
      dsimp only
      rw [clean_ok, checkPayload_eq_nil_iff]
      constructor
      · exact fun h => .answered hline hsilent hloads h.1 h.2
      · intro h
        cases h with
        | closed _ => exact absurd rfl hline
        | unparseable _ _ herror _ =>
          rw [hloads] at herror
          exact absurd herror (by simp)
        | answered _ _ hok h hfits =>
          rw [hloads] at hok
          cases hok
          exact ⟨h, hfits⟩
    | error e =>
      have hmeets : MeetsRead R step elapsedMs (.line line) ↔
          (e = .valueError ∨ e = .recursionError) ∧
            flag R (ascii "expect_invalid_json") step = true := by
        constructor
        · intro h
          cases h with
          | closed _ => exact absurd rfl hline
          | unparseable _ _ herror h =>
            rw [hloads, Except.error.injEq, Except.error.injEq] at herror
            exact ⟨herror, h⟩
          | answered _ _ hok _ _ =>
            rw [hloads] at hok
            cases hok
        · rintro ⟨herror, h⟩
          refine .unparseable hline hsilent ?_ h
          rw [hloads, Except.error.injEq, Except.error.injEq]
          exact herror
      rw [hmeets]
      cases e with
      | valueError | recursionError =>
        dsimp only
        rw [clean_ok]
        cases flag R (ascii "expect_invalid_json") step with
        | true => exact iff_of_true rfl ⟨by simp, rfl⟩
        | false => exact iff_of_false (List.cons_ne_nil _ _) fun h => Bool.noConfusion h.2
      | typeError | keyError | attributeError | osError | indexError =>
        exact iff_of_false not_clean_error fun h => absurd h.1 (by simp)

theorem runRead_clean_iff {sent : List Text} {attempt : Attempt} :
    Clean (runRead R step sent attempt) ↔ MeetsRead R step attempt.elapsedMs attempt.read := by
  have hflag {problems : List (Problem F)} (hproblems : problems ≠ []) {key : Text}
      {a b : List Text} :
      Clean (if flag R key step then .ok { transcript := a }
        else .ok { problems := problems, transcript := b, breaks := true }) ↔
      flag R key step = true := by
    cases flag R key step with
    | true => exact iff_of_true (clean_ok.mpr rfl) rfl
    | false => exact iff_of_false (fun h => hproblems (clean_ok.mp h)) Bool.false_ne_true
  rw [runRead]
  cases hread : attempt.read with
  | undecodable => exact iff_of_false not_clean_error fun h => by cases h
  | timesOut =>
    refine (hflag (List.cons_ne_nil _ _)).trans ⟨.timesOut, fun h => ?_⟩
    cases h with
    | timesOut h => exact h
  | fails =>
    refine (hflag (List.cons_ne_nil _ _)).trans ⟨.fails, fun h => ?_⟩
    cases h with
    | fails h => exact h
  | line line =>
    cases line with
    | nil =>
      refine (hflag (List.cons_ne_nil _ _)).trans ⟨.closed, fun h => ?_⟩
      cases h with
      | closed h => exact h
      | unparseable hline _ _ _ | answered hline _ _ _ _ => exact absurd rfl hline
    | cons c line => exact checkLine_clean_iff (List.cons_ne_nil _ _)

theorem runWire_clean_iff (hrefusal : refusal R step = none) {attempt : Attempt} :
    Clean (runWire R step attempt) ↔ Meets R step attempt := by
  rw [runWire]
  by_cases hwire : wire R step = []
  · have hreads : reads R step attempt = true := by rw [reads, hwire]; rfl
    rw [if_pos hwire, runRead_clean_iff]
    refine ⟨fun h => ⟨⟨hrefusal, ?_⟩, fun hno => ?_, fun _ => h⟩, fun h => h.read hreads⟩
    · rw [hwire]
      exact List.forall_mem_nil _
    · rw [hreads] at hno
      cases hno
  rw [if_neg hwire]
  by_cases hencodes : Encodes (wire R step)
  · rw [if_neg (not_not.mpr hencodes)]
    have hempty : (wire R step).isEmpty = false := List.isEmpty_eq_false_iff.mpr hwire
    cases hsend : attempt.sendError with
    | none =>
      have hreads : reads R step attempt = true := by rw [reads, hempty, hsend]; rfl
      dsimp only
      rw [runRead_clean_iff]
      refine ⟨fun h => ⟨⟨hrefusal, hencodes⟩, fun hno => ?_, fun _ => h⟩, fun h => h.read hreads⟩
      rw [hreads] at hno
      cases hno
    | some reason =>
      have hreads : reads R step attempt = false := by rw [reads, hempty, hsend]; rfl
      dsimp only
      constructor
      · intro h
        refine ⟨⟨hrefusal, hencodes⟩, fun _ => ?_, fun hyes => ?_⟩
        · by_contra hflag
          rw [if_neg hflag, clean_ok] at h
          cases h
        · rw [hreads] at hyes
          cases hyes
      · intro h
        rw [if_pos (h.sendFails hreads)]
        exact clean_ok.mpr rfl
  · rw [if_pos hencodes]
    exact iff_of_false not_clean_error fun h => hencodes h.writes.encodes

theorem runStep_clean_iff {attempt : Attempt} :
    Clean (runStep R step attempt) ↔ Meets R step attempt := by
  rw [runStep]
  cases hrefusal : refusal R step with
  | none => exact runWire_clean_iff hrefusal
  | some e =>
    refine iff_of_false not_clean_error fun h => ?_
    rw [h.writes.dumps] at hrefusal
    cases hrefusal

/-- The loop breaks off at a failure only. -/
def BreaksAtFailure (round : Except Error (Taken F)) : Prop :=
  ∀ taken, round = .ok taken → taken.breaks = true → taken.problems ≠ []

theorem breaksAtFailure_ok {taken : Taken F} (h : taken.breaks = true → taken.problems ≠ []) :
    BreaksAtFailure (.ok taken) := by
  rintro _ ⟨⟩
  exact h

theorem breaksAtFailure_error (e : Error) : BreaksAtFailure (F := F) (.error e) := by
  rintro _ ⟨⟩

theorem checkLine_breaksAtFailure (sent : List Text) (line : Text) (elapsedMs : Nat) :
    BreaksAtFailure (checkLine R step sent line elapsedMs) := by
  have hgoesOn {problems : List (Problem F)} {transcript : List Text} :
      BreaksAtFailure (.ok { problems, transcript }) :=
    breaksAtFailure_ok fun h => Bool.noConfusion h
  rw [checkLine]
  by_cases hsilent : silent R step = true
  · rw [if_pos hsilent]
    exact hgoesOn
  · rw [if_neg hsilent]
    cases Python.loads R.decoder line with
    | ok payload => exact hgoesOn
    | error e =>
      cases e with
      | valueError | recursionError => exact hgoesOn
      | typeError | keyError | attributeError | osError | indexError =>
        exact breaksAtFailure_error _

theorem runRead_breaksAtFailure (sent : List Text) (attempt : Attempt) :
    BreaksAtFailure (runRead R step sent attempt) := by
  have hflag {problem : Problem F} {key : Text} {a b : List Text} :
      BreaksAtFailure (if flag R key step then .ok { transcript := a }
        else .ok { problems := [problem], transcript := b, breaks := true }) := by
    split_ifs
    · exact breaksAtFailure_ok fun h => Bool.noConfusion h
    · exact breaksAtFailure_ok fun _ => List.cons_ne_nil _ _
  rw [runRead]
  cases attempt.read with
  | undecodable => exact breaksAtFailure_error _
  | timesOut | fails => exact hflag
  | line line =>
    cases line with
    | nil => exact hflag
    | cons c line => exact checkLine_breaksAtFailure _ _ _

theorem runWire_breaksAtFailure (attempt : Attempt) :
    BreaksAtFailure (runWire R step attempt) := by
  rw [runWire]
  by_cases hwire : wire R step = []
  · rw [if_pos hwire]
    exact runRead_breaksAtFailure _ _
  rw [if_neg hwire]
  by_cases hencodes : Encodes (wire R step)
  · rw [if_neg (not_not.mpr hencodes)]
    cases attempt.sendError with
    | none => exact runRead_breaksAtFailure _ _
    | some reason =>
      dsimp only
      split_ifs
      · exact breaksAtFailure_ok fun h => Bool.noConfusion h
      · exact breaksAtFailure_ok fun _ => List.cons_ne_nil _ _
  · rw [if_pos hencodes]
    exact breaksAtFailure_error _

theorem runStep_breaksAtFailure (attempt : Attempt) :
    BreaksAtFailure (runStep R step attempt) := by
  rw [runStep]
  cases refusal R step with
  | none => exact runWire_breaksAtFailure attempt
  | some e => exact breaksAtFailure_error e

/-- The steps have no failure when each of them is met. -/
theorem runSteps_clean_iff {index : Nat} {steps : List (Step F × Attempt)} :
    (∃ transcript, runSteps R index steps = .ok ([], transcript)) ↔
      ∀ p ∈ steps, Meets R p.1 p.2 := by
  induction steps generalizing index with
  | nil => exact iff_of_true ⟨[], rfl⟩ (List.forall_mem_nil _)
  | cons p steps ih =>
    obtain ⟨step, attempt⟩ := p
    rw [List.forall_mem_cons, ← runStep_clean_iff, ← @ih (index + 1), runSteps]
    cases hround : runStep R step attempt with
    | error e =>
      refine iff_of_false ?_ fun h => not_clean_error h.1
      rintro ⟨transcript, ⟨⟩⟩
    | ok taken =>
      have hbreaks := runStep_breaksAtFailure attempt taken hround
      rw [Except.ok_bind, clean_ok]
      dsimp only
      by_cases hb : taken.breaks = true
      · -- the steps that are left out do not matter: this one has failed
        rw [if_pos hb]
        refine iff_of_false ?_ fun h => hbreaks hb h.1
        rintro ⟨transcript, h⟩
        exact hbreaks hb (List.map_eq_nil_iff.mp (Prod.mk.inj (Except.ok.inj h)).1)
      · rw [if_neg hb]
        cases hrest : runSteps R (index + 1) steps with
        | error e =>
          refine iff_of_false ?_ ?_
          · rintro ⟨transcript, ⟨⟩⟩
          · rintro ⟨-, transcript, ⟨⟩⟩
        | ok rest =>
          rw [Except.ok_bind]
          constructor
          · rintro ⟨transcript, h⟩
            obtain ⟨hfailures, -⟩ := Prod.mk.inj (Except.ok.inj h)
            obtain ⟨hfirst, hothers⟩ := List.append_eq_nil_iff.mp hfailures
            exact ⟨List.map_eq_nil_iff.mp hfirst, rest.2, congrArg Except.ok (Prod.ext hothers rfl)⟩
          · rintro ⟨hfirst, transcript, h⟩
            rw [hfirst, Except.ok.inj h]
            exact ⟨_, rfl⟩

section Returning

variable (R)

/-- The loop ends with the step: its send, or its read, fails and is not expected to. -/
inductive Stops (step : Step F) (attempt : Attempt) : Prop
  | send (hreads : reads R step attempt = false)
      (h : flag R (ascii "expect_send_error") step = false)
  | read (hreads : reads R step attempt = true)
      (hread : attempt.read = .timesOut ∨ attempt.read = .fails)
      (h : flag R (ascii "expect_timeout") step = false)
  | closed (hreads : reads R step attempt = true) (hread : attempt.read = .line [])
      (h : flag R (ascii "expect_closed") step = false)

/-- The step raises: what it sends cannot be written or encoded, or what it reads cannot be
decoded. -/
def Raises (step : Step F) (attempt : Attempt) : Prop :=
  ¬ Writes R step ∨ reads R step attempt = true ∧ attempt.read = .undecodable

/-- No step that the loop reaches raises. -/
def Undisturbed (steps : List (Step F × Attempt)) : Prop :=
  ∀ before p after, steps = before ++ p :: after → (∀ q ∈ before, ¬ Stops R q.1 q.2) →
    ¬ Raises R p.1 p.2

variable {R}

end Returning

section Faced

variable {arrivals : Nat → Attempt}

theorem read_of_timedOut {index : Nat} {steps : List (Step F)} :
    ∀ p ∈ faced R arrivals index true steps, p.2.read = .fails := by
  induction steps generalizing index with
  | nil => exact List.forall_mem_nil _
  | cons step steps ih => exact List.forall_mem_cons.mpr ⟨rfl, ih⟩

/-- Nothing is read once a read has timed out. -/
theorem read_after_timesOut {index : Nat} {timedOut : Bool} {steps : List (Step F)}
    {before after : List (Step F × Attempt)} {p : Step F × Attempt}
    (h : faced R arrivals index timedOut steps = before ++ p :: after)
    (hreads : reads R p.1 p.2 = true) (hp : p.2.read = .timesOut) :
    ∀ q ∈ after, q.2.read = .fails := by
  induction steps generalizing index timedOut before with
  | nil => exact absurd h.symm (by simp [faced])
  | cons step steps ih =>
    rw [faced] at h
    dsimp only at h
    cases before with
    | nil =>
      obtain ⟨hhead, htail⟩ := List.cons.inj h
      rw [← hhead] at hreads hp
      rw [hreads, hp, beq_self_eq_true, Bool.and_true, Bool.or_true] at htail
      rw [← htail]
      exact read_of_timedOut
    | cons q before => exact ih (List.cons.inj h).2

end Faced

end Meaning

section Verdict

variable (R : Runtime F) (args : Args F) (dut : Dut)

/-- The DUT is what the arguments ask for. -/
structure Satisfied : Prop where
  ready : args.waitReady = true → dut.ready = true
  running : dut.exited = none
  connects : args.steps ≠ [] → dut.connects = true
  met : ∀ p ∈ dut.attempts R args, Meets R p.1 p.2
  log : ∀ pattern ∈ args.logExpectRegex, R.search pattern dut.log = true
  inTime : dut.overran = false
  exitCode : ∀ expected ∈ args.expectDutExit.asInt?, dut.exitStatus = some expected

/-- The check comes to a verdict once the DUT is started: where there are steps to take, the
connection is accepted, and no step that is reached raises. -/
def Returns : Prop :=
  (args.waitReady = true → dut.ready = true) → dut.exited = none → args.steps ≠ [] →
    dut.connects = true ∧ Undisturbed R (dut.attempts R args)

/-- What the check finds, if it returns. -/
def failures : List (Failure F) :=
  match found R args dut with
  | .ok ran => ran.1
  | .error _ => []

variable {R args dut}

theorem drive_clean_iff :
    (∃ transcript, drive R args dut = .ok ([], transcript)) ↔
      (args.waitReady = true → dut.ready = true) ∧ dut.exited = none ∧
        (args.steps ≠ [] → dut.connects = true) ∧ ∀ p ∈ dut.attempts R args, Meets R p.1 p.2 := by
  have hfails {failure : Failure F} {transcript : List Text} :
      ¬ ∃ t, (Except.ok ([failure], transcript) : Except Error _) = .ok ([], t) := by
    rintro ⟨t, ⟨⟩⟩
  rw [drive]
  by_cases hready : args.waitReady = true → dut.ready = true
  · have hif : ¬ (args.waitReady && !dut.ready) = true := by
      rw [Bool.and_eq_true, Bool.not_eq_true']
      rintro ⟨hwait, hno⟩
      rw [hready hwait] at hno
      cases hno
    rw [if_neg hif]
    cases hexited : dut.exited with
    | some code => exact iff_of_false hfails fun h => Option.some_ne_none _ h.2.1
    | none =>
      dsimp only
      cases hsteps : args.steps with
      | nil =>
        refine iff_of_true ⟨[], rfl⟩ ⟨hready, rfl, fun hne => absurd rfl hne, ?_⟩
        rw [Dut.attempts, hsteps, faced]
        exact List.forall_mem_nil _
      | cons step steps =>
        rw [← hsteps, if_neg (by rw [hsteps]; exact Bool.false_ne_true)]
        cases hconnects : dut.connects with
        | false =>
          refine iff_of_false (by rintro ⟨t, ⟨⟩⟩) fun h => ?_
          exact Bool.false_ne_true (h.2.2.1 (by rw [hsteps]; exact List.cons_ne_nil _ _))
        | true =>
          rw [if_neg (by decide), ← @runSteps_clean_iff F R 1]
          constructor
          · rintro ⟨transcript, h⟩
            obtain ⟨ran, hran, heq⟩ := Except.map_eq_ok.mp h
            have hnil := List.map_eq_nil_iff.mp (Prod.mk.inj heq).1
            exact ⟨hready, rfl, fun _ => rfl, ran.2, by rw [hran, ← hnil]⟩
          · rintro ⟨-, -, -, transcript, h⟩
            rw [h]
            exact ⟨transcript, rfl⟩
  · have hif : (args.waitReady && !dut.ready) = true := by
      rw [Classical.not_imp, Bool.not_eq_true] at hready
      rw [hready.1, hready.2]
      rfl
    rw [if_pos hif]
    exact iff_of_false hfails fun h => hready h.1

theorem afterwards_eq_nil_iff :
    afterwards R args dut = [] ↔
      (∀ pattern ∈ args.logExpectRegex, R.search pattern dut.log = true) ∧ dut.overran = false ∧
        ∀ expected ∈ args.expectDutExit.asInt?, dut.exitStatus = some expected := by
  have hif {b : Bool} {failure : Failure F} : (if b then [failure] else []) = [] ↔ b = false := by
    cases b
    · exact iff_of_true rfl rfl
    · exact iff_of_false (List.cons_ne_nil _ _) Bool.noConfusion
  rw [afterwards, List.append_eq_nil_iff, List.append_eq_nil_iff, hif, hif, List.map_eq_nil_iff,
    List.filter_eq_nil_iff, and_assoc]
  refine and_congr ?_ (and_congr_right fun _ => ?_)
  · exact forall_congr' fun pattern => by
      rw [Option.mem_toList, Bool.not_eq_true', Bool.not_eq_false]
      exact Iff.rfl
  · cases args.expectDutExit.asInt? with
    | none => exact iff_of_true rfl (by simp)
    | some expected =>
      rw [Option.any_some, bne_eq_false_iff_eq]
      exact ⟨fun h _ hmem => (Option.mem_some_iff.mp hmem) ▸ h, fun h => h expected rfl⟩

/-- Nothing is found where the DUT is what the arguments ask for. -/
theorem found_clean_iff :
    (∃ transcript, found R args dut = .ok ([], transcript)) ↔ Satisfied R args dut := by
  have hsplit : (∃ transcript, found R args dut = .ok ([], transcript)) ↔
      (∃ transcript, drive R args dut = .ok ([], transcript)) ∧ afterwards R args dut = [] := by
    rw [found]
    constructor
    · rintro ⟨transcript, h⟩
      obtain ⟨driven, hdriven, heq⟩ := Except.map_eq_ok.mp h
      obtain ⟨hfirst, hafterwards⟩ := List.append_eq_nil_iff.mp (Prod.mk.inj heq).1
      exact ⟨⟨driven.2, by rw [hdriven, ← hfirst]⟩, hafterwards⟩
    · rintro ⟨⟨transcript, h⟩, hafterwards⟩
      exact ⟨transcript, by rw [h, hafterwards]; rfl⟩
  rw [hsplit, drive_clean_iff, afterwards_eq_nil_iff]
  constructor
  · rintro ⟨⟨hready, hrunning, hconnects, hmet⟩, hlog, hinTime, hexitCode⟩
    exact ⟨hready, hrunning, hconnects, hmet, hlog, hinTime, hexitCode⟩
  · intro h
    exact ⟨⟨h.ready, h.running, h.connects, h.met⟩, h.log, h.inTime, h.exitCode⟩

theorem verdict_passed_iff {messages : List Text} :
    (verdict R args messages).1 = true ↔
      if args.expectFailure then
        messages ≠ [] ∧ ∀ wanted ∈ args.expectFailureMatches,
          ∀ message ∈ messages, R.search wanted message = true
      else messages = [] := by
  rw [verdict]
  cases args.expectFailure with
  | false =>
    rw [if_neg Bool.false_ne_true, if_neg Bool.false_ne_true]
    cases messages with
    | nil => exact iff_of_true rfl rfl
    | cons message messages => exact iff_of_false Bool.false_ne_true (List.cons_ne_nil _ _)
  | true =>
    rw [if_pos rfl, if_pos rfl]
    dsimp only
    cases args.expectFailureMatches with
    | none =>
      rw [if_neg (by decide), Bool.not_eq_true', List.isEmpty_eq_false_iff]
      exact ⟨fun h => ⟨h, by simp⟩, fun h => h.1⟩
    | some wanted =>
      rw [Option.isSome_some, if_pos rfl, Option.elim_some, Bool.and_eq_true, Bool.not_eq_true',
        List.isEmpty_eq_false_iff, List.isEmpty_iff, List.filter_eq_nil_iff]
      constructor
      · rintro ⟨hsymptom, hothers⟩
        refine ⟨fun hnil => hsymptom (by rw [hnil, List.filter_nil]), ?_⟩
        rintro _ ⟨⟩ message hmessage
        have hmem := hothers message hmessage
        rw [Bool.not_eq_true', Bool.not_eq_false, List.contains_iff_mem] at hmem
        exact (List.mem_filter.mp hmem).2
      · rintro ⟨hne, hall⟩
        have hmatch := hall wanted rfl
        rw [List.filter_eq_self.mpr hmatch]
        refine ⟨hne, fun message hmessage => ?_⟩
        rw [Bool.not_eq_true', Bool.not_eq_false, List.contains_iff_mem]
        exact hmessage

/-- Once the DUT is started, the verdict is on what is found. -/
theorem run_passed_iff (hmissing : dut.missing = none) :
    (∃ result, run R args dut = .ok result ∧ result.passed = true) ↔
      if args.expectFailure then
        (∃ ran, found R args dut = .ok ran) ∧ ¬ Satisfied R args dut ∧
          ∀ wanted ∈ args.expectFailureMatches, ∀ failure ∈ failures R args dut,
            R.search wanted (failure.text R) = true
      else Satisfied R args dut := by
  rw [run, hmissing]
  dsimp only
  cases hfound : found R args dut with
  | error e =>
    have hno : ¬ Satisfied R args dut := fun h => by
      obtain ⟨transcript, hclean⟩ := found_clean_iff.mpr h
      rw [hfound] at hclean
      cases hclean
    refine iff_of_false (by rintro ⟨result, ⟨⟩, -⟩) ?_
    split_ifs
    · rintro ⟨⟨ran, ⟨⟩⟩, -⟩
    · exact hno
  | ok ran =>
    have hsatisfied : Satisfied R args dut ↔ ran.1 = [] := by
      rw [← found_clean_iff, hfound]
      constructor
      · rintro ⟨transcript, h⟩
        rw [Except.ok.inj h]
      · exact fun h => ⟨ran.2, by rw [← h]⟩
    have hfailures : failures R args dut = ran.1 := by rw [failures, hfound]
    simp only [Except.map, Except.ok.injEq, exists_eq_left']
    rw [verdict_passed_iff, hfailures]
    cases args.expectFailure with
    | false =>
      rw [if_neg Bool.false_ne_true, if_neg Bool.false_ne_true, hsatisfied, List.map_eq_nil_iff]
    | true =>
      rw [if_pos rfl, if_pos rfl, hsatisfied]
      simp only [exists_eq', true_and, ne_eq, List.map_eq_nil_iff, List.forall_mem_map]

/-- In an ordinary probe that passes, every step that reads after a timeout expects one as well: the
late response is not read, nor any other. -/
theorem timeout_after_timeout {result : CheckResult F} (hmissing : dut.missing = none)
    (hrun : run R args dut = .ok result) (hpassed : result.passed = true)
    (hordinary : args.expectFailure = false) {before after : List (Step F × Attempt)}
    {p : Step F × Attempt} (hsplit : dut.attempts R args = before ++ p :: after)
    (hreads : reads R p.1 p.2 = true) (htimesOut : p.2.read = .timesOut) :
    ∀ q ∈ after, reads R q.1 q.2 = true → flag R (ascii "expect_timeout") q.1 = true := by
  have hsatisfied := (run_passed_iff hmissing).mp ⟨result, hrun, hpassed⟩
  rw [hordinary, if_neg Bool.false_ne_true] at hsatisfied
  intro q hq hread
  have hmem : q ∈ dut.attempts R args := by
    rw [hsplit]
    exact List.mem_append_right _ (List.mem_cons_of_mem _ hq)
  have hmeets := (hsatisfied.met q hmem).read hread
  rw [read_after_timesOut hsplit hreads htimesOut q hq] at hmeets
  cases hmeets with
  | fails h => exact h

end Verdict

section Sample

def sampleRuntime : Runtime Text where
  decoder := {
    floats := .tokens
    overflows := fun _ => false
    parseInt := fun token => .ok (Json.ofToken token)
    objectPairs := Python.dictOfPairs }
  refuses _ := none
  eqFloat x y := x == y
  gtFloat _ _ := false
  ltFloat _ _ := false
  repr _ := []
  search pattern text := pattern <:+: text

/-- A status request, and two steps that wait for nothing. -/
def sampleArgs : Args Text where
  steps :=
    [[(ascii "send", .dict [(ascii "command", .str (ascii "status"))]),
      (ascii "expect", .dict [(ascii "state", .str (ascii "READY"))]),
      (ascii "max_elapsed_ms", .int 250)],
      [(ascii "expect_timeout", .bool true)], [(ascii "expect_timeout", .bool true)]]
  logExpectRegex := some (ascii "dut_ready")

def sampleArrivals (index : Nat) : Attempt where
  sendError := none
  read := if index = 1 then .line (ascii "\x7b\"state\": \"READY\"\x7d\n") else .timesOut
  elapsedMs := 5

def sampleDut : Dut where
  missing := none
  ready := true
  exited := none
  connects := true
  arrivals := sampleArrivals
  log := ascii "INFO dut_ready"
  exitStatus := none
  stdout := []
  durationMs := 3000
  overran := false

/-- The result of the sample. -/
theorem exists_sampleRun :
    ∃ result, run sampleRuntime sampleArgs sampleDut = .ok result ∧ result.passed = true := by
  have hpassed :
      (run sampleRuntime sampleArgs sampleDut).toOption.any CheckResult.passed = true := by
    decide +kernel
  cases hrun : run sampleRuntime sampleArgs sampleDut with
  | error e =>
    rw [hrun] at hpassed
    cases hpassed
  | ok result =>
    rw [hrun] at hpassed
    exact ⟨result, rfl, hpassed⟩

theorem timeout_after_timeout_sample :
    ∃ before p after, sampleDut.attempts sampleRuntime sampleArgs = before ++ p :: after ∧
      after ≠ [] ∧ ∀ q ∈ after, reads sampleRuntime q.1 q.2 = true →
        flag sampleRuntime (ascii "expect_timeout") q.1 = true := by
  obtain ⟨result, hrun, hpassed⟩ := exists_sampleRun
  have hsplit : sampleDut.attempts sampleRuntime sampleArgs =
      [(sampleArgs.steps[0], sampleArrivals 1)] ++
        (sampleArgs.steps[1], sampleArrivals 2) ::
          [(sampleArgs.steps[2], { sampleArrivals 3 with read := .fails })] := rfl
  exact ⟨_, _, _, hsplit, List.cons_ne_nil _ _,
    timeout_after_timeout rfl hrun hpassed rfl hsplit rfl rfl⟩

end Sample

end Checks.Probe
