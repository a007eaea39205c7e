import Mathlib.Data.List.DropRight
import FlightTestLab.Learning.Storage
import FlightTestLab.Learning.Validity
import FlightTestLab.Library.Hoare
import FlightTestLab.Python.Url

/-!
# The handler of POST requests

`do_POST` with the checks on the headers, the body and the six endpoints, as a program over
the store, what the client sends and what it is sent. Each access to the store may raise, and
a read may wait for bytes that do not come. A validator is given by what it comes to.

## Main definitions

- `Learning.Handler.sameOrigin`, `Learning.Handler.readBody`: before a request is handled
- `Learning.Handler.doPost`: `do_POST`
-/

namespace Learning.Handler

open Hoare (Prog)
open Json (Text ascii)
open Python (Value Error FloatOps)

variable {F : Type}

section Platform

/-- `CheckResult` -/
structure CheckResult (F : Type) where
  name : Text
  passed : Bool
  exitStatus : Option Int
  stdout : Text
  stderr : Text
  durationMs : Int
  interpretation : Text
  timedOut : Bool
  details : Items F

/-- An exception of a validator: its traceback, the name of its type and its `str`. -/
structure Crash where
  traceback : Text
  type : Text
  message : Text

/-- What the server uses of the interpreter and of the machine. -/
structure Platform (F : Type) where
  floats : FloatOps F
  urls : Python.UrlRules
  /-- `int(text)`; none for its `ValueError`. -/
  int : Text → Option Int
  /-- `str(value)`, of what is no `str`. -/
  str : Value F → Text
  repr : Value F → Text
  /-- The text of JSON bytes; none for `UnicodeDecodeError`. -/
  decode : List Nat → Option Text
  /-- The nesting at which the scanner raises `RecursionError`. -/
  overflows : Json.Tree → Bool
  toolchain : Toolchain
  /-- `self.server.server_address[1]` -/
  port : Nat
  /-- `run_validator` -/
  runValidator : Value F → Items F → Except Crash (CheckResult F)

namespace Platform

variable (P : Platform F)

def lower : Text → Text := P.urls.lower

def strOf : Value F → Text
  | .str s => s
  | value => P.str value

/-- `json.loads`, as it is called here. -/
def decoder : Python.Decoder F where
  floats := P.floats
  overflows := P.overflows
  parseInt token := (P.int token).elim (.error .valueError) .ok
  objectPairs := Python.dictOfPairs

def loads (bytes : List Nat) : Except Error (Value F) :=
  match P.decode bytes with
  | none => .error .valueError
  | some text => Python.loads P.decoder text

end Platform

end Platform

section World

/-- What the client sends after the headers, and whether it ends there. -/
structure Stream where
  bytes : List Nat
  ended : Bool

/-- A JSON response. -/
structure Response (F : Type) where
  status : Nat
  payload : Value F

structure World (F : Type) where
  state : State F
  stream : Stream
  /-- The responses so far. -/
  sent : List (Response F)

/-- Why a handler does not return. -/
inductive Stop
  | raised (error : Error)
  /-- It waits for bytes that do not come. -/
  | waits
  deriving DecidableEq, Repr

abbrev Action (F α : Type) := Prog (World F) Stop α

def World.respond (response : Response F) (w : World F) : World F :=
  { w with sent := w.sent ++ [response] }

/-- `_send_json` -/
def sendJson (payload : Value F) (status : Nat) : Action F Unit :=
  Prog.modify (World.respond { status, payload })

/-- `_send_error_json` -/
def sendErrorJson (status : Nat) (message : Text) : Action F Unit :=
  sendJson (.dict [(ascii "error", .str message)]) status

/-- What the interpreter works out, or raises. -/
def attempt {α : Type} (x : Except Error α) : Action F α := Prog.lift (x.mapError Stop.raised)

/-- A call on the store that writes. -/
def update {α : Type} (op : State F → Except Error (α × State F)) : Action F α :=
  Prog.access fun w =>
    match op w.state with
    | .ok (a, s) => .ok (a, { w with state := s })
    | .error e => .error (.raised e)

/-- A call on the store of which only the new state matters. -/
def record (op : State F → Except Error (State F)) : Action F Unit :=
  update fun s => (op s).map fun s' => ((), s')

/-- A call on the store that reads. -/
def query {α : Type} (op : State F → Except Error α) : Action F α :=
  update fun s => (op s).map fun a => (a, s)

/-- `self.rfile.read(n)` -/
def read (n : Nat) : Action F (List Nat) :=
  Prog.access fun w =>
    if n ≤ w.stream.bytes.length ∨ w.stream.ended = true then
      .ok (w.stream.bytes.take n,
        { w with stream := { w.stream with bytes := w.stream.bytes.drop n } })
    else .error .waits

end World

section Headers

/-- The headers that are read: the first value of each. -/
structure Headers where
  contentType : Option Text
  host : Option Text
  origin : Option Text
  secFetchSite : Option Text
  contentLength : Option Text

structure Request where
  path : Text
  headers : Headers

variable (P : Platform F)

/-- `(self.headers.get("Content-Type") or "").split(";")[0].strip()` -/
def contentTypeOf (headers : Headers) : Text :=
  ((Python.partition 0x3B (headers.contentType.getD [])).1.dropWhile isSpace).rdropWhile isSpace

/-- `(self.headers.get("Host") or "").rsplit(":", 1)[0].strip("[]")` -/
def hostOf (headers : Headers) : Text :=
  let (before, after) := Python.rpartition 0x3A (headers.host.getD [])
  ((before.getD after).dropWhile (ascii "[]").contains).rdropWhile (ascii "[]").contains

/-- The names of the loopback interface. -/
def loopback : List Text := [ascii "127.0.0.1", ascii "localhost", ascii "::1"]

def isJson (headers : Headers) : Bool := P.lower (contentTypeOf headers) == ascii "application/json"

def isLoopback (headers : Headers) : Bool :=
  (hostOf headers).isEmpty || loopback.contains (hostOf headers)

/-- An origin is compared by its parts; a scheme stands for its port. -/
def isSameOrigin (origin : Text) : Except Error Bool := do
  let parsed ← Python.urlparse P.urls origin
  let port ← parsed.port
  let port := port.getD (if parsed.scheme = ascii "https" then 443 else 80)
  pure (parsed.scheme == ascii "http" && (parsed.hostname P.urls).any loopback.contains &&
    port == P.port)

/-- The check of `Sec-Fetch-Site`, the last of `_same_origin`. -/
def siteRefusal (headers : Headers) : Option Text :=
  match headers.secFetchSite with
  | none => none
  | some site =>
    if site = ascii "same-origin" ∨ site = ascii "none" then none
    else some (ascii "cross-site request (Sec-Fetch-Site: " ++ site ++ ascii ")")

/-- `_same_origin`: why the request may not mutate state, if it may not. -/
def sameOrigin (headers : Headers) : Except Error (Option Text) :=
  if !isJson P headers then .ok (some (ascii "Content-Type must be application/json"))
  else if !isLoopback headers then
    .ok (some (ascii "unexpected Host " ++ P.repr (.str (hostOf headers)) ++
      ascii "; this server is loopback-only"))
  else
    match headers.origin with
    | none => .ok (siteRefusal headers)
    | some origin => do
      let same ← isSameOrigin P origin
      if same then pure (siteRefusal headers)
      else pure (some (ascii "cross-origin request from " ++ P.repr (.str origin) ++
        ascii " is not allowed"))

end Headers

section Body

variable (P : Platform F)

/-- The largest body that is read. -/
def maxBody : Nat := 64 * 1024

/-- `_content_length` -/
def contentLength (headers : Headers) : Option Nat :=
  match headers.contentLength with
  | none => some 0
  | some raw =>
    match P.int raw with
    | none => none
    | some length => if 0 ≤ length then some length.toNat else none

/-- The loop of `_discard_body`; each round reads something. -/
def discard : Nat → Nat → Action F Unit
  | 0, remaining => if remaining = 0 then pure () else Prog.lift (.error .waits)
  | rounds + 1, remaining =>
    if remaining = 0 then pure ()
    else do
      let chunk ← read (min remaining 8192)
      if chunk.isEmpty then pure () else discard rounds (remaining - chunk.length)

/-- `_discard_body`; there are not more rounds than bytes. -/
def discardBody (headers : Headers) : Action F Unit :=
  let remaining := min ((contentLength P headers).getD 0) maxBody
  discard remaining remaining

/-- The object that the bytes of a body hold, if they do. -/
def bodyOf (bytes : List Nat) : Except Error (Option (Items F)) :=
  match P.loads bytes with
  | .ok (.dict items) => .ok (some items)
  | .ok _ | .error .valueError | .error .recursionError => .ok none
  | .error e => .error e

/-- `_read_body` -/
def readBody (headers : Headers) : Action F (Option (Items F)) :=
  match contentLength P headers with
  | none => pure none
  | some length =>
    if length = 0 ∨ maxBody < length then pure none
    else do
      let bytes ← read length
      attempt (bodyOf P bytes)

end Body

section Lessons

/-- `items[key]` -/
def item (key : Text) (items : Items F) : Except Error (Value F) :=
  (Assoc.get? key items).elim (.error .keyError) .ok

/-- The id of a loaded block is a `str`. -/
def sameId (blockId id : Value F) : Bool :=
  match id with
  | .str s => blockId.eqStr s
  | _ => false

/-- The first block of one of the types with the id: `quiz_block`, `explain_block` and the loop of
`_handle_validate`. -/
def findBlock (kinds : List Text) (blockId : Value F) :
    List (Items F) → Except Error (Option (Items F))
  | [] => .ok none
  | block :: blocks => do
    let type ← item (ascii "type") block
    if kinds.any (type.eqStr ·) then do
      let id ← item (ascii "id") block
      if sameId blockId id then .ok (some block) else findBlock kinds blockId blocks
    else findBlock kinds blockId blocks

variable (P : Platform F) (c : Curriculum F)

/-- `_lesson_or_404` -/
def lessonOr404 (lessonId : Value F) : Action F (Option (Lesson F)) :=
  match lessonId with
  | .str id =>
    match Assoc.get? id c.lessons with
    | none => do
      sendErrorJson 404 (ascii "unknown lesson " ++ P.repr (.str id))
      pure none
    | some lesson => pure (some lesson)
  | _ => do
    sendErrorJson 400 (ascii "lesson_id must be a string")
    pure none

/-- The rest of a handler, after `if lesson is None: return`. -/
def unlessNone {α : Type} (found : Option α) (rest : α → Action F Unit) : Action F Unit :=
  match found with
  | none => pure ()
  | some a => rest a

/-- The handlers of requests for a lesson. -/
def forLesson (body : Items F) (rest : Lesson F → Action F Unit) : Action F Unit := do
  let found ← lessonOr404 P c (Value.get (ascii "lesson_id") body)
  unlessNone found rest

/-- `record.get(key, default)` as a value. -/
def fieldValue {α : Type} (value : α → Value F) (default : Value F) : Field α → Value F
  | .absent => default
  | .null => .none
  | .val a => value a

/-- `lesson.unavailable_reason` -/
def reasonText : Reason F → Text
  | .given value => P.strOf value
  | .requirement name => requirementReason name P.toolchain

def statusText : Status → Text
  | .available => ascii "available"
  | .unavailable => ascii "unavailable"

/-- The level and the text of a hint. -/
def revealedHint (hint : Items F) : Except Error (Value F) := do
  let level ← item (ascii "level") hint
  let text ← item (ascii "text") hint
  pure (.dict [(ascii "level", level), (ascii "text", text)])

/-- `int(record.get("hints_used", 0) or 0)` -/
def hintsUsedOf (record : Option (LessonRecord F)) : Nat :=
  match record with
  | some { hintsUsed := .val n, .. } => n
  | _ => 0

/-- The `"progress"` of `_lesson_public`; without a record all is at its default. -/
def progressValue (record : Option (LessonRecord F)) (completed : Bool) (missing : List Missing) :
    Value F :=
  let of {α : Type} (field : LessonRecord F → Field α) (value : α → Value F) (default : Value F) :=
    fieldValue value default ((record.map field).getD .absent)
  .dict [(ascii "status", of (·.status) .str (.str notStarted)),
    (ascii "steps_done", of (·.stepsDone) idsValue (.list [])),
    (ascii "validations", of (·.validations) (mapValue Outcome.toValue) (.dict [])),
    (ascii "quiz_correct", of (·.quizCorrect) idsValue (.list [])),
    (ascii "explain_done", of (·.explainDone) idsValue (.list [])),
    (ascii "hints_used", of (·.hintsUsed) countValue (.int 0)),
    (ascii "complete", .bool completed),
    (ascii "missing", .list (missing.map fun entry => .str (entry.text fun id => P.repr (.str id))))]

/-- `_lesson_public` -/
def lessonPublic (lesson : Lesson F) : Action F (Value F) := do
  let snapshot ← query fun s => .ok s
  let record := snapshot.lessons.get? lesson.id
  let (completed, missing) ← query fun s => lessonCompletion P.floats s lesson (some c)
  let hints ← attempt ((lesson.hints.take (hintsUsedOf record)).mapM revealedHint)
  pure (.dict [(ascii "id", .str lesson.id), (ascii "day", .int lesson.day),
    (ascii "title", .str lesson.title), (ascii "objective", .str lesson.objective),
    (ascii "estimated_minutes", .int lesson.estimatedMinutes),
    (ascii "status", .str (statusText lesson.status)),
    (ascii "unavailable_reason", .str (reasonText P lesson.unavailableReason)),
    (ascii "concepts", idsValue lesson.concepts),
    (ascii "prerequisites", idsValue lesson.prerequisites),
    (ascii "source_files", idsValue lesson.sourceFiles),
    (ascii "flow", lesson.flow.elim .none .str), (ascii "blocks", .list (lesson.blocks.map .dict)),
    (ascii "hint_count", countValue lesson.hints.length), (ascii "revealed_hints", .list hints),
    (ascii "requirements", idsValue lesson.requirements),
    (ascii "progress", progressValue P record completed missing)])

end Lessons

/-- The clock of a request, and whether the server is shutting down before a validator runs and
after. -/
structure Moment where
  clock : Clock
  stopping : Bool
  stopped : Bool

section Endpoints

variable (P : Platform F) (c : Curriculum F) (m : Moment)

/-- `if lesson.status != "available"` with its answer. -/
def ifAvailable (lesson : Lesson F) (rest : Action F Unit) : Action F Unit :=
  if lesson.status ≠ .available then sendErrorJson 409 (ascii "lesson is unavailable") else rest

def handleStart (body : Items F) : Action F Unit :=
  forLesson P c body fun lesson => ifAvailable lesson do
    record fun s => markStarted m.clock s lesson.id
    let shown ← lessonPublic P c lesson
    sendJson shown 200

/-- The branch of `_handle_step` for `quiz` and `predict`. -/
def answerQuestion (lesson : Lesson F) (kind blockId : Text) (body : Items F) : Action F Unit := do
  let found ← attempt (findBlock [ascii "quiz", ascii "predict"] (.str blockId) lesson.blocks)
  match found.filter (hasType kind) with
  | none => sendErrorJson 404 (ascii "unknown " ++ kind ++ ascii " block")
  | some block =>
    match (Value.get (ascii "answer_index") body).asInt? with
    | none => sendErrorJson 400 (ascii "answer_index required")
    | some answer => do
      let index ← attempt (item (ascii "answer_index") block)
      let correct := index.eqInt P.floats answer
      record fun s =>
        if kind = ascii "quiz" then
          recordQuiz m.clock s lesson.id blockId correct lesson.concepts
        else recordStep s lesson.id blockId
      sendJson (.dict [(ascii "correct", .bool correct),
        (ascii "explanation",
          getD block (ascii "reveal") (getD block (ascii "explanation") (.str []))),
        (ascii "answer_index", index)]) 200

/-- `len(text.split())`, from inside or outside of a word. -/
def countWords (inside : Bool) : Text → Nat
  | [] => 0
  | c :: s =>
    if isSpace c then countWords false s else (if inside then 0 else 1) + countWords true s

/-- `MIN_EXPLAIN_WORDS` -/
def minExplainWords : Nat := 12

/-- The keywords that a text holds, in any case. -/
def matched (keywords : List Text) (text : Text) : List Text :=
  keywords.filter fun keyword => P.lower keyword <:+: P.lower text

/-- The keywords of a loaded block are strings. -/
def keywordsOf (value : Value F) : Except Error (List Text) :=
  match value with
  | .list vs => (strings vs).elim (.error .attributeError) .ok
  | _ => .error .typeError

/-- The branch of `_handle_step` for `explain`. -/
def answerExplain (lesson : Lesson F) (blockId : Text) (body : Items F) : Action F Unit := do
  let found ← attempt (findBlock [ascii "explain"] (.str blockId) lesson.blocks)
  match found with
  | none => sendErrorJson 404 (ascii "unknown explain block")
  | some block =>
    match Value.get (ascii "answer_text") body with
    | .str text =>
      if text.all isSpace then sendErrorJson 400 (ascii "answer_text required")
      else do
        let value ← attempt (item (ascii "keywords") block)
        let keywords ← attempt (keywordsOf value)
        let hits := matched P keywords text
        let passed := !hits.isEmpty && minExplainWords ≤ countWords false text
        record fun s => recordExplain m.clock s lesson.id blockId passed lesson.concepts
        let sample ← attempt (item (ascii "sample_answer") block)
        sendJson (.dict [(ascii "passed", .bool passed), (ascii "matched_keywords", idsValue hits),
          (ascii "too_short", .bool (!hits.isEmpty && countWords false text < minExplainWords)),
          (ascii "sample_answer", sample)]) 200
    | _ => sendErrorJson 400 (ascii "answer_text required")

def handleStep (body : Items F) : Action F Unit :=
  forLesson P c body fun lesson =>
    match Value.get (ascii "block_id") body, Value.get (ascii "kind") body with
    | .str blockId, .str kind =>
      if kind = ascii "learn" ∨ kind = ascii "do" then do
        record fun s => recordStep s lesson.id blockId
        sendJson (.dict [(ascii "recorded", .bool true)]) 200
      else if kind = ascii "quiz" ∨ kind = ascii "predict" then
        answerQuestion P m lesson kind blockId body
      else if kind = ascii "explain" then answerExplain P m lesson blockId body
      else sendErrorJson 400 (ascii "unknown step kind " ++ P.repr (.str kind))
    | _, _ => sendErrorJson 400 (ascii "block_id and kind required")

/-- `lesson.hints[index]`, when the index is an `int` in range. -/
def hintAt (lesson : Lesson F) (index : Value F) : Option (Nat × Items F) :=
  match index.asInt? with
  | none => none
  | some i => if 0 ≤ i then lesson.hints[i.toNat]?.map fun hint => (i.toNat, hint) else none

def handleHint (body : Items F) : Action F Unit :=
  forLesson P c body fun lesson =>
    match hintAt lesson (Value.get (ascii "index") body) with
    | none => sendErrorJson 400 (ascii "hint index out of range")
    | some (index, hint) => do
      let revealed ← update fun s => do
        let (revealed, s', _) ← recordHint s lesson.id index
        pure (revealed, s')
      let level ← attempt (item (ascii "level") hint)
      let text ← attempt (item (ascii "text") hint)
      sendJson (.dict [(ascii "level", level), (ascii "text", text),
        (ascii "total", countValue lesson.hints.length),
        (ascii "revealed", countValue revealed)]) 200

/-- `CheckResult.to_dict` -/
def CheckResult.toDict (result : CheckResult F) : Value F :=
  .dict [(ascii "name", .str result.name), (ascii "passed", .bool result.passed),
    (ascii "exit_status", result.exitStatus.elim .none .int), (ascii "stdout", .str result.stdout),
    (ascii "stderr", .str result.stderr), (ascii "duration_ms", .int result.durationMs),
    (ascii "interpretation", .str result.interpretation),
    (ascii "timed_out", .bool result.timedOut), (ascii "details", .dict result.details)]

/-- `MAX_OUTPUT_CHARS` -/
def maxOutputChars : Nat := 4000

def truncate (text : Text) : Text :=
  if text.length ≤ maxOutputChars then text
  else text.take maxOutputChars ++ ascii "\n... [truncated]"

/-- The result that stands for a validator that raised. -/
def crashResult (validator : Value F) (crash : Crash) : CheckResult F where
  name := P.strOf validator
  passed := false
  exitStatus := none
  stdout := []
  stderr := truncate crash.traceback
  durationMs := 0
  interpretation := ascii "The check could not run: " ++ crash.type ++ ascii ": " ++ crash.message ++
    ascii ". That is a fault in the check itself, not in your work — " ++
    ascii "but nothing was verified, so the gate stays shut."
  timedOut := false
  details := []

/-- What is added to the interpretation of a check that has been recorded as passing before. -/
def standingNote : Text :=
  ascii "\n\nThis is a red-stage check: you already recorded it passing, and that record stands. " ++
    ascii "It stops reproducing once the lesson's work is done — which is the " ++
    ascii "point — so your completion is not affected."

/-- `_handle_validate`, after the run. -/
def recordResult (lesson : Lesson F) (block : Items F) (blockId : Text) (result : CheckResult F)
    (crashed : Bool) : Action F Unit := do
  let historical := flag P.floats (ascii "historical") block
  let alreadySeen ← query fun s =>
    if historical then validationPassed s lesson.id blockId else .ok false
  record fun s => recordValidation m.clock s lesson.id blockId result.passed
    (flag P.floats (ascii "mandatory") block) (if crashed then [] else lesson.concepts) historical
  let shown :=
    if alreadySeen && !result.passed then
      { result with interpretation := result.interpretation ++ standingNote }
    else result
  sendJson shown.toDict 200

/-- The run of the validator, with the lock held. -/
def runCheck (lesson : Lesson F) (block : Items F) (blockId : Text) (args : Items F) :
    Action F Unit :=
  if m.stopping then
    sendErrorJson 503
      (ascii "the learning server is shutting down; this check was " ++ ascii "not started")
  else do
    let validator ← attempt (item (ascii "validator") block)
    match P.runValidator validator args with
    -- the `except` clause, past the second test of `shutting_down`
    | .error crash => recordResult P m lesson block blockId (crashResult P validator crash) true
    | .ok result =>
      if m.stopped then
        sendErrorJson 503 (ascii "the learning server is shutting down; this check was " ++
          ascii "stopped and its result discarded")
      else recordResult P m lesson block blockId result false

def handleValidate (body : Items F) : Action F Unit :=
  forLesson P c body fun lesson => ifAvailable lesson do
    let blockId := Value.get (ascii "block_id") body
    let found ← attempt (findBlock [ascii "verify"] blockId lesson.blocks)
    match found with
    | none => sendErrorJson 404 (ascii "lesson " ++ P.repr (.str lesson.id) ++
        ascii " has no verify block " ++ P.repr blockId)
    | some block =>
      match getD block (ascii "args") (.dict []) with
      | .dict args => runCheck P m lesson block (P.strOf blockId) args
      | _ => sendErrorJson 500 (ascii "bad validator args")

def handleComplete (body : Items F) : Action F Unit :=
  forLesson P c body fun lesson => do
    let (completed, missing) ← update fun s => do
      let (answer, written) ← markComplete P.floats m.clock s lesson (some c)
      pure (answer, written.getD s)
    if completed then do
      let resume ← query fun s => resumeLessonId P.floats s c
      sendJson (.dict [(ascii "complete", .bool true), (ascii "next_lesson_id", .str resume)]) 200
    else
      sendJson (.dict [(ascii "complete", .bool false), (ascii "missing",
        .list (missing.map fun entry => .str (entry.text fun id => P.repr (.str id))))]) 409

def handleInterviewAnswer (body : Items F) : Action F Unit :=
  match Value.get (ascii "answer_text") body with
  | .str text =>
    if text.all isSpace then sendErrorJson 400 (ascii "answer_text required")
    else
      match c.interview.find? fun question => (Value.get (ascii "question_id") body).eqStr question.id with
      | none => sendErrorJson 404 (ascii "unknown question")
      | some question => do
        let hits := matched P question.keywords text
        record fun s =>
          recordInterview m.clock s question.id (!hits.isEmpty) question.concepts
        sendJson (.dict [(ascii "correct", .bool !hits.isEmpty),
          (ascii "matched_keywords", idsValue hits),
          (ascii "sample_answer", .str question.sampleAnswer)]) 200
  | _ => sendErrorJson 400 (ascii "answer_text required")

/-- The choice of the endpoint. -/
def route (path : Text) (body : Items F) : Action F Unit :=
  if path = ascii "/api/start" then handleStart P c m body
  else if path = ascii "/api/step" then handleStep P c m body
  else if path = ascii "/api/hint" then handleHint P c body
  else if path = ascii "/api/validate" then handleValidate P c m body
  else if path = ascii "/api/complete" then handleComplete P c m body
  else if path = ascii "/api/interview/answer" then handleInterviewAnswer P c m body
  else sendErrorJson 404 (ascii "not found")

/-- `do_POST` -/
def doPost (request : Request) : Action F Unit := do
  let url ← attempt (Python.urlparse P.urls request.path)
  let refusal ← attempt (sameOrigin P request.headers)
  match refusal with
  | some reason => do
    discardBody P request.headers
    sendErrorJson 403 reason
  | none => do
    let body ← readBody P request.headers
    match body with
    | none => sendErrorJson 400 (ascii "invalid JSON body")
    | some body => route P c m url.path body

end Endpoints

end Learning.Handler
