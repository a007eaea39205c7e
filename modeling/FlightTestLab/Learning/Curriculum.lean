import FlightTestLab.Python.Json

/-!
# The curriculum loader

`curriculum.py` from decoded JSON documents to a `Curriculum`. Every message of
`CurriculumError` is a constructor; what would escape as another exception is kept
apart. A file is what `json.loads` makes of it.

## Main definitions

- `Learning.Lesson`, `Learning.Curriculum`: the loaded content
- `Learning.validateBlocks`, `Learning.parseLesson`: the schema checks
- `Learning.loadCurriculum`: `load_curriculum`
-/

namespace Learning

open Json (Text ascii)
open Python (Value FloatOps)

variable {F : Type}

/-- The items of a JSON object. -/
abbrev Items (F : Type) := List (Text × Value F)

/-- A content file. -/
inductive Path
  | program
  | module (name : Text)
  | interview
  | flow (stem : Text)
  deriving DecidableEq, Repr

/-- The messages of `CurriculumError`. -/
inductive Defect (F : Type)
  | invalidJson
  | notAnObject
  | missingString (key : Text)
  | notStringList (key : Text)
  | unknownBlockType (type : Value F)
  | missingBlockId (type : Text)
  | duplicateBlockId (id : Text)
  | missingBlockKey (type id key : Text)
  | unknownValidator (id : Text) (validator : Value F)
  | tooFewOptions (type id : Text)
  | badAnswerIndex (type id : Text)
  | noKeywords (id : Text)
  | badMinutes
  | badStatus (status : Value F)
  | noUnavailableReason
  | unknownRequires (requirement : Text)
  | noBlocks
  | blocksNotObjects
  | hintsNotObjects
  | badHint (number : Nat)
  | noConcepts
  | noDays
  | dayNotObject
  | badDayNumber
  | missingModule (day : Int)
  | badModule
  | lessonNotObject
  | duplicateLesson (id : Text)
  | unknownLessonConcept (id concept : Text)
  | noLessons
  | unknownPrerequisite (id prerequisite : Text)
  | selfPrerequisite (id : Text)
  | laterPrerequisite (id prerequisite : Text)
  | badInterview
  | noQuestions
  | questionNotObject
  | duplicateQuestion (id : Text)
  | noQuestionKeywords (id : Text)
  | unknownQuestionConcept (id concept : Text)
  | badFlow
  | unknownFlow (id flow : Text)

/-- How loading fails: a `CurriculumError`, or an exception that it does not catch. -/
inductive LoadError (F : Type)
  | curriculum (path : Path) (defect : Defect F)
  | raised (error : Python.Error)

/-- The native tools that were found, by path. -/
structure Toolchain where
  cmake : Option Text := none
  ctest : Option Text := none
  cxx : Option Text := none
  gdb : Option Text := none
  ninja : Option Text := none
  make : Option Text := none

namespace Toolchain

/-- The truth value of a path that may be `None`. -/
def has (tool : Option Text) : Bool := tool.any fun path => !path.isEmpty

def canBuildCpp (t : Toolchain) : Bool :=
  has t.cmake && has t.ctest && has t.cxx && (has t.ninja || has t.make)

def canDebug (t : Toolchain) : Bool := has t.gdb

def satisfies (t : Toolchain) (requirement : Text) : Bool :=
  if requirement = ascii "cpp-build" then t.canBuildCpp
  else if requirement = ascii "gdb" then t.canDebug
  else false

end Toolchain

inductive Status
  | available
  | unavailable
  deriving DecidableEq, Repr

/-- `unavailable_reason`: `str` of the given value, or the text for a missing requirement. -/
inductive Reason (F : Type)
  | given (value : Value F)
  | requirement (name : Text)

structure Lesson (F : Type) where
  id : Text
  day : Int
  title : Text
  objective : Text
  estimatedMinutes : Int
  status : Status
  unavailableReason : Reason F
  concepts : List Text
  prerequisites : List Text
  sourceFiles : List Text
  flow : Option Text
  blocks : List (Items F)
  hints : List (Items F)
  requirements : List Text
  requires : List Text

/-- A day of the program; `summary` is the value whose `str` is shown. -/
structure Day (F : Type) where
  day : Int
  title : Text
  summary : Value F
  lessonIds : List Text

structure InterviewQuestion where
  id : Text
  question : Text
  concepts : List Text
  keywords : List Text
  sampleAnswer : Text

structure Curriculum (F : Type) where
  concepts : List Text
  days : List (Day F)
  lessons : List (Text × Lesson F)
  orderedLessonIds : List Text
  interview : List InterviewQuestion
  flows : List (Text × Items F)

section Blocks

/-- `block["type"] == kind` -/
def hasType (kind : Text) (block : Items F) : Bool := (Value.get (ascii "type") block).eqStr kind

/-- `block["id"]` of a loaded block. -/
def blockId (block : Items F) : Text :=
  match Value.get (ascii "id") block with
  | .str s => s
  | _ => []

/-- `bool(block.get(key, False))` -/
def flag (fl : FloatOps F) (key : Text) (block : Items F) : Bool :=
  (Value.get key block).truthy fl

namespace Lesson

def mandatoryValidators (fl : FloatOps F) (lesson : Lesson F) : List (Items F) :=
  lesson.blocks.filter fun block => hasType (ascii "verify") block && flag fl (ascii "mandatory") block

def requiredQuizIds (lesson : Lesson F) : List Text :=
  (lesson.blocks.filter (hasType (ascii "quiz"))).map blockId

def requiredExplainIds (lesson : Lesson F) : List Text :=
  (lesson.blocks.filter (hasType (ascii "explain"))).map blockId

end Lesson

end Blocks

/-- The files under `root`, the registered validators and the machine. -/
structure Sources (F : Type) where
  floats : FloatOps F
  /-- `json.loads` of a file's text -/
  json : Path → Except Python.Error (Value F)
  /-- the stems of the flow files in sorted order, when the directory exists -/
  flowStems : Option (List Text)
  knownValidators : List Text
  toolchain : Toolchain

section Checks

def blockTypes : List Text :=
  [ascii "learn", ascii "predict", ascii "do", ascii "verify", ascii "quiz", ascii "explain"]

def knownRequirements : List Text := [ascii "cpp-build", ascii "gdb"]

/-- `BLOCK_REQUIRED_KEYS` -/
def blockRequiredKeys : List (Text × List Text) :=
  [(ascii "learn", [ascii "text"]),
    (ascii "predict", [ascii "question", ascii "options", ascii "answer_index", ascii "reveal"]),
    (ascii "do", [ascii "instructions"]),
    (ascii "verify", [ascii "validator"]),
    (ascii "quiz", [ascii "question", ascii "options", ascii "answer_index"]),
    (ascii "explain", [ascii "question", ascii "keywords", ascii "sample_answer"])]

/-- The code points that `str.strip` removes. -/
def isSpace (c : Nat) : Bool :=
  (0x09 ≤ c ∧ c ≤ 0x0D) ∨ (0x1C ≤ c ∧ c ≤ 0x20) ∨ c = 0x85 ∨ c = 0xA0 ∨ c = 0x1680 ∨
    (0x2000 ≤ c ∧ c ≤ 0x200A) ∨ c = 0x2028 ∨ c = 0x2029 ∨ c = 0x202F ∨ c = 0x205F ∨ c = 0x3000

/-- `_fail`, unless the condition holds. -/
def require (ok : Bool) (path : Path) (defect : Defect F) : Except (LoadError F) Unit :=
  if ok then .ok () else .error (.curriculum path defect)

/-- `value in some_set` needs a hashable value. -/
def requireHashable (value : Value F) : Except (LoadError F) Unit :=
  if value.hashable then .ok () else .error (.raised .typeError)

def requireStr (data : Items F) (key : Text) (path : Path) : Except (LoadError F) Text :=
  match Value.get key data with
  | .str s => if s.all isSpace then .error (.curriculum path (.missingString key)) else .ok s
  | _ => .error (.curriculum path (.missingString key))

/-- `data.get(key, default)` -/
def getD (data : Items F) (key : Text) (default : Value F) : Value F :=
  (Assoc.get? key data).getD default

/-- The strings of a list that holds only strings. -/
def strings : List (Value F) → Option (List Text)
  | [] => some []
  | .str s :: vs => (strings vs).map (s :: ·)
  | _ => none

/-- The objects of a list that holds only objects. -/
def objects : List (Value F) → Option (List (Items F))
  | [] => some []
  | .dict items :: vs => (objects vs).map (items :: ·)
  | _ => none

def requireStrList (data : Items F) (key : Text) (path : Path) :
    Except (LoadError F) (List Text) :=
  match getD data key (.list []) with
  | .list vs =>
    match strings vs with
    | some ss => .ok ss
    | none => .error (.curriculum path (.notStringList key))
  | _ => .error (.curriculum path (.notStringList key))

def loadJson (S : Sources F) (path : Path) : Except (LoadError F) (Value F) :=
  match S.json path with
  | .ok v => .ok v
  | .error .valueError | .error .recursionError => .error (.curriculum path .invalidJson)
  | .error e => .error (.raised e)

/-- The checks of `_validate_blocks` that depend on the block's type. -/
def validateKind (S : Sources F) (path : Path) (kind id : Text) (block : Items F) :
    Except (LoadError F) Unit :=
  if kind = ascii "verify" then do
    let validator := Value.get (ascii "validator") block
    requireHashable validator
    require (S.knownValidators.any (validator.eqStr ·)) path (.unknownValidator id validator)
  else if kind = ascii "quiz" ∨ kind = ascii "predict" then
    match Value.get (ascii "options") block with
    | .list options => do
      require (2 ≤ options.length) path (.tooFewOptions kind id)
      require ((Value.get (ascii "answer_index") block).asInt?.any
        fun i : Int => 0 ≤ i && i < options.length) path (.badAnswerIndex kind id)
    | _ => .error (.curriculum path (.tooFewOptions kind id))
  else if kind = ascii "explain" then do
    let keywords ← requireStrList block (ascii "keywords") path
    require (!keywords.isEmpty) path (.noKeywords id)
  else .ok ()

/-- One round of `_validate_blocks`: the block's id. -/
def validateBlock (S : Sources F) (path : Path) (seen : List Text) (block : Items F) :
    Except (LoadError F) Text := do
  let type := Value.get (ascii "type") block
  requireHashable type
  match blockTypes.find? (type.eqStr ·) with
  | none => .error (.curriculum path (.unknownBlockType type))
  | some kind =>
    match Value.get (ascii "id") block with
    | .str [] => .error (.curriculum path (.missingBlockId kind))
    | .str id => do
      require (!seen.contains id) path (.duplicateBlockId id)
      ((Assoc.get? kind blockRequiredKeys).getD []).forM fun key =>
        require (Assoc.get? key block).isSome path (.missingBlockKey kind id key)
      validateKind S path kind id block
      pure id
    | _ => .error (.curriculum path (.missingBlockId kind))

/-- `_validate_blocks`, from the ids already seen. -/
def validateBlocks (S : Sources F) (path : Path) (seen : List Text) :
    List (Items F) → Except (LoadError F) Unit
  | [] => .ok ()
  | block :: blocks => do
    let id ← validateBlock S path seen block
    validateBlocks S path (id :: seen) blocks

/-- The loop over `requires`: the first requirement the machine does not meet. -/
def firstMissing (S : Sources F) (path : Path) : List Text → Except (LoadError F) (Option Text)
  | [] => .ok none
  | requirement :: rest => do
    require (knownRequirements.contains requirement) path (.unknownRequires requirement)
    if S.toolchain.satisfies requirement then firstMissing S path rest else .ok (some requirement)

/-- The loop over `hints`; `number` is the next level. -/
def checkHints (S : Sources F) (path : Path) (number : Nat) :
    List (Items F) → Except (LoadError F) Unit
  | [] => .ok ()
  | hint :: hints => do
    require ((Value.get (ascii "level") hint).eqInt S.floats number &&
      match Value.get (ascii "text") hint with
      | .str _ => true
      | _ => false) path (.badHint number)
    checkHints S path (number + 1) hints

def parseStatus (data : Items F) (path : Path) : Except (LoadError F) Status :=
  let status := getD data (ascii "status") (.str (ascii "available"))
  if status.eqStr (ascii "available") then .ok .available
  else if status.eqStr (ascii "unavailable") then .ok .unavailable
  else .error (.curriculum path (.badStatus status))

/-- The value of a list of objects under a key. -/
def requireObjects (value : Value F) (path : Path) (defect : Defect F) :
    Except (LoadError F) (List (Items F)) :=
  match value with
  | .list vs =>
    match objects vs with
    | some blocks => .ok blocks
    | none => .error (.curriculum path defect)
  | _ => .error (.curriculum path defect)

def parseLesson (S : Sources F) (data : Items F) (day : Int) (path : Path) :
    Except (LoadError F) (Lesson F) := do
  let id ← requireStr data (ascii "id") path
  let title ← requireStr data (ascii "title") path
  let objective ← requireStr data (ascii "objective") path
  let estimated := (Value.get (ascii "estimated_minutes") data).asInt?.getD 0
  require (0 < estimated) path .badMinutes
  let status ← parseStatus data path
  let reason := getD data (ascii "unavailable_reason") (.str [])
  require (status ≠ .unavailable || !reason.eqStr []) path .noUnavailableReason
  let requires ← requireStrList data (ascii "requires") path
  let missing ← firstMissing S path requires
  let status := if missing.isSome then Status.unavailable else status
  let reason := (missing.map Reason.requirement).getD (.given reason)
  let blocks := getD data (ascii "blocks") (.list [])
  require (status ≠ .available || blocks.truthy S.floats) path .noBlocks
  let blocks ← requireObjects blocks path .blocksNotObjects
  validateBlocks S path [] blocks
  let hints ← requireObjects (getD data (ascii "hints") (.list [])) path .hintsNotObjects
  checkHints S path 1 hints
  let concepts ← requireStrList data (ascii "concepts") path
  let prerequisites ← requireStrList data (ascii "prerequisites") path
  let sourceFiles ← requireStrList data (ascii "source_files") path
  let requirements ← requireStrList data (ascii "requirements") path
  let flow :=
    match Value.get (ascii "flow") data with
    | .str s => some s
    | _ => none
  pure { id, day, title, objective, estimatedMinutes := estimated, status,
         unavailableReason := reason, concepts, prerequisites, sourceFiles, flow, blocks, hints,
         requirements, requires }

end Checks

section Load

/-- The lessons of one module, added to those of the days before. -/
def loadLessons (S : Sources F) (concepts : List Text) (day : Int) (path : Path)
    (lessons : List (Text × Lesson F)) :
    List (Value F) → Except (LoadError F) (List (Text × Lesson F))
  | [] => .ok lessons
  | .dict raw :: rest => do
    let lesson ← parseLesson S raw day path
    require (Assoc.get? lesson.id lessons).isNone path (.duplicateLesson lesson.id)
    lesson.concepts.forM fun concept =>
      require (concepts.contains concept) path (.unknownLessonConcept lesson.id concept)
    loadLessons S concepts day path (lessons ++ [(lesson.id, lesson)]) rest
  | _ :: _ => .error (.curriculum path .lessonNotObject)

/-- One entry of `days`, with the lessons before it. -/
def loadDay (S : Sources F) (concepts : List Text) (lessons : List (Text × Lesson F))
    (entry : Value F) : Except (LoadError F) (Day F × List (Text × Lesson F)) :=
  match entry with
  | .dict entry => do
    let day := (Value.get (ascii "day") entry).asInt?.getD 0
    require (0 < day) .program .badDayNumber
    match Value.get (ascii "module") entry with
    | .str name => do
      let title ← requireStr entry (ascii "title") .program
      let summary := getD entry (ascii "summary") (.str [])
      let module ← loadJson S (.module name)
      match module with
      | .dict items =>
        match Value.get (ascii "lessons") items with
        | .list raws => do
          let extended ← loadLessons S concepts day (.module name) lessons raws
          let lessonIds := (extended.drop lessons.length).map Prod.fst
          pure ({ day, title, summary, lessonIds }, extended)
        | _ => .error (.curriculum (.module name) .badModule)
      | _ => .error (.curriculum (.module name) .badModule)
    | _ => .error (.curriculum .program (.missingModule day))
  | _ => .error (.curriculum .program .dayNotObject)

def loadDays (S : Sources F) (concepts : List Text) (lessons : List (Text × Lesson F)) :
    List (Value F) → Except (LoadError F) (List (Day F) × List (Text × Lesson F))
  | [] => .ok ([], lessons)
  | entry :: entries => do
    let (day, lessons) ← loadDay S concepts lessons entry
    let (days, lessons) ← loadDays S concepts lessons entries
    pure (day :: days, lessons)

/-- A lesson's prerequisites are known, not itself, and earlier in the program. -/
def checkPrerequisites (ordered : List Text) (lesson : Lesson F) : Except (LoadError F) Unit :=
  lesson.prerequisites.forM fun prerequisite => do
    require (ordered.contains prerequisite) .program
      (.unknownPrerequisite lesson.id prerequisite)
    require (prerequisite ≠ lesson.id) .program (.selfPrerequisite lesson.id)
    require (ordered.idxOf prerequisite ≤ ordered.idxOf lesson.id) .program
      (.laterPrerequisite lesson.id prerequisite)

def loadQuestion (concepts seen : List Text) (raw : Items F) :
    Except (LoadError F) InterviewQuestion := do
  let id ← requireStr raw (ascii "id") .interview
  require (!seen.contains id) .interview (.duplicateQuestion id)
  let question ← requireStr raw (ascii "question") .interview
  let sampleAnswer ← requireStr raw (ascii "sample_answer") .interview
  let keywords ← requireStrList raw (ascii "keywords") .interview
  require (!keywords.isEmpty) .interview (.noQuestionKeywords id)
  let questionConcepts ← requireStrList raw (ascii "concepts") .interview
  questionConcepts.forM fun concept =>
    require (concepts.contains concept) .interview (.unknownQuestionConcept id concept)
  pure { id, question, concepts := questionConcepts, keywords, sampleAnswer }

def loadQuestions (concepts seen : List Text) :
    List (Value F) → Except (LoadError F) (List InterviewQuestion)
  | [] => .ok []
  | .dict raw :: rest => do
    let question ← loadQuestion concepts seen raw
    let questions ← loadQuestions concepts (question.id :: seen) rest
    pure (question :: questions)
  | _ :: _ => .error (.curriculum .interview .questionNotObject)

def loadInterview (S : Sources F) (concepts : List Text) :
    Except (LoadError F) (List InterviewQuestion) := do
  let raw ← loadJson S .interview
  match raw with
  | .dict items =>
    match Value.get (ascii "questions") items with
    | .list questions => do
      require (!questions.isEmpty) .interview .noQuestions
      loadQuestions concepts [] questions
    | _ => .error (.curriculum .interview .badInterview)
  | _ => .error (.curriculum .interview .badInterview)

def loadFlows (S : Sources F) : List Text → Except (LoadError F) (List (Text × Items F))
  | [] => .ok []
  | stem :: stems => do
    let raw ← loadJson S (.flow stem)
    match raw with
    | .dict items =>
      match Value.get (ascii "stages") items with
      | .list _ => do
        let flows ← loadFlows S stems
        pure ((stem, items) :: flows)
      | _ => .error (.curriculum (.flow stem) .badFlow)
    | _ => .error (.curriculum (.flow stem) .badFlow)

def checkFlow (flows : List (Text × Items F)) (lesson : Lesson F) : Except (LoadError F) Unit :=
  match lesson.flow with
  | none => .ok ()
  | some flow => require (Assoc.get? flow flows).isSome .program (.unknownFlow lesson.id flow)

/-- `load_curriculum` -/
def loadCurriculum (S : Sources F) : Except (LoadError F) (Curriculum F) := do
  let program ← loadJson S .program
  match program with
  | .dict program => do
    let concepts ← requireStrList program (ascii "concepts") .program
    require (!concepts.isEmpty) .program .noConcepts
    match Value.get (ascii "days") program with
    | .list (entry :: entries) => do
      let (days, lessons) ← loadDays S concepts [] (entry :: entries)
      let ordered := lessons.map Prod.fst
      require (!ordered.isEmpty) .program .noLessons
      lessons.forM fun lesson => checkPrerequisites ordered lesson.2
      let interview ← loadInterview S concepts
      let flows ← loadFlows S (S.flowStems.getD [])
      lessons.forM fun lesson => checkFlow flows lesson.2
      pure { concepts, days, lessons, orderedLessonIds := ordered, interview, flows }
    | _ => .error (.curriculum .program .noDays)
  | _ => .error (.curriculum .program .notAnObject)

end Load

end Learning
