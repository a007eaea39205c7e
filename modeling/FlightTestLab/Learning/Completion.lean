import FlightTestLab.Learning.Curriculum
import FlightTestLab.Learning.Progress

/-!
# Completion and the calls on the store

The gates of a lesson, the walk over its prerequisites with the shared set of seen
lessons, and every call the server makes on the store. The walk is given a bound on
its recursion; the store runs it with one level for each lesson and one to spare.

## Main definitions

- `Learning.lessonCompletion`: what a lesson is still missing
- `Learning.lessonIsComplete`: the recursive completion test
- `Learning.completionMap`, `Learning.resumeLessonId`: what navigation reads
- `Learning.Call`, `Learning.perform`: the calls on the store
-/

namespace Learning

open Json (Text ascii)
open Python (Value Error FloatOps)

variable {F : Type}

/-- The entries of the list of missing requirements. -/
inductive Missing
  | unavailable
  | notStarted
  | prerequisite (id : Text)
  | validation (id : Text)
  | quiz (id : Text)
  | explain (id : Text)
  deriving DecidableEq, Repr

namespace Missing

/-- The text of an entry; `repr` is the interpreter's, on strings. -/
def text (repr : Text → Text) : Missing → Text
  | .unavailable => ascii "lesson is unavailable"
  | .notStarted => ascii "lesson not started"
  | .prerequisite id => ascii "prerequisite " ++ repr id ++ ascii " is not complete"
  | .validation id => ascii "mandatory validation " ++ repr id ++ ascii " not passed"
  | .quiz id => ascii "quiz " ++ repr id ++ ascii " not answered correctly"
  | .explain id => ascii "explain " ++ repr id ++ ascii " not answered"

end Missing

section Gates

/-- `isinstance(outcome, dict) and outcome.get("passed") is True` -/
def hasPassed (validations : Dict Text Outcome) (blockId : Text) : Bool :=
  (validations.get? blockId).any (·.passed.is true)

/-- The loop over the mandatory validators. -/
def missingValidations (validations : Field (Dict Text Outcome)) :
    List (Items F) → Except Error (List Missing)
  | [] => .ok []
  | block :: blocks => do
    let outcomes ← validations.use .attributeError
    let rest ← missingValidations validations blocks
    pure (if hasPassed outcomes (blockId block) then rest else .validation (blockId block) :: rest)

/-- A loop over required ids that have to be in a list of the record. -/
def missingIds (done : Field (List Text)) (entry : Text → Missing) :
    List Text → Except Error (List Missing)
  | [] => .ok []
  | id :: ids => do
    let present ← done.use .typeError
    let rest ← missingIds done entry ids
    pure (if present.contains id then rest else entry id :: rest)

/-- What a record is missing of the lesson's own gates. -/
def missingGates (fl : FloatOps F) (lesson : Lesson F) (record : LessonRecord F) :
    Except Error (List Missing) := do
  -- `record["validations"]` is read before the loop
  if record.validations = .absent then .error .keyError
  else
    let validations ← missingValidations record.validations (lesson.mandatoryValidators fl)
    let quizzes ← missingIds record.quizCorrect .quiz lesson.requiredQuizIds
    let explains ← missingIds record.explainDone .explain lesson.requiredExplainIds
    pure (validations ++ quizzes ++ explains)

end Gates

section Walk

/-- The loop over the prerequisites; `check` adds to the seen lessons. -/
def missingPrerequisites (check : List Text → Text → Except Error (Bool × List Text))
    (seen : List Text) : List Text → Except Error (List Missing)
  | [] => .ok []
  | prerequisite :: rest => do
    let (complete, seen) ← check seen prerequisite
    let missing ← missingPrerequisites check seen rest
    pure (if complete then missing else .prerequisite prerequisite :: missing)

/-- `_lesson_completion_locked`, given the test for a prerequisite: the missing list. -/
def completionWith (fl : FloatOps F)
    (check : List Text → Text → Except Error (Bool × List Text)) (s : State F)
    (lesson : Lesson F) (seen : List Text) : Except Error (List Missing) :=
  if lesson.status = .unavailable then .ok [.unavailable]
  else
    match s.lessons.get? lesson.id with
    | none => .ok [.notStarted]
    | some record => do
      let seen := if seen.contains lesson.id then seen else lesson.id :: seen
      let prerequisites ← missingPrerequisites check seen lesson.prerequisites
      let gates ← missingGates fl lesson record
      pure (prerequisites ++ gates)

/-- `_lesson_is_complete_locked` with a recursion limit: the answer and the seen lessons. -/
def lessonIsComplete (fl : FloatOps F) (s : State F) (c : Option (Curriculum F)) :
    Nat → List Text → Text → Except Error (Bool × List Text)
  | 0, _, _ => .error .recursionError
  | limit + 1, seen, lessonId =>
    match s.lessons.get? lessonId with
    | none => .ok (false, seen)
    | some record =>
      if record.status.is complete then
        match c with
        | none => .ok (true, seen)
        | some curriculum =>
          if seen.contains lessonId then .ok (true, seen)
          else
            match Assoc.get? lessonId curriculum.lessons with
            | none => .ok (true, seen)
            | some lesson => do
              let seen := lessonId :: seen
              let missing ← completionWith fl (lessonIsComplete fl s c limit) s lesson seen
              pure (missing.isEmpty, seen)
      else .ok (false, seen)

/-- One level for each lesson, and one for the test that finds no more. -/
def recursionLimit (c : Option (Curriculum F)) : Nat :=
  (c.elim 0 fun curriculum => curriculum.lessons.length) + 1

/-- `lesson_completion` -/
def lessonCompletion (fl : FloatOps F) (s : State F) (lesson : Lesson F)
    (c : Option (Curriculum F)) : Except Error (Bool × List Missing) := do
  let missing ← completionWith fl (lessonIsComplete fl s c (recursionLimit c)) s lesson []
  pure (missing.isEmpty, missing)

/-- `mark_complete`: the answer, and the new state when it is written. -/
def markComplete (fl : FloatOps F) (clock : Clock) (s : State F) (lesson : Lesson F)
    (c : Option (Curriculum F)) : Except Error ((Bool × List Missing) × Option (State F)) := do
  let (complete?, missing) ← lessonCompletion fl s lesson c
  if complete? then
    let record := { lessonRecord s lesson.id with
      status := .val complete, completedAt := .val (.str (clock 0)) }
    pure ((true, []), some { s with lessons := s.lessons.insert lesson.id record })
  else pure ((false, missing), none)

/-- `completion_map` -/
def completionMap (fl : FloatOps F) (s : State F) (c : Curriculum F) :
    Except Error (List (Text × Bool)) :=
  c.orderedLessonIds.mapM fun lessonId => do
    let (complete, _) ← lessonIsComplete fl s (some c) (recursionLimit (some c)) [] lessonId
    pure (lessonId, complete)

end Walk

section Queries

def validationPassed (s : State F) (lessonId blockId : Text) : Except Error Bool :=
  match s.lessons.get? lessonId with
  | none => .ok false
  | some record => do
    let validations ← record.validations.useD .empty .attributeError
    pure (hasPassed validations blockId)

/-- `lesson_status`; `str(None)` is `"None"`. -/
def lessonStatus (s : State F) (lesson : Lesson F) : Except Error Text :=
  match s.lessons.get? lesson.id with
  | none => .ok notStarted
  | some record =>
    match record.status with
    | .absent => .error .keyError
    | .null => .ok (ascii "None")
    | .val status => .ok status

/-- `is_actionable` in `resume_lesson_id`. -/
def isActionable (c : Curriculum F) (completed : List (Text × Bool)) (lessonId : Text) : Bool :=
  match Assoc.get? lessonId c.lessons with
  | none => false
  | some lesson =>
    lesson.status = .available && (Assoc.get? lessonId completed).getD false = false &&
      lesson.prerequisites.all fun prerequisite =>
        (Assoc.get? prerequisite completed).getD false

def resumeLessonId (fl : FloatOps F) (s : State F) (c : Curriculum F) : Except Error Text := do
  let completed ← completionMap fl s c
  match s.lastLessonId.filter (isActionable c completed) with
  | some last => pure last
  | none =>
    match c.orderedLessonIds.find? (isActionable c completed) with
    | some lessonId => pure lessonId
    | none =>
      match c.orderedLessonIds.getLast? with
      | some lessonId => pure lessonId
      | none => .error .indexError

end Queries

section Calls

/-- The calls that the server makes on its store. -/
inductive Call (F : Type)
  | markStarted (lessonId : Text)
  | recordStep (lessonId blockId : Text)
  | recordValidation (lessonId blockId : Text) (passed mandatory : Bool) (concepts : List Text)
      (historical : Bool)
  | recordQuiz (lessonId blockId : Text) (correct : Bool) (concepts : List Text)
  | recordExplain (lessonId blockId : Text) (passed : Bool) (concepts : List Text)
  | recordHint (lessonId : Text) (index : Nat)
  | recordInterview (questionId : Text) (correct : Bool) (concepts : List Text)
  | markComplete (lesson : Lesson F) (c : Option (Curriculum F))
  | lessonCompletion (lesson : Lesson F) (c : Option (Curriculum F))
  | completionMap (c : Curriculum F)
  | lessonStatus (lesson : Lesson F)
  | validationPassed (lessonId blockId : Text)
  | resumeLessonId (c : Curriculum F)
  | conceptMastery (concepts : List Text)
  | interviewWeights (questionConcepts : List (Text × List Text))

/-- What a call leaves behind: the state, whether it was written to disk, and whether
`mark_complete` succeeded. -/
structure Effect (F : Type) where
  state : State F
  saved : Bool
  completed : Bool

/-- A call that changed the state and saved it. -/
def Effect.save (s : State F) : Effect F where
  state := s
  saved := true
  completed := false

/-- A call that only read the state. -/
def Effect.read (s : State F) : Effect F where
  state := s
  saved := false
  completed := false

/-- One call on the store. -/
def perform (fl : FloatOps F) (clock : Clock) (s : State F) :
    Call F → Except Error (Effect F)
  | .markStarted lessonId => (Learning.markStarted clock s lessonId).map .save
  | .recordStep lessonId blockId => (Learning.recordStep s lessonId blockId).map .save
  | .recordValidation lessonId blockId passed mandatory concepts historical =>
    (Learning.recordValidation clock s lessonId blockId passed mandatory concepts historical).map
      .save
  | .recordQuiz lessonId blockId correct concepts =>
    (Learning.recordQuiz clock s lessonId blockId correct concepts).map .save
  | .recordExplain lessonId blockId passed concepts =>
    (Learning.recordExplain clock s lessonId blockId passed concepts).map .save
  | .recordHint lessonId index =>
    (Learning.recordHint s lessonId index).map fun (_, s, saved) => ⟨s, saved, false⟩
  | .recordInterview questionId correct concepts =>
    (Learning.recordInterview clock s questionId correct concepts).map .save
  | .markComplete lesson c =>
    (Learning.markComplete fl clock s lesson c).map fun (answer, written) =>
      ⟨written.getD s, written.isSome, answer.1⟩
  | .lessonCompletion lesson c => (Learning.lessonCompletion fl s lesson c).map fun _ => .read s
  | .completionMap c => (Learning.completionMap fl s c).map fun _ => .read s
  | .lessonStatus lesson => (Learning.lessonStatus s lesson).map fun _ => .read s
  | .validationPassed lessonId blockId =>
    (Learning.validationPassed s lessonId blockId).map fun _ => .read s
  | .resumeLessonId c => (Learning.resumeLessonId fl s c).map fun _ => .read s
  | .conceptMastery concepts => (Learning.conceptMastery s concepts).map fun _ => .read s
  | .interviewWeights questionConcepts =>
    (Learning.interviewWeights s questionConcepts).map fun _ => .read s

end Calls

end Learning
