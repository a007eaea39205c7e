import Mathlib.Algebra.Order.Ring.Rat
import Mathlib.Data.List.Lex
import Mathlib.Data.Nat.Basic
import FlightTestLab.Library.Dict
import FlightTestLab.Python.Json

/-!
# The learner's record and the operations on it

The state of `ProgressStore` and its recording operations. The loader tolerates
missing and null fields, so a field is one of three things; what an operation makes
of each is part of the model. Fields that nothing reads or writes are left out.

## Main definitions

- `Learning.Field`: a field of a stored record
- `Learning.State`: the state of the store
- `Learning.markStarted`, `Learning.recordStep`, …: the recording operations
- `Learning.conceptMastery`, `Learning.interviewWeights`: what Interview mode reads
-/

namespace Learning

open Json (Text ascii)
open Python (Value Error)

variable {F : Type}

/-- A field of a stored record: missing, null, or a value of the checked type. -/
inductive Field (α : Type)
  | absent
  | null
  | val (a : α)
  deriving DecidableEq, Repr

namespace Field

variable {α : Type}

/-- `record.setdefault(key, default)` -/
def fill : Field α → Field α → Field α
  | .absent, default => default
  | f, _ => f

/-- `record[key]`, used in a way that raises the given error on `None`. -/
def use (onNull : Error) : Field α → Except Error α
  | .absent => .error .keyError
  | .null => .error onNull
  | .val a => .ok a

/-- `record.get(key, default)`, used likewise. -/
def useD (default : α) (onNull : Error) : Field α → Except Error α
  | .absent => .ok default
  | .null => .error onNull
  | .val a => .ok a

/-- `record.get(key) is None` -/
def isNone : Field α → Bool
  | .val _ => false
  | _ => true

/-- `record.get(key) == a` for a constant. -/
def is [DecidableEq α] (a : α) : Field α → Bool
  | .val b => b = a
  | _ => false

@[simp] theorem fill_val (default : Field α) (a : α) : fill (.val a) default = .val a := rfl

@[simp] theorem use_val (e : Error) (a : α) : use e (.val a) = .ok a := rfl

@[simp] theorem useD_val (d : α) (e : Error) (a : α) : useD d e (.val a) = .ok a := rfl

@[simp] theorem is_val [DecidableEq α] (a b : α) : is a (.val b) = decide (b = a) := rfl

theorem is_iff [DecidableEq α] {a : α} {f : Field α} : f.is a = true ↔ f = .val a := by
  cases f <;> simp [is]

end Field

section State

/-- One recorded validator outcome. -/
structure Outcome where
  passed : Field Bool
  time : Field Text
  deriving DecidableEq, Repr

structure LessonRecord (F : Type) where
  status : Field Text
  stepsDone : Field (List Text)
  validations : Field (Dict Text Outcome)
  quizCorrect : Field (List Text)
  quizAttempts : Field Nat
  explainDone : Field (List Text)
  attempts : Field Nat
  hintsUsed : Field Nat
  interviewBaseline : Field Nat
  startedAt : Field (Value F)
  completedAt : Field (Value F)

structure ConceptEntry (F : Type) where
  correct : Field Nat
  incorrect : Field Nat
  lastSeen : Field (Value F)

structure InterviewEntry where
  correct : Field Nat
  incorrect : Field Nat
  streak : Field Nat

structure State (F : Type) where
  lastLessonId : Option Text
  lessons : Dict Text (LessonRecord F)
  concepts : Dict Text (ConceptEntry F)
  interview : Dict Text InterviewEntry

/-- `_empty_state` -/
def State.initial : State F where
  lastLessonId := none
  lessons := .empty
  concepts := .empty
  interview := .empty

def notStarted : Text := ascii "not_started"

def inProgress : Text := ascii "in_progress"

def complete : Text := ascii "complete"

/-- `_empty_lesson_record` -/
def LessonRecord.template : LessonRecord F where
  status := .val notStarted
  stepsDone := .val []
  validations := .val .empty
  quizCorrect := .val []
  quizAttempts := .val 0
  explainDone := .val []
  attempts := .val 0
  hintsUsed := .val 0
  interviewBaseline := .val 0
  startedAt := .null
  completedAt := .null

/-- The loop of `_lesson_record_locked` over the template. -/
def LessonRecord.filled (r : LessonRecord F) : LessonRecord F where
  status := r.status.fill (.val notStarted)
  stepsDone := r.stepsDone.fill (.val [])
  validations := r.validations.fill (.val .empty)
  quizCorrect := r.quizCorrect.fill (.val [])
  quizAttempts := r.quizAttempts.fill (.val 0)
  explainDone := r.explainDone.fill (.val [])
  attempts := r.attempts.fill (.val 0)
  hintsUsed := r.hintsUsed.fill (.val 0)
  interviewBaseline := r.interviewBaseline.fill (.val 0)
  startedAt := r.startedAt.fill .null
  completedAt := r.completedAt.fill .null

/-- `_lesson_record_locked`; the operations write the record back. -/
def lessonRecord (s : State F) (lessonId : Text) : LessonRecord F :=
  ((s.lessons.get? lessonId).getD .template).filled

/-- Write a lesson's record and remember the lesson. -/
def State.putLesson (s : State F) (lessonId : Text) (r : LessonRecord F) : State F :=
  { s with lessons := s.lessons.insert lessonId r, lastLessonId := some lessonId }

@[simp] theorem State.putLesson_lessons (s : State F) (lessonId : Text) (r : LessonRecord F) :
    (s.putLesson lessonId r).lessons = s.lessons.insert lessonId r := rfl

@[simp] theorem State.putLesson_concepts (s : State F) (lessonId : Text) (r : LessonRecord F) :
    (s.putLesson lessonId r).concepts = s.concepts := rfl

@[simp] theorem State.putLesson_interview (s : State F) (lessonId : Text) (r : LessonRecord F) :
    (s.putLesson lessonId r).interview = s.interview := rfl

end State

/-- The successive results of `_now` in one operation. -/
abbrev Clock := Nat → Text

section Operations

/-- What one field counts towards the interview total. -/
def countOf : Field Nat → Nat
  | .val n => n
  | _ => 0

/-- `_interview_total_locked` -/
def interviewTotal (s : State F) : Nat :=
  (s.interview.entries.map fun entry => countOf entry.2.correct + countOf entry.2.incorrect).sum

def markStarted (clock : Clock) (s : State F) (lessonId : Text) : Except Error (State F) := do
  let record := lessonRecord s lessonId
  let record :=
    if record.startedAt.isNone then
      { record with
        startedAt := .val (.str (clock 0)), interviewBaseline := .val (interviewTotal s) }
    else record
  let record :=
    if record.status.is notStarted then { record with status := .val inProgress } else record
  let attempts ← record.attempts.use .typeError
  pure (s.putLesson lessonId { record with attempts := .val (attempts + 1) })

/-- Append to a list of ids unless it is there. -/
def addId (id : Text) (ids : List Text) : List Text := if ids.contains id then ids else ids ++ [id]

def recordStep (s : State F) (lessonId blockId : Text) : Except Error (State F) := do
  let record := lessonRecord s lessonId
  let steps ← record.stepsDone.use .typeError
  pure (s.putLesson lessonId { record with stepsDone := .val (addId blockId steps) })

/-- `_bump_concepts_locked` -/
def bumpConcepts (clock : Clock) (correct : Bool) (stored : Dict Text (ConceptEntry F)) :
    List Text → Except Error (Dict Text (ConceptEntry F))
  | [] => .ok stored
  | concept :: concepts => do
    let entry := (stored.get? concept).getD { correct := .val 0, incorrect := .val 0, lastSeen := .null }
    let count ← (if correct then entry.correct else entry.incorrect).use .typeError
    let entry :=
      if correct then { entry with correct := .val (count + 1) }
      else { entry with incorrect := .val (count + 1) }
    bumpConcepts (fun i => clock (i + 1)) correct
      (stored.insert concept { entry with lastSeen := .val (.str (clock 0)) }) concepts

def recordValidation (clock : Clock) (s : State F) (lessonId blockId : Text)
    (passed mandatory : Bool) (concepts : List Text) (historical : Bool) :
    Except Error (State F) := do
  let record := lessonRecord s lessonId
  let validations ← record.validations.use .attributeError
  if historical && (validations.get? blockId).any (·.passed.is true) then
    pure (s.putLesson lessonId record)
  else
    let record :=
      { record with
        validations := .val (validations.insert blockId
          { passed := .val passed, time := .val (clock 0) }) }
    let bumped ←
      if !concepts.isEmpty && mandatory then
        bumpConcepts (fun i => clock (i + 1)) passed s.concepts concepts
      else .ok s.concepts
    -- a mandatory check that now fails un-completes the lesson
    let record :=
      if !passed && mandatory && record.status.is complete then
        { record with status := .val inProgress, completedAt := .null }
      else record
    pure ({ s with concepts := bumped }.putLesson lessonId record)

def recordQuiz (clock : Clock) (s : State F) (lessonId blockId : Text) (correct : Bool)
    (concepts : List Text) : Except Error (State F) := do
  let record := lessonRecord s lessonId
  let attempts ← record.quizAttempts.use .typeError
  let quizCorrect ←
    if correct then do
      let ids ← record.quizCorrect.use .typeError
      pure (.val (addId blockId ids))
    else pure record.quizCorrect
  let bumped ← bumpConcepts clock correct s.concepts concepts
  pure ({ s with concepts := bumped }.putLesson lessonId
    { record with quizAttempts := .val (attempts + 1), quizCorrect })

def recordExplain (clock : Clock) (s : State F) (lessonId blockId : Text) (passed : Bool)
    (concepts : List Text) : Except Error (State F) := do
  let record := lessonRecord s lessonId
  let explainDone ←
    if passed then do
      let ids ← record.explainDone.use .typeError
      pure (.val (addId blockId ids))
    else pure record.explainDone
  let bumped ← bumpConcepts clock passed s.concepts concepts
  pure ({ s with concepts := bumped }.putLesson lessonId { record with explainDone })

/-- `record_hint`: the number of hints revealed, the state and whether it is saved. -/
def recordHint (s : State F) (lessonId : Text) (index : Nat) :
    Except Error (Nat × State F × Bool) := do
  let record := lessonRecord s lessonId
  let used ← record.hintsUsed.use .typeError
  let revealed := max used (index + 1)
  let s := { s with lessons := s.lessons.insert lessonId { record with hintsUsed := .val revealed } }
  pure (revealed, s, revealed != used)

def recordInterview (clock : Clock) (s : State F) (questionId : Text) (correct : Bool)
    (concepts : List Text) : Except Error (State F) := do
  let entry := (s.interview.get? questionId).getD
    { correct := .val 0, incorrect := .val 0, streak := .val 0 }
  let count ← (if correct then entry.correct else entry.incorrect).use .typeError
  let entry :=
    if correct then { entry with correct := .val (count + 1) }
    else { entry with incorrect := .val (count + 1) }
  let streak ←
    if correct then do
      let streak ← entry.streak.useD 0 .typeError
      pure (streak + 1)
    else pure 0
  let bumped ←
    if !concepts.isEmpty then bumpConcepts clock correct s.concepts concepts else .ok s.concepts
  pure { s with
    concepts := bumped,
    interview := s.interview.insert questionId { entry with streak := .val streak } }

end Operations

section Interview

structure Mastery where
  correct : Nat
  incorrect : Nat
  score : Option Rat
  weak : Bool

def masteryOf (s : State F) (concept : Text) : Except Error Mastery := do
  let entry := (s.concepts.get? concept).getD
    { correct := .val 0, incorrect := .val 0, lastSeen := .absent }
  let correct ← entry.correct.useD 0 .typeError
  let incorrect ← entry.incorrect.useD 0 .typeError
  let total := correct + incorrect
  pure {
    correct, incorrect,
    score := if total = 0 then none else some ((correct : Rat) / total)
    weak := 0 < total && (correct : Rat) / total < 7 / 10 }

/-- `concept_mastery` -/
def conceptMastery (s : State F) (concepts : List Text) : Except Error (List (Text × Mastery)) :=
  concepts.mapM fun concept => do
    let mastery ← masteryOf s concept
    pure (concept, mastery)

/-- `MIN_INTERVIEW_WEIGHT` -/
def minInterviewWeight : Rat := 1 / 20

/-- The weight of one question, from the mastery of its concepts. -/
def weightOf (s : State F) (mastery : List (Text × Mastery)) (questionId : Text)
    (concepts : List Text) : Except Error Rat := do
  let weight := concepts.foldl (fun weight concept =>
    match (Assoc.get? concept mastery).bind (·.score) with
    | none => weight + 1 / 2
    | some score => weight + (1 - score)) (1 : Rat)
  let history := (s.interview.get? questionId).getD
    { correct := .val 0, incorrect := .val 0, streak := .absent }
  let incorrect ← history.incorrect.useD 0 .typeError
  let streak ← history.streak.useD 0 .typeError
  let weight := (weight + 2 * incorrect) * (1 / 2) ^ min streak 6
  pure (max weight minInterviewWeight)

/-- `interview_weights`, over exact numbers. -/
def interviewWeights (s : State F) (questionConcepts : List (Text × List Text)) :
    Except Error (List (Text × Rat)) := do
  let mastery ← conceptMastery s (questionConcepts.flatMap Prod.snd).dedup
  questionConcepts.mapM fun question => do
    let weight ← weightOf s mastery question.1 question.2
    pure (question.1, weight)

end Interview

end Learning
