import FlightTestLab.Learning.Completion
import FlightTestLab.Library.Except

/-!
# The store when no field is missing

What the store keeps, with every field there and of its type, and the recording
operations on it as total functions. The operations of `ProgressStore` refine these:
on the state of a ledger each returns the state of the next ledger.

## Main definitions

- `Learning.Standing`: a lesson's record with all its fields
- `Learning.Ledger`: the learner's record
- `Learning.Ledger.state`: the state of the store that a ledger is
- `Learning.Ledger.apply`: what a call does to a ledger

## Main results

- `Learning.markStarted_state`, …: the operations of the store refine those of the ledger
-/

namespace Learning

open Json (Text ascii)
open Python (Value Error FloatOps)

variable {F : Type}

section Records

structure Standing where
  status : Text
  stepsDone : List Text
  validations : Dict Text (Bool × Text)
  quizCorrect : List Text
  quizAttempts : Nat
  explainDone : List Text
  attempts : Nat
  hintsUsed : Nat
  interviewBaseline : Nat
  startedAt : Option Text
  completedAt : Option Text

/-- The standing of a lesson that nothing is recorded of. -/
def Standing.fresh : Standing where
  status := notStarted
  stepsDone := []
  validations := .empty
  quizCorrect := []
  quizAttempts := 0
  explainDone := []
  attempts := 0
  hintsUsed := 0
  interviewBaseline := 0
  startedAt := none
  completedAt := none

/-- The answers that count for a concept. -/
structure Tally where
  correct : Nat
  incorrect : Nat
  lastSeen : Option Text

/-- The answers to an interview question. -/
structure Answers where
  correct : Nat
  incorrect : Nat
  streak : Nat

structure Ledger where
  lastLessonId : Option Text
  lessons : Dict Text Standing
  concepts : Dict Text Tally
  interview : Dict Text Answers

def Ledger.empty : Ledger where
  lastLessonId := none
  lessons := .empty
  concepts := .empty
  interview := .empty

end Records

section Embedding

/-- A time in a stored record. -/
def timeField : Option Text → Field (Value F)
  | none => .null
  | some time => .val (.str time)

def outcomeOf (outcome : Bool × Text) : Outcome where
  passed := .val outcome.1
  time := .val outcome.2

def Standing.record (r : Standing) : LessonRecord F where
  status := .val r.status
  stepsDone := .val r.stepsDone
  validations := .val (r.validations.map outcomeOf)
  quizCorrect := .val r.quizCorrect
  quizAttempts := .val r.quizAttempts
  explainDone := .val r.explainDone
  attempts := .val r.attempts
  hintsUsed := .val r.hintsUsed
  interviewBaseline := .val r.interviewBaseline
  startedAt := timeField r.startedAt
  completedAt := timeField r.completedAt

def Tally.entry (t : Tally) : ConceptEntry F where
  correct := .val t.correct
  incorrect := .val t.incorrect
  lastSeen := timeField t.lastSeen

def Answers.entry (a : Answers) : InterviewEntry where
  correct := .val a.correct
  incorrect := .val a.incorrect
  streak := .val a.streak

/-- The state of the store that a ledger is. -/
def Ledger.state (a : Ledger) : State F where
  lastLessonId := a.lastLessonId
  lessons := a.lessons.map Standing.record
  concepts := a.concepts.map Tally.entry
  interview := a.interview.map Answers.entry

@[simp] theorem fill_timeField (time : Option Text) :
    (timeField (F := F) time).fill .null = timeField time := by
  cases time <;> rfl

theorem isNone_timeField (time : Option Text) :
    (timeField (F := F) time).isNone = time.isNone := by
  cases time <;> rfl

theorem Standing.filled_record (r : Standing) : (r.record : LessonRecord F).filled = r.record := by
  simp [LessonRecord.filled, Standing.record]

end Embedding

namespace Standing

/-- Entering a lesson: the first time takes the snapshot of the interview answers. -/
def start (time : Text) (total : Nat) (r : Standing) : Standing :=
  let r :=
    if r.startedAt.isNone then { r with startedAt := some time, interviewBaseline := total } else r
  let r := if r.status = notStarted then { r with status := inProgress } else r
  { r with attempts := r.attempts + 1 }

def step (blockId : Text) (r : Standing) : Standing :=
  { r with stepsDone := addId blockId r.stepsDone }

/-- A validator counts as passed. -/
def passed (r : Standing) (blockId : Text) : Bool := (r.validations.get? blockId).any (·.1)

/-- A recorded outcome: the pass of a historical check stays, and a mandatory check that fails
un-completes the lesson. -/
def validate (time : Text) (blockId : Text) (ok mandatory historical : Bool) (r : Standing) :
    Standing :=
  if historical && r.passed blockId then r
  else
    let r := { r with validations := r.validations.insert blockId (ok, time) }
    if !ok && mandatory && r.status = complete then
      { r with status := inProgress, completedAt := none }
    else r

def quiz (blockId : Text) (correct : Bool) (r : Standing) : Standing :=
  { r with
    quizAttempts := r.quizAttempts + 1
    quizCorrect := if correct then addId blockId r.quizCorrect else r.quizCorrect }

def explain (blockId : Text) (ok : Bool) (r : Standing) : Standing :=
  { r with explainDone := if ok then addId blockId r.explainDone else r.explainDone }

def hint (index : Nat) (r : Standing) : Standing :=
  { r with hintsUsed := max r.hintsUsed (index + 1) }

def certify (time : Text) (r : Standing) : Standing :=
  { r with status := complete, completedAt := some time }

end Standing

namespace Ledger

/-- A lesson's standing, fresh when nothing is recorded. -/
def lesson (a : Ledger) (lessonId : Text) : Standing := (a.lessons.get? lessonId).getD .fresh

/-- Write a lesson's standing and remember the lesson. -/
def put (a : Ledger) (lessonId : Text) (r : Standing) : Ledger :=
  { a with lessons := a.lessons.insert lessonId r, lastLessonId := some lessonId }

/-- All answers to interview questions. -/
def interviewTotal (a : Ledger) : Nat := a.interview.sum fun entry => entry.correct + entry.incorrect

def markStarted (clock : Clock) (a : Ledger) (lessonId : Text) : Ledger :=
  a.put lessonId ((a.lesson lessonId).start (clock 0) a.interviewTotal)

def recordStep (a : Ledger) (lessonId blockId : Text) : Ledger :=
  a.put lessonId ((a.lesson lessonId).step blockId)

/-- Count an answer for one concept. -/
def tally (time : Text) (correct : Bool) (concepts : Dict Text Tally) (concept : Text) :
    Dict Text Tally :=
  let t := (concepts.get? concept).getD ⟨0, 0, none⟩
  concepts.insert concept
    (if correct then { t with correct := t.correct + 1, lastSeen := some time }
      else { t with incorrect := t.incorrect + 1, lastSeen := some time })

/-- Count an answer for each of some concepts. -/
def bump (clock : Clock) (correct : Bool) (stored : Dict Text Tally) :
    List Text → Dict Text Tally
  | [] => stored
  | concept :: concepts =>
    bump (fun i => clock (i + 1)) correct (tally (clock 0) correct stored concept) concepts

def recordValidation (clock : Clock) (a : Ledger) (lessonId blockId : Text)
    (passed mandatory : Bool) (concepts : List Text) (historical : Bool) : Ledger :=
  let bumped :=
    if historical && (a.lesson lessonId).passed blockId then a.concepts
    else if !concepts.isEmpty && mandatory then
      bump (fun i => clock (i + 1)) passed a.concepts concepts
    else a.concepts
  { a with concepts := bumped }.put lessonId
    ((a.lesson lessonId).validate (clock 0) blockId passed mandatory historical)

def recordQuiz (clock : Clock) (a : Ledger) (lessonId blockId : Text) (correct : Bool)
    (concepts : List Text) : Ledger :=
  { a with concepts := bump clock correct a.concepts concepts }.put lessonId
    ((a.lesson lessonId).quiz blockId correct)

def recordExplain (clock : Clock) (a : Ledger) (lessonId blockId : Text) (passed : Bool)
    (concepts : List Text) : Ledger :=
  { a with concepts := bump clock passed a.concepts concepts }.put lessonId
    ((a.lesson lessonId).explain blockId passed)

def recordHint (a : Ledger) (lessonId : Text) (index : Nat) : Ledger :=
  { a with lessons := a.lessons.insert lessonId ((a.lesson lessonId).hint index) }

def recordInterview (clock : Clock) (a : Ledger) (questionId : Text) (correct : Bool)
    (concepts : List Text) : Ledger :=
  let entry := (a.interview.get? questionId).getD ⟨0, 0, 0⟩
  let entry :=
    if correct then { entry with correct := entry.correct + 1, streak := entry.streak + 1 }
    else { entry with incorrect := entry.incorrect + 1, streak := 0 }
  { a with
    concepts := bump clock correct a.concepts concepts
    interview := a.interview.insert questionId entry }

/-- A `mark_complete` that succeeds. -/
def complete (clock : Clock) (a : Ledger) (lessonId : Text) : Ledger :=
  { a with lessons := a.lessons.insert lessonId ((a.lesson lessonId).certify (clock 0)) }

/-- What a call does, given whether it was a `mark_complete` that succeeded. -/
def apply (clock : Clock) (a : Ledger) (done : Bool) : Call F → Ledger
  | .markStarted lessonId => a.markStarted clock lessonId
  | .recordStep lessonId blockId => a.recordStep lessonId blockId
  | .recordValidation lessonId blockId passed mandatory concepts historical =>
    a.recordValidation clock lessonId blockId passed mandatory concepts historical
  | .recordQuiz lessonId blockId correct concepts =>
    a.recordQuiz clock lessonId blockId correct concepts
  | .recordExplain lessonId blockId passed concepts =>
    a.recordExplain clock lessonId blockId passed concepts
  | .recordHint lessonId index => a.recordHint lessonId index
  | .recordInterview questionId correct concepts =>
    a.recordInterview clock questionId correct concepts
  | .markComplete lesson _ => if done then a.complete clock lesson.id else a
  | _ => a

end Ledger

/-- What a call makes of one lesson's standing, given the answers to interview questions so far. -/
def Standing.after (total : Nat) (clock : Clock) (done : Bool) (lessonId : Text) (r : Standing) :
    Call F → Standing
  | .markStarted id => if id = lessonId then r.start (clock 0) total else r
  | .recordStep id blockId => if id = lessonId then r.step blockId else r
  | .recordValidation id blockId passed mandatory _ historical =>
    if id = lessonId then r.validate (clock 0) blockId passed mandatory historical else r
  | .recordQuiz id blockId correct _ => if id = lessonId then r.quiz blockId correct else r
  | .recordExplain id blockId passed _ => if id = lessonId then r.explain blockId passed else r
  | .recordHint id index => if id = lessonId then r.hint index else r
  | .markComplete lesson _ => if done ∧ lesson.id = lessonId then r.certify (clock 0) else r
  | _ => r

section Standings

variable (a : Ledger)

theorem lesson_insert (lessons : Dict Text Standing) (lessonId id : Text) (r : Standing) :
    ((lessons.insert id r).get? lessonId).getD .fresh =
      if id = lessonId then r else (lessons.get? lessonId).getD .fresh := by
  rw [Dict.get?_insert]
  split_ifs <;> rfl

/-- A call acts on the standing of each lesson by itself. -/
theorem apply_lesson (clock : Clock) (done : Bool) (call : Call F) (lessonId : Text) :
    (a.apply clock done call).lesson lessonId =
      (a.lesson lessonId).after a.interviewTotal clock done lessonId call := by
  have hput (b : Ledger) (hb : b.lessons = a.lessons) (id : Text) (r r' : Standing)
      (h : id = lessonId → r = r') : (b.put id r).lesson lessonId =
        if id = lessonId then r' else a.lesson lessonId := by
    rw [Ledger.lesson, Ledger.put, hb, lesson_insert]
    split_ifs with hid
    · exact h hid
    · rfl
  cases call with
  | markStarted id => exact hput a rfl id _ _ fun h => by rw [h]
  | recordStep id blockId => exact hput a rfl id _ _ fun h => by rw [h]
  | recordValidation id blockId passed mandatory concepts historical =>
    exact hput _ rfl id _ _ fun h => by rw [h]
  | recordQuiz id blockId correct concepts => exact hput _ rfl id _ _ fun h => by rw [h]
  | recordExplain id blockId passed concepts => exact hput _ rfl id _ _ fun h => by rw [h]
  | recordHint id index =>
    rw [Ledger.apply, Ledger.recordHint, Ledger.lesson, lesson_insert, Standing.after]
    split_ifs with hid
    · rw [hid]
    · rfl
  | markComplete lesson c =>
    rw [Ledger.apply, Standing.after]
    cases done with
    | false => rfl
    | true =>
      rw [if_pos rfl, Ledger.complete, Ledger.lesson, lesson_insert]
      simp only [true_and]
      split_ifs with hid
      · rw [hid]
      · rfl
  | _ => rfl

end Standings

section Refinement

variable (a : Ledger)

@[simp] theorem state_lessons : (a.state : State F).lessons = a.lessons.map Standing.record := rfl

@[simp] theorem state_concepts : (a.state : State F).concepts = a.concepts.map Tally.entry := rfl

@[simp] theorem state_interview :
    (a.state : State F).interview = a.interview.map Answers.entry := rfl

theorem lessonRecord_state (lessonId : Text) :
    lessonRecord (a.state : State F) lessonId = (a.lesson lessonId).record := by
  rw [lessonRecord, state_lessons, Dict.get?_map, Ledger.lesson]
  cases a.lessons.get? lessonId with
  | none => exact Standing.filled_record .fresh
  | some r => exact r.filled_record

theorem putLesson_state (lessonId : Text) (r : Standing) :
    (a.state : State F).putLesson lessonId r.record = (a.put lessonId r).state := by
  simp [State.putLesson, Ledger.put, Ledger.state, Dict.map_insert]

theorem interviewTotal_state : interviewTotal (a.state : State F) = a.interviewTotal :=
  Dict.sum_map (fun entry : InterviewEntry => countOf entry.correct + countOf entry.incorrect) Answers.entry
    a.interview

theorem markStarted_state (clock : Clock) (lessonId : Text) :
    markStarted clock (a.state : State F) lessonId = .ok (a.markStarted clock lessonId).state := by
  rw [markStarted, lessonRecord_state, interviewTotal_state, Ledger.markStarted, ← putLesson_state]
  generalize a.lesson lessonId = r
  have hnone : (r.record : LessonRecord F).startedAt.isNone = r.startedAt.isNone :=
    isNone_timeField _
  rw [hnone, Standing.start]
  by_cases hstarted : r.startedAt.isNone = true <;> by_cases hstatus : r.status = notStarted <;>
    simp only [hstarted, hstatus, if_true, if_false, Standing.record, Field.is_val, decide_true,
      decide_false, Field.use_val, Except.ok_bind, Except.pure_eq_ok, Bool.false_eq_true] <;> rfl

theorem recordStep_state (lessonId blockId : Text) :
    recordStep (a.state : State F) lessonId blockId = .ok (a.recordStep lessonId blockId).state := by
  rw [recordStep, lessonRecord_state, Ledger.recordStep, ← putLesson_state]
  rfl

theorem bumpConcepts_state (clock : Clock) (correct : Bool) (stored : Dict Text Tally)
    (concepts : List Text) :
    bumpConcepts clock correct (stored.map (Tally.entry (F := F))) concepts =
      .ok ((Ledger.bump clock correct stored concepts).map Tally.entry) := by
  induction concepts generalizing clock stored with
  | nil => rfl
  | cons concept concepts ih =>
    have hentry : ((stored.map (Tally.entry (F := F))).get? concept).getD
        { correct := .val 0, incorrect := .val 0, lastSeen := .null } =
          ((stored.get? concept).getD ⟨0, 0, none⟩).entry := by
      rw [Dict.get?_map]
      cases stored.get? concept <;> rfl
    rw [bumpConcepts, hentry, Ledger.bump, ← ih, Ledger.tally, Dict.map_insert]
    cases correct <;> rfl

theorem any_passed_state (r : Standing) (blockId : Text) :
    ((r.validations.map outcomeOf).get? blockId).any (·.passed.is true) = r.passed blockId := by
  rw [Dict.get?_map, Standing.passed]
  cases r.validations.get? blockId with
  | none => rfl
  | some outcome => simp [outcomeOf]

theorem recordValidation_state (clock : Clock) (lessonId blockId : Text)
    (passed mandatory : Bool) (concepts : List Text) (historical : Bool) :
    recordValidation clock (a.state : State F) lessonId blockId passed mandatory concepts
      historical =
        .ok (a.recordValidation clock lessonId blockId passed mandatory concepts historical).state
    := by
  rw [recordValidation, lessonRecord_state, Ledger.recordValidation, ← putLesson_state]
  generalize a.lesson lessonId = r
  have hvalidations : (r.record : LessonRecord F).validations.use .attributeError =
      .ok (r.validations.map outcomeOf) := rfl
  have hstatus : (r.record : LessonRecord F).status.is complete = decide (r.status = complete) :=
    rfl
  rw [hvalidations, Except.ok_bind, any_passed_state, Standing.validate]
  by_cases hkeep : (historical && r.passed blockId) = true
  · rw [if_pos hkeep, if_pos hkeep, if_pos hkeep]
    rfl
  · rw [if_neg hkeep, if_neg hkeep, if_neg hkeep]
    dsimp only
    rw [hstatus]
    by_cases hbump : (!concepts.isEmpty && mandatory) = true <;>
      by_cases hrevoke : (!passed && mandatory && decide (r.status = complete)) = true <;>
        simp only [hbump, hrevoke, if_true, if_false, Bool.false_eq_true, state_concepts,
          bumpConcepts_state, Except.ok_bind, Except.pure_eq_ok] <;>
        simp [Standing.record, Dict.map_insert, outcomeOf, timeField, Ledger.state]

theorem recordQuiz_state (clock : Clock) (lessonId blockId : Text) (correct : Bool)
    (concepts : List Text) :
    recordQuiz clock (a.state : State F) lessonId blockId correct concepts =
      .ok (a.recordQuiz clock lessonId blockId correct concepts).state := by
  rw [recordQuiz, lessonRecord_state, Ledger.recordQuiz, ← putLesson_state]
  cases correct <;> simp [bumpConcepts_state, Standing.record] <;> rfl

theorem recordExplain_state (clock : Clock) (lessonId blockId : Text) (passed : Bool)
    (concepts : List Text) :
    recordExplain clock (a.state : State F) lessonId blockId passed concepts =
      .ok (a.recordExplain clock lessonId blockId passed concepts).state := by
  rw [recordExplain, lessonRecord_state, Ledger.recordExplain, ← putLesson_state]
  cases passed <;> simp [bumpConcepts_state, Standing.record] <;> rfl

theorem recordHint_state (lessonId : Text) (index : Nat) :
    recordHint (a.state : State F) lessonId index =
      .ok (max (a.lesson lessonId).hintsUsed (index + 1), (a.recordHint lessonId index).state,
        max (a.lesson lessonId).hintsUsed (index + 1) != (a.lesson lessonId).hintsUsed) := by
  rw [recordHint, lessonRecord_state, Ledger.recordHint]
  simp [Standing.record, Standing.hint, Ledger.state, Dict.map_insert]

theorem recordInterview_state (clock : Clock) (questionId : Text) (correct : Bool)
    (concepts : List Text) :
    recordInterview clock (a.state : State F) questionId correct concepts =
      .ok (a.recordInterview clock questionId correct concepts).state := by
  have hentry : ((a.state : State F).interview.get? questionId).getD
      { correct := .val 0, incorrect := .val 0, streak := .val 0 } =
        ((a.interview.get? questionId).getD ⟨0, 0, 0⟩).entry := by
    rw [state_interview, Dict.get?_map]
    cases a.interview.get? questionId <;> rfl
  rw [recordInterview, hentry, Ledger.recordInterview]
  cases concepts with
  | nil => cases correct <;> simp [Answers.entry, Ledger.state, Dict.map_insert, Ledger.bump]
  | cons concept concepts =>
    cases correct <;>
      simp [Answers.entry, Ledger.state, Dict.map_insert, bumpConcepts_state]

theorem complete_state (clock : Clock) (lessonId : Text) :
    { (a.state : State F) with
      lessons := (a.state : State F).lessons.insert lessonId
        { lessonRecord (a.state : State F) lessonId with
          status := .val complete, completedAt := .val (.str (clock 0)) } } =
      (a.complete clock lessonId).state := by
  rw [lessonRecord_state]
  simp [Ledger.complete, Standing.certify, Ledger.state, Dict.map_insert, Standing.record,
    timeField]

end Refinement

end Learning
