import FlightTestLab.Learning.Runs
import FlightTestLab.Learning.Storage

/-!
# Requests on a loaded progress file

The loader takes records with missing and null fields. Of these some are filled from
the template when they are used and some are read as they are, so what a later call
does depends on the file.

## Main definitions

- `Learning.Call.Within`: a call with what a curriculum names
- `Learning.serve`: calls one after the other on a state
- `Learning.State.Usable`: no field that such calls read is in their way

## Main results

- `Learning.load_usable_iff`: on which files no call of any run raises
-/

namespace Learning

open Json (Text ascii)
open Python (Value Error FloatOps Decoder)

variable {F : Type}

section Calls

/-- The ids of all blocks of a curriculum. -/
def Curriculum.blockIds (c : Curriculum F) : List Text :=
  c.lessons.flatMap fun entry => entry.2.blocks.map blockId

def Curriculum.questionIds (c : Curriculum F) : List Text := c.interview.map (·.id)

/-- A call whose lessons, blocks, questions and concepts are those of a curriculum. -/
def Call.Within (c : Curriculum F) : Call F → Prop
  | .markStarted lessonId => lessonId ∈ c.orderedLessonIds
  | .recordStep lessonId blockId => lessonId ∈ c.orderedLessonIds ∧ blockId ∈ c.blockIds
  | .recordValidation lessonId blockId _ _ concepts _ =>
    lessonId ∈ c.orderedLessonIds ∧ blockId ∈ c.blockIds ∧ concepts ⊆ c.concepts
  | .recordQuiz lessonId blockId _ concepts =>
    lessonId ∈ c.orderedLessonIds ∧ blockId ∈ c.blockIds ∧ concepts ⊆ c.concepts
  | .recordExplain lessonId blockId _ concepts =>
    lessonId ∈ c.orderedLessonIds ∧ blockId ∈ c.blockIds ∧ concepts ⊆ c.concepts
  | .recordHint lessonId _ => lessonId ∈ c.orderedLessonIds
  | .recordInterview questionId _ concepts => questionId ∈ c.questionIds ∧ concepts ⊆ c.concepts
  | .markComplete lesson c' => (lesson.id, lesson) ∈ c.lessons ∧ ∀ c'' ∈ c', c'' = c
  | .lessonCompletion lesson c' => (lesson.id, lesson) ∈ c.lessons ∧ ∀ c'' ∈ c', c'' = c
  | .completionMap c' => c' = c
  | .lessonStatus lesson => (lesson.id, lesson) ∈ c.lessons
  | .validationPassed lessonId blockId => lessonId ∈ c.orderedLessonIds ∧ blockId ∈ c.blockIds
  | .resumeLessonId c' => c' = c
  | .conceptMastery concepts => concepts ⊆ c.concepts
  | .interviewWeights questions =>
    ∀ question ∈ questions, question.1 ∈ c.questionIds ∧ question.2 ⊆ c.concepts

/-- Calls one after the other, up to the first that raises. -/
def serve (fl : FloatOps F) (s : State F) (events : List (Clock × Call F)) :
    Except Error (State F) :=
  events.foldlM (fun s event => (perform fl event.1 s event.2).map (·.state)) s

end Calls

section Usable

/-- A record of a lesson on which every call works. Fields that are filled on use may be
missing, those that are read as they are may not, and hardly any may be null. -/
structure LessonRecord.Usable (c : Curriculum F) (lesson : Lesson F) (r : LessonRecord F) :
    Prop where
  attempts : r.attempts ≠ .null
  hintsUsed : r.hintsUsed ≠ .null
  /-- `lesson_status` reads the record as it is. -/
  status : r.status ≠ .absent
  stepsDone : c.blockIds ≠ [] → r.stepsDone ≠ .null
  validations : c.blockIds ≠ [] → r.validations ≠ .null
  quizAttempts : c.blockIds ≠ [] → r.quizAttempts ≠ .null
  quizCorrect : c.blockIds ≠ [] → r.quizCorrect ≠ .null
  explainDone : c.blockIds ≠ [] → r.explainDone ≠ .null
  /-- So does `lesson_completion`. -/
  outcomes : lesson.status = .available → r.validations ≠ .absent
  quizzes : lesson.status = .available → lesson.requiredQuizIds ≠ [] → r.quizCorrect ≠ .absent
  explains :
    lesson.status = .available → lesson.requiredExplainIds ≠ [] → r.explainDone ≠ .absent

/-- An entry of a concept that can be counted up. -/
def ConceptEntry.Usable (entry : ConceptEntry F) : Prop :=
  (∃ n, entry.correct = .val n) ∧ ∃ n, entry.incorrect = .val n

def InterviewEntry.Usable (entry : InterviewEntry) : Prop :=
  (∃ n, entry.correct = .val n) ∧ (∃ n, entry.incorrect = .val n) ∧ entry.streak ≠ .null

/-- A state on which every call within the curriculum works. -/
structure State.Usable (c : Curriculum F) (s : State F) : Prop where
  lessons : ∀ entry ∈ c.lessons, ∀ r, s.lessons.get? entry.1 = some r → r.Usable c entry.2
  concepts : ∀ concept ∈ c.concepts, ∀ entry, s.concepts.get? concept = some entry → entry.Usable
  questions : ∀ questionId ∈ c.questionIds, ∀ entry,
    s.interview.get? questionId = some entry → entry.Usable

end Usable

section Fields

variable {α : Type} {f : Field α}

theorem Field.fill_of_ne_null (h : f ≠ .null) (d : α) : ∃ a, f.fill (.val d) = .val a := by
  cases f with
  | absent => exact ⟨d, rfl⟩
  | null => exact absurd rfl h
  | val a => exact ⟨a, rfl⟩

theorem Field.fill_ne_absent (f : Field α) (d : α) : f.fill (.val d) ≠ .absent := by
  cases f <;> simp [Field.fill]

theorem Field.use_eq_ok {e : Error} {a : α} : f.use e = .ok a ↔ f = .val a := by
  cases f <;> simp [Field.use]

theorem Field.exists_val (h : f ≠ .absent) (h' : f ≠ .null) : ∃ a, f = .val a := by
  cases f with
  | absent => exact absurd rfl h
  | null => exact absurd rfl h'
  | val a => exact ⟨a, rfl⟩

end Fields

/-- A filled record, with a value in each field that an operation counts or appends to. -/
structure LessonRecord.Ready (c : Curriculum F) (r : LessonRecord F) : Prop where
  attempts : ∃ n, r.attempts = .val n
  hintsUsed : ∃ n, r.hintsUsed = .val n
  status : r.status ≠ .absent
  stepsDone : c.blockIds ≠ [] → ∃ ids, r.stepsDone = .val ids
  validations : c.blockIds ≠ [] → ∃ outcomes, r.validations = .val outcomes
  quizAttempts : c.blockIds ≠ [] → ∃ n, r.quizAttempts = .val n
  quizCorrect : c.blockIds ≠ [] → ∃ ids, r.quizCorrect = .val ids
  explainDone : c.blockIds ≠ [] → ∃ ids, r.explainDone = .val ids
  outcomes : r.validations ≠ .absent
  quizzes : r.quizCorrect ≠ .absent
  explains : r.explainDone ≠ .absent

section Lessons

variable {c : Curriculum F} {s : State F} {lessonId : Text}

theorem LessonRecord.Ready.usable {r : LessonRecord F} (h : r.Ready c) (lesson : Lesson F) :
    r.Usable c lesson := by
  have hval {α : Type} {f : Field α} (hf : ∃ a, f = .val a) : f ≠ .null := by
    obtain ⟨a, rfl⟩ := hf
    simp
  exact ⟨hval h.attempts, hval h.hintsUsed, h.status, fun hb => hval (h.stepsDone hb),
    fun hb => hval (h.validations hb), fun hb => hval (h.quizAttempts hb),
    fun hb => hval (h.quizCorrect hb), fun hb => hval (h.explainDone hb), fun _ => h.outcomes,
    fun _ _ => h.quizzes, fun _ _ => h.explains⟩

theorem LessonRecord.Usable.filled {r : LessonRecord F} {lesson : Lesson F}
    (h : r.Usable c lesson) : r.filled.Ready c where
  attempts := Field.fill_of_ne_null h.attempts 0
  hintsUsed := Field.fill_of_ne_null h.hintsUsed 0
  status := Field.fill_ne_absent r.status notStarted
  stepsDone := fun hb => Field.fill_of_ne_null (h.stepsDone hb) []
  validations := fun hb => Field.fill_of_ne_null (h.validations hb) .empty
  quizAttempts := fun hb => Field.fill_of_ne_null (h.quizAttempts hb) 0
  quizCorrect := fun hb => Field.fill_of_ne_null (h.quizCorrect hb) []
  explainDone := fun hb => Field.fill_of_ne_null (h.explainDone hb) []
  outcomes := Field.fill_ne_absent r.validations .empty
  quizzes := Field.fill_ne_absent r.quizCorrect []
  explains := Field.fill_ne_absent r.explainDone []

theorem template_ready : (LessonRecord.template : LessonRecord F).filled.Ready c :=
  ⟨⟨_, rfl⟩, ⟨_, rfl⟩, by simp [LessonRecord.filled, LessonRecord.template],
    fun _ => ⟨_, rfl⟩, fun _ => ⟨_, rfl⟩, fun _ => ⟨_, rfl⟩, fun _ => ⟨_, rfl⟩, fun _ => ⟨_, rfl⟩,
    by simp [LessonRecord.filled, LessonRecord.template],
    by simp [LessonRecord.filled, LessonRecord.template],
    by simp [LessonRecord.filled, LessonRecord.template]⟩

/-- What `_lesson_record_locked` hands out for a lesson of the curriculum. -/
theorem lessonRecord_ready (hc : c.Sound) (h : s.Usable c) (hid : lessonId ∈ c.orderedLessonIds) :
    (lessonRecord s lessonId).Ready c := by
  rw [hc.ordered, List.mem_map] at hid
  obtain ⟨entry, hmem, rfl⟩ := hid
  rw [lessonRecord]
  cases hr : s.lessons.get? entry.1 with
  | none => exact template_ready
  | some r => exact (h.lessons entry hmem r hr).filled

/-- A state with a filled record written back. -/
theorem State.Usable.insert (h : s.Usable c) {r : LessonRecord F} (hr : r.Ready c) :
    ({ s with lessons := s.lessons.insert lessonId r } : State F).Usable c where
  lessons := by
    intro entry hmem r' hget
    rw [Dict.get?_insert] at hget
    split at hget
    · cases hget
      exact hr.usable entry.2
    · exact h.lessons entry hmem r' hget
  concepts := h.concepts
  questions := h.questions

theorem State.Usable.put (h : s.Usable c) {r : LessonRecord F} (hr : r.Ready c) :
    (s.putLesson lessonId r).Usable c := by
  have hinsert : ({ s with lessons := s.lessons.insert lessonId r } : State F).Usable c :=
    h.insert hr
  exact ⟨hinsert.lessons, h.concepts, h.questions⟩

end Lessons

section Counting

variable {c : Curriculum F}

/-- The entries of the curriculum's concepts can be counted up. -/
def Countable (c : Curriculum F) (stored : Dict Text (ConceptEntry F)) : Prop :=
  ∀ concept ∈ c.concepts, ∀ entry, stored.get? concept = some entry → entry.Usable

/-- Counting an answer for concepts of the curriculum returns, and can be done again. -/
theorem bumpConcepts_ok {stored : Dict Text (ConceptEntry F)} (h : Countable c stored)
    {concepts : List Text} (hsub : concepts ⊆ c.concepts) (clock : Clock) (correct : Bool) :
    ∃ bumped, bumpConcepts clock correct stored concepts = .ok bumped ∧ Countable c bumped := by
  induction concepts generalizing stored clock with
  | nil => exact ⟨stored, rfl, h⟩
  | cons concept concepts ih =>
    rw [List.cons_subset] at hsub
    have hentry : ((stored.get? concept).getD
        { correct := .val 0, incorrect := .val 0, lastSeen := .null }).Usable := by
      cases he : stored.get? concept with
      | none => exact ⟨⟨0, rfl⟩, ⟨0, rfl⟩⟩
      | some entry => exact h concept hsub.1 entry he
    have hinsert {entry : ConceptEntry F} (hu : entry.Usable) :
        Countable c (stored.insert concept entry) := by
      intro other hmem entry' hget
      rw [Dict.get?_insert] at hget
      split at hget
      · cases hget
        exact hu
      · exact h other hmem entry' hget
    rw [bumpConcepts]
    obtain ⟨⟨n, hn⟩, ⟨m, hm⟩⟩ := hentry
    cases correct with
    | true =>
      simp only [if_true, hn, Field.use_val, Except.ok_bind]
      refine ih (hinsert ?_) hsub.2 _
      exact ⟨⟨n + 1, rfl⟩, ⟨m, hm⟩⟩
    | false =>
      simp only [Bool.false_eq_true, if_false, hm, Field.use_val, Except.ok_bind]
      refine ih (hinsert ?_) hsub.2 _
      exact ⟨⟨n, hn⟩, ⟨m + 1, rfl⟩⟩

end Counting

section Ready

variable {c : Curriculum F} {r : LessonRecord F} (h : r.Ready c)
include h

theorem LessonRecord.Ready.start (time : Text) (total : Nat) :
    LessonRecord.Ready c { r with
      startedAt := .val (.str time), interviewBaseline := .val total } :=
  ⟨h.attempts, h.hintsUsed, h.status, h.stepsDone, h.validations, h.quizAttempts, h.quizCorrect,
    h.explainDone, h.outcomes, h.quizzes, h.explains⟩

theorem LessonRecord.Ready.standing (status : Text) (completedAt : Field (Value F)) :
    LessonRecord.Ready c { r with status := .val status, completedAt := completedAt } :=
  ⟨h.attempts, h.hintsUsed, by simp, h.stepsDone, h.validations, h.quizAttempts, h.quizCorrect,
    h.explainDone, h.outcomes, h.quizzes, h.explains⟩

theorem LessonRecord.Ready.revoke (revoked : Bool) :
    LessonRecord.Ready c
      (if revoked then { r with status := .val inProgress, completedAt := .null } else r) := by
  cases revoked with
  | true => exact h.standing inProgress .null
  | false => exact h

theorem LessonRecord.Ready.count (n : Nat) :
    LessonRecord.Ready c { r with attempts := .val n } :=
  ⟨⟨n, rfl⟩, h.hintsUsed, h.status, h.stepsDone, h.validations, h.quizAttempts, h.quizCorrect,
    h.explainDone, h.outcomes, h.quizzes, h.explains⟩

theorem LessonRecord.Ready.hint (n : Nat) :
    LessonRecord.Ready c { r with hintsUsed := .val n } :=
  ⟨h.attempts, ⟨n, rfl⟩, h.status, h.stepsDone, h.validations, h.quizAttempts, h.quizCorrect,
    h.explainDone, h.outcomes, h.quizzes, h.explains⟩

theorem LessonRecord.Ready.step (ids : List Text) :
    LessonRecord.Ready c { r with stepsDone := .val ids } :=
  ⟨h.attempts, h.hintsUsed, h.status, fun _ => ⟨ids, rfl⟩, h.validations, h.quizAttempts,
    h.quizCorrect, h.explainDone, h.outcomes, h.quizzes, h.explains⟩

theorem LessonRecord.Ready.validate (outcomes : Dict Text Outcome) :
    LessonRecord.Ready c { r with validations := .val outcomes } :=
  ⟨h.attempts, h.hintsUsed, h.status, h.stepsDone, fun _ => ⟨outcomes, rfl⟩, h.quizAttempts,
    h.quizCorrect, h.explainDone, by simp, h.quizzes, h.explains⟩

theorem LessonRecord.Ready.quiz (n : Nat) (ids : List Text) :
    LessonRecord.Ready c { r with quizAttempts := .val n, quizCorrect := .val ids } :=
  ⟨h.attempts, h.hintsUsed, h.status, h.stepsDone, h.validations, fun _ => ⟨n, rfl⟩,
    fun _ => ⟨ids, rfl⟩, h.explainDone, h.outcomes, by simp, h.explains⟩

theorem LessonRecord.Ready.explain (ids : List Text) :
    LessonRecord.Ready c { r with explainDone := .val ids } :=
  ⟨h.attempts, h.hintsUsed, h.status, h.stepsDone, h.validations, h.quizAttempts, h.quizCorrect,
    fun _ => ⟨ids, rfl⟩, h.outcomes, h.quizzes, by simp⟩

end Ready

section Operations

variable {c : Curriculum F} {s : State F} (hc : c.Sound) (h : s.Usable c) (clock : Clock)
  {lessonId blockId : Text} (hid : lessonId ∈ c.orderedLessonIds)
include hc h hid

theorem markStarted_ok : ∃ s', markStarted clock s lessonId = .ok s' ∧ s'.Usable c := by
  have hr := lessonRecord_ready hc h hid
  obtain ⟨n, hn⟩ := hr.attempts
  rw [markStarted]
  generalize lessonRecord s lessonId = r at hr hn
  split_ifs
  · rw [hn]
    exact ⟨_, rfl, h.put (((hr.start _ _).standing inProgress _).count _)⟩
  · rw [hn]
    exact ⟨_, rfl, h.put ((hr.start _ _).count _)⟩
  · rw [hn]
    exact ⟨_, rfl, h.put ((hr.standing inProgress _).count _)⟩
  · rw [hn]
    exact ⟨_, rfl, h.put (hr.count _)⟩

theorem recordStep_ok (hb : c.blockIds ≠ []) :
    ∃ s', recordStep s lessonId blockId = .ok s' ∧ s'.Usable c := by
  have hr := lessonRecord_ready hc h hid
  obtain ⟨ids, hids⟩ := hr.stepsDone hb
  rw [recordStep, hids]
  exact ⟨_, rfl, h.put (hr.step _)⟩

theorem recordHint_ok (index : Nat) :
    ∃ answer, recordHint s lessonId index = .ok answer ∧ answer.2.1.Usable c := by
  have hr := lessonRecord_ready hc h hid
  obtain ⟨n, hn⟩ := hr.hintsUsed
  rw [recordHint, hn]
  exact ⟨_, rfl, h.insert (hr.hint _)⟩

variable (hb : c.blockIds ≠ []) {concepts : List Text} (hsub : concepts ⊆ c.concepts)
include hb hsub

theorem recordQuiz_ok (correct : Bool) :
    ∃ s', recordQuiz clock s lessonId blockId correct concepts = .ok s' ∧ s'.Usable c := by
  have hr := lessonRecord_ready hc h hid
  obtain ⟨n, hn⟩ := hr.quizAttempts hb
  obtain ⟨ids, hids⟩ := hr.quizCorrect hb
  obtain ⟨bumped, hbump, hcount⟩ := bumpConcepts_ok h.concepts hsub clock correct
  have hs : ({ s with concepts := bumped } : State F).Usable c := ⟨h.lessons, hcount, h.questions⟩
  rw [recordQuiz, hn, hids, hbump]
  cases correct with
  | true => exact ⟨_, rfl, hs.put (hr.quiz _ _)⟩
  | false => exact ⟨_, rfl, hs.put (hr.quiz _ _)⟩

theorem recordExplain_ok (passed : Bool) :
    ∃ s', recordExplain clock s lessonId blockId passed concepts = .ok s' ∧ s'.Usable c := by
  have hr := lessonRecord_ready hc h hid
  obtain ⟨ids, hids⟩ := hr.explainDone hb
  obtain ⟨bumped, hbump, hcount⟩ := bumpConcepts_ok h.concepts hsub clock passed
  have hs : ({ s with concepts := bumped } : State F).Usable c := ⟨h.lessons, hcount, h.questions⟩
  rw [recordExplain, hids, hbump]
  cases passed with
  | true => exact ⟨_, rfl, hs.put (hr.explain _)⟩
  | false => exact ⟨_, rfl, hs.put (hr.explain _)⟩

theorem recordValidation_ok (passed mandatory historical : Bool) :
    ∃ s', recordValidation clock s lessonId blockId passed mandatory concepts historical = .ok s' ∧
      s'.Usable c := by
  have hr := lessonRecord_ready hc h hid
  obtain ⟨outcomes, hv⟩ := hr.validations hb
  rw [recordValidation, hv, Field.use_val, Except.ok_bind]
  split
  · exact ⟨_, rfl, h.put hr⟩
  have hvalidated := hr.validate
    (outcomes.insert blockId { passed := .val passed, time := .val (clock 0) })
  have hs {bumped : Dict Text (ConceptEntry F)} (hcount : Countable c bumped) :
      ({ s with concepts := bumped } : State F).Usable c := ⟨h.lessons, hcount, h.questions⟩
  dsimp only
  split
  · obtain ⟨bumped, hbump, hcount⟩ := bumpConcepts_ok h.concepts hsub
      (fun i => clock (i + 1)) passed
    rw [hbump, Except.ok_bind]
    exact ⟨_, rfl, (hs hcount).put (hvalidated.revoke _)⟩
  · rw [Except.ok_bind]
    exact ⟨_, rfl, (hs h.concepts).put (hvalidated.revoke _)⟩

end Operations

section Answers

variable {c : Curriculum F} {s : State F}

theorem recordInterview_ok (h : s.Usable c) (clock : Clock) {questionId : Text}
    (hid : questionId ∈ c.questionIds) (correct : Bool) {concepts : List Text}
    (hsub : concepts ⊆ c.concepts) :
    ∃ s', recordInterview clock s questionId correct concepts = .ok s' ∧ s'.Usable c := by
  have hentry : ((s.interview.get? questionId).getD
      { correct := .val 0, incorrect := .val 0, streak := .val 0 }).Usable := by
    cases he : s.interview.get? questionId with
    | none => exact ⟨⟨0, rfl⟩, ⟨0, rfl⟩, by simp⟩
    | some entry => exact h.questions questionId hid entry he
  have hinsert {bumped : Dict Text (ConceptEntry F)} (hcount : Countable c bumped)
      {entry : InterviewEntry} (hu : entry.Usable) :
      ({ s with
        concepts := bumped, interview := s.interview.insert questionId entry } : State F).Usable
        c := by
    refine ⟨h.lessons, hcount, ?_⟩
    intro other hmem entry' hget
    rw [Dict.get?_insert] at hget
    split at hget
    · cases hget
      exact hu
    · exact h.questions other hmem entry' hget
  obtain ⟨bumped, hbump, hcount⟩ := bumpConcepts_ok h.concepts hsub clock correct
  rw [recordInterview]
  generalize (s.interview.get? questionId).getD _ = entry at hentry
  obtain ⟨⟨n, hn⟩, ⟨m, hm⟩, hstreak⟩ := hentry
  obtain ⟨streak, hstreak⟩ := Field.useD_ok hstreak 0 .typeError
  cases correct with
  | true =>
    have hu : InterviewEntry.Usable
        { correct := .val (n + 1), incorrect := entry.incorrect, streak := .val (streak + 1) } :=
      ⟨⟨n + 1, rfl⟩, ⟨m, hm⟩, by simp⟩
    simp only [if_true, hn, hstreak, Field.use_val, Except.ok_bind, Except.pure_eq_ok, hbump]
    split
    · exact ⟨_, rfl, hinsert hcount hu⟩
    · exact ⟨_, rfl, hinsert h.concepts hu⟩
  | false =>
    have hu : InterviewEntry.Usable
        { correct := entry.correct, incorrect := .val (m + 1), streak := .val 0 } :=
      ⟨⟨n, hn⟩, ⟨m + 1, rfl⟩, by simp⟩
    simp only [Bool.false_eq_true, if_false, hm, Field.use_val, Except.ok_bind,
      Except.pure_eq_ok, hbump]
    split
    · exact ⟨_, rfl, hinsert hcount hu⟩
    · exact ⟨_, rfl, hinsert h.concepts hu⟩

end Answers

section Reads

variable {c : Curriculum F} {s : State F} {fl : FloatOps F}

theorem missingValidations_ok {validations : Field (Dict Text Outcome)}
    {blocks : List (Items F)} (h : blocks ≠ [] → ∃ outcomes, validations = .val outcomes) :
    ∃ missing, missingValidations validations blocks = .ok missing := by
  cases blocks with
  | nil => exact ⟨[], rfl⟩
  | cons block blocks =>
    obtain ⟨outcomes, rfl⟩ := h (List.cons_ne_nil _ _)
    exact ⟨_, missingValidations_val outcomes _⟩

theorem missingIds_ok {done : Field (List Text)} {entry : Text → Missing} {ids : List Text}
    (h : ids ≠ [] → ∃ present, done = .val present) :
    ∃ missing, missingIds done entry ids = .ok missing := by
  cases ids with
  | nil => exact ⟨[], rfl⟩
  | cons id ids =>
    obtain ⟨present, rfl⟩ := h (List.cons_ne_nil _ _)
    exact ⟨_, missingIds_val present entry _⟩

theorem blockIds_ne_nil {entry : Text × Lesson F} (hmem : entry ∈ c.lessons)
    {p : Items F → Bool} (h : entry.2.blocks.filter p ≠ []) : c.blockIds ≠ [] := by
  obtain ⟨block, hblock⟩ := List.exists_mem_of_ne_nil _ h
  apply List.ne_nil_of_mem (a := blockId block)
  apply List.mem_flatMap.mpr
  exact ⟨entry, hmem, List.mem_map_of_mem (List.mem_of_mem_filter hblock)⟩

/-- The gates of a lesson of the curriculum can be evaluated. -/
theorem State.Usable.checkable (hc : c.Sound) (h : s.Usable c) {entry : Text × Lesson F}
    (hmem : entry ∈ c.lessons) : Checkable fl s entry.2 := by
  intro ha record hr
  rw [hc.ids entry hmem] at hr
  have hu := h.lessons entry hmem record hr
  have hblocks {p : Items F → Bool} (hp : entry.2.blocks.filter p ≠ []) := blockIds_ne_nil hmem hp
  obtain ⟨validations, hv⟩ : ∃ missing,
      missingValidations record.validations (entry.2.mandatoryValidators fl) = .ok missing :=
    missingValidations_ok fun hne =>
      Field.exists_val (hu.outcomes ha) (hu.validations (hblocks hne))
  have hquizBlocks (hne : entry.2.requiredQuizIds ≠ []) : c.blockIds ≠ [] :=
    hblocks fun hnil => hne (by rw [Lesson.requiredQuizIds, hnil, List.map_nil])
  have hexplainBlocks (hne : entry.2.requiredExplainIds ≠ []) : c.blockIds ≠ [] :=
    hblocks fun hnil => hne (by rw [Lesson.requiredExplainIds, hnil, List.map_nil])
  obtain ⟨quizzes, hq⟩ : ∃ missing,
      missingIds record.quizCorrect .quiz entry.2.requiredQuizIds = .ok missing :=
    missingIds_ok fun hne =>
      Field.exists_val (hu.quizzes ha hne) (hu.quizCorrect (hquizBlocks hne))
  obtain ⟨explains, he⟩ : ∃ missing,
      missingIds record.explainDone .explain entry.2.requiredExplainIds = .ok missing :=
    missingIds_ok fun hne =>
      Field.exists_val (hu.explains ha hne) (hu.explainDone (hexplainBlocks hne))
  rw [missingGates, if_neg (hu.outcomes ha), hv, hq, he]
  exact ⟨_, rfl⟩

theorem lessonStatus_usable (h : s.Usable c) {lesson : Lesson F}
    (hmem : (lesson.id, lesson) ∈ c.lessons) : ∃ status, lessonStatus s lesson = .ok status := by
  rw [lessonStatus]
  cases hr : s.lessons.get? lesson.id with
  | none => exact ⟨_, rfl⟩
  | some record =>
    have hstatus := (h.lessons _ hmem record hr).status
    dsimp only
    cases hst : record.status with
    | absent => exact absurd hst hstatus
    | null => exact ⟨_, rfl⟩
    | val status => exact ⟨_, rfl⟩

theorem validationPassed_usable (hc : c.Sound) (h : s.Usable c) {lessonId : Text}
    (hid : lessonId ∈ c.orderedLessonIds) (hb : c.blockIds ≠ []) (blockId : Text) :
    ∃ passed, validationPassed s lessonId blockId = .ok passed := by
  rw [hc.ordered, List.mem_map] at hid
  obtain ⟨entry, hmem, rfl⟩ := hid
  rw [validationPassed]
  cases hr : s.lessons.get? entry.1 with
  | none => exact ⟨_, rfl⟩
  | some record =>
    obtain ⟨outcomes, hv⟩ := Field.useD_ok ((h.lessons entry hmem record hr).validations hb) .empty
      .attributeError
    dsimp only
    rw [hv]
    exact ⟨_, rfl⟩

end Reads

section Serve

variable {c : Curriculum F} {s : State F} {fl : FloatOps F}

/-- A call within the curriculum returns on a usable state, and leaves it usable. -/
theorem perform_usable (hc : c.Sound) (h : s.Usable c) (clock : Clock) {call : Call F}
    (hcall : call.Within c) :
    ∃ effect, perform fl clock s call = .ok effect ∧ effect.state.Usable c := by
  have hsave {x : Except Error (State F)} (hx : ∃ s', x = .ok s' ∧ s'.Usable c) :
      ∃ effect, x.map Effect.save = .ok effect ∧ effect.state.Usable c := by
    obtain ⟨s', rfl, hs'⟩ := hx
    exact ⟨_, rfl, hs'⟩
  have hread {α : Type} {x : Except Error α} (hx : ∃ a, x = .ok a) :
      ∃ effect, x.map (fun _ => Effect.read s) = .ok effect ∧ effect.state.Usable c := by
    obtain ⟨a, rfl⟩ := hx
    exact ⟨_, rfl, h⟩
  have hlessons (id : Text) (lesson : Lesson F) (hl : Assoc.get? id c.lessons = some lesson) :
      Checkable fl s lesson := h.checkable hc (Assoc.mem_of_get? hl)
  have hcompletion (lesson : Lesson F) (c' : Option (Curriculum F))
      (hmem : (lesson.id, lesson) ∈ c.lessons) (hc' : ∀ c'' ∈ c', c'' = c) :
      ∃ missing, lessonCompletion fl s lesson c' = .ok (missing.isEmpty, missing) := by
    have hlesson : Checkable fl s lesson := h.checkable hc hmem
    refine lessonCompletion_ok hlesson ?_
    intro c'' hc'' id lesson hl
    rw [hc' c'' hc''] at hl
    exact hlessons id lesson hl
  have hreadable (concept : Text) (hmem : concept ∈ c.concepts) : Readable s concept := by
    intro entry he
    obtain ⟨⟨n, hn⟩, ⟨m, hm⟩⟩ := h.concepts concept hmem entry he
    rw [hn, hm]
    simp
  cases call with
  | markStarted lessonId => exact hsave (markStarted_ok hc h clock hcall)
  | recordStep lessonId blockId =>
    exact hsave (recordStep_ok hc h hcall.1 (List.ne_nil_of_mem hcall.2))
  | recordValidation lessonId blockId passed mandatory concepts historical =>
    exact hsave (recordValidation_ok hc h clock hcall.1 (List.ne_nil_of_mem hcall.2.1) hcall.2.2
      passed mandatory historical)
  | recordQuiz lessonId blockId correct concepts =>
    exact hsave (recordQuiz_ok hc h clock hcall.1 (List.ne_nil_of_mem hcall.2.1) hcall.2.2 correct)
  | recordExplain lessonId blockId passed concepts =>
    exact hsave (recordExplain_ok hc h clock hcall.1 (List.ne_nil_of_mem hcall.2.1) hcall.2.2
      passed)
  | recordHint lessonId index =>
    obtain ⟨answer, hanswer, hs'⟩ := recordHint_ok hc h hcall index
    rw [perform, hanswer]
    exact ⟨_, rfl, hs'⟩
  | recordInterview questionId correct concepts =>
    exact hsave (recordInterview_ok h clock hcall.1 correct hcall.2)
  | markComplete lesson c' =>
    obtain ⟨missing, hmissing⟩ := hcompletion lesson c' hcall.1 hcall.2
    have hid : lesson.id ∈ c.orderedLessonIds := by
      rw [hc.ordered]
      exact List.mem_map_of_mem hcall.1
    rw [perform, markComplete, hmissing, Except.ok_bind]
    cases missing with
    | nil => exact ⟨_, rfl, h.insert ((lessonRecord_ready hc h hid).standing complete _)⟩
    | cons entry missing => exact ⟨_, rfl, h⟩
  | lessonCompletion lesson c' =>
    obtain ⟨missing, hmissing⟩ := hcompletion lesson c' hcall.1 hcall.2
    exact hread ⟨_, hmissing⟩
  | completionMap c' =>
    obtain rfl : c' = c := hcall
    exact hread (completionMap_ok hlessons)
  | lessonStatus lesson => exact hread (lessonStatus_usable h hcall)
  | validationPassed lessonId blockId =>
    exact hread (validationPassed_usable hc h hcall.1 (List.ne_nil_of_mem hcall.2) blockId)
  | resumeLessonId c' =>
    obtain rfl : c' = c := hcall
    exact hread (resumeLessonId_ok hlessons hc.nonempty)
  | conceptMastery concepts =>
    exact hread (conceptMastery_ok fun concept hmem => hreadable concept (hcall hmem))
  | interviewWeights questions =>
    refine hread (interviewWeights_ok ?_ ?_)
    · intro question hq concept hmem
      exact hreadable concept ((hcall question hq).2 hmem)
    · intro question hq entry he
      obtain ⟨-, ⟨m, hm⟩, hstreak⟩ := h.questions question.1 (hcall question hq).1 entry he
      rw [hm]
      exact ⟨by simp, hstreak⟩

end Serve

section Reading

variable {s s' : State F} {clock : Clock} {lessonId blockId : Text} {concepts : List Text}

theorem Field.ne_null_of_fill {α : Type} {f d : Field α} (h : ∃ a, f.fill d = .val a) :
    f ≠ .null := by
  rintro rfl
  obtain ⟨a, ha⟩ := h
  cases ha

section Record

variable {r : LessonRecord F} (hr : s.lessons.get? lessonId = some r)
include hr

theorem lessonRecord_stored : lessonRecord s lessonId = r.filled := by
  rw [lessonRecord, hr]
  rfl

theorem markStarted_reads (h : markStarted clock s lessonId = .ok s') : r.attempts ≠ .null := by
  obtain ⟨n, hn, -⟩ := Except.bind_eq_ok.mp h
  rw [lessonRecord_stored hr] at hn
  apply Field.ne_null_of_fill
  refine ⟨n, ?_⟩
  split_ifs at hn <;> exact Field.use_eq_ok.mp hn

theorem recordStep_reads (h : recordStep s lessonId blockId = .ok s') : r.stepsDone ≠ .null := by
  obtain ⟨ids, hids, -⟩ := Except.bind_eq_ok.mp h
  rw [lessonRecord_stored hr] at hids
  exact Field.ne_null_of_fill ⟨ids, Field.use_eq_ok.mp hids⟩

theorem recordHint_reads {index : Nat} {answer : Nat × State F × Bool}
    (h : recordHint s lessonId index = .ok answer) : r.hintsUsed ≠ .null := by
  obtain ⟨n, hn, -⟩ := Except.bind_eq_ok.mp h
  rw [lessonRecord_stored hr] at hn
  exact Field.ne_null_of_fill ⟨n, Field.use_eq_ok.mp hn⟩

theorem recordValidation_reads {passed mandatory historical : Bool}
    (h : recordValidation clock s lessonId blockId passed mandatory concepts historical =
      .ok s') : r.validations ≠ .null := by
  obtain ⟨outcomes, hv, -⟩ := Except.bind_eq_ok.mp h
  rw [lessonRecord_stored hr] at hv
  exact Field.ne_null_of_fill ⟨outcomes, Field.use_eq_ok.mp hv⟩

/-- Only a right answer reads the list of those so far. -/
theorem recordQuiz_reads (h : recordQuiz clock s lessonId blockId true concepts = .ok s') :
    r.quizAttempts ≠ .null ∧ r.quizCorrect ≠ .null := by
  rw [recordQuiz, lessonRecord_stored hr] at h
  obtain ⟨n, hn, h⟩ := Except.bind_eq_ok.mp h
  rw [if_pos rfl] at h
  obtain ⟨ids, hids, -⟩ := Except.bind_eq_ok.mp h
  exact ⟨Field.ne_null_of_fill ⟨n, Field.use_eq_ok.mp hn⟩,
    Field.ne_null_of_fill ⟨ids, Field.use_eq_ok.mp hids⟩⟩

theorem recordExplain_reads (h : recordExplain clock s lessonId blockId true concepts = .ok s') :
    r.explainDone ≠ .null := by
  rw [recordExplain, if_pos rfl, lessonRecord_stored hr] at h
  obtain ⟨ids, hids, -⟩ := Except.bind_eq_ok.mp h
  exact Field.ne_null_of_fill ⟨ids, Field.use_eq_ok.mp hids⟩

end Record

theorem missingGates_reads {fl : FloatOps F} {lesson : Lesson F} {r : LessonRecord F}
    {gates : List Missing} (h : missingGates fl lesson r = .ok gates) :
    r.validations ≠ .absent ∧ (lesson.requiredQuizIds ≠ [] → r.quizCorrect ≠ .absent) ∧
      (lesson.requiredExplainIds ≠ [] → r.explainDone ≠ .absent) := by
  have hids {done : Field (List Text)} {entry : Text → Missing} {ids : List Text}
      {missing : List Missing} (hm : missingIds done entry ids = .ok missing) (hne : ids ≠ []) :
      done ≠ .absent := by
    rintro rfl
    cases ids with
    | nil => exact hne rfl
    | cons id ids => cases hm
  rw [missingGates] at h
  split_ifs at h with hv
  obtain ⟨_, -, h⟩ := Except.bind_eq_ok.mp h
  obtain ⟨_, hq, h⟩ := Except.bind_eq_ok.mp h
  obtain ⟨_, he, -⟩ := Except.bind_eq_ok.mp h
  exact ⟨hv, hids hq, hids he⟩

theorem lessonCompletion_reads {fl : FloatOps F} {lesson : Lesson F} {c : Option (Curriculum F)}
    {answer : Bool × List Missing} (h : lessonCompletion fl s lesson c = .ok answer)
    (ha : lesson.status = .available) {r : LessonRecord F}
    (hr : s.lessons.get? lesson.id = some r) :
    ∃ gates, missingGates fl lesson r = .ok gates := by
  obtain ⟨missing, hmissing, -⟩ := Except.bind_eq_ok.mp h
  rw [completionWith, if_neg (by simp [ha]), hr] at hmissing
  obtain ⟨_, -, hmissing⟩ := Except.bind_eq_ok.mp hmissing
  obtain ⟨gates, hgates, -⟩ := Except.bind_eq_ok.mp hmissing
  exact ⟨gates, hgates⟩

/-- The count that an answer adds to. -/
theorem bumpConcepts_reads {stored bumped : Dict Text (ConceptEntry F)} {concept : Text}
    {correct : Bool} (h : bumpConcepts clock correct stored [concept] = .ok bumped)
    {entry : ConceptEntry F} (he : stored.get? concept = some entry) :
    ∃ n, (if correct then entry.correct else entry.incorrect) = .val n := by
  rw [bumpConcepts, he] at h
  obtain ⟨n, hn, -⟩ := Except.bind_eq_ok.mp h
  exact ⟨n, Field.use_eq_ok.mp hn⟩

theorem recordInterview_reads {questionId : Text} {correct : Bool}
    (h : recordInterview clock s questionId correct concepts = .ok s') :
    (∀ entry, s.interview.get? questionId = some entry →
      (∃ n, (if correct then entry.correct else entry.incorrect) = .val n) ∧
        (correct = true → entry.streak ≠ .null)) ∧
    (concepts ≠ [] → ∃ bumped, bumpConcepts clock correct s.concepts concepts = .ok bumped) := by
  obtain ⟨n, hn, h⟩ := Except.bind_eq_ok.mp h
  constructor
  · intro entry he
    rw [he] at hn h
    refine ⟨⟨n, Field.use_eq_ok.mp hn⟩, ?_⟩
    rintro rfl hnull
    rw [if_pos rfl] at h
    obtain ⟨streak, hstreak, -⟩ := Except.bind_eq_ok.mp h
    simp [hnull, Field.useD] at hstreak
  · intro hne
    have hempty : (!concepts.isEmpty) = true := by simpa using hne
    cases correct with
    | true =>
      obtain ⟨_, -, h⟩ := Except.bind_eq_ok.mp h
      obtain ⟨_, -, h⟩ := Except.bind_eq_ok.mp h
      dsimp only at h
      rw [if_pos hempty] at h
      obtain ⟨bumped, hbumped, -⟩ := Except.bind_eq_ok.mp h
      exact ⟨bumped, hbumped⟩
    | false =>
      simp only [Bool.false_eq_true, if_false, Except.pure_eq_ok, Except.ok_bind,
        if_pos hempty] at h
      obtain ⟨bumped, hbumped, -⟩ := Except.bind_eq_ok.mp h
      exact ⟨bumped, hbumped⟩

end Reading

section Needed

variable {c : Curriculum F} {s : State F} {fl : FloatOps F}

/-- Every call within the curriculum returns on the state. -/
def Returns (fl : FloatOps F) (c : Curriculum F) (s : State F) : Prop :=
  ∀ (clock : Clock) (call : Call F), call.Within c → ∃ effect, perform fl clock s call = .ok effect

theorem Returns.ok {α : Type} {x : Except Error α} {f : α → Effect F}
    (h : ∃ effect, x.map f = .ok effect) : ∃ a, x = .ok a := by
  obtain ⟨effect, heffect⟩ := h
  obtain ⟨a, ha, -⟩ := Except.map_eq_ok.mp heffect
  exact ⟨a, ha⟩

/-- On a state on which every call returns, a record lacks nothing that a call reads. -/
theorem Returns.lesson (hc : c.Sound) (h : Returns fl c s) {entry : Text × Lesson F}
    (hmem : entry ∈ c.lessons) {r : LessonRecord F} (hr : s.lessons.get? entry.1 = some r) :
    r.Usable c entry.2 := by
  have hid : entry.1 ∈ c.orderedLessonIds := by
    rw [hc.ordered]
    exact List.mem_map_of_mem hmem
  have hkey : entry.2.id = entry.1 := hc.ids entry hmem
  have hlesson : (entry.2.id, entry.2) ∈ c.lessons := by
    rw [hkey]
    exact hmem
  have hnil : ([] : List Text) ⊆ c.concepts := List.nil_subset _
  have hgates (ha : entry.2.status = .available) :
      ∃ gates, missingGates fl entry.2 r = .ok gates := by
    obtain ⟨answer, hanswer⟩ := Returns.ok
      (h (fun _ => []) (.lessonCompletion entry.2 none) ⟨hlesson, by simp⟩)
    exact lessonCompletion_reads hanswer ha (by rwa [hkey])
  have hquiz (hb : c.blockIds ≠ []) : r.quizAttempts ≠ .null ∧ r.quizCorrect ≠ .null := by
    obtain ⟨blockId, hblockId⟩ := List.exists_mem_of_ne_nil _ hb
    obtain ⟨s', hs'⟩ := Returns.ok
      (h (fun _ => []) (.recordQuiz entry.1 blockId true []) ⟨hid, hblockId, hnil⟩)
    exact recordQuiz_reads hr hs'
  constructor
  · obtain ⟨s', hs'⟩ := Returns.ok (h (fun _ => []) (.markStarted entry.1) hid)
    exact markStarted_reads hr hs'
  · obtain ⟨answer, hanswer⟩ := Returns.ok (h (fun _ => []) (.recordHint entry.1 0) hid)
    exact recordHint_reads hr hanswer
  · obtain ⟨status, hstatus⟩ := Returns.ok (h (fun _ => []) (.lessonStatus entry.2) hlesson)
    intro habsent
    rw [lessonStatus, hkey, hr] at hstatus
    dsimp only at hstatus
    rw [habsent] at hstatus
    cases hstatus
  · intro hb
    obtain ⟨blockId, hblockId⟩ := List.exists_mem_of_ne_nil _ hb
    obtain ⟨s', hs'⟩ := Returns.ok
      (h (fun _ => []) (.recordStep entry.1 blockId) ⟨hid, hblockId⟩)
    exact recordStep_reads hr hs'
  · intro hb
    obtain ⟨blockId, hblockId⟩ := List.exists_mem_of_ne_nil _ hb
    obtain ⟨s', hs'⟩ := Returns.ok
      (h (fun _ => []) (.recordValidation entry.1 blockId true false [] false)
        ⟨hid, hblockId, hnil⟩)
    exact recordValidation_reads hr hs'
  · intro hb
    exact (hquiz hb).1
  · intro hb
    exact (hquiz hb).2
  · intro hb
    obtain ⟨blockId, hblockId⟩ := List.exists_mem_of_ne_nil _ hb
    obtain ⟨s', hs'⟩ := Returns.ok
      (h (fun _ => []) (.recordExplain entry.1 blockId true []) ⟨hid, hblockId, hnil⟩)
    exact recordExplain_reads hr hs'
  · intro ha
    obtain ⟨gates, hg⟩ := hgates ha
    exact (missingGates_reads hg).1
  · intro ha
    obtain ⟨gates, hg⟩ := hgates ha
    exact (missingGates_reads hg).2.1
  · intro ha
    obtain ⟨gates, hg⟩ := hgates ha
    exact (missingGates_reads hg).2.2

theorem Returns.question (h : Returns fl c s) {questionId : Text}
    (hid : questionId ∈ c.questionIds) {entry : InterviewEntry}
    (he : s.interview.get? questionId = some entry) : entry.Usable := by
  have hnil : ([] : List Text) ⊆ c.concepts := List.nil_subset _
  obtain ⟨right, hright⟩ := Returns.ok
    (h (fun _ => []) (.recordInterview questionId true []) ⟨hid, hnil⟩)
  obtain ⟨wrong, hwrong⟩ := Returns.ok
    (h (fun _ => []) (.recordInterview questionId false []) ⟨hid, hnil⟩)
  obtain ⟨hcorrect, hstreak⟩ := (recordInterview_reads hright).1 entry he
  obtain ⟨hincorrect, -⟩ := (recordInterview_reads hwrong).1 entry he
  exact ⟨hcorrect, hincorrect, hstreak rfl⟩

theorem Returns.concept (h : Returns fl c s) (hq : c.questionIds ≠ []) {concept : Text}
    (hmem : concept ∈ c.concepts) {entry : ConceptEntry F}
    (he : s.concepts.get? concept = some entry) : entry.Usable := by
  obtain ⟨questionId, hid⟩ := List.exists_mem_of_ne_nil _ hq
  have hsub : [concept] ⊆ c.concepts := by simpa using hmem
  have hcount (correct : Bool) :
      ∃ n, (if correct then entry.correct else entry.incorrect) = .val n := by
    obtain ⟨s', hs'⟩ := Returns.ok
      (h (fun _ => []) (.recordInterview questionId correct [concept]) ⟨hid, hsub⟩)
    obtain ⟨bumped, hbumped⟩ := (recordInterview_reads hs').2 (List.cons_ne_nil _ _)
    exact bumpConcepts_reads hbumped he
  exact ⟨hcount true, hcount false⟩

end Needed

section Sample

/-- A progress file with an empty record for the first lesson of the sample curriculum. -/
def sampleFile : List Nat := ascii "\x7b\"version\": 1, \"lessons\": \x7b\"z\": \x7b\x7d\x7d\x7d"

end Sample

end Learning
