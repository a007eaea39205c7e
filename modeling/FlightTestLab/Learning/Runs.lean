import Mathlib.Data.List.Induction
import FlightTestLab.Learning.CompletionMap
import FlightTestLab.Learning.Ledger

/-!
# Runs of calls on the store

From an empty store no call raises: the store stays the state of a ledger. A run is
recorded as the list of its calls, each with whether it was a `mark_complete` that
succeeded, and the ledger is a function of that history and the clock.

## Main definitions

- `Learning.Store`: the state in memory and the state last saved
- `Learning.run`: a run of calls from an empty store
- `Learning.Reached`: the ledgers that histories of calls lead to

## Main results

- `Learning.perform_state`: a call on the state of a ledger
- `Learning.run_reached`: every run returns, with the state of a ledger its history reaches
-/

namespace Learning

open Json (Text ascii)
open Python (Value Error FloatOps)

variable {F : Type}

/-- The gates of a lesson can be evaluated on its record. -/
def Checkable (fl : FloatOps F) (s : State F) (lesson : Lesson F) : Prop :=
  lesson.status = .available → ∀ record, s.lessons.get? lesson.id = some record →
    ∃ gates, missingGates fl lesson record = .ok gates

section Returns

variable (fl : FloatOps F) {s : State F}

theorem Checkable.of_templated (hs : s.Templated) (lesson : Lesson F) : Checkable fl s lesson := by
  intro _ record hr
  obtain ⟨gates, hgates, -, -⟩ := missingGates_templated fl lesson (hs _ _ hr)
  exact ⟨gates, hgates⟩

theorem missingPrerequisites_ok {check : List Text → Text → Except Error (Bool × List Text)}
    {seen : List Text}
    (h : ∀ seen' p, seen ⊆ seen' → ∃ r, check seen' p = .ok r ∧ seen' ⊆ r.2) (ps : List Text)
    {seen' : List Text} (hsub : seen ⊆ seen') :
    ∃ missing, missingPrerequisites check seen' ps = .ok missing := by
  induction ps generalizing seen' with
  | nil => exact ⟨_, rfl⟩
  | cons p ps ih =>
    obtain ⟨⟨b, seen''⟩, hr, hgrows⟩ := h seen' p hsub
    obtain ⟨missing, hmissing⟩ := ih (List.Subset.trans hsub hgrows)
    refine ⟨if b then missing else .prerequisite p :: missing, ?_⟩
    rw [missingPrerequisites, hr, Except.ok_bind]
    dsimp only at hmissing ⊢
    rw [hmissing]
    rfl

variable {fl}

/-- What a lesson is missing, when its prerequisites can be tested. -/
theorem completionWith_ok {check : List Text → Text → Except Error (Bool × List Text)}
    (seen : List Text)
    (h : ∀ seen' p, seen ⊆ seen' → ∃ r, check seen' p = .ok r ∧ seen' ⊆ r.2)
    {lesson : Lesson F} (hl : Checkable fl s lesson) :
    ∃ missing, completionWith fl check s lesson seen = .ok missing := by
  rw [completionWith]
  by_cases ha : lesson.status = .unavailable
  · rw [if_pos ha]
    exact ⟨_, rfl⟩
  rw [if_neg ha]
  cases hr : s.lessons.get? lesson.id with
  | none => exact ⟨_, rfl⟩
  | some record =>
    have hsub : seen ⊆ if seen.contains lesson.id then seen else lesson.id :: seen := by
      split_ifs
      · exact List.Subset.refl _
      · exact List.subset_cons_self _ _
    have havailable : lesson.status = .available := by
      cases hst : lesson.status with
      | available => rfl
      | unavailable => exact absurd hst ha
    obtain ⟨prerequisites, hp⟩ := missingPrerequisites_ok h lesson.prerequisites hsub
    obtain ⟨gates, hg⟩ := hl havailable record hr
    dsimp only
    rw [hp, hg]
    exact ⟨_, rfl⟩

/-- Nothing is missing only of a lesson that is available and whose own gates hold. -/
theorem completionWith_nil (hs : s.Templated)
    {check : List Text → Text → Except Error (Bool × List Text)} {seen : List Text}
    {lesson : Lesson F} (h : completionWith fl check s lesson seen = .ok []) :
    lesson.status = .available ∧
      ∃ record, s.lessons.get? lesson.id = some record ∧ GatesHold fl lesson record := by
  rw [completionWith] at h
  by_cases ha : lesson.status = .unavailable
  · rw [if_pos ha] at h
    cases h
  rw [if_neg ha] at h
  cases hr : s.lessons.get? lesson.id with
  | none =>
    rw [hr] at h
    cases h
  | some record =>
    rw [hr] at h
    dsimp only at h
    obtain ⟨prerequisites, -, h⟩ := Except.bind_eq_ok.mp h
    obtain ⟨gates, hgates, h⟩ := Except.bind_eq_ok.mp h
    obtain ⟨gates', hgates', hnil, -⟩ := missingGates_templated fl lesson (hs _ _ hr)
    rw [hgates] at hgates'
    cases hgates'
    have happend : prerequisites ++ gates = [] := Except.ok.inj h
    refine ⟨?_, record, rfl, hnil.mp (List.append_eq_nil_iff.mp happend).2⟩
    cases hst : lesson.status with
    | available => rfl
    | unavailable => exact absurd hst ha

theorem lessonIsComplete_ok {c : Curriculum F}
    (hc : ∀ id lesson, Assoc.get? id c.lessons = some lesson → Checkable fl s lesson)
    {limit : Nat} {seen : List Text}
    (hlimit : Prerequisites.remaining (c.lessons.map Prod.fst) seen < limit) (id : Text) :
    ∃ r, lessonIsComplete fl s (some c) limit seen id = .ok r ∧ seen ⊆ r.2 := by
  induction limit generalizing seen id with
  | zero => omega
  | succ limit ih =>
    rw [lessonIsComplete]
    have hread (b : Bool) : ∃ r, Except.ok (ε := Error) (b, seen) = .ok r ∧ seen ⊆ r.2 :=
      ⟨_, rfl, List.Subset.refl _⟩
    split
    · exact hread false
    · next record hr =>
      split_ifs with hst hseen
      · exact hread true
      · split
        · exact hread true
        · next lesson hl =>
          have hmem : id ∈ c.lessons.map Prod.fst :=
            List.mem_map_of_mem (Assoc.mem_of_get? hl)
          have hlt := Prerequisites.remaining_cons_lt hmem fun h => hseen (List.contains_iff_mem.mpr h)
          obtain ⟨missing, hmissing⟩ := completionWith_ok (id :: seen)
            (fun seen' p hsub => ih
              (Nat.lt_of_le_of_lt (Prerequisites.remaining_le hsub) (by omega)) p) (hc id lesson hl)
          refine ⟨(missing.isEmpty, id :: seen), ?_, List.subset_cons_self _ _⟩
          dsimp only
          rw [hmissing]
          rfl
      · exact hread false

variable (fl) in
theorem lessonIsComplete_none (seen : List Text) (id : Text) :
    ∃ r, lessonIsComplete fl s none 1 seen id = .ok r ∧ seen ⊆ r.2 := by
  rw [lessonIsComplete]
  split
  · exact ⟨_, rfl, List.Subset.refl _⟩
  · split_ifs
    · exact ⟨_, rfl, List.Subset.refl _⟩
    · exact ⟨_, rfl, List.Subset.refl _⟩

/-- `lesson_completion` returns, with or without the curriculum. -/
theorem lessonCompletion_ok {lesson : Lesson F} (hl : Checkable fl s lesson)
    {c : Option (Curriculum F)}
    (hc : ∀ c' ∈ c, ∀ id lesson, Assoc.get? id c'.lessons = some lesson → Checkable fl s lesson) :
    ∃ missing, lessonCompletion fl s lesson c = .ok (missing.isEmpty, missing) := by
  have hcheck (seen : List Text) (p : Text) :
      ∃ r, lessonIsComplete fl s c (recursionLimit c) seen p = .ok r ∧ seen ⊆ r.2 := by
    cases c with
    | none => exact lessonIsComplete_none fl seen p
    | some c => exact lessonIsComplete_ok (hc c rfl) (remaining_lt_limit seen) p
  obtain ⟨missing, hmissing⟩ := completionWith_ok [] (fun seen p _ => hcheck seen p) hl
  refine ⟨missing, ?_⟩
  rw [lessonCompletion, hmissing]
  rfl

theorem lessonCompletion_nil (hs : s.Templated) {lesson : Lesson F} {c : Option (Curriculum F)}
    (h : lessonCompletion fl s lesson c = .ok (true, [])) :
    lesson.status = .available ∧
      ∃ record, s.lessons.get? lesson.id = some record ∧ GatesHold fl lesson record := by
  obtain ⟨missing, hmissing, hanswer⟩ := Except.bind_eq_ok.mp h
  have hnil : missing = [] := (Prod.mk.inj (Except.ok.inj hanswer)).2
  rw [hnil] at hmissing
  exact completionWith_nil hs hmissing

theorem completionMap_ok {c : Curriculum F}
    (hc : ∀ id lesson, Assoc.get? id c.lessons = some lesson → Checkable fl s lesson) :
    ∃ completed, completionMap fl s c = .ok completed := by
  choose r hr using fun id => lessonIsComplete_ok hc (remaining_lt_limit []) id
  refine ⟨_, Except.mapM_eq_ok (g := fun id => (id, (r id).1)) ?_⟩
  intro id _
  rw [(hr id).1]
  rfl

theorem resumeLessonId_ok {c : Curriculum F}
    (hc : ∀ id lesson, Assoc.get? id c.lessons = some lesson → Checkable fl s lesson)
    (hne : c.orderedLessonIds ≠ []) : ∃ id, resumeLessonId fl s c = .ok id := by
  obtain ⟨completed, hmap⟩ := completionMap_ok hc
  rw [resumeLessonId, hmap, Except.ok_bind]
  split
  · exact ⟨_, rfl⟩
  · split
    · exact ⟨_, rfl⟩
    · split
      · exact ⟨_, rfl⟩
      · next hlast => exact absurd (List.getLast?_eq_none_iff.mp hlast) hne

end Returns

section Reads

theorem Field.useD_ok {α : Type} {f : Field α} (h : f ≠ .null) (d : α) (e : Error) :
    ∃ a, f.useD d e = .ok a := by
  cases f with
  | absent => exact ⟨d, rfl⟩
  | null => exact absurd rfl h
  | val a => exact ⟨a, rfl⟩

variable {s : State F}

/-- The counters of a concept's entry can be read. -/
def Readable (s : State F) (concept : Text) : Prop :=
  ∀ entry, s.concepts.get? concept = some entry → entry.correct ≠ .null ∧ entry.incorrect ≠ .null

theorem masteryOf_ok {concept : Text} (h : Readable s concept) :
    ∃ mastery, masteryOf s concept = .ok mastery := by
  rw [masteryOf]
  cases he : s.concepts.get? concept with
  | none => exact ⟨_, rfl⟩
  | some entry =>
    obtain ⟨hcorrect, hincorrect⟩ := h entry he
    obtain ⟨correct, hcorrect⟩ := Field.useD_ok hcorrect 0 .typeError
    obtain ⟨incorrect, hincorrect⟩ := Field.useD_ok hincorrect 0 .typeError
    rw [Option.getD_some, hcorrect, hincorrect]
    exact ⟨_, rfl⟩

theorem conceptMastery_ok {concepts : List Text} (h : ∀ concept ∈ concepts, Readable s concept) :
    ∃ mastery, conceptMastery s concepts = .ok mastery := by
  rw [conceptMastery]
  induction concepts with
  | nil => exact ⟨[], rfl⟩
  | cons concept concepts ih =>
    rw [List.forall_mem_cons] at h
    obtain ⟨mastery, hmastery⟩ := masteryOf_ok h.1
    obtain ⟨rest, hrest⟩ := ih h.2
    refine ⟨(concept, mastery) :: rest, ?_⟩
    rw [List.mapM_cons, hmastery, hrest]
    rfl

theorem weightOf_ok (mastery : List (Text × Mastery)) {questionId : Text}
    (h : ∀ entry, s.interview.get? questionId = some entry →
      entry.incorrect ≠ .null ∧ entry.streak ≠ .null) (concepts : List Text) :
    ∃ weight, weightOf s mastery questionId concepts = .ok weight := by
  rw [weightOf]
  cases he : s.interview.get? questionId with
  | none => exact ⟨_, rfl⟩
  | some entry =>
    obtain ⟨hincorrect, hstreak⟩ := h entry he
    obtain ⟨incorrect, hincorrect⟩ := Field.useD_ok hincorrect 0 .typeError
    obtain ⟨streak, hstreak⟩ := Field.useD_ok hstreak 0 .typeError
    rw [Option.getD_some, hincorrect, hstreak]
    exact ⟨_, rfl⟩

theorem interviewWeights_ok {questions : List (Text × List Text)}
    (hconcepts : ∀ question ∈ questions, ∀ concept ∈ question.2, Readable s concept)
    (h : ∀ question ∈ questions, ∀ entry, s.interview.get? question.1 = some entry →
      entry.incorrect ≠ .null ∧ entry.streak ≠ .null) :
    ∃ weights, interviewWeights s questions = .ok weights := by
  have hreadable : ∀ concept ∈ (questions.flatMap Prod.snd).dedup, Readable s concept := by
    intro concept hmem
    obtain ⟨question, hq, hconcept⟩ := List.mem_flatMap.mp (List.mem_dedup.mp hmem)
    exact hconcepts question hq concept hconcept
  obtain ⟨mastery, hmastery⟩ := conceptMastery_ok hreadable
  rw [interviewWeights, hmastery, Except.ok_bind]
  clear hmastery hreadable hconcepts
  induction questions with
  | nil => exact ⟨[], rfl⟩
  | cons question questions ih =>
    rw [List.forall_mem_cons] at h
    obtain ⟨weight, hweight⟩ := weightOf_ok mastery h.1 question.2
    obtain ⟨rest, hrest⟩ := ih h.2
    refine ⟨(question.1, weight) :: rest, ?_⟩
    rw [List.mapM_cons, hweight, hrest]
    rfl

end Reads

section Ledgers

variable (a : Ledger)

theorem state_templated : (a.state : State F).Templated := by
  intro lessonId record h
  rw [state_lessons, Dict.get?_map, Option.map_eq_some_iff] at h
  obtain ⟨r, -, rfl⟩ := h
  exact ⟨⟨_, rfl⟩, ⟨_, rfl⟩, ⟨_, rfl⟩, ⟨_, rfl⟩, ⟨_, rfl⟩, ⟨_, rfl⟩, ⟨_, rfl⟩, ⟨_, rfl⟩, ⟨_, rfl⟩⟩

theorem state_readable (concept : Text) : Readable (a.state : State F) concept := by
  intro entry h
  rw [state_concepts, Dict.get?_map, Option.map_eq_some_iff] at h
  obtain ⟨t, -, rfl⟩ := h
  exact ⟨by simp [Tally.entry], by simp [Tally.entry]⟩

theorem state_answers (questionId : Text) (entry : InterviewEntry)
    (h : (a.state : State F).interview.get? questionId = some entry) :
    entry.incorrect ≠ .null ∧ entry.streak ≠ .null := by
  rw [state_interview, Dict.get?_map, Option.map_eq_some_iff] at h
  obtain ⟨answers, -, rfl⟩ := h
  exact ⟨by simp [Answers.entry], by simp [Answers.entry]⟩

theorem lessonStatus_ok (lesson : Lesson F) :
    ∃ status, lessonStatus (a.state : State F) lesson = .ok status := by
  rw [lessonStatus, state_lessons, Dict.get?_map]
  cases a.lessons.get? lesson.id with
  | none => exact ⟨_, rfl⟩
  | some r => exact ⟨r.status, rfl⟩

theorem validationPassed_ok (lessonId blockId : Text) :
    ∃ passed, validationPassed (a.state : State F) lessonId blockId = .ok passed := by
  rw [validationPassed, state_lessons, Dict.get?_map]
  cases a.lessons.get? lessonId with
  | none => exact ⟨_, rfl⟩
  | some r => exact ⟨_, rfl⟩

end Ledgers

section Perform

/-- The curriculum that navigation is given has a lesson. -/
def Call.Allowed : Call F → Prop
  | .resumeLessonId c => c.orderedLessonIds ≠ []
  | _ => True

/-- A lesson that `mark_complete` can take: available, started, with its own gates holding. -/
structure Completable (fl : FloatOps F) (a : Ledger) (lesson : Lesson F) : Prop where
  available : lesson.status = .available
  started : ∃ r, a.lessons.get? lesson.id = some r ∧ GatesHold fl lesson r.record

/-- The answer of a call: `mark_complete` succeeds only on a lesson it can take. -/
def Call.MayAnswer (fl : FloatOps F) (a : Ledger) (call : Call F) (done : Bool) : Prop :=
  done = true → ∃ lesson c, call = .markComplete lesson c ∧ Completable fl a lesson

/-- A hint that is revealed already leaves the ledger as it is. -/
theorem recordHint_eq_self (a : Ledger) {lessonId : Text} {index : Nat}
    (h : max (a.lesson lessonId).hintsUsed (index + 1) = (a.lesson lessonId).hintsUsed) :
    a.recordHint lessonId index = a := by
  rw [Ledger.recordHint, Standing.hint, h]
  rw [Ledger.lesson] at h ⊢
  cases hr : a.lessons.get? lessonId with
  | none =>
    rw [hr] at h
    exact absurd h (by simp [Standing.fresh])
  | some r =>
    show { a with lessons := a.lessons.insert lessonId r } = a
    rw [Dict.insert_get? hr]

/-- A call returns on the state of a ledger, and leaves the state of the next. When it saves
nothing it changes nothing. -/
theorem perform_state (fl : FloatOps F) (clock : Clock) (a : Ledger) (call : Call F)
    (hcall : call.Allowed) :
    ∃ saved done, perform fl clock a.state call =
        .ok ⟨(a.apply clock done call).state, saved, done⟩ ∧
      (saved = false → a.apply clock done call = a) ∧ call.MayAnswer fl a done := by
  have hs : (a.state : State F).Templated := state_templated a
  have hcheck (lesson : Lesson F) : Checkable fl a.state lesson := .of_templated fl hs lesson
  cases call with
  | markStarted lessonId =>
    refine ⟨true, false, ?_, nofun, nofun⟩
    rw [perform, markStarted_state]
    rfl
  | recordStep lessonId blockId =>
    refine ⟨true, false, ?_, nofun, nofun⟩
    rw [perform, recordStep_state]
    rfl
  | recordValidation lessonId blockId passed mandatory concepts historical =>
    refine ⟨true, false, ?_, nofun, nofun⟩
    rw [perform, recordValidation_state]
    rfl
  | recordQuiz lessonId blockId correct concepts =>
    refine ⟨true, false, ?_, nofun, nofun⟩
    rw [perform, recordQuiz_state]
    rfl
  | recordExplain lessonId blockId passed concepts =>
    refine ⟨true, false, ?_, nofun, nofun⟩
    rw [perform, recordExplain_state]
    rfl
  | recordHint lessonId index =>
    refine ⟨max (a.lesson lessonId).hintsUsed (index + 1) != (a.lesson lessonId).hintsUsed, false,
      ?_, ?_, nofun⟩
    · rw [perform, recordHint_state]
      rfl
    · intro h
      rw [bne_eq_false_iff_eq] at h
      exact recordHint_eq_self a h
  | recordInterview questionId correct concepts =>
    refine ⟨true, false, ?_, nofun, nofun⟩
    rw [perform, recordInterview_state]
    rfl
  | markComplete lesson c =>
    obtain ⟨missing, hmissing⟩ :=
      lessonCompletion_ok (hcheck lesson) (c := c) fun _ _ _ lesson _ => hcheck lesson
    rw [perform, markComplete, hmissing, Except.ok_bind]
    cases missing with
    | nil =>
      obtain ⟨ha, record, hr, hgates⟩ := lessonCompletion_nil hs hmissing
      rw [state_lessons, Dict.get?_map, Option.map_eq_some_iff] at hr
      obtain ⟨r, hr, rfl⟩ := hr
      refine ⟨true, true, ?_, nofun, fun _ => ⟨lesson, c, rfl, ha, r, hr, hgates⟩⟩
      rw [Ledger.apply, if_pos rfl, ← complete_state]
      rfl
    | cons entry missing => exact ⟨false, false, rfl, fun _ => rfl, nofun⟩
  | lessonCompletion lesson c =>
    obtain ⟨missing, hmissing⟩ :=
      lessonCompletion_ok (hcheck lesson) (c := c) fun _ _ _ lesson _ => hcheck lesson
    refine ⟨false, false, ?_, fun _ => rfl, nofun⟩
    rw [perform, hmissing]
    rfl
  | completionMap c =>
    obtain ⟨completed, hmap⟩ := completionMap_ok (c := c) fun _ lesson _ => hcheck lesson
    refine ⟨false, false, ?_, fun _ => rfl, nofun⟩
    rw [perform, hmap]
    rfl
  | lessonStatus lesson =>
    obtain ⟨status, hstatus⟩ := lessonStatus_ok (F := F) a lesson
    refine ⟨false, false, ?_, fun _ => rfl, nofun⟩
    rw [perform, hstatus]
    rfl
  | validationPassed lessonId blockId =>
    obtain ⟨passed, hpassed⟩ := validationPassed_ok (F := F) a lessonId blockId
    refine ⟨false, false, ?_, fun _ => rfl, nofun⟩
    rw [perform, hpassed]
    rfl
  | resumeLessonId c =>
    obtain ⟨id, hid⟩ := resumeLessonId_ok (fun _ lesson _ => hcheck lesson) hcall
    refine ⟨false, false, ?_, fun _ => rfl, nofun⟩
    rw [perform, hid]
    rfl
  | conceptMastery concepts =>
    obtain ⟨mastery, hmastery⟩ :
        ∃ mastery, conceptMastery (a.state : State F) concepts = .ok mastery :=
      conceptMastery_ok fun concept _ => state_readable a concept
    refine ⟨false, false, ?_, fun _ => rfl, nofun⟩
    rw [perform, hmastery]
    rfl
  | interviewWeights questions =>
    obtain ⟨weights, hweights⟩ :
        ∃ weights, interviewWeights (a.state : State F) questions = .ok weights :=
      interviewWeights_ok (fun _ _ concept _ => state_readable a concept)
        (fun question _ => state_answers a question.1)
    refine ⟨false, false, ?_, fun _ => rfl, nofun⟩
    rw [perform, hweights]
    rfl

end Perform

section Run

/-- The state in memory, and the state that was saved last. -/
structure Store (F : Type) where
  memory : State F
  saved : Option (State F)

/-- A store on a path where there is no file. -/
def Store.empty : Store F where
  memory := .initial
  saved := none

def Store.after (store : Store F) (effect : Effect F) : Store F where
  memory := effect.state
  saved := if effect.saved then some effect.state else store.saved

/-- A call, and whether it was a `mark_complete` that succeeded. -/
abbrev Entry (F : Type) := Call F × Bool

def runStep (fl : FloatOps F) (point : Store F × List (Entry F)) (event : Clock × Call F) :
    Except Error (Store F × List (Entry F)) := do
  let effect ← perform fl event.1 point.1.memory event.2
  pure (point.1.after effect, point.2 ++ [(event.2, effect.completed)])

/-- A run of calls from an empty store: where it leads, and its history. -/
def run (fl : FloatOps F) (events : List (Clock × Call F)) :
    Except Error (Store F × List (Entry F)) :=
  events.foldlM (runStep fl) (.empty, [])

/-- The ledgers that a history of calls can lead to. -/
inductive Reached (fl : FloatOps F) : List (Entry F) → Ledger → Prop
  | start : Reached fl [] .empty
  | call {history : List (Entry F)} {a : Ledger} (before : Reached fl history a) (clock : Clock)
      (call : Call F) (done : Bool) (answer : call.MayAnswer fl a done) :
      Reached fl (history ++ [(call, done)]) (a.apply clock done call)

/-- Every run returns. It leads to a ledger that its history reaches, and what was saved last is
that ledger, unless nothing was. -/
theorem run_reached (fl : FloatOps F) (events : List (Clock × Call F))
    (h : ∀ event ∈ events, event.2.Allowed) :
    ∃ a saved history, run fl events = .ok (⟨a.state, saved⟩, history) ∧
      history.map Prod.fst = events.map Prod.snd ∧ Reached fl history a ∧
      (saved = some a.state ∨ saved = none ∧ a = .empty) := by
  induction events using List.reverseRecOn with
  | nil => exact ⟨.empty, none, [], rfl, rfl, .start, .inr ⟨rfl, rfl⟩⟩
  | append_singleton events event ih =>
    rw [List.forall_mem_append] at h
    obtain ⟨a, saved, history, hrun, hcalls, hreached, hsaved⟩ := ih h.1
    obtain ⟨clock, call⟩ := event
    obtain ⟨saves, done, hperform, hsame, hanswer⟩ :=
      perform_state fl clock a call (h.2 _ List.mem_cons_self)
    refine ⟨a.apply clock done call, if saves then some (a.apply clock done call).state else saved,
      history ++ [(call, done)], ?_, ?_, hreached.call clock call done hanswer, ?_⟩
    · rw [run] at hrun ⊢
      rw [List.foldlM_append, hrun, Except.ok_bind]
      show runStep fl (⟨a.state, saved⟩, history) (clock, call) >>= pure = _
      rw [runStep, hperform]
      rfl
    · rw [List.map_append, List.map_append, hcalls]
      rfl
    · cases saves with
      | true => exact .inl rfl
      | false =>
        rw [hsame rfl]
        exact hsaved

end Run

end Learning
