import FlightTestLab.Learning.Drill
import FlightTestLab.Learning.Sessions
import FlightTestLab.Learning.Weights

/-!
# The record counts what was asked

The counters of the store, after any session of requests, as numbers of requests: attempts and
answers of a lesson, the hints that are revealed, the answers to interview questions, and for
each concept the evidence that was given of it.

## Main definitions

- `Learning.Standing.Counters`: the counters of a lesson are those of the calls
- `Learning.Call.evidence`: what a call is evidence of

## Main results

- `Learning.Handler.lesson_counts`: the counters of a lesson after a session
- `Learning.Handler.evidence_conserved`: those of concepts and of interview questions
-/

namespace Learning

open Json (Text ascii)
open Python (Value Error FloatOps)

variable {F : Type}

section Counters

variable (lessonId : Text)

def Call.answersQuiz : Call F → Bool
  | .recordQuiz id _ _ _ => id = lessonId
  | _ => false

/-- The hints that are revealed by a call for a hint: all up to that one. -/
def Call.reveals : Call F → Nat
  | .recordHint id index => if id = lessonId then index + 1 else 0
  | _ => 0

/-- What a lesson's standing counts, when these calls have been made. -/
structure Standing.Counters (r : Standing) (calls : List (Call F)) : Prop where
  attempts : r.attempts = calls.countP (·.starts lessonId)
  quizAttempts : r.quizAttempts = calls.countP (·.answersQuiz lessonId)
  /-- A hint is revealed when it was asked for, or a later one. -/
  hints : ∀ n, n < r.hintsUsed ↔ ∃ index, n ≤ index ∧ .recordHint lessonId index ∈ calls
  steps : ∀ id, id ∈ r.stepsDone ↔ .recordStep lessonId id ∈ calls
  stepsOnce : r.stepsDone.Nodup
  quizzesOnce : r.quizCorrect.Nodup
  explainsOnce : r.explainDone.Nodup

/-- What one call adds to the counters of a lesson. -/
structure Standing.Adds (r : Standing) (call : Call F) (after : Standing) : Prop where
  attempts : after.attempts = r.attempts + if call.starts lessonId then 1 else 0
  quizAttempts : after.quizAttempts = r.quizAttempts + if call.answersQuiz lessonId then 1 else 0
  hints : after.hintsUsed = max r.hintsUsed (call.reveals lessonId)
  steps : ∀ id, id ∈ after.stepsDone ↔ id ∈ r.stepsDone ∨ call = .recordStep lessonId id
  stepsOnce : r.stepsDone.Nodup → after.stepsDone.Nodup
  quizzesOnce : r.quizCorrect.Nodup → after.quizCorrect.Nodup
  explainsOnce : r.explainDone.Nodup → after.explainDone.Nodup

theorem nodup_addId {id : Text} {ids : List Text} (h : ids.Nodup) : (addId id ids).Nodup := by
  rw [addId]
  split_ifs with hmem
  · exact h
  · rw [List.contains_iff_mem] at hmem
    rw [← List.concat_eq_append]
    exact h.concat hmem

variable {lessonId} {r : Standing} {call : Call F}

/-- A call that counts for nothing. -/
theorem Standing.Adds.self (hstarts : call.starts lessonId = false)
    (hquiz : call.answersQuiz lessonId = false) (hreveals : call.reveals lessonId = 0)
    (hstep : ∀ id, call ≠ .recordStep lessonId id) : r.Adds lessonId call r := by
  constructor <;> simp [hstarts, hquiz, hreveals, hstep]

variable (r)

/-- An outcome of a validator touches none of the counters. -/
theorem validate_eq (time blockId : Text) (ok mandatory historical : Bool) :
    ∃ validations status completedAt, r.validate time blockId ok mandatory historical =
      { r with validations := validations, status := status, completedAt := completedAt } := by
  rw [Standing.validate]
  dsimp only
  split_ifs
  · exact ⟨r.validations, r.status, r.completedAt, rfl⟩
  · exact ⟨_, _, _, rfl⟩
  · exact ⟨_, r.status, r.completedAt, rfl⟩

/-- Entering a lesson is an attempt. -/
theorem start_eq (time : Text) (total : Nat) :
    ∃ status startedAt baseline, r.start time total =
      { r with
        status := status
        startedAt := startedAt
        interviewBaseline := baseline
        attempts := r.attempts + 1 } := by
  rw [Standing.start]
  split_ifs
  · exact ⟨_, _, _, rfl⟩
  · exact ⟨r.status, _, _, rfl⟩
  · exact ⟨_, r.startedAt, r.interviewBaseline, rfl⟩
  · exact ⟨r.status, r.startedAt, r.interviewBaseline, rfl⟩

/-- A call counts for its own lesson, and for no other. -/
theorem adds_after (total : Nat) (clock : Clock) (done : Bool) (call : Call F) :
    r.Adds lessonId call (r.after total clock done lessonId call) := by
  cases call with
  | markStarted id =>
    by_cases hid : id = lessonId
    · obtain ⟨_, _, _, heq⟩ := start_eq r (clock 0) total
      rw [Standing.after, if_pos hid, heq]
      constructor <;> simp [Call.starts, Call.answersQuiz, Call.reveals, hid]
    · rw [Standing.after, if_neg hid]
      exact .self (by simp [Call.starts, hid]) rfl rfl (by simp)
  | recordStep id blockId =>
    rw [Standing.after]
    split_ifs with hid
    · constructor
      case steps =>
        intro id'
        rw [Standing.step, mem_addId, or_comm]
        simp [hid, eq_comm]
      case stepsOnce => exact nodup_addId
      all_goals simp [Call.starts, Call.answersQuiz, Call.reveals, Standing.step]
    · exact .self rfl rfl rfl fun id' heq => hid (by cases heq; rfl)
  | recordQuiz id blockId ok concepts =>
    rw [Standing.after]
    split_ifs with hid
    · constructor <;> simp [Call.starts, Call.answersQuiz, Call.reveals, Standing.quiz, hid]
      split_ifs
      · exact nodup_addId
      · exact fun h => h
    · exact .self rfl (by simp [Call.answersQuiz, hid]) rfl (by simp)
  | recordExplain id blockId ok concepts =>
    rw [Standing.after]
    split_ifs with hid
    · constructor <;> simp [Call.starts, Call.answersQuiz, Call.reveals, Standing.explain]
      split_ifs
      · exact nodup_addId
      · exact fun h => h
    · exact .self rfl rfl rfl (by simp)
  | recordHint id index =>
    rw [Standing.after]
    split_ifs with hid
    · constructor <;> simp [Call.starts, Call.answersQuiz, Call.reveals, Standing.hint, hid]
    · exact .self rfl rfl (by simp [Call.reveals, hid]) (by simp)
  | recordValidation id blockId ok mandatory concepts historical =>
    obtain ⟨_, _, _, heq⟩ := validate_eq r (clock 0) blockId ok mandatory historical
    rw [Standing.after, heq]
    split_ifs
    · constructor <;> simp [Call.starts, Call.answersQuiz, Call.reveals]
    · exact .self rfl rfl rfl (by simp)
  | markComplete lesson c =>
    rw [Standing.after]
    split_ifs
    · constructor <;> simp [Call.starts, Call.answersQuiz, Call.reveals, Standing.certify]
    · exact .self rfl rfl rfl (by simp)
  | _ => exact .self rfl rfl rfl (by simp)

variable {r}

theorem Standing.Counters.fresh : Standing.fresh.Counters lessonId ([] : List (Call F)) := by
  constructor <;> simp [Standing.fresh]

theorem Standing.Counters.snoc {calls : List (Call F)} {after : Standing}
    (h : r.Counters lessonId calls) (hadds : r.Adds lessonId call after) :
    after.Counters lessonId (calls ++ [call]) where
  attempts := by rw [hadds.attempts, h.attempts, List.countP_append, List.countP_singleton]
  quizAttempts := by
    rw [hadds.quizAttempts, h.quizAttempts, List.countP_append, List.countP_singleton]
  hints n := by
    have hcall : n < call.reveals lessonId ↔
        ∃ index, n ≤ index ∧ call = .recordHint lessonId index := by
      cases call with
      | recordHint id index =>
        rw [Call.reveals]
        split_ifs with hid
        · simp [hid]
        · simp [hid]
      | _ => simp [Call.reveals]
    rw [hadds.hints, lt_max_iff, h.hints, hcall, ← exists_or]
    simp [and_or_left, eq_comm]
  steps id := by
    rw [hadds.steps, h.steps]
    simp [eq_comm]
  stepsOnce := hadds.stepsOnce h.stepsOnce
  quizzesOnce := hadds.quizzesOnce h.quizzesOnce
  explainsOnce := hadds.explainsOnce h.explainsOnce

/-- The counters of a lesson are those of its history. -/
theorem counts_of_reached {fl : FloatOps F} {history : List (Entry F)} {a : Ledger}
    (h : Reached fl history a) (lessonId : Text) :
    (a.lesson lessonId).Counters lessonId (history.map Prod.fst) := by
  induction h with
  | start => exact .fresh
  | @call history a before clock call done answer ih =>
    rw [apply_lesson, List.map_append]
    exact ih.snoc (adds_after _ _ clock done call)

end Counters

section Tallies

open Handler (resultsOf outcomes_eq)

/-- What a call is evidence of, after others: whether it is good, and of which concepts. A check of
the red stage that has passed already is none. -/
def Call.evidence (before : List (Call F)) : Call F → Bool × List Text
  | .recordQuiz _ _ ok concepts | .recordExplain _ _ ok concepts | .recordInterview _ ok concepts =>
    (ok, concepts)
  | .recordValidation lessonId blockId ok mandatory concepts historical =>
    (ok, if mandatory && !(historical && (resultsOf before lessonId blockId).contains true)
      then concepts else [])
  | _ => (true, [])

/-- The good and the bad evidence of a concept in calls that are made after others. -/
def evidenceOf (concept : Text) : List (Call F) → List (Call F) → Nat × Nat
  | _, [] => (0, 0)
  | before, call :: calls =>
    let (ok, concepts) := call.evidence before
    raise ok (concepts.count concept) (evidenceOf concept (before ++ [call]) calls)

theorem raise_comm (ok ok' : Bool) (m n : Nat) (tally : Nat × Nat) :
    raise ok m (raise ok' n tally) = raise ok' n (raise ok m tally) := by
  cases ok <;> cases ok' <;> simp [raise, Nat.add_right_comm]

@[simp] theorem raise_zero (ok : Bool) (tally : Nat × Nat) : raise ok 0 tally = tally := by
  cases ok <;> rfl

theorem evidenceOf_snoc (concept : Text) (before calls : List (Call F)) (call : Call F) :
    evidenceOf concept before (calls ++ [call]) =
      raise (call.evidence (before ++ calls)).1
        ((call.evidence (before ++ calls)).2.count concept) (evidenceOf concept before calls) := by
  induction calls generalizing before with
  | nil => simp [evidenceOf]
  | cons other calls ih =>
    rw [List.cons_append, evidenceOf, evidenceOf, ih, raise_comm]
    simp

theorem tallyOf_bump (clock : Clock) (ok : Bool) (stored : Dict Text Tally)
    (concepts : List Text) (concept : Text) :
    tallyOf ((Ledger.bump clock ok stored concepts).map (Tally.entry (F := F))) concept =
      raise ok (concepts.count concept) (tallyOf (stored.map (Tally.entry (F := F))) concept) := by
  have htallied : Tallied (stored.map (Tally.entry (F := F))) :=
    ({ Ledger.empty with concepts := stored } : Ledger).state_counted.concepts
  obtain ⟨bumped, hbump, -, hcount⟩ := bumpConcepts_counted clock ok htallied concepts
  rw [bumpConcepts_state] at hbump
  obtain rfl := Except.ok.inj hbump
  exact hcount concept

variable {fl : FloatOps F} {c : Curriculum F} {history : List (Entry F)} {a : Ledger}

/-- Of a historical mandatory check, a pass is on record when one was made. -/
theorem passed_historical (hc : c.Sound) (h : Reached fl history a)
    (hown : ∀ entry ∈ history, entry.1.Own fl c) {lessonId blockId : Text} {ok : Bool}
    {concepts : List Text}
    (hcall : (Call.recordValidation lessonId blockId ok true concepts true).Own fl c) :
    (a.lesson lessonId).passed blockId =
      (resultsOf (history.map Prod.fst) lessonId blockId).contains true := by
  obtain ⟨lesson, block, hl, hmem, htype, rfl, hmandatory, hhistorical⟩ := hcall
  have hblock : block ∈ lesson.mandatoryValidators fl :=
    List.mem_filter.mpr ⟨hmem, by rw [htype, ← hmandatory]; rfl⟩
  rw [Bool.eq_iff_iff, passed_iff hc hl h hown hblock, ← hhistorical, if_pos rfl, outcomes_eq,
    List.contains_iff_mem]

/-- A call moves the tallies of the concepts by its evidence. -/
theorem tallyOf_apply (hc : c.Sound) (h : Reached fl history a)
    (hown : ∀ entry ∈ history, entry.1.Own fl c) {call : Call F} (hcall : call.Own fl c)
    (clock : Clock) (done : Bool) (concept : Text) :
    tallyOf ((a.apply clock done call).state : State F).concepts concept =
      raise (call.evidence (history.map Prod.fst)).1
        ((call.evidence (history.map Prod.fst)).2.count concept)
        (tallyOf (a.state : State F).concepts concept) := by
  cases call with
  | recordQuiz | recordExplain | recordInterview => exact tallyOf_bump _ _ _ _ _
  | recordValidation lessonId blockId ok mandatory concepts historical =>
    -- without concepts the code skips the counting
    have hbump (clock : Clock) : (if !concepts.isEmpty && true then
        Ledger.bump clock ok a.concepts concepts else a.concepts) =
          Ledger.bump clock ok a.concepts concepts := by
      cases concepts <;> rfl
    show tallyOf (Dict.map (Tally.entry (F := F)) (if historical && (a.lesson lessonId).passed blockId
      then a.concepts
      else if !concepts.isEmpty && mandatory then
        Ledger.bump (fun i => clock (i + 1)) ok a.concepts concepts
      else a.concepts)) concept = _
    rw [Call.evidence]
    cases mandatory with
    | false => simp [state_concepts]
    | true =>
      rw [hbump]
      cases historical with
      | false => exact tallyOf_bump _ _ _ _ _
      | true =>
        rw [← passed_historical hc h hown hcall]
        cases (a.lesson lessonId).passed blockId with
        | true => exact (raise_zero _ _).symm
        | false => exact tallyOf_bump _ _ _ _ _
  | markComplete lesson c =>
    cases done <;> exact (raise_zero _ _).symm
  | _ => exact (raise_zero _ _).symm

/-- The tallies of a concept are the evidence in the history. -/
theorem tallyOf_reached (hc : c.Sound) (h : Reached fl history a)
    (hown : ∀ entry ∈ history, entry.1.Own fl c) (concept : Text) :
    tallyOf (a.state : State F).concepts concept =
      evidenceOf concept [] (history.map Prod.fst) := by
  induction h with
  | start => rfl
  | @call history a before clock call done answer ih =>
    rw [List.forall_mem_append] at hown
    rw [tallyOf_apply hc before hown.1 (hown.2 _ List.mem_cons_self), ih hown.1, List.map_append]
    exact (evidenceOf_snoc concept [] _ call).symm

end Tallies

section Interview

/-- The outcome of an answer to a question. -/
def Call.answerTo (questionId : Text) : Call F → Option Bool
  | .recordInterview id ok _ => if id = questionId then some ok else none
  | _ => none

/-- The answers to a question, first to last. -/
def answersTo (calls : List (Call F)) (questionId : Text) : List Bool :=
  calls.filterMap (·.answerTo questionId)

/-- What answers to a question leave in its record: how many were correct, how many were not, and
how many correct ones have come since the last that was not. -/
def scored (answers : List Bool) : Nat × Nat × Nat :=
  (answers.count true, answers.count false, (answers.reverse.takeWhile id).length)

theorem scored_snoc (answers : List Bool) (ok : Bool) :
    scored (answers ++ [ok]) = answer ok (scored answers) := by
  cases ok <;> simp [scored, answer]

theorem historyOf_apply (a : Ledger) (clock : Clock) (done : Bool) (call : Call F)
    (questionId : Text) :
    historyOf ((a.apply clock done call).state : State F) questionId =
      ((call.answerTo questionId).elim (historyOf (a.state : State F) questionId)
        fun ok => answer ok (historyOf (a.state : State F) questionId)) := by
  cases call with
  | recordInterview id ok concepts =>
    obtain ⟨after, hafter, -, -, hother, hself⟩ :=
      recordInterview_counted clock (a.state_counted (F := F)) id ok concepts
    rw [recordInterview_state] at hafter
    obtain rfl := Except.ok.inj hafter
    rw [Call.answerTo]
    split_ifs with hid
    · rw [← hid]
      exact hself
    · exact hother questionId (Ne.symm hid)
  | markComplete lesson c => cases done <;> rfl
  | _ => rfl

theorem historyOf_reached {fl : FloatOps F} {history : List (Entry F)} {a : Ledger}
    (h : Reached fl history a) (questionId : Text) :
    historyOf (a.state : State F) questionId =
      scored (answersTo (history.map Prod.fst) questionId) := by
  induction h with
  | start => rfl
  | @call history a before clock call done answer ih =>
    rw [historyOf_apply, ih, List.map_append, answersTo, answersTo, List.filterMap_append]
    show _ = scored (_ ++ List.filterMap _ [call])
    cases hcall : call.answerTo questionId with
    | none => simp [hcall]
    | some ok =>
      simp only [hcall, List.filterMap_cons, List.filterMap_nil, Option.elim_some]
      exact (scored_snoc _ ok).symm

end Interview

namespace Handler

variable {S : Sources F} {c : Curriculum F}

/-- After any session the counters of each lesson are those of the requests. -/
theorem lesson_counts (P : Platform F) (hload : loadCurriculum S = .ok c)
    (exchanges : List (Exchange F)) (lessonId : Text) :
    ∃ r : Standing, lessonRecord (session P c .initial exchanges) lessonId = r.record ∧
      r.Counters lessonId (calls P c exchanges) := by
  obtain ⟨history, a, hsession, hreached, hcalls, -, -⟩ := session_reached (P := P) hload exchanges
  rw [hsession, ← hcalls]
  exact ⟨a.lesson lessonId, lessonRecord_state a lessonId, counts_of_reached hreached lessonId⟩

theorem lesson_counts_sample : ∃ r : Standing,
    lessonRecord (session samplePlatform course .initial courseSession) (ascii "z") = r.record ∧
      r.Counters (ascii "z") (calls samplePlatform course courseSession) :=
  lesson_counts samplePlatform course_loaded courseSession (ascii "z")

/-- After any session the tallies of each concept are the evidence that the requests gave of it,
the records of interview questions are those of the answers, and so is the mastery that the
dashboard shows. -/
theorem evidence_conserved (P : Platform F) (hload : loadCurriculum S = .ok c)
    (exchanges : List (Exchange F)) :
    (∀ concept, tallyOf (session P c .initial exchanges).concepts concept =
      evidenceOf concept [] (calls P c exchanges)) ∧
    (∀ questionId, historyOf (session P c .initial exchanges) questionId =
      scored (answersTo (calls P c exchanges) questionId)) ∧
    conceptMastery (session P c .initial exchanges) c.concepts =
      .ok (c.concepts.map fun concept =>
        (concept, masteryFor (evidenceOf concept [] (calls P c exchanges)))) := by
  obtain ⟨history, a, hsession, hreached, hcalls, hown, -⟩ :=
    session_reached (P := P) hload exchanges
  have htally (concept : Text) := tallyOf_reached (loadCurriculum_sound hload) hreached hown concept
  rw [hsession, ← hcalls]
  refine ⟨htally, historyOf_reached hreached, ?_⟩
  rw [conceptMastery_counted a.state_counted]
  simp only [htally]

theorem evidence_conserved_sample :
    let store := session samplePlatform course .initial courseSession
    let asked := calls samplePlatform course courseSession
    (∀ concept, tallyOf store.concepts concept = evidenceOf concept [] asked) ∧
    (∀ questionId, historyOf store questionId = scored (answersTo asked questionId)) ∧
    conceptMastery store course.concepts =
      .ok (course.concepts.map fun concept =>
        (concept, masteryFor (evidenceOf concept [] asked))) :=
  evidence_conserved samplePlatform course_loaded courseSession

end Handler

end Learning
