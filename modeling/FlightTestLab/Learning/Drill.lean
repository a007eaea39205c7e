import FlightTestLab.Learning.Runs
import FlightTestLab.Learning.Storage

/-!
# The interview drill gate

`progress_check` counts the interview answers in the progress file and, for a lesson,
measures them from the snapshot that `mark_started` takes. The template of a lesson
record holds a snapshot too, so that a lesson with any recorded work passes for
started.

## Main definitions

- `Learning.progressCheck`: the check, on the object in the file
- `Learning.Started`, `Learning.answersSince`: the drill, read off a history
- `Learning.DrillAgrees`: the check passes exactly on the drill

## Main results

- `Learning.drill_agrees_iff`: when the check counts the drill
-/

namespace Learning

open Json (Text ascii)
open Python (Value FloatOps)

variable {F : Type}

section Check

/-- One entry of `interview` as the check counts it; a field that is no `int` counts as 0. -/
def countIn (record : Items F) : Int :=
  ((getD record (ascii "correct") (.int 0)).asInt?).getD 0 +
    ((getD record (ascii "incorrect") (.int 0)).asInt?).getD 0

/-- The loop over the interview records: the answers, and the questions with any. -/
def countAnswers : Items F → Int × Nat
  | [] => (0, 0)
  | (_, .dict record) :: records =>
    let (answered, distinct) := countAnswers records
    let total := countIn record
    if total = 0 then (answered, distinct) else (total + answered, distinct + 1)
  | _ :: records => countAnswers records

/-- The snapshot of a lesson, when its record has one. -/
def baselineOf (state : Items F) (sinceLesson : Text) : Option Int :=
  match Value.get (ascii "lessons") state with
  | .dict lessons =>
    match Value.get sinceLesson lessons with
    | .dict record => (Value.get (ascii "interview_baseline") record).asInt?
    | _ => none
  | _ => none

/-- What the check reports; the exit status is 0 when it passes and 1 otherwise. -/
structure DrillResult where
  passed : Bool
  stdout : Text
  interpretation : Text
  answers : Int
  during : Option Int
  distinct : Nat

/-- `progress_check.run`, on the arguments it reads and the object in the file. -/
def progressCheck (state : Items F) (minimum : Int) (sinceLesson : Option Text)
    (successNote : Option Text) : DrillResult :=
  let records :=
    match Value.get (ascii "interview") state with
    | .dict records => records
    | _ => []
  let (answered, distinct) := countAnswers records
  let baseline :=
    match sinceLesson with
    | none => some 0
    | some lesson => baselineOf state lesson
  match baseline with
  | none =>
    { passed := false
      stdout := ascii "interview answers: " ++ Json.decimal answered ++ ascii " total"
      interpretation :=
        ascii "Check failed: " ++ sinceLesson.getD [] ++ ascii " has not been started, so there " ++
          ascii "is no point to measure the drill from. Open the lesson, then " ++
          ascii "do the drill."
      answers := answered, during := none, distinct }
  | some baseline =>
    let during := answered - baseline
    { passed := minimum ≤ during
      stdout :=
        ascii "interview answers: " ++ Json.decimal answered ++ ascii " total across " ++
          Json.decimal distinct ++ ascii " questions, " ++ Json.decimal during ++
          ascii " since this lesson began"
      interpretation :=
        if minimum ≤ during then
          successNote.getD (Json.decimal during ++ ascii " interview answers recorded across " ++
            Json.decimal distinct ++ ascii " questions — the drill actually happened.")
        else
          ascii "Check failed: " ++ Json.decimal during ++
            ascii " interview answer(s) since you opened this " ++ ascii "lesson, " ++
            Json.decimal minimum ++ ascii " required (answers before it do not count). " ++
            ascii "Open Interview mode and submit answers — this lesson's objective " ++
            ascii "is the drill itself, so it cannot be completed by answering the " ++ ascii "quiz here."
      answers := answered, during := some during, distinct }

/-- `_load_state`: the object in the file, empty when there is no file. -/
def fileState (saved : Option (State F)) : Items F :=
  match saved.map State.toValue with
  | some (.dict items) => items
  | _ => []

end Check

section History

/-- A `mark_started` of the lesson. -/
def Call.starts (lessonId : Text) : Call F → Bool
  | .markStarted id => id = lessonId
  | _ => false

/-- A `record_interview`. -/
def Call.answers : Call F → Bool
  | .recordInterview _ _ _ => true
  | _ => false

/-- A call that records work on the lesson, other than entering it. -/
def Call.records (lessonId : Text) : Call F → Bool
  | .recordStep id _ | .recordValidation id _ _ _ _ _ | .recordQuiz id _ _ _
  | .recordExplain id _ _ _ | .recordHint id _ => id = lessonId
  | _ => false

def Started (history : List (Entry F)) (lessonId : Text) : Prop :=
  ∃ entry ∈ history, entry.1.starts lessonId = true

instance (history : List (Entry F)) (lessonId : Text) : Decidable (Started history lessonId) :=
  inferInstanceAs (Decidable (∃ entry ∈ history, entry.1.starts lessonId = true))

def Recorded (history : List (Entry F)) (lessonId : Text) : Prop :=
  ∃ entry ∈ history, entry.1.records lessonId = true

/-- The interview answers in a history. -/
def answersIn (history : List (Entry F)) : Nat := history.countP fun entry => entry.1.answers

/-- The interview answers after the lesson was first entered. -/
def answersSince (history : List (Entry F)) (lessonId : Text) : Nat :=
  answersIn (history.dropWhile fun entry => !entry.1.starts lessonId)

/-- The check passes when the lesson was entered and enough answers were given since. -/
def DrillAgrees (store : Store F) (history : List (Entry F)) (lessonId : Text) (minimum : Int)
    (successNote : Option Text) : Prop :=
  (progressCheck (fileState store.saved) minimum (some lessonId) successNote).passed = true ↔
    Started history lessonId ∧ minimum ≤ answersSince history lessonId

end History

section File

variable (a : Ledger)

theorem countIn_entry (entry : Answers) {items : Items F}
    (h : entry.entry.toValue = .dict items) :
    countIn items = ((entry.correct + entry.incorrect : Nat) : Int) := by
  obtain rfl := Value.dict.inj h
  rfl

theorem countAnswers_fst (items : List (Text × Answers)) :
    (countAnswers (items.map fun item => (item.1, (item.2.entry.toValue : Value F)))).1 =
      ((items.map fun item => item.2.correct + item.2.incorrect).sum : Nat) := by
  induction items with
  | nil => rfl
  | cons item items ih =>
    rw [List.map_cons, List.map_cons, List.sum_cons]
    show (countAnswers ((item.1, .dict _) :: _)).1 = _
    rw [countAnswers, countIn_entry item.2 rfl]
    dsimp only
    split_ifs with hzero
    · rw [ih, Int.natCast_eq_zero.mp hzero, Nat.zero_add]
    · show _ + (countAnswers _).1 = _
      rw [ih]
      push_cast
      omega

/-- The check counts all answers of the ledger. -/
theorem countAnswers_state {items : Items F} (h : (a.state : State F).toValue = .dict items) :
    ∃ records, Value.get (ascii "interview") items = .dict records ∧
      (countAnswers records).1 = a.interviewTotal := by
  obtain rfl := Value.dict.inj h
  refine ⟨_, rfl, ?_⟩
  rw [state_interview, Dict.map, List.map_map]
  exact countAnswers_fst a.interview.entries

/-- The check finds the snapshot of each lesson that has a record. -/
theorem baselineOf_state {items : Items F} (h : (a.state : State F).toValue = .dict items)
    (lessonId : Text) : baselineOf items lessonId =
      (a.lessons.get? lessonId).map fun r => (r.interviewBaseline : Int) := by
  obtain rfl := Value.dict.inj h
  have hlessons : Value.get (ascii "lessons")
      [(ascii "concepts", mapValue ConceptEntry.toValue (a.state : State F).concepts),
        (ascii "interview", mapValue InterviewEntry.toValue (a.state : State F).interview),
        (ascii "last_lesson_id", (a.state : State F).lastLessonId.elim .none .str),
        (ascii "lessons", mapValue LessonRecord.toValue (a.state : State F).lessons),
        (ascii "version", .int stateVersion)] =
      mapValue LessonRecord.toValue (a.state : State F).lessons := rfl
  rw [baselineOf, hlessons, mapValue_eq]
  dsimp only
  rw [get_entries_map, state_lessons, Dict.get?_map]
  cases a.lessons.get? lessonId with
  | none => rfl
  | some r =>
    simp only [Option.map_some, Option.getD_some, toValue_record]
    rfl

end File

section Step

variable (r : Standing) (total : Nat) (clock : Clock) (done : Bool) (lessonId : Text)

theorem startedAt_validate (time b : Text) (ok mandatory historical : Bool) :
    (r.validate time b ok mandatory historical).startedAt = r.startedAt := by
  rw [Standing.validate]
  dsimp only
  split_ifs <;> rfl

theorem interviewBaseline_validate (time b : Text) (ok mandatory historical : Bool) :
    (r.validate time b ok mandatory historical).interviewBaseline = r.interviewBaseline := by
  rw [Standing.validate]
  dsimp only
  split_ifs <;> rfl

/-- A lesson is started by entering it. -/
theorem startedAt_after (call : Call F) :
    (r.after total clock done lessonId call).startedAt.isSome ↔
      r.startedAt.isSome ∨ call.starts lessonId = true := by
  cases call with
  | markStarted id =>
    rw [Standing.after, Call.starts, decide_eq_true_eq]
    by_cases hid : id = lessonId
    · rw [if_pos hid, Standing.start]
      refine iff_of_true ?_ (.inr hid)
      dsimp only
      split_ifs with h1 h2 h2
      · rfl
      · rfl
      · exact Option.isSome_iff_ne_none.mpr (by simpa using h1)
      · exact Option.isSome_iff_ne_none.mpr (by simpa using h1)
    · rw [if_neg hid, or_iff_left hid]
  | recordValidation id b ok mandatory concepts historical =>
    rw [Standing.after, or_iff_left (by simp [Call.starts])]
    split_ifs
    · rw [startedAt_validate]
    · rfl
  | recordStep id b | recordQuiz id b ok concepts | recordExplain id b ok concepts
  | recordHint id b | markComplete lesson c =>
    rw [Standing.after, or_iff_left (by simp [Call.starts])]
    split_ifs <;> rfl
  | _ => exact (or_iff_left (by simp [Call.starts])).symm

/-- Only entering a lesson takes a snapshot. -/
theorem interviewBaseline_of_not_starts {call : Call F} (h : ¬ call.starts lessonId = true) :
    (r.after total clock done lessonId call).interviewBaseline = r.interviewBaseline := by
  cases call with
  | markStarted id =>
    rw [Call.starts, decide_eq_true_eq] at h
    rw [Standing.after, if_neg h]
  | recordValidation id b ok mandatory concepts historical =>
    rw [Standing.after]
    split_ifs
    · exact interviewBaseline_validate r _ b ok mandatory historical
    · rfl
  | recordStep id b | recordQuiz id b ok concepts | recordExplain id b ok concepts
  | recordHint id b | markComplete lesson c =>
    rw [Standing.after]
    split_ifs <;> rfl
  | _ => rfl

/-- The snapshot is taken when the lesson is first entered. -/
theorem interviewBaseline_after (call : Call F) :
    (r.after total clock done lessonId call).interviewBaseline =
      if call.starts lessonId = true ∧ r.startedAt = none then total else r.interviewBaseline := by
  by_cases hstarts : call.starts lessonId = true
  · cases call with
    | markStarted id =>
      have hid : id = lessonId := of_decide_eq_true hstarts
      rw [Standing.after, if_pos hid, Standing.start]
      dsimp only
      cases r.startedAt <;> simp [hstarts] <;> split_ifs <;> rfl
    | _ => cases hstarts
  · rw [if_neg fun h => hstarts h.1, interviewBaseline_of_not_starts r total clock done lessonId
      hstarts]

variable (a : Ledger)

/-- Only interview answers move their total. -/
theorem interviewTotal_apply (call : Call F) :
    (a.apply clock done call).interviewTotal = a.interviewTotal + if call.answers then 1 else 0 := by
  cases call with
  | recordInterview id correct concepts =>
    rw [Ledger.apply, Ledger.recordInterview, Call.answers, if_pos rfl, Ledger.interviewTotal,
      Ledger.interviewTotal]
    dsimp only
    have hsum := Dict.sum_insert (fun entry : Answers => entry.correct + entry.incorrect)
      a.interview id
    cases hget : a.interview.get? id with
    | none =>
      simp only [hget, Option.map_none, Option.getD_none] at hsum ⊢
      cases correct
      · have := hsum ⟨0, 0 + 1, 0⟩
        simpa using this
      · have := hsum ⟨0 + 1, 0, 0 + 1⟩
        simpa using this
    | some entry =>
      simp only [hget, Option.map_some, Option.getD_some] at hsum ⊢
      cases correct
      · have := hsum ⟨entry.correct, entry.incorrect + 1, 0⟩
        dsimp only at this
        simp only [Bool.false_eq_true, if_false]
        omega
      · have := hsum ⟨entry.correct + 1, entry.incorrect, entry.streak + 1⟩
        dsimp only at this
        simp only [if_true]
        omega
  | markComplete lesson c => cases done <;> rfl
  | _ => rfl

/-- A lesson has a record once it is entered or work on it is recorded. -/
theorem isSome_apply {fl : FloatOps F} {call : Call F} (answer : call.MayAnswer fl a done) :
    ((a.apply clock done call).lessons.get? lessonId).isSome ↔
      (a.lessons.get? lessonId).isSome ∨ call.starts lessonId = true ∨
        call.records lessonId = true := by
  have hinsert (lessons : Dict Text Standing) (id : Text) (r : Standing) :
      ((lessons.insert id r).get? lessonId).isSome ↔
        (lessons.get? lessonId).isSome ∨ id = lessonId := by
    rw [Dict.get?_insert]
    split_ifs with hid
    · exact iff_of_true rfl (.inr hid)
    · rw [or_iff_left hid]
  cases call with
  | markStarted id | recordStep id b | recordValidation id b ok mandatory concepts historical
  | recordQuiz id b ok concepts | recordExplain id b ok concepts | recordHint id b =>
    refine (hinsert a.lessons id _).trans ?_
    simp [Call.starts, Call.records]
  | markComplete lesson c =>
    rw [Ledger.apply, or_iff_left (by simp [Call.starts, Call.records])]
    cases done with
    | false => rfl
    | true =>
      -- a lesson that can be completed has a record
      obtain ⟨_, _, heq, -, r, hr, -⟩ := answer rfl
      cases heq
      rw [if_pos rfl, Ledger.complete, hinsert]
      refine or_iff_left_of_imp ?_
      rintro rfl
      rw [hr]
      rfl
  | _ => exact (or_iff_left (by simp [Call.starts, Call.records])).symm

end Step

section Runs

variable {fl : FloatOps F} (history : List (Entry F)) (entry : Entry F) (lessonId : Text)

theorem started_snoc : Started (history ++ [entry]) lessonId ↔
    Started history lessonId ∨ entry.1.starts lessonId = true := by
  simp [Started, or_and_right, exists_or]

theorem recorded_snoc : Recorded (history ++ [entry]) lessonId ↔
    Recorded history lessonId ∨ entry.1.records lessonId = true := by
  simp [Recorded, or_and_right, exists_or]

theorem answersIn_snoc : answersIn (history ++ [entry]) =
    answersIn history + if entry.1.answers then 1 else 0 := by
  rw [answersIn, List.countP_append, List.countP_singleton]
  rfl

theorem answers_of_starts {call : Call F} (h : call.starts lessonId = true) :
    call.answers = false := by
  cases call with
  | markStarted id => rfl
  | _ => cases h

variable {history}

theorem dropWhile_eq_nil_iff : history.dropWhile (fun entry => !entry.1.starts lessonId) = [] ↔
    ¬ Started history lessonId := by
  rw [List.dropWhile_eq_nil_iff, Started]
  simp only [Bool.not_eq_true', not_exists, not_and, Bool.not_eq_true]

theorem answersSince_of_not_started (h : ¬ Started history lessonId) :
    answersSince history lessonId = 0 := by
  rw [answersSince, (dropWhile_eq_nil_iff lessonId).mpr h]
  rfl

/-- An answer counts once the lesson is started. -/
theorem answersSince_snoc : answersSince (history ++ [entry]) lessonId =
    answersSince history lessonId +
      if Started history lessonId ∧ entry.1.answers = true then 1 else 0 := by
  by_cases hs : Started history lessonId
  · have hne := mt (dropWhile_eq_nil_iff lessonId).mp (not_not.mpr hs)
    rw [answersSince, List.dropWhile_append, if_neg (by simpa using hne), answersIn_snoc]
    simp only [hs, true_and]
    rfl
  · rw [answersSince_of_not_started lessonId hs, if_neg fun h => hs h.1, answersSince,
      List.dropWhile_append, (dropWhile_eq_nil_iff lessonId).mpr hs]
    by_cases hstarts : entry.1.starts lessonId = true
    · simp [hstarts, answersIn, answers_of_starts lessonId hstarts]
    · simp [hstarts, answersIn]

variable {a : Ledger}

/-- What a history says of the snapshot of a lesson. -/
theorem drill_of_reached (h : Reached fl history a) :
    a.interviewTotal = answersIn history ∧
      ((a.lesson lessonId).startedAt.isSome ↔ Started history lessonId) ∧
      (Started history lessonId →
        (a.lesson lessonId).interviewBaseline + answersSince history lessonId =
          answersIn history) ∧
      (¬ Started history lessonId → (a.lesson lessonId).interviewBaseline = 0) ∧
      ((a.lessons.get? lessonId).isSome ↔
        Started history lessonId ∨ Recorded history lessonId) := by
  induction h with
  | start =>
    have hnot : ¬ Started ([] : List (Entry F)) lessonId := by simp [Started]
    have hnone : ¬ Recorded ([] : List (Entry F)) lessonId := by simp [Recorded]
    exact ⟨rfl, iff_of_false nofun hnot, fun h => absurd h hnot, fun _ => rfl,
      iff_of_false nofun (by rintro (h | h); exacts [hnot h, hnone h])⟩
  | @call history a before clock call done answer ih =>
    obtain ⟨htotal, hstarted, hsince, hzero, hrecord⟩ := ih
    have hbase := interviewBaseline_after (a.lesson lessonId) (answersIn history) clock done
      lessonId call
    rw [apply_lesson, interviewTotal_apply, startedAt_after, isSome_apply clock done lessonId a answer,
      answersIn_snoc, answersSince_snoc, started_snoc, recorded_snoc, htotal, hstarted, hrecord]
    refine ⟨rfl, Iff.rfl, ?_, ?_, by tauto⟩
    · intro hor
      by_cases hs : Started history lessonId
      · -- the snapshot stays
        have hsome : (a.lesson lessonId).startedAt ≠ none :=
          Option.isSome_iff_ne_none.mp (hstarted.mpr hs)
        rw [hbase, if_neg fun h => hsome h.2]
        have := hsince hs
        simp only [hs, true_and]
        omega
      · -- the snapshot is taken now
        have hstarts := hor.resolve_left hs
        have hnone : (a.lesson lessonId).startedAt = none := by
          rw [← Option.not_isSome_iff_eq_none]
          exact fun h => hs (hstarted.mp h)
        rw [hbase, if_pos ⟨hstarts, hnone⟩, if_neg fun h => hs h.1,
          answersSince_of_not_started lessonId hs, answers_of_starts lessonId hstarts]
        rfl
    · intro hnot
      rw [not_or] at hnot
      rw [hbase, if_neg fun h => hnot.2 h.1]
      exact hzero hnot.1

end Runs

section Main

theorem passed_eq (state : Items F) (minimum : Int) (lessonId : Text)
    (successNote : Option Text) {records : Items F}
    (hrecords : Value.get (ascii "interview") state = .dict records) :
    (progressCheck state minimum (some lessonId) successNote).passed =
      (baselineOf state lessonId).any fun baseline =>
        minimum ≤ (countAnswers records).1 - baseline := by
  rw [progressCheck, hrecords]
  dsimp only
  cases baselineOf state lessonId <;> rfl

/-- The check on the file of a ledger. -/
theorem passed_state (a : Ledger) (lessonId : Text) (minimum : Int) (successNote : Option Text) :
    (progressCheck (fileState (some (a.state : State F))) minimum (some lessonId)
      successNote).passed = true ↔
        ∃ r, a.lessons.get? lessonId = some r ∧
          minimum ≤ (a.interviewTotal : Int) - r.interviewBaseline := by
  obtain ⟨items, hitems⟩ : ∃ items, (a.state : State F).toValue = .dict items := ⟨_, rfl⟩
  have hfile : fileState (some (a.state : State F)) = items := by
    rw [fileState, Option.map_some, hitems]
  obtain ⟨records, hrecords, htotal⟩ := countAnswers_state a hitems
  rw [hfile, passed_eq items minimum lessonId successNote hrecords, htotal,
    baselineOf_state a hitems]
  cases a.lessons.get? lessonId with
  | none => simp
  | some r => simp

/-- The check counts the drill, unless the lesson was never entered, work on it is recorded, and
there are enough interview answers in all. -/
theorem drill_agrees_iff (fl : FloatOps F) (events : List (Clock × Call F))
    (hcalls : ∀ event ∈ events, event.2.Allowed) (lessonId : Text) (minimum : Int)
    (successNote : Option Text) :
    ∃ store history, run fl events = .ok (store, history) ∧
      history.map Prod.fst = events.map Prod.snd ∧
      (DrillAgrees store history lessonId minimum successNote ↔
        ¬ (¬ Started history lessonId ∧ Recorded history lessonId ∧
          minimum ≤ answersIn history)) := by
  obtain ⟨a, saved, history, hrun, hhistory, hreached, hsaved⟩ := run_reached fl events hcalls
  refine ⟨_, history, hrun, hhistory, ?_⟩
  obtain ⟨htotal, hstarted, hsince, hzero, hrecord⟩ := drill_of_reached lessonId hreached
  rw [DrillAgrees]
  obtain rfl | ⟨rfl, rfl⟩ := hsaved
  · rw [passed_state, htotal]
    by_cases hs : Started history lessonId
    · -- the snapshot measures the drill
      obtain ⟨r, hr⟩ := Option.isSome_iff_exists.mp (hrecord.mpr (.inl hs))
      have hbase := hsince hs
      rw [Ledger.lesson, hr, Option.getD_some] at hbase
      refine iff_of_true ?_ fun h => h.1 hs
      rw [hr]
      simp only [Option.some.injEq, exists_eq_left', hs, true_and]
      omega
    · simp only [hs, false_and, not_false_eq_true, true_and, iff_false, not_exists, not_and]
      constructor
      · -- the snapshot of the template is 0
        intro h hrecorded hle
        obtain ⟨r, hr⟩ := Option.isSome_iff_exists.mp (hrecord.mpr (.inr hrecorded))
        have hbase := hzero hs
        rw [Ledger.lesson, hr, Option.getD_some] at hbase
        apply h r hr
        omega
      · intro h r hr hle
        have hrecorded := (hrecord.mp (by rw [hr]; rfl)).resolve_left hs
        apply h hrecorded
        omega
  · -- nothing was saved
    have hnone := hrecord.mpr
    have hnot : ¬ (Started history lessonId ∨ Recorded history lessonId) := fun h =>
      absurd (hnone h) (by simp [Ledger.empty])
    rw [not_or] at hnot
    refine iff_of_true ?_ fun h => hnot.2 h.2.1
    refine iff_of_false Bool.false_ne_true fun h => hnot.1 h.1

/-- A step recorded in a lesson that is never entered, and one interview answer. -/
def drillEvents : List (Clock × Call Text) :=
  [(fun _ => ascii "t", .recordStep (ascii "l") (ascii "b")),
    (fun _ => ascii "t", .recordInterview (ascii "q") true [])]

theorem drillEvents_allowed : ∀ event ∈ drillEvents, event.2.Allowed := by
  intro event hevent
  rw [drillEvents, List.mem_cons, List.mem_singleton] at hevent
  rcases hevent with rfl | rfl <;> trivial

theorem drill_agrees_sample : ∃ store history,
    run FloatOps.tokens drillEvents = .ok (store, history) ∧
      history.map Prod.fst = drillEvents.map Prod.snd ∧
      (DrillAgrees store history (ascii "l") 2 none ↔
        ¬ (¬ Started history (ascii "l") ∧ Recorded history (ascii "l") ∧
          2 ≤ (answersIn history : Int))) :=
  drill_agrees_iff FloatOps.tokens drillEvents drillEvents_allowed (ascii "l") 2 none

/-- The check passes for a lesson that was never entered. -/
theorem recorded_step_passes_drill : ¬ ∀ events : List (Clock × Call Text),
    (∀ event ∈ events, event.2.Allowed) → ∀ (lessonId : Text) (minimum : Int), 1 ≤ minimum →
      ∃ store history, run FloatOps.tokens events = .ok (store, history) ∧
        DrillAgrees store history lessonId minimum none := by
  intro h
  obtain ⟨store, history, hrun, hagrees⟩ :=
    h drillEvents drillEvents_allowed (ascii "l") 1 (by decide)
  have hpasses : (run FloatOps.tokens drillEvents).toOption.any (fun result =>
      (progressCheck (fileState result.1.saved) 1 (some (ascii "l")) none).passed &&
        !decide (Started result.2 (ascii "l"))) = true := by
    decide +kernel
  rw [hrun] at hpasses
  have hboth := Bool.and_eq_true_iff.mp hpasses
  have hstarted := (hagrees.mp hboth.1).1
  simp [hstarted] at hboth

end Main

end Learning
