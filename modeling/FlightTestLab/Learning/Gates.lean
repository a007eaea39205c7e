import FlightTestLab.Learning.Runs
import FlightTestLab.Library.Runs

/-!
# The gates follow the recorded history

What the store holds of a lesson, after any run of calls of one accepted curriculum,
read off the run's history: the outcomes of each validator, the answers to quizzes
and explains, and the stored completion.

## Main definitions

- `Learning.outcomes`, `Learning.Answered`, `Learning.Explained`: what a history records
- `Learning.Certified`: a success of `mark_complete` that nothing has revoked
- `Learning.Call.Own`: the calls that are made for one curriculum

## Main results

- `Learning.passed_iff`: when a validator counts as passed
- `Learning.status_of_reached`: when a lesson is stored as complete, and what follows
- `Learning.gates_follow_history`: all of it, for every run
-/

namespace Learning

open Json (Text ascii)
open Python (FloatOps)

variable {F : Type}

section History

/-- The outcome that a call records of a validator, and whether the check is historical. -/
def Call.outcome (lessonId blockId : Text) : Call F → Option (Bool × Bool)
  | .recordValidation l b passed _ _ historical =>
    if l = lessonId ∧ b = blockId then some (passed, historical) else none
  | _ => none

/-- The outcomes recorded of a validator, first to last. -/
def outcomes (history : List (Entry F)) (lessonId blockId : Text) : List Bool :=
  history.filterMap fun entry => (entry.1.outcome lessonId blockId).map Prod.fst

/-- Some answer to a quiz was correct. -/
def Answered (history : List (Entry F)) (lessonId blockId : Text) : Prop :=
  ∃ entry ∈ history, ∃ concepts, entry.1 = .recordQuiz lessonId blockId true concepts

/-- Some answer to an explain passed. -/
def Explained (history : List (Entry F)) (lessonId blockId : Text) : Prop :=
  ∃ entry ∈ history, ∃ concepts, entry.1 = .recordExplain lessonId blockId true concepts

/-- A `mark_complete` of a lesson that succeeded. -/
def Succeeds (lessonId : Text) (entry : Entry F) : Prop :=
  ∃ lesson c, lesson.id = lessonId ∧ entry = (.markComplete lesson c, true)

/-- A failing outcome of a mandatory validator that is not historical. -/
def Revokes (lessonId : Text) (entry : Entry F) : Prop :=
  ∃ blockId concepts, entry.1 = .recordValidation lessonId blockId false true concepts false

/-- Some `mark_complete` of a lesson succeeded, and after it (and so after the last one) no mandatory
validator failed that is not historical. -/
def Certified (history : List (Entry F)) (lessonId : Text) : Prop :=
  Runs.Since (Succeeds lessonId) (Revokes lessonId) history

theorem Succeeds.not_revokes {lessonId : Text} {entry : Entry F} (h : Succeeds lessonId entry) :
    ¬ Revokes lessonId entry := by
  obtain ⟨lesson, c, -, rfl⟩ := h
  rintro ⟨blockId, concepts, heq⟩
  cases heq

end History

section Standing

variable (r : Standing) (total : Nat) (clock : Clock) (done : Bool) (lessonId : Text)

theorem passed_validate (time : Text) (blockId : Text) (ok mandatory historical : Bool)
    (blockId' : Text) :
    (r.validate time blockId ok mandatory historical).passed blockId' =
      if blockId = blockId' then (historical && r.passed blockId || ok) else r.passed blockId' := by
  rw [Standing.validate]
  by_cases hkeep : (historical && r.passed blockId) = true
  · rw [if_pos hkeep, hkeep, Bool.true_or]
    rw [Bool.and_eq_true] at hkeep
    split_ifs with hb
    · rw [← hb, hkeep.2]
    · rfl
  · rw [if_neg hkeep, Bool.eq_false_iff.mpr hkeep, Bool.false_or]
    have hread (status : Text) (completedAt : Option Text) : Standing.passed
        { r with
          validations := r.validations.insert blockId (ok, time)
          status := status
          completedAt := completedAt } blockId' =
            if blockId = blockId' then ok else r.passed blockId' := by
      rw [Standing.passed, Dict.get?_insert]
      split_ifs <;> rfl
    dsimp only
    split_ifs at hread ⊢ with hrevoke hb <;> exact hread _ _

theorem validations_start (time : Text) : (r.start time total).validations = r.validations := by
  rw [Standing.start]
  dsimp only
  split_ifs <;> rfl

theorem quizCorrect_start (time : Text) : (r.start time total).quizCorrect = r.quizCorrect := by
  rw [Standing.start]
  dsimp only
  split_ifs <;> rfl

theorem explainDone_start (time : Text) : (r.start time total).explainDone = r.explainDone := by
  rw [Standing.start]
  dsimp only
  split_ifs <;> rfl

theorem completedAt_start (time : Text) : (r.start time total).completedAt = r.completedAt := by
  rw [Standing.start]
  dsimp only
  split_ifs <;> rfl

/-- Entering a lesson neither completes it nor takes its completion away. -/
theorem status_start (time : Text) :
    (r.start time total).status = complete ↔ r.status = complete := by
  have hne : notStarted ≠ complete := by decide
  have hne' : inProgress ≠ complete := by decide
  rw [Standing.start]
  dsimp only
  split_ifs with h1 h2 h2
  · exact iff_of_false hne' fun h => hne (h2.symm.trans h)
  · rfl
  · exact iff_of_false hne' fun h => hne (h2.symm.trans h)
  · rfl

/-- Only an outcome of a validator changes whether it counts as passed. -/
theorem passed_after (call : Call F) (blockId : Text) :
    (r.after total clock done lessonId call).passed blockId =
      match call.outcome lessonId blockId with
      | none => r.passed blockId
      | some (ok, historical) => historical && r.passed blockId || ok := by
  cases call with
  | markStarted id =>
    rw [Standing.after]
    show _ = r.passed blockId
    split_ifs
    · rw [Standing.passed, validations_start, Standing.passed]
    · rfl
  | recordValidation id b ok mandatory concepts historical =>
    rw [Standing.after, Call.outcome]
    by_cases hid : id = lessonId
    · rw [if_pos hid, passed_validate]
      by_cases hb : b = blockId
      · rw [if_pos hb, if_pos ⟨hid, hb⟩, hb]
      · rw [if_neg hb, if_neg fun h => hb h.2]
    · rw [if_neg hid, if_neg fun h => hid h.1]
  | recordStep id b | recordQuiz id b ok concepts | recordExplain id b ok concepts
  | recordHint id b | markComplete lesson c =>
    rw [Standing.after]
    show _ = r.passed blockId
    split_ifs <;> rfl
  | _ => rfl

theorem mem_addId {id id' : Text} {ids : List Text} :
    id' ∈ addId id ids ↔ id' = id ∨ id' ∈ ids := by
  rw [addId]
  split_ifs with h
  · rw [List.contains_iff_mem] at h
    constructor
    · exact .inr
    · rintro (rfl | h')
      · exact h
      · exact h'
  · rw [List.mem_append, List.mem_singleton, or_comm]

theorem quizCorrect_validate (time b : Text) (ok mandatory historical : Bool) :
    (r.validate time b ok mandatory historical).quizCorrect = r.quizCorrect := by
  rw [Standing.validate]
  dsimp only
  split_ifs <;> rfl

theorem explainDone_validate (time b : Text) (ok mandatory historical : Bool) :
    (r.validate time b ok mandatory historical).explainDone = r.explainDone := by
  rw [Standing.validate]
  dsimp only
  split_ifs <;> rfl

theorem mem_quizCorrect_after (call : Call F) (blockId : Text) :
    blockId ∈ (r.after total clock done lessonId call).quizCorrect ↔
      blockId ∈ r.quizCorrect ∨ ∃ concepts, call = .recordQuiz lessonId blockId true concepts := by
  cases call with
  | recordQuiz id b correct concepts =>
    rw [Standing.after]
    by_cases hid : id = lessonId
    · rw [if_pos hid, Standing.quiz]
      cases correct <;> simp [hid, mem_addId, or_comm, eq_comm]
    · simp [hid]
  | markStarted id =>
    rw [Standing.after]
    split_ifs
    · simp [quizCorrect_start]
    · simp
  | recordValidation id b ok mandatory concepts historical =>
    rw [Standing.after]
    split_ifs
    · simp [quizCorrect_validate]
    · simp
  | recordStep id b | recordExplain id b ok concepts | recordHint id b | markComplete lesson c =>
    rw [Standing.after]
    split_ifs <;> simp [Standing.step, Standing.explain, Standing.hint, Standing.certify]
  | _ => simp [Standing.after]

theorem mem_explainDone_after (call : Call F) (blockId : Text) :
    blockId ∈ (r.after total clock done lessonId call).explainDone ↔
      blockId ∈ r.explainDone ∨ ∃ concepts, call = .recordExplain lessonId blockId true concepts
    := by
  cases call with
  | recordExplain id b ok concepts =>
    rw [Standing.after]
    by_cases hid : id = lessonId
    · rw [if_pos hid, Standing.explain]
      cases ok <;> simp [hid, mem_addId, or_comm, eq_comm]
    · simp [hid]
  | markStarted id =>
    rw [Standing.after]
    split_ifs
    · simp [explainDone_start]
    · simp
  | recordValidation id b ok mandatory concepts historical =>
    rw [Standing.after]
    split_ifs
    · simp [explainDone_validate]
    · simp
  | recordStep id b | recordQuiz id b ok concepts | recordHint id b | markComplete lesson c =>
    rw [Standing.after]
    split_ifs <;> simp [Standing.step, Standing.quiz, Standing.hint, Standing.certify]
  | _ => simp [Standing.after]

/-- A recorded outcome takes the completion away when it is a failure of a mandatory check, unless
the pass of a historical check stays. -/
theorem status_validate (time b : Text) (ok mandatory historical : Bool) :
    (r.validate time b ok mandatory historical).status = complete ↔
      r.status = complete ∧
        ¬ (ok = false ∧ mandatory = true ∧ ¬ (historical && r.passed b) = true) := by
  have hne : inProgress ≠ complete := by decide
  rw [Standing.validate]
  by_cases hkeep : (historical && r.passed b) = true
  · rw [if_pos hkeep]
    simp [hkeep]
  · rw [if_neg hkeep]
    dsimp only
    by_cases hst : r.status = complete <;> cases ok <;> cases mandatory <;>
      simp [hst, hne, hkeep]

theorem completedAt_validate (time b : Text) (ok mandatory historical : Bool)
    (h : r.completedAt.isSome ↔ r.status = complete) :
    (r.validate time b ok mandatory historical).completedAt.isSome ↔
      (r.validate time b ok mandatory historical).status = complete := by
  have hne : inProgress ≠ complete := by decide
  rw [Standing.validate]
  dsimp only
  split_ifs
  · exact h
  · simp [hne]
  · exact h

/-- The date of completion is set when the status is complete. -/
theorem dated_after (call : Call F) (h : r.completedAt.isSome ↔ r.status = complete) :
    (r.after total clock done lessonId call).completedAt.isSome ↔
      (r.after total clock done lessonId call).status = complete := by
  cases call with
  | markStarted id =>
    rw [Standing.after]
    split_ifs
    · rw [completedAt_start, status_start]
      exact h
    · exact h
  | recordValidation id b ok mandatory concepts historical =>
    rw [Standing.after]
    split_ifs
    · exact completedAt_validate r _ b ok mandatory historical h
    · exact h
  | recordStep id b | recordQuiz id b ok concepts | recordExplain id b ok concepts
  | recordHint id b =>
    rw [Standing.after]
    split_ifs <;> exact h
  | markComplete lesson c =>
    rw [Standing.after]
    split_ifs
    · exact iff_of_true rfl rfl
    · exact h
  | _ => exact h

end Standing

section Own

variable (fl : FloatOps F) (c : Curriculum F)

/-- A call for one curriculum: outcomes are of its validators, with the validators' own flags. -/
def Call.Own : Call F → Prop
  | .recordValidation lessonId blockId _ mandatory _ historical =>
    ∃ lesson block, Assoc.get? lessonId c.lessons = some lesson ∧ block ∈ lesson.blocks ∧
      hasType (ascii "verify") block = true ∧ blockId = Learning.blockId block ∧
      mandatory = flag fl (ascii "mandatory") block ∧
      historical = flag fl (ascii "historical") block
  | .markComplete lesson c' => Assoc.get? lesson.id c.lessons = some lesson ∧ c' = some c
  | .resumeLessonId c' => c' = c
  | _ => True

/-- The lesson's own gates hold in a standing. -/
structure Standing.Holds (lesson : Lesson F) (r : Standing) : Prop where
  validators : ∀ block ∈ lesson.mandatoryValidators fl, r.passed (blockId block) = true
  quizzes : ∀ id ∈ lesson.requiredQuizIds, id ∈ r.quizCorrect
  explains : ∀ id ∈ lesson.requiredExplainIds, id ∈ r.explainDone

theorem gatesHold_record (lesson : Lesson F) (r : Standing) :
    GatesHold fl lesson r.record ↔ r.Holds fl lesson := by
  have hpassed (blockId : Text) :
      hasPassed (r.validations.map outcomeOf) blockId = r.passed blockId := any_passed_state r blockId
  constructor
  · rintro ⟨⟨outcomes, ho, hv⟩, ⟨quizzes, hq, hquizzes⟩, ⟨explains, he, hexplains⟩⟩
    cases ho
    cases hq
    cases he
    exact ⟨fun block hb => (hpassed _) ▸ hv block hb, hquizzes, hexplains⟩
  · rintro ⟨hv, hq, he⟩
    exact ⟨⟨_, rfl, fun block hb => (hpassed _).trans (hv block hb)⟩, ⟨_, rfl, hq⟩, ⟨_, rfl, he⟩⟩

variable {fl c}

theorem Call.Own.allowed {call : Call F} (hc : c.Sound) (h : call.Own fl c) : call.Allowed := by
  cases call with
  | resumeLessonId c' =>
    cases h
    exact hc.nonempty
  | _ => trivial

/-- Blocks of a lesson with the same id are the same. -/
theorem Curriculum.Sound.block_eq (hc : c.Sound) {lessonId : Text} {lesson : Lesson F}
    (hl : Assoc.get? lessonId c.lessons = some lesson) {block block' : Items F}
    (hb : block ∈ lesson.blocks) (hb' : block' ∈ lesson.blocks)
    (hid : blockId block = blockId block') : block = block' :=
  List.inj_on_of_nodup_map (hc.blocks _ (Assoc.mem_of_get? hl)).distinct hb hb' hid

/-- An outcome of a validator carries the validator's own flags. -/
theorem Call.Own.flags (hc : c.Sound) {lessonId : Text} {lesson : Lesson F}
    (hl : Assoc.get? lessonId c.lessons = some lesson) {block : Items F}
    (hb : block ∈ lesson.mandatoryValidators fl) {ok mandatory historical : Bool}
    {concepts : List Text}
    (h : (Call.recordValidation lessonId (blockId block) ok mandatory concepts historical).Own
      fl c) : mandatory = true ∧ historical = flag fl (ascii "historical") block := by
  obtain ⟨lesson', block', hl', hb', -, hid, rfl, rfl⟩ := h
  rw [hl, Option.some.injEq] at hl'
  subst hl'
  rw [Lesson.mandatoryValidators, List.mem_filter, Bool.and_eq_true] at hb
  obtain rfl := hc.block_eq hl hb.1 hb' hid
  exact ⟨hb.2.2, rfl⟩

end Own

section Invariant

variable {fl : FloatOps F} {c : Curriculum F} (hc : c.Sound) {lessonId : Text} {lesson : Lesson F}
  (hl : Assoc.get? lessonId c.lessons = some lesson)

include hc hl

/-- A call that does not revoke the lesson leaves its gates as they are or closes more of them. -/
theorem holds_after {r : Standing} {total : Nat} {clock : Clock} {done : Bool} {call : Call F}
    (hown : call.Own fl c) (hnot : ¬ Revokes lessonId (call, done)) (h : r.Holds fl lesson) :
    (r.after total clock done lessonId call).Holds fl lesson := by
  refine ⟨?_, ?_, ?_⟩
  · intro block hb
    rw [passed_after]
    cases ho : call.outcome lessonId (blockId block) with
    | none => exact h.validators block hb
    | some outcome =>
      obtain ⟨ok, historical⟩ := outcome
      have hpassed := h.validators block hb
      cases call with
      | recordValidation id b ok' mandatory concepts historical' =>
        rw [Call.outcome] at ho
        split_ifs at ho with hid
        obtain ⟨rfl, rfl⟩ := hid
        cases ho
        obtain ⟨rfl, -⟩ := hown.flags hc hl hb
        cases ok with
        | true => exact Bool.or_true _
        | false =>
          cases historical with
          | true => simpa using hpassed
          | false => exact absurd ⟨_, _, rfl⟩ hnot
      | _ => cases ho
  · intro id hid
    exact (mem_quizCorrect_after r total clock done lessonId call id).mpr (.inl (h.quizzes id hid))
  · intro id hid
    exact (mem_explainDone_after r total clock done lessonId call id).mpr
      (.inl (h.explains id hid))

omit hc in
/-- A lesson is stored as complete after a success, or when it was and is not revoked. -/
theorem status_after {r : Standing} {total : Nat} {clock : Clock} {done : Bool} {call : Call F}
    (hown : call.Own fl c) (h : r.status = complete → r.Holds fl lesson) :
    (r.after total clock done lessonId call).status = complete ↔
      Succeeds lessonId (call, done) ∨ r.status = complete ∧ ¬ Revokes lessonId (call, done) := by
  have hother (hs : ¬ Succeeds lessonId (call, done)) (hr : ¬ Revokes lessonId (call, done)) :
      r.status = complete ↔
        Succeeds lessonId (call, done) ∨ r.status = complete ∧ ¬ Revokes lessonId (call, done) := by
    rw [or_iff_right hs, and_iff_left hr]
  cases call with
  | markStarted id =>
    rw [Standing.after, ← hother (by rintro ⟨_, _, -, ⟨⟩⟩) (by rintro ⟨_, _, ⟨⟩⟩)]
    split_ifs
    · exact status_start r total _
    · rfl
  | recordValidation id b ok mandatory concepts historical =>
    have hs : ¬ Succeeds (F := F) lessonId
        (.recordValidation id b ok mandatory concepts historical, done) := by
      rintro ⟨_, _, -, ⟨⟩⟩
    rw [Standing.after, or_iff_right hs]
    by_cases hid : id = lessonId
    · rw [if_pos hid, status_validate]
      subst hid
      refine and_congr_right fun hst => not_congr ?_
      constructor
      · rintro ⟨rfl, rfl, hkeep⟩
        -- a historical mandatory check has passed in a complete lesson
        have hhist : historical = false := by
          cases historical with
          | false => rfl
          | true =>
            obtain ⟨lesson', block, hl', hb, htype, rfl, hmand, -⟩ := hown
            rw [hl, Option.some.injEq] at hl'
            subst hl'
            have hmem : block ∈ lesson.mandatoryValidators fl :=
              List.mem_filter.mpr ⟨hb, by simp [htype, ← hmand]⟩
            exact absurd (by simpa using (h hst).validators block hmem) hkeep
        rw [hhist]
        exact ⟨b, concepts, rfl⟩
      · rintro ⟨b', concepts', heq⟩
        cases heq
        exact ⟨rfl, rfl, by simp⟩
    · rw [if_neg hid, and_iff_left]
      rintro ⟨_, _, heq⟩
      cases heq
      exact hid rfl
  | markComplete lesson' c' =>
    have hr : ¬ Revokes lessonId (.markComplete lesson' c', done) := by
      rintro ⟨_, _, ⟨⟩⟩
    rw [Standing.after, and_iff_left hr]
    by_cases hdone : done = true ∧ lesson'.id = lessonId
    · rw [if_pos hdone]
      refine iff_of_true rfl (.inl ⟨lesson', c', hdone.2, ?_⟩)
      rw [hdone.1]
    · rw [if_neg hdone, or_iff_right]
      rintro ⟨_, _, hid, heq⟩
      cases heq
      exact hdone ⟨rfl, hid⟩
  | recordStep id b | recordQuiz id b ok concepts | recordExplain id b ok concepts
  | recordHint id b =>
    rw [Standing.after, ← hother (by rintro ⟨_, _, -, ⟨⟩⟩) (by rintro ⟨_, _, ⟨⟩⟩)]
    split_ifs <;> rfl
  | _ => exact hother (by rintro ⟨_, _, -, ⟨⟩⟩) (by rintro ⟨_, _, ⟨⟩⟩)

/-- A lesson is stored as complete when the history certifies it, and then its gates hold. -/
theorem status_of_reached {history : List (Entry F)} {a : Ledger} (h : Reached fl history a)
    (hown : ∀ entry ∈ history, entry.1.Own fl c) :
    ((a.lesson lessonId).status = complete ↔ Certified history lessonId) ∧
      ((a.lesson lessonId).status = complete → (a.lesson lessonId).Holds fl lesson) ∧
      ((a.lesson lessonId).completedAt.isSome ↔ (a.lesson lessonId).status = complete) := by
  induction h with
  | start =>
    have hne : (Standing.fresh).status ≠ complete := by decide
    exact ⟨iff_of_false hne Runs.not_since_nil, fun hst => absurd hst hne,
      iff_of_false nofun hne⟩
  | @call history a before clock call done answer ih =>
    rw [List.forall_mem_append] at hown
    obtain ⟨hcertified, hholds, hdated⟩ := ih hown.1
    have hcall : call.Own fl c := hown.2 _ List.mem_cons_self
    have hst : ((a.lesson lessonId).after a.interviewTotal clock done lessonId call).status =
        complete ↔ _ := status_after hl hcall hholds
    have hsnoc : Certified (history ++ [(call, done)]) lessonId ↔
        Succeeds lessonId (call, done) ∨
          Certified history lessonId ∧ ¬ Revokes lessonId (call, done) := Runs.since_snoc _ _
    rw [apply_lesson, hsnoc, ← hcertified]
    refine ⟨hst, ?_, dated_after _ _ clock done lessonId call hdated⟩
    intro hcomplete
    obtain hs | ⟨hold, hnot⟩ := hst.mp hcomplete
    · -- the gates held when `mark_complete` succeeded
      have hnot := hs.not_revokes
      obtain ⟨lesson', c', hid, heq⟩ := hs
      cases heq
      obtain ⟨_, _, heq, -, r, hr, hgates⟩ := answer rfl
      cases heq
      have hlesson := hcall.1
      rw [hid, hl, Option.some.injEq] at hlesson
      subst hlesson
      rw [hid] at hr
      apply holds_after hc hl hcall hnot
      rw [Ledger.lesson, hr]
      exact (gatesHold_record fl lesson r).mp hgates
    · exact holds_after hc hl hcall hnot (hholds hold)

/-- A validator counts as passed when its last outcome was a pass, or, when it is historical, when
some outcome was. -/
theorem passed_iff {history : List (Entry F)} {a : Ledger} (h : Reached fl history a)
    (hown : ∀ entry ∈ history, entry.1.Own fl c) {block : Items F}
    (hb : block ∈ lesson.mandatoryValidators fl) :
    (a.lesson lessonId).passed (blockId block) = true ↔
      if flag fl (ascii "historical") block then true ∈ outcomes history lessonId (blockId block)
      else (outcomes history lessonId (blockId block)).getLast? = some true := by
  induction h with
  | start =>
    refine iff_of_false nofun ?_
    split_ifs <;> exact nofun
  | @call history a before clock call done answer ih =>
    rw [List.forall_mem_append] at hown
    have hcall : call.Own fl c := hown.2 _ List.mem_cons_self
    -- the call adds its own outcome at the end
    have hsnoc : outcomes (history ++ [(call, done)]) lessonId (blockId block) =
        outcomes history lessonId (blockId block) ++
          ((call.outcome lessonId (blockId block)).map Prod.fst).toList := by
      rw [outcomes, List.filterMap_append, outcomes]
      cases ho : call.outcome lessonId (blockId block) <;> simp [ho]
    rw [apply_lesson, passed_after, hsnoc]
    cases ho : call.outcome lessonId (blockId block) with
    | none =>
      simp only [Option.map_none, Option.toList_none, List.append_nil]
      exact ih hown.1
    | some outcome =>
      obtain ⟨ok, historical⟩ := outcome
      -- a call of its own lesson carries the flag of the block
      have hflag : historical = flag fl (ascii "historical") block := by
        cases call with
        | recordValidation id b ok' mandatory concepts historical' =>
          rw [Call.outcome] at ho
          split_ifs at ho with hid
          obtain ⟨rfl, rfl⟩ := hid
          cases ho
          exact (hcall.flags hc hl hb).2
        | _ => cases ho
      have hprev := ih hown.1
      rw [← hflag] at hprev ⊢
      cases historical with
      | true =>
        rw [if_pos rfl] at hprev ⊢
        dsimp only
        rw [Bool.true_and, Bool.or_eq_true, hprev, List.mem_append]
        cases ok <;> simp
      | false => simp

omit hc hl in
theorem mem_quizCorrect_iff {history : List (Entry F)} {a : Ledger} (h : Reached fl history a)
    (id : Text) : id ∈ (a.lesson lessonId).quizCorrect ↔ Answered history lessonId id := by
  induction h with
  | start => simp [Ledger.lesson, Ledger.empty, Standing.fresh, Answered]
  | @call history a before clock call done answer ih =>
    rw [apply_lesson, mem_quizCorrect_after, ih]
    simp [Answered, or_and_right, exists_or]

omit hc hl in
theorem mem_explainDone_iff {history : List (Entry F)} {a : Ledger} (h : Reached fl history a)
    (id : Text) : id ∈ (a.lesson lessonId).explainDone ↔ Explained history lessonId id := by
  induction h with
  | start => simp [Ledger.lesson, Ledger.empty, Standing.fresh, Explained]
  | @call history a before clock call done answer ih =>
    rw [apply_lesson, mem_explainDone_after, ih]
    simp [Explained, or_and_right, exists_or]

end Invariant

section Stored

variable (s : State F) (lessonId : Text)

/-- A validator counts as passed in the stored record. -/
def ValidatorPassed (blockId : Text) : Prop :=
  ∃ record outcomes, s.lessons.get? lessonId = some record ∧ record.validations = .val outcomes ∧
    hasPassed outcomes blockId = true

def QuizPassed (blockId : Text) : Prop :=
  ∃ record ids, s.lessons.get? lessonId = some record ∧ record.quizCorrect = .val ids ∧
    blockId ∈ ids

def ExplainPassed (blockId : Text) : Prop :=
  ∃ record ids, s.lessons.get? lessonId = some record ∧ record.explainDone = .val ids ∧
    blockId ∈ ids

def StoredComplete : Prop :=
  ∃ record, s.lessons.get? lessonId = some record ∧ record.status = .val complete

/-- What the store holds of a lesson is what its history records. -/
structure FollowsHistory (fl : FloatOps F) (history : List (Entry F)) (lesson : Lesson F) :
    Prop where
  validators : ∀ block ∈ lesson.mandatoryValidators fl,
    (ValidatorPassed s lessonId (blockId block) ↔
      if flag fl (ascii "historical") block then true ∈ outcomes history lessonId (blockId block)
      else (outcomes history lessonId (blockId block)).getLast? = some true)
  quizzes : ∀ id ∈ lesson.requiredQuizIds,
    (QuizPassed s lessonId id ↔ Answered history lessonId id)
  explains : ∀ id ∈ lesson.requiredExplainIds,
    (ExplainPassed s lessonId id ↔ Explained history lessonId id)
  certified : StoredComplete s lessonId ↔ Certified history lessonId
  dated : ∀ record, s.lessons.get? lessonId = some record → record.status = .val complete →
    GatesHold fl lesson record ∧ ∃ time, record.completedAt = .val (.str time)
  undated : ∀ record, s.lessons.get? lessonId = some record → record.status ≠ .val complete →
    record.completedAt = .null

variable (a : Ledger)

theorem state_get? : (a.state : State F).lessons.get? lessonId =
    (a.lessons.get? lessonId).map Standing.record := Dict.get?_map _ _ _

theorem validatorPassed_state (blockId : Text) :
    ValidatorPassed (a.state : State F) lessonId blockId ↔
      (a.lesson lessonId).passed blockId = true := by
  rw [ValidatorPassed, state_get?, Ledger.lesson]
  cases a.lessons.get? lessonId with
  | none => exact iff_of_false (by rintro ⟨_, _, ⟨⟩, -⟩) (by simp [Standing.fresh, Standing.passed])
  | some r =>
    constructor
    · rintro ⟨_, _, ⟨⟩, ⟨⟩, h⟩
      exact (any_passed_state r blockId).symm.trans h
    · intro h
      exact ⟨_, _, rfl, rfl, (any_passed_state r blockId).trans h⟩

theorem quizPassed_state (blockId : Text) :
    QuizPassed (a.state : State F) lessonId blockId ↔
      blockId ∈ (a.lesson lessonId).quizCorrect := by
  rw [QuizPassed, state_get?, Ledger.lesson]
  cases a.lessons.get? lessonId with
  | none => exact iff_of_false (by rintro ⟨_, _, ⟨⟩, -⟩) (by simp [Standing.fresh])
  | some r =>
    constructor
    · rintro ⟨_, _, ⟨⟩, ⟨⟩, h⟩
      exact h
    · intro h
      exact ⟨_, _, rfl, rfl, h⟩

theorem explainPassed_state (blockId : Text) :
    ExplainPassed (a.state : State F) lessonId blockId ↔
      blockId ∈ (a.lesson lessonId).explainDone := by
  rw [ExplainPassed, state_get?, Ledger.lesson]
  cases a.lessons.get? lessonId with
  | none => exact iff_of_false (by rintro ⟨_, _, ⟨⟩, -⟩) (by simp [Standing.fresh])
  | some r =>
    constructor
    · rintro ⟨_, _, ⟨⟩, ⟨⟩, h⟩
      exact h
    · intro h
      exact ⟨_, _, rfl, rfl, h⟩

theorem storedComplete_state :
    StoredComplete (a.state : State F) lessonId ↔ (a.lesson lessonId).status = complete := by
  rw [StoredComplete, state_get?, Ledger.lesson]
  cases a.lessons.get? lessonId with
  | none =>
    have hne : Standing.fresh.status ≠ Learning.complete := by decide
    exact iff_of_false (by rintro ⟨_, ⟨⟩, -⟩) hne
  | some r =>
    constructor
    · rintro ⟨_, ⟨⟩, h⟩
      exact Field.val.inj h
    · intro h
      exact ⟨_, rfl, congrArg Field.val h⟩

end Stored

/-- In every run of calls of one accepted curriculum, what the store holds of each lesson is what
the history of the run records. -/
theorem gates_follow_history (fl : FloatOps F) (S : Sources F) (c : Curriculum F)
    (hload : loadCurriculum S = .ok c) (events : List (Clock × Call F))
    (hown : ∀ event ∈ events, event.2.Own fl c) :
    ∃ store history, run fl events = .ok (store, history) ∧
      history.map Prod.fst = events.map Prod.snd ∧
      ∀ lessonId lesson, Assoc.get? lessonId c.lessons = some lesson →
        FollowsHistory store.memory lessonId fl history lesson := by
  have hc := loadCurriculum_sound hload
  obtain ⟨a, saved, history, hrun, hcalls, hreached, -⟩ :=
    run_reached fl events fun event hevent => (hown event hevent).allowed hc
  have hown' : ∀ entry ∈ history, entry.1.Own fl c := by
    intro entry hentry
    have hmem : entry.1 ∈ events.map Prod.snd := hcalls ▸ List.mem_map_of_mem hentry
    obtain ⟨event, hevent, heq⟩ := List.mem_map.mp hmem
    exact heq ▸ hown event hevent
  refine ⟨_, history, hrun, hcalls, ?_⟩
  intro lessonId lesson hl
  obtain ⟨hcertified, hholds, hdated⟩ := status_of_reached hc hl hreached hown'
  -- a stored record is that of the abstract lesson
  have hrecord {record : LessonRecord F}
      (hr : (a.state : State F).lessons.get? lessonId = some record) :
      record = (a.lesson lessonId).record := by
    rw [state_get?, Option.map_eq_some_iff] at hr
    obtain ⟨r, hr, rfl⟩ := hr
    rw [Ledger.lesson, hr, Option.getD_some]
  refine ⟨?_, ?_, ?_, ?_, ?_, ?_⟩
  · intro block hb
    exact (validatorPassed_state lessonId a _).trans (passed_iff hc hl hreached hown' hb)
  · intro id _
    exact (quizPassed_state lessonId a id).trans (mem_quizCorrect_iff hreached id)
  · intro id _
    exact (explainPassed_state lessonId a id).trans (mem_explainDone_iff hreached id)
  · exact (storedComplete_state lessonId a).trans hcertified
  · intro record hr hst
    obtain rfl := hrecord hr
    have hcomplete : (a.lesson lessonId).status = complete := Field.val.inj hst
    obtain ⟨time, htime⟩ := Option.isSome_iff_exists.mp (hdated.mpr hcomplete)
    refine ⟨(gatesHold_record fl lesson _).mpr (hholds hcomplete), time, ?_⟩
    rw [Standing.record, htime]
    rfl
  · intro record hr hst
    obtain rfl := hrecord hr
    have hopen : ¬ (a.lesson lessonId).completedAt.isSome := by
      rw [hdated]
      exact fun h => hst (congrArg Field.val h)
    rw [Option.not_isSome_iff_eq_none] at hopen
    rw [Standing.record, hopen]
    rfl

def courseZ : Lesson Text :=
  (Assoc.get? (ascii "z") course.lessons).getD
    { id := [], day := 0, title := [], objective := [], estimatedMinutes := 0, status := .available,
      unavailableReason := .given .none, concepts := [], prerequisites := [], sourceFiles := [],
      flow := none, blocks := [], hints := [], requirements := [], requires := [] }

theorem course_z : Assoc.get? (ascii "z") course.lessons = some courseZ := by
  have hz : (Assoc.get? (ascii "z") course.lessons).isSome := by decide +kernel
  obtain ⟨lesson, hl⟩ := Option.isSome_iff_exists.mp hz
  rw [courseZ, hl]
  rfl

theorem courseZ_id : courseZ.id = ascii "z" :=
  (loadCurriculum_sound course_loaded).ids _ (Assoc.mem_of_get? course_z)

theorem course_own_z : Assoc.get? courseZ.id course.lessons = some courseZ := by
  rw [courseZ_id, course_z]

/-- The check of the lesson fails and then passes, its quiz is missed and then answered, a hint is
taken, both interview questions are answered, and the lesson is complete at the second try. -/
def courseCalls : List (Call Text) :=
  [.markStarted (ascii "z"), .markComplete courseZ (some course),
    .recordValidation (ascii "z") (ascii "check") false true [ascii "tcp"] false,
    .recordHint (ascii "z") 0,
    .recordValidation (ascii "z") (ascii "check") true true [ascii "tcp"] false,
    .recordQuiz (ascii "z") (ascii "ask") false [ascii "tcp"],
    .recordQuiz (ascii "z") (ascii "ask") true [ascii "tcp"],
    .recordInterview (ascii "q1") true [ascii "tcp"],
    .recordInterview (ascii "q2") false [ascii "tcp"], .markComplete courseZ (some course)]

def courseEvents : List (Clock × Call Text) := courseCalls.map fun call => (fun _ => ascii "t", call)

theorem courseCalls_own : ∀ call ∈ courseCalls, call.Own FloatOps.tokens course := by
  have hblock : courseZ.blocks.any (fun block => hasType (ascii "verify") block &&
      decide (ascii "check" = blockId block) &&
      (true == flag FloatOps.tokens (ascii "mandatory") block) &&
      (false == flag FloatOps.tokens (ascii "historical") block)) = true := by
    decide +kernel
  obtain ⟨block, hb, hblock⟩ := List.any_eq_true.mp hblock
  simp only [Bool.and_eq_true, decide_eq_true_eq, beq_iff_eq] at hblock
  obtain ⟨⟨⟨htype, hcheck⟩, hmandatory⟩, hhistorical⟩ := hblock
  have hvalidation (ok : Bool) : (Call.recordValidation (ascii "z") (ascii "check") ok true
      [ascii "tcp"] false).Own FloatOps.tokens course :=
    ⟨courseZ, block, course_z, hb, htype, hcheck, hmandatory, hhistorical⟩
  simp only [courseCalls, List.forall_mem_cons]
  exact ⟨trivial, ⟨course_own_z, rfl⟩, hvalidation false, trivial, hvalidation true, trivial,
    trivial, trivial, trivial, ⟨course_own_z, rfl⟩, List.forall_mem_nil _⟩

/-- The run succeeds, and the store holds the lesson as complete. -/
theorem gates_follow_history_sample : ∃ store history,
    run FloatOps.tokens courseEvents = .ok (store, history) ∧
      history.map Prod.fst = courseCalls ∧
      StoredComplete store.memory (ascii "z") ∧
      ∀ lessonId lesson, Assoc.get? lessonId course.lessons = some lesson →
        FollowsHistory store.memory lessonId FloatOps.tokens history lesson := by
  obtain ⟨store, history, hrun, hcalls, hfollows⟩ :=
    gates_follow_history FloatOps.tokens courseSources course course_loaded courseEvents
      (List.forall_mem_map.mpr courseCalls_own)
  refine ⟨store, history, hrun, ?_, ?_, hfollows⟩
  · rw [hcalls, courseEvents, List.map_map]
    exact List.map_id _
  · have hstatus : ((run FloatOps.tokens courseEvents).toOption.bind fun ran =>
        ran.1.memory.lessons.get? (ascii "z")).map (·.status) = some (.val complete) := by
      decide +kernel
    rw [hrun] at hstatus
    obtain ⟨record, hrecord, hcomplete⟩ := Option.map_eq_some_iff.mp hstatus
    exact ⟨record, hrecord, hcomplete⟩

end Learning
