import FlightTestLab.Learning.Runs
import FlightTestLab.Learning.Saved

/-!
# Counters and strings along calls

No operation looks at the bound that the loader checks. A call keeps it when what it
counts still fits, and the strings that a call adds to the ledger are its own.

## Main definitions

- `Learning.Call.Fits`: the call leaves every counter within the bound
- `Learning.Call.Among`: the strings of the call are among those given

## Main results

- `Learning.apply_bounded`: a call that fits keeps the bound
- `Learning.apply_among`: a call adds no strings but its own, the times and the statuses
-/

namespace Learning

open Json (Text ascii)
open Python (Value Error)

variable {F : Type}

section Fitting

/-- The answers of a kind that count for a concept. -/
def State.conceptCount (s : State F) (correct : Bool) (concept : Text) : Nat :=
  (s.concepts.get? concept).elim 0 fun entry =>
    countOf (if correct then entry.correct else entry.incorrect)

/-- The answers to an interview question of a kind. -/
def State.answerCount (s : State F) (correct : Bool) (questionId : Text) : Nat :=
  (s.interview.get? questionId).elim 0 fun entry =>
    countOf (if correct then entry.correct else entry.incorrect)

def State.streakCount (s : State F) (questionId : Text) : Nat :=
  (s.interview.get? questionId).elim 0 fun entry => countOf entry.streak

/-- An answer can be counted for each of the concepts, as often as it is named. -/
def CountsFit (s : State F) (correct : Bool) (concepts : List Text) : Prop :=
  ∀ concept ∈ concepts, s.conceptCount correct concept + concepts.count concept ≤ maxCounter

/-- The call leaves every counter within the bound that the loader checks. -/
def Call.Fits (s : State F) : Call F → Prop
  | .markStarted lessonId =>
    countOf (lessonRecord s lessonId).attempts < maxCounter ∧
      ((lessonRecord s lessonId).startedAt.isNone = true → interviewTotal s ≤ maxCounter)
  | .recordValidation lessonId blockId passed mandatory concepts historical =>
    -- the pass of a historical check stays, and counts nothing
    (historical = true → Learning.validationPassed s lessonId blockId ≠ .ok true) → mandatory = true →
      CountsFit s passed concepts
  | .recordQuiz lessonId _ correct concepts =>
    countOf (lessonRecord s lessonId).quizAttempts < maxCounter ∧ CountsFit s correct concepts
  | .recordExplain _ _ passed concepts => CountsFit s passed concepts
  | .recordHint _ index => index < maxCounter
  | .recordInterview questionId correct concepts =>
    s.answerCount correct questionId < maxCounter ∧
      (correct = true → s.streakCount questionId < maxCounter) ∧ CountsFit s correct concepts
  | _ => True

end Fitting

section Counting

/-- The answers of a kind in a tally. -/
def Tally.count (correct : Bool) (t : Tally) : Nat := if correct then t.correct else t.incorrect

def tallyCount (correct : Bool) (stored : Dict Text Tally) (concept : Text) : Nat :=
  (stored.get? concept).elim 0 (Tally.count correct)

theorem conceptCount_state (a : Ledger) (correct : Bool) (concept : Text) :
    (a.state : State F).conceptCount correct concept = tallyCount correct a.concepts concept := by
  rw [State.conceptCount, state_concepts, Dict.get?_map, tallyCount]
  cases a.concepts.get? concept with
  | none => rfl
  | some t => cases correct <;> rfl

theorem tallyCount_tally (time : Text) (correct : Bool) (stored : Dict Text Tally)
    (concept other : Text) :
    tallyCount correct (Ledger.tally time correct stored concept) other =
      tallyCount correct stored other + if concept = other then 1 else 0 := by
  rw [tallyCount, Ledger.tally, Dict.get?_insert]
  by_cases h : concept = other
  · subst h
    rw [if_pos rfl, if_pos rfl, tallyCount]
    cases stored.get? concept <;> cases correct <;> rfl
  · rw [if_neg h, if_neg h]
    rfl

theorem bounded_tally {time : Text} {correct : Bool} {stored : Dict Text Tally} {concept : Text}
    (h : ∀ c t, stored.get? c = some t → t.Bounded)
    (hcount : tallyCount correct stored concept < maxCounter) :
    ∀ c t, (Ledger.tally time correct stored concept).get? c = some t → t.Bounded := by
  intro c t ht
  rw [Ledger.tally, Dict.get?_insert] at ht
  by_cases hc : concept = c
  · rw [if_pos hc] at ht
    have hold : ((stored.get? concept).getD ⟨0, 0, none⟩).Bounded := by
      cases hget : stored.get? concept with
      | none => exact ⟨Nat.zero_le _, Nat.zero_le _⟩
      | some old => exact h concept old hget
    have hread : tallyCount correct stored concept =
        ((stored.get? concept).getD ⟨0, 0, none⟩).count correct := by
      rw [tallyCount]
      cases stored.get? concept with
      | none => cases correct <;> rfl
      | some old => rfl
    rw [hread] at hcount
    obtain rfl := Option.some.inj ht
    cases correct with
    | true => exact ⟨hcount, hold.incorrect⟩
    | false => exact ⟨hold.correct, hcount⟩
  · rw [if_neg hc] at ht
    exact h c t ht

/-- Counting an answer for each of some concepts keeps the bound, when all of it fits. -/
theorem bounded_bump {clock : Clock} {correct : Bool} {stored : Dict Text Tally}
    {concepts : List Text} (h : ∀ c t, stored.get? c = some t → t.Bounded)
    (hfit : ∀ concept ∈ concepts,
      tallyCount correct stored concept + concepts.count concept ≤ maxCounter) :
    ∀ c t, (Ledger.bump clock correct stored concepts).get? c = some t → t.Bounded := by
  induction concepts generalizing clock stored with
  | nil => exact h
  | cons concept concepts ih =>
    apply ih
    · apply bounded_tally h
      have hhead := hfit concept List.mem_cons_self
      rw [List.count_cons_self] at hhead
      omega
    · intro other hmem
      have hother := hfit other (List.mem_cons_of_mem _ hmem)
      rw [tallyCount_tally]
      rw [List.count_cons] at hother
      by_cases heq : concept = other
      · rw [if_pos heq]
        rw [if_pos (beq_iff_eq.mpr heq)] at hother
        omega
      · rw [if_neg heq]
        omega

end Counting

section Bounded

variable {a : Ledger}

theorem Ledger.Bounded.lesson (h : a.Bounded) (lessonId : Text) : (a.lesson lessonId).Bounded := by
  rw [Ledger.lesson]
  cases hr : a.lessons.get? lessonId with
  | none => exact ⟨Nat.zero_le _, Nat.zero_le _, Nat.zero_le _, Nat.zero_le _⟩
  | some r => exact h.lessons lessonId r hr

theorem Ledger.Bounded.insert (h : a.Bounded) {lessonId : Text} {r : Standing} (hr : r.Bounded) :
    ∀ id r', (a.lessons.insert lessonId r).get? id = some r' → r'.Bounded := by
  intro id r' hget
  rw [Dict.get?_insert] at hget
  by_cases hid : lessonId = id
  · rw [if_pos hid] at hget
    obtain rfl := Option.some.inj hget
    exact hr
  · rw [if_neg hid] at hget
    exact h.lessons id r' hget

theorem Ledger.Bounded.put (h : a.Bounded) {lessonId : Text} {r : Standing} (hr : r.Bounded) :
    (a.put lessonId r).Bounded :=
  ⟨h.insert hr, h.concepts, h.interview⟩

theorem Ledger.Bounded.bump (h : a.Bounded) {correct : Bool} {concepts : List Text}
    (hfit : CountsFit (a.state : State F) correct concepts) (clock : Clock) :
    { a with concepts := Ledger.bump clock correct a.concepts concepts }.Bounded := by
  refine ⟨h.lessons, bounded_bump h.concepts ?_, h.interview⟩
  intro concept hmem
  rw [← conceptCount_state (F := F)]
  exact hfit concept hmem

theorem bounded_start {r : Standing} (h : r.Bounded) (hattempts : r.attempts < maxCounter)
    {total : Nat} (htotal : r.startedAt.isNone = true → total ≤ maxCounter) (time : Text) :
    (r.start time total).Bounded := by
  have hbaseline : (r.start time total).interviewBaseline ≤ maxCounter := by
    rw [Standing.start]
    by_cases hstarted : r.startedAt.isNone = true
    · rw [if_pos hstarted]
      dsimp only
      split_ifs
      · exact htotal hstarted
      · exact htotal hstarted
    · rw [if_neg hstarted]
      dsimp only
      split_ifs
      · exact h.interviewBaseline
      · exact h.interviewBaseline
  have hrest : (r.start time total).attempts = r.attempts + 1 ∧
      (r.start time total).hintsUsed = r.hintsUsed ∧
      (r.start time total).quizAttempts = r.quizAttempts := by
    rw [Standing.start]
    split_ifs <;> exact ⟨rfl, rfl, rfl⟩
  obtain ⟨hattempts', hhints, hquiz⟩ := hrest
  exact ⟨hattempts' ▸ hattempts, hhints ▸ h.hintsUsed, hquiz ▸ h.quizAttempts, hbaseline⟩

theorem bounded_validate {r : Standing} (h : r.Bounded) (time blockId : Text)
    (ok mandatory historical : Bool) :
    (r.validate time blockId ok mandatory historical).Bounded := by
  rw [Standing.validate]
  dsimp only
  split_ifs
  · exact h
  · exact ⟨h.attempts, h.hintsUsed, h.quizAttempts, h.interviewBaseline⟩
  · exact ⟨h.attempts, h.hintsUsed, h.quizAttempts, h.interviewBaseline⟩

theorem validationPassed_state (lessonId blockId : Text) :
    validationPassed (a.state : State F) lessonId blockId =
      .ok ((a.lesson lessonId).passed blockId) := by
  rw [validationPassed, state_lessons, Dict.get?_map, Ledger.lesson]
  cases a.lessons.get? lessonId with
  | none => rfl
  | some r => exact congrArg Except.ok (any_passed_state r blockId)

theorem answerCount_state (correct : Bool) (questionId : Text) :
    (a.state : State F).answerCount correct questionId =
      if correct then ((a.interview.get? questionId).getD ⟨0, 0, 0⟩).correct
      else ((a.interview.get? questionId).getD ⟨0, 0, 0⟩).incorrect := by
  rw [State.answerCount, state_interview, Dict.get?_map]
  cases a.interview.get? questionId <;> cases correct <;> rfl

theorem streakCount_state (questionId : Text) : (a.state : State F).streakCount questionId =
    ((a.interview.get? questionId).getD ⟨0, 0, 0⟩).streak := by
  rw [State.streakCount, state_interview, Dict.get?_map]
  cases a.interview.get? questionId <;> rfl

theorem bounded_recordInterview (h : a.Bounded) {questionId : Text} {correct : Bool}
    {concepts : List Text} (clock : Clock)
    (hfits : (Call.recordInterview questionId correct concepts).Fits (a.state : State F)) :
    (a.recordInterview clock questionId correct concepts).Bounded := by
  obtain ⟨hcount, hstreak, hconcepts⟩ := hfits
  rw [answerCount_state] at hcount
  rw [streakCount_state] at hstreak
  have hold : ((a.interview.get? questionId).getD ⟨0, 0, 0⟩).Bounded := by
    cases hget : a.interview.get? questionId with
    | none => exact ⟨Nat.zero_le _, Nat.zero_le _, Nat.zero_le _⟩
    | some entry => exact h.interview questionId entry hget
  refine ⟨h.lessons, (h.bump hconcepts clock).concepts, ?_⟩
  intro id entry hget
  rw [Ledger.recordInterview] at hget
  dsimp only at hget
  rw [Dict.get?_insert] at hget
  by_cases hid : questionId = id
  · rw [if_pos hid] at hget
    obtain rfl := Option.some.inj hget
    cases correct with
    | true => exact ⟨hcount, hold.incorrect, hstreak rfl⟩
    | false => exact ⟨hold.correct, hcount, Nat.zero_le _⟩
  · rw [if_neg hid] at hget
    exact h.interview id entry hget

/-- A call that fits keeps the bound. -/
theorem apply_bounded (h : a.Bounded) (clock : Clock) (done : Bool) {call : Call F}
    (hfits : call.Fits a.state) : (a.apply clock done call).Bounded := by
  cases call with
  | markStarted lessonId =>
    obtain ⟨hattempts, htotal⟩ := hfits
    rw [lessonRecord_state] at hattempts htotal
    rw [interviewTotal_state] at htotal
    apply h.put
    apply bounded_start (h.lesson lessonId) hattempts
    intro hnone
    exact htotal ((isNone_timeField _).trans hnone)
  | recordStep lessonId blockId =>
    have hr := h.lesson lessonId
    exact h.put ⟨hr.attempts, hr.hintsUsed, hr.quizAttempts, hr.interviewBaseline⟩
  | recordValidation lessonId blockId passed mandatory concepts historical =>
    have hr := bounded_validate (h.lesson lessonId) (clock 0) blockId passed mandatory historical
    show (Ledger.recordValidation ..).Bounded
    rw [Ledger.recordValidation]
    split_ifs with hkeep hbump
    · exact h.put hr
    · rw [Bool.and_eq_true] at hbump
      -- an answer is counted unless it repeats a historical pass
      refine (h.bump (F := F) (hfits ?_ hbump.2) _).put hr
      intro hhistorical
      rw [validationPassed_state]
      intro hpassed
      apply hkeep
      rw [hhistorical, Except.ok.inj hpassed]
      rfl
    · exact h.put hr
  | recordQuiz lessonId blockId correct concepts =>
    obtain ⟨hattempts, hconcepts⟩ := hfits
    rw [lessonRecord_state] at hattempts
    have hr := h.lesson lessonId
    exact (h.bump hconcepts clock).put ⟨hr.attempts, hr.hintsUsed, hattempts, hr.interviewBaseline⟩
  | recordExplain lessonId blockId passed concepts =>
    have hr := h.lesson lessonId
    exact (h.bump (F := F) hfits clock).put
      ⟨hr.attempts, hr.hintsUsed, hr.quizAttempts, hr.interviewBaseline⟩
  | recordHint lessonId index =>
    have hr := h.lesson lessonId
    have hhint : ((a.lesson lessonId).hint index).Bounded :=
      ⟨hr.attempts, Nat.max_le.mpr ⟨hr.hintsUsed, hfits⟩, hr.quizAttempts, hr.interviewBaseline⟩
    exact ⟨h.insert hhint, h.concepts, h.interview⟩
  | recordInterview questionId correct concepts => exact bounded_recordInterview h clock hfits
  | markComplete lesson c =>
    cases done with
    | false => exact h
    | true =>
      have hr := h.lesson lesson.id
      have hcertify : ((a.lesson lesson.id).certify (clock 0)).Bounded :=
        ⟨hr.attempts, hr.hintsUsed, hr.quizAttempts, hr.interviewBaseline⟩
      exact ⟨h.insert hcertify, h.concepts, h.interview⟩
  | _ => exact h

end Bounded

section Texts

variable {texts : Text → Prop} {a : Ledger}

/-- What a lesson's status can be set to. -/
def statuses : List Text := [notStarted, inProgress, complete]

/-- The strings that a call brings in. -/
def Call.Among (texts : Text → Prop) : Call F → Prop
  | .markStarted lessonId | .recordHint lessonId _ => texts lessonId
  | .recordStep lessonId blockId => texts lessonId ∧ texts blockId
  | .recordValidation lessonId blockId _ _ concepts _ | .recordQuiz lessonId blockId _ concepts
  | .recordExplain lessonId blockId _ concepts =>
    texts lessonId ∧ texts blockId ∧ ∀ concept ∈ concepts, texts concept
  | .recordInterview questionId _ concepts =>
    texts questionId ∧ ∀ concept ∈ concepts, texts concept
  | .markComplete lesson _ => texts lesson.id
  | _ => True

theorem Ledger.among_empty (texts : Text → Prop) : Ledger.empty.Among texts := by
  refine ⟨?_, ?_, ?_, ?_⟩
  · intro id h
    cases h
  · intro id r h
    rw [Ledger.empty, Dict.get?_empty] at h
    cases h
  · intro concept t h
    rw [Ledger.empty, Dict.get?_empty] at h
    cases h
  · intro id entry h
    rw [Ledger.empty, Dict.get?_empty] at h
    cases h

theorem Ledger.Among.lesson (hfixed : ∀ s ∈ statuses, texts s)
    (h : a.Among texts) (lessonId : Text) : (a.lesson lessonId).Among texts := by
  rw [Ledger.lesson]
  cases hr : a.lessons.get? lessonId with
  | none =>
    refine ⟨hfixed _ (by simp [statuses, Standing.fresh]), ?_, ?_, ?_, ?_, ?_, ?_⟩
    all_goals simp [Standing.fresh]
  | some r => exact (h.lessons lessonId r hr).2

theorem Ledger.Among.insert (h : a.Among texts) {lessonId : Text} (hid : texts lessonId)
    {r : Standing} (hr : r.Among texts) : ∀ id r',
      (a.lessons.insert lessonId r).get? id = some r' → texts id ∧ r'.Among texts := by
  intro id r' hget
  rw [Dict.get?_insert] at hget
  by_cases heq : lessonId = id
  · rw [if_pos heq] at hget
    obtain rfl := Option.some.inj hget
    exact ⟨heq ▸ hid, hr⟩
  · rw [if_neg heq] at hget
    exact h.lessons id r' hget

theorem Ledger.Among.put (h : a.Among texts) {lessonId : Text} (hid : texts lessonId)
    {r : Standing} (hr : r.Among texts) : (a.put lessonId r).Among texts := by
  refine ⟨?_, h.insert hid hr, h.concepts, h.interview⟩
  intro id hlast
  exact Option.some.inj hlast ▸ hid

theorem among_bump {clock : Clock} (hclock : ∀ i, texts (clock i)) {correct : Bool}
    {stored : Dict Text Tally} {concepts : List Text}
    (h : ∀ c t, stored.get? c = some t → texts c ∧ ∀ time ∈ t.lastSeen, texts time)
    (hconcepts : ∀ concept ∈ concepts, texts concept) :
    ∀ c t, (Ledger.bump clock correct stored concepts).get? c = some t →
      texts c ∧ ∀ time ∈ t.lastSeen, texts time := by
  induction concepts generalizing clock stored with
  | nil => exact h
  | cons concept concepts ih =>
    rw [List.forall_mem_cons] at hconcepts
    apply ih (fun i => hclock (i + 1)) _ hconcepts.2
    intro c t ht
    rw [Ledger.tally, Dict.get?_insert] at ht
    by_cases hc : concept = c
    · rw [if_pos hc] at ht
      obtain rfl := Option.some.inj ht
      refine ⟨hc ▸ hconcepts.1, ?_⟩
      intro time htime
      have hnow : some (clock 0) = some time := by cases correct <;> exact htime
      exact Option.some.inj hnow ▸ hclock 0
    · rw [if_neg hc] at ht
      exact h c t ht

theorem Ledger.Among.bump (h : a.Among texts) {clock : Clock} (hclock : ∀ i, texts (clock i))
    (correct : Bool) {concepts : List Text} (hconcepts : ∀ concept ∈ concepts, texts concept) :
    { a with concepts := Ledger.bump clock correct a.concepts concepts }.Among texts :=
  ⟨h.lastLessonId, h.lessons, among_bump hclock h.concepts hconcepts, h.interview⟩

theorem among_addId {id : Text} {ids : List Text} (hid : texts id) (h : ∀ x ∈ ids, texts x) :
    ∀ x ∈ addId id ids, texts x := by
  rw [addId]
  split_ifs
  · exact h
  · exact List.forall_mem_append.mpr ⟨h, List.forall_mem_singleton.mpr hid⟩

theorem among_start (hfixed : ∀ s ∈ statuses, texts s) {r : Standing}
    (h : r.Among texts) {time : Text} (htime : texts time) (total : Nat) :
    (r.start time total).Among texts := by
  have hprogress : texts inProgress := hfixed _ (by simp [statuses])
  have hnow : ∀ t ∈ some time, texts t := fun t ht => Option.some.inj ht ▸ htime
  rw [Standing.start]
  split_ifs
  · exact ⟨hprogress, h.stepsDone, h.validations, h.quizCorrect, h.explainDone, hnow, h.completedAt⟩
  · exact ⟨h.status, h.stepsDone, h.validations, h.quizCorrect, h.explainDone, hnow, h.completedAt⟩
  · exact ⟨hprogress, h.stepsDone, h.validations, h.quizCorrect, h.explainDone, h.startedAt,
      h.completedAt⟩
  · exact ⟨h.status, h.stepsDone, h.validations, h.quizCorrect, h.explainDone, h.startedAt,
      h.completedAt⟩

theorem among_validate (hfixed : ∀ s ∈ statuses, texts s) {r : Standing}
    (h : r.Among texts) {time blockId : Text} (htime : texts time) (hblock : texts blockId)
    (ok mandatory historical : Bool) :
    (r.validate time blockId ok mandatory historical).Among texts := by
  have hvalidations : ∀ id outcome, (r.validations.insert blockId (ok, time)).get? id =
      some outcome → texts id ∧ texts outcome.2 := by
    intro id outcome hget
    rw [Dict.get?_insert] at hget
    by_cases hid : blockId = id
    · rw [if_pos hid] at hget
      obtain rfl := Option.some.inj hget
      exact ⟨hid ▸ hblock, htime⟩
    · rw [if_neg hid] at hget
      exact h.validations id outcome hget
  rw [Standing.validate]
  dsimp only
  split_ifs
  · exact h
  · exact ⟨hfixed _ (by simp [statuses]), h.stepsDone, hvalidations, h.quizCorrect, h.explainDone,
      h.startedAt, fun t ht => by cases ht⟩
  · exact ⟨h.status, h.stepsDone, hvalidations, h.quizCorrect, h.explainDone, h.startedAt,
      h.completedAt⟩

/-- A call brings in no other strings than its own, the times and the statuses. -/
theorem apply_among (hfixed : ∀ s ∈ statuses, texts s)
    (h : a.Among texts) {clock : Clock} (hclock : ∀ i, texts (clock i)) (done : Bool)
    {call : Call F} (hcall : call.Among texts) : (a.apply clock done call).Among texts := by
  have hnow : ∀ t ∈ some (clock 0), texts t := fun t ht => Option.some.inj ht ▸ hclock 0
  cases call with
  | markStarted lessonId => exact h.put hcall (among_start hfixed (h.lesson hfixed _) (hclock 0) _)
  | recordStep lessonId blockId =>
    have hr := h.lesson hfixed lessonId
    exact h.put hcall.1 ⟨hr.status, among_addId hcall.2 hr.stepsDone, hr.validations,
      hr.quizCorrect, hr.explainDone, hr.startedAt, hr.completedAt⟩
  | recordValidation lessonId blockId passed mandatory concepts historical =>
    obtain ⟨hlesson, hblock, hconcepts⟩ := hcall
    have hr := among_validate hfixed (h.lesson hfixed lessonId) (hclock 0) hblock passed mandatory
      historical
    show (Ledger.recordValidation ..).Among texts
    rw [Ledger.recordValidation]
    -- a repeated historical pass, an answer with concepts, one without
    split_ifs
    · exact h.put hlesson hr
    · exact (h.bump (fun i => hclock (i + 1)) passed hconcepts).put hlesson hr
    · exact h.put hlesson hr
  | recordQuiz lessonId blockId correct concepts =>
    obtain ⟨hlesson, hblock, hconcepts⟩ := hcall
    have hr := h.lesson hfixed lessonId
    have hquiz : ∀ x ∈ ((a.lesson lessonId).quiz blockId correct).quizCorrect, texts x := by
      rw [Standing.quiz]
      dsimp only
      split_ifs
      · exact among_addId hblock hr.quizCorrect
      · exact hr.quizCorrect
    exact (h.bump hclock correct hconcepts).put hlesson ⟨hr.status, hr.stepsDone, hr.validations,
      hquiz, hr.explainDone, hr.startedAt, hr.completedAt⟩
  | recordExplain lessonId blockId passed concepts =>
    obtain ⟨hlesson, hblock, hconcepts⟩ := hcall
    have hr := h.lesson hfixed lessonId
    have hexplain : ∀ x ∈ ((a.lesson lessonId).explain blockId passed).explainDone, texts x := by
      rw [Standing.explain]
      dsimp only
      split_ifs
      · exact among_addId hblock hr.explainDone
      · exact hr.explainDone
    exact (h.bump hclock passed hconcepts).put hlesson ⟨hr.status, hr.stepsDone, hr.validations,
      hr.quizCorrect, hexplain, hr.startedAt, hr.completedAt⟩
  | recordHint lessonId index =>
    have hr := h.lesson hfixed lessonId
    have hhint : ((a.lesson lessonId).hint index).Among texts := ⟨hr.status, hr.stepsDone,
      hr.validations, hr.quizCorrect, hr.explainDone, hr.startedAt, hr.completedAt⟩
    exact ⟨h.lastLessonId, h.insert hcall hhint, h.concepts, h.interview⟩
  | recordInterview questionId correct concepts =>
    refine ⟨h.lastLessonId, h.lessons, (h.bump hclock correct hcall.2).concepts, ?_⟩
    intro id entry hget
    show texts id
    rw [Ledger.apply, Ledger.recordInterview] at hget
    dsimp only at hget
    rw [Dict.get?_insert] at hget
    by_cases hid : questionId = id
    · exact hid ▸ hcall.1
    · rw [if_neg hid] at hget
      exact h.interview id entry hget
  | markComplete lesson c =>
    cases done with
    | false => exact h
    | true =>
      have hr := h.lesson hfixed lesson.id
      have hcertify : ((a.lesson lesson.id).certify (clock 0)).Among texts :=
        ⟨hfixed _ (by simp [statuses, Standing.certify]), hr.stepsDone, hr.validations, hr.quizCorrect,
          hr.explainDone, hr.startedAt, hnow⟩
      exact ⟨h.lastLessonId, h.insert hcall hcertify, h.concepts, h.interview⟩
  | _ => exact h

end Texts

end Learning
