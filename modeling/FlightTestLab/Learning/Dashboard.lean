import FlightTestLab.Learning.Pages
import FlightTestLab.Learning.Sessions

/-!
# What the dashboard and the roadmap show

The numbers of the dashboard and the locks of the roadmap, against the completion relation and
against what a request to complete a lesson comes to.

## Main definitions

- `Learning.Handler.Agrees`: a lesson of the roadmap and the answer to completing it

## Main results

- `Learning.Handler.roadmap_agrees`: every lesson of the roadmap is shown as it is
- `Learning.Handler.dashboard_adds_up`: the numbers of the days add up to those of the program
-/

namespace Learning

open Hoare (Prog)
open Json (Text ascii)
open Python (Value Error FloatOps)
open Prerequisites (scan visit)

variable {F : Type}

section Verdict

variable {fl : FloatOps F} {s s' : State F} {c : Curriculum F}

variable (fl) in
/-- The missing list of a started lesson is empty when its gates hold and its prerequisites are
complete, and it names one of them when they are not. -/
theorem lessonCompletion_iff (hc : c.Sound) (hs : s.Templated) {lesson : Lesson F}
    (hl : Assoc.get? lesson.id c.lessons = some lesson) (ha : lesson.status = .available)
    {record : LessonRecord F} (hr : s.lessons.get? lesson.id = some record) :
    ∃ missing, lessonCompletion fl s lesson (some c) = .ok (missing.isEmpty, missing) ∧
      (missing = [] ↔
        GatesHold fl lesson record ∧ ∀ p ∈ lesson.prerequisites, Completed fl s c p) ∧
      ((∃ p, .prerequisite p ∈ missing) ↔ ¬ ∀ p ∈ lesson.prerequisites, Completed fl s c p) := by
  have hscan : (scan (visit (system fl s c) (recursionLimit (some c))) [lesson.id]
      lesson.prerequisites).isSome := Prerequisites.scan_visit_isSome
    (fun hseen q => Prerequisites.visit_isSome (known_mem fl) hseen q)
    (remaining_lt_limit [lesson.id]) _
  obtain ⟨bs, hscan⟩ := Option.isSome_iff_exists.mp hscan
  obtain ⟨gates, hgates, hnot, heq⟩ := completionWith_eq fl hs (lessonIsComplete_eq fl hc.ids hs _)
    ha hr [] hscan
  have hall : prerequisiteEntries lesson.prerequisites bs = [] ↔
      ∀ p ∈ lesson.prerequisites, Completed fl s c p := by
    rw [prerequisiteEntries_eq_nil_iff (Prerequisites.scan_length hscan),
      Prerequisites.scan_iff_complete (wellFounded_prereqs fl hc) hscan
        fun p hp => not_path_self hc hl hp]
    exact forall₂_congr fun p hp => (completed_iff fl hc p (hc.earlier_get? hl hp).1).symm
  refine ⟨_, by rw [lessonCompletion, heq, Except.ok_bind]; rfl, ?_, ?_⟩
  · rw [List.append_eq_nil_iff, hall, hgates, and_comm]
  · rw [← hall]
    constructor
    · rintro ⟨p, hp⟩
      exact List.ne_nil_of_mem ((List.mem_append.mp hp).resolve_right (hnot p))
    · intro hne
      obtain ⟨entry, hentry⟩ := List.exists_mem_of_ne_nil _ hne
      obtain ⟨⟨p, b⟩, -, rfl⟩ := List.mem_map.mp hentry
      exact ⟨p, List.mem_append_left _ hentry⟩

/-- To write the record of a lesson as complete, with the gates that hold, leaves the complete
lessons complete. -/
theorem Completed.put {lessonId : Text} {record record' : LessonRecord F}
    (hr : s.lessons.get? lessonId = some record) (hstatus : record'.status = .val complete)
    (hgates : ∀ lesson, GatesHold fl lesson record → GatesHold fl lesson record')
    (hs' : s'.lessons = s.lessons.insert lessonId record') {id : Text}
    (h : Completed fl s c id) : Completed fl s' c id := by
  induction h with
  | intro id lesson stored listed started status available gates below ih =>
    by_cases hid : id = lessonId
    · rw [hid, hr, Option.some.injEq] at started
      rw [← started] at gates
      refine .intro id lesson record' listed ?_ hstatus available (hgates lesson gates) ih
      rw [hs', hid, Dict.get?_insert_self]
    · refine .intro id lesson stored listed ?_ status available gates ih
      rw [hs', Dict.get?_insert_of_ne _ hid, started]

/-- The gates of a lesson read fields that a complete record already has. -/
theorem GatesHold.certify {record : LessonRecord F} (hrecord : record.Templated)
    {lesson : Lesson F} (h : GatesHold fl lesson record) (time : Text) :
    GatesHold fl lesson { record.filled with
      status := .val complete, completedAt := .val (.str time) } := by
  obtain ⟨validations, hvalidations⟩ := hrecord.validations
  obtain ⟨quizzes, hquizzes⟩ := hrecord.quizCorrect
  obtain ⟨explains, hexplains⟩ := hrecord.explainDone
  refine ⟨?_, ?_, ?_⟩
  · rw [show record.filled.validations = record.validations by
      rw [LessonRecord.filled, hvalidations, Field.fill_val]]
    exact h.validators
  · rw [show record.filled.quizCorrect = record.quizCorrect by
      rw [LessonRecord.filled, hquizzes, Field.fill_val]]
    exact h.quizzes
  · rw [show record.filled.explainDone = record.explainDone by
      rw [LessonRecord.filled, hexplains, Field.fill_val]]
    exact h.explains

/-- What an attempt to complete a lesson comes to. -/
structure Verdict (fl : FloatOps F) (s : State F) (c : Curriculum F) (lesson : Lesson F)
    (answer : Bool × List Missing) (written : Option (State F)) : Prop where
  completes : answer.1 = true ↔ lesson.status = .available ∧
    (∃ record, s.lessons.get? lesson.id = some record ∧ GatesHold fl lesson record) ∧
      ∀ p ∈ lesson.prerequisites, Completed fl s c p
  /-- Of a started lesson an incomplete prerequisite is named. -/
  named : lesson.status = .available → (s.lessons.get? lesson.id).isSome →
    ((∃ p, .prerequisite p ∈ answer.2) ↔ ¬ ∀ p ∈ lesson.prerequisites, Completed fl s c p)
  writes : written.isSome = answer.1
  keeps : ∀ s', written = some s' → Completed fl s' c lesson.id ∧
    ∀ id, Completed fl s c id → Completed fl s' c id

variable (fl) in
theorem markComplete_verdict (hc : c.Sound) (hs : s.Templated) {lesson : Lesson F}
    (hl : Assoc.get? lesson.id c.lessons = some lesson) (clock : Clock) :
    ∃ answer written, markComplete fl clock s lesson (some c) = .ok (answer, written) ∧
      Verdict fl s c lesson answer written := by
  by_cases ha : lesson.status = .available
  · cases hr : s.lessons.get? lesson.id with
    | none =>
      refine ⟨(false, [.notStarted]), none, ?_, ?_⟩
      · rw [markComplete, lessonCompletion, completionWith, if_neg (by simp [ha]), hr]
        rfl
      · refine ⟨?_, ?_, rfl, by simp⟩
        · simp [hr]
        · simp [hr]
    | some record =>
      obtain ⟨missing, hcompletion, hnil, hnamed⟩ := lessonCompletion_iff fl hc hs hl ha hr
      rw [markComplete, hcompletion, Except.ok_bind]
      cases missing with
      | nil =>
        obtain ⟨hgates, hbelow⟩ := hnil.mp rfl
        refine ⟨_, _, rfl, ?_, fun _ _ => hnamed, rfl, ?_⟩
        · exact iff_of_true rfl ⟨ha, ⟨record, hr, hgates⟩, hbelow⟩
        · rintro s' hs'
          obtain rfl := Option.some.inj hs'
          have hrecord : lessonRecord s lesson.id = record.filled := by
            rw [lessonRecord, hr, Option.getD_some]
          have hcertify (other : Lesson F) (h : GatesHold fl other record) :=
            h.certify (hs _ _ hr) (clock 0)
          rw [← hrecord] at hcertify
          refine ⟨?_, fun id h => h.put hr rfl hcertify rfl⟩
          exact .intro lesson.id lesson _ hl (Dict.get?_insert_self _ _ _) rfl ha
            (hcertify lesson hgates) fun p hp => (hbelow p hp).put hr rfl hcertify rfl
      | cons entry rest =>
        refine ⟨(false, entry :: rest), none, rfl, ?_, fun _ _ => hnamed, rfl, by simp⟩
        refine iff_of_false Bool.false_ne_true ?_
        rintro ⟨-, ⟨record', hr', hgates⟩, hbelow⟩
        rw [hr, Option.some.injEq] at hr'
        rw [← hr'] at hgates
        exact absurd (hnil.mpr ⟨hgates, hbelow⟩) (List.cons_ne_nil _ _)
  · refine ⟨(false, [.unavailable]), none, ?_, ?_⟩
    · rw [markComplete, lessonCompletion, completionWith, if_pos]
      · rfl
      · cases hst : lesson.status with
        | available => exact absurd hst ha
        | unavailable => rfl
    · refine ⟨?_, fun h => absurd h ha, rfl, by simp⟩
      simp [ha]

/-- A lesson is done in the map when it is completed. -/
theorem isDone_iff (hc : c.Sound) (hs : s.Templated) {completed : List (Text × Bool)}
    (hmap : completionMap fl s c = .ok completed) {id : Text} (hid : id ∈ c.orderedLessonIds) :
    Handler.isDone completed id = true ↔ Completed fl s c id := by
  obtain ⟨answer, hmap', hvisit⟩ := completionMap_eq fl hc hs
  rw [hmap, Except.ok.injEq] at hmap'
  subst hmap'
  obtain ⟨seen', hv⟩ := hvisit id
  have hget : Assoc.get? id (c.orderedLessonIds.map fun id => (id, answer id)) =
      some (answer id) := by
    apply Assoc.get?_of_mem
    · rw [List.map_map]
      show (c.orderedLessonIds.map fun x => x).Nodup
      rw [List.map_id', hc.ordered]
      exact hc.distinct
    · exact List.mem_map_of_mem hid
  rw [Handler.isDone, hget, completed_iff fl hc id hid]
  exact Prerequisites.visit_nil_iff_complete (wellFounded_prereqs fl hc) hv

end Verdict

namespace Handler

variable {S : Sources F} {c : Curriculum F}

section Roadmap

/-- A lesson of the roadmap is shown as what the store says of it, and its lock is what an attempt
to complete the lesson runs into. -/
structure Agrees (fl : FloatOps F) (s : State F) (c : Curriculum F) (entry : RoadmapEntry F) :
    Prop where
  listed : Assoc.get? entry.lesson.id c.lessons = some entry.lesson
  shown : entry.progress = .str complete ↔ Completed fl s c entry.lesson.id
  completes : ∀ clock, ∃ answer written,
    markComplete fl clock s entry.lesson (some c) = .ok (answer, written) ∧
      (answer.1 = true ↔ entry.lesson.status = .available ∧ entry.locked = false ∧
        ∃ record, s.lessons.get? entry.lesson.id = some record ∧
          GatesHold fl entry.lesson record) ∧
      (entry.lesson.status = .available → (s.lessons.get? entry.lesson.id).isSome →
        (entry.locked = true ↔ ∃ p, .prerequisite p ∈ answer.2)) ∧
      ∀ s', written = some s' → Completed fl s' c entry.lesson.id ∧
        ∀ id, Completed fl s c id → Completed fl s' c id

variable {fl : FloatOps F} {s : State F} {completed : List (Text × Bool)}

theorem shownStatus_none (done : Bool) :
    shownStatus (none : Option (LessonRecord F)) done = .str notStarted := by
  cases done <;> rfl

/-- A record is shown as complete when it is stored so and the map has it done. -/
theorem shownStatus_complete {record : LessonRecord F} {status : Text}
    (hstatus : record.status = .val status) (done : Bool) :
    shownStatus (some record) done = .str complete ↔ done = true ∧ status = complete := by
  have hother : (Value.str inProgress : Value F) ≠ .str complete := by
    rw [ne_eq, Value.str.injEq]
    decide
  rw [shownStatus, Option.map_some, Option.getD_some, hstatus]
  cases done with
  | true => simp [fieldValue]
  | false =>
    by_cases hcomplete : status = complete
    · simpa [Field.is, hcomplete] using hother
    · simp [Field.is, fieldValue, hcomplete]

/-- A prerequisite is in front of the lessons that ask for it. -/
theorem locked_iff (hc : c.Sound) (hs : s.Templated)
    (hmap : completionMap fl s c = .ok completed) {lesson : Lesson F}
    (hl : Assoc.get? lesson.id c.lessons = some lesson) :
    lesson.prerequisites.all (isDone completed) = true ↔
      ∀ p ∈ lesson.prerequisites, Completed fl s c p := by
  rw [List.all_eq_true]
  exact forall₂_congr fun p hp => isDone_iff hc hs hmap (hc.earlier_get? hl hp).1

theorem roadmapEntry_agrees (hc : c.Sound) (hs : s.Templated)
    (hmap : completionMap fl s c = .ok completed) {id : Text} (hid : id ∈ c.orderedLessonIds)
    {entry : RoadmapEntry F} (h : roadmapEntry c s completed id = .ok entry) :
    entry.lesson.id = id ∧ Agrees fl s c entry := by
  obtain ⟨lesson, hl⟩ := (hc.mem_ordered_iff id).mp hid
  rw [roadmapEntry, lessonAt_ok hl, Except.ok_bind] at h
  obtain rfl := Except.ok.inj h
  obtain rfl : lesson.id = id := hc.ids _ (Assoc.mem_of_get? hl)
  have hlock := locked_iff hc hs hmap hl
  refine ⟨rfl, hl, ?_, fun clock => ?_⟩
  · show shownStatus (s.lessons.get? lesson.id) (isDone completed lesson.id) = _ ↔ _
    have hdone := isDone_iff hc hs hmap hid
    cases hr : s.lessons.get? lesson.id with
    | none =>
      refine iff_of_false ?_ ?_
      · rw [shownStatus_none, Value.str.injEq]
        decide
      · rintro ⟨_, _, _, _, started, _⟩
        rw [hr] at started
        cases started
    | some record =>
      obtain ⟨status, hstatus⟩ := (hs _ _ hr).status
      rw [shownStatus_complete hstatus, hdone, and_iff_left_iff_imp]
      rintro ⟨_, _, stored, _, started, hcomplete, _⟩
      rw [hr, Option.some.injEq] at started
      rw [← started, hstatus] at hcomplete
      exact Field.val.inj hcomplete
  · obtain ⟨answer, written, hmark, hverdict⟩ := markComplete_verdict fl hc hs hl clock
    refine ⟨answer, written, hmark, ?_, ?_, hverdict.keeps⟩
    · rw [hverdict.completes, ← hlock]
      refine and_congr_right fun ha => ?_
      show _ ↔ (decide (lesson.status = .available) && !_) = false ∧ _
      rw [decide_eq_true ha, Bool.true_and, Bool.not_eq_false', and_comm]
    · intro ha hstarted
      show (decide (lesson.status = .available) && !_) = true ↔ _
      rw [hverdict.named ha hstarted, ← hlock, decide_eq_true ha, Bool.true_and, Bool.not_eq_true',
        Bool.not_eq_true]

/-- The lessons of the roadmap are those of the program, each shown as it is. -/
theorem roadmap_shown (hload : loadCurriculum S = .ok c) (hs : s.Templated)
    (hmap : completionMap fl s c = .ok completed) {days : List (Day F × List (RoadmapEntry F))}
    (h : roadmap c s completed = .ok days) :
    (days.flatMap fun day => day.2.map (·.lesson.id)) = c.orderedLessonIds ∧
      ∀ day ∈ days, ∀ entry ∈ day.2, Agrees fl s c entry := by
  have hc := loadCurriculum_sound hload
  have hday : ∀ day ∈ c.days, ∀ shown, (do
      let entries ← day.lessonIds.mapM (roadmapEntry c s completed)
      pure (day, entries)) = .ok shown →
      shown.2.map (·.lesson.id) = day.lessonIds ∧ ∀ entry ∈ shown.2, Agrees fl s c entry := by
    intro day hday shown h
    obtain ⟨entries, hentries, hpure⟩ := Except.bind_eq_ok.mp h
    cases hpure
    have hspec := Except.mapM_spec (fun id => id) (·.lesson.id) hentries fun id hid entry hentry =>
      roadmapEntry_agrees hc hs hmap ((hc.mem_ordered_iff id).mpr
        (Option.isSome_iff_exists.mp (get?_of_day hload hday hid))) hentry
    rwa [List.map_id'] at hspec
  obtain ⟨hids, hagrees⟩ := Except.mapM_spec Day.lessonIds _ h hday
  refine ⟨?_, hagrees⟩
  rw [List.flatMap_def, hids, ← List.flatMap_def, loadCurriculum_days hload]

/-- The roadmap is answered with every lesson of the program. Each is shown as complete when it is,
and is locked when an attempt to complete it would be told to complete a prerequisite first; an
attempt on an unlocked lesson fails by its own gates only. -/
theorem roadmap_agrees (P : Platform F) (site : Site F) (hload : loadCurriculum S = .ok c)
    (hs : s.Templated) (stream : Stream) (sent : List (Response F)) :
    ∃ days, doGet P site c (ascii "/api/curriculum") ⟨s, stream, sent⟩ =
        (.ok none, ⟨s, stream, sent ++ [⟨200, roadmapValue P c days⟩]⟩) ∧
      (days.flatMap fun day => day.2.map (·.lesson.id)) = c.orderedLessonIds ∧
      ∀ day ∈ days, ∀ entry ∈ day.2, Agrees P.floats s c entry := by
  obtain ⟨answer, hmap, -⟩ := completionMap_eq P.floats (loadCurriculum_sound hload) hs
  obtain ⟨days, hdays⟩ := roadmap_ok hload s (c.orderedLessonIds.map fun id => (id, answer id))
  refine ⟨days, ?_, roadmap_shown hload hs hmap hdays⟩
  have hsent : handleCurriculum P c ⟨s, stream, sent⟩ =
      (.ok (), ⟨s, stream, sent ++ [⟨200, roadmapValue P c days⟩]⟩) := by
    rw [handleCurriculum, Prog.bind_of_ok (query_of_ok rfl), Prog.bind_of_ok (query_of_ok hmap),
      attempt_bind hdays]
    rfl
  rw [doGet_plain (by decide), routeGet, if_neg (by decide),
    if_neg (by decide), if_pos rfl, json_of_ok hsent]

theorem roadmap_agrees_sample : ∃ days,
    doGet samplePlatform sampleSite sampleCurriculum (ascii "/api/curriculum")
        ⟨sampleState, sampleStream, []⟩ =
      (.ok none, ⟨sampleState, sampleStream,
        [] ++ [⟨200, roadmapValue samplePlatform sampleCurriculum days⟩]⟩) ∧
      (days.flatMap fun day => day.2.map (·.lesson.id)) = sampleCurriculum.orderedLessonIds ∧
      ∀ day ∈ days, ∀ entry ∈ day.2, Agrees .tokens sampleState sampleCurriculum entry :=
  roadmap_agrees samplePlatform sampleSite sampleCurriculum_loaded sampleState_templated
    sampleStream []

end Roadmap

section Totals

variable {fl : FloatOps F} {s : State F} {completed : List (Text × Bool)}

theorem isAvailable_of_completed {id : Text} (h : Completed fl s c id) : isAvailable c id = true := by
  obtain ⟨_, lesson, _, listed, _, _, available, _, _⟩ := h
  simp [isAvailable, listed, available]

/-- The available lessons of the days are those of the program. -/
theorem total_sum (hload : loadCurriculum S = .ok c) :
    (c.days.map fun day => (day.lessonIds.filter (isAvailable c)).length).sum =
      c.lessons.countP fun entry => entry.2.status = .available := by
  have hc := loadCurriculum_sound hload
  have havailable : ∀ entry ∈ c.lessons,
      ((isAvailable c ∘ Prod.fst) entry = true ↔ decide (entry.2.status = .available) = true) := by
    intro entry hentry
    rw [Function.comp_apply, isAvailable, Assoc.get?_of_mem hc.distinct hentry, Option.any_some]
  calc (c.days.map fun day => (day.lessonIds.filter (isAvailable c)).length).sum
      = (c.days.map fun day => day.lessonIds.countP (isAvailable c)).sum := by
        simp only [List.countP_eq_length_filter]
    _ = (c.days.flatMap Day.lessonIds).countP (isAvailable c) := List.countP_flatMap.symm
    _ = (c.lessons.map Prod.fst).countP (isAvailable c) := by
        rw [loadCurriculum_days hload, hc.ordered]
    _ = c.lessons.countP fun entry => entry.2.status = .available := by
        rw [List.countP_map, List.countP_congr havailable]

theorem done_sum (hload : loadCurriculum S = .ok c) (completed : List (Text × Bool)) :
    (c.days.map fun day => (day.lessonIds.filter (isAvailable c)).countP (isDone completed)).sum =
      (c.orderedLessonIds.filter (isAvailable c)).countP (isDone completed) := by
  simp only [List.countP_filter]
  rw [← loadCurriculum_days hload]
  exact List.countP_flatMap.symm

open Classical in
/-- The completed lessons are counted by the completion relation. -/
theorem done_count (hc : c.Sound) (hs : s.Templated) (hmap : completionMap fl s c = .ok completed) :
    (c.orderedLessonIds.filter (isAvailable c)).countP (isDone completed) =
      c.orderedLessonIds.countP fun id => Completed fl s c id := by
  rw [List.countP_filter]
  refine List.countP_congr fun id hid => ?_
  rw [Bool.and_eq_true, isDone_iff hc hs hmap hid, decide_eq_true_iff]
  exact and_iff_left_of_imp isAvailable_of_completed

open Classical in
theorem dashboard_sums (hload : loadCurriculum S = .ok c) (hs : s.Templated)
    (hmap : completionMap fl s c = .ok completed) (resume : Text)
    (mastery : List (Text × Mastery)) :
    ∃ page, dashboard c resume completed mastery = .ok page ∧ page.days.map (·.day) = c.days ∧
      (page.days.map (·.total)).sum = page.totalLessons ∧
      (page.days.map (·.done)).sum = page.completedLessons ∧
      (∀ day ∈ page.days, day.done ≤ day.total) ∧
      page.completedLessons = c.orderedLessonIds.countP (fun id => Completed fl s c id) := by
  refine ⟨_, dashboard_eq hload resume completed mastery, ?_, ?_, ?_, ?_,
    done_count (loadCurriculum_sound hload) hs hmap⟩
  · rw [List.map_map]
    exact List.map_id' _
  · rw [List.map_map]
    exact total_sum hload
  · rw [List.map_map]
    exact done_sum hload completed
  · rw [List.forall_mem_map]
    exact fun day _ => List.countP_le_length

open Classical in
/-- The dashboard is answered with numbers that add up: the days have the available lessons and
the completed ones between them, and completed are those that the completion relation has. -/
theorem dashboard_adds_up (P : Platform F) (site : Site F) (hload : loadCurriculum S = .ok c)
    (hs : s.Full) (stream : Stream) (sent : List (Response F)) :
    ∃ page : Dashboard F, doGet P site c (ascii "/api/state") ⟨s, stream, sent⟩ =
        (.ok none, ⟨s, stream, sent ++ [⟨200, page.toValue P site⟩]⟩) ∧
      page.days.map (·.day) = c.days ∧
      (page.days.map (·.total)).sum = page.totalLessons ∧
      (page.days.map (·.done)).sum = page.completedLessons ∧
      (∀ day ∈ page.days, day.done ≤ day.total) ∧
      page.completedLessons = c.orderedLessonIds.countP (fun id => Completed P.floats s c id) := by
  have hc := loadCurriculum_sound hload
  obtain ⟨answer, hmap, -⟩ := completionMap_eq P.floats hc hs.lessons
  obtain ⟨resume, hresume⟩ := reads_ok P.floats hc (hs.usable c)
    (show (Call.resumeLessonId c).Within c from rfl) fun _ => rfl
  obtain ⟨mastery, hmastery⟩ := reads_ok P.floats hc (hs.usable c)
    (show (Call.conceptMastery c.concepts).Within c from List.Subset.refl _) fun _ => rfl
  obtain ⟨page, hpage, hsums⟩ := dashboard_sums hload hs.lessons hmap resume mastery
  have hsent : handleState P site c ⟨s, stream, sent⟩ =
      (.ok (), ⟨s, stream, sent ++ [⟨200, page.toValue P site⟩]⟩) := by
    rw [handleState, Prog.bind_of_ok (query_of_ok hresume), Prog.bind_of_ok (query_of_ok hmap),
      Prog.bind_of_ok (query_of_ok hmastery), attempt_bind hpage]
    rfl
  refine ⟨page, ?_, hsums⟩
  rw [doGet_plain (by decide), routeGet, if_neg (by decide), if_pos rfl,
    json_of_ok hsent]

open Classical in
theorem dashboard_adds_up_sample :
    let s := session samplePlatform course .initial courseSession
    ∃ page : Dashboard Text,
      doGet samplePlatform sampleSite course (ascii "/api/state") ⟨s, sampleStream, []⟩ =
        (.ok none, ⟨s, sampleStream, [] ++ [⟨200, page.toValue samplePlatform sampleSite⟩]⟩) ∧
      page.days.map (·.day) = course.days ∧
      (page.days.map (·.total)).sum = page.totalLessons ∧
      (page.days.map (·.done)).sum = page.completedLessons ∧
      (∀ day ∈ page.days, day.done ≤ day.total) ∧
      page.completedLessons = course.orderedLessonIds.countP
        (fun id => Completed .tokens s course id) :=
  dashboard_adds_up samplePlatform sampleSite course_loaded courseSession_full sampleStream []

end Totals

end Handler

end Learning
