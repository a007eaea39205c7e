import FlightTestLab.Learning.Completion
import FlightTestLab.Learning.Loading
import FlightTestLab.Library.Prerequisites

/-!
# The completion map decides completion

The walk of the store over the prerequisites is the evaluation of a prerequisite
graph whose marks are the stored statuses and whose checks are the lessons' own
gates.

## Main definitions

- `Learning.LessonRecord.Templated`: a record with the fields of the template
- `Learning.Completed`: a lesson complete all the way up its prerequisites
- `Learning.system`: the prerequisite graph of a curriculum and a state

## Main results

- `Learning.lessonIsComplete_eq`: the walk is the evaluation of that graph
- `Learning.completionMap_iff`: the map decides completion, and the walk ends on any graph
- `Learning.missing_agrees_iff`: when the missing list agrees with the map
-/

namespace Learning

open Json (Text ascii)
open Prerequisites (System Good visit scan before)
open Python (Value Error FloatOps)

variable {F : Type}

section Templated

/-- A record with all fields of the template, each with a value of its type. -/
structure LessonRecord.Templated (r : LessonRecord F) : Prop where
  status : ∃ a, r.status = .val a
  stepsDone : ∃ a, r.stepsDone = .val a
  validations : ∃ a, r.validations = .val a
  quizCorrect : ∃ a, r.quizCorrect = .val a
  quizAttempts : ∃ a, r.quizAttempts = .val a
  explainDone : ∃ a, r.explainDone = .val a
  attempts : ∃ a, r.attempts = .val a
  hintsUsed : ∃ a, r.hintsUsed = .val a
  interviewBaseline : ∃ a, r.interviewBaseline = .val a

/-- Every lesson record of a state has the fields of the template. -/
def State.Templated (s : State F) : Prop :=
  ∀ lessonId record, s.lessons.get? lessonId = some record → record.Templated

end Templated

section Gates

/-- A lesson's own gates hold in a record. -/
structure GatesHold (fl : FloatOps F) (lesson : Lesson F) (r : LessonRecord F) : Prop where
  validators : ∃ outcomes, r.validations = .val outcomes ∧
    ∀ block ∈ lesson.mandatoryValidators fl, hasPassed outcomes (blockId block) = true
  quizzes : ∃ ids, r.quizCorrect = .val ids ∧ ∀ id ∈ lesson.requiredQuizIds, id ∈ ids
  explains : ∃ ids, r.explainDone = .val ids ∧ ∀ id ∈ lesson.requiredExplainIds, id ∈ ids

theorem missingValidations_val (outcomes : Dict Text Outcome) (blocks : List (Items F)) :
    missingValidations (.val outcomes) blocks =
      .ok ((blocks.filter fun block => !hasPassed outcomes (blockId block)).map fun block =>
        .validation (blockId block)) := by
  induction blocks with
  | nil => rfl
  | cons block blocks ih =>
    rw [missingValidations, Field.use_val, ih, Except.ok_bind, Except.ok_bind]
    by_cases hp : hasPassed outcomes (blockId block) = true
    · rw [if_pos hp, List.filter_cons_of_neg (by simp [hp])]
      rfl
    · rw [if_neg hp, List.filter_cons_of_pos (by simpa using hp)]
      rfl

theorem missingIds_val (done : List Text) (entry : Text → Missing) (ids : List Text) :
    missingIds (.val done) entry ids =
      .ok ((ids.filter fun id => !done.contains id).map entry) := by
  induction ids with
  | nil => rfl
  | cons id ids ih =>
    rw [missingIds, Field.use_val, ih, Except.ok_bind, Except.ok_bind]
    by_cases hc : done.contains id = true
    · rw [if_pos hc, List.filter_cons_of_neg (by simpa using hc)]
      rfl
    · rw [if_neg hc, List.filter_cons_of_pos (by simpa using hc)]
      rfl

/-- Nothing is missing of the gates exactly when they hold; none of them is a prerequisite. -/
theorem missingGates_templated (fl : FloatOps F) (lesson : Lesson F) {r : LessonRecord F}
    (hr : r.Templated) :
    ∃ missing, missingGates fl lesson r = .ok missing ∧
      (missing = [] ↔ GatesHold fl lesson r) ∧ ∀ p, Missing.prerequisite p ∉ missing := by
  obtain ⟨outcomes, hv⟩ := hr.validations
  obtain ⟨quizzes, hq⟩ := hr.quizCorrect
  obtain ⟨explains, he⟩ := hr.explainDone
  rw [missingGates, hv, hq, he, if_neg nofun, missingValidations_val, missingIds_val,
    missingIds_val]
  refine ⟨_, rfl, ?_, ?_⟩
  · simp only [List.append_eq_nil_iff, List.map_eq_nil_iff, List.filter_eq_nil_iff,
      Bool.not_eq_true', Bool.not_eq_false, List.contains_iff_mem]
    constructor
    · rintro ⟨⟨h1, h2⟩, h3⟩
      exact ⟨⟨outcomes, hv, h1⟩, ⟨quizzes, hq, h2⟩, ⟨explains, he, h3⟩⟩
    · rintro ⟨⟨o, ho, h1⟩, ⟨q, hq', h2⟩, ⟨e, he', h3⟩⟩
      rw [hv] at ho
      rw [hq] at hq'
      rw [he] at he'
      cases ho
      cases hq'
      cases he'
      exact ⟨⟨h1, h2⟩, h3⟩
  · intro p hmem
    simp at hmem

end Gates

section System

variable (fl : FloatOps F) (s : State F) (c : Curriculum F)

open Classical in
/-- The prerequisite graph: stored statuses as marks, availability and own gates as checks. -/
noncomputable def system : System Text where
  known id := (Assoc.get? id c.lessons).isSome
  marked id := (s.lessons.get? id).any (·.status.is complete)
  check id :=
    match Assoc.get? id c.lessons, s.lessons.get? id with
    | some lesson, some record => lesson.status = .available ∧ GatesHold fl lesson record
    | some _, none => false
    | none, _ => true
  prereqs id := ((Assoc.get? id c.lessons).map (·.prerequisites)).getD []
  check_unknown id h := by
    rw [Option.isSome_eq_false_iff, Option.isNone_iff_eq_none] at h
    rw [h]
  prereqs_unknown id h := by
    rw [Option.isSome_eq_false_iff, Option.isNone_iff_eq_none] at h
    rw [h]
    rfl

/-- The entries of the missing list for prerequisites with the given answers. -/
def prerequisiteEntries (ps : List Text) (bs : List Bool) : List Missing :=
  ((ps.zip bs).filter (!·.2)).map fun entry => .prerequisite entry.1

theorem prerequisiteEntries_eq_nil_iff {ps : List Text} {bs : List Bool}
    (h : bs.length = ps.length) : prerequisiteEntries ps bs = [] ↔ bs.all id = true := by
  rw [prerequisiteEntries, List.map_eq_nil_iff, List.filter_eq_nil_iff]
  induction ps generalizing bs with
  | nil =>
    rw [List.length_nil, List.length_eq_zero_iff] at h
    simp [h]
  | cons p ps ih =>
    cases bs with
    | nil => cases h
    | cons b bs =>
      rw [List.zip_cons_cons, List.forall_mem_cons, ih (Nat.succ.inj h), List.all_cons]
      simp

theorem mem_prerequisiteEntries {ps : List Text} {bs : List Bool} {p : Text} :
    Missing.prerequisite p ∈ prerequisiteEntries ps bs ↔ (p, false) ∈ ps.zip bs := by
  rw [prerequisiteEntries, List.mem_map]
  constructor
  · rintro ⟨⟨q, b⟩, hmem, heq⟩
    rw [List.mem_filter, Bool.not_eq_true'] at hmem
    cases heq
    obtain ⟨hmem, rfl⟩ := hmem
    exact hmem
  · intro hmem
    exact ⟨(p, false), List.mem_filter.mpr ⟨hmem, rfl⟩, rfl⟩

/-- The loop over the prerequisites is a scan of them. -/
theorem missingPrerequisites_eq {check : List Text → Text → Except Error (Bool × List Text)}
    {eval : List Text → Text → Option (Bool × List Text)}
    (h : ∀ seen p r, eval seen p = some r → check seen p = .ok r) {seen ps : List Text}
    {bs : List Bool} (hscan : scan eval seen ps = some bs) :
    missingPrerequisites check seen ps = .ok (prerequisiteEntries ps bs) := by
  induction ps generalizing seen bs with
  | nil =>
    cases hscan
    rfl
  | cons p ps ih =>
    rw [scan] at hscan
    cases he : eval seen p with
    | none =>
      rw [he] at hscan
      cases hscan
    | some r =>
      obtain ⟨b, seen'⟩ := r
      rw [he] at hscan
      dsimp only at hscan
      rw [Option.map_eq_some_iff] at hscan
      obtain ⟨bs', hbs', rfl⟩ := hscan
      rw [missingPrerequisites, h _ _ _ he, Except.ok_bind]
      dsimp only
      rw [ih hbs', Except.ok_bind]
      cases b <;> rfl

variable {s c}

/-- The lessons of a curriculum are stored under their own ids. -/
def Keyed (c : Curriculum F) : Prop := ∀ entry ∈ c.lessons, entry.2.id = entry.1

theorem Keyed.id_of_get? (hc : Keyed c) {id : Text} {lesson : Lesson F}
    (h : Assoc.get? id c.lessons = some lesson) : lesson.id = id :=
  hc (id, lesson) (Assoc.mem_of_get? h)

/-- What an available, started lesson is missing: the prerequisites that a scan answers with
false, and of its own gates. -/
theorem completionWith_eq (hs : s.Templated) {limit : Nat}
    (h : ∀ seen p r, visit (system fl s c) limit seen p = some r →
      lessonIsComplete fl s (some c) limit seen p = .ok r) {lesson : Lesson F}
    {record : LessonRecord F} (ha : lesson.status = .available)
    (hr : s.lessons.get? lesson.id = some record) (seen : List Text) {bs : List Bool}
    (hscan : scan (visit (system fl s c) limit)
      (if seen.contains lesson.id then seen else lesson.id :: seen) lesson.prerequisites = some bs) :
    ∃ gates, (gates = [] ↔ GatesHold fl lesson record) ∧ (∀ p, Missing.prerequisite p ∉ gates) ∧
      completionWith fl (lessonIsComplete fl s (some c) limit) s lesson seen =
        .ok (prerequisiteEntries lesson.prerequisites bs ++ gates) := by
  obtain ⟨gates, hgates, hnil, hnot⟩ := missingGates_templated fl lesson (hs _ _ hr)
  refine ⟨gates, hnil, hnot, ?_⟩
  rw [completionWith, if_neg (by rw [ha]; nofun), hr]
  dsimp only
  rw [missingPrerequisites_eq h hscan, hgates]
  rfl

/-- One level of the walk, at a lesson that is stored as complete. -/
theorem lesson_step (hc : Keyed c) (hs : s.Templated) {limit : Nat}
    (ih : ∀ seen p r, visit (system fl s c) limit seen p = some r →
      lessonIsComplete fl s (some c) limit seen p = .ok r) {id : Text} {lesson : Lesson F}
    {record : LessonRecord F} (hl : Assoc.get? id c.lessons = some lesson)
    (hr : s.lessons.get? id = some record) {seen : List Text} {bs : List Bool}
    (hscan : scan (visit (system fl s c) limit) (id :: seen) ((system fl s c).prereqs id) =
      some bs) :
    ∃ missing, completionWith fl (lessonIsComplete fl s (some c) limit) s lesson (id :: seen) =
      .ok missing ∧ missing.isEmpty = ((system fl s c).check id && bs.all (·)) := by
  obtain rfl := hc.id_of_get? hl
  have hp : (system fl s c).prereqs lesson.id = lesson.prerequisites := by simp [system, hl]
  rw [hp] at hscan
  by_cases ha : lesson.status = .available
  · obtain ⟨gates, hgates, -, heq⟩ :=
      completionWith_eq fl hs ih ha hr (lesson.id :: seen) (by rwa [if_pos (by simp)])
    have hnil := prerequisiteEntries_eq_nil_iff (Prerequisites.scan_length hscan)
    refine ⟨_, heq, ?_⟩
    rw [Bool.eq_iff_iff, List.isEmpty_iff, List.append_eq_nil_iff, hnil, hgates, Bool.and_eq_true]
    simp [system, hl, hr, ha, and_comm]
  · refine ⟨[.unavailable], ?_, ?_⟩
    · rw [completionWith, if_pos]
      cases hst : lesson.status with
      | available => exact absurd hst ha
      | unavailable => rfl
    · simp [system, hl, hr, ha]

/-- The walk of the store is the evaluation of the prerequisite graph. -/
theorem lessonIsComplete_eq (hc : Keyed c) (hs : s.Templated) (limit : Nat) (seen : List Text)
    (id : Text) (r : Bool × List Text) (hv : visit (system fl s c) limit seen id = some r) :
    lessonIsComplete fl s (some c) limit seen id = .ok r := by
  induction limit generalizing seen id r with
  | zero => cases hv
  | succ limit ih =>
    rw [visit] at hv
    rw [lessonIsComplete]
    cases hr : s.lessons.get? id with
    | none =>
      have hm : (system fl s c).marked id = false := by simp [system, hr]
      rw [if_pos hm] at hv
      exact congrArg Except.ok (Option.some.inj hv)
    | some record =>
      dsimp only
      by_cases hst : record.status.is complete = true
      · have hm : ¬ (system fl s c).marked id = false := by simp [system, hr, hst]
        rw [if_pos hst]
        rw [if_neg hm] at hv
        by_cases hseen : id ∈ seen
        · rw [if_pos (.inl hseen)] at hv
          rw [if_pos (List.contains_iff_mem.mpr hseen)]
          exact congrArg Except.ok (Option.some.inj hv)
        rw [if_neg fun h => hseen (List.contains_iff_mem.mp h)]
        cases hl : Assoc.get? id c.lessons with
        | none =>
          have hk : (system fl s c).known id = false := by simp [system, hl]
          rw [if_pos (.inr hk)] at hv
          exact congrArg Except.ok (Option.some.inj hv)
        | some lesson =>
          have hk : ¬ (id ∈ seen ∨ (system fl s c).known id = false) := by
            simp [system, hl, hseen]
          rw [if_neg hk, Option.map_eq_some_iff] at hv
          obtain ⟨bs, hscan, rfl⟩ := hv
          obtain ⟨missing, hmissing, hempty⟩ := lesson_step fl hc hs ih hl hr hscan
          dsimp only
          rw [hmissing, Except.ok_bind, hempty]
          rfl
      · have hm : (system fl s c).marked id = false := by simpa [system, hr] using hst
        rw [if_pos hm] at hv
        rw [if_neg hst]
        exact congrArg Except.ok (Option.some.inj hv)

end System

section Termination

/-- The recursion limit was not hit. -/
def Ends {α : Type} (x : Except Error α) : Prop := x ≠ .error .recursionError

theorem Ends.ok {α : Type} (a : α) : Ends (.ok a) := nofun

theorem Ends.bind {α β : Type} {x : Except Error α} {f : α → Except Error β} (hx : Ends x)
    (hf : ∀ a, x = .ok a → Ends (f a)) : Ends (x >>= f) := by
  cases x with
  | error e => exact fun h => hx (congrArg Except.error (Except.error.inj h))
  | ok a => exact hf a rfl

theorem Ends.use {α : Type} {e : Error} (he : e ≠ .recursionError) (f : Field α) :
    Ends (f.use e) := by
  cases f with
  | absent => exact nofun
  | null => exact fun h => he (Except.error.inj h)
  | val a => exact .ok a

theorem missingValidations_ends (validations : Field (Dict Text Outcome))
    (blocks : List (Items F)) : Ends (missingValidations validations blocks) := by
  induction blocks with
  | nil => exact .ok _
  | cons block blocks ih =>
    rw [missingValidations]
    refine (Ends.use (e := .attributeError) nofun _).bind fun _ _ => ?_
    exact ih.bind fun _ _ => .ok _

theorem missingIds_ends (done : Field (List Text)) (entry : Text → Missing) (ids : List Text) :
    Ends (missingIds done entry ids) := by
  induction ids with
  | nil => exact .ok _
  | cons id ids ih =>
    rw [missingIds]
    refine (Ends.use (e := .typeError) nofun _).bind fun _ _ => ?_
    exact ih.bind fun _ _ => .ok _

theorem missingGates_ends (fl : FloatOps F) (lesson : Lesson F) (r : LessonRecord F) :
    Ends (missingGates fl lesson r) := by
  rw [missingGates]
  split_ifs
  · exact nofun
  · refine (missingValidations_ends _ _).bind fun _ _ => ?_
    refine (missingIds_ends _ _ _).bind fun _ _ => ?_
    exact (missingIds_ends _ _ _).bind fun _ _ => .ok _

/-- The loop over the prerequisites ends when each test does and none takes a seen lesson away. -/
theorem missingPrerequisites_ends {check : List Text → Text → Except Error (Bool × List Text)}
    {seen : List Text}
    (h : ∀ seen' p, seen ⊆ seen' → Ends (check seen' p) ∧
      ∀ r, check seen' p = .ok r → seen' ⊆ r.2) (ps : List Text) {seen' : List Text}
    (hsub : seen ⊆ seen') : Ends (missingPrerequisites check seen' ps) := by
  induction ps generalizing seen' with
  | nil => exact .ok _
  | cons p ps ih =>
    obtain ⟨hends, hgrows⟩ := h seen' p hsub
    refine hends.bind fun r hr => ?_
    exact (ih (List.Subset.trans hsub (hgrows r hr))).bind fun _ _ => .ok _

theorem completionWith_ends {check : List Text → Text → Except Error (Bool × List Text)}
    {seen : List Text}
    (h : ∀ seen' p, seen ⊆ seen' → Ends (check seen' p) ∧
      ∀ r, check seen' p = .ok r → seen' ⊆ r.2) (fl : FloatOps F) (s : State F)
    (lesson : Lesson F) : Ends (completionWith fl check s lesson seen) := by
  rw [completionWith]
  by_cases ha : lesson.status = .unavailable
  · rw [if_pos ha]
    exact .ok _
  rw [if_neg ha]
  split
  · exact .ok _
  · refine Ends.bind ?_ fun _ _ => (missingGates_ends _ _ _).bind fun _ _ => .ok _
    apply missingPrerequisites_ends h
    split_ifs
    · exact List.Subset.refl _
    · exact List.subset_cons_self _ _

/-- With a level for each unseen lesson the walk ends, whatever the prerequisites and the state. -/
theorem lessonIsComplete_ends (fl : FloatOps F) (s : State F) (c : Curriculum F) {limit : Nat}
    {seen : List Text}
    (hlimit : Prerequisites.remaining (c.lessons.map Prod.fst) seen < limit) (id : Text) :
    Ends (lessonIsComplete fl s (some c) limit seen id) ∧
      ∀ r, lessonIsComplete fl s (some c) limit seen id = .ok r → seen ⊆ r.2 := by
  induction limit generalizing seen id with
  | zero => omega
  | succ limit ih =>
    rw [lessonIsComplete]
    have hread (b : Bool) : Ends (Except.ok (ε := Error) (b, seen)) ∧
        ∀ r, Except.ok (ε := Error) (b, seen) = .ok r → seen ⊆ r.2 := by
      refine ⟨.ok _, fun r hr => ?_⟩
      rw [← Except.ok.inj hr]
      exact List.Subset.refl _
    split
    · exact hread false
    · next record hr =>
      split_ifs with hst hseen
      · exact hread true
      · split
        · exact hread true
        · next lesson hl =>
          have hmem : id ∈ c.lessons.map Prod.fst :=
            List.mem_map_of_mem (Assoc.mem_of_get? hl)
          have hlt := Prerequisites.remaining_cons_lt hmem fun h => hseen (List.contains_iff_mem.mpr h)
          refine ⟨Ends.bind ?_ fun _ _ => .ok _, ?_⟩
          · apply completionWith_ends
            intro seen' p hseen'
            apply ih
            exact Nat.lt_of_le_of_lt (Prerequisites.remaining_le hseen') (by omega)
          · intro r hr
            obtain ⟨missing, -, hpure⟩ := Except.bind_eq_ok.mp hr
            rw [← Except.ok.inj hpure]
            exact List.subset_cons_self _ _
      · exact hread false

end Termination

section Meaning

variable (fl : FloatOps F) (s : State F) (c : Curriculum F)

/-- Stored as complete, available, with its own gates holding and all prerequisites complete. -/
inductive Completed : Text → Prop
  | intro (id : Text) (lesson : Lesson F) (record : LessonRecord F)
      (listed : Assoc.get? id c.lessons = some lesson)
      (started : s.lessons.get? id = some record)
      (status : record.status = .val complete)
      (available : lesson.status = .available)
      (gates : GatesHold fl lesson record)
      (below : ∀ prerequisite ∈ lesson.prerequisites, Completed prerequisite) : Completed id

variable {s c}

theorem good_iff {id : Text} {lesson : Lesson F} (hl : Assoc.get? id c.lessons = some lesson) :
    Good (system fl s c) id ↔ ∃ record, s.lessons.get? id = some record ∧
      record.status = .val complete ∧ lesson.status = .available ∧ GatesHold fl lesson record := by
  cases hr : s.lessons.get? id with
  | none => simp [Good, system, hr]
  | some record => simp [Good, system, hr, hl, Field.is_iff]

theorem prereqs_eq {id : Text} {lesson : Lesson F} (hl : Assoc.get? id c.lessons = some lesson) :
    (system fl s c).prereqs id = lesson.prerequisites := by
  simp [system, hl]

section Sound

variable (hc : c.Sound)

include hc

theorem Curriculum.Sound.mem_ordered_iff (id : Text) :
    id ∈ c.orderedLessonIds ↔ ∃ lesson, Assoc.get? id c.lessons = some lesson := by
  rw [hc.ordered]
  constructor
  · intro h
    obtain ⟨⟨k, lesson⟩, hmem, rfl⟩ := List.mem_map.mp h
    exact ⟨lesson, Assoc.get?_of_mem hc.distinct hmem⟩
  · rintro ⟨lesson, h⟩
    exact List.mem_map_of_mem (Assoc.mem_of_get? h)

theorem Curriculum.Sound.earlier_get? {id p : Text} {lesson : Lesson F}
    (hl : Assoc.get? id c.lessons = some lesson) (hp : p ∈ lesson.prerequisites) :
    p ∈ c.orderedLessonIds ∧ c.orderedLessonIds.idxOf p < c.orderedLessonIds.idxOf id :=
  hc.earlier (id, lesson) (Assoc.mem_of_get? hl) p hp

/-- Prerequisites point backwards in the program. -/
theorem idxOf_lt_of_mem_prereqs {p q : Text} (h : q ∈ (system fl s c).prereqs p) :
    c.orderedLessonIds.idxOf q < c.orderedLessonIds.idxOf p := by
  cases hl : Assoc.get? p c.lessons with
  | none => simp [system, hl] at h
  | some lesson =>
    rw [prereqs_eq fl hl] at h
    exact (hc.earlier_get? hl h).2

theorem wellFounded_prereqs : WellFounded fun q p => q ∈ (system fl s c).prereqs p :=
  Subrelation.wf (fun h => idxOf_lt_of_mem_prereqs fl hc h)
    (InvImage.wf (fun id => c.orderedLessonIds.idxOf id) Nat.lt_wfRel.wf)

/-- Lessons only reach earlier ones. -/
theorem idxOf_le_of_path {p q : Text} (h : Prerequisites.Path (system fl s c) [] p q) :
    c.orderedLessonIds.idxOf q ≤ c.orderedLessonIds.idxOf p := by
  induction h with
  | refl => exact Nat.le_refl _
  | tail _ hstep ih =>
    have := idxOf_lt_of_mem_prereqs fl hc hstep.1
    omega

/-- A lesson is completed when it is complete in the prerequisite graph. -/
theorem completed_iff (id : Text) (hid : id ∈ c.orderedLessonIds) :
    Completed fl s c id ↔ Prerequisites.Complete (system fl s c) id := by
  constructor
  · intro h
    clear hid
    induction h with
    | intro id lesson record listed started status available gates _ ih =>
      refine .intro id ((good_iff fl listed).mpr ⟨record, started, status, available, gates⟩) ?_
      rw [prereqs_eq fl listed]
      exact ih
  · intro h
    induction h with
    | intro id good _ ih =>
      obtain ⟨lesson, hl⟩ := (hc.mem_ordered_iff id).mp hid
      obtain ⟨record, hr, hst, ha, hg⟩ := (good_iff fl hl).mp good
      refine .intro id lesson record hl hr hst ha hg ?_
      intro p hp
      exact ih p (by rwa [prereqs_eq fl hl]) (hc.earlier_get? hl hp).1

theorem keyed_of_sound : Keyed c := hc.ids

end Sound

theorem known_mem (p : Text) (h : (system fl s c).known p = true) : p ∈ c.lessons.map Prod.fst := by
  obtain ⟨lesson, hl⟩ := Option.isSome_iff_exists.mp h
  exact List.mem_map_of_mem (Assoc.mem_of_get? hl)

theorem remaining_lt_limit (seen : List Text) :
    Prerequisites.remaining (c.lessons.map Prod.fst) seen < recursionLimit (some c) := by
  have hle := Prerequisites.remaining_le_length (c.lessons.map Prod.fst) seen
  rw [List.length_map] at hle
  exact Nat.lt_succ_of_le hle

/-- The evaluation that the store runs returns. -/
theorem visit_limit (seen : List Text) (id : Text) :
    ∃ b seen', visit (system fl s c) (recursionLimit (some c)) seen id = some (b, seen') := by
  have h := Prerequisites.visit_isSome (G := system fl s c) (known_mem fl)
    (remaining_lt_limit seen) id
  obtain ⟨r, hr⟩ := Option.isSome_iff_exists.mp h
  exact ⟨r.1, r.2, hr⟩

/-- The map holds the answer of the evaluation for each lesson. -/
theorem completionMap_eq (hc : c.Sound) (hs : s.Templated) :
    ∃ answer : Text → Bool, completionMap fl s c =
        .ok (c.orderedLessonIds.map fun id => (id, answer id)) ∧
      ∀ id, ∃ seen', visit (system fl s c) (recursionLimit (some c)) [] id =
        some (answer id, seen') := by
  choose answer seen' hvisit using fun id => visit_limit fl (s := s) (c := c) [] id
  refine ⟨answer, ?_, fun id => ⟨seen' id, hvisit id⟩⟩
  apply Except.mapM_eq_ok
  intro id _
  rw [lessonIsComplete_eq fl hc.ids hs _ _ _ _ (hvisit id)]
  rfl

/-- `completion_map` decides completion for every accepted curriculum; and for every prerequisite
graph and state the two functions end within a level for each lesson and one to spare. -/
theorem completionMap_iff :
    (∀ (S : Sources F) (c : Curriculum F) (s : State F),
      loadCurriculum S = .ok c → s.Templated →
        ∃ completed, completionMap fl s c = .ok completed ∧
          completed.map Prod.fst = c.orderedLessonIds ∧
          ∀ entry ∈ completed, entry.2 = true ↔ Completed fl s c entry.1) ∧
    (∀ (c : Curriculum F) (s : State F) (limit : Nat) (seen : List Text),
      recursionLimit (some c) ≤ limit →
        (∀ id, lessonIsComplete fl s (some c) limit seen id ≠ .error .recursionError) ∧
        ∀ lesson, completionWith fl (lessonIsComplete fl s (some c) limit) s lesson seen ≠
          .error .recursionError) := by
  constructor
  · intro S c s hload hs
    have hc := loadCurriculum_sound hload
    obtain ⟨answer, hmap, hvisit⟩ := completionMap_eq fl hc hs
    refine ⟨_, hmap, ?_, ?_⟩
    · rw [List.map_map]
      exact List.map_id _
    · intro entry hentry
      obtain ⟨id, hid, rfl⟩ := List.mem_map.mp hentry
      obtain ⟨seen', hv⟩ := hvisit id
      rw [completed_iff fl hc id hid]
      exact Prerequisites.visit_nil_iff_complete (wellFounded_prereqs fl hc) hv
  · intro c s limit seen hlimit
    have hends (seen : List Text) (id : Text) := lessonIsComplete_ends fl s c
      (Nat.lt_of_lt_of_le (remaining_lt_limit seen) hlimit) id
    refine ⟨fun id => (hends seen id).1, fun lesson => ?_⟩
    exact completionWith_ends (fun seen' p _ => hends seen' p) fl s lesson

end Meaning

section Missing

variable (fl : FloatOps F)

/-- The missing list of a lesson names a prerequisite when the map has it incomplete. -/
def MissingAgrees (s : State F) (c : Curriculum F) (lesson : Lesson F) (p : Text) : Prop :=
  ∃ answer completed, lessonCompletion fl s lesson (some c) = .ok answer ∧
    completionMap fl s c = .ok completed ∧
    (.prerequisite p ∈ answer.2 ↔ Assoc.get? p completed = some false)

/-- Some lesson that `p` is or depends on, by way of lessons not to avoid, is not stored as
complete, not available or lacks one of its own gates. -/
def Broken (s : State F) (c : Curriculum F) (avoid : List Text) (p : Text) : Prop :=
  ∃ q, Prerequisites.Path (system fl s c) avoid p q ∧ ¬ Good (system fl s c) q

/-- The prerequisites written before `p` that are stored as complete. -/
def completeBefore (s : State F) (lesson : Lesson F) (p : Text) : List Text :=
  (lesson.prerequisites.takeWhile (· ≠ p)).filter fun q =>
    (s.lessons.get? q).any (·.status.is complete)

variable {fl}

theorem Broken.mono {s : State F} {c : Curriculum F} {avoid avoid' : List Text} {p : Text}
    (h : avoid ⊆ avoid') : Broken fl s c avoid' p → Broken fl s c avoid p := by
  rintro ⟨q, hpath, hq⟩
  exact ⟨q, hpath.mono h, hq⟩

variable (fl) in
/-- The map has a lesson incomplete when something it depends on is broken. -/
theorem completionMap_false_iff {s : State F} {c : Curriculum F} (hc : c.Sound)
    (hs : s.Templated) :
    ∃ completed, completionMap fl s c = .ok completed ∧ ∀ p ∈ c.orderedLessonIds,
      (Assoc.get? p completed = some false ↔ Broken fl s c [] p) := by
  obtain ⟨answer, hmap, hvisit⟩ := completionMap_eq fl hc hs
  refine ⟨_, hmap, ?_⟩
  intro p hp
  have hget : Assoc.get? p (c.orderedLessonIds.map fun id => (id, answer id)) =
      some (answer p) := by
    apply Assoc.get?_of_mem
    · rw [List.map_map]
      show (c.orderedLessonIds.map id).Nodup
      rw [List.map_id, hc.ordered]
      exact hc.distinct
    · exact List.mem_map_of_mem hp
  obtain ⟨seen', hv⟩ := hvisit p
  have hiff := Prerequisites.visit_nil_iff_complete (wellFounded_prereqs fl hc) hv
  rw [Prerequisites.complete_iff (wellFounded_prereqs fl hc)] at hiff
  rw [hget, Option.some.injEq, ← Bool.not_eq_true, hiff, Broken]
  simp only [not_forall, exists_prop]

section Sibling

variable {s : State F} {c : Curriculum F} {lesson : Lesson F} {p : Text} {pre post : List Text}

theorem known_of_mem (hc : c.Sound) (hl : Assoc.get? lesson.id c.lessons = some lesson)
    (hp : p ∈ lesson.prerequisites) : (system fl s c).known p = true := by
  obtain ⟨l, h⟩ := (hc.mem_ordered_iff p).mp (hc.earlier_get? hl hp).1
  simp [system, h]

/-- A prerequisite of a lesson does not lead back to it. -/
theorem not_path_self (hc : c.Sound) (hl : Assoc.get? lesson.id c.lessons = some lesson)
    (hp : p ∈ lesson.prerequisites) : ¬ Prerequisites.Path (system fl s c) [] p lesson.id := by
  intro hpath
  have hle := idxOf_le_of_path fl hc hpath
  have hlt := (hc.earlier_get? hl hp).2
  omega

variable (fl c) in
theorem completeBefore_eq (hsplit : lesson.prerequisites = pre ++ p :: post) (hfirst : p ∉ pre) :
    completeBefore s lesson p = pre.filter (system fl s c).marked := by
  rw [completeBefore, hsplit, Prerequisites.takeWhile_first hfirst]
  rfl

variable (fl s) in
/-- Of the seen lessons in front of a prerequisite, it can reach those stored as complete. -/
theorem mem_before_iff (hc : c.Sound) (hl : Assoc.get? lesson.id c.lessons = some lesson)
    (hsplit : lesson.prerequisites = pre ++ p :: post) {r : Text}
    (hr : Prerequisites.Path (system fl s c) [] p r) :
    r ∈ before (system fl s c) [lesson.id] pre ↔ r ∈ pre.filter (system fl s c).marked := by
  have hmem : p ∈ lesson.prerequisites := by
    rw [hsplit]
    exact List.mem_append_right _ List.mem_cons_self
  rw [List.mem_filter]
  constructor
  · intro h
    obtain h | h := Prerequisites.mem_before h
    · rw [List.mem_singleton] at h
      exact absurd (h ▸ hr) (not_path_self hc hl hmem)
    · exact h
  · rintro ⟨hpre, hm⟩
    apply Prerequisites.mem_before_of_mem hpre hm
    apply known_of_mem hc hl
    rw [hsplit]
    exact List.mem_append_left _ hpre

/-- What the test of a prerequisite answers after its earlier siblings. -/
theorem visit_false_iff (hc : c.Sound) (hl : Assoc.get? lesson.id c.lessons = some lesson)
    (hsplit : lesson.prerequisites = pre ++ p :: post) (hfirst : p ∉ pre) {limit : Nat} {b : Bool}
    {seen' : List Text}
    (hv : visit (system fl s c) limit (before (system fl s c) [lesson.id] pre) p =
      some (b, seen')) :
    b = false ↔ Broken fl s c (completeBefore s lesson p) p := by
  have hbefore {r : Text} (hr : Prerequisites.Path (system fl s c) [] p r) :=
    mem_before_iff fl s hc hl hsplit hr
  have hseen : ∀ r ∈ before (system fl s c) [lesson.id] pre,
      Prerequisites.Path (system fl s c) [] p r → (system fl s c).marked r = true := by
    intro r hr hpath
    exact (List.mem_filter.mp ((hbefore hpath).mp hr)).2
  have hnot : p ∉ before (system fl s c) [lesson.id] pre := by
    rw [hbefore .refl]
    exact fun h => hfirst (List.mem_filter.mp h).1
  rw [← Bool.not_eq_true, Prerequisites.visit_iff hseen hv, or_iff_right hnot, Broken,
    completeBefore_eq fl c hsplit hfirst]
  constructor
  · intro h
    by_cases hm : (system fl s c).marked p = true
    · obtain ⟨q, hq⟩ := not_forall.mp fun hall => h ⟨hm, hall⟩
      rw [Classical.not_imp] at hq
      exact ⟨q, hq.1.congr fun r hr => hbefore hr, hq.2⟩
    · exact ⟨p, .refl, fun hgood => hm hgood.1⟩
  · rintro ⟨q, hpath, hq⟩ ⟨-, hall⟩
    exact hq (hall q (hpath.congr fun r hr => (hbefore hr).symm))

end Sibling

variable (fl) in
/-- The missing list names a prerequisite when something is broken that it depends on by way of
lessons other than the complete prerequisites before it. -/
theorem mem_missing_iff {s : State F} {c : Curriculum F} (hc : c.Sound) (hs : s.Templated)
    {lesson : Lesson F} (hl : Assoc.get? lesson.id c.lessons = some lesson)
    (ha : lesson.status = .available) (hstarted : (s.lessons.get? lesson.id).isSome) :
    ∃ answer, lessonCompletion fl s lesson (some c) = .ok answer ∧
      ∀ p, .prerequisite p ∈ answer.2 ↔
        p ∈ lesson.prerequisites ∧ Broken fl s c (completeBefore s lesson p) p := by
  obtain ⟨record, hr⟩ := Option.isSome_iff_exists.mp hstarted
  have hscan : (scan (visit (system fl s c) (recursionLimit (some c))) [lesson.id]
      lesson.prerequisites).isSome := Prerequisites.scan_visit_isSome
    (fun hseen q => Prerequisites.visit_isSome (known_mem fl) hseen q)
    (remaining_lt_limit [lesson.id]) _
  obtain ⟨bs, hscan⟩ := Option.isSome_iff_exists.mp hscan
  obtain ⟨gates, -, hgates, heq⟩ := completionWith_eq fl hs (lessonIsComplete_eq fl hc.ids hs _)
    ha hr [] hscan
  refine ⟨_, by rw [lessonCompletion, heq, Except.ok_bind]; rfl, ?_⟩
  intro p
  dsimp only
  rw [List.mem_append, or_iff_left (hgates p), mem_prerequisiteEntries,
    Prerequisites.scan_mem hscan]
  by_cases hp : p ∈ lesson.prerequisites
  · obtain ⟨pre, post, hsplit, hfirst⟩ := List.eq_append_cons_of_mem hp
    obtain ⟨b, seen', hv⟩ := Prerequisites.scan_visited hscan hsplit
    rw [and_iff_right hp, ← visit_false_iff hc hl hsplit hfirst hv, hsplit,
      Prerequisites.exists_false_iff_first (known_of_mem hc hl hp) hfirst hv]
  · refine iff_of_false ?_ fun h => hp h.1
    rintro ⟨pre, post, seen', hsplit, -⟩
    apply hp
    rw [hsplit]
    exact List.mem_append_right _ List.mem_cons_self

/-- The missing list and the map agree on a prerequisite unless all that is broken below it
lies behind complete prerequisites written before it. -/
theorem missing_agrees_iff (S : Sources F) (c : Curriculum F) (s : State F)
    (hload : loadCurriculum S = .ok c) (hs : s.Templated) (lesson : Lesson F)
    (hl : Assoc.get? lesson.id c.lessons = some lesson) (ha : lesson.status = .available)
    (hstarted : (s.lessons.get? lesson.id).isSome) (p : Text) (hp : p ∈ lesson.prerequisites) :
    MissingAgrees fl s c lesson p ↔
      (Broken fl s c [] p → Broken fl s c (completeBefore s lesson p) p) := by
  have hc := loadCurriculum_sound hload
  obtain ⟨answer, hanswer, hmissing⟩ := mem_missing_iff fl hc hs hl ha hstarted
  obtain ⟨completed, hmap, hfalse⟩ := completionMap_false_iff fl hc hs
  have hiff : MissingAgrees fl s c lesson p ↔
      (.prerequisite p ∈ answer.2 ↔ Assoc.get? p completed = some false) := by
    constructor
    · rintro ⟨answer', completed', ha', hm', h⟩
      rw [hanswer] at ha'
      rw [hmap] at hm'
      cases ha'
      cases hm'
      exact h
    · intro h
      exact ⟨answer, completed, hanswer, hmap, h⟩
  rw [hiff, hmissing, and_iff_right hp, hfalse p (hc.earlier_get? hl hp).1]
  exact ⟨fun h => h.mpr, fun h => ⟨Broken.mono (List.nil_subset _), h⟩⟩

end Missing

section Sample

/-- A started record with the outcome of its one check. -/
def sampleRecord (status : Text) (passed : Bool) : LessonRecord Text :=
  { LessonRecord.template with
    status := .val status
    validations := .val (Dict.empty.insert (ascii "check") ⟨.val passed, .val []⟩) }

/-- The middle lessons are stored as complete; the first one is not. -/
def sampleState : State Text where
  lastLessonId := none
  lessons := .ofPairs [(ascii "z", sampleRecord inProgress false),
    (ascii "a", sampleRecord complete true), (ascii "b", sampleRecord complete true),
    (ascii "l", sampleRecord inProgress true)]
  concepts := .empty
  interview := .empty

theorem sampleRecord_templated (status : Text) (passed : Bool) :
    (sampleRecord status passed).Templated :=
  ⟨⟨_, rfl⟩, ⟨_, rfl⟩, ⟨_, rfl⟩, ⟨_, rfl⟩, ⟨_, rfl⟩, ⟨_, rfl⟩, ⟨_, rfl⟩, ⟨_, rfl⟩, ⟨_, rfl⟩⟩

theorem sampleState_templated : sampleState.Templated := by
  intro lessonId record h
  have hmem := Dict.mem_of_get?_ofPairs h
  simp only [List.mem_cons, List.not_mem_nil, or_false, Prod.mk.injEq] at hmem
  rcases hmem with ⟨-, rfl⟩ | ⟨-, rfl⟩ | ⟨-, rfl⟩ | ⟨-, rfl⟩ <;>
    exact sampleRecord_templated _ _

/-- The last lesson: its missing list does not name the prerequisite that the map has open. -/
theorem sampleTarget : ∃ lesson, Assoc.get? (ascii "l") sampleCurriculum.lessons = some lesson ∧
    lesson.id = ascii "l" ∧ lesson.status = .available ∧ ascii "b" ∈ lesson.prerequisites ∧
    ((lessonCompletion FloatOps.tokens sampleState lesson (some sampleCurriculum)).toOption.any
      fun answer => answer.2.contains (.prerequisite (ascii "b"))) = false := by
  have h : (Assoc.get? (ascii "l") sampleCurriculum.lessons).any (fun lesson =>
      lesson.id = ascii "l" ∧ lesson.status = .available ∧ ascii "b" ∈ lesson.prerequisites ∧
      ((lessonCompletion FloatOps.tokens sampleState lesson (some sampleCurriculum)).toOption.any
        fun answer => answer.2.contains (.prerequisite (ascii "b"))) = false) = true := by
    decide +kernel
  rw [Option.any_eq_true] at h
  obtain ⟨lesson, hl, h⟩ := h
  exact ⟨lesson, hl, of_decide_eq_true h⟩

theorem sampleMap : ((completionMap FloatOps.tokens sampleState sampleCurriculum).toOption.any
    fun completed => Assoc.get? (ascii "b") completed = some false) = true := by
  decide +kernel

/-- The map decides completion of the sample. -/
theorem completionMap_sample :
    loadCurriculum sampleSources = .ok sampleCurriculum ∧ sampleState.Templated ∧
      ∃ completed, completionMap FloatOps.tokens sampleState sampleCurriculum = .ok completed ∧
        completed.map Prod.fst = sampleCurriculum.orderedLessonIds ∧
        ∀ entry ∈ completed, entry.2 = true ↔
          Completed FloatOps.tokens sampleState sampleCurriculum entry.1 :=
  ⟨sampleCurriculum_loaded, sampleState_templated,
    (completionMap_iff FloatOps.tokens).1 sampleSources sampleCurriculum sampleState
      sampleCurriculum_loaded sampleState_templated⟩

/-- On the sample the two agree on the first prerequisite of the last lesson. -/
theorem missing_agrees_sample :
    loadCurriculum sampleSources = .ok sampleCurriculum ∧ sampleState.Templated ∧
      ∃ lesson, Assoc.get? lesson.id sampleCurriculum.lessons = some lesson ∧
        lesson.status = .available ∧ (sampleState.lessons.get? lesson.id).isSome ∧
        ascii "b" ∈ lesson.prerequisites ∧
        (MissingAgrees FloatOps.tokens sampleState sampleCurriculum lesson (ascii "b") ↔
          (Broken FloatOps.tokens sampleState sampleCurriculum [] (ascii "b") →
            Broken FloatOps.tokens sampleState sampleCurriculum
              (completeBefore sampleState lesson (ascii "b")) (ascii "b"))) := by
  obtain ⟨lesson, hl, hid, ha, hp, -⟩ := sampleTarget
  rw [← hid] at hl
  have hstarted : (sampleState.lessons.get? lesson.id).isSome := by
    rw [hid]
    decide +kernel
  exact ⟨sampleCurriculum_loaded, sampleState_templated, lesson, hl, ha, hstarted, hp,
    missing_agrees_iff sampleSources sampleCurriculum sampleState sampleCurriculum_loaded
      sampleState_templated lesson hl ha hstarted (ascii "b") hp⟩

/-- A complete prerequisite hides from its later siblings what is broken below it. -/
theorem sibling_hides_prerequisite : ¬ ∀ (S : Sources Text) (c : Curriculum Text) (s : State Text),
    loadCurriculum S = .ok c → s.Templated → ∀ lesson : Lesson Text,
      Assoc.get? lesson.id c.lessons = some lesson → lesson.status = .available →
      (s.lessons.get? lesson.id).isSome → ∀ p ∈ lesson.prerequisites,
        MissingAgrees FloatOps.tokens s c lesson p := by
  intro h
  obtain ⟨lesson, hl, hid, ha, hp, hnot⟩ := sampleTarget
  rw [← hid] at hl
  have hstarted : (sampleState.lessons.get? lesson.id).isSome := by
    rw [hid]
    decide +kernel
  obtain ⟨answer, completed, hanswer, hmap, hiff⟩ := h sampleSources sampleCurriculum sampleState
    sampleCurriculum_loaded sampleState_templated lesson hl ha hstarted (ascii "b") hp
  have hopen := sampleMap
  rw [hmap] at hopen
  rw [hanswer] at hnot
  have hmem := hiff.mpr (of_decide_eq_true hopen)
  rw [← List.contains_iff_mem] at hmem
  exact absurd (hmem.symm.trans hnot) nofun

end Sample

end Learning
