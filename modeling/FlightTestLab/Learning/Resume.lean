import FlightTestLab.Learning.CompletionMap

/-!
# Resuming never strands the learner

Prerequisites point backwards in the program, so the first incomplete lesson that
nothing unavailable blocks has all its prerequisites complete. The lesson that is
resumed has nothing missing but its own gates.

## Main definitions

- `Learning.Curriculum.DependsOn`: transitive prerequisites
- `Learning.Unblocked`: an incomplete lesson that nothing unavailable blocks

## Main results

- `Learning.exists_actionable`: some lesson can be worked on
- `Learning.resume_actionable`: the resumed lesson is one of these
-/

namespace Learning

open Json (Text ascii)
open Python (FloatOps)

variable {F : Type}

/-- The second lesson is a transitive prerequisite of the first. -/
def Curriculum.DependsOn (c : Curriculum F) : Text → Text → Prop :=
  Relation.TransGen fun p q => ∃ lesson, Assoc.get? p c.lessons = some lesson ∧
    q ∈ lesson.prerequisites

/-- An available, incomplete lesson with no unavailable lesson among its transitive
prerequisites. -/
structure Unblocked (c : Curriculum F) (completed : List (Text × Bool)) (id : Text) : Prop where
  available : ∃ lesson, Assoc.get? id c.lessons = some lesson ∧ lesson.status = .available
  incomplete : Assoc.get? id completed = some false
  below : ∀ q lesson, c.DependsOn id q → Assoc.get? q c.lessons = some lesson →
    lesson.status ≠ .unavailable

/-- An available, incomplete lesson whose prerequisites are complete. -/
structure Actionable (c : Curriculum F) (completed : List (Text × Bool)) (id : Text)
    (lesson : Lesson F) : Prop where
  listed : Assoc.get? id c.lessons = some lesson
  available : lesson.status = .available
  incomplete : Assoc.get? id completed = some false
  below : ∀ p ∈ lesson.prerequisites, Assoc.get? p completed = some true

theorem available_of_ne {status : Status} (h : status ≠ .unavailable) :
    status = .available := by
  cases status with
  | available => rfl
  | unavailable => exact absurd rfl h

section Sound

variable {c : Curriculum F} (hc : c.Sound) {completed : List (Text × Bool)}
  (hkeys : completed.map Prod.fst = c.orderedLessonIds)

include hc hkeys

/-- The map has an answer for each lesson. -/
theorem exists_answer {id : Text} (hid : id ∈ c.orderedLessonIds) :
    ∃ b, Assoc.get? id completed = some b := by
  rw [← hkeys] at hid
  obtain ⟨⟨k, b⟩, hmem, rfl⟩ := List.mem_map.mp hid
  refine ⟨b, Assoc.get?_of_mem ?_ hmem⟩
  rw [hkeys, hc.ordered]
  exact hc.distinct

/-- The test that navigation makes of a lesson. -/
theorem isActionable_iff (id : Text) : isActionable c completed id = true ↔
    ∃ lesson, Actionable c completed id lesson := by
  rw [isActionable]
  cases hl : Assoc.get? id c.lessons with
  | none =>
    refine iff_of_false nofun ?_
    rintro ⟨lesson, h⟩
    rw [h.listed] at hl
    cases hl
  | some lesson =>
    have hid := (hc.mem_ordered_iff id).mpr ⟨lesson, hl⟩
    obtain ⟨b, hb⟩ := exists_answer hc hkeys hid
    have htrue {p : Text} (hp : p ∈ lesson.prerequisites) :
        (Assoc.get? p completed).getD false = true ↔ Assoc.get? p completed = some true := by
      obtain ⟨a, ha⟩ := exists_answer hc hkeys (hc.earlier_get? hl hp).1
      simp [ha]
    simp only [Bool.and_eq_true, decide_eq_true_eq, List.all_eq_true, hb, Option.getD_some]
    constructor
    · rintro ⟨⟨ha, rfl⟩, hall⟩
      exact ⟨lesson, hl, ha, hb, fun p hp => (htrue hp).mp (hall p hp)⟩
    · rintro ⟨lesson', h⟩
      have hlisted := h.listed
      rw [hl, Option.some.injEq] at hlisted
      subst hlisted
      have hinc := h.incomplete
      rw [hb, Option.some.injEq] at hinc
      exact ⟨⟨h.available, hinc⟩, fun p hp => (htrue hp).mpr (h.below p hp)⟩

/-- The first unblocked lesson of the program can be worked on. -/
theorem exists_actionable {id : Text} (h : Unblocked c completed id) :
    ∃ id ∈ c.orderedLessonIds, isActionable c completed id = true := by
  -- an incomplete prerequisite of an unblocked lesson is unblocked, and comes earlier
  induction hn : c.orderedLessonIds.idxOf id using Nat.strong_induction_on generalizing id with
  | h n ih =>
    obtain ⟨lesson, hl, ha⟩ := h.available
    by_cases hall : ∀ p ∈ lesson.prerequisites, Assoc.get? p completed = some true
    · refine ⟨id, (hc.mem_ordered_iff id).mpr ⟨lesson, hl⟩, ?_⟩
      rw [isActionable_iff hc hkeys]
      exact ⟨lesson, hl, ha, h.incomplete, hall⟩
    · push Not at hall
      obtain ⟨p, hp, hne⟩ := hall
      obtain ⟨hmem, hlt⟩ := hc.earlier_get? hl hp
      obtain ⟨below, hbelow⟩ := (hc.mem_ordered_iff p).mp hmem
      have hstep : c.DependsOn id p := .single ⟨lesson, hl, hp⟩
      have hinc : Assoc.get? p completed = some false := by
        obtain ⟨b, hb⟩ := exists_answer hc hkeys hmem
        cases b with
        | false => exact hb
        | true => exact absurd hb hne
      have hunblocked : Unblocked c completed p := by
        refine ⟨⟨below, hbelow, available_of_ne (h.below p below hstep hbelow)⟩, hinc, ?_⟩
        intro q lesson' hq
        exact h.below q lesson' (hstep.trans hq)
      exact ih _ (hn ▸ hlt) hunblocked rfl

end Sound

/-- When some lesson can be worked on, the resumed lesson can. -/
theorem resume_isActionable {fl : FloatOps F} {s : State F} {c : Curriculum F}
    {completed : List (Text × Bool)} (hmap : completionMap fl s c = .ok completed)
    (h : ∃ id ∈ c.orderedLessonIds, isActionable c completed id = true) :
    ∃ id, resumeLessonId fl s c = .ok id ∧ isActionable c completed id = true := by
  rw [resumeLessonId, hmap, Except.ok_bind]
  cases hlast : s.lastLessonId.filter (isActionable c completed) with
  | some last => exact ⟨last, rfl, (Option.filter_eq_some_iff.mp hlast).2⟩
  | none =>
    obtain ⟨id, hid, hact⟩ := h
    cases hfind : c.orderedLessonIds.find? (isActionable c completed) with
    | some found => exact ⟨found, rfl, List.find?_some hfind⟩
    | none => exact absurd hact (List.find?_eq_none.mp hfind id hid)

/-- A lesson whose prerequisites are complete in the map has none of them missing. -/
theorem no_missing_prerequisite {fl : FloatOps F} {s : State F} {c : Curriculum F}
    (hc : c.Sound) (hs : s.Templated) {completed : List (Text × Bool)}
    (hmap : completionMap fl s c = .ok completed) {id : Text} {lesson : Lesson F}
    (h : Actionable c completed id lesson) :
    ∃ answer, lessonCompletion fl s lesson (some c) = .ok answer ∧
      ∀ p, Missing.prerequisite p ∉ answer.2 := by
  have hl := h.listed
  rw [← keyed_of_sound hc |>.id_of_get? hl] at hl
  by_cases hstarted : (s.lessons.get? lesson.id).isSome
  · obtain ⟨answer, hanswer, hmissing⟩ := mem_missing_iff fl hc hs hl h.available hstarted
    refine ⟨answer, hanswer, ?_⟩
    intro p hmem
    obtain ⟨hp, hbroken⟩ := (hmissing p).mp hmem
    obtain ⟨completed', hmap', hfalse⟩ := completionMap_false_iff fl hc hs
    rw [hmap, Except.ok.injEq] at hmap'
    subst hmap'
    have hopen := (hfalse p (hc.earlier_get? hl hp).1).mpr (hbroken.mono (List.nil_subset _))
    rw [h.below p hp] at hopen
    cases hopen
  · rw [Option.not_isSome_iff_eq_none] at hstarted
    refine ⟨(false, [.notStarted]), ?_, by simp⟩
    rw [lessonCompletion, completionWith, if_neg (by simp [h.available]), hstarted]
    rfl

/-- When something unblocked is incomplete, the resumed lesson is available, incomplete, has
complete prerequisites, and its missing list names none of them. -/
theorem resume_actionable (fl : FloatOps F) (S : Sources F) (c : Curriculum F) (s : State F)
    (hload : loadCurriculum S = .ok c) (hs : s.Templated) (completed : List (Text × Bool))
    (hmap : completionMap fl s c = .ok completed) (h : ∃ id, Unblocked c completed id) :
    ∃ id lesson answer, resumeLessonId fl s c = .ok id ∧ Actionable c completed id lesson ∧
      lessonCompletion fl s lesson (some c) = .ok answer ∧
      ∀ p, Missing.prerequisite p ∉ answer.2 := by
  have hc := loadCurriculum_sound hload
  have hkeys : completed.map Prod.fst = c.orderedLessonIds := by
    obtain ⟨answer, hmap', -⟩ := completionMap_eq fl hc hs
    rw [hmap, Except.ok.injEq] at hmap'
    rw [hmap', List.map_map]
    exact List.map_id _
  obtain ⟨id, h⟩ := h
  obtain ⟨id, hresume, hact⟩ := resume_isActionable hmap (exists_actionable hc hkeys h)
  obtain ⟨lesson, hlesson⟩ := (isActionable_iff hc hkeys id).mp hact
  obtain ⟨answer, hanswer, hnone⟩ := no_missing_prerequisite hc hs hmap hlesson
  exact ⟨id, lesson, answer, hresume, hlesson, hanswer, hnone⟩

/-- On the sample, whose first lesson is open, something is resumed. -/
theorem resume_sample : ∃ completed,
    completionMap FloatOps.tokens sampleState sampleCurriculum = .ok completed ∧
      Unblocked sampleCurriculum completed (ascii "z") ∧
      ∃ id lesson answer,
        resumeLessonId FloatOps.tokens sampleState sampleCurriculum = .ok id ∧
        Actionable sampleCurriculum completed id lesson ∧
        lessonCompletion FloatOps.tokens sampleState lesson (some sampleCurriculum) = .ok answer ∧
        ∀ p, Missing.prerequisite p ∉ answer.2 := by
  have hz : (Assoc.get? (ascii "z") sampleCurriculum.lessons).any (fun lesson =>
      lesson.status = .available ∧ lesson.prerequisites = []) = true := by decide +kernel
  obtain ⟨completed, hmap, hopen⟩ : ∃ completed,
      completionMap FloatOps.tokens sampleState sampleCurriculum = .ok completed ∧
        Assoc.get? (ascii "z") completed = some false := by
    obtain ⟨answer, hmap, -⟩ := completionMap_eq FloatOps.tokens
      (loadCurriculum_sound sampleCurriculum_loaded) sampleState_templated
    have hopen : ((completionMap FloatOps.tokens sampleState sampleCurriculum).toOption.any
        fun completed => Assoc.get? (ascii "z") completed = some false) = true := by
      decide +kernel
    rw [hmap] at hopen
    exact ⟨_, hmap, of_decide_eq_true hopen⟩
  rw [Option.any_eq_true] at hz
  obtain ⟨lesson, hl, hz⟩ := hz
  obtain ⟨ha, hnil⟩ := of_decide_eq_true hz
  have hunblocked : Unblocked sampleCurriculum completed (ascii "z") := by
    refine ⟨⟨lesson, hl, ha⟩, hopen, ?_⟩
    -- the lesson has no prerequisites
    intro q lesson' hq
    obtain ⟨p, ⟨below, hbelow, hp⟩, -⟩ := Relation.TransGen.head'_iff.mp hq
    rw [hl, Option.some.injEq] at hbelow
    rw [← hbelow, hnil] at hp
    cases hp
  exact ⟨completed, hmap, hunblocked, resume_actionable FloatOps.tokens sampleSources
    sampleCurriculum sampleState sampleCurriculum_loaded sampleState_templated completed hmap
    ⟨_, hunblocked⟩⟩

end Learning
