import FlightTestLab.Learning.Curriculum
import FlightTestLab.Library.Except

/-!
# What an accepted curriculum satisfies

## Main definitions

- `Learning.Curriculum.Sound`: the invariants the loader establishes

## Main results

- `Learning.loadCurriculum_sound`: every accepted curriculum has them
-/

namespace Learning

open Except (bind_eq_ok forM_eq_ok)
open Json (Text ascii)
open Python (Value)

variable {F : Type}

theorem require_eq_ok {ok : Bool} {path : Path} {defect : Defect F} {u : Unit} :
    require ok path defect = .ok u ↔ ok = true := by
  cases ok <;> simp [require]

/-- Each block has a known type and an id of its own. -/
structure SoundBlocks (blocks : List (Items F)) : Prop where
  typed : ∀ block ∈ blocks, ∃ kind ∈ blockTypes, hasType kind block = true
  named : ∀ block ∈ blocks, ∃ id, Value.get (ascii "id") block = .str id ∧ id ≠ []
  distinct : (blocks.map blockId).Nodup

/-- What the loader establishes. -/
structure Curriculum.Sound (c : Curriculum F) : Prop where
  ids : ∀ entry ∈ c.lessons, entry.2.id = entry.1
  distinct : (c.lessons.map Prod.fst).Nodup
  ordered : c.orderedLessonIds = c.lessons.map Prod.fst
  nonempty : c.orderedLessonIds ≠ []
  earlier : ∀ entry ∈ c.lessons, ∀ prerequisite ∈ entry.2.prerequisites,
    prerequisite ∈ c.orderedLessonIds ∧
      c.orderedLessonIds.idxOf prerequisite < c.orderedLessonIds.idxOf entry.1
  blocks : ∀ entry ∈ c.lessons, SoundBlocks entry.2.blocks

section Blocks

variable {S : Sources F} {path : Path}

theorem validateBlock_ok {seen : List Text} {block : Items F} {id : Text}
    (h : validateBlock S path seen block = .ok id) :
    (∃ kind ∈ blockTypes, hasType kind block = true) ∧
      Value.get (ascii "id") block = .str id ∧ id ≠ [] ∧ id ∉ seen := by
  rw [validateBlock, bind_eq_ok] at h
  obtain ⟨-, -, h⟩ := h
  split at h
  · cases h
  · next kind hkind =>
    have hfound := List.find?_some hkind
    have htype : ∃ kind ∈ blockTypes, hasType kind block = true :=
      ⟨kind, List.mem_of_find?_eq_some hkind, hfound⟩
    split at h
    · cases h
    · next id' hne hid =>
      simp only [bind_eq_ok, require_eq_ok] at h
      obtain ⟨-, hseen, -, -, -, -, hpure⟩ := h
      cases hpure
      refine ⟨htype, hid, fun hnil => hne (hnil ▸ rfl), ?_⟩
      simpa using hseen
    · cases h

theorem validateBlocks_ok {seen : List Text} {blocks : List (Items F)} {u : Unit}
    (h : validateBlocks S path seen blocks = .ok u) :
    SoundBlocks blocks ∧ ∀ block ∈ blocks, blockId block ∉ seen := by
  induction blocks generalizing seen u with
  | nil => exact ⟨⟨by simp, by simp, by simp⟩, by simp⟩
  | cons block blocks ih =>
    rw [validateBlocks, bind_eq_ok] at h
    obtain ⟨id, hblock, hrest⟩ := h
    obtain ⟨htype, hid, hne, hseen⟩ := validateBlock_ok hblock
    obtain ⟨hsound, hfresh⟩ := ih hrest
    have hname : blockId block = id := by rw [blockId, hid]
    refine ⟨⟨?_, ?_, ?_⟩, ?_⟩
    · exact List.forall_mem_cons.mpr ⟨htype, hsound.typed⟩
    · exact List.forall_mem_cons.mpr ⟨⟨id, hid, hne⟩, hsound.named⟩
    · rw [List.map_cons, List.nodup_cons]
      refine ⟨?_, hsound.distinct⟩
      intro hmem
      obtain ⟨other, hother, heq⟩ := List.mem_map.mp hmem
      apply hfresh other hother
      rw [heq, hname]
      exact List.mem_cons_self
    · intro other hother hmem
      obtain rfl | hother := List.mem_cons.mp hother
      · exact hseen (hname ▸ hmem)
      · exact hfresh other hother (List.mem_cons_of_mem _ hmem)

theorem parseLesson_ok {data : Items F} {day : Int} {lesson : Lesson F}
    (h : parseLesson S data day path = .ok lesson) : SoundBlocks lesson.blocks := by
  simp only [parseLesson, bind_eq_ok] at h
  obtain ⟨_, _, _, _, _, _, _, _, _, _, _, _, _, _, _, _, _, _, blocks, _, _, hblocks, _, _, _, _,
    _, _, _, _, _, _, _, _, hpure⟩ := h
  cases hpure
  exact (validateBlocks_ok hblocks).1

end Blocks

section Lessons

variable {S : Sources F}

/-- What holds of the lessons while they are loaded. -/
structure SoundLessons (lessons : List (Text × Lesson F)) : Prop where
  ids : ∀ entry ∈ lessons, entry.2.id = entry.1
  distinct : (lessons.map Prod.fst).Nodup
  blocks : ∀ entry ∈ lessons, SoundBlocks entry.2.blocks

/-- What the lessons loaded so far satisfy, when each lesson that is added keeps it. -/
def Kept (S : Sources F) (concepts : List Text) (loaded : List (Text × Lesson F) → Prop) : Prop :=
  ∀ lessons data day path lesson, loaded lessons → parseLesson S data day path = .ok lesson →
    lesson.id ∉ lessons.map Prod.fst → (∀ concept ∈ lesson.concepts, concept ∈ concepts) →
      loaded (lessons ++ [(lesson.id, lesson)])

variable {concepts : List Text} {loaded : List (Text × Lesson F) → Prop}

theorem loadLessons_kept (hkept : Kept S concepts loaded) {day : Int} {path : Path}
    {lessons lessons' : List (Text × Lesson F)} {raws : List (Value F)} (hs : loaded lessons)
    (h : loadLessons S concepts day path lessons raws = .ok lessons') : loaded lessons' := by
  induction raws generalizing lessons with
  | nil =>
    cases h
    exact hs
  | cons raw raws ih =>
    cases raw with
    | dict raw =>
      rw [loadLessons, bind_eq_ok] at h
      obtain ⟨lesson, hlesson, h⟩ := h
      simp only [bind_eq_ok, require_eq_ok, forM_eq_ok, List.contains_iff_mem] at h
      obtain ⟨-, hnew, -, hconcepts, hrest⟩ := h
      rw [Option.isNone_iff_eq_none, Assoc.get?_eq_none_iff] at hnew
      exact ih (hkept lessons raw day path lesson hs hlesson hnew hconcepts) hrest
    | none | bool _ | int _ | float _ | str _ | list _ => cases h

theorem loadDay_kept (hkept : Kept S concepts loaded) {lessons : List (Text × Lesson F)}
    {entry : Value F} {result : Day F × List (Text × Lesson F)} (hs : loaded lessons)
    (h : loadDay S concepts lessons entry = .ok result) : loaded result.2 := by
  cases entry with
  | dict entry =>
    rw [loadDay, bind_eq_ok] at h
    obtain ⟨-, -, h⟩ := h
    split at h
    · simp only [bind_eq_ok] at h
      obtain ⟨_, _, _, _, h⟩ := h
      split at h
      · split at h
        · rw [bind_eq_ok] at h
          obtain ⟨extended, hload, hpure⟩ := h
          cases hpure
          exact loadLessons_kept hkept hs hload
        · cases h
      · cases h
    · cases h
  | none | bool _ | int _ | float _ | str _ | list _ => cases h

theorem loadDays_kept (hkept : Kept S concepts loaded) {lessons : List (Text × Lesson F)}
    {entries : List (Value F)} {result : List (Day F) × List (Text × Lesson F)}
    (hs : loaded lessons) (h : loadDays S concepts lessons entries = .ok result) :
    loaded result.2 := by
  induction entries generalizing lessons result with
  | nil =>
    cases h
    exact hs
  | cons entry entries ih =>
    simp only [loadDays, bind_eq_ok] at h
    obtain ⟨_, hday, _, hdays, hpure⟩ := h
    have hend := ih (loadDay_kept hkept hs hday) hdays
    cases hpure
    exact hend

theorem soundLessons_kept : Kept S concepts SoundLessons := by
  intro lessons data day path lesson hs hlesson hnew _
  refine ⟨?_, ?_, ?_⟩
  · intro entry hentry
    obtain hentry | hentry := List.mem_append.mp hentry
    · exact hs.ids entry hentry
    · rw [List.mem_singleton.mp hentry]
  · rw [List.map_append, List.map_singleton, List.nodup_append]
    refine ⟨hs.distinct, List.nodup_singleton _, ?_⟩
    intro a ha b hb hab
    obtain rfl : a = lesson.id := hab.trans (List.mem_singleton.mp hb)
    exact hnew ha
  · intro entry hentry
    obtain hentry | hentry := List.mem_append.mp hentry
    · exact hs.blocks entry hentry
    · rw [List.mem_singleton.mp hentry]
      exact parseLesson_ok hlesson

theorem checkPrerequisites_ok {ordered : List Text} {lesson : Lesson F} {u : Unit}
    (h : checkPrerequisites ordered lesson = .ok u) :
    ∀ prerequisite ∈ lesson.prerequisites, prerequisite ∈ ordered ∧
      ordered.idxOf prerequisite < ordered.idxOf lesson.id := by
  rw [checkPrerequisites, forM_eq_ok] at h
  intro prerequisite hmem
  have hp := h prerequisite hmem
  simp only [bind_eq_ok, require_eq_ok] at hp
  obtain ⟨-, hknown, -, hself, hle⟩ := hp
  simp only [List.contains_iff_mem, decide_eq_true_eq] at hknown hself hle
  refine ⟨hknown, lt_of_le_of_ne hle ?_⟩
  intro heq
  exact hself ((List.idxOf_inj hknown).mp heq)

end Lessons

theorem loadInterview_ne_nil {S : Sources F} {concepts : List Text}
    {interview : List InterviewQuestion} (h : loadInterview S concepts = .ok interview) :
    interview ≠ [] := by
  rw [loadInterview, bind_eq_ok] at h
  obtain ⟨raw, -, h⟩ := h
  split at h
  · split at h
    · next questions _ =>
      rw [bind_eq_ok] at h
      obtain ⟨_, hne, h⟩ := h
      rw [require_eq_ok] at hne
      cases questions with
      | nil => cases hne
      | cons question rest =>
        cases question with
        | dict raw =>
          rw [loadQuestions, bind_eq_ok] at h
          obtain ⟨first, -, h⟩ := h
          rw [bind_eq_ok] at h
          obtain ⟨others, -, hpure⟩ := h
          cases hpure
          exact List.cons_ne_nil _ _
        | _ => cases h
    · cases h
  · cases h

/-- Every curriculum that `load_curriculum` returns is sound. -/
theorem loadCurriculum_sound {S : Sources F} {c : Curriculum F}
    (h : loadCurriculum S = .ok c) : c.Sound := by
  rw [loadCurriculum, bind_eq_ok] at h
  obtain ⟨program, -, h⟩ := h
  split at h
  · simp only [bind_eq_ok] at h
    obtain ⟨concepts, -, -, -, h⟩ := h
    split at h
    · simp only [bind_eq_ok, require_eq_ok, forM_eq_ok] at h
      obtain ⟨⟨days, lessons⟩, hdays, -, hne, -, hprereqs, _, _, _, _, _, _, hpure⟩ := h
      cases hpure
      have hsound := loadDays_kept soundLessons_kept ⟨by simp, by simp, by simp⟩ hdays
      refine ⟨hsound.ids, hsound.distinct, rfl, ?_, ?_, hsound.blocks⟩
      · intro hnil
        change lessons.map Prod.fst = [] at hnil
        rw [hnil] at hne
        cases hne
      · intro entry hentry
        have hentry' := checkPrerequisites_ok (hprereqs entry hentry)
        rwa [hsound.ids entry hentry] at hentry'
    · cases h
  · cases h

/-- Every curriculum that `load_curriculum` returns has an interview question. -/
theorem loadCurriculum_interview {S : Sources F} {c : Curriculum F}
    (h : loadCurriculum S = .ok c) : c.interview ≠ [] := by
  rw [loadCurriculum, bind_eq_ok] at h
  obtain ⟨program, -, h⟩ := h
  split at h
  · simp only [bind_eq_ok] at h
    obtain ⟨concepts, -, -, -, h⟩ := h
    split at h
    · simp only [bind_eq_ok] at h
      obtain ⟨_, _, _, _, _, _, interview, hinterview, _, _, _, _, hpure⟩ := h
      cases hpure
      exact loadInterview_ne_nil hinterview
    · cases h
  · cases h

section Sample

/-- A lesson with one mandatory check. -/
def sampleLesson (id : Text) (prerequisites : List Text) : Value Text :=
  .dict [(ascii "id", .str id), (ascii "title", .str (ascii "title")),
    (ascii "objective", .str (ascii "objective")), (ascii "estimated_minutes", .int 5),
    (ascii "prerequisites", .list (prerequisites.map .str)),
    (ascii "blocks", .list [.dict [(ascii "id", .str (ascii "check")),
      (ascii "type", .str (ascii "verify")), (ascii "validator", .str (ascii "pytest")),
      (ascii "mandatory", .bool true)]])]

/-- A program of four lessons, the last of which has the two before it as prerequisites. -/
def sampleSources : Sources Text where
  floats := .tokens
  json
    | .program => .ok (.dict [(ascii "concepts", .list [.str (ascii "tcp")]),
        (ascii "days", .list [.dict [(ascii "day", .int 1), (ascii "title", .str (ascii "day")),
          (ascii "module", .str (ascii "day01.json"))]])])
    | .module _ => .ok (.dict [(ascii "lessons", .list
        [sampleLesson (ascii "z") [], sampleLesson (ascii "a") [ascii "z"],
          sampleLesson (ascii "b") [ascii "a"],
          sampleLesson (ascii "l") [ascii "a", ascii "b"]])])
    | .interview => .ok (.dict [(ascii "questions", .list [.dict [(ascii "id", .str (ascii "q")),
        (ascii "question", .str (ascii "why")), (ascii "sample_answer", .str (ascii "because")),
        (ascii "keywords", .list [.str (ascii "word")])]])])
    | .flow _ => .error .osError
  flowStems := none
  knownValidators := [ascii "pytest"]
  toolchain := {}

/-- What is loaded, where loading succeeds. -/
def loaded (S : Sources Text) : Curriculum Text :=
  match loadCurriculum S with
  | .ok c => c
  | .error _ => { concepts := [], days := [], lessons := [], orderedLessonIds := [],
                  interview := [], flows := [] }

theorem loadCurriculum_loaded {S : Sources Text} (h : (loadCurriculum S).isOk = true) :
    loadCurriculum S = .ok (loaded S) := by
  rw [loaded]
  cases hload : loadCurriculum S with
  | error e =>
    rw [hload] at h
    cases h
  | ok c => rfl

def sampleCurriculum : Curriculum Text := loaded sampleSources

theorem sampleCurriculum_loaded : loadCurriculum sampleSources = .ok sampleCurriculum :=
  loadCurriculum_loaded (by decide +kernel)

/-- A lesson with a check, a quiz and two hints. -/
def courseLesson : Value Text :=
  .dict [(ascii "id", .str (ascii "z")), (ascii "title", .str (ascii "title")),
    (ascii "objective", .str (ascii "objective")), (ascii "estimated_minutes", .int 5),
    (ascii "concepts", .list [.str (ascii "tcp")]),
    (ascii "blocks", .list [
      .dict [(ascii "id", .str (ascii "check")), (ascii "type", .str (ascii "verify")),
        (ascii "validator", .str (ascii "pytest")), (ascii "mandatory", .bool true)],
      .dict [(ascii "id", .str (ascii "ask")), (ascii "type", .str (ascii "quiz")),
        (ascii "question", .str (ascii "which")),
        (ascii "options", .list [.str (ascii "this"), .str (ascii "that")]),
        (ascii "answer_index", .int 1)]]),
    (ascii "hints", .list [
      .dict [(ascii "level", .int 1), (ascii "text", .str (ascii "look"))],
      .dict [(ascii "level", .int 2), (ascii "text", .str (ascii "look again"))]])]

def courseQuestion (id : Text) : Value Text :=
  .dict [(ascii "id", .str id), (ascii "question", .str (ascii "why")),
    (ascii "sample_answer", .str (ascii "because")), (ascii "keywords", .list [.str (ascii "word")]),
    (ascii "concepts", .list [.str (ascii "tcp")])]

/-- The program with one lesson like that, and another one that has it as a prerequisite. There are
two interview questions. -/
def courseSources : Sources Text :=
  { sampleSources with
    json := fun
      | .module _ => .ok (.dict [(ascii "lessons", .list
          [courseLesson, sampleLesson (ascii "a") [ascii "z"]])])
      | .interview => .ok (.dict [(ascii "questions", .list
          [courseQuestion (ascii "q1"), courseQuestion (ascii "q2")])])
      | path => sampleSources.json path }

def course : Curriculum Text := loaded courseSources

theorem course_loaded : loadCurriculum courseSources = .ok course :=
  loadCurriculum_loaded (by decide +kernel)

end Sample

end Learning
