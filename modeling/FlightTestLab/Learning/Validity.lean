import FlightTestLab.Learning.Loading

/-!
# What an accepted curriculum satisfies, in full

Beyond what the rest of the development needs: the checks of single blocks, the hints, the
references to concepts and flows, the requirements, and the interview questions.

## Main definitions

- `Learning.requirementReason`: the text for a requirement that is not met
- `Learning.Curriculum.Valid`: all that the loader establishes

## Main results

- `Learning.loadCurriculum_valid`: every curriculum that is returned is valid
-/

namespace Learning

open Except (bind_eq_ok forM_eq_ok)
open Json (Text ascii)
open Python (Value FloatOps)

variable {F : Type}

section Reasons

/-- `missing_for` -/
def Toolchain.missingFor (t : Toolchain) (requirement : Text) : List Text :=
  if requirement = ascii "cpp-build" then
    (([(ascii "cmake", t.cmake), (ascii "ctest", t.ctest),
      (ascii "a C++ compiler (g++/clang++)", t.cxx)].filter fun tool => !has tool.2).map Prod.fst) ++
      if has t.ninja || has t.make then []
      else [ascii "a build backend (ninja, or make/mingw32-make)"]
  else if requirement = ascii "gdb" then if has t.gdb then [] else [ascii "gdb"]
  else [requirement]

/-- `requirement_reason` -/
def requirementReason (requirement : Text) (t : Toolchain) : Text :=
  let missing := (ascii ", ").intercalate (t.missingFor requirement)
  if requirement = ascii "cpp-build" then
    ascii "This module needs a C++ toolchain and none was found: " ++ missing ++
      ascii " is not on PATH. Install a compiler plus CMake (on Windows: " ++
      ascii "`winget install BrechtSanders.WinLibs.POSIX.UCRT` and " ++
      ascii "`pip install cmake ninja`; on Debian/Ubuntu: " ++
      ascii "`apt install build-essential cmake gdb`), then restart " ++
      ascii "`python -m learning` and this module unlocks itself."
  else if requirement = ascii "gdb" then
    ascii "This module needs the GNU debugger and gdb is not on PATH. " ++
      ascii "Install it (Windows: the WinLibs MinGW-w64 package ships gdb; " ++
      ascii "Debian/Ubuntu: `apt install gdb`), then restart " ++
      ascii "`python -m learning`."
  else ascii "Unsatisfied requirement: " ++ requirement ++ ascii " (" ++ missing ++ ascii ")."

/-- A reason is not the empty text. -/
def Reason.Stated (t : Toolchain) : Reason F → Prop
  | .given value => value.eqStr [] = false
  | .requirement name => requirementReason name t ≠ []

theorem requirement_stated (t : Toolchain) (name : Text) :
    (Reason.requirement name : Reason F).Stated t := by
  show requirementReason name t ≠ []
  rw [requirementReason]
  split_ifs <;> (repeat' apply List.append_ne_nil_of_left_ne_nil) <;> decide

end Reasons

section Validity

/-- What is checked of a block by its type. -/
structure SoundBlock (S : Sources F) (block : Items F) : Prop where
  validator : hasType (ascii "verify") block = true →
    ∃ name ∈ S.knownValidators, Value.get (ascii "validator") block = .str name
  answer : hasType (ascii "quiz") block = true ∨ hasType (ascii "predict") block = true →
    ∃ options i, Value.get (ascii "options") block = .list options ∧
      (Value.get (ascii "answer_index") block).asInt? = some i ∧
      2 ≤ options.length ∧ 0 ≤ i ∧ i < options.length
  keywords : hasType (ascii "explain") block = true →
    ∃ keyword keywords, Value.get (ascii "keywords") block =
      .list ((keyword :: keywords).map .str)

/-- Hint `i` carries level `i + 1` and a text. -/
def SoundHints (fl : FloatOps F) (hints : List (Items F)) : Prop :=
  ∀ i hint, hints[i]? = some hint →
    (Value.get (ascii "level") hint).eqInt fl (i + 1 : Nat) = true ∧
      ∃ text, Value.get (ascii "text") hint = .str text

structure Lesson.Valid (S : Sources F) (concepts : List Text) (lesson : Lesson F) : Prop where
  blocks : ∀ block ∈ lesson.blocks, SoundBlock S block
  hints : SoundHints S.floats lesson.hints
  concepts : ∀ concept ∈ lesson.concepts, concept ∈ concepts
  requires : ∀ requirement ∈ lesson.requires, S.toolchain.satisfies requirement = false →
    lesson.status = .unavailable ∧ lesson.unavailableReason.Stated S.toolchain

structure InterviewQuestion.Valid (concepts : List Text) (question : InterviewQuestion) :
    Prop where
  keywords : question.keywords ≠ []
  concepts : ∀ concept ∈ question.concepts, concept ∈ concepts

/-- All that `load_curriculum` establishes. -/
structure Curriculum.Valid (S : Sources F) (c : Curriculum F) : Prop where
  sound : c.Sound
  lessons : ∀ entry ∈ c.lessons, entry.2.Valid S c.concepts
  flows : ∀ entry ∈ c.lessons, ∀ flow ∈ entry.2.flow, (Assoc.get? flow c.flows).isSome = true
  nonempty : c.interview ≠ []
  distinct : (c.interview.map InterviewQuestion.id).Nodup
  questions : ∀ question ∈ c.interview, question.Valid c.concepts

variable {S : Sources F} {path : Path}

theorem strings_eq_some {vs : List (Value F)} {ss : List Text} (h : strings vs = some ss) :
    vs = ss.map .str := by
  fun_induction strings vs generalizing ss with
  | case1 =>
    cases h
    rfl
  | case2 s vs ih =>
    obtain ⟨rest, hrest, rfl⟩ := Option.map_eq_some_iff.mp h
    rw [ih hrest]
    rfl
  | case3 => cases h

theorem requireStrList_cons {data : Items F} {key keyword : Text} {keywords : List Text}
    (h : requireStrList data key path = .ok (keyword :: keywords)) :
    Value.get key data = .list ((keyword :: keywords).map .str) := by
  unfold requireStrList getD at h
  rw [Value.get]
  cases hget : Assoc.get? key data with
  | none =>
    rw [hget] at h
    cases h
  | some value =>
    rw [hget, Option.getD_some] at h
    rw [Option.getD_some]
    cases value with
    | list vs =>
      dsimp only at h
      cases hvs : strings vs with
      | none =>
        rw [hvs] at h
        cases h
      | some ss =>
        rw [hvs] at h
        cases h
        rw [strings_eq_some hvs]
    | none | bool _ | int _ | float _ | str _ | dict _ => cases h

theorem eqStr_iff {text : Text} {value : Value F} : value.eqStr text = true ↔ value = .str text := by
  cases value <;> simp [Value.eqStr]

theorem hasType_iff {kind : Text} {block : Items F} :
    hasType kind block = true ↔ Value.get (ascii "type") block = .str kind :=
  eqStr_iff

/-- What the checks of one type leave of a block of that type. -/
theorem validateKind_ok {kind id : Text} {block : Items F} {u : Unit}
    (hkind : Value.get (ascii "type") block = .str kind)
    (h : validateKind S path kind id block = .ok u) : SoundBlock S block := by
  have htype (other : Text) : hasType other block = true ↔ kind = other := by
    rw [hasType_iff, hkind, Value.str.injEq]
  unfold validateKind at h
  constructor
  · intro hverify
    rw [if_pos ((htype _).mp hverify)] at h
    simp only [bind_eq_ok, require_eq_ok, List.any_eq_true] at h
    obtain ⟨-, -, name, hname, heq⟩ := h
    exact ⟨name, hname, eqStr_iff.mp heq⟩
  · rw [htype, htype]
    intro hquiz
    have hverify : kind ≠ ascii "verify" := by
      rcases hquiz with rfl | rfl <;> decide
    rw [if_neg hverify, if_pos hquiz] at h
    split at h
    · next options hoptions =>
      simp only [bind_eq_ok, require_eq_ok, decide_eq_true_eq] at h
      obtain ⟨-, hlength, hindex⟩ := h
      rw [Option.any_eq_true] at hindex
      obtain ⟨i, hi, hbounds⟩ := hindex
      rw [Bool.and_eq_true, decide_eq_true_eq, decide_eq_true_eq] at hbounds
      exact ⟨options, i, hoptions, hi, hlength, hbounds.1, hbounds.2⟩
    · cases h
  · rw [htype]
    rintro rfl
    rw [if_neg (by decide), if_neg (by decide), if_pos rfl] at h
    simp only [bind_eq_ok, require_eq_ok] at h
    obtain ⟨keywords, hkeywords, hne⟩ := h
    cases keywords with
    | nil => cases hne
    | cons keyword keywords => exact ⟨keyword, keywords, requireStrList_cons hkeywords⟩

theorem find_type {block : Items F} {kind : Text}
    (h : blockTypes.find? ((Value.get (ascii "type") block).eqStr ·) = some kind) :
    Value.get (ascii "type") block = .str kind := by
  have hfound := List.find?_some h
  exact eqStr_iff.mp hfound

theorem validateBlock_sound {seen : List Text} {block : Items F} {id : Text}
    (h : validateBlock S path seen block = .ok id) : SoundBlock S block := by
  rw [validateBlock, bind_eq_ok] at h
  obtain ⟨-, -, h⟩ := h
  split at h
  · cases h
  · next kind hkind =>
    split at h
    · cases h
    · simp only [bind_eq_ok] at h
      obtain ⟨_, _, _, _, _, hcheck, _⟩ := h
      exact validateKind_ok (find_type hkind) hcheck
    · cases h

/-- A block has the keys that are required for its type. -/
def HasRequired (block : Items F) : Prop :=
  ∀ kind, Value.get (ascii "type") block = .str kind →
    ∀ key ∈ (Assoc.get? kind blockRequiredKeys).getD [], (Assoc.get? key block).isSome = true

theorem validateBlock_required {seen : List Text} {block : Items F} {id : Text}
    (h : validateBlock S path seen block = .ok id) : HasRequired block := by
  rw [validateBlock, bind_eq_ok] at h
  obtain ⟨-, -, h⟩ := h
  split at h
  · cases h
  · next kind hkind =>
    intro kind' hkind'
    rw [find_type hkind, Value.str.injEq] at hkind'
    subst hkind'
    split at h
    · cases h
    · simp only [bind_eq_ok, require_eq_ok, forM_eq_ok] at h
      obtain ⟨_, _, _, hkeys, _⟩ := h
      exact hkeys
    · cases h

/-- Each block passes, after those before it. -/
theorem validateBlocks_each {seen : List Text} {blocks : List (Items F)} {u : Unit}
    (h : validateBlocks S path seen blocks = .ok u) :
    ∀ block ∈ blocks, ∃ seen id, validateBlock S path seen block = .ok id := by
  induction blocks generalizing seen u with
  | nil => simp
  | cons block blocks ih =>
    rw [validateBlocks, bind_eq_ok] at h
    obtain ⟨id, hblock, hrest⟩ := h
    exact List.forall_mem_cons.mpr ⟨⟨seen, id, hblock⟩, ih hrest⟩

theorem validateBlocks_sound {seen : List Text} {blocks : List (Items F)} {u : Unit}
    (h : validateBlocks S path seen blocks = .ok u) : ∀ block ∈ blocks, SoundBlock S block := by
  intro block hmem
  obtain ⟨_, _, hblock⟩ := validateBlocks_each h block hmem
  exact validateBlock_sound hblock

theorem parseLesson_required {data : Items F} {day : Int} {lesson : Lesson F}
    (h : parseLesson S data day path = .ok lesson) :
    ∀ block ∈ lesson.blocks, HasRequired block := by
  simp only [parseLesson, bind_eq_ok] at h
  obtain ⟨_, _, _, _, _, _, _, _, _, _, _, _, _, _, _, _, _, _, blocks, _, _, hblocks, _, _, _, _,
    _, _, _, _, _, _, _, _, hpure⟩ := h
  cases hpure
  intro block hmem
  obtain ⟨_, _, hblock⟩ := validateBlocks_each hblocks block hmem
  exact validateBlock_required hblock

theorem checkHints_ok {number : Nat} {hints : List (Items F)} {u : Unit}
    (h : checkHints S path number hints = .ok u) :
    ∀ i hint, hints[i]? = some hint →
      (Value.get (ascii "level") hint).eqInt S.floats (number + i : Nat) = true ∧
        ∃ text, Value.get (ascii "text") hint = .str text := by
  induction hints generalizing number u with
  | nil => simp
  | cons hint hints ih =>
    simp only [checkHints, bind_eq_ok, require_eq_ok, Bool.and_eq_true] at h
    obtain ⟨-, ⟨hlevel, htext⟩, hrest⟩ := h
    intro i other hother
    cases i with
    | zero =>
      cases hother
      refine ⟨hlevel, ?_⟩
      split at htext
      · next text heq => exact ⟨text, heq⟩
      · cases htext
    | succ i =>
      obtain ⟨hlevel, htext⟩ := ih hrest i other hother
      exact ⟨by rwa [show number + (i + 1) = number + 1 + i by omega], htext⟩

/-- The loop stops at a requirement that is not met, if there is one. -/
theorem firstMissing_ok {requires : List Text} {missing : Option Text}
    (h : firstMissing S path requires = .ok missing) {requirement : Text}
    (hmem : requirement ∈ requires) (hunmet : S.toolchain.satisfies requirement = false) :
    missing.isSome = true := by
  induction requires with
  | nil => cases hmem
  | cons first rest ih =>
    simp only [firstMissing, bind_eq_ok] at h
    obtain ⟨-, -, h⟩ := h
    split at h
    · next hmet =>
      obtain rfl | hmem := List.mem_cons.mp hmem
      · rw [hmet] at hunmet
        cases hunmet
      · exact ih h hmem
    · cases h
      rfl

/-- A lesson as it is parsed; its concepts are checked by the caller. -/
theorem parseLesson_valid {data : Items F} {day : Int} {lesson : Lesson F} {concepts : List Text}
    (h : parseLesson S data day path = .ok lesson)
    (hconcepts : ∀ concept ∈ lesson.concepts, concept ∈ concepts) : lesson.Valid S concepts := by
  simp only [parseLesson, bind_eq_ok] at h
  obtain ⟨_, _, _, _, _, _, _, _, _, _, _, _, _, _, missing, hmissing, _, _, blocks, _, _, hblocks,
    hints, _, _, hhints, _, _, _, _, _, _, _, _, hpure⟩ := h
  cases hpure
  refine ⟨validateBlocks_sound hblocks, ?_, hconcepts, ?_⟩
  · intro i hint hhint
    have hchecked := checkHints_ok hhints i hint hhint
    rwa [show 1 + i = i + 1 by omega] at hchecked
  · intro requirement hmem hunmet
    have hsome := firstMissing_ok hmissing hmem hunmet
    obtain ⟨name, rfl⟩ := Option.isSome_iff_exists.mp hsome
    exact ⟨rfl, requirement_stated _ name⟩

/-- A property of each lesson that is parsed is kept. -/
theorem forall_lessons_kept {concepts : List Text} {good : Lesson F → Prop}
    (hgood : ∀ data day path lesson, parseLesson S data day path = .ok lesson →
      (∀ concept ∈ lesson.concepts, concept ∈ concepts) → good lesson) :
    Kept S concepts fun lessons => ∀ entry ∈ lessons, good entry.2 := by
  intro lessons data day path lesson hs hlesson _ hconcepts entry hentry
  obtain hentry | hentry := List.mem_append.mp hentry
  · exact hs entry hentry
  · rw [List.mem_singleton.mp hentry]
    exact hgood data day path lesson hlesson hconcepts

theorem lessonsValid_kept {concepts : List Text} :
    Kept S concepts fun lessons => ∀ entry ∈ lessons, entry.2.Valid S concepts :=
  forall_lessons_kept fun _ _ _ _ => parseLesson_valid

theorem loadQuestion_valid {concepts seen : List Text} {raw : Items F}
    {question : InterviewQuestion} (h : loadQuestion concepts seen raw = .ok question) :
    question.Valid concepts ∧ question.id ∉ seen := by
  simp only [loadQuestion, bind_eq_ok, require_eq_ok, forM_eq_ok, List.contains_iff_mem] at h
  obtain ⟨id, _, _, hseen, _, _, _, _, keywords, _, _, hkeywords, _, _, _, hconcepts, hpure⟩ := h
  cases hpure
  refine ⟨⟨?_, hconcepts⟩, by simpa using hseen⟩
  rintro rfl
  cases hkeywords

theorem loadQuestions_valid {concepts seen : List Text} {raws : List (Value F)}
    {questions : List InterviewQuestion} (h : loadQuestions concepts seen raws = .ok questions) :
    (∀ question ∈ questions, question.Valid concepts ∧ question.id ∉ seen) ∧
      (questions.map InterviewQuestion.id).Nodup := by
  induction raws generalizing seen questions with
  | nil =>
    cases h
    simp
  | cons raw raws ih =>
    cases raw with
    | dict raw =>
      simp only [loadQuestions, bind_eq_ok] at h
      obtain ⟨question, hquestion, rest, hrest, hpure⟩ := h
      cases hpure
      obtain ⟨hvalid, hdistinct⟩ := ih hrest
      refine ⟨List.forall_mem_cons.mpr ⟨loadQuestion_valid hquestion, ?_⟩, ?_⟩
      · intro other hother
        obtain ⟨hother, hseen⟩ := hvalid other hother
        exact ⟨hother, fun hmem => hseen (List.mem_cons_of_mem _ hmem)⟩
      · rw [List.map_cons, List.nodup_cons]
        refine ⟨fun hmem => ?_, hdistinct⟩
        obtain ⟨other, hother, heq⟩ := List.mem_map.mp hmem
        exact (hvalid other hother).2 (heq ▸ List.mem_cons_self)
    | none | bool _ | int _ | float _ | str _ | list _ => cases h

theorem loadInterview_valid {concepts : List Text} {interview : List InterviewQuestion}
    (h : loadInterview S concepts = .ok interview) :
    (∀ question ∈ interview, question.Valid concepts) ∧
      (interview.map InterviewQuestion.id).Nodup := by
  rw [loadInterview, bind_eq_ok] at h
  obtain ⟨raw, -, h⟩ := h
  split at h
  · split at h
    · rw [bind_eq_ok] at h
      obtain ⟨_, -, h⟩ := h
      obtain ⟨hvalid, hdistinct⟩ := loadQuestions_valid h
      exact ⟨fun question hquestion => (hvalid question hquestion).1, hdistinct⟩
    · cases h
  · cases h

/-- The lessons of a curriculum satisfy what every lesson satisfies that is parsed. -/
theorem loadCurriculum_lessons {good : Lesson F → Prop}
    (hgood : ∀ data day path lesson, parseLesson S data day path = .ok lesson → good lesson)
    {c : Curriculum F} (h : loadCurriculum S = .ok c) : ∀ entry ∈ c.lessons, good entry.2 := by
  rw [loadCurriculum, bind_eq_ok] at h
  obtain ⟨program, -, h⟩ := h
  split at h
  · simp only [bind_eq_ok] at h
    obtain ⟨concepts, -, -, -, h⟩ := h
    split at h
    · simp only [bind_eq_ok] at h
      obtain ⟨⟨days, lessons⟩, hdays, _, _, _, _, _, _, _, _, _, _, hpure⟩ := h
      cases hpure
      have hkept : Kept S concepts fun lessons => ∀ entry ∈ lessons, good entry.2 :=
        forall_lessons_kept fun data day path lesson hlesson _ =>
          hgood data day path lesson hlesson
      exact loadDays_kept hkept (by simp) hdays
    · cases h
  · cases h

theorem loadCurriculum_required {c : Curriculum F} (h : loadCurriculum S = .ok c) :
    ∀ entry ∈ c.lessons, ∀ block ∈ entry.2.blocks, HasRequired block :=
  loadCurriculum_lessons (fun _ _ _ _ => parseLesson_required) h

/-- Every curriculum that `load_curriculum` returns is valid. -/
theorem loadCurriculum_valid {c : Curriculum F} (h : loadCurriculum S = .ok c) : c.Valid S := by
  have hsound := loadCurriculum_sound h
  have hinterview := loadCurriculum_interview h
  rw [loadCurriculum, bind_eq_ok] at h
  obtain ⟨program, -, h⟩ := h
  split at h
  · simp only [bind_eq_ok] at h
    obtain ⟨concepts, -, -, -, h⟩ := h
    split at h
    · simp only [bind_eq_ok, forM_eq_ok] at h
      obtain ⟨⟨days, lessons⟩, hdays, -, -, -, -, interview, hquestions, flows, -, -, hflows,
        hpure⟩ := h
      cases hpure
      obtain ⟨hvalid, hdistinct⟩ := loadInterview_valid hquestions
      refine ⟨hsound, loadDays_kept lessonsValid_kept (by simp) hdays, ?_, hinterview, hdistinct, hvalid⟩
      intro entry hentry flow hflow
      have hcheck := hflows entry hentry
      rw [checkFlow, hflow, require_eq_ok] at hcheck
      exact hcheck
    · cases h
  · cases h

end Validity

end Learning
