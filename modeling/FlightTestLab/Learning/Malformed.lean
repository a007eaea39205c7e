import FlightTestLab.Learning.Validity

/-!
# Malformed content

Where `load_curriculum` raises something else than the `CurriculumError` that `main` catches:
at a block type or a validator that has no hash, once all that is read before it has passed
its checks.

## Main definitions

- `Learning.Raising`: another exception than `CurriculumError`
- `Learning.MeetsUnhashable`: the loader meets a type or a validator that has no hash
- `Learning.FailsLoudly`: the loader raises `CurriculumError` or returns a valid curriculum

## Main results

- `Learning.raising_loadCurriculum_iff`: the one is raised where the other is met
- `Learning.failsLoudly_iff`: malformed content fails loudly otherwise
-/

namespace Learning

open Except (bind_eq_ok forM_eq_ok)
open Json (Text ascii)
open Python (Value)

variable {F : Type}

/-- An exception that is not a `CurriculumError`. -/
def Raising {α : Type} (x : Except (LoadError F) α) : Prop := ∃ e, x = .error (.raised e)

section Steps

variable {α β : Type}

theorem raising_bind {x : Except (LoadError F) α} {f : α → Except (LoadError F) β} :
    Raising (x >>= f) ↔ Raising x ∨ ∃ a, x = .ok a ∧ Raising (f a) := by
  cases x with
  | error e => simp [Raising]
  | ok a => simp [Raising]

@[simp] theorem not_raising_ok (a : α) : ¬ Raising (.ok a : Except (LoadError F) α) := by
  rintro ⟨e, h⟩
  cases h

@[simp] theorem not_raising_curriculum (path : Path) (defect : Defect F) :
    ¬ Raising (.error (.curriculum path defect) : Except (LoadError F) α) := by
  rintro ⟨e, h⟩
  cases h

@[simp] theorem not_raising_require (ok : Bool) (path : Path) (defect : Defect F) :
    ¬ Raising (require ok path defect) := by
  cases ok <;> simp [require]

@[simp] theorem raising_requireHashable (value : Value F) :
    Raising (requireHashable value) ↔ value.hashable = false := by
  cases h : value.hashable <;> simp [requireHashable, h, Raising]

@[simp] theorem not_raising_requireStr (data : Items F) (key : Text) (path : Path) :
    ¬ Raising (requireStr data key path) := by
  unfold requireStr
  split
  · split <;> simp
  · simp

@[simp] theorem not_raising_requireStrList (data : Items F) (key : Text) (path : Path) :
    ¬ Raising (requireStrList data key path) := by
  unfold requireStrList
  split
  · split <;> simp
  · simp

@[simp] theorem not_raising_requireObjects (value : Value F) (path : Path) (defect : Defect F) :
    ¬ Raising (requireObjects value path defect) := by
  unfold requireObjects
  split
  · split <;> simp
  · simp

@[simp] theorem not_raising_parseStatus (data : Items F) (path : Path) :
    ¬ Raising (parseStatus data path) := by
  unfold parseStatus
  dsimp only
  split_ifs <;> simp

theorem not_raising_forM {l : List α} {f : α → Except (LoadError F) Unit}
    (h : ∀ a ∈ l, ¬ Raising (f a)) : ¬ Raising (l.forM f) := by
  induction l with
  | nil => exact not_raising_ok ()
  | cons a l ih =>
    rw [List.forall_mem_cons] at h
    show ¬ Raising (f a >>= fun _ => l.forM f)
    rw [raising_bind]
    rintro (hfirst | ⟨_, -, hrest⟩)
    · exact h.1 hfirst
    · exact ih h.2 hrest

variable {S : Sources F} {path : Path}

@[simp] theorem not_raising_firstMissing (requires : List Text) :
    ¬ Raising (firstMissing S path requires) := by
  induction requires with
  | nil => exact not_raising_ok none
  | cons requirement rest ih =>
    simp only [firstMissing, raising_bind, not_raising_require, false_or, not_exists, not_and]
    intro _ _
    split
    · exact ih
    · exact not_raising_ok _

@[simp] theorem not_raising_checkHints (number : Nat) (hints : List (Items F)) :
    ¬ Raising (checkHints S path number hints) := by
  induction hints generalizing number with
  | nil => exact not_raising_ok ()
  | cons hint hints ih => simp [checkHints, raising_bind, ih]

end Steps

section Blocks

variable {S : Sources F} {path : Path}

/-- A block has a type without a hash; or it is the `verify` block that its id makes it, and its
validator has none. -/
def Unhashable (seen : List Text) (block : Items F) : Prop :=
  (Value.get (ascii "type") block).hashable = false ∨
  hasType (ascii "verify") block = true ∧
    (Value.get (ascii "validator") block).hashable = false ∧
    ∃ id, Value.get (ascii "id") block = .str id ∧ id ≠ [] ∧ id ∉ seen

theorem raising_validateKind_iff {kind id : Text} {block : Items F} :
    Raising (validateKind S path kind id block) ↔
      kind = ascii "verify" ∧ (Value.get (ascii "validator") block).hashable = false := by
  unfold validateKind
  by_cases hverify : kind = ascii "verify"
  · rw [if_pos hverify]
    simp [raising_bind, hverify]
  · rw [if_neg hverify]
    simp only [hverify, false_and, iff_false]
    split
    · split <;> simp [raising_bind]
    · split <;> simp [raising_bind]

theorem isSome_of_unhashable {key : Text} {block : Items F}
    (h : (Value.get key block).hashable = false) : (Assoc.get? key block).isSome = true := by
  rw [Value.get] at h
  cases hget : Assoc.get? key block with
  | none =>
    rw [hget] at h
    cases h
  | some value => rfl

theorem raising_validateBlock_iff {seen : List Text} {block : Items F} :
    Raising (validateBlock S path seen block) ↔ Unhashable seen block := by
  rw [validateBlock, raising_bind, raising_requireHashable, Unhashable]
  by_cases hhash : (Value.get (ascii "type") block).hashable = false
  · exact iff_of_true (.inl hhash) (.inl hhash)
  have hok : requireHashable (Value.get (ascii "type") block) = .ok () :=
    if_pos (by simpa using hhash)
  rw [or_iff_right hhash, or_iff_right hhash, hok]
  simp only [true_and, exists_const]
  -- only a block of a known type gets as far as its validator
  cases hkind : blockTypes.find? ((Value.get (ascii "type") block).eqStr ·) with
  | none =>
    refine iff_of_false (not_raising_curriculum _ _) ?_
    rintro ⟨hverify, -⟩
    exact absurd hverify (List.find?_eq_none.mp hkind (ascii "verify") (by decide))
  | some kind =>
    have hverify : hasType (ascii "verify") block = true ↔ kind = ascii "verify" := by
      rw [hasType_iff, find_type hkind, Value.str.injEq]
    rw [hverify]
    dsimp only
    split
    · next hid =>
      refine iff_of_false (not_raising_curriculum _ _) ?_
      rintro ⟨-, -, id, hstr, hne, -⟩
      rw [hid, Value.str.injEq] at hstr
      exact hne hstr.symm
    -- a string id that is not empty
    · next id hne hid =>
      have hnil : id ≠ [] := fun hnil => hne (hnil ▸ rfl)
      have hkeys (keys : List Text) : ¬ Raising (keys.forM fun key =>
          require (F := F) (Assoc.get? key block).isSome path (.missingBlockKey kind id key)) :=
        not_raising_forM fun _ _ => not_raising_require _ _ _
      simp only [raising_bind, not_raising_require, hkeys, false_or, Except.pure_eq_ok,
        not_raising_ok, and_false, exists_false, or_false, raising_validateKind_iff, require_eq_ok,
        forM_eq_ok, hid, Value.str.injEq, exists_eq_left', exists_const]
      constructor
      · rintro ⟨hfresh, -, rfl, hvalidator⟩
        exact ⟨rfl, hvalidator, hnil, by simpa using hfresh⟩
      · rintro ⟨rfl, hvalidator, -, hfresh⟩
        refine ⟨by simpa using hfresh, ?_, rfl, hvalidator⟩
        intro key hkey
        rw [List.mem_singleton.mp (show key ∈ [ascii "validator"] from hkey)]
        exact isSome_of_unhashable hvalidator
    · next hid hid' =>
      refine iff_of_false (not_raising_curriculum _ _) ?_
      rintro ⟨-, -, id, hstr, -⟩
      exact hid' id hstr

/-- A loop raises where it stands, or later. -/
theorem raising_validateBlocks_iff {seen : List Text} {blocks : List (Items F)} :
    Raising (validateBlocks S path seen blocks) ↔ ∃ before block after,
      blocks = before ++ block :: after ∧ validateBlocks S path seen before = .ok () ∧
        Unhashable ((before.map blockId).reverse ++ seen) block := by
  induction blocks generalizing seen with
  | nil =>
    refine iff_of_false (not_raising_ok ()) ?_
    rintro ⟨before, block, after, hnil, -⟩
    simp at hnil
  | cons block blocks ih =>
    rw [validateBlocks, raising_bind, raising_validateBlock_iff]
    constructor
    · rintro (hraises | ⟨id, hid, hraises⟩)
      · exact ⟨[], block, blocks, rfl, rfl, hraises⟩
      · obtain ⟨before, raiser, after, rfl, hbefore, hraises⟩ := ih.mp hraises
        have hname : blockId block = id := by
          rw [blockId, (validateBlock_ok hid).2.1]
        refine ⟨block :: before, raiser, after, rfl, ?_, ?_⟩
        · rw [validateBlocks, hid]
          exact hbefore
        · rwa [List.map_cons, List.reverse_cons, List.append_assoc, List.singleton_append, hname]
    · rintro ⟨before, raiser, after, heq, hbefore, hraises⟩
      cases before with
      | nil =>
        cases heq
        exact .inl hraises
      | cons first before =>
        cases heq
        rw [validateBlocks, bind_eq_ok] at hbefore
        obtain ⟨id, hid, hbefore⟩ := hbefore
        have hname : blockId block = id := by
          rw [blockId, (validateBlock_ok hid).2.1]
        rw [List.map_cons, List.reverse_cons, List.append_assoc, List.singleton_append,
          hname] at hraises
        exact .inr ⟨id, hid, ih.mpr ⟨before, raiser, after, rfl, hbefore, hraises⟩⟩

end Blocks

section Lessons

variable (S : Sources F)

/-- What `_parse_lesson` checks before it comes to the blocks, and the blocks. -/
structure Head (data : Items F) (path : Path) (blocks : List (Items F)) : Prop where
  id : ∃ id, requireStr data (ascii "id") path = .ok id
  title : ∃ title, requireStr data (ascii "title") path = .ok title
  objective : ∃ objective, requireStr data (ascii "objective") path = .ok objective
  minutes : 0 < (Value.get (ascii "estimated_minutes") data).asInt?.getD 0
  rest : ∃ status requires missing, parseStatus data path = .ok status ∧
    (status = .unavailable →
      (getD data (ascii "unavailable_reason") (.str [])).eqStr [] = false) ∧
    requireStrList data (ascii "requires") path = .ok requires ∧
    firstMissing S path requires = .ok missing ∧
    ((if missing.isSome then Status.unavailable else status) = .available →
      (getD data (ascii "blocks") (.list [])).truthy S.floats = true)
  blocks : requireObjects (getD data (ascii "blocks") (.list [])) path .blocksNotObjects =
    .ok blocks

/-- The blocks that come before it pass, and then there is one without a hash. -/
def BlocksMeet (path : Path) (blocks : List (Items F)) : Prop :=
  ∃ before block after, blocks = before ++ block :: after ∧
    validateBlocks S path [] before = .ok () ∧ Unhashable (before.map blockId) block

def LessonMeets (data : Items F) (path : Path) : Prop :=
  ∃ blocks, Head S data path blocks ∧ BlocksMeet S path blocks

variable {S} {path : Path}

theorem raising_blocks_iff {blocks : List (Items F)} :
    Raising (validateBlocks S path [] blocks) ↔ BlocksMeet S path blocks := by
  rw [raising_validateBlocks_iff, BlocksMeet]
  simp [Unhashable]

theorem raising_parseLesson_iff {data : Items F} {day : Int} :
    Raising (parseLesson S data day path) ↔ LessonMeets S data path := by
  have hreason (status : Status) (unnamed : Bool) :
      (decide (status ≠ .unavailable) || !unnamed) = true ↔
        (status = .unavailable → unnamed = false) := by
    cases status <;> simp
  have hfilled (status : Status) (filled : Bool) :
      (decide (status ≠ .available) || filled) = true ↔
        (status = .available → filled = true) := by
    cases status <;> simp
  simp only [parseLesson, raising_bind, not_raising_requireStr, not_raising_require,
    not_raising_parseStatus, not_raising_requireStrList, not_raising_firstMissing,
    not_raising_requireObjects, not_raising_checkHints, false_or, Except.pure_eq_ok, not_raising_ok,
    and_false, exists_false, or_false, require_eq_ok, raising_blocks_iff, exists_const, hreason,
    hfilled, decide_eq_true_eq]
  constructor
  · rintro ⟨id, hid, title, htitle, objective, hobjective, hminutes, status, hstatus, hnamed,
      requires, hrequires, missing, hmissing, hnonempty, blocks, hblocks, hmeets⟩
    exact ⟨blocks, ⟨⟨id, hid⟩, ⟨title, htitle⟩, ⟨objective, hobjective⟩, hminutes,
      ⟨status, requires, missing, hstatus, hnamed, hrequires, hmissing, hnonempty⟩, hblocks⟩, hmeets⟩
  · rintro ⟨blocks, hhead, hmeets⟩
    obtain ⟨id, hid⟩ := hhead.id
    obtain ⟨title, htitle⟩ := hhead.title
    obtain ⟨objective, hobjective⟩ := hhead.objective
    obtain ⟨status, requires, missing, hstatus, hnamed, hrequires, hmissing, hnonempty⟩ :=
      hhead.rest
    exact ⟨id, hid, title, htitle, objective, hobjective, hhead.minutes, status, hstatus, hnamed,
      requires, hrequires, missing, hmissing, hnonempty, blocks, hhead.blocks, hmeets⟩

end Lessons

section Days

variable (S : Sources F) (concepts : List Text)

/-- The lessons before it are loaded, and then there is one that meets it. -/
def LessonsMeet (day : Int) (path : Path) (lessons : List (Text × Lesson F))
    (raws : List (Value F)) : Prop :=
  ∃ before raw after extended, raws = before ++ .dict raw :: after ∧
    loadLessons S concepts day path lessons before = .ok extended ∧ LessonMeets S raw path

/-- The day passes its own checks, up to the lessons of its module. -/
structure DayMeets (lessons : List (Text × Lesson F)) (entry : Items F) : Prop where
  number : 0 < (Value.get (ascii "day") entry).asInt?.getD 0
  title : ∃ title, requireStr entry (ascii "title") .program = .ok title
  module : ∃ name items raws, Value.get (ascii "module") entry = .str name ∧
    S.json (.module name) = .ok (.dict items) ∧ Value.get (ascii "lessons") items = .list raws ∧
    LessonsMeet S concepts ((Value.get (ascii "day") entry).asInt?.getD 0) (.module name) lessons
      raws

/-- The days before it are loaded, and then there is one that meets it. -/
def DaysMeet (lessons : List (Text × Lesson F)) (entries : List (Value F)) : Prop :=
  ∃ before entry after days extended, entries = before ++ .dict entry :: after ∧
    loadDays S concepts lessons before = .ok (days, extended) ∧ DayMeets S concepts extended entry

/-- The loader meets a block whose type has no hash, or a `verify` block whose validator has
none. -/
def MeetsUnhashable : Prop :=
  ∃ program concepts days, S.json .program = .ok (.dict program) ∧
    requireStrList program (ascii "concepts") .program = .ok concepts ∧ concepts ≠ [] ∧
    Value.get (ascii "days") program = .list days ∧ DaysMeet S concepts [] days

/-- Each file is there, and `json.loads` decodes it or raises what `_load_json` catches. -/
def Decoded : Prop :=
  ∀ path e, S.json path = .error e → e = .valueError ∨ e = .recursionError

variable {S} {concepts} {path : Path}

theorem raising_loadLessons_iff {day : Int} {lessons : List (Text × Lesson F)}
    {raws : List (Value F)} :
    Raising (loadLessons S concepts day path lessons raws) ↔
      LessonsMeet S concepts day path lessons raws := by
  induction raws generalizing lessons with
  | nil =>
    refine iff_of_false (not_raising_ok _) ?_
    rintro ⟨before, raw, after, extended, hnil, -⟩
    simp at hnil
  | cons raw raws ih =>
    cases raw with
    | dict raw =>
      have hconcepts (lesson : Lesson F) : ¬ Raising (lesson.concepts.forM fun concept =>
          require (F := F) (concepts.contains concept) path
            (.unknownLessonConcept lesson.id concept)) :=
        not_raising_forM fun _ _ => not_raising_require _ _ _
      rw [loadLessons, raising_bind, raising_parseLesson_iff]
      simp only [raising_bind, not_raising_require, hconcepts, false_or, ih]
      -- the lesson that raises is the first, or comes after a first that is taken
      constructor
      · rintro (hmeets | ⟨lesson, hlesson, _, hnew, _, hknown, before, meeting, after, extended, rfl,
          hbefore, hmeets⟩)
        · exact ⟨[], raw, raws, lessons, rfl, rfl, hmeets⟩
        · refine ⟨.dict raw :: before, meeting, after, extended, rfl, ?_, hmeets⟩
          simp only [loadLessons, bind_eq_ok]
          exact ⟨lesson, hlesson, _, hnew, _, hknown, hbefore⟩
      · rintro ⟨before, meeting, after, extended, heq, hbefore, hmeets⟩
        cases before with
        | nil =>
          cases heq
          exact .inl hmeets
        | cons first before =>
          cases heq
          simp only [loadLessons, bind_eq_ok] at hbefore
          obtain ⟨lesson, hlesson, _, hnew, _, hknown, hbefore⟩ := hbefore
          exact .inr ⟨lesson, hlesson, _, hnew, _, hknown, before, meeting, after, extended, rfl,
            hbefore, hmeets⟩
    | none | bool _ | int _ | float _ | str _ | list _ =>
      refine iff_of_false (not_raising_curriculum _ _) ?_
      rintro ⟨before, meeting, after, extended, heq, hbefore, -⟩
      cases before with
      | nil => cases heq
      | cons first before =>
        cases heq
        cases hbefore

@[simp] theorem not_raising_loadJson (hread : Decoded S) : ¬ Raising (loadJson S path) := by
  rw [loadJson]
  cases hjson : S.json path with
  | ok value => exact not_raising_ok value
  | error e => rcases hread path e hjson with rfl | rfl <;> exact not_raising_curriculum _ _

theorem loadJson_eq_ok {value : Value F} :
    loadJson S path = .ok value ↔ S.json path = .ok value := by
  rw [loadJson]
  cases hjson : S.json path with
  | ok value => simp
  | error e => cases e <;> simp

theorem raising_loadDay_iff (hread : Decoded S) {lessons : List (Text × Lesson F)}
    {entry : Value F} :
    Raising (loadDay S concepts lessons entry) ↔
      ∃ items, entry = .dict items ∧ DayMeets S concepts lessons items := by
  cases entry with
  | dict entry =>
    simp only [loadDay, Value.dict.injEq, exists_eq_left']
    rw [raising_bind]
    simp only [not_raising_require, false_or, require_eq_ok, exists_const, decide_eq_true_eq]
    constructor
    · rintro ⟨hnumber, hraises⟩
      split at hraises
      · next name hname =>
        simp only [raising_bind, not_raising_requireStr, not_raising_loadJson hread, false_or,
          loadJson_eq_ok] at hraises
        obtain ⟨title, htitle, value, hvalue, hraises⟩ := hraises
        split at hraises
        · next items =>
          split at hraises
          · next raws hraws =>
            simp only [raising_bind, Except.pure_eq_ok, not_raising_ok, and_false, exists_false,
              or_false, raising_loadLessons_iff] at hraises
            exact ⟨hnumber, ⟨title, htitle⟩, name, items, raws, hname, hvalue, hraws, hraises⟩
          · exact absurd hraises (not_raising_curriculum _ _)
        · exact absurd hraises (not_raising_curriculum _ _)
      · exact absurd hraises (not_raising_curriculum _ _)
    · rintro ⟨hnumber, ⟨title, htitle⟩, name, items, raws, hname, hvalue, hraws, hmeets⟩
      refine ⟨hnumber, ?_⟩
      simp only [hname, htitle, loadJson_eq_ok.mpr hvalue, hraws, Except.ok_bind, raising_bind,
        raising_loadLessons_iff]
      exact .inl hmeets
  | none | bool _ | int _ | float _ | str _ | list _ =>
    refine iff_of_false (not_raising_curriculum _ _) ?_
    rintro ⟨items, heq, -⟩
    cases heq

theorem raising_loadDays_iff (hread : Decoded S) {lessons : List (Text × Lesson F)}
    {entries : List (Value F)} :
    Raising (loadDays S concepts lessons entries) ↔ DaysMeet S concepts lessons entries := by
  induction entries generalizing lessons with
  | nil =>
    refine iff_of_false (not_raising_ok _) ?_
    rintro ⟨before, entry, after, days, extended, hnil, -⟩
    simp at hnil
  | cons entry entries ih =>
    simp only [loadDays, raising_bind, raising_loadDay_iff hread, Except.pure_eq_ok, not_raising_ok,
      and_false, exists_false, or_false, ih, Prod.exists]
    constructor
    · rintro (⟨items, rfl, hmeets⟩ | ⟨day, loaded, hday, before, meeting, after, days, extended, rfl,
        hbefore, hmeets⟩)
      · exact ⟨[], items, entries, [], lessons, rfl, rfl, hmeets⟩
      · refine ⟨entry :: before, meeting, after, day :: days, extended, rfl, ?_, hmeets⟩
        simp only [loadDays, hday, hbefore, Except.ok_bind, Except.pure_eq_ok]
    · rintro ⟨before, meeting, after, days, extended, heq, hbefore, hmeets⟩
      cases before with
      | nil =>
        cases heq
        cases hbefore
        exact .inl ⟨meeting, rfl, hmeets⟩
      | cons first before =>
        cases heq
        simp only [loadDays, bind_eq_ok, Prod.exists] at hbefore
        obtain ⟨day, loaded, hday, rest, extended', hbefore, hpure⟩ := hbefore
        cases hpure
        exact .inr ⟨day, loaded, hday, before, meeting, after, rest, extended, rfl, hbefore, hmeets⟩

end Days

section Program

variable {S : Sources F} {concepts seen : List Text}

/-- Nothing after the days raises. -/
theorem not_raising_loadQuestions {raws : List (Value F)} :
    ¬ Raising (loadQuestions concepts seen raws) := by
  induction raws generalizing seen with
  | nil => exact not_raising_ok _
  | cons raw raws ih =>
    cases raw with
    | dict raw =>
      have hconcepts (id : Text) (named : List Text) : ¬ Raising (named.forM fun concept =>
          require (F := F) (concepts.contains concept) .interview
            (.unknownQuestionConcept id concept)) :=
        not_raising_forM fun _ _ => not_raising_require _ _ _
      simp only [loadQuestions, loadQuestion, raising_bind, not_raising_requireStr,
        not_raising_requireStrList, not_raising_require, hconcepts, ih, Except.pure_eq_ok,
        not_raising_ok, and_false, exists_false, or_false, not_false_eq_true]
    | none | bool _ | int _ | float _ | str _ | list _ => exact not_raising_curriculum _ _

theorem not_raising_loadInterview (hread : Decoded S) :
    ¬ Raising (loadInterview S concepts) := by
  rw [loadInterview, raising_bind, or_iff_right (not_raising_loadJson hread)]
  rintro ⟨value, -, hraises⟩
  split at hraises
  · split at hraises
    · simp [raising_bind, not_raising_loadQuestions] at hraises
    · exact not_raising_curriculum _ _ hraises
  · exact not_raising_curriculum _ _ hraises

theorem not_raising_loadFlows (hread : Decoded S) {stems : List Text} :
    ¬ Raising (loadFlows S stems) := by
  induction stems with
  | nil => exact not_raising_ok _
  | cons stem stems ih =>
    rw [loadFlows, raising_bind, or_iff_right (not_raising_loadJson hread)]
    rintro ⟨value, -, hraises⟩
    split at hraises
    · split at hraises
      · simp [raising_bind, ih] at hraises
      · exact not_raising_curriculum _ _ hraises
    · exact not_raising_curriculum _ _ hraises

theorem not_raising_checkPrerequisites {ordered : List Text} {lesson : Lesson F} :
    ¬ Raising (checkPrerequisites ordered lesson) :=
  not_raising_forM fun _ _ => by simp [raising_bind]

theorem not_raising_checkFlow {flows : List (Text × Items F)} {lesson : Lesson F} :
    ¬ Raising (checkFlow flows lesson) := by
  rw [checkFlow]
  split <;> simp

/-- What is raised besides `CurriculumError` is raised where a type or a validator has no hash. -/
theorem raising_loadCurriculum_iff (hread : Decoded S) :
    Raising (loadCurriculum S) ↔ MeetsUnhashable S := by
  have hprerequisites (ordered : List Text) (lessons : List (Text × Lesson F)) :
      ¬ Raising (lessons.forM fun lesson => checkPrerequisites ordered lesson.2) :=
    not_raising_forM fun _ _ => not_raising_checkPrerequisites
  have hflows (flows : List (Text × Items F)) (lessons : List (Text × Lesson F)) :
      ¬ Raising (lessons.forM fun lesson => checkFlow flows lesson.2) :=
    not_raising_forM fun _ _ => not_raising_checkFlow
  rw [loadCurriculum, raising_bind, or_iff_right (not_raising_loadJson hread)]
  simp only [loadJson_eq_ok]
  constructor
  · rintro ⟨value, hvalue, hraises⟩
    split at hraises
    · next program =>
      simp only [raising_bind, not_raising_requireStrList, not_raising_require, false_or,
        require_eq_ok, exists_const] at hraises
      obtain ⟨concepts, hconcepts, hnonempty, hraises⟩ := hraises
      split at hraises
      · next entry entries hdays =>
        simp only [raising_bind, not_raising_require, hprerequisites, hflows,
          not_raising_loadInterview hread, not_raising_loadFlows hread, Except.pure_eq_ok,
          not_raising_ok, and_false, exists_false, or_false, raising_loadDays_iff hread] at hraises
        exact ⟨program, concepts, entry :: entries, hvalue, hconcepts, by simpa using hnonempty,
          hdays, hraises⟩
      · exact absurd hraises (not_raising_curriculum _ _)
    · exact absurd hraises (not_raising_curriculum _ _)
  · rintro ⟨program, concepts, days, hprogram, hconcepts, hnonempty, hdays, hmeets⟩
    refine ⟨.dict program, hprogram, ?_⟩
    have hfilled : concepts.isEmpty = false := by simpa using hnonempty
    obtain ⟨entry, entries, rfl⟩ : ∃ entry entries, days = entry :: entries := by
      obtain ⟨before, meeting, after, _, _, rfl, -⟩ := hmeets
      exact List.exists_cons_of_ne_nil (by simp)
    simp only [hconcepts, hdays, hfilled, Except.ok_bind, require, Bool.not_false, if_true]
    rw [raising_bind, raising_loadDays_iff hread]
    exact .inl hmeets

variable (S) in
/-- The call raises `CurriculumError`, or it returns a valid curriculum. -/
def FailsLoudly : Prop :=
  (∃ path defect, loadCurriculum S = .error (.curriculum path defect)) ∨
    ∃ c, loadCurriculum S = .ok c ∧ c.Valid S

theorem not_raising_of_failsLoudly (h : FailsLoudly S) : ¬ Raising (loadCurriculum S) := by
  obtain ⟨path, defect, heq⟩ | ⟨c, heq, -⟩ := h
  · rw [heq]
    exact not_raising_curriculum path defect
  · rw [heq]
    exact not_raising_ok c

/-- Malformed content fails loudly, unless the loader meets a type or a validator without a
hash. -/
theorem failsLoudly_iff (hread : Decoded S) : FailsLoudly S ↔ ¬ MeetsUnhashable S := by
  rw [← raising_loadCurriculum_iff hread]
  constructor
  · exact not_raising_of_failsLoudly
  · intro hquiet
    cases hload : loadCurriculum S with
    | ok c => exact .inr ⟨c, hload, loadCurriculum_valid hload⟩
    | error e =>
      cases e with
      | curriculum path defect => exact .inl ⟨path, defect, hload⟩
      | raised e => exact absurd ⟨e, hload⟩ hquiet

end Program

section Sample

/-- The program of `sampleSources`, each flow file of which is malformed. -/
def decodedSources : Sources Text :=
  { sampleSources with
    json := fun
      | .flow _ => .error .valueError
      | path => sampleSources.json path }

/-- The same program with one block, the type of which is a list. -/
def unhashableSources : Sources Text :=
  { decodedSources with
    json := fun
      | .module _ => .ok (.dict [(ascii "lessons", .list [.dict
          [(ascii "id", .str (ascii "z")), (ascii "title", .str (ascii "title")),
            (ascii "objective", .str (ascii "objective")), (ascii "estimated_minutes", .int 5),
            (ascii "blocks", .list [.dict [(ascii "type", .list [])]])]])])
      | path => decodedSources.json path }

theorem decodedSources_readable : Decoded decodedSources := by
  intro path e h
  cases path with
  | flow stem => exact .inl (Except.error.inj h).symm
  | program | module _ | interview => cases h

theorem unhashableSources_readable : Decoded unhashableSources := by
  intro path e h
  cases path with
  | flow stem => exact .inl (Except.error.inj h).symm
  | program | module _ | interview => cases h

theorem failsLoudly_sample : FailsLoudly decodedSources := by
  refine (failsLoudly_iff decodedSources_readable).mpr fun hmeets => ?_
  have hok : (loadCurriculum decodedSources).isOk = true := by decide +kernel
  obtain ⟨e, hraised⟩ := (raising_loadCurriculum_iff decodedSources_readable).mpr hmeets
  rw [hraised] at hok
  cases hok

/-- A block `{"type": []}` makes the loader raise `TypeError`. -/
theorem listed_type_raises : ¬ ∀ S : Sources Text, Decoded S → FailsLoudly S := by
  intro hclaim
  apply not_raising_of_failsLoudly (hclaim unhashableSources unhashableSources_readable)
  have hraised : (match loadCurriculum unhashableSources with
      | .error (.raised _) => true
      | _ => false) = true := by decide +kernel
  split at hraised
  · next e heq => exact ⟨e, heq⟩
  · cases hraised

end Sample

end Learning
