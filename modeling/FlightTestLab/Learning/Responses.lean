import FlightTestLab.Learning.Handlers
import FlightTestLab.Learning.Robust

/-!
# Every POST request is answered

On a store whose records are complete the endpoints answer, whatever the body; the checks
before them answer unless `urlparse` raises, or the client does not send what it announces.

## Main definitions

- `Learning.State.Full`: a store with complete records
- `Learning.Handler.OriginRaises`: the check of the origin raises
- `Learning.Handler.Delivered`: the bytes that are read come
- `Learning.Handler.AnsweredOnce`: there is exactly one response, and a refusal changes nothing

## Main results

- `Learning.Handler.route_answers`: an endpoint sends exactly one response
- `Learning.Handler.answeredOnce_iff`: when `do_POST` does
-/

namespace Learning

open Hoare (Prog Triple triple_bind triple_ite triple_pure)
open Json (Text ascii)
open Python (Value Error FloatOps)

variable {F : Type}

section Full

/-- Every record has the fields of its template; a streak may be missing. -/
structure State.Full (s : State F) : Prop where
  lessons : s.Templated
  concepts : ∀ concept entry, s.concepts.get? concept = some entry → entry.Usable
  interview : ∀ questionId entry, s.interview.get? questionId = some entry → entry.Usable

theorem LessonRecord.Templated.usable {r : LessonRecord F} (h : r.Templated) (c : Curriculum F)
    (lesson : Lesson F) : r.Usable c lesson := by
  obtain ⟨⟨_, hstatus⟩, ⟨_, hsteps⟩, ⟨_, hvalidations⟩, ⟨_, hquiz⟩, ⟨_, hattempts⟩, ⟨_, hexplain⟩,
    ⟨_, hcount⟩, ⟨_, hhints⟩, -⟩ := h
  constructor <;> simp [*]

theorem State.Full.usable {s : State F} (h : s.Full) (c : Curriculum F) : s.Usable c where
  lessons entry _ r hr := (h.lessons _ r hr).usable c entry.2
  concepts concept _ := h.concepts concept
  questions questionId _ := h.interview questionId

/-- A step is recorded under any id. -/
theorem recordStep_full {s : State F} (h : s.Full) (lessonId blockId : Text) :
    ∃ s', recordStep s lessonId blockId = .ok s' := by
  have hsteps : ∃ ids, (lessonRecord s lessonId).stepsDone = .val ids := by
    rw [lessonRecord]
    cases hr : s.lessons.get? lessonId with
    | none => exact ⟨[], rfl⟩
    | some r =>
      obtain ⟨ids, hids⟩ := (h.lessons lessonId r hr).stepsDone
      refine ⟨ids, ?_⟩
      rw [Option.getD_some, LessonRecord.filled, hids, Field.fill_val]
  obtain ⟨ids, hids⟩ := hsteps
  rw [recordStep, hids]
  exact ⟨_, rfl⟩

/-- The records of a ledger are complete. -/
theorem state_full (a : Ledger) : (a.state : State F).Full where
  lessons := state_templated a
  concepts concept entry h := by
    rw [show (a.state : State F).concepts = a.concepts.map Tally.entry from rfl, Dict.get?_map,
      Option.map_eq_some_iff] at h
    obtain ⟨t, -, rfl⟩ := h
    constructor <;> simp [Tally.entry]
  interview questionId entry h := by
    rw [show (a.state : State F).interview = a.interview.map Answers.entry from rfl, Dict.get?_map,
      Option.map_eq_some_iff] at h
    obtain ⟨answers, -, rfl⟩ := h
    constructor <;> simp [Answers.entry]

end Full

namespace Handler

section Rules

/-- Nothing more is sent than before, and the store is as it has to be. -/
def Pending (good : State F → Prop) (sent : List (Response F)) (w : World F) : Prop :=
  good w.state ∧ w.sent = sent

/-- One response more is sent. -/
def Answered (sent : List (Response F)) (_ : Unit) (w : World F) : Prop :=
  ∃ response, w.sent = sent ++ [response]

variable {good : State F → Prop} (good' : State F → Prop) {sent : List (Response F)}

theorem answers_send (payload : Value F) (status : Nat) :
    Triple (Pending good sent) (sendJson payload status) (Answered sent) := by
  apply Hoare.triple_modify
  rintro w ⟨-, rfl⟩
  exact ⟨⟨status, payload⟩, rfl⟩

theorem answers_error (status : Nat) (message : Text) :
    Triple (Pending good sent) (sendErrorJson status message) (Answered sent) :=
  answers_send _ _

theorem triple_update {α : Type} {op : State F → Except Error (α × State F)}
    (h : ∀ s, good s → ∃ a s', op s = .ok (a, s') ∧ good' s') :
    Triple (Pending good sent) (update op) fun _ => Pending good' sent := by
  apply Hoare.triple_access
  rintro w ⟨hgood, hsent⟩
  obtain ⟨a, s', hop, hgood'⟩ := h w.state hgood
  refine ⟨a, { w with state := s' }, ?_, hgood', hsent⟩
  rw [hop]

theorem triple_record {op : State F → Except Error (State F)}
    (h : ∀ s, good s → ∃ s', op s = .ok s' ∧ good' s') :
    Triple (Pending good sent) (record op) fun _ => Pending good' sent := by
  apply triple_update good'
  intro s hgood
  obtain ⟨s', hop, hgood'⟩ := h s hgood
  refine ⟨(), s', ?_, hgood'⟩
  rw [hop]
  rfl

theorem triple_query {α : Type} {op : State F → Except Error α}
    (h : ∀ s, good s → ∃ a, op s = .ok a) :
    Triple (Pending good sent) (query op) fun _ => Pending good sent := by
  apply triple_update good
  intro s hgood
  obtain ⟨a, hop⟩ := h s hgood
  refine ⟨a, s, ?_, hgood⟩
  rw [hop]
  rfl

theorem attempt_bind {α β : Type} {x : Except Error α} {a : α} (h : x = .ok a)
    (f : α → Action F β) : (attempt x >>= f) = f a := by
  rw [h]
  rfl

theorem attempt_bind_error {α β : Type} {x : Except Error α} {e : Error} (h : x = .error e)
    (f : α → Action F β) : (attempt x >>= f) = Prog.lift (.error (.raised e)) := by
  rw [h]
  rfl

theorem update_of_ok {α : Type} {op : State F → Except Error (α × State F)} {w : World F} {a : α}
    {s : State F} (h : op w.state = .ok (a, s)) : update op w = (.ok a, { w with state := s }) := by
  rw [update, Prog.access, h]

theorem query_of_ok {α : Type} {op : State F → Except Error α} {w : World F} {a : α}
    (h : op w.state = .ok a) : query op w = (.ok a, w) := by
  rw [query, update_of_ok]
  rw [h]
  rfl

/-- An unconditional write, and then one response. -/
theorem answers_record {op : State F → Except Error (State F)} {payload : Value F} {status : Nat}
    (h : ∀ s, good s → ∃ s', op s = .ok s') :
    Triple (Pending good sent) (record op >>= fun _ => sendJson payload status)
      (Answered sent) := by
  refine triple_bind (triple_record (fun _ => True) ?_) fun _ => answers_send _ _
  intro s hgood
  obtain ⟨s', hop⟩ := h s hgood
  exact ⟨s', hop, trivial⟩

end Rules

section Lookups

variable {S : Sources F} {c : Curriculum F} {lesson : Lesson F}

theorem item_of_isSome {key : Text} {items : Items F} (h : (Assoc.get? key items).isSome = true) :
    item key items = .ok (Value.get key items) := by
  obtain ⟨value, hvalue⟩ := Option.isSome_iff_exists.mp h
  rw [item, Value.get, hvalue]
  rfl

/-- What is not `None` is there. -/
theorem item_of_get {key : Text} {items : Items F} (h : Value.get key items ≠ .none) :
    item key items = .ok (Value.get key items) := by
  apply item_of_isSome
  cases hget : Assoc.get? key items with
  | none =>
    rw [Value.get, hget] at h
    exact absurd rfl h
  | some value => rfl

theorem strings_map (texts : List Text) : strings (texts.map (.str : Text → Value F)) = some texts := by
  induction texts with
  | nil => rfl
  | cons text texts ih =>
    rw [List.map_cons, strings, ih]
    rfl

/-- The search among loaded blocks returns; what it finds is one of them and of one of the types. -/
theorem findBlock_ok (kinds : List Text) (blockId : Value F) {blocks : List (Items F)}
    (h : SoundBlocks blocks) :
    ∃ found, findBlock kinds blockId blocks = .ok found ∧
      ∀ block ∈ found, block ∈ blocks ∧ ∃ kind ∈ kinds, hasType kind block = true := by
  induction blocks with
  | nil => exact ⟨none, rfl, by simp⟩
  | cons block blocks ih =>
    obtain ⟨kind, -, htype⟩ := h.typed block List.mem_cons_self
    obtain ⟨id, hid, -⟩ := h.named block List.mem_cons_self
    have hrest : SoundBlocks blocks :=
      ⟨fun other hmem => h.typed other (List.mem_cons_of_mem _ hmem),
        fun other hmem => h.named other (List.mem_cons_of_mem _ hmem), h.distinct.of_cons⟩
    obtain ⟨found, hfound, hspec⟩ := ih hrest
    have hlater : ∀ other ∈ found,
        other ∈ block :: blocks ∧ ∃ kind ∈ kinds, hasType kind other = true := by
      intro other hother
      obtain ⟨hmem, hkind⟩ := hspec other hother
      exact ⟨List.mem_cons_of_mem _ hmem, hkind⟩
    have hitem : item (ascii "type") block = .ok (Value.get (ascii "type") block) :=
      item_of_get (by rw [hasType_iff.mp htype]; simp)
    have hitem' : item (ascii "id") block = .ok (Value.get (ascii "id") block) :=
      item_of_get (by rw [hid]; simp)
    rw [findBlock, hitem, Except.ok_bind]
    split_ifs with hkinds
    · rw [hitem', Except.ok_bind]
      split_ifs
      · refine ⟨some block, rfl, ?_⟩
        rintro _ ⟨⟩
        obtain ⟨kind', hmem, hkind'⟩ := List.any_eq_true.mp hkinds
        exact ⟨List.mem_cons_self, kind', hmem, hkind'⟩
      · exact ⟨found, hfound, hlater⟩
    · exact ⟨found, hfound, hlater⟩

/-- A key that is required for a block's type. -/
theorem item_required {block : Items F} (h : HasRequired block) {kind key : Text}
    (htype : hasType kind block = true)
    (hkey : key ∈ (Assoc.get? kind blockRequiredKeys).getD []) :
    item key block = .ok (Value.get key block) :=
  item_of_isSome (h kind (hasType_iff.mp htype) key hkey)

/-- A hint of a loaded lesson has its level and its text. -/
theorem revealedHint_ok {concepts : List Text} (h : lesson.Valid S concepts) {hint : Items F}
    (hmem : hint ∈ lesson.hints) :
    item (ascii "level") hint = .ok (Value.get (ascii "level") hint) ∧
      item (ascii "text") hint = .ok (Value.get (ascii "text") hint) := by
  obtain ⟨i, hi⟩ := List.mem_iff_getElem?.mp hmem
  obtain ⟨hlevel, text, htext⟩ := h.hints i hint hi
  constructor
  · apply item_of_get
    intro hnone
    rw [hnone] at hlevel
    cases hlevel
  · apply item_of_get
    rw [htext]
    simp

theorem blockIds_ne_nil_of_mem (hmem : (lesson.id, lesson) ∈ c.lessons)
    {block : Items F} (hblock : block ∈ lesson.blocks) : c.blockIds ≠ [] := by
  apply List.ne_nil_of_mem (a := blockId block)
  exact List.mem_flatMap.mpr ⟨_, hmem, List.mem_map_of_mem hblock⟩

end Lookups

section Lessons

variable {S : Sources F} {c : Curriculum F} {P : Platform F} {good : State F → Prop}
  {sent : List (Response F)}

/-- After the lookup: the lesson is found, or the request is answered. -/
def Found (c : Curriculum F) (good : State F → Prop) (sent : List (Response F)) :
    Option (Lesson F) → World F → Prop
  | none, w => Answered sent () w
  | some lesson, w => (lesson.id, lesson) ∈ c.lessons ∧ Pending good sent w

theorem lessonOr404_found (hc : c.Sound) (lessonId : Value F) :
    Triple (Pending good sent) (lessonOr404 P c lessonId) (Found c good sent) := by
  have hrefuse (status : Nat) (message : Text) :
      Triple (Pending good sent) (sendErrorJson status message >>= fun _ => pure none)
        (Found c good sent) :=
    triple_bind (answers_error status message) fun _ => triple_pure fun _ hw => hw
  unfold lessonOr404
  split
  · next id =>
    split
    · exact hrefuse _ _
    · next lesson hl =>
      have hmem := Assoc.mem_of_get? hl
      have hid : lesson.id = id := hc.ids _ hmem
      rw [← hid] at hmem
      exact triple_pure fun w hw => ⟨hmem, hw⟩
  · exact hrefuse _ _

theorem forLesson_answers (hc : c.Sound) {body : Items F} {rest : Lesson F → Action F Unit}
    (h : ∀ lesson, (lesson.id, lesson) ∈ c.lessons →
      Triple (Pending good sent) (rest lesson) (Answered sent)) :
    Triple (Pending good sent) (forLesson P c body rest) (Answered sent) := by
  refine triple_bind (lessonOr404_found hc _) fun found => ?_
  cases found with
  | none => exact triple_pure fun _ hw => hw
  | some lesson =>
    rintro w ⟨hmem, hw⟩
    exact h lesson hmem w hw

theorem ifAvailable_answers {lesson : Lesson F} {rest : Action F Unit}
    (h : Triple (Pending good sent) rest (Answered sent)) :
    Triple (Pending good sent) (ifAvailable lesson rest) (Answered sent) :=
  triple_ite (fun _ => answers_error _ _) fun _ => h

end Lessons

section Endpoints

variable {S : Sources F} {c : Curriculum F} (hload : loadCurriculum S = .ok c) {P : Platform F}
  {m : Moment} {sent : List (Response F)} {body : Items F}

include hload

theorem mem_orderedLessonIds {lesson : Lesson F} (hmem : (lesson.id, lesson) ∈ c.lessons) :
    lesson.id ∈ c.orderedLessonIds := by
  rw [(loadCurriculum_sound hload).ordered]
  exact List.mem_map_of_mem hmem

theorem concepts_subset {lesson : Lesson F} (hmem : (lesson.id, lesson) ∈ c.lessons) :
    lesson.concepts ⊆ c.concepts :=
  ((loadCurriculum_valid hload).lessons _ hmem).concepts

theorem lessonPublic_usable {lesson : Lesson F} (hmem : (lesson.id, lesson) ∈ c.lessons) :
    Triple (Pending (State.Usable c) sent) (lessonPublic P c lesson)
      fun _ => Pending (State.Usable c) sent := by
  have hc := loadCurriculum_sound hload
  refine triple_bind (triple_query fun s _ => ⟨s, rfl⟩) fun snapshot => ?_
  refine triple_bind (triple_query fun s hs => ?_) fun answer => ?_
  · have hlesson : Checkable P.floats s lesson := hs.checkable hc hmem
    obtain ⟨missing, hmissing⟩ := lessonCompletion_ok hlesson (c := some c) (by
      rintro _ ⟨⟩ id other hother
      exact hs.checkable hc (Assoc.mem_of_get? hother))
    exact ⟨_, hmissing⟩
  obtain ⟨hints, hhints⟩ : ∃ hints, (lesson.hints.take
      (hintsUsedOf (snapshot.lessons.get? lesson.id))).mapM revealedHint = .ok hints := by
    apply Except.exists_mapM_eq_ok
    intro hint hhint
    obtain ⟨hlevel, htext⟩ :=
      revealedHint_ok ((loadCurriculum_valid hload).lessons _ hmem) (List.mem_of_mem_take hhint)
    rw [revealedHint, hlevel, htext]
    exact ⟨_, rfl⟩
  dsimp only
  rw [attempt_bind hhints]
  exact triple_pure fun _ hw => hw

theorem handleStart_answers :
    Triple (Pending State.Full sent) (handleStart P c m body) (Answered sent) := by
  have hc := loadCurriculum_sound hload
  refine forLesson_answers hc fun lesson hmem => ifAvailable_answers ?_
  refine triple_bind (triple_record (State.Usable c) fun s hs =>
    markStarted_ok hc (hs.usable c) m.clock (mem_orderedLessonIds hload hmem)) fun _ => ?_
  exact triple_bind (lessonPublic_usable hload hmem) fun _ => answers_send _ _

theorem answerQuestion_answers {lesson : Lesson F} (hmem : (lesson.id, lesson) ∈ c.lessons)
    {kind : Text} (hkind : kind = ascii "quiz" ∨ kind = ascii "predict") (blockId : Text) :
    Triple (Pending State.Full sent) (answerQuestion P m lesson kind blockId body)
      (Answered sent) := by
  have hc := loadCurriculum_sound hload
  obtain ⟨found, hfound, hspec⟩ := findBlock_ok [ascii "quiz", ascii "predict"]
    (.str blockId) (hc.blocks _ hmem)
  rw [answerQuestion, attempt_bind hfound]
  split
  · exact answers_error _ _
  · next block hblock =>
    obtain ⟨rfl, htype⟩ := Option.filter_eq_some_iff.mp hblock
    obtain ⟨hblock, -⟩ := hspec block rfl
    split
    · exact answers_error _ _
    · have hindex : item (ascii "answer_index") block = .ok (Value.get (ascii "answer_index") block) := by
        refine item_required (loadCurriculum_required hload _ hmem block hblock) htype ?_
        rcases hkind with rfl | rfl <;> decide
      rw [attempt_bind hindex]
      refine answers_record fun s hs => ?_
      split_ifs
      · obtain ⟨s', hs', -⟩ := recordQuiz_ok hc (hs.usable c) m.clock
          (mem_orderedLessonIds hload hmem) (blockIds_ne_nil_of_mem hmem hblock)
          (concepts_subset hload hmem) _
        exact ⟨s', hs'⟩
      · exact recordStep_full hs _ _

theorem answerExplain_answers {lesson : Lesson F} (hmem : (lesson.id, lesson) ∈ c.lessons)
    (blockId : Text) :
    Triple (Pending State.Full sent) (answerExplain P m lesson blockId body) (Answered sent) := by
  have hc := loadCurriculum_sound hload
  obtain ⟨found, hfound, hspec⟩ := findBlock_ok [ascii "explain"] (.str blockId)
    (hc.blocks _ hmem)
  rw [answerExplain, attempt_bind hfound]
  split
  · exact answers_error _ _
  · next block =>
    obtain ⟨hblock, kind, hkind, htype⟩ := hspec block rfl
    obtain rfl := List.mem_singleton.mp hkind
    have hrequired := loadCurriculum_required hload _ hmem block hblock
    split
    · split_ifs
      · exact answers_error _ _
      · obtain ⟨keyword, keywords, hkeywords⟩ :=
          (((loadCurriculum_valid hload).lessons _ hmem).blocks block hblock).keywords htype
        have hof : keywordsOf (Value.get (ascii "keywords") block) = .ok (keyword :: keywords) := by
          rw [hkeywords, keywordsOf, strings_map]
          rfl
        rw [attempt_bind (item_required hrequired htype (by decide)), attempt_bind hof]
        refine triple_bind (triple_record _ fun s hs => recordExplain_ok hc (hs.usable c) m.clock
          (mem_orderedLessonIds hload hmem) (blockIds_ne_nil_of_mem hmem hblock)
          (concepts_subset hload hmem) _) fun _ => ?_
        rw [attempt_bind (item_required hrequired htype (by decide))]
        exact answers_send _ _
    · exact answers_error _ _

theorem handleStep_answers :
    Triple (Pending State.Full sent) (handleStep P c m body) (Answered sent) := by
  refine forLesson_answers (loadCurriculum_sound hload) fun lesson hmem => ?_
  split
  · next blockId kind _ _ =>
    split_ifs with hlearn hquiz
    · exact answers_record fun s hs => recordStep_full hs _ _
    · exact answerQuestion_answers hload hmem hquiz blockId
    · exact answerExplain_answers hload hmem blockId
    · exact answers_error _ _
  · exact answers_error _ _

theorem handleHint_answers :
    Triple (Pending State.Full sent) (handleHint P c body) (Answered sent) := by
  have hc := loadCurriculum_sound hload
  refine forLesson_answers hc fun lesson hmem => ?_
  split
  · exact answers_error _ _
  · next index hint hat =>
    have hhint : hint ∈ lesson.hints := by
      unfold hintAt at hat
      split at hat
      · cases hat
      · split_ifs at hat
        obtain ⟨_, hget, hpair⟩ := Option.map_eq_some_iff.mp hat
        cases hpair
        exact List.mem_of_getElem? hget
    obtain ⟨hlevel, htext⟩ :=
      revealedHint_ok ((loadCurriculum_valid hload).lessons _ hmem) hhint
    refine triple_bind (triple_update (fun _ => True) fun s hs => ?_) fun _ => ?_
    · obtain ⟨⟨revealed, s', saved⟩, hanswer, -⟩ :=
        recordHint_ok hc (hs.usable c) (mem_orderedLessonIds hload hmem) index
      refine ⟨revealed, s', ?_, trivial⟩
      rw [hanswer]
      rfl
    · rw [attempt_bind hlevel, attempt_bind htext]
      exact answers_send _ _

theorem recordResult_answers {lesson : Lesson F} (hmem : (lesson.id, lesson) ∈ c.lessons)
    {block : Items F} (hblock : block ∈ lesson.blocks) (blockId : Text) (result : CheckResult F)
    (crashed : Bool) :
    Triple (Pending State.Full sent) (recordResult P m lesson block blockId result crashed)
      (Answered sent) := by
  have hc := loadCurriculum_sound hload
  have hid := mem_orderedLessonIds hload hmem
  have hb := blockIds_ne_nil_of_mem hmem hblock
  refine triple_bind (triple_query fun s hs => ?_) fun seen => ?_
  · split_ifs
    · exact validationPassed_usable hc (hs.usable c) hid hb blockId
    · exact ⟨false, rfl⟩
  · refine answers_record fun s hs => ?_
    have hsub : (if crashed then [] else lesson.concepts) ⊆ c.concepts := by
      split_ifs
      · exact List.nil_subset _
      · exact concepts_subset hload hmem
    obtain ⟨s', hs', -⟩ := recordValidation_ok hc (hs.usable c) m.clock hid hb hsub _ _ _
    exact ⟨s', hs'⟩

theorem runCheck_answers {lesson : Lesson F} (hmem : (lesson.id, lesson) ∈ c.lessons)
    {block : Items F} (hblock : block ∈ lesson.blocks)
    (htype : hasType (ascii "verify") block = true) (blockId : Text) (args : Items F) :
    Triple (Pending State.Full sent) (runCheck P m lesson block blockId args) (Answered sent) := by
  refine triple_ite (fun _ => answers_error _ _) fun _ => ?_
  rw [attempt_bind (item_required (loadCurriculum_required hload _ hmem block hblock) htype
    (by decide))]
  split
  · exact recordResult_answers hload hmem hblock _ _ _
  · exact triple_ite (fun _ => answers_error _ _) fun _ =>
      recordResult_answers hload hmem hblock _ _ _

theorem handleValidate_answers :
    Triple (Pending State.Full sent) (handleValidate P c m body) (Answered sent) := by
  have hc := loadCurriculum_sound hload
  refine forLesson_answers hc fun lesson hmem => ifAvailable_answers ?_
  obtain ⟨found, hfound, hspec⟩ := findBlock_ok [ascii "verify"]
    (Value.get (ascii "block_id") body) (hc.blocks _ hmem)
  dsimp only
  rw [attempt_bind hfound]
  split
  · exact answers_error _ _
  · next block =>
    obtain ⟨hblock, kind, hkind, htype⟩ := hspec block rfl
    obtain rfl := List.mem_singleton.mp hkind
    split
    · exact runCheck_answers hload hmem hblock htype _ _
    · exact answers_error _ _

theorem handleComplete_answers :
    Triple (Pending State.Full sent) (handleComplete P c m body) (Answered sent) := by
  have hc := loadCurriculum_sound hload
  refine forLesson_answers hc fun lesson hmem => ?_
  refine triple_bind (triple_update (State.Usable c) fun s hs => ?_) fun answer => ?_
  · have hwithin : (Call.markComplete lesson (some c)).Within c := ⟨hmem, by simp⟩
    obtain ⟨effect, heffect, hs'⟩ : ∃ effect, perform P.floats m.clock s _ = .ok effect ∧ _ :=
      perform_usable hc (hs.usable c) m.clock hwithin
    obtain ⟨⟨⟨completed, missing⟩, written⟩, hmark, rfl⟩ := Except.map_eq_ok.mp heffect
    refine ⟨(completed, missing), written.getD s, ?_, hs'⟩
    rw [hmark]
    rfl
  · obtain ⟨completed, missing⟩ := answer
    refine triple_ite (fun _ => ?_) fun _ => answers_send _ _
    refine triple_bind (triple_query fun s hs => ?_) fun _ => answers_send _ _
    exact resumeLessonId_ok (fun _ _ hl => hs.checkable hc (Assoc.mem_of_get? hl)) hc.nonempty

theorem handleInterviewAnswer_answers :
    Triple (Pending State.Full sent) (handleInterviewAnswer P c m body) (Answered sent) := by
  unfold handleInterviewAnswer
  split
  · refine triple_ite (fun _ => answers_error _ _) fun _ => ?_
    split
    · exact answers_error _ _
    · next question hquestion =>
      have hmem := List.mem_of_find?_eq_some hquestion
      refine answers_record fun s hs => ?_
      obtain ⟨s', hs', -⟩ := recordInterview_ok (hs.usable c) m.clock
        (List.mem_map_of_mem hmem) _ ((loadCurriculum_valid hload).questions question hmem).concepts
      exact ⟨s', hs'⟩
  · exact answers_error _ _

/-- Every request that reaches an endpoint is answered once. -/
theorem route_answers (path : Text) :
    Triple (Pending State.Full sent) (route P c m path body) (Answered sent) := by
  refine triple_ite (fun _ => handleStart_answers hload) fun _ => ?_
  refine triple_ite (fun _ => handleStep_answers hload) fun _ => ?_
  refine triple_ite (fun _ => handleHint_answers hload) fun _ => ?_
  refine triple_ite (fun _ => handleValidate_answers hload) fun _ => ?_
  refine triple_ite (fun _ => handleComplete_answers hload) fun _ => ?_
  refine triple_ite (fun _ => handleInterviewAnswer_answers hload) fun _ => ?_
  exact answers_error _ _

end Endpoints

section Reading

variable {P : Platform F} {headers : Headers} {w : World F}

/-- So many bytes come, or the end of the stream does. -/
def Stream.Holds (stream : Stream) (n : Nat) : Prop :=
  n ≤ stream.bytes.length ∨ stream.ended = true

theorem read_of_holds {n : Nat} (h : w.stream.Holds n) :
    read n w = (.ok (w.stream.bytes.take n),
      { w with stream := { w.stream with bytes := w.stream.bytes.drop n } }) := by
  have hcond : n ≤ w.stream.bytes.length ∨ w.stream.ended = true := h
  rw [read, Prog.access, if_pos hcond]

theorem read_of_not_holds {n : Nat} (h : ¬ w.stream.Holds n) : read n w = (.error .waits, w) := by
  have hcond : ¬ (n ≤ w.stream.bytes.length ∨ w.stream.ended = true) := h
  rw [read, Prog.access, if_neg hcond]

/-- A loop with enough rounds discards the bytes that come, and touches nothing else. -/
theorem discard_of_holds {rounds remaining : Nat} (hrounds : remaining ≤ rounds)
    (h : w.stream.Holds remaining) :
    ∃ stream, discard rounds remaining w = (.ok (), { w with stream := stream }) := by
  induction rounds generalizing remaining w with
  | zero =>
    obtain rfl : remaining = 0 := by omega
    exact ⟨w.stream, rfl⟩
  | succ rounds ih =>
    rw [discard]
    split_ifs with hzero
    · exact ⟨w.stream, rfl⟩
    have hchunk : w.stream.Holds (min remaining 8192) := by
      obtain h | h := h
      · exact .inl (by omega)
      · exact .inr h
    rw [Prog.bind_of_ok (read_of_holds hchunk)]
    split_ifs with hempty
    · exact ⟨_, rfl⟩
    have hlength : (w.stream.bytes.take (min remaining 8192)).length =
        min (min remaining 8192) w.stream.bytes.length := List.length_take
    have hsome : 0 < (w.stream.bytes.take (min remaining 8192)).length :=
      List.length_pos_of_ne_nil fun hnil => hempty (by rw [hnil]; rfl)
    refine ih (by omega) ?_
    obtain h | h := h
    · refine .inl ?_
      show _ ≤ (w.stream.bytes.drop _).length
      rw [List.length_drop]
      omega
    · exact .inr h

/-- Otherwise it waits. -/
theorem discard_of_not_holds {rounds remaining : Nat} (hrounds : remaining ≤ rounds)
    (h : ¬ w.stream.Holds remaining) : ∃ w', discard rounds remaining w = (.error .waits, w') := by
  induction rounds generalizing remaining w with
  | zero => exact absurd (.inl (by omega)) h
  | succ rounds ih =>
    have hmore : w.stream.bytes.length < remaining := by
      by_contra hle
      exact h (.inl (by omega))
    rw [discard, if_neg (by omega)]
    by_cases hchunk : w.stream.Holds (min remaining 8192)
    · have hle : min remaining 8192 ≤ w.stream.bytes.length :=
        hchunk.resolve_right fun hended => h (.inr hended)
      have hlength : (w.stream.bytes.take (min remaining 8192)).length = min remaining 8192 :=
        List.length_take_of_le hle
      rw [Prog.bind_of_ok (read_of_holds hchunk), if_neg, hlength]
      · refine ih (by omega) ?_
        rintro (hrest | hended)
        · change _ ≤ (w.stream.bytes.drop _).length at hrest
          rw [List.length_drop] at hrest
          omega
        · exact h (.inr hended)
      · intro hempty
        rw [List.isEmpty_iff_length_eq_zero, hlength] at hempty
        omega
    · exact ⟨w, Prog.bind_of_error (read_of_not_holds hchunk)⟩

theorem decoder_raises (P : Platform F) : P.decoder.RaisesValueError where
  parseInt token e h := by
    change (P.int token).elim _ _ = _ at h
    cases hint : P.int token with
    | none =>
      rw [hint] at h
      exact (Except.error.inj h).symm
    | some i =>
      rw [hint] at h
      cases h
  objectPairs pairs e h := by cases h

/-- What `json.loads` raises on a body is caught. -/
theorem bodyOf_ok (bytes : List Nat) : ∃ body, bodyOf P bytes = .ok body := by
  have hcaught (e : Error) (he : P.loads bytes = .error e) :
      e = .valueError ∨ e = .recursionError := by
    rw [Platform.loads] at he
    split at he
    · exact .inl (Except.error.inj he).symm
    · exact Python.loads_error (decoder_raises P) he
  rw [bodyOf]
  cases hloads : P.loads bytes with
  | ok value => cases value <;> exact ⟨_, rfl⟩
  | error e => rcases hcaught e hloads with rfl | rfl <;> exact ⟨none, rfl⟩

/-- The bytes that `_read_body` reads. -/
def bodyLength (P : Platform F) (headers : Headers) : Nat :=
  match contentLength P headers with
  | none => 0
  | some length => if length ≤ maxBody then length else 0

theorem readBody_of_holds (h : w.stream.Holds (bodyLength P headers)) :
    ∃ body stream, readBody P headers w = (.ok body, { w with stream := stream }) := by
  unfold readBody
  unfold bodyLength at h
  cases hlength : contentLength P headers with
  | none => exact ⟨none, w.stream, rfl⟩
  | some length =>
    rw [hlength] at h
    dsimp only at h ⊢
    split_ifs with hskip
    · exact ⟨none, w.stream, rfl⟩
    · rw [if_pos (by omega)] at h
      obtain ⟨body, hbody⟩ := bodyOf_ok (P := P) (w.stream.bytes.take length)
      refine ⟨body, { w.stream with bytes := w.stream.bytes.drop length }, ?_⟩
      rw [Prog.bind_of_ok (read_of_holds h), hbody]
      rfl

theorem readBody_of_not_holds (h : ¬ w.stream.Holds (bodyLength P headers)) :
    readBody P headers w = (.error .waits, w) := by
  unfold readBody
  unfold bodyLength at h
  cases hlength : contentLength P headers with
  | none =>
    rw [hlength] at h
    exact absurd (.inl (Nat.zero_le _)) h
  | some length =>
    rw [hlength] at h
    dsimp only at h ⊢
    split_ifs with hskip
    · refine absurd (.inl ?_) h
      split_ifs <;> omega
    · rw [if_pos (by omega)] at h
      exact Prog.bind_of_error (read_of_not_holds h)

end Reading

section Post

variable (P : Platform F)

/-- `urlparse` raises, or the port of what it returns does. -/
def UrlRaises (url : Text) : Prop :=
  (∃ e, Python.urlparse P.urls url = .error e) ∨
    ∃ parsed e, Python.urlparse P.urls url = .ok parsed ∧ parsed.port = .error e

/-- The checks before it pass, and then the `Origin` cannot be parsed. -/
structure OriginRaises (headers : Headers) : Prop where
  json : isJson P headers = true
  loopback : isLoopback headers = true
  origin : ∃ origin, headers.origin = some origin ∧ UrlRaises P origin

/-- The bytes that the handler reads: what it discards of a refused request, or the body. -/
def awaited (headers : Headers) : Nat :=
  match sameOrigin P headers with
  | .ok none => bodyLength P headers
  | _ => min ((contentLength P headers).getD 0) maxBody

/-- The client sends the bytes that are read, or ends the stream. -/
def Delivered (headers : Headers) (stream : Stream) : Prop := stream.Holds (awaited P headers)

/-- The handler returns with exactly one response; a refusal is a 403 and leaves the store. -/
def AnsweredOnce (c : Curriculum F) (m : Moment) (request : Request) (s : State F)
    (stream : Stream) : Prop :=
  ∃ response w', doPost P c m request ⟨s, stream, []⟩ = (.ok (), w') ∧ w'.sent = [response] ∧
    ∀ reason, sameOrigin P request.headers = .ok (some reason) →
      response.status = 403 ∧ w'.state = s

variable {P}

theorem isSameOrigin_error_iff {origin : Text} :
    (∃ e, isSameOrigin P origin = .error e) ↔ UrlRaises P origin := by
  rw [isSameOrigin, UrlRaises]
  cases hparsed : Python.urlparse P.urls origin with
  | error e => simp
  | ok parsed =>
    rw [Except.ok_bind]
    cases hport : parsed.port with
    | error e => simp [hport]
    | ok port => simp [hport]

theorem sameOrigin_error_iff {headers : Headers} :
    (∃ e, sameOrigin P headers = .error e) ↔ OriginRaises P headers := by
  unfold sameOrigin
  constructor
  · rintro ⟨e, h⟩
    split_ifs at h with hjson hloopback
    refine ⟨by simpa using hjson, by simpa using hloopback, ?_⟩
    split at h
    · cases h
    · next origin horigin =>
      refine ⟨origin, horigin, isSameOrigin_error_iff.mp ?_⟩
      cases hsame : isSameOrigin P origin with
      | error e => exact ⟨e, rfl⟩
      | ok same =>
        rw [hsame, Except.ok_bind] at h
        split_ifs at h <;> cases h
  · rintro ⟨hjson, hloopback, origin, horigin, hraises⟩
    obtain ⟨e, he⟩ := isSameOrigin_error_iff.mpr hraises
    rw [hjson, hloopback, horigin]
    refine ⟨e, ?_⟩
    simp [he]

theorem not_originRaises {headers : Headers} {refusal : Option Text}
    (h : sameOrigin P headers = .ok refusal) : ¬ OriginRaises P headers := by
  intro hraises
  obtain ⟨e, he⟩ := sameOrigin_error_iff.mpr hraises
  rw [h] at he
  cases he

variable {S : Sources F} {c : Curriculum F} {m : Moment} {request : Request} {s : State F}
  {stream : Stream}

/-- A request that is refused is answered with 403 when its body has been discarded. -/
theorem answeredOnce_of_refusal {url : Python.Url} {reason : Text}
    (hurl : Python.urlparse P.urls request.path = .ok url)
    (hrefusal : sameOrigin P request.headers = .ok (some reason)) :
    AnsweredOnce P c m request s stream ↔ Delivered P request.headers stream := by
  have hpost : doPost P c m request =
      (discardBody P request.headers >>= fun _ => sendErrorJson 403 reason) := by
    rw [doPost, attempt_bind hurl, attempt_bind hrefusal]
  rw [AnsweredOnce, hpost, Delivered, awaited, hrefusal]
  dsimp only
  by_cases hd : stream.Holds (min ((contentLength P request.headers).getD 0) maxBody)
  · refine iff_of_true ?_ hd
    obtain ⟨rest, hrest⟩ := discard_of_holds (w := ⟨s, stream, []⟩) le_rfl hd
    exact ⟨_, _, Prog.bind_of_ok hrest, rfl, fun _ _ => ⟨rfl, rfl⟩⟩
  · refine iff_of_false ?_ hd
    rintro ⟨response, w', hrun, -⟩
    obtain ⟨w'', hwaits⟩ := discard_of_not_holds (w := ⟨s, stream, []⟩) le_rfl hd
    rw [Prog.bind_of_error (p := discardBody P request.headers) hwaits] at hrun
    cases hrun

/-- A request that is not refused is answered when its body has been read. -/
theorem answeredOnce_of_accepted (hload : loadCurriculum S = .ok c) (hs : s.Full)
    {url : Python.Url} (hurl : Python.urlparse P.urls request.path = .ok url)
    (hrefusal : sameOrigin P request.headers = .ok none) :
    AnsweredOnce P c m request s stream ↔ Delivered P request.headers stream := by
  rw [AnsweredOnce, doPost, attempt_bind hurl, attempt_bind hrefusal, Delivered, awaited, hrefusal]
  dsimp only
  by_cases hd : stream.Holds (bodyLength P request.headers)
  · refine iff_of_true ?_ hd
    obtain ⟨body, rest, hbody⟩ := readBody_of_holds (w := ⟨s, stream, []⟩) hd
    rw [Prog.bind_of_ok hbody]
    have hanswer {p : Action F Unit} (hp : Triple (Pending State.Full []) p (Answered [])) :
        ∃ response w', p ⟨s, rest, []⟩ = (.ok (), w') ∧ w'.sent = [response] ∧
          ∀ reason : Text, (.ok none : Except Error (Option Text)) = .ok (some reason) →
            response.status = 403 ∧ w'.state = s := by
      obtain ⟨_, w', hrun, response, hsent⟩ := hp ⟨s, rest, []⟩ ⟨hs, rfl⟩
      exact ⟨response, w', hrun, hsent, fun reason hreason => by cases hreason⟩
    cases body with
    | none => exact hanswer (answers_error _ _)
    | some body => exact hanswer (route_answers hload _)
  · refine iff_of_false ?_ hd
    rintro ⟨response, w', hrun, -⟩
    rw [Prog.bind_of_error (readBody_of_not_holds (w := ⟨s, stream, []⟩) hd)] at hrun
    cases hrun

/-- `do_POST` sends exactly one response, unless the path or the `Origin` cannot be parsed, or the
client does not send the bytes that are read. -/
theorem answeredOnce_iff (hload : loadCurriculum S = .ok c) (hs : s.Full) :
    AnsweredOnce P c m request s stream ↔
      (∃ url, Python.urlparse P.urls request.path = .ok url) ∧ ¬ OriginRaises P request.headers ∧
        Delivered P request.headers stream := by
  cases hurl : Python.urlparse P.urls request.path with
  | error e =>
    refine iff_of_false ?_ (by simp)
    rintro ⟨response, w', hrun, -⟩
    rw [doPost, attempt_bind_error hurl] at hrun
    cases hrun
  | ok url =>
    rw [and_iff_right ⟨url, rfl⟩]
    cases hrefusal : sameOrigin P request.headers with
    | error e =>
      refine iff_of_false ?_ fun h => h.1 (sameOrigin_error_iff.mp ⟨e, hrefusal⟩)
      rintro ⟨response, w', hrun, -⟩
      rw [doPost, attempt_bind hurl, attempt_bind_error hrefusal] at hrun
      cases hrun
    | ok refusal =>
      rw [and_iff_right (not_originRaises hrefusal)]
      cases refusal with
      | none => exact answeredOnce_of_accepted hload hs hurl hrefusal
      | some reason => exact answeredOnce_of_refusal hurl hrefusal

end Post

section Sample

/-- A machine on port 8000, with ASCII case mapping and no validators. -/
def samplePlatform : Platform Text where
  floats := .tokens
  urls :=
    { bracketed := fun _ => true
      normal := fun _ => true
      lower := fun text => text.map fun c => if 0x41 ≤ c ∧ c ≤ 0x5A then c + 0x20 else c }
  int := fun token =>
    if token.isEmpty || !token.all Python.isAsciiDigit then none else some (Python.Url.digits token)
  str := fun _ => []
  repr
    | .str s => ascii "'" ++ s ++ ascii "'"
    | _ => []
  decode := some
  overflows := fun _ => false
  toolchain := {}
  port := 8000
  runValidator := fun _ _ => .error ⟨[], ascii "KeyError", []⟩

def sampleMoment : Moment where
  clock := fun _ => ascii "2026-01-01T00:00:00+00:00"
  stopping := false
  stopped := false

/-- Enter the first lesson. -/
def sampleBody : List Nat := ascii "\x7b\"lesson_id\": \"z\"\x7d"

def sampleStream : Stream where
  bytes := sampleBody
  ended := false

def sampleRequest (origin : Option Text) : Request where
  path := ascii "/api/start"
  headers :=
    { contentType := some (ascii "application/json")
      host := some (ascii "127.0.0.1:8000")
      origin := origin
      secFetchSite := none
      contentLength := some (ascii "18") }

theorem initial_full : (.initial : State F).Full where
  lessons _ _ h := by cases h
  concepts _ _ h := by cases h
  interview _ _ h := by cases h

theorem answeredOnce_sample :
    AnsweredOnce samplePlatform sampleCurriculum sampleMoment
      (sampleRequest (some (ascii "http://127.0.0.1:8000"))) .initial sampleStream := by
  refine (answeredOnce_iff sampleCurriculum_loaded initial_full).mpr ⟨?_, ?_, ?_⟩
  · exact ⟨_, rfl⟩
  · have hpass : sameOrigin samplePlatform
        (sampleRequest (some (ascii "http://127.0.0.1:8000"))).headers = .ok none := by
      decide +kernel
    exact not_originRaises hpass
  · refine .inl ?_
    decide +kernel

/-- The `Origin` `http://127.0.0.1:x` has no number for a port, and there is no response. -/
theorem origin_without_port_raises :
    ¬ ∀ (S : Sources Text) (c : Curriculum Text), loadCurriculum S = .ok c →
      ∀ (P : Platform Text) (m : Moment) (request : Request) (s : State Text) (stream : Stream),
        s.Full → Delivered P request.headers stream → AnsweredOnce P c m request s stream := by
  intro hclaim
  obtain ⟨response, w', hrun, -⟩ := hclaim sampleSources sampleCurriculum sampleCurriculum_loaded
    samplePlatform sampleMoment (sampleRequest (some (ascii "http://127.0.0.1:x"))) .initial
    sampleStream initial_full (.inl (by decide +kernel))
  have hraises : sameOrigin samplePlatform
      (sampleRequest (some (ascii "http://127.0.0.1:x"))).headers = .error .valueError := by
    decide +kernel
  have hpath : Python.urlparse samplePlatform.urls
      (sampleRequest (some (ascii "http://127.0.0.1:x"))).path =
        .ok ⟨[], [], ascii "/api/start"⟩ := by
    decide +kernel
  rw [doPost, attempt_bind hpath, attempt_bind_error hraises] at hrun
  cases hrun

end Sample

end Handler

end Learning
