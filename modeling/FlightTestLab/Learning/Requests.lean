import FlightTestLab.Learning.Responses

/-!
# What a request asks of the record

Each POST request makes at most one call on the store that writes, and which one it is can be
told from the request, the curriculum and the run of its validator, without the store. So a
server that answers requests is a store on which these calls are made, in the order in which the
requests are handled.

## Main definitions

- `Learning.Handler.routeCall`: the call that a request for an endpoint makes
- `Learning.Handler.requestCall`: the call that a request makes, if it gets so far

## Main results

- `Learning.Handler.doPost_state`: `do_POST` leaves the store as that call does
-/

namespace Learning

open Hoare (Prog Partial partial_bind partial_ite partial_pure)
open Json (Text ascii)
open Python (Value Error FloatOps)

variable {F : Type}

/-- The state after a call, if there is one and it returns. -/
def State.afterCall (fl : FloatOps F) (clock : Clock) (s : State F) : Option (Call F) → State F
  | none => s
  | some call =>
    match perform fl clock s call with
    | .ok effect => effect.state
    | .error _ => s

theorem State.afterCall_save {fl : FloatOps F} {clock : Clock} {s s' : State F} {call : Call F}
    {x : Except Error (State F)} (h : perform fl clock s call = x.map .save) (hx : x = .ok s') :
    s.afterCall fl clock (some call) = s' := by
  rw [State.afterCall, h, hx]
  rfl

namespace Handler

section Calls

variable (P : Platform F) (c : Curriculum F) (m : Moment)

/-- The lesson that a body names. -/
def namedLesson (body : Items F) : Option (Lesson F) :=
  match Value.get (ascii "lesson_id") body with
  | .str id => Assoc.get? id c.lessons
  | _ => none

/-- The block with an id and of one of the types. -/
def namedBlock (kinds : List Text) (id : Value F) (blocks : List (Items F)) : Option (Items F) :=
  blocks.find? fun block => kinds.any (hasType · block) && id.eqStr (blockId block)

/-- The keywords of a block. -/
def blockKeywords (block : Items F) : List Text :=
  match Value.get (ascii "keywords") block with
  | .list vs => (strings vs).getD []
  | _ => []

def startCall (body : Items F) : Option (Call F) :=
  (namedLesson c body).bind fun lesson =>
    if lesson.status = .available then some (.markStarted lesson.id) else none

/-- An answer counts as correct by the index of the block. -/
def questionCall (lesson : Lesson F) (kind id : Text) (body : Items F) : Option (Call F) :=
  match (namedBlock [ascii "quiz", ascii "predict"] (.str id) lesson.blocks).filter (hasType kind),
    (Value.get (ascii "answer_index") body).asInt? with
  | some block, some answer =>
    if kind = ascii "quiz" then
      some (.recordQuiz lesson.id id
        ((Value.get (ascii "answer_index") block).eqInt P.floats answer) lesson.concepts)
    else some (.recordStep lesson.id id)
  | _, _ => none

/-- An explanation passes by its keywords and its length. -/
def explainCall (lesson : Lesson F) (id : Text) (body : Items F) : Option (Call F) :=
  match namedBlock [ascii "explain"] (.str id) lesson.blocks, Value.get (ascii "answer_text") body with
  | some block, .str text =>
    if text.all isSpace then none
    else some (.recordExplain lesson.id id
      (!(matched P (blockKeywords block) text).isEmpty && minExplainWords ≤ countWords false text)
      lesson.concepts)
  | _, _ => none

def stepCall (body : Items F) : Option (Call F) :=
  (namedLesson c body).bind fun lesson =>
    match Value.get (ascii "block_id") body, Value.get (ascii "kind") body with
    | .str id, .str kind =>
      if kind = ascii "learn" ∨ kind = ascii "do" then some (.recordStep lesson.id id)
      else if kind = ascii "quiz" ∨ kind = ascii "predict" then
        questionCall P lesson kind id body
      else if kind = ascii "explain" then explainCall P lesson id body
      else none
    | _, _ => none

def hintCall (body : Items F) : Option (Call F) :=
  (namedLesson c body).bind fun lesson =>
    (hintAt lesson (Value.get (ascii "index") body)).map fun hint =>
      .recordHint lesson.id hint.1

/-- The outcome of the run of a block's validator; none when the server is going down. -/
def checkOutcome (block args : Items F) : Option (Bool × Bool) :=
  if m.stopping then none
  else
    match P.runValidator (Value.get (ascii "validator") block) args with
    | .error _ => some (false, true)
    | .ok result => if m.stopped then none else some (result.passed, false)

/-- An outcome is recorded with the flags of its block; a crash says nothing of the concepts. -/
def validateCall (body : Items F) : Option (Call F) :=
  (namedLesson c body).bind fun lesson =>
    if lesson.status = .available then
      (namedBlock [ascii "verify"] (Value.get (ascii "block_id") body) lesson.blocks).bind
        fun block =>
          match getD block (ascii "args") (.dict []) with
          | .dict args => (checkOutcome P m block args).map fun (passed, crashed) =>
              .recordValidation lesson.id (blockId block) passed
                (flag P.floats (ascii "mandatory") block)
                (if crashed then [] else lesson.concepts)
                (flag P.floats (ascii "historical") block)
          | _ => none
    else none

def completeCall (body : Items F) : Option (Call F) :=
  (namedLesson c body).map fun lesson => .markComplete lesson (some c)

def interviewCall (body : Items F) : Option (Call F) :=
  match Value.get (ascii "answer_text") body with
  | .str text =>
    if text.all isSpace then none
    else
      (c.interview.find? fun question =>
        (Value.get (ascii "question_id") body).eqStr question.id).map fun question =>
          .recordInterview question.id (!(matched P question.keywords text).isEmpty)
            question.concepts
  | _ => none

/-- The call that a request for an endpoint makes. -/
def routeCall (path : Text) (body : Items F) : Option (Call F) :=
  if path = ascii "/api/start" then startCall c body
  else if path = ascii "/api/step" then stepCall P c body
  else if path = ascii "/api/hint" then hintCall c body
  else if path = ascii "/api/validate" then validateCall P c m body
  else if path = ascii "/api/complete" then completeCall c body
  else if path = ascii "/api/interview/answer" then interviewCall P c body
  else none

/-- The body of a request, if it comes and is an object. -/
def bodyGiven (headers : Headers) (stream : Stream) : Option (Items F) :=
  match contentLength P headers with
  | none => none
  | some length =>
    if length = 0 ∨ maxBody < length then none
    else if length ≤ stream.bytes.length ∨ stream.ended = true then
      (bodyOf P (stream.bytes.take length)).toOption.join
    else none

/-- The call that a request makes, if it is not refused and has a body. -/
def requestCall (request : Request) (stream : Stream) : Option (Call F) :=
  match Python.urlparse P.urls request.path, sameOrigin P request.headers with
  | .ok url, .ok none => (bodyGiven P request.headers stream).bind (routeCall P c m url.path)
  | _, _ => none

end Calls

section Rules

variable {s : State F} {α β : Type}

/-- The store is in a state. -/
def At (s : State F) (w : World F) : Prop := w.state = s

theorem partial_send (payload : Value F) (status : Nat) :
    Partial (At s) (sendJson payload status) fun _ => At s := by
  apply Hoare.partial_modify
  exact fun _ hw => hw

theorem partial_attempt {x : Except Error α} {f : α → Action F β} {post : β → World F → Prop}
    (h : ∀ a, x = .ok a → Partial (At s) (f a) post) : Partial (At s) (attempt x >>= f) post := by
  cases hx : x with
  | ok a =>
    rw [attempt_bind rfl]
    exact h a hx
  | error e =>
    rw [attempt_bind_error rfl]
    rintro _ _ _ _ ⟨⟩

theorem partial_update {op : State F → Except Error (α × State F)} {f : α → Action F β}
    {post : β → World F → Prop}
    (h : ∀ a s', op s = .ok (a, s') → Partial (At s') (f a) post) :
    Partial (At s) (update op >>= f) post := by
  have hop : Partial (At s) (update op) fun a w => op s = .ok (a, w.state) := by
    apply Hoare.partial_access
    intro w a w' hw hrun
    rw [show w.state = s from hw] at hrun
    cases hs : op s with
    | error e =>
      rw [hs] at hrun
      cases hrun
    | ok result =>
      rw [hs] at hrun
      cases hrun
      rfl
  refine partial_bind hop fun a => ?_
  intro w b w' hw hrun
  exact h a w.state hw w b w' rfl hrun

theorem partial_record {op : State F → Except Error (State F)} {f : Unit → Action F β}
    {post : β → World F → Prop} (h : ∀ s', op s = .ok s' → Partial (At s') (f ()) post) :
    Partial (At s) (record op >>= f) post := by
  apply partial_update
  intro _ s' hop
  obtain ⟨s'', hs'', heq⟩ := Except.map_eq_ok.mp hop
  cases heq
  exact h s' hs''

theorem partial_query {op : State F → Except Error α} {f : α → Action F β}
    {post : β → World F → Prop} (h : ∀ a, op s = .ok a → Partial (At s) (f a) post) :
    Partial (At s) (query op >>= f) post := by
  apply partial_update
  intro a s' hop
  obtain ⟨a', ha', heq⟩ := Except.map_eq_ok.mp hop
  cases heq
  exact h a ha'

end Rules

section Lookups

variable {c : Curriculum F} {lesson : Lesson F}

/-- A lesson that is named is of the curriculum, under its own id. -/
theorem mem_of_named (hc : c.Sound) {body : Items F} (h : namedLesson c body = some lesson) :
    (lesson.id, lesson) ∈ c.lessons := by
  rw [namedLesson] at h
  split at h
  · next id _ =>
    have hmem := Assoc.mem_of_get? h
    have hid : lesson.id = id := hc.ids _ hmem
    rw [hid]
    exact hmem
  · cases h

theorem item_eq_ok {key : Text} {items : Items F} {value : Value F}
    (h : item key items = .ok value) : Value.get key items = value := by
  rw [item] at h
  rw [Value.get]
  cases hget : Assoc.get? key items with
  | none =>
    rw [hget] at h
    cases h
  | some found =>
    rw [hget] at h
    cases h
    rfl

/-- The search of a handler among loaded blocks. -/
theorem findBlock_eq {kinds : List Text} {id : Value F} {blocks : List (Items F)}
    {found : Option (Items F)} (hblocks : SoundBlocks blocks)
    (h : findBlock kinds id blocks = .ok found) : namedBlock kinds id blocks = found := by
  induction blocks with
  | nil =>
    cases h
    rfl
  | cons block blocks ih =>
    obtain ⟨name, hid, -⟩ := hblocks.named block List.mem_cons_self
    have hrest : SoundBlocks blocks :=
      ⟨fun other hmem => hblocks.typed other (List.mem_cons_of_mem _ hmem),
        fun other hmem => hblocks.named other (List.mem_cons_of_mem _ hmem),
        hblocks.distinct.of_cons⟩
    have hname : blockId block = name := by rw [blockId, hid]
    rw [findBlock] at h
    obtain ⟨type, htype, h⟩ := Except.bind_eq_ok.mp h
    have hkinds : kinds.any (hasType · block) = kinds.any (type.eqStr ·) := by
      rw [← item_eq_ok htype]
      rfl
    rw [namedBlock]
    split_ifs at h with hkind
    · obtain ⟨value, hvalue, h⟩ := Except.bind_eq_ok.mp h
      obtain rfl : value = .str name := by rw [← item_eq_ok hvalue, hid]
      split_ifs at h with hsame
      · have hmatch : id.eqStr name = true := hsame
        cases h
        rw [List.find?_cons_of_pos]
        rw [hkinds, hkind, hname, hmatch]
        rfl
      · have hmatch : ¬ id.eqStr name = true := hsame
        rw [List.find?_cons_of_neg]
        · exact ih hrest h
        · rw [hname, Bool.and_eq_true]
          exact fun hfound => hmatch hfound.2
    · rw [List.find?_cons_of_neg]
      · exact ih hrest h
      · rw [hkinds, Bool.and_eq_true]
        exact fun hfound => hkind hfound.1

theorem namedBlock_spec {kinds : List Text} {id : Value F} {blocks : List (Items F)}
    {block : Items F} (h : namedBlock kinds id blocks = some block) :
    block ∈ blocks ∧ (∃ kind ∈ kinds, hasType kind block = true) ∧ id = .str (blockId block) := by
  have hfound := List.find?_some h
  rw [Bool.and_eq_true, List.any_eq_true] at hfound
  exact ⟨List.mem_of_find?_eq_some h, hfound.1, eqStr_iff.mp hfound.2⟩

end Lookups

section Endpoints

variable {c : Curriculum F} {P : Platform F} {m : Moment} {s : State F}
  {body : Items F}

/-- The store is left as a call leaves it. -/
def Leads (P : Platform F) (m : Moment) (s : State F) (call : Option (Call F)) :
    Unit → World F → Prop :=
  fun _ => At (s.afterCall P.floats m.clock call)

theorem leads_error (status : Nat) (message : Text) :
    Partial (At s) (sendErrorJson status message) (Leads P m s none) :=
  partial_send _ _

theorem leads_of_state {s' : State F} {call : Option (Call F)} {p : Action F Unit}
    (hcall : s.afterCall P.floats m.clock call = s') (hp : Partial (At s') p fun _ => At s') :
    Partial (At s') p (Leads P m s call) := by
  show Partial _ p fun _ => At (s.afterCall P.floats m.clock call)
  rw [hcall]
  exact hp

/-- A call that saves, and then one response. -/
theorem leads_record {op : State F → Except Error (State F)} {call : Call F} {payload : Value F}
    {status : Nat} (h : perform P.floats m.clock s call = (op s).map .save) :
    Partial (At s) (record op >>= fun _ => sendJson payload status) (Leads P m s (some call)) :=
  partial_record fun _ hop => leads_of_state (State.afterCall_save h hop) (partial_send _ _)

theorem forLesson_leads {rest : Lesson F → Action F Unit} {call : Lesson F → Option (Call F)}
    (h : ∀ lesson, namedLesson c body = some lesson →
      Partial (At s) (rest lesson) (Leads P m s (call lesson))) :
    Partial (At s) (forLesson P c body rest) (Leads P m s ((namedLesson c body).bind call)) := by
  have hrefuse (hnone : namedLesson c body = none) (status : Nat) (message : Text) :
      Partial (At s) ((sendErrorJson status message >>= fun _ => pure none) >>= fun found =>
        unlessNone found rest) (Leads P m s ((namedLesson c body).bind call)) := by
    rw [hnone]
    have hsent : Partial (At s) (sendErrorJson status message >>= fun _ => pure none)
        fun (found : Option (Lesson F)) w => found = none ∧ At s w :=
      partial_bind (partial_send _ _) fun _ => partial_pure fun _ hw => ⟨rfl, hw⟩
    refine partial_bind hsent fun found => ?_
    rintro w a w' ⟨rfl, hw⟩ hrun
    exact partial_pure (fun _ hw => hw) w a w' hw hrun
  unfold forLesson lessonOr404
  cases hid : Value.get (ascii "lesson_id") body with
  | str id =>
    have hnamed : namedLesson c body = Assoc.get? id c.lessons := by rw [namedLesson, hid]
    dsimp only
    cases hl : Assoc.get? id c.lessons with
    | none => exact hrefuse (hnamed.trans hl) _ _
    | some lesson =>
      rw [hnamed, hl]
      exact h lesson (hnamed.trans hl)
  | _ => exact hrefuse (by rw [namedLesson, hid]) _ _

theorem ifAvailable_leads {lesson : Lesson F} {rest : Action F Unit} {call : Option (Call F)}
    (h : Partial (At s) rest (Leads P m s call)) :
    Partial (At s) (ifAvailable lesson rest)
      (Leads P m s (if lesson.status = .available then call else none)) := by
  refine partial_ite (fun hstatus => ?_) fun hstatus => ?_
  · rw [if_neg hstatus]
    exact leads_error _ _
  · rw [if_pos (not_not.mp hstatus)]
    exact h

theorem partial_lessonPublic (lesson : Lesson F) :
    Partial (At s) (lessonPublic P c lesson) fun _ => At s := by
  refine partial_query fun snapshot _ => partial_query fun answer _ => ?_
  exact partial_attempt fun hints _ => partial_pure fun _ hw => hw

theorem handleStart_leads :
    Partial (At s) (handleStart P c m body) (Leads P m s (startCall c body)) := by
  refine forLesson_leads fun lesson _ => ifAvailable_leads (partial_record fun s' hop => ?_)
  have hstate : s.afterCall P.floats m.clock (some (.markStarted lesson.id)) = s' :=
    State.afterCall_save rfl hop
  exact leads_of_state hstate (partial_bind (partial_lessonPublic lesson) fun _ => partial_send _ _)

theorem answerQuestion_leads {lesson : Lesson F} (hblocks : SoundBlocks lesson.blocks)
    (kind id : Text) :
    Partial (At s) (answerQuestion P m lesson kind id body)
      (Leads P m s (questionCall P lesson kind id body)) := by
  refine partial_attempt fun found hfound => ?_
  rw [questionCall, findBlock_eq hblocks hfound]
  cases found.filter (hasType kind) with
  | none => exact leads_error _ _
  | some block =>
    cases (Value.get (ascii "answer_index") body).asInt? with
    | none => exact leads_error _ _
    | some answer =>
      refine partial_attempt fun index hindex => ?_
      dsimp only
      rw [item_eq_ok hindex]
      split_ifs
      · exact leads_record rfl
      · exact leads_record rfl

theorem keywordsOf_eq_ok {block : Items F} {keywords : List Text}
    (h : keywordsOf (Value.get (ascii "keywords") block) = .ok keywords) :
    blockKeywords block = keywords := by
  rw [blockKeywords]
  cases hvalue : Value.get (ascii "keywords") block with
  | list vs =>
    rw [hvalue, keywordsOf] at h
    dsimp only
    cases hstrings : strings vs with
    | none =>
      rw [hstrings] at h
      cases h
    | some texts =>
      rw [hstrings] at h
      cases h
      rfl
  | none | bool _ | int _ | float _ | str _ | dict _ =>
    rw [hvalue] at h
    cases h

theorem answerExplain_leads {lesson : Lesson F} (hblocks : SoundBlocks lesson.blocks) (id : Text) :
    Partial (At s) (answerExplain P m lesson id body)
      (Leads P m s (explainCall P lesson id body)) := by
  refine partial_attempt fun found hfound => ?_
  rw [explainCall, findBlock_eq hblocks hfound]
  cases found with
  | none => exact leads_error _ _
  | some block =>
    cases Value.get (ascii "answer_text") body with
    | str text =>
      dsimp only
      split_ifs
      · exact leads_error _ _
      · refine partial_attempt fun value hvalue => partial_attempt fun keywords hkeywords => ?_
        rw [← item_eq_ok hvalue] at hkeywords
        rw [keywordsOf_eq_ok hkeywords]
        refine partial_record fun s' hop => leads_of_state (State.afterCall_save rfl hop) ?_
        exact partial_attempt fun sample _ => partial_send _ _
    | _ => exact leads_error _ _

theorem handleStep_leads (hc : c.Sound) :
    Partial (At s) (handleStep P c m body) (Leads P m s (stepCall P c body)) := by
  refine forLesson_leads fun lesson hlesson => ?_
  have hblocks := hc.blocks _ (mem_of_named hc hlesson)
  cases Value.get (ascii "block_id") body with
  | str id =>
    cases Value.get (ascii "kind") body with
    | str kind =>
      dsimp only
      split_ifs
      · exact leads_record rfl
      · exact answerQuestion_leads hblocks kind id
      · exact answerExplain_leads hblocks id
      · exact leads_error _ _
    | _ => exact leads_error _ _
  | _ => exact leads_error _ _

theorem handleHint_leads : Partial (At s) (handleHint P c body) (Leads P m s (hintCall c body)) := by
  refine forLesson_leads fun lesson _ => ?_
  cases hintAt lesson (Value.get (ascii "index") body) with
  | none => exact leads_error _ _
  | some found =>
    obtain ⟨index, hint⟩ := found
    refine partial_update fun revealed s' hop => ?_
    obtain ⟨⟨_, _, saved⟩, hrecord, heq⟩ := Except.bind_eq_ok.mp hop
    cases heq
    have hcall : s.afterCall P.floats m.clock (some (.recordHint lesson.id index)) = s' := by
      rw [State.afterCall, perform, hrecord]
      rfl
    refine leads_of_state hcall ?_
    exact partial_attempt fun level _ => partial_attempt fun text _ => partial_send _ _

theorem recordResult_leads {lesson : Lesson F} (block : Items F) (id : Text)
    (result : CheckResult F) (crashed : Bool) :
    Partial (At s) (recordResult P m lesson block id result crashed)
      (Leads P m s (some (.recordValidation lesson.id id result.passed
        (flag P.floats (ascii "mandatory") block) (if crashed then [] else lesson.concepts)
        (flag P.floats (ascii "historical") block)))) :=
  partial_query fun _ _ => leads_record rfl

theorem runCheck_leads {lesson : Lesson F} (block : Items F) (id : Text) (args : Items F) :
    Partial (At s) (runCheck P m lesson block id args)
      (Leads P m s ((checkOutcome P m block args).map fun (passed, crashed) =>
        .recordValidation lesson.id id passed (flag P.floats (ascii "mandatory") block)
          (if crashed then [] else lesson.concepts)
          (flag P.floats (ascii "historical") block))) := by
  refine partial_ite (fun hstopping => ?_) fun hstopping => partial_attempt fun validator hv => ?_
  · rw [checkOutcome, if_pos hstopping]
    exact leads_error _ _
  · rw [checkOutcome, if_neg hstopping, item_eq_ok hv]
    cases P.runValidator validator args with
    | error crash => exact recordResult_leads block id _ true
    | ok result =>
      dsimp only
      split_ifs
      · exact leads_error _ _
      · exact recordResult_leads block id result false

theorem handleValidate_leads (hc : c.Sound) :
    Partial (At s) (handleValidate P c m body) (Leads P m s (validateCall P c m body)) := by
  refine forLesson_leads fun lesson hlesson => ifAvailable_leads ?_
  refine partial_attempt fun found hfound => ?_
  have hnamed := findBlock_eq (hc.blocks _ (mem_of_named hc hlesson)) hfound
  rw [hnamed]
  cases found with
  | none => exact leads_error _ _
  | some block =>
    have hid : P.strOf (Value.get (ascii "block_id") body) = blockId block := by
      rw [(namedBlock_spec hnamed).2.2]
      rfl
    dsimp only [Option.bind_some]
    cases getD block (ascii "args") (.dict []) with
    | dict args =>
      rw [hid]
      exact runCheck_leads block (blockId block) args
    | _ => exact leads_error _ _

theorem handleComplete_leads :
    Partial (At s) (handleComplete P c m body) (Leads P m s (completeCall c body)) := by
  unfold completeCall
  rw [Option.map_eq_bind]
  refine forLesson_leads fun lesson _ => partial_update fun answer s' hop => ?_
  obtain ⟨⟨_, written⟩, hmark, heq⟩ := Except.bind_eq_ok.mp hop
  cases heq
  have hcall : s.afterCall P.floats m.clock (some (.markComplete lesson (some c))) =
      written.getD s := by
    rw [State.afterCall, perform, hmark]
    rfl
  refine leads_of_state hcall ?_
  exact partial_ite (fun _ => partial_query fun _ _ => partial_send _ _) fun _ => partial_send _ _

theorem handleInterviewAnswer_leads :
    Partial (At s) (handleInterviewAnswer P c m body) (Leads P m s (interviewCall P c body)) := by
  unfold handleInterviewAnswer interviewCall
  cases Value.get (ascii "answer_text") body with
  | str text =>
    dsimp only
    split_ifs
    · exact leads_error _ _
    · cases c.interview.find? _ with
      | none => exact leads_error _ _
      | some question => exact leads_record rfl
  | _ => exact leads_error _ _

/-- An endpoint that returns leaves the store as its call does. -/
theorem route_leads (hc : c.Sound) (path : Text) :
    Partial (At s) (route P c m path body) (Leads P m s (routeCall P c m path body)) := by
  unfold route routeCall
  split_ifs
  · exact handleStart_leads
  · exact handleStep_leads hc
  · exact handleHint_leads
  · exact handleValidate_leads hc
  · exact handleComplete_leads
  · exact handleInterviewAnswer_leads
  · exact leads_error _ _

end Endpoints

section Post

variable {S : Sources F} {c : Curriculum F} {P : Platform F} {m : Moment} {s : State F}
  {headers : Headers} {w : World F}

/-- Discarding only reads, also when it waits. -/
theorem discard_keeps (rounds remaining : Nat) :
    (discard (F := F) rounds remaining w).2.state = w.state ∧
      (discard (F := F) rounds remaining w).2.sent = w.sent := by
  induction rounds generalizing remaining w with
  | zero =>
    rw [discard]
    split_ifs <;> exact ⟨rfl, rfl⟩
  | succ rounds ih =>
    rw [discard]
    split_ifs
    · exact ⟨rfl, rfl⟩
    · by_cases hchunk : w.stream.Holds (min remaining 8192)
      · rw [Prog.bind_of_ok (read_of_holds hchunk)]
        split_ifs
        · exact ⟨rfl, rfl⟩
        · exact ih _
      · rw [Prog.bind_of_error (read_of_not_holds hchunk)]
        exact ⟨rfl, rfl⟩

variable (P headers w) in
/-- A refused request leaves the store, and is sent nothing but the refusal. -/
theorem refusal_spec (reason : Text) :
    let w' := ((discardBody P headers >>= fun _ => sendErrorJson 403 reason) w).2
    w'.state = w.state ∧ ∀ response ∈ w'.sent, response ∈ w.sent ∨ response.status = 403 := by
  have hdiscard : (discardBody P headers w).2.state = w.state ∧
      (discardBody P headers w).2.sent = w.sent := discard_keeps _ _
  cases hrun : discardBody P headers w with
  | mk result w' =>
    rw [hrun] at hdiscard
    obtain ⟨hstate, hsent⟩ := hdiscard
    cases result with
    | ok _ =>
      rw [Prog.bind_of_ok hrun]
      refine ⟨hstate, fun response hresponse => ?_⟩
      obtain hold | hnew := List.mem_append.mp hresponse
      · exact .inl (hsent ▸ hold)
      · rw [List.mem_singleton.mp hnew]
        exact .inr rfl
    | error e =>
      rw [Prog.bind_of_error hrun]
      exact ⟨hstate, fun response hresponse => .inl (hsent ▸ hresponse)⟩

variable (P headers w) in
/-- What is read is the body that is given; if it does not come, none is. -/
theorem readBody_cases :
    (∃ stream, readBody P headers w =
      (.ok (bodyGiven P headers w.stream), { w with stream := stream })) ∨
    (bodyGiven P headers w.stream = none ∧ readBody P headers w = (.error .waits, w)) := by
  by_cases hd : w.stream.Holds (bodyLength P headers)
  · left
    unfold readBody bodyGiven
    unfold bodyLength at hd
    cases hlength : contentLength P headers with
    | none => exact ⟨w.stream, rfl⟩
    | some length =>
      rw [hlength] at hd
      dsimp only at hd ⊢
      split_ifs with hskip hcomes
      · exact ⟨w.stream, rfl⟩
      · rw [if_pos (by omega)] at hd
        obtain ⟨body, hbody⟩ := bodyOf_ok (P := P) (w.stream.bytes.take length)
        refine ⟨{ w.stream with bytes := w.stream.bytes.drop length }, ?_⟩
        rw [Prog.bind_of_ok (read_of_holds hd), hbody]
        rfl
      · rw [if_pos (by omega)] at hd
        exact absurd hd hcomes
  · refine .inr ⟨?_, readBody_of_not_holds hd⟩
    unfold bodyGiven
    unfold bodyLength at hd
    cases hlength : contentLength P headers with
    | none => rfl
    | some length =>
      rw [hlength] at hd
      dsimp only at hd ⊢
      split_ifs with hskip hcomes
      · rfl
      · rw [if_pos (by omega)] at hd
        exact absurd hcomes hd
      · rfl

/-- A body that is given is read in every state. -/
theorem readBody_given {stream : Stream} {body : Items F}
    (h : bodyGiven P headers stream = some body) :
    ∃ rest, ∀ (s : State F) (sent : List (Response F)),
      readBody P headers ⟨s, stream, sent⟩ = (.ok (some body), ⟨s, rest, sent⟩) := by
  unfold bodyGiven at h
  cases hlength : contentLength P headers with
  | none =>
    rw [hlength] at h
    cases h
  | some length =>
    rw [hlength] at h
    dsimp only at h
    split_ifs at h with hskip hcomes
    refine ⟨{ stream with bytes := stream.bytes.drop length }, fun s sent => ?_⟩
    obtain ⟨body', hbody⟩ := bodyOf_ok (P := P) (stream.bytes.take length)
    obtain rfl : body' = some body := by
      rw [hbody] at h
      exact h
    rw [readBody, hlength]
    dsimp only
    rw [if_neg hskip, Prog.bind_of_ok (read_of_holds (w := ⟨s, stream, sent⟩) hcomes), hbody]
    rfl

/-- Whether it is answered or not, a request leaves the store as its call does; which call that is
does not depend on the store. -/
theorem doPost_state (hload : loadCurriculum S = .ok c) (hs : s.Full) (request : Request)
    (stream : Stream) (sent : List (Response F)) :
    (doPost P c m request ⟨s, stream, sent⟩).2.state =
      s.afterCall P.floats m.clock (requestCall P c m request stream) := by
  unfold requestCall doPost
  cases hurl : Python.urlparse P.urls request.path with
  | error e =>
    rw [attempt_bind_error rfl]
    rfl
  | ok url =>
    rw [attempt_bind rfl]
    cases hrefusal : sameOrigin P request.headers with
    | error e =>
      rw [attempt_bind_error rfl]
      rfl
    | ok refusal =>
      rw [attempt_bind rfl]
      cases refusal with
      | some reason => exact (refusal_spec _ _ _ reason).1
      | none =>
        dsimp only
        obtain ⟨rest, hread⟩ | ⟨hnone, hread⟩ :=
          readBody_cases P request.headers ⟨s, stream, sent⟩
        · rw [Prog.bind_of_ok hread]
          cases hbody : bodyGiven P request.headers stream with
          | none => rfl
          | some body =>
            have hanswers : Hoare.Triple (Pending State.Full sent) (route P c m url.path body)
                (Answered sent) := route_answers hload url.path
            obtain ⟨_, w', hrun, -⟩ := hanswers ⟨s, rest, sent⟩ ⟨hs, rfl⟩
            have hstate := route_leads (loadCurriculum_sound hload) url.path _ _ _ rfl hrun
            dsimp only
            rw [hrun]
            exact hstate
        · rw [Prog.bind_of_error hread, show bodyGiven P request.headers stream = none from hnone]
          rfl

end Post

end Handler

end Learning
