import FlightTestLab.Learning.Gates
import FlightTestLab.Learning.Requests
import FlightTestLab.Library.Runs

/-!
# Sessions of requests

POST requests that a server with an empty store handles one after another, each with its own
clock and with what a validator comes to at that moment. Whatever the requests are, the store
goes through the ledgers that their calls reach; so what it holds can be read off the requests
and their responses.

## Main definitions

- `Learning.Handler.Exchange`: a request as it is served
- `Learning.Handler.session`: the store after the requests of a session

## Main results

- `Learning.Handler.session_reached`: a session is a run of the calls of its requests
-/

namespace Learning

open Hoare (Prog Partial partial_bind partial_ite partial_pure)
open Json (Text ascii)
open Python (Value Error FloatOps)

variable {F : Type}

namespace Handler

/-- A POST request as it is served: what the client sends, and what a validator comes to. -/
structure Exchange (F : Type) where
  request : Request
  stream : Stream
  moment : Moment
  runValidator : Value F → Items F → Except Crash (CheckResult F)

section Serving

variable (P : Platform F) (c : Curriculum F)

def Exchange.platform (e : Exchange F) : Platform F := { P with runValidator := e.runValidator }

/-- The call that the request makes. -/
def Exchange.call (e : Exchange F) : Option (Call F) :=
  requestCall (e.platform P) c e.moment e.request e.stream

/-- The store and the responses when the handler is done. -/
def serve (s : State F) (e : Exchange F) : State F × List (Response F) :=
  let w := (doPost (e.platform P) c e.moment e.request ⟨s, e.stream, []⟩).2
  (w.state, w.sent)

/-- The store after the requests of a session. -/
def session (s : State F) (exchanges : List (Exchange F)) : State F :=
  Runs.run (fun s e => (serve P c s e).1) s exchanges

/-- The requests of a session, each with the responses to it. -/
def transcript (s : State F) (exchanges : List (Exchange F)) :
    List (Exchange F × List (Response F)) :=
  Runs.trace (fun s e => (serve P c s e).1) (fun s e => (serve P c s e).2) s exchanges

/-- The calls of a session. -/
def calls (exchanges : List (Exchange F)) : List (Call F) := exchanges.filterMap (·.call P c)

theorem session_snoc (s : State F) (exchanges : List (Exchange F)) (e : Exchange F) :
    session P c s (exchanges ++ [e]) = (serve P c (session P c s exchanges) e).1 :=
  Runs.run_append _ _

theorem transcript_snoc (s : State F) (exchanges : List (Exchange F)) (e : Exchange F) :
    transcript P c s (exchanges ++ [e]) =
      transcript P c s exchanges ++ [(e, (serve P c (session P c s exchanges) e).2)] :=
  Runs.trace_snoc _ _ _

theorem calls_snoc (exchanges : List (Exchange F)) (e : Exchange F) :
    calls P c (exchanges ++ [e]) = calls P c exchanges ++ (e.call P c).toList := by
  rw [calls, List.filterMap_append, calls]
  cases hcall : e.call P c <;> simp [hcall]

end Serving

section Own

variable {P : Platform F} {c : Curriculum F} {m : Moment} {path : Text} {body : Items F}
  {call : Call F}

/-- The endpoint whose requests make a call; the last calls are made in passing. -/
def endpointOf : Call F → Text
  | .markStarted _ => ascii "/api/start"
  | .recordStep _ _ | .recordQuiz _ _ _ _ | .recordExplain _ _ _ _ => ascii "/api/step"
  | .recordHint _ _ => ascii "/api/hint"
  | .recordValidation _ _ _ _ _ _ => ascii "/api/validate"
  | .markComplete _ _ => ascii "/api/complete"
  | .recordInterview _ _ _ => ascii "/api/interview/answer"
  | _ => []

/-- A call as a request for an endpoint makes it: for the curriculum of the server. -/
structure Made (P : Platform F) (c : Curriculum F) (path : Text) (call : Call F) : Prop where
  path : path = endpointOf call
  own : call.Own P.floats c

/-- What a validation request records carries the flags of its block. -/
theorem validateCall_made (hc : c.Sound) (h : validateCall P c m body = some call) :
    Made P c (ascii "/api/validate") call := by
  obtain ⟨lesson, hlesson, h⟩ := Option.bind_eq_some_iff.mp h
  split_ifs at h
  obtain ⟨block, hblock, h⟩ := Option.bind_eq_some_iff.mp h
  split at h
  · obtain ⟨⟨ok, crashed⟩, -, rfl⟩ := Option.map_eq_some_iff.mp h
    obtain ⟨hmem, ⟨kind, hkind, htype⟩, -⟩ := namedBlock_spec hblock
    obtain rfl := List.mem_singleton.mp hkind
    have hl := Assoc.get?_of_mem hc.distinct (mem_of_named hc hlesson)
    exact ⟨rfl, lesson, block, hl, hmem, htype, rfl, rfl, rfl⟩
  · cases h

theorem questionCall_made {lesson : Lesson F} {kind id : Text}
    (h : questionCall P lesson kind id body = some call) : Made P c (ascii "/api/step") call := by
  rw [questionCall] at h
  split at h
  · split_ifs at h <;> cases h <;> exact ⟨rfl, trivial⟩
  · cases h

theorem explainCall_made {lesson : Lesson F} {id : Text}
    (h : explainCall P lesson id body = some call) : Made P c (ascii "/api/step") call := by
  rw [explainCall] at h
  split at h
  · split_ifs at h
    cases h
    exact ⟨rfl, trivial⟩
  · cases h

theorem stepCall_made (h : stepCall P c body = some call) : Made P c (ascii "/api/step") call := by
  obtain ⟨lesson, -, h⟩ := Option.bind_eq_some_iff.mp h
  split at h
  · split_ifs at h
    · cases h
      exact ⟨rfl, trivial⟩
    · exact questionCall_made h
    · exact explainCall_made h
  · cases h

theorem completeCall_made (hc : c.Sound) (h : completeCall c body = some call) :
    Made P c (ascii "/api/complete") call := by
  obtain ⟨lesson, hlesson, rfl⟩ := Option.map_eq_some_iff.mp h
  exact ⟨rfl, Assoc.get?_of_mem hc.distinct (mem_of_named hc hlesson), rfl⟩

/-- Requests make the calls of their endpoint, and for the curriculum of the server only. -/
theorem routeCall_made (hc : c.Sound) (h : routeCall P c m path body = some call) :
    Made P c path call := by
  rw [routeCall] at h
  split_ifs at h with hstart hstep hhint hvalidate hcomplete hinterview
  · obtain ⟨lesson, -, h⟩ := Option.bind_eq_some_iff.mp h
    split_ifs at h
    cases h
    exact ⟨hstart, trivial⟩
  · exact hstep ▸ stepCall_made h
  · obtain ⟨lesson, -, h⟩ := Option.bind_eq_some_iff.mp h
    obtain ⟨hint, -, rfl⟩ := Option.map_eq_some_iff.mp h
    exact ⟨hhint, trivial⟩
  · exact hvalidate ▸ validateCall_made hc h
  · exact hcomplete ▸ completeCall_made hc h
  · rw [interviewCall] at h
    split at h
    · split_ifs at h
      obtain ⟨question, -, rfl⟩ := Option.map_eq_some_iff.mp h
      exact ⟨hinterview, trivial⟩
    · cases h

/-- A request that makes a call reaches its endpoint. -/
theorem requestCall_spec (hc : c.Sound) {request : Request} {stream : Stream}
    (h : requestCall P c m request stream = some call) :
    Made P c (endpointOf call) call ∧ ∃ body rest,
      routeCall P c m (endpointOf call) body = some call ∧
        ∀ (s : State F) (sent : List (Response F)), doPost P c m request ⟨s, stream, sent⟩ =
          route P c m (endpointOf call) body ⟨s, rest, sent⟩ := by
  rw [requestCall] at h
  split at h
  · next url hurl hrefusal =>
    obtain ⟨body, hbody, h⟩ := Option.bind_eq_some_iff.mp h
    have hmade : Made P c url.path call := routeCall_made hc h
    obtain ⟨rest, hread⟩ := readBody_given hbody
    rw [← hmade.path]
    refine ⟨hmade, body, rest, h, fun s sent => ?_⟩
    rw [doPost, attempt_bind hurl, attempt_bind hrefusal]
    dsimp only
    rw [Prog.bind_of_ok (hread s sent)]
  · cases h

end Own

section Run

variable {S : Sources F} {P : Platform F} {c : Curriculum F}

theorem forLesson_named {body : Items F} {lesson : Lesson F} (h : namedLesson c body = some lesson)
    (rest : Lesson F → Action F Unit) : forLesson P c body rest = rest lesson := by
  unfold forLesson lessonOr404
  cases hid : Value.get (ascii "lesson_id") body with
  | str id =>
    rw [namedLesson, hid] at h
    dsimp only at h ⊢
    rw [h]
    rfl
  | none | bool _ | int _ | float _ | list _ | dict _ =>
    rw [namedLesson, hid] at h
    cases h

/-- The status of the response to a completion. -/
def completionStatus (done : Bool) : Nat := if done then 200 else 409

/-- A completion is answered with what `mark_complete` returns. -/
theorem handleComplete_sent {m : Moment} {body : Items F} {lesson : Lesson F} {a a' : Ledger}
    {saved done : Bool} (hc : c.Sound) (hlesson : namedLesson c body = some lesson)
    (hperform : perform P.floats m.clock a.state (.markComplete lesson (some c)) =
      .ok ⟨a'.state, saved, done⟩) (rest : Stream) :
    ∃ payload, (handleComplete P c m body ⟨a.state, rest, []⟩).2.sent =
      [⟨completionStatus done, payload⟩] := by
  obtain ⟨⟨⟨completed, missing⟩, written⟩, hmark, heq⟩ := Except.map_eq_ok.mp hperform
  obtain ⟨hstate, -, rfl⟩ := Effect.mk.inj heq
  rw [handleComplete, forLesson_named hlesson,
    Prog.bind_of_ok (update_of_ok (a := (completed, missing)) (s := a'.state) ?_)]
  swap
  · rw [hmark, ← hstate]
    rfl
  cases completed with
  | false => exact ⟨_, rfl⟩
  | true =>
    obtain ⟨resume, hresume⟩ : ∃ id, resumeLessonId P.floats a'.state c = .ok id :=
      resumeLessonId_ok (fun _ other _ => .of_templated _ (state_templated a') other) hc.nonempty
    dsimp only
    rw [if_pos rfl, Prog.bind_of_ok (query_of_ok hresume)]
    exact ⟨_, rfl⟩

/-- One request takes a ledger to the ledger of its call. -/
theorem serve_state (hload : loadCurriculum S = .ok c) (a : Ledger) (e : Exchange F) :
    (e.call P c = none ∧ (serve P c a.state e).1 = a.state) ∨
    ∃ call done, e.call P c = some call ∧ call.Own P.floats c ∧ call.MayAnswer P.floats a done ∧
      (serve P c a.state e).1 = (a.apply e.moment.clock done call).state ∧
      ∀ lesson, call = .markComplete lesson (some c) →
        ∃ payload, (serve P c a.state e).2 = [⟨completionStatus done, payload⟩] := by
  have hc := loadCurriculum_sound hload
  have hstate : (serve P c a.state e).1 =
      (a.state : State F).afterCall P.floats e.moment.clock (e.call P c) :=
    doPost_state hload (state_full a) e.request e.stream []
  rw [hstate]
  cases hcall : e.call P c with
  | none => exact .inl ⟨rfl, rfl⟩
  | some call =>
    obtain ⟨hmade, body, rest, hroute, hpost⟩ := requestCall_spec (P := e.platform P) hc hcall
    have hown : call.Own P.floats c := hmade.own
    obtain ⟨saved, done, hperform, -, hanswer⟩ :=
      perform_state P.floats e.moment.clock a call (hown.allowed hc)
    refine .inr ⟨call, done, rfl, hown, hanswer, ?_, ?_⟩
    · rw [State.afterCall, hperform]
    · rintro lesson rfl
      obtain ⟨other, hlesson, heq⟩ := Option.map_eq_some_iff.mp
        (show completeCall c body = some (.markComplete lesson (some c)) from hroute)
      obtain rfl : other = lesson := (Call.markComplete.inj heq).1
      show ∃ payload, (doPost (e.platform P) c e.moment e.request ⟨a.state, e.stream, []⟩).2.sent = _
      rw [hpost]
      exact handleComplete_sent (P := e.platform P) hc hlesson hperform rest

end Run

section Transcript

variable (P : Platform F) (c : Curriculum F) (lessonId : Text)

/-- A request to complete a lesson that is answered with 200. -/
def Completes (answered : Exchange F × List (Response F)) : Prop :=
  ∃ lesson, lesson.id = lessonId ∧
    answered.1.call P c = some (.markComplete lesson (some c)) ∧
      ∃ payload, answered.2 = [⟨200, payload⟩]

/-- A run of a mandatory validator that fails, of a check that is not historical. -/
def Breaks (answered : Exchange F × List (Response F)) : Prop :=
  ∃ blockId concepts,
    answered.1.call P c = some (.recordValidation lessonId blockId false true concepts false)

variable {P c} {S : Sources F}

/-- A session from the empty store is a run of the calls of its requests, in which a completion
succeeds when it is answered so. -/
theorem session_reached (hload : loadCurriculum S = .ok c) (exchanges : List (Exchange F)) :
    ∃ history a, session P c .initial exchanges = a.state ∧ Reached P.floats history a ∧
      history.map Prod.fst = calls P c exchanges ∧ (∀ entry ∈ history, entry.1.Own P.floats c) ∧
      ∀ lessonId, Certified history lessonId ↔
        Runs.Since (Completes P c lessonId) (Breaks P c lessonId)
          (transcript P c .initial exchanges) := by
  induction exchanges using List.reverseRecOn with
  | nil =>
    exact ⟨[], .empty, rfl, .start, rfl, by simp, fun lessonId =>
      iff_of_false Runs.not_since_nil Runs.not_since_nil⟩
  | append_singleton exchanges e ih =>
    obtain ⟨history, a, hsession, hreached, hcalls, hown, hcertified⟩ := ih
    rw [session_snoc, calls_snoc, transcript_snoc, hsession]
    obtain ⟨hnone, hstate⟩ | ⟨call, done, hcall, hcallOwn, hanswer, hstate, hsent⟩ :=
      serve_state (P := P) hload a e
    · refine ⟨history, a, hstate, hreached, ?_, hown, fun lessonId => ?_⟩
      · rw [hnone, hcalls, Option.toList_none, List.append_nil]
      · rw [Runs.since_snoc, hcertified, or_iff_right, and_iff_left]
        · rintro ⟨_, _, heq⟩
          rw [hnone] at heq
          cases heq
        · rintro ⟨_, -, heq, -⟩
          rw [hnone] at heq
          cases heq
    · refine ⟨history ++ [(call, done)], _, hstate,
        hreached.call e.moment.clock call done hanswer, ?_, ?_, fun lessonId => ?_⟩
      · rw [hcall, List.map_append, hcalls]
        rfl
      · rw [List.forall_mem_append]
        refine ⟨hown, fun entry hentry => ?_⟩
        obtain rfl := List.mem_singleton.mp hentry
        exact hcallOwn
      · rw [Certified, Runs.since_snoc, Runs.since_snoc, ← Certified, hcertified]
        have hsucceeds : Succeeds lessonId (call, done) ↔
            Completes P c lessonId (e, (serve P c a.state e).2) := by
          constructor
          · rintro ⟨lesson, c', hid, heq⟩
            obtain ⟨rfl, rfl⟩ := Prod.mk.inj heq
            obtain ⟨-, rfl⟩ := hcallOwn
            exact ⟨lesson, hid, hcall, hsent lesson rfl⟩
          · rintro ⟨lesson, hid, heq, payload, hpayload⟩
            rw [hcall, Option.some.injEq] at heq
            subst heq
            obtain ⟨payload', hpayload'⟩ := hsent lesson rfl
            refine ⟨lesson, some c, hid, ?_⟩
            cases done with
            | true => rfl
            | false =>
              rw [hpayload'] at hpayload
              cases hpayload
        have hrevokes : Revokes lessonId (call, done) ↔
            Breaks P c lessonId (e, (serve P c a.state e).2) := by
          simp only [Revokes, Breaks, hcall, Option.some.injEq]
        rw [hsucceeds, hrevokes]

/-- The outcomes that calls record of a validator, first to last. -/
def resultsOf (calls : List (Call F)) (lessonId blockId : Text) : List Bool :=
  calls.filterMap fun call => (call.outcome lessonId blockId).map Prod.fst

theorem outcomes_eq (history : List (Entry F)) (lessonId blockId : Text) :
    outcomes history lessonId blockId = resultsOf (history.map Prod.fst) lessonId blockId := by
  rw [outcomes, resultsOf, List.filterMap_map]
  rfl

/-- What the requests of a session have shown for the gates of a lesson. -/
structure Shown (P : Platform F) (c : Curriculum F) (exchanges : List (Exchange F))
    (lesson : Lesson F) : Prop where
  validators : ∀ block ∈ lesson.mandatoryValidators P.floats,
    let results := resultsOf (calls P c exchanges) lesson.id (blockId block)
    if flag P.floats (ascii "historical") block then true ∈ results
    else results.getLast? = some true
  quizzes : ∀ id ∈ lesson.requiredQuizIds,
    ∃ concepts, .recordQuiz lesson.id id true concepts ∈ calls P c exchanges
  explains : ∀ id ∈ lesson.requiredExplainIds,
    ∃ concepts, .recordExplain lesson.id id true concepts ∈ calls P c exchanges

/-- A lesson is stored as complete when a completion has been answered with 200 and no validator
of the lesson has failed since; then the requests of the session have shown what its gates ask. -/
theorem complete_iff_answered (P : Platform F) (hload : loadCurriculum S = .ok c)
    (exchanges : List (Exchange F)) {lesson : Lesson F}
    (hl : Assoc.get? lessonId c.lessons = some lesson) :
    (StoredComplete (session P c .initial exchanges) lessonId ↔
      Runs.Since (Completes P c lessonId) (Breaks P c lessonId)
        (transcript P c .initial exchanges)) ∧
    (StoredComplete (session P c .initial exchanges) lessonId → Shown P c exchanges lesson) := by
  have hc := loadCurriculum_sound hload
  obtain ⟨history, a, hsession, hreached, hcalls, hown, hcertified⟩ :=
    session_reached (P := P) hload exchanges
  obtain ⟨hstatus, hholds, -⟩ := status_of_reached hc hl hreached hown
  have hid : lesson.id = lessonId := hc.ids _ (Assoc.mem_of_get? hl)
  rw [hsession, storedComplete_state, hstatus]
  refine ⟨hcertified lessonId, fun hcomplete => ?_⟩
  obtain ⟨hvalidators, hquizzes, hexplains⟩ := hholds (hstatus.mpr hcomplete)
  have hmem {entry : Entry F} (hentry : entry ∈ history) : entry.1 ∈ calls P c exchanges := by
    rw [← hcalls]
    exact List.mem_map_of_mem hentry
  refine ⟨fun block hblock => ?_, fun id hrequired => ?_, fun id hrequired => ?_⟩
  · have hpassed := (passed_iff hc hl hreached hown hblock).mp (hvalidators block hblock)
    rw [outcomes_eq, hcalls, ← hid] at hpassed
    exact hpassed
  · obtain ⟨entry, hentry, concepts, hcall⟩ :=
      (mem_quizCorrect_iff hreached id).mp (hquizzes id hrequired)
    rw [hid]
    exact ⟨concepts, hcall ▸ hmem hentry⟩
  · obtain ⟨entry, hentry, concepts, hcall⟩ :=
      (mem_explainDone_iff hreached id).mp (hexplains id hrequired)
    rw [hid]
    exact ⟨concepts, hcall ▸ hmem hentry⟩

end Transcript

/-- `"key": "value"`, and `"key": 1` -/
def textMember (key value : Text) : Text := ascii "\"" ++ key ++ ascii "\": \"" ++ value ++ ascii "\""

def numberMember (key : Text) (value : Nat) : Text :=
  ascii "\"" ++ key ++ ascii "\": " ++ Json.decimalNat value

/-- A JSON request to an endpoint; the check that it may run passes or does not. -/
def posted (endpoint : Text) (members : List Text) (passes : Bool := true) : Exchange Text :=
  let body := ascii "\x7b" ++ Json.joinComma members ++ ascii "\x7d"
  { request :=
      { path := endpoint
        headers := { (sampleRequest none).headers with
          contentLength := some (Json.decimalNat body.length) } }
    stream := { bytes := body, ended := false }
    moment := sampleMoment
    runValidator := fun _ _ => .ok
      { name := ascii "pytest", passed := passes, exitStatus := some 0, stdout := [], stderr := [],
        durationMs := 1, interpretation := [], timedOut := false, details := [] } }

/-- The members that name the lesson, and one of its blocks. -/
def ofLesson : Text := textMember (ascii "lesson_id") (ascii "z")

def ofBlock (id : Text) : List Text := [ofLesson, textMember (ascii "block_id") id]

def quizAnswer (answer : Nat) : List Text :=
  ofBlock (ascii "ask") ++
    [textMember (ascii "kind") (ascii "quiz"), numberMember (ascii "answer_index") answer]

def interviewAnswer (id answer : Text) : List Text :=
  [textMember (ascii "question_id") id, textMember (ascii "answer_text") answer]

/-- A learner asks too early for the lesson to be complete, fails its check, misses its quiz, takes
a hint and answers both interview questions, one of them wrong. -/
def courseSession : List (Exchange Text) :=
  [posted (ascii "/api/start") [ofLesson],
    posted (ascii "/api/complete") [ofLesson],
    posted (ascii "/api/validate") (ofBlock (ascii "check")) false,
    posted (ascii "/api/hint") [ofLesson, numberMember (ascii "index") 0],
    posted (ascii "/api/validate") (ofBlock (ascii "check")),
    posted (ascii "/api/step") (quizAnswer 0),
    posted (ascii "/api/step") (quizAnswer 1),
    posted (ascii "/api/interview/answer") (interviewAnswer (ascii "q1") (ascii "a word")),
    posted (ascii "/api/interview/answer") (interviewAnswer (ascii "q2") (ascii "nothing")),
    posted (ascii "/api/complete") [ofLesson]]

/-- The lesson is complete at the end. -/
theorem courseSession_complete :
    StoredComplete (session samplePlatform course .initial courseSession) (ascii "z") := by
  have hstatus : ((session samplePlatform course .initial courseSession).lessons.get?
      (ascii "z")).map (·.status) = some (.val complete) := by
    decide +kernel
  obtain ⟨record, hrecord, hcomplete⟩ := Option.map_eq_some_iff.mp hstatus
  exact ⟨record, hrecord, hcomplete⟩

theorem courseSession_full : (session samplePlatform course .initial courseSession).Full := by
  obtain ⟨history, a, hsession, -⟩ := session_reached (P := samplePlatform) course_loaded
    courseSession
  rw [hsession]
  exact state_full a

theorem complete_iff_answered_sample :
    Runs.Since (Completes samplePlatform course (ascii "z"))
        (Breaks samplePlatform course (ascii "z"))
        (transcript samplePlatform course .initial courseSession) ∧
      Shown samplePlatform course courseSession courseZ := by
  obtain ⟨hsince, hshown⟩ :=
    complete_iff_answered _ samplePlatform course_loaded courseSession course_z
  exact ⟨hsince.mp courseSession_complete, hshown courseSession_complete⟩

section Foreign

variable (P : Platform F) (c : Curriculum F)

/-- What shows that a request may come from a page that is not of this server. -/
inductive Foreign (headers : Headers) : Prop
  /-- A form can send other types than JSON without asking. -/
  | form (h : isJson P headers = false)
  /-- The page has another name for this host. -/
  | rebound (h : isLoopback headers = false)
  | origin (origin : Text) (h : headers.origin = some origin) (hother : isSameOrigin P origin ≠ .ok true)
  | site (site : Text) (h : headers.secFetchSite = some site) (hsame : site ≠ ascii "same-origin")
      (hnone : site ≠ ascii "none")

/-- The request gets past `_same_origin`. -/
def accepted (headers : Headers) : Bool :=
  match sameOrigin P headers with
  | .ok none => true
  | _ => false

variable {P c}

theorem siteRefusal_eq_none_iff {headers : Headers} :
    siteRefusal headers = none ↔
      ∀ site, headers.secFetchSite = some site → site = ascii "same-origin" ∨ site = ascii "none" := by
  rw [siteRefusal]
  cases headers.secFetchSite with
  | none => simp
  | some site =>
    dsimp only
    split_ifs with h
    · simp [h]
    · simp [h]

theorem accepted_iff {headers : Headers} : accepted P headers = true ↔ ¬ Foreign P headers := by
  have hpass : accepted P headers = true ↔ sameOrigin P headers = .ok none := by
    rw [accepted]
    split
    · next h => simp [h]
    · next h => exact iff_of_false nofun h
  rw [hpass]
  unfold sameOrigin
  constructor
  · intro h hforeign
    split_ifs at h with hjson hloopback
    · cases h
    · cases h
    cases hforeign with
    | form hform => exact hjson (by rw [hform]; rfl)
    | rebound hrebound => exact hloopback (by rw [hrebound]; rfl)
    | origin origin horigin hother =>
      rw [horigin] at h
      obtain ⟨same, hsame, h⟩ := Except.bind_eq_ok.mp h
      cases same with
      | true => exact hother hsame
      | false => cases h
    | site site hsite hsame hnone =>
      have hrefusal : siteRefusal headers ≠ none := fun hnot =>
        (siteRefusal_eq_none_iff.mp hnot site hsite).elim hsame hnone
      split at h
      · exact hrefusal (Except.ok.inj h)
      · obtain ⟨same, -, h⟩ := Except.bind_eq_ok.mp h
        cases same with
        | true => exact hrefusal (Except.ok.inj h)
        | false => cases h
  · intro h
    have hjson : isJson P headers = true := by
      by_contra hnot
      exact h (.form (by simpa using hnot))
    have hloopback : isLoopback headers = true := by
      by_contra hnot
      exact h (.rebound (by simpa using hnot))
    have hsite : siteRefusal headers = none := by
      refine siteRefusal_eq_none_iff.mpr fun site hsite => ?_
      by_contra hnot
      rw [not_or] at hnot
      exact h (.site site hsite hnot.1 hnot.2)
    rw [hjson, hloopback, hsite]
    cases horigin : headers.origin with
    | none => rfl
    | some origin =>
      have hsame : isSameOrigin P origin = .ok true := by
        by_contra hnot
        exact h (.origin origin horigin hnot)
      simp [hsame]

instance (headers : Headers) : Decidable (Foreign P headers) :=
  decidable_of_iff (¬ accepted P headers = true) (by rw [accepted_iff, not_not])

/-- A request that may be of another page does not touch the store, and the only response that it
may get is a 403. -/
theorem serve_foreign {e : Exchange F} (h : Foreign P e.request.headers) (s : State F) :
    (serve P c s e).1 = s ∧ ∀ response ∈ (serve P c s e).2, response.status = 403 := by
  have hrefused : sameOrigin (e.platform P) e.request.headers ≠ .ok none := by
    intro hpass
    refine accepted_iff.mp ?_ h
    rw [accepted, show sameOrigin P e.request.headers = .ok none from hpass]
  show (doPost (e.platform P) c e.moment e.request ⟨s, e.stream, []⟩).2.state = s ∧
    ∀ response ∈ (doPost (e.platform P) c e.moment e.request ⟨s, e.stream, []⟩).2.sent, _
  rw [doPost]
  cases hurl : Python.urlparse (e.platform P).urls e.request.path with
  | error error =>
    rw [attempt_bind_error rfl]
    exact ⟨rfl, List.forall_mem_nil _⟩
  | ok url =>
    rw [attempt_bind rfl]
    cases hrefusal : sameOrigin (e.platform P) e.request.headers with
    | error error =>
      rw [attempt_bind_error rfl]
      exact ⟨rfl, List.forall_mem_nil _⟩
    | ok refusal =>
      rw [attempt_bind rfl]
      cases refusal with
      | none => exact absurd hrefusal hrefused
      | some reason =>
        obtain ⟨hstate, hsent⟩ :=
          refusal_spec (e.platform P) e.request.headers ⟨s, e.stream, []⟩ reason
        exact ⟨hstate, fun response hresponse =>
          (hsent response hresponse).resolve_left List.not_mem_nil⟩

/-- Requests that may be of other pages leave no trace: without them the store is the same, and so
are the responses to all other requests. They are sent nothing but refusals. -/
theorem foreign_leaves_no_trace (P : Platform F) (c : Curriculum F) (s : State F)
    (exchanges : List (Exchange F)) :
    session P c s (exchanges.filter fun e => ¬ Foreign P e.request.headers) =
      session P c s exchanges ∧
    transcript P c s (exchanges.filter fun e => ¬ Foreign P e.request.headers) =
      (transcript P c s exchanges).filter (fun answered =>
        ¬ Foreign P answered.1.request.headers) ∧
    ∀ answered ∈ transcript P c s exchanges, Foreign P answered.1.request.headers →
      ∀ response ∈ answered.2, response.status = 403 := by
  have hinert (s : State F) (e : Exchange F)
      (h : decide (¬ Foreign P e.request.headers) = false) : (serve P c s e).1 = s :=
    (serve_foreign (by simpa using h) s).1
  obtain ⟨hsession, htranscript⟩ :=
    Runs.trace_filter (s := s) (fun s e => (serve P c s e).2) hinert exchanges
  refine ⟨hsession, htranscript, fun answered hanswered hforeign => ?_⟩
  obtain ⟨s', heq⟩ := Runs.mem_trace _ hanswered
  rw [heq]
  exact (serve_foreign hforeign s').2

end Foreign

end Handler

end Learning
