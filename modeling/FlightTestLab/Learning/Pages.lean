import FlightTestLab.Learning.Responses
import FlightTestLab.Library.Draw
import FlightTestLab.Python.Quote

/-!
# The handler of GET requests

`do_GET` with the pages of the dashboard, the roadmap, a lesson, the mastery, a flow, the next
interview question and the static files. What the file system holds, what `random` draws and how
a quotient is rounded to a float are parameters.

## Main definitions

- `Learning.Handler.doGet`: `do_GET`

## Main results

- `Learning.Handler.doGet_readOnly`: no page changes the store
- `Learning.Handler.doGet_served_iff`: when a page is answered
- `Learning.Handler.interview_drawn_iff`: which numbers draw an interview question
-/

namespace Learning

open Hoare (Prog Triple Keeps triple_bind triple_ite triple_pure keeps_bind keeps_ite keeps_lift)
open Json (Text ascii)
open Python (Value Error FloatOps)

variable {F : Type}

namespace Handler

section Pages

/-- What the pages use of the machine. -/
structure Site (F : Type) where
  /-- The float nearest to a quotient. -/
  float : Rat → F
  /-- `(STATIC_ROOT / relative).resolve()`, as the names on the way from the root. -/
  resolve : Text → Except Error (List Text)
  /-- `STATIC_ROOT.resolve()` -/
  staticRoot : List Text
  /-- `candidate.is_file()`; an `OSError` that is not about a path with nothing there comes out. -/
  isFile : List Text → Except Error Bool
  readBytes : List Text → Except Error (List Nat)
  /-- `candidate.suffix` -/
  suffix : List Text → Text
  /-- `random.random()` -/
  random : Rat

/-- A file as it is served. -/
structure File where
  contentType : Text
  path : List Text
  body : List Nat

variable (P : Platform F) (site : Site F) (c : Curriculum F)

/-- `curriculum.lessons[lesson_id]` -/
def lessonAt (lessonId : Text) : Except Error (Lesson F) :=
  (Assoc.get? lessonId c.lessons).elim (.error .keyError) .ok

/-- `complete.get(lesson_id)` as a truth value. -/
def isDone (completed : List (Text × Bool)) (lessonId : Text) : Bool :=
  (Assoc.get? lessonId completed).getD false

/-- The ids of the lessons that are available. -/
def availableIds : List Text → Except Error (List Text)
  | [] => .ok []
  | id :: ids => do
    let lesson ← lessonAt c id
    let rest ← availableIds ids
    pure (if lesson.status = .available then id :: rest else rest)

/-- An entry of `day_progress`. -/
structure DayProgress (F : Type) where
  day : Day F
  total : Nat
  done : Nat

def dayProgress (completed : List (Text × Bool)) (day : Day F) : Except Error (DayProgress F) := do
  let available ← availableIds c day.lessonIds
  pure { day, total := available.length, done := available.countP (isDone completed) }

/-- The payload of `_handle_state`. -/
structure Dashboard (F : Type) where
  resumeLessonId : Text
  totalLessons : Nat
  completedLessons : Nat
  days : List (DayProgress F)
  mastery : List (Text × Mastery)

def Mastery.toValue (mastery : Mastery) : Value F :=
  .dict [(ascii "correct", countValue mastery.correct),
    (ascii "incorrect", countValue mastery.incorrect),
    (ascii "score", mastery.score.elim .none fun score => .float (site.float score)),
    (ascii "weak", .bool mastery.weak)]

def masteryValue (mastery : List (Text × Mastery)) : Value F :=
  .dict (mastery.map fun entry => (entry.1, Mastery.toValue site entry.2))

/-- `str(entry.get("summary", ""))` -/
def summaryText (day : Day F) : Text := P.strOf day.summary

def Dashboard.toValue (page : Dashboard F) : Value F :=
  .dict [(ascii "resume_lesson_id", .str page.resumeLessonId),
    (ascii "total_lessons", countValue page.totalLessons),
    (ascii "completed_lessons", countValue page.completedLessons),
    (ascii "days", .list (page.days.map fun entry =>
      .dict [(ascii "day", .int entry.day.day), (ascii "title", .str entry.day.title),
        (ascii "summary", .str (summaryText P entry.day)), (ascii "total", countValue entry.total),
        (ascii "done", countValue entry.done)])),
    (ascii "mastery", masteryValue site page.mastery)]

/-- The payload, from what the store answers. -/
def dashboard (resumeLessonId : Text) (completed : List (Text × Bool))
    (mastery : List (Text × Mastery)) : Except Error (Dashboard F) := do
  let available ← availableIds c c.orderedLessonIds
  let days ← c.days.mapM (dayProgress c completed)
  pure {
    resumeLessonId, days, mastery
    totalLessons := c.lessons.countP fun entry => entry.2.status = .available
    completedLessons := available.countP (isDone completed) }

/-- A lesson in the roadmap. -/
structure RoadmapEntry (F : Type) where
  lesson : Lesson F
  progress : Value F
  locked : Bool

/-- The status that the roadmap shows: a lesson whose chain is broken does not stay complete. -/
def shownStatus (record : Option (LessonRecord F)) (done : Bool) : Value F :=
  let status := (record.map (·.status)).getD .absent
  if done || !status.is complete then fieldValue .str (.str notStarted) status else .str inProgress

def roadmapEntry (s : State F) (completed : List (Text × Bool)) (lessonId : Text) :
    Except Error (RoadmapEntry F) := do
  let lesson ← lessonAt c lessonId
  pure {
    lesson
    progress := shownStatus (s.lessons.get? lessonId) (isDone completed lessonId)
    locked := lesson.status = .available && !lesson.prerequisites.all (isDone completed) }

/-- The days of `_handle_curriculum`. -/
def roadmap (s : State F) (completed : List (Text × Bool)) :
    Except Error (List (Day F × List (RoadmapEntry F))) :=
  c.days.mapM fun day => do
    let entries ← day.lessonIds.mapM (roadmapEntry c s completed)
    pure (day, entries)

def RoadmapEntry.toValue (entry : RoadmapEntry F) : Value F :=
  .dict [(ascii "id", .str entry.lesson.id), (ascii "title", .str entry.lesson.title),
    (ascii "estimated_minutes", .int entry.lesson.estimatedMinutes),
    (ascii "status", .str (statusText entry.lesson.status)),
    (ascii "unavailable_reason", .str (reasonText P entry.lesson.unavailableReason)),
    (ascii "progress", entry.progress), (ascii "locked", .bool entry.locked)]

def roadmapValue (days : List (Day F × List (RoadmapEntry F))) : Value F :=
  .dict [(ascii "concepts", idsValue c.concepts),
    (ascii "days", .list (days.map fun (day, entries) =>
      .dict [(ascii "day", .int day.day), (ascii "title", .str day.title),
        (ascii "summary", .str (summaryText P day)),
        (ascii "lessons", .list (entries.map (RoadmapEntry.toValue P)))]))]

/-- `random.choices` on one question, over exact numbers. -/
def chooseQuestion (weights : List (Text × Rat)) : Except Error Text :=
  let total := (weights.map Prod.snd).sum
  if total ≤ 0 then .error .valueError
  else
    match weights[Draw.position (weights.map Prod.snd) (site.random * total)]? with
    | some (questionId, _) => .ok questionId
    | none => .error .indexError

/-- The first question with the id. -/
def questionAt (questionId : Text) : Except Error InterviewQuestion :=
  (c.interview.find? (·.id == questionId)).elim (.error .indexError) .ok

end Pages

section Endpoints

variable (P : Platform F) (site : Site F) (c : Curriculum F)

def handleState : Action F Unit := do
  let resume ← query fun s => resumeLessonId P.floats s c
  let completed ← query fun s => completionMap P.floats s c
  let mastery ← query fun s => conceptMastery s c.concepts
  let page ← attempt (dashboard c resume completed mastery)
  sendJson (page.toValue P site) 200

def handleCurriculum : Action F Unit := do
  let snapshot ← query fun s => .ok s
  let completed ← query fun s => completionMap P.floats s c
  let days ← attempt (roadmap c snapshot completed)
  sendJson (roadmapValue P c days) 200

def handleLesson (lessonId : Text) : Action F Unit :=
  match Assoc.get? (Python.unquote lessonId) c.lessons with
  | none => sendErrorJson 404 (ascii "unknown lesson " ++ P.repr (.str lessonId))
  | some lesson => do
    let shown ← lessonPublic P c lesson
    sendJson shown 200

def handleMastery : Action F Unit := do
  let mastery ← query fun s => conceptMastery s c.concepts
  sendJson (masteryValue site mastery) 200

def handleFlow (name : Text) : Action F Unit :=
  match Assoc.get? (Python.unquote name) c.flows with
  | none => sendErrorJson 404 (ascii "unknown flow " ++ P.repr (.str name))
  | some flow => sendJson (.dict flow) 200

def handleInterviewNext : Action F Unit := do
  let weights ← query fun s =>
    interviewWeights s (c.interview.map fun question => (question.id, question.concepts))
  let chosen ← attempt (chooseQuestion site weights)
  let question ← attempt (questionAt c chosen)
  sendJson (.dict [(ascii "id", .str question.id), (ascii "question", .str question.question)]) 200

/-- `CONTENT_TYPES` -/
def contentTypes : List (Text × Text) :=
  [(ascii ".html", ascii "text/html; charset=utf-8"), (ascii ".css", ascii "text/css; charset=utf-8"),
    (ascii ".js", ascii "text/javascript; charset=utf-8"),
    (ascii ".json", ascii "application/json; charset=utf-8"), (ascii ".svg", ascii "image/svg+xml"),
    (ascii ".png", ascii "image/png"), (ascii ".ico", ascii "image/x-icon")]

/-- The path under `static/` that a URL path names, if it names one. -/
def staticPath (urlPath : Text) : Option Text :=
  let relative := Python.unquote (urlPath.dropWhile (· == 0x2F))
  if relative = [] ∨ relative = ascii "static" then some (ascii "index.html")
  else if ascii "static/" <+: relative then some (relative.drop 7)
  else none

def notFound : Action F (Option File) := do
  sendErrorJson 404 (ascii "not found")
  pure none

/-- `_serve_static`: the file that is served, when it is not an error. -/
def serveStatic (urlPath : Text) : Action F (Option File) :=
  match staticPath urlPath with
  | none => notFound
  | some relative => do
    let path ← attempt (site.resolve relative)
    if ¬ site.staticRoot <+: path then notFound
    else do
      let isFile ← attempt (site.isFile path)
      if !isFile then notFound
      else do
        let body ← attempt (site.readBytes path)
        pure (some {
          contentType := (Assoc.get? (site.suffix path) contentTypes).getD
            (ascii "application/octet-stream")
          path, body })

/-- A page that is JSON. -/
def json (page : Action F Unit) : Action F (Option File) := do
  page
  pure none

def routeGet (path : Text) : Action F (Option File) :=
  if path = ascii "/" ∨ ascii "/static/" <+: path then serveStatic site path
  else if path = ascii "/api/state" then json (handleState P site c)
  else if path = ascii "/api/curriculum" then json (handleCurriculum P c)
  else if ascii "/api/lesson/" <+: path then json (handleLesson P c (path.drop 12))
  else if path = ascii "/api/mastery" then json (handleMastery site c)
  else if ascii "/api/flow/" <+: path then json (handleFlow P c (path.drop 10))
  else if path = ascii "/api/interview" then json (handleInterviewNext site c)
  else notFound

/-- `do_GET` -/
def doGet (path : Text) : Action F (Option File) := do
  let url ← attempt (Python.urlparse P.urls path)
  routeGet P site c url.path

end Endpoints

section Untouched

variable {P : Platform F} {site : Site F} {c : Curriculum F}

/-- The store is not touched. -/
def ReadOnly {α : Type} (p : Action F α) : Prop := Keeps World.state p

theorem readOnly_send (payload : Value F) (status : Nat) : ReadOnly (sendJson payload status) :=
  Hoare.keeps_modify fun _ => rfl

theorem readOnly_query {α : Type} (op : State F → Except Error α) : ReadOnly (query op) := by
  refine Hoare.keeps_access fun w a w' h => ?_
  dsimp only at h
  cases hop : op w.state with
  | ok a =>
    rw [hop] at h
    cases h
    rfl
  | error e =>
    rw [hop] at h
    cases h

theorem readOnly_attempt {α : Type} (x : Except Error α) :
    ReadOnly (attempt x : Action F α) := keeps_lift _

theorem readOnly_json {page : Action F Unit} (h : ReadOnly page) : ReadOnly (json page) :=
  keeps_bind h fun _ => Hoare.keeps_pure _

theorem readOnly_notFound : ReadOnly (notFound : Action F (Option File)) :=
  readOnly_json (readOnly_send _ _)

theorem readOnly_lessonPublic (lesson : Lesson F) : ReadOnly (lessonPublic P c lesson) := by
  refine keeps_bind (readOnly_query _) fun snapshot => keeps_bind (readOnly_query _) fun answer => ?_
  exact keeps_bind (readOnly_attempt _) fun hints => Hoare.keeps_pure _

theorem readOnly_serveStatic (urlPath : Text) : ReadOnly (serveStatic site urlPath) := by
  unfold serveStatic
  split
  · exact readOnly_notFound
  · refine keeps_bind (readOnly_attempt _) fun path => ?_
    refine keeps_ite readOnly_notFound (keeps_bind (readOnly_attempt _) fun isFile => ?_)
    refine keeps_ite readOnly_notFound ?_
    exact keeps_bind (readOnly_attempt _) fun body => Hoare.keeps_pure _

theorem readOnly_routeGet (path : Text) : ReadOnly (routeGet P site c path) := by
  have hstate : ReadOnly (handleState P site c) :=
    keeps_bind (readOnly_query _) fun _ => keeps_bind (readOnly_query _) fun _ =>
      keeps_bind (readOnly_query _) fun _ => keeps_bind (readOnly_attempt _) fun _ =>
        readOnly_send _ _
  have hcurriculum : ReadOnly (handleCurriculum P c) :=
    keeps_bind (readOnly_query _) fun _ => keeps_bind (readOnly_query _) fun _ =>
      keeps_bind (readOnly_attempt _) fun _ => readOnly_send _ _
  have hlesson (id : Text) : ReadOnly (handleLesson P c id) := by
    unfold handleLesson
    split
    · exact readOnly_send _ _
    · exact keeps_bind (readOnly_lessonPublic _) fun _ => readOnly_send _ _
  have hmastery : ReadOnly (handleMastery site c) :=
    keeps_bind (readOnly_query _) fun _ => readOnly_send _ _
  have hflow (name : Text) : ReadOnly (handleFlow P c name) := by
    unfold handleFlow
    split <;> exact readOnly_send _ _
  have hinterview : ReadOnly (handleInterviewNext site c) :=
    keeps_bind (readOnly_query _) fun _ => keeps_bind (readOnly_attempt _) fun _ =>
      keeps_bind (readOnly_attempt _) fun _ => readOnly_send _ _
  refine keeps_ite (readOnly_serveStatic path) (keeps_ite (readOnly_json hstate) ?_)
  refine keeps_ite (readOnly_json hcurriculum) (keeps_ite (readOnly_json (hlesson _)) ?_)
  refine keeps_ite (readOnly_json hmastery) (keeps_ite (readOnly_json (hflow _)) ?_)
  exact keeps_ite (readOnly_json hinterview) readOnly_notFound

/-- A plain path is routed as it is. -/
theorem doGet_plain {path : Text} (h : Python.isPlainPath path = true) :
    doGet P site c path = routeGet P site c path := by
  rw [doGet, attempt_bind (Python.urlparse_plain P.urls h)]

theorem json_of_ok {page : Action F Unit} {w w' : World F} (h : page w = (.ok (), w')) :
    json page w = (.ok none, w') := by
  rw [json, Prog.bind_of_ok h]
  rfl

/-- Whatever a GET request asks for, and whether it is answered, the store stays as it is. -/
theorem doGet_readOnly (path : Text) : ReadOnly (doGet P site c path) :=
  keeps_bind (readOnly_attempt _) fun url => readOnly_routeGet url.path

end Untouched

end Handler

section Days

variable {S : Sources F} {concepts : List Text}

/-- The lessons of a day are added to those before. -/
theorem loadDay_ids {lessons : List (Text × Lesson F)} {entry : Value F}
    {result : Day F × List (Text × Lesson F)}
    (h : loadDay S concepts lessons entry = .ok result) :
    result.2.map Prod.fst = lessons.map Prod.fst ++ result.1.lessonIds := by
  cases entry with
  | dict entry =>
    rw [loadDay, Except.bind_eq_ok] at h
    obtain ⟨-, -, h⟩ := h
    split at h
    · simp only [Except.bind_eq_ok] at h
      obtain ⟨_, _, _, _, h⟩ := h
      split at h
      · split at h
        · rw [Except.bind_eq_ok] at h
          obtain ⟨extended, hload, hpure⟩ := h
          cases hpure
          have hkept : Kept S concepts (lessons <+: ·) :=
            fun loaded _ _ _ _ hloaded _ _ _ => hloaded.trans (List.prefix_append _ _)
          obtain ⟨more, rfl⟩ := loadLessons_kept hkept List.prefix_rfl hload
          simp
        · cases h
      · cases h
    · cases h
  | none | bool _ | int _ | float _ | str _ | list _ => cases h

theorem loadDays_ids {lessons : List (Text × Lesson F)} {entries : List (Value F)}
    {result : List (Day F) × List (Text × Lesson F)}
    (h : loadDays S concepts lessons entries = .ok result) :
    result.2.map Prod.fst = lessons.map Prod.fst ++ result.1.flatMap Day.lessonIds := by
  induction entries generalizing lessons result with
  | nil =>
    cases h
    simp
  | cons entry entries ih =>
    simp only [loadDays, Except.bind_eq_ok] at h
    obtain ⟨_, hday, _, hdays, hpure⟩ := h
    have hrest := ih hdays
    cases hpure
    rw [hrest, loadDay_ids hday, List.flatMap_cons, List.append_assoc]

/-- The days have the lessons of the program between them, in its order. -/
theorem loadCurriculum_days {c : Curriculum F} (h : loadCurriculum S = .ok c) :
    c.days.flatMap Day.lessonIds = c.orderedLessonIds := by
  rw [loadCurriculum, Except.bind_eq_ok] at h
  obtain ⟨program, -, h⟩ := h
  split at h
  · simp only [Except.bind_eq_ok] at h
    obtain ⟨concepts, -, -, -, h⟩ := h
    split at h
    · simp only [Except.bind_eq_ok] at h
      obtain ⟨⟨days, lessons⟩, hdays, _, _, _, _, _, _, _, _, _, _, hpure⟩ := h
      cases hpure
      have hids := loadDays_ids hdays
      rw [List.map_nil, List.nil_append] at hids
      exact hids.symm
    · cases h
  · cases h

end Days

namespace Handler

section Answers

variable {S : Sources F} {c : Curriculum F} (hload : loadCurriculum S = .ok c) {P : Platform F}
  {site : Site F} {sent : List (Response F)}

/-- What a call reads of a usable store, it returns. -/
theorem reads_ok (fl : FloatOps F) (hc : c.Sound) {s : State F} (hs : s.Usable c) {call : Call F}
    (hcall : call.Within c) {α : Type} {x : Except Error α}
    (hx : ∀ clock, perform fl clock s call = x.map fun _ => .read s) : ∃ a, x = .ok a := by
  obtain ⟨effect, heffect, -⟩ : ∃ effect, perform fl (fun _ => []) s call = .ok effect ∧ _ :=
    perform_usable hc hs (fun _ => []) hcall
  rw [hx] at heffect
  obtain ⟨a, ha, -⟩ := Except.map_eq_ok.mp heffect
  exact ⟨a, ha⟩

variable (c) in
def isAvailable (lessonId : Text) : Bool :=
  (Assoc.get? lessonId c.lessons).any (·.status = .available)

theorem lessonAt_ok {lessonId : Text} {lesson : Lesson F}
    (h : Assoc.get? lessonId c.lessons = some lesson) : lessonAt c lessonId = .ok lesson := by
  rw [lessonAt, h]
  rfl

/-- The lessons of known ids that are available. -/
theorem availableIds_eq {ids : List Text} (h : ∀ id ∈ ids, (Assoc.get? id c.lessons).isSome) :
    availableIds c ids = .ok (ids.filter (isAvailable c)) := by
  induction ids with
  | nil => rfl
  | cons id ids ih =>
    rw [List.forall_mem_cons] at h
    obtain ⟨lesson, hl⟩ := Option.isSome_iff_exists.mp h.1
    have hfilter : (id :: ids).filter (isAvailable c) =
        if lesson.status = .available then id :: ids.filter (isAvailable c)
        else ids.filter (isAvailable c) := by
      rw [List.filter_cons, isAvailable, hl]
      simp
    rw [availableIds, lessonAt_ok hl, ih h.2, hfilter]
    rfl

include hload

theorem get?_of_ordered {id : Text} (h : id ∈ c.orderedLessonIds) :
    (Assoc.get? id c.lessons).isSome := by
  rw [(loadCurriculum_sound hload).ordered] at h
  exact Option.isSome_iff_ne_none.mpr fun hnone => Assoc.get?_eq_none_iff.mp hnone h

theorem get?_of_day {day : Day F} (hday : day ∈ c.days) {id : Text} (h : id ∈ day.lessonIds) :
    (Assoc.get? id c.lessons).isSome := by
  apply get?_of_ordered hload
  rw [← loadCurriculum_days hload]
  exact List.mem_flatMap.mpr ⟨day, hday, h⟩

/-- The dashboard of a loaded curriculum. -/
theorem dashboard_eq (resume : Text) (completed : List (Text × Bool))
    (mastery : List (Text × Mastery)) :
    dashboard c resume completed mastery = .ok {
      resumeLessonId := resume
      totalLessons := c.lessons.countP fun entry => entry.2.status = .available
      completedLessons := (c.orderedLessonIds.filter (isAvailable c)).countP (isDone completed)
      days := c.days.map fun day =>
        { day
          total := (day.lessonIds.filter (isAvailable c)).length
          done := (day.lessonIds.filter (isAvailable c)).countP (isDone completed) }
      mastery } := by
  have hday : ∀ day ∈ c.days, dayProgress c completed day = .ok
      { day
        total := (day.lessonIds.filter (isAvailable c)).length
        done := (day.lessonIds.filter (isAvailable c)).countP (isDone completed) } := by
    intro day hmem
    rw [dayProgress, availableIds_eq fun id hid => get?_of_day hload hmem hid]
    rfl
  rw [dashboard, availableIds_eq fun id hid => get?_of_ordered hload hid, Except.mapM_eq_ok hday]
  rfl

theorem roadmap_ok (s : State F) (completed : List (Text × Bool)) :
    ∃ days, roadmap c s completed = .ok days := by
  refine Except.exists_mapM_eq_ok fun day hday => ?_
  obtain ⟨entries, hentries⟩ : ∃ entries,
      day.lessonIds.mapM (roadmapEntry c s completed) = .ok entries := by
    refine Except.exists_mapM_eq_ok fun id hid => ?_
    obtain ⟨lesson, hl⟩ := Option.isSome_iff_exists.mp (get?_of_day hload hday hid)
    rw [roadmapEntry, lessonAt_ok hl]
    exact ⟨_, rfl⟩
  rw [hentries]
  exact ⟨_, rfl⟩

end Answers

section Drawing

variable {c : Curriculum F} {site : Site F} {weights : List (Text × Rat)}

/-- The weights of the questions, each at least the least weight. -/
structure Weighted (c : Curriculum F) (weights : List (Text × Rat)) : Prop where
  ids : weights.map Prod.fst = c.interview.map InterviewQuestion.id
  least : ∀ weight ∈ weights.map Prod.snd, minInterviewWeight ≤ weight

theorem minInterviewWeight_pos : 0 < minInterviewWeight := by
  rw [minInterviewWeight]
  norm_num

theorem weightOf_least {s : State F} {mastery : List (Text × Mastery)} {questionId : Text}
    {concepts : List Text} {weight : Rat}
    (h : weightOf s mastery questionId concepts = .ok weight) : minInterviewWeight ≤ weight := by
  rw [weightOf] at h
  obtain ⟨incorrect, -, h⟩ := Except.bind_eq_ok.mp h
  obtain ⟨streak, -, h⟩ := Except.bind_eq_ok.mp h
  cases h
  exact le_max_right _ _

theorem interviewWeights_weighted {s : State F} (h : interviewWeights s
    (c.interview.map fun question => (question.id, question.concepts)) = .ok weights) :
    Weighted c weights := by
  rw [interviewWeights] at h
  obtain ⟨mastery, -, h⟩ := Except.bind_eq_ok.mp h
  have hweight (question : Text × List Text) (entry : Text × Rat)
      (h : (do
        let weight ← weightOf s mastery question.1 question.2
        pure (question.1, weight)) = .ok entry) :
      entry.1 = question.1 ∧ minInterviewWeight ≤ entry.2 := by
    obtain ⟨weight, hweight, hpure⟩ := Except.bind_eq_ok.mp h
    cases hpure
    exact ⟨rfl, weightOf_least hweight⟩
  obtain ⟨hids, hleast⟩ := Except.mapM_spec Prod.fst Prod.fst h fun question _ => hweight question
  rw [List.map_map] at hids
  exact ⟨hids, List.forall_mem_map.mpr hleast⟩

theorem Weighted.length_eq (h : Weighted c weights) :
    (weights.map Prod.snd).length = c.interview.length := by
  have hlength := congrArg List.length h.ids
  rw [List.length_map, List.length_map] at hlength
  rw [List.length_map, hlength]

theorem Weighted.nonneg (h : Weighted c weights) : ∀ w ∈ weights.map Prod.snd, 0 ≤ w :=
  fun w hw => minInterviewWeight_pos.le.trans (h.least w hw)

theorem Weighted.sum_pos (h : Weighted c weights) (hne : c.interview ≠ []) :
    0 < (weights.map Prod.snd).sum := by
  refine List.sum_pos _ (fun w hw => minInterviewWeight_pos.trans_le (h.least w hw)) ?_
  intro hnil
  have hids := h.ids
  rw [List.map_eq_nil_iff.mp hnil] at hids
  exact hne (List.map_eq_nil_iff.mp hids.symm)

/-- The draw of a question returns the one at its position. -/
theorem chooseQuestion_eq (h : Weighted c weights) (hne : c.interview ≠ [])
    (h0 : 0 ≤ site.random) (h1 : site.random < 1) :
    ∃ question, c.interview[Draw.position (weights.map Prod.snd)
      (site.random * (weights.map Prod.snd).sum)]? = some question ∧
        chooseQuestion site weights = .ok question.id := by
  have hsum := h.sum_pos hne
  have hlt : Draw.position (weights.map Prod.snd)
      (site.random * (weights.map Prod.snd).sum) < c.interview.length := by
    rw [← h.length_eq]
    exact ((Draw.position_scaled_iff h.nonneg hsum h0 h1 _).mp rfl).1
  refine ⟨_, List.getElem?_eq_getElem hlt, ?_⟩
  have hid := congrArg (·[Draw.position (weights.map Prod.snd)
      (site.random * (weights.map Prod.snd).sum)]?) h.ids
  rw [List.getElem?_map, List.getElem?_map, List.getElem?_eq_getElem hlt] at hid
  obtain ⟨⟨id, weight⟩, hget, rfl⟩ := Option.map_eq_some_iff.mp hid
  rw [chooseQuestion, if_neg (not_le.mpr hsum), hget]

/-- Among questions with different ids the search finds the one it is for. -/
theorem questionAt_eq (hdistinct : (c.interview.map InterviewQuestion.id).Nodup)
    {question : InterviewQuestion} (h : question ∈ c.interview) :
    questionAt c question.id = .ok question := by
  have hfound : c.interview.find? (·.id == question.id) = some question := by
    obtain ⟨before, after, hsplit⟩ := List.append_of_mem h
    rw [hsplit, List.map_append, List.nodup_append] at hdistinct
    refine List.find?_eq_some_iff_append.mpr ⟨beq_self_eq_true _, before, after, hsplit, ?_⟩
    intro other hother
    have hne := hdistinct.2.2 other.id (List.mem_map_of_mem hother) question.id
      (List.mem_map_of_mem List.mem_cons_self)
    simpa using hne
  rw [questionAt, hfound]
  rfl

end Drawing

section Served

variable {S : Sources F} {c : Curriculum F} {P : Platform F} {site : Site F}
  {sent : List (Response F)}

/-- One response is sent: JSON, or a file under the static root as it is. -/
def Served (site : Site F) (sent : List (Response F)) : Option File → World F → Prop
  | none, w => ∃ response, w.sent = sent ++ [response]
  | some file, w =>
    w.sent = sent ∧ site.staticRoot <+: file.path ∧ site.readBytes file.path = .ok file.body

/-- The path names a file that cannot be resolved, looked up or read. -/
def FileRaises (site : Site F) (urlPath : Text) : Prop :=
  (urlPath = ascii "/" ∨ ascii "/static/" <+: urlPath) ∧
    ∃ relative, staticPath urlPath = some relative ∧
      ((∃ e, site.resolve relative = .error e) ∨
        ∃ path e, site.resolve relative = .ok path ∧ site.staticRoot <+: path ∧
          (site.isFile path = .error e ∨
            site.isFile path = .ok true ∧ site.readBytes path = .error e))

theorem json_served {page : Action F Unit}
    (h : Triple (Pending State.Full sent) page (Answered sent)) :
    Triple (Pending State.Full sent) (json page) (Served site sent) :=
  triple_bind h fun _ => triple_pure fun _ hw => hw

theorem notFound_served : Triple (Pending State.Full sent) notFound (Served site sent) :=
  json_served (answers_error _ _)

theorem serveStatic_served {urlPath : Text}
    (hpath : urlPath = ascii "/" ∨ ascii "/static/" <+: urlPath)
    (h : ¬ FileRaises site urlPath) :
    Triple (Pending State.Full sent) (serveStatic site urlPath) (Served site sent) := by
  unfold serveStatic
  cases hrelative : staticPath urlPath with
  | none => exact notFound_served
  | some relative =>
    dsimp only
    cases hresolve : site.resolve relative with
    | error e => exact absurd ⟨hpath, relative, hrelative, .inl ⟨e, hresolve⟩⟩ h
    | ok path =>
      rw [attempt_bind rfl]
      refine triple_ite (fun _ => notFound_served) fun hinside => ?_
      -- inside the root, only the file system is left to raise
      have hreads {e : Error} (hraises : site.isFile path = .error e ∨
          site.isFile path = .ok true ∧ site.readBytes path = .error e) : False :=
        h ⟨hpath, relative, hrelative, .inr ⟨path, e, hresolve, not_not.mp hinside, hraises⟩⟩
      cases hfile : site.isFile path with
      | error e => exact (hreads (.inl hfile)).elim
      | ok isFile =>
        rw [attempt_bind rfl]
        cases isFile with
        | false => exact notFound_served
        | true =>
          rw [if_neg (by decide)]
          cases hread : site.readBytes path with
          | error e => exact (hreads (.inr ⟨hfile, hread⟩)).elim
          | ok body =>
            rw [attempt_bind rfl]
            exact triple_pure fun w hw => ⟨hw.2, not_not.mp hinside, hread⟩

/-- When the file raises, nothing is returned. -/
theorem serveStatic_raises {urlPath : Text} (h : FileRaises site urlPath) (w : World F) :
    ∃ e w', serveStatic site urlPath w = (.error e, w') := by
  obtain ⟨-, relative, hrelative, hraises⟩ := h
  unfold serveStatic
  rw [hrelative]
  dsimp only
  obtain ⟨e, hresolve⟩ | ⟨path, e, hresolve, hinside, hfile | ⟨hfile, hread⟩⟩ := hraises
  · rw [attempt_bind_error hresolve]
    exact ⟨_, _, rfl⟩
  · rw [attempt_bind hresolve, if_neg (not_not.mpr hinside), attempt_bind_error hfile]
    exact ⟨_, _, rfl⟩
  · rw [attempt_bind hresolve, if_neg (not_not.mpr hinside), attempt_bind hfile,
      if_neg (by decide), attempt_bind_error hread]
    exact ⟨_, _, rfl⟩

variable (hload : loadCurriculum S = .ok c)

include hload

theorem handleState_answers :
    Triple (Pending State.Full sent) (handleState P site c) (Answered sent) := by
  have hc := loadCurriculum_sound hload
  refine triple_bind (triple_query fun s hs => ?_) fun resume => ?_
  · exact reads_ok P.floats hc (hs.usable c) (show (Call.resumeLessonId c).Within c from rfl)
      fun _ => rfl
  refine triple_bind (triple_query fun s hs => ?_) fun completed => ?_
  · exact reads_ok P.floats hc (hs.usable c) (show (Call.completionMap c).Within c from rfl)
      fun _ => rfl
  refine triple_bind (triple_query fun s hs => ?_) fun mastery => ?_
  · exact reads_ok P.floats hc (hs.usable c)
      (show (Call.conceptMastery c.concepts).Within c from List.Subset.refl _) fun _ => rfl
  rw [attempt_bind (dashboard_eq hload resume completed mastery)]
  exact answers_send _ _

theorem handleCurriculum_answers :
    Triple (Pending State.Full sent) (handleCurriculum P c) (Answered sent) := by
  have hc := loadCurriculum_sound hload
  refine triple_bind (triple_query fun s _ => ⟨s, rfl⟩) fun snapshot => ?_
  refine triple_bind (triple_query fun s hs => ?_) fun completed => ?_
  · exact reads_ok P.floats hc (hs.usable c) (show (Call.completionMap c).Within c from rfl)
      fun _ => rfl
  obtain ⟨days, hdays⟩ := roadmap_ok hload snapshot completed
  rw [attempt_bind hdays]
  exact answers_send _ _

theorem handleLesson_answers (lessonId : Text) :
    Triple (Pending State.Full sent) (handleLesson P c lessonId) (Answered sent) := by
  unfold handleLesson
  split
  · exact answers_error _ _
  · next lesson hl =>
    have hmem := Assoc.mem_of_get? hl
    have hid : lesson.id = Python.unquote lessonId := (loadCurriculum_sound hload).ids _ hmem
    rw [← hid] at hmem
    rintro w ⟨hfull, hsent⟩
    have hshown : Triple (Pending (State.Usable c) sent)
        (lessonPublic P c lesson >>= fun shown => sendJson shown 200) (Answered sent) :=
      triple_bind (lessonPublic_usable hload hmem) fun _ => answers_send _ _
    exact hshown w ⟨hfull.usable c, hsent⟩

theorem handleMastery_answers :
    Triple (Pending State.Full sent) (handleMastery site c) (Answered sent) := by
  refine triple_bind (triple_query fun s hs => ?_) fun mastery => answers_send _ _
  exact reads_ok S.floats (loadCurriculum_sound hload) (hs.usable c)
    (show (Call.conceptMastery c.concepts).Within c from List.Subset.refl _) fun _ => rfl

omit hload in
theorem handleFlow_answers (name : Text) :
    Triple (Pending State.Full sent) (handleFlow P c name) (Answered sent) := by
  unfold handleFlow
  split
  · exact answers_error _ _
  · exact answers_send _ _

theorem handleInterviewNext_answers (h0 : 0 ≤ site.random) (h1 : site.random < 1) :
    Triple (Pending State.Full sent) (handleInterviewNext site c) (Answered sent) := by
  have hc := loadCurriculum_sound hload
  have hvalid := loadCurriculum_valid hload
  have hweights : Triple (Pending State.Full sent) (query fun s =>
      interviewWeights s (c.interview.map fun question => (question.id, question.concepts)))
        fun weights w => Weighted c weights ∧ Pending State.Full sent w := by
    apply Hoare.triple_access
    rintro w ⟨hfull, hsent⟩
    have hwithin : (Call.interviewWeights
        (c.interview.map fun question => (question.id, question.concepts))).Within c := by
      intro entry hentry
      obtain ⟨question, hquestion, rfl⟩ := List.mem_map.mp hentry
      exact ⟨List.mem_map_of_mem hquestion, (hvalid.questions question hquestion).concepts⟩
    obtain ⟨weights, hok⟩ := reads_ok S.floats hc (hfull.usable c) hwithin fun _ => rfl
    refine ⟨weights, w, ?_, interviewWeights_weighted hok, hfull, hsent⟩
    dsimp only
    rw [hok]
    rfl
  refine triple_bind hweights fun weights => ?_
  rintro w ⟨hweighted, hw⟩
  obtain ⟨question, hget, hchosen⟩ := chooseQuestion_eq hweighted hvalid.nonempty h0 h1
  have hquestion := questionAt_eq hvalid.distinct (List.mem_of_getElem? hget)
  rw [attempt_bind hchosen, attempt_bind hquestion]
  exact answers_send _ _ w hw

/-- Every route sends one response, unless it is a file that raises. -/
theorem routeGet_served (h0 : 0 ≤ site.random) (h1 : site.random < 1) {path : Text}
    (h : ¬ FileRaises site path) :
    Triple (Pending State.Full sent) (routeGet P site c path) (Served site sent) := by
  refine triple_ite (fun hpath => serveStatic_served hpath h) fun _ => ?_
  refine triple_ite (fun _ => json_served (handleState_answers hload)) fun _ => ?_
  refine triple_ite (fun _ => json_served (handleCurriculum_answers hload)) fun _ => ?_
  refine triple_ite (fun _ => json_served (handleLesson_answers hload _)) fun _ => ?_
  refine triple_ite (fun _ => json_served (handleMastery_answers hload)) fun _ => ?_
  refine triple_ite (fun _ => json_served (handleFlow_answers _)) fun _ => ?_
  refine triple_ite (fun _ => json_served (handleInterviewNext_answers hload h0 h1)) fun _ => ?_
  exact notFound_served

/-- On a store with complete records `do_GET` sends exactly one response and leaves the store as it
is, unless the path cannot be parsed or names a file that cannot be resolved, looked up or read. -/
theorem doGet_served_iff (P : Platform F) (h0 : 0 ≤ site.random) (h1 : site.random < 1)
    {s : State F} (hs : s.Full) (stream : Stream) (path : Text) :
    (∃ out w', doGet P site c path ⟨s, stream, sent⟩ = (.ok out, w') ∧ w'.state = s ∧
      Served site sent out w') ↔
    ∃ url, Python.urlparse P.urls path = .ok url ∧ ¬ FileRaises site url.path := by
  have hkept : (doGet P site c path ⟨s, stream, sent⟩).2.state = s := doGet_readOnly path _
  rw [doGet] at hkept ⊢
  cases hurl : Python.urlparse P.urls path with
  | error e =>
    rw [attempt_bind_error rfl]
    refine iff_of_false ?_ (by simp)
    rintro ⟨_, _, ⟨⟩, -⟩
  | ok url =>
    rw [hurl, attempt_bind rfl] at hkept
    rw [attempt_bind rfl]
    constructor
    · rintro ⟨out, w', hrun, -⟩
      refine ⟨url, rfl, fun hraises => ?_⟩
      obtain ⟨e, w'', hstop⟩ := serveStatic_raises hraises ⟨s, stream, sent⟩
      rw [routeGet, if_pos hraises.1, hstop] at hrun
      cases hrun
    · rintro ⟨_, ⟨⟩, hfile⟩
      have hserves : Triple (Pending State.Full sent) (routeGet P site c url.path)
          (Served site sent) := routeGet_served hload h0 h1 hfile
      obtain ⟨out, w', hrun, hserved⟩ := hserves ⟨s, stream, sent⟩ ⟨hs, rfl⟩
      rw [hrun] at hkept
      exact ⟨out, w', hrun, hkept, hserved⟩

end Served

def samplePage : List Nat := ascii "<html></html>"

/-- A root with one page in it. Names of more than 255 bytes cannot be looked up. -/
def sampleSite : Site Text where
  float := fun _ => []
  resolve := fun relative => .ok [ascii "static", relative]
  staticRoot := [ascii "static"]
  isFile := fun path =>
    if path.any (255 < ·.length) then .error .osError
    else .ok (path == [ascii "static", ascii "index.html"])
  readBytes := fun path =>
    if path = [ascii "static", ascii "index.html"] then .ok samplePage else .error .osError
  suffix := fun _ => ascii ".html"
  random := 1 / 2

/-- A path under `static/` of one long name. -/
def longPath : Text := ascii "/static/" ++ List.replicate 256 0x61

/-- The page is served; on the long name nothing is sent. -/
theorem doGet_served_sample :
    (∃ out w', doGet samplePlatform sampleSite sampleCurriculum (ascii "/")
        ⟨.initial, sampleStream, []⟩ = (.ok out, w') ∧ w'.state = .initial ∧
          Served sampleSite [] out w') ∧
      ¬ ∃ out w', doGet samplePlatform sampleSite sampleCurriculum longPath
        ⟨.initial, sampleStream, []⟩ = (.ok out, w') ∧ w'.state = .initial ∧
          Served sampleSite [] out w' := by
  have hserved (path : Text) := @doGet_served_iff _ _ _ sampleSite [] sampleCurriculum_loaded
    samplePlatform (by norm_num [sampleSite]) (by norm_num [sampleSite]) _ initial_full sampleStream
    path
  constructor
  · refine (hserved _).mpr ⟨_, rfl, ?_⟩
    have hpage : staticPath (ascii "/") = some (ascii "index.html") := by decide
    rintro ⟨-, relative, hrelative, ⟨e, ⟨⟩⟩ | ⟨path, e, ⟨⟩, -, hraises⟩⟩
    obtain rfl := Option.some.inj (hpage.symm.trans hrelative)
    obtain hfile | ⟨-, hread⟩ := hraises
    · cases hfile
    · cases hread
  · rw [hserved]
    have hurl : Python.urlparse samplePlatform.urls longPath = .ok ⟨[], [], longPath⟩ := by
      decide +kernel
    have hlong : FileRaises sampleSite longPath :=
      ⟨.inr (List.prefix_append _ _), List.replicate 256 0x61, by decide +kernel,
        .inr ⟨_, .osError, rfl, by decide, .inl (by decide +kernel)⟩⟩
    rintro ⟨url, hparse, hno⟩
    obtain rfl := Except.ok.inj (hurl.symm.trans hparse)
    exact hno hlong

section Drawn

variable {S : Sources F} {c : Curriculum F} {P : Platform F} {site : Site F} {s : State F}
  {weights : List (Text × Rat)}

/-- The question at the position of the draw is sent. -/
theorem doGet_interview (hload : loadCurriculum S = .ok c) (h0 : 0 ≤ site.random)
    (h1 : site.random < 1) (hweights : interviewWeights s
      (c.interview.map fun question => (question.id, question.concepts)) = .ok weights)
    (stream : Stream) (sent : List (Response F)) :
    ∃ question, c.interview[Draw.position (weights.map Prod.snd)
        (site.random * (weights.map Prod.snd).sum)]? = some question ∧
      doGet P site c (ascii "/api/interview") ⟨s, stream, sent⟩ =
        (.ok none, ⟨s, stream, sent ++ [⟨200, .dict [(ascii "id", .str question.id),
          (ascii "question", .str question.question)]⟩]⟩) := by
  have hvalid := loadCurriculum_valid hload
  obtain ⟨question, hget, hchosen⟩ :=
    chooseQuestion_eq (interviewWeights_weighted hweights) hvalid.nonempty h0 h1
  have hquestion := questionAt_eq hvalid.distinct (List.mem_of_getElem? hget)
  have hsent : handleInterviewNext site c ⟨s, stream, sent⟩ =
      (.ok (), ⟨s, stream, sent ++ [⟨200, .dict [(ascii "id", .str question.id),
        (ascii "question", .str question.question)]⟩]⟩) := by
    rw [handleInterviewNext, Prog.bind_of_ok (query_of_ok hweights), attempt_bind hchosen,
      attempt_bind hquestion]
    rfl
  refine ⟨question, hget, ?_⟩
  rw [doGet_plain (by decide), routeGet, if_neg (by decide),
    if_neg (by decide), if_neg (by decide), if_neg (by decide),
    if_neg (by decide), if_neg (by decide), if_pos rfl, json_of_ok hsent]

/-- A question is sent for the numbers of an interval whose length is its share of the weights;
since no weight is below the least one, every question has such numbers. -/
theorem interview_drawn_iff (P : Platform F) (hload : loadCurriculum S = .ok c)
    (h0 : 0 ≤ site.random) (h1 : site.random < 1) (hs : s.Full) (stream : Stream)
    (sent : List (Response F)) :
    ∃ weights, interviewWeights s
        (c.interview.map fun question => (question.id, question.concepts)) = .ok weights ∧
      (∀ weight ∈ weights.map Prod.snd, minInterviewWeight ≤ weight) ∧
      ∀ i question, c.interview[i]? = some question →
        let ws := weights.map Prod.snd
        (doGet P site c (ascii "/api/interview") ⟨s, stream, sent⟩ =
            (.ok none, ⟨s, stream, sent ++ [⟨200, .dict [(ascii "id", .str question.id),
              (ascii "question", .str question.question)]⟩]⟩) ↔
          (ws.take i).sum / ws.sum ≤ site.random ∧
            site.random < (ws.take (i + 1)).sum / ws.sum) := by
  have hvalid := loadCurriculum_valid hload
  have hwithin : (Call.interviewWeights
      (c.interview.map fun question => (question.id, question.concepts))).Within c := by
    intro entry hentry
    obtain ⟨question, hquestion, rfl⟩ := List.mem_map.mp hentry
    exact ⟨List.mem_map_of_mem hquestion, (hvalid.questions question hquestion).concepts⟩
  obtain ⟨weights, hweights⟩ :=
    reads_ok S.floats (loadCurriculum_sound hload) (hs.usable c) hwithin fun _ => rfl
  have hweighted := interviewWeights_weighted hweights
  refine ⟨weights, hweights, hweighted.least, fun i question hi => ?_⟩
  obtain ⟨drawn, hdrawn, hrun⟩ := doGet_interview (P := P) hload h0 h1 hweights stream sent
  have hlt : i < (weights.map Prod.snd).length := by
    rw [hweighted.length_eq]
    exact (List.getElem?_eq_some_iff.mp hi).1
  have hposition := Draw.position_scaled_iff hweighted.nonneg (hweighted.sum_pos hvalid.nonempty)
    h0 h1 i
  rw [and_iff_right hlt] at hposition
  dsimp only
  rw [← hposition, hrun]
  constructor
  · intro heq
    obtain ⟨hid, -⟩ : drawn.id = question.id ∧ drawn.question = question.question := by
      simpa using heq
    refine (List.getElem?_inj ?_ hvalid.distinct).mp ?_
    · rw [List.length_map]
      exact (List.getElem?_eq_some_iff.mp hdrawn).1
    · rw [List.getElem?_map, List.getElem?_map, hdrawn, hi, Option.map_some, Option.map_some, hid]
  · rintro rfl
    rw [hdrawn, Option.some.injEq] at hi
    rw [hi]

/-- The first question was missed, and so it has seven tenths of the weights. -/
def missedState : State Text :=
  (Ledger.empty.recordInterview (fun _ => []) (ascii "q1") false []).state

/-- One half draws the question that was missed, nine tenths draw the other one. -/
theorem interview_drawn_sample :
    ∃ missed fresh : InterviewQuestion, missed.id = ascii "q1" ∧ fresh.id = ascii "q2" ∧
      doGet samplePlatform sampleSite course (ascii "/api/interview")
          ⟨missedState, sampleStream, []⟩ =
        (.ok none, ⟨missedState, sampleStream, [] ++ [⟨200, .dict [(ascii "id", .str missed.id),
          (ascii "question", .str missed.question)]⟩]⟩) ∧
      doGet samplePlatform { sampleSite with random := 9 / 10 } course (ascii "/api/interview")
          ⟨missedState, sampleStream, []⟩ =
        (.ok none, ⟨missedState, sampleStream, [] ++ [⟨200, .dict [(ascii "id", .str fresh.id),
          (ascii "question", .str fresh.question)]⟩]⟩) := by
  have hids : course.interview.map (·.id) = [ascii "q1", ascii "q2"] := by decide
  obtain ⟨missed, fresh, hinterview⟩ : ∃ missed fresh, course.interview = [missed, fresh] :=
    List.length_eq_two.mp (by rw [← List.length_map, hids]; rfl)
  rw [hinterview] at hids
  obtain ⟨hmissed, hfresh⟩ : missed.id = ascii "q1" ∧ fresh.id = ascii "q2" := by simpa using hids
  have hshares : interviewWeights missedState
      (course.interview.map fun question => (question.id, question.concepts)) =
        .ok [(ascii "q1", 7 / 2), (ascii "q2", 3 / 2)] := by
    decide +kernel
  refine ⟨missed, fresh, hmissed, hfresh, ?_, ?_⟩
  · obtain ⟨weights, hweights, -, hdrawn⟩ := @interview_drawn_iff _ _ _ sampleSite _
      samplePlatform course_loaded (by norm_num [sampleSite]) (by norm_num [sampleSite])
      (state_full _ : missedState.Full) sampleStream []
    obtain rfl := Except.ok.inj (hshares.symm.trans hweights)
    refine (hdrawn 0 missed (by rw [hinterview]; rfl)).mpr ?_
    norm_num [sampleSite]
  · obtain ⟨weights, hweights, -, hdrawn⟩ :=
      @interview_drawn_iff _ _ _ { sampleSite with random := 9 / 10 } _ samplePlatform
        course_loaded (by norm_num) (by norm_num) (state_full _ : missedState.Full) sampleStream []
    obtain rfl := Except.ok.inj (hshares.symm.trans hweights)
    refine (hdrawn 1 fresh (by rw [hinterview]; rfl)).mpr ?_
    norm_num

end Drawn

end Handler

end Learning
