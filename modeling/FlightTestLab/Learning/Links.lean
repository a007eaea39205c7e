import FlightTestLab.Learning.Dashboard
import FlightTestLab.Learning.Evidence

/-!
# The links of the page

The paths that the page asks for, with the name of a lesson or of a flow in them, and what the
server makes of them.

## Main definitions

- `Learning.Handler.encodeURIComponent`: the browser's encoding of a name in a path
- `Learning.Handler.fetchPath`: the path that `fetch` asks for

## Main results

- `Learning.Handler.links_reach`: a link reaches what it is for, unless its name is one of dots
- `Learning.Handler.lesson_page_reveals`: the hints on the page of a lesson
-/

namespace Learning

open Hoare (Prog)
open Json (Text ascii)
open Python (Value Error FloatOps isPlain isPlainPath)

variable {F : Type}

namespace Handler

section Encoding

/-- The characters that `encodeURIComponent` keeps. -/
def isUnreserved (c : Nat) : Bool :=
  (0x30 ≤ c && c ≤ 0x39) || (0x41 ≤ c && c ≤ 0x5A) || (0x61 ≤ c && c ≤ 0x7A) ||
    (ascii "-_.!~*'()").contains c

def encodeURIComponent (name : Text) : Text := Python.quote isUnreserved name

theorem isUnreserved_lt {c : Nat} (h : isUnreserved c = true) : c < 0x80 := by
  have hmarks : ∀ d ∈ ascii "-_.!~*'()", d < 0x80 := by decide
  simp only [isUnreserved, Bool.or_eq_true, Bool.and_eq_true, decide_eq_true_eq,
    List.contains_iff_mem] at h
  obtain (((⟨-, hle⟩ | ⟨-, hle⟩) | ⟨-, hle⟩) | hmem) := h
  · omega
  · omega
  · omega
  · exact hmarks c hmem

/-- A character that is kept is neither a percent sign nor a delimiter. -/
theorem isUnreserved_plain {c : Nat} (h : isUnreserved c = true) : c ≠ 0x25 ∧ isPlain c = true := by
  have hall : ∀ d < 0x80, isUnreserved d = true → d ≠ 0x25 ∧ isPlain d = true := by
    decide
  exact hall c (isUnreserved_lt h) h

theorem encodeURIComponent_plain {name : Text} (h : ∀ c ∈ name, Utf8.IsScalar c) :
    ∀ c ∈ encodeURIComponent name, isPlain c = true := by
  have hdigits : ∀ n < 16, isPlain (Python.hexDigit n) = true := by decide
  intro c hc
  obtain hkept | rfl | ⟨n, hn, rfl⟩ := Python.mem_quote h hc
  · exact (isUnreserved_plain hkept).2
  · decide
  · exact hdigits n hn

theorem unquote_encodeURIComponent {name : Text} (h : ∀ c ∈ name, Utf8.IsScalar c) :
    Python.unquote (encodeURIComponent name) = name :=
  Python.unquote_quote (fun _ hc => ⟨isUnreserved_lt hc, (isUnreserved_plain hc).1⟩) h

end Encoding

section Fetch

/-- What the URL parser of `fetch` takes for a segment of one dot. -/
def oneDot : List Text := [ascii ".", ascii "%2e", ascii "%2E"]

/-- What it takes for a segment of two. -/
def twoDots : List Text := oneDot.flatMap fun dot => oneDot.map (dot ++ ·)

/-- The parser on the segments of a path, after those that are done. Two dots take the segment
before with them; dots at the end leave an empty segment. -/
def walkSegments : List Text → List Text → List Text
  | done, [] => done
  | done, segment :: rest =>
    let last := if rest.isEmpty then [[]] else []
    if twoDots.contains segment then walkSegments (done.dropLast ++ last) rest
    else if oneDot.contains segment then walkSegments (done ++ last) rest
    else walkSegments (done ++ [segment]) rest

theorem walkSegments_last (done : List Text) (segment : Text) :
    walkSegments done [segment] =
      if segment ∈ twoDots then done.dropLast ++ [[]]
      else if segment ∈ oneDot then done ++ [[]]
      else done ++ [segment] := by
  simp only [walkSegments, List.contains_iff_mem, List.isEmpty_nil, if_true]

theorem walkSegments_cons {segment : Text} (h : segment ∉ oneDot ∧ segment ∉ twoDots)
    (done rest : List Text) :
    walkSegments done (segment :: rest) = walkSegments (done ++ [segment]) rest := by
  rw [walkSegments, if_neg (List.contains_iff_mem.not.mpr h.2),
    if_neg (List.contains_iff_mem.not.mpr h.1)]

def endsSegment (c : Nat) : Bool := c == 0x2F || c == 0x5C

/-- The path that `fetch` asks for, given one from the root with nothing left to encode. -/
def fetchPath (path : Text) : Text :=
  (walkSegments [] ((path.drop 1).splitOnP endsSegment)).flatMap (0x2F :: ·)

theorem encodeURIComponent_undivided {name : Text} (h : ∀ c ∈ name, Utf8.IsScalar c) :
    ∀ c ∈ encodeURIComponent name, endsSegment c = false := by
  have hkept : ∀ d < 0x80, isUnreserved d = true → endsSegment d = false := by decide
  have hdigits : ∀ n < 16, endsSegment (Python.hexDigit n) = false := by decide
  intro c hc
  obtain hunreserved | rfl | ⟨n, hn, rfl⟩ := Python.mem_quote h hc
  · exact hkept c (isUnreserved_lt hunreserved) hunreserved
  · decide
  · exact hdigits n hn

/-- The encoding of a name is taken for dots when the name is of dots. -/
theorem dots_encodeURIComponent {name : Text} (h : ∀ c ∈ name, Utf8.IsScalar c) :
    (encodeURIComponent name ∈ oneDot ↔ name = ascii ".") ∧
      (encodeURIComponent name ∈ twoDots ↔ name = ascii "..") := by
  have hback := unquote_encodeURIComponent h
  have hone : ∀ segment ∈ oneDot, Python.unquote segment = ascii "." := by decide
  have htwo : ∀ segment ∈ twoDots, Python.unquote segment = ascii ".." := by decide
  refine ⟨⟨fun hmem => hback.symm.trans (hone _ hmem), ?_⟩,
    fun hmem => hback.symm.trans (htwo _ hmem), ?_⟩
  · rintro rfl
    decide
  · rintro rfl
    decide

/-- A link as `fetch` asks for it: one dot ends it early, and two take the kind of page with them. -/
theorem fetchPath_link (kind : Text) {link name : Text} (h : ∀ c ∈ name, Utf8.IsScalar c)
    (hlink : link = ascii "/api/" ++ (kind ++ [0x2F]))
    (hundivided : ∀ c ∈ kind, endsSegment c = false) (hdots : kind ∉ oneDot ∧ kind ∉ twoDots) :
    fetchPath (link ++ encodeURIComponent name) =
      if name = ascii "." then link
      else if name = ascii ".." then ascii "/api/"
      else link ++ encodeURIComponent name := by
  have hpath : (link ++ encodeURIComponent name).drop 1 =
      ascii "api" ++ 0x2F :: (kind ++ 0x2F :: encodeURIComponent name) := by
    have hroot : ascii "/api/" = 0x2F :: (ascii "api" ++ [0x2F]) := by decide
    rw [hlink, hroot]
    simp
  have hapi : ∀ c ∈ ascii "api", endsSegment c = false := by decide
  rw [fetchPath, hpath, List.splitOnP_append_cons_of_forall_mem hapi _ rfl,
    List.splitOnP_append_cons_of_forall_mem hundivided _ rfl,
    List.splitOnP_eq_singleton (encodeURIComponent_undivided h)]
  obtain ⟨hone, htwo⟩ := dots_encodeURIComponent h
  have hroot : ascii "/api/" = 0x2F :: ascii "api" ++ [0x2F] := by decide
  rw [walkSegments_cons (by decide), walkSegments_cons hdots, walkSegments_last]
  simp only [hone, htwo]
  by_cases hname : name = ascii ".."
  · have hdot : name ≠ ascii "." := by
      rw [hname]
      decide
    rw [if_pos hname, if_neg hdot, if_pos hname, hroot]
    simp
  · rw [if_neg hname, if_neg hname, hlink, hroot]
    split_ifs
    · simp
    · simp

end Fetch

section Routes

variable {P : Platform F} {site : Site F} {c : Curriculum F}

/-- A path with one beginning has no other that neither continues it nor is continued by it. -/
theorem not_prefix_append {start base : Text} (h : ¬ (start <+: base ∨ base <+: start))
    (rest : Text) : ¬ start <+: base ++ rest := fun hprefix =>
  h (List.prefix_or_prefix_of_prefix hprefix (List.prefix_append base rest))

theorem append_ne {base path : Text} (h : ¬ base <+: path) (rest : Text) : base ++ rest ≠ path := by
  rintro rfl
  exact h (List.prefix_append base rest)

theorem routeGet_lesson (name : Text) :
    routeGet P site c (ascii "/api/lesson/" ++ name) = json (handleLesson P c name) := by
  have hstatic : ¬ ascii "/static/" <+: ascii "/api/lesson/" ++ name :=
    not_prefix_append (by decide) name
  have hdrop : (ascii "/api/lesson/" ++ name).drop 12 = name := List.drop_left' (by decide)
  rw [routeGet, if_neg (not_or.mpr ⟨append_ne (by decide) name, hstatic⟩),
    if_neg (append_ne (by decide) name), if_neg (append_ne (by decide) name),
    if_pos (List.prefix_append _ _), hdrop]

theorem routeGet_flow (name : Text) :
    routeGet P site c (ascii "/api/flow/" ++ name) = json (handleFlow P c name) := by
  have hnot {start : Text} (h : ¬ (start <+: ascii "/api/flow/" ∨ ascii "/api/flow/" <+: start)) :
      ¬ start <+: ascii "/api/flow/" ++ name := not_prefix_append h name
  have hdrop : (ascii "/api/flow/" ++ name).drop 10 = name := List.drop_left' (by decide)
  rw [routeGet, if_neg (not_or.mpr ⟨append_ne (by decide) name, hnot (by decide)⟩),
    if_neg (append_ne (by decide) name), if_neg (append_ne (by decide) name),
    if_neg (hnot (by decide)), if_neg (append_ne (by decide) name),
    if_pos (List.prefix_append _ _), hdrop]

/-- What a link to a lesson of this name is answered with. -/
def lessonPage (P : Platform F) (c : Curriculum F) (name : Text) : Action F Unit :=
  match Assoc.get? name c.lessons with
  | none => sendErrorJson 404 (ascii "unknown lesson " ++ P.repr (.str (encodeURIComponent name)))
  | some lesson => do
    let shown ← lessonPublic P c lesson
    sendJson shown 200

/-- What a link to a flow of this name is answered with. -/
def flowPage (P : Platform F) (c : Curriculum F) (name : Text) : Action F Unit :=
  match Assoc.get? name c.flows with
  | none => sendErrorJson 404 (ascii "unknown flow " ++ P.repr (.str (encodeURIComponent name)))
  | some flow => sendJson (.dict flow) 200

theorem doGet_lesson {name : Text} (h : ∀ x ∈ name, Utf8.IsScalar x) :
    doGet P site c (ascii "/api/lesson/" ++ encodeURIComponent name) =
      json (lessonPage P c name) := by
  rw [doGet_plain (Python.isPlainPath_append (by decide) (encodeURIComponent_plain h)),
    routeGet_lesson, handleLesson, unquote_encodeURIComponent h]
  rfl

theorem doGet_flow {name : Text} (h : ∀ x ∈ name, Utf8.IsScalar x) :
    doGet P site c (ascii "/api/flow/" ++ encodeURIComponent name) = json (flowPage P c name) := by
  rw [doGet_plain (Python.isPlainPath_append (by decide) (encodeURIComponent_plain h)),
    routeGet_flow, handleFlow, unquote_encodeURIComponent h]
  rfl

/-- What a link of the page is answered with, when its name would be answered with a page. -/
def linked (page : Text → Action F Unit) (name : Text) : Action F (Option File) :=
  if name = ascii "." then json (page [])
  else if name = ascii ".." then notFound
  else json (page name)

/-- A link reaches the lesson, or the flow, that it names: slashes, question marks, percent signs
and all other characters of the name come back from the path as they are. The browser takes the
names `.` and `..` for steps in the path, and they reach the empty name and no page. -/
theorem links_reach (P : Platform F) (site : Site F) (c : Curriculum F) {name : Text}
    (h : ∀ x ∈ name, Utf8.IsScalar x) :
    doGet P site c (fetchPath (ascii "/api/lesson/" ++ encodeURIComponent name)) =
      linked (lessonPage P c) name ∧
    doGet P site c (fetchPath (ascii "/api/flow/" ++ encodeURIComponent name)) =
      linked (flowPage P c) name := by
  have hroot : doGet P site c (ascii "/api/") = notFound := by
    rw [doGet_plain (by decide), routeGet, if_neg (by decide),
      if_neg (by decide), if_neg (by decide), if_neg (by decide),
      if_neg (by decide), if_neg (by decide), if_neg (by decide)]
  have hempty : encodeURIComponent [] = [] := rfl
  constructor
  · rw [fetchPath_link (ascii "lesson") h (by decide) (by decide) (by decide), linked]
    split_ifs
    · have hlesson := @doGet_lesson _ P site c [] (List.forall_mem_nil _)
      rwa [hempty, List.append_nil] at hlesson
    · exact hroot
    · exact doGet_lesson h
  · rw [fetchPath_link (ascii "flow") h (by decide) (by decide) (by decide), linked]
    split_ifs
    · have hflow := @doGet_flow _ P site c [] (List.forall_mem_nil _)
      rwa [hempty, List.append_nil] at hflow
    · exact hroot
    · exact doGet_flow h

/-- A name that has to be encoded, and one of dots. -/
theorem links_reach_sample :
    doGet samplePlatform sampleSite sampleCurriculum
        (fetchPath (ascii "/api/lesson/" ++ encodeURIComponent (ascii "what?/../not"))) =
      json (lessonPage samplePlatform sampleCurriculum (ascii "what?/../not")) ∧
    doGet samplePlatform sampleSite sampleCurriculum
        (fetchPath (ascii "/api/flow/" ++ encodeURIComponent (ascii ".."))) = notFound :=
  ⟨(links_reach samplePlatform sampleSite sampleCurriculum (by decide)).1,
    (links_reach samplePlatform sampleSite sampleCurriculum (by decide)).2⟩

end Routes

section Hints

variable {S : Sources F} {P : Platform F} {site : Site F} {c : Curriculum F} {lesson : Lesson F}

theorem revealedHints_ok (hload : loadCurriculum S = .ok c)
    (hl : Assoc.get? lesson.id c.lessons = some lesson) (n : Nat) :
    ∃ hints, (lesson.hints.take n).mapM revealedHint = .ok hints := by
  refine Except.exists_mapM_eq_ok fun hint hhint => ?_
  obtain ⟨hlevel, htext⟩ := revealedHint_ok
    ((loadCurriculum_valid hload).lessons _ (Assoc.mem_of_get? hl)) (List.mem_of_mem_take hhint)
  rw [revealedHint, hlevel, htext]
  exact ⟨_, rfl⟩

/-- The page of a lesson has the hints that its record counts. -/
theorem lessonPublic_hints (hload : loadCurriculum S = .ok c) {s : State F} (hs : s.Full)
    (hl : Assoc.get? lesson.id c.lessons = some lesson) (stream : Stream)
    (sent : List (Response F)) :
    ∃ hints, (lesson.hints.take (hintsUsedOf (s.lessons.get? lesson.id))).mapM revealedHint =
        .ok hints ∧
      ∃ payload, lessonPublic P c lesson ⟨s, stream, sent⟩ =
        (.ok (.dict payload), ⟨s, stream, sent⟩) ∧
          Value.get (ascii "revealed_hints") payload = .list hints := by
  have hwithin : (Call.lessonCompletion lesson (some c)).Within c :=
    ⟨Assoc.mem_of_get? hl, by simp⟩
  obtain ⟨answer, hanswer⟩ := reads_ok P.floats (loadCurriculum_sound hload) (hs.usable c)
    hwithin fun _ => rfl
  obtain ⟨hints, hhints⟩ := revealedHints_ok hload hl (hintsUsedOf (s.lessons.get? lesson.id))
  refine ⟨hints, hhints, ?_⟩
  rw [lessonPublic, Prog.bind_of_ok (query_of_ok rfl), Prog.bind_of_ok (query_of_ok hanswer)]
  dsimp only
  rw [attempt_bind hhints]
  exact ⟨_, rfl, rfl⟩

theorem hintsUsedOf_state (a : Ledger) (lessonId : Text) :
    hintsUsedOf ((a.state : State F).lessons.get? lessonId) = (a.lesson lessonId).hintsUsed := by
  rw [show (a.state : State F).lessons = a.lessons.map Standing.record from rfl, Dict.get?_map,
    Ledger.lesson]
  cases a.lessons.get? lessonId <;> rfl

/-- After any session the page of a lesson, by its link, reveals a hint when that hint was asked
for or a later one, and shows the text and the level of each. -/
theorem lesson_page_reveals (P : Platform F) (site : Site F) (hload : loadCurriculum S = .ok c)
    (hl : Assoc.get? lesson.id c.lessons = some lesson) (hid : ∀ x ∈ lesson.id, Utf8.IsScalar x)
    (exchanges : List (Exchange F)) (stream : Stream) (sent : List (Response F)) :
    let s := session P c .initial exchanges
    ∃ revealed hints payload,
      doGet P site c (ascii "/api/lesson/" ++ encodeURIComponent lesson.id) ⟨s, stream, sent⟩ =
        (.ok none, ⟨s, stream, sent ++ [⟨200, .dict payload⟩]⟩) ∧
      Value.get (ascii "revealed_hints") payload = .list hints ∧
      (lesson.hints.take revealed).mapM revealedHint = .ok hints ∧
      ∀ n, n < revealed ↔ ∃ index, n ≤ index ∧ .recordHint lesson.id index ∈ calls P c exchanges := by
  obtain ⟨history, a, hsession, hreached, hcalls, -, -⟩ := session_reached (P := P) hload exchanges
  dsimp only
  rw [hsession, ← hcalls]
  obtain ⟨hints, hhints, payload, hrun, hget⟩ :=
    lessonPublic_hints (P := P) hload (state_full a) hl stream sent
  have hpage : lessonPage P c lesson.id ⟨a.state, stream, sent⟩ =
      (.ok (), ⟨a.state, stream, sent ++ [⟨200, .dict payload⟩]⟩) := by
    rw [lessonPage, hl]
    dsimp only
    rw [Prog.bind_of_ok hrun]
    rfl
  refine ⟨_, hints, payload, ?_, hget, hhints, ?_⟩
  · rw [doGet_lesson hid, json_of_ok hpage]
  · intro n
    rw [hintsUsedOf_state]
    exact (counts_of_reached hreached lesson.id).hints n

theorem lesson_page_sample :
    let s := session samplePlatform course .initial courseSession
    ∃ revealed hints payload,
      doGet samplePlatform sampleSite course
          (ascii "/api/lesson/" ++ encodeURIComponent courseZ.id) ⟨s, sampleStream, []⟩ =
        (.ok none, ⟨s, sampleStream, [] ++ [⟨200, .dict payload⟩]⟩) ∧
      Value.get (ascii "revealed_hints") payload = .list hints ∧
      (courseZ.hints.take revealed).mapM revealedHint = .ok hints ∧
      ∀ n, n < revealed ↔ ∃ index, n ≤ index ∧ .recordHint courseZ.id index ∈
        calls samplePlatform course courseSession :=
  lesson_page_reveals samplePlatform sampleSite course_loaded course_own_z
    (by rw [courseZ_id]; decide) courseSession sampleStream []

end Hints

end Handler

end Learning
