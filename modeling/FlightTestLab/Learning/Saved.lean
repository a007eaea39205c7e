import FlightTestLab.Learning.Storage
import FlightTestLab.Python.Indented

/-!
# The saved state of a ledger

What the loader makes of the value that the store saves. Its checks bound every
counter, so a ledger comes back from its file when its counters are within that bound.

## Main definitions

- `Learning.Ledger.Bounded`: no counter is over `MAX_COUNTER`
- `Learning.Ledger.Among`: the strings of a ledger are among those given

## Main results

- `Learning.ofValue_toValue`: the loader takes what the store saves of a bounded ledger
- `Learning.canonical_toValue`: the value saved has no float, and its keys are in order
-/

namespace Learning

open Json (Text ascii)
open Python (Value Error FloatOps)

variable {F : Type}

section Bounds

/-- The counters of a standing satisfy a property. -/
structure Standing.Counts (p : Nat → Prop) (r : Standing) : Prop where
  attempts : p r.attempts
  hintsUsed : p r.hintsUsed
  quizAttempts : p r.quizAttempts
  interviewBaseline : p r.interviewBaseline

structure Tally.Counts (p : Nat → Prop) (t : Tally) : Prop where
  correct : p t.correct
  incorrect : p t.incorrect

structure Answers.Counts (p : Nat → Prop) (entry : Answers) : Prop where
  correct : p entry.correct
  incorrect : p entry.incorrect
  streak : p entry.streak

/-- All counters of a ledger satisfy a property. -/
structure Ledger.Counts (p : Nat → Prop) (a : Ledger) : Prop where
  lessons : ∀ id r, a.lessons.get? id = some r → r.Counts p
  concepts : ∀ concept t, a.concepts.get? concept = some t → t.Counts p
  interview : ∀ id entry, a.interview.get? id = some entry → entry.Counts p

abbrev Standing.Bounded (r : Standing) : Prop := r.Counts (· ≤ maxCounter)

abbrev Tally.Bounded (t : Tally) : Prop := t.Counts (· ≤ maxCounter)

abbrev Answers.Bounded (entry : Answers) : Prop := entry.Counts (· ≤ maxCounter)

/-- No counter is over the bound that the loader checks. -/
abbrev Ledger.Bounded (a : Ledger) : Prop := a.Counts (· ≤ maxCounter)

theorem Ledger.counts_true (a : Ledger) : a.Counts fun _ => True :=
  ⟨fun _ _ _ => ⟨trivial, trivial, trivial, trivial⟩, fun _ _ _ => ⟨trivial, trivial⟩,
    fun _ _ _ => ⟨trivial, trivial, trivial⟩⟩

theorem Ledger.bounded_empty : Ledger.empty.Bounded := by
  refine ⟨?_, ?_, ?_⟩
  · intro id r h
    rw [Ledger.empty, Dict.get?_empty] at h
    cases h
  · intro concept t h
    rw [Ledger.empty, Dict.get?_empty] at h
    cases h
  · intro id entry h
    rw [Ledger.empty, Dict.get?_empty] at h
    cases h

end Bounds

section Fields

variable {key : Text} {items : Items F}

theorem counter?_countValue {n : Nat} (h : n ≤ maxCounter) :
    counter? (countValue n : Value F) = some n := by
  have hrange : (0 : Int) ≤ n ∧ (n : Int) ≤ maxCounter := by omega
  rw [countValue, counter?, if_pos hrange]
  rfl

theorem strings_map (ids : List Text) : strings (ids.map (Value.str (F := F))) = some ids := by
  induction ids with
  | nil => rfl
  | cons id ids ih =>
    rw [List.map_cons, strings, ih]
    rfl

theorem read_count {n : Nat} (h : Assoc.get? key items = some (countValue n))
    (hn : n ≤ maxCounter) : Field.read key counter? items = some (.val n) := by
  rw [Field.read, h]
  show (counter? (countValue n)).map Field.val = _
  rw [counter?_countValue hn]
  rfl

theorem read_ids {ids : List Text} (h : Assoc.get? key items = some (idsValue ids)) :
    Field.read key ids? items = some (.val ids) := by
  rw [Field.read, h]
  show (strings (ids.map .str)).map Field.val = _
  rw [strings_map]
  rfl

theorem read_time {time : Option Text} (h : Assoc.get? key items = some (timeValue time)) :
    Field.read key some items = some (timeField time) := by
  rw [Field.read, h]
  cases time <;> rfl

/-- A mapping is read back when its values are. -/
theorem map?_mapValue {ν μ : Type} {check : Items F → Option μ} {value : ν → Items F}
    {g : ν → μ} {d : Dict Text ν} (h : ∀ k v, d.get? k = some v → check (value v) = some (g v)) :
    map? check (mapValue (fun v => .dict (value v)) d) = some (d.map g) := by
  have hitems (entries : List (Text × ν))
      (h : ∀ entry ∈ entries, check (value entry.2) = some (g entry.2)) :
      readItems check (entries.map fun entry => (entry.1, .dict (value entry.2))) =
        some (entries.map fun entry => (entry.1, g entry.2)) := by
    induction entries with
    | nil => rfl
    | cons entry entries ih =>
      rw [List.forall_mem_cons] at h
      rw [List.map_cons, readItems, h.1, ih h.2]
      rfl
  rw [mapValue, map?, hitems]
  · exact congrArg some (Dict.ofPairs_entries (d.map g))
  · intro entry hentry
    exact h entry.1 entry.2 (Dict.mem_entries_iff.mp hentry)

end Fields

section Records

theorem mapValue_map {ν μ : Type} (value : μ → Value F) (g : ν → μ) (d : Dict Text ν) :
    mapValue value (d.map g) = mapValue (fun v => value (g v)) d := by
  rw [mapValue, mapValue, Dict.map, List.map_map]
  rfl

/-- The items that an outcome is saved as. -/
def outcomeItems (outcome : Bool × Text) : Items F :=
  [(ascii "at", .str outcome.2), (ascii "passed", .bool outcome.1)]

theorem validations_toValue (validations : Dict Text (Bool × Text)) :
    mapValue Outcome.toValue (validations.map outcomeOf) =
      mapValue (F := F) (fun outcome => .dict (outcomeItems outcome)) validations := by
  rw [mapValue_map]
  rfl

theorem ofItems_outcome (outcome : Bool × Text) :
    Outcome.ofItems (outcomeItems outcome : Items F) = some (outcomeOf outcome) := rfl

theorem read_validations {r : Standing} {items : Items F}
    (h : Assoc.get? (ascii "validations") items =
      some (mapValue Outcome.toValue (r.validations.map outcomeOf))) :
    Field.read (ascii "validations") (map? Outcome.ofItems) items =
      some (.val (r.validations.map outcomeOf)) := by
  rw [Field.read, h, validations_toValue]
  show (map? Outcome.ofItems (mapValue _ r.validations)).map Field.val = _
  rw [map?_mapValue fun _ outcome _ => ofItems_outcome outcome]
  rfl

/-- The loader takes the record of a bounded standing. -/
theorem ofItems_standing {r : Standing} (h : r.Bounded) :
    LessonRecord.ofItems (r.items : Items F) = some r.record := by
  have hattempts : Field.read (ascii "attempts") counter? (r.items : Items F) =
      some (.val r.attempts) := read_count rfl h.attempts
  have hhints : Field.read (ascii "hints_used") counter? (r.items : Items F) =
      some (.val r.hintsUsed) := read_count rfl h.hintsUsed
  have hquiz : Field.read (ascii "quiz_attempts") counter? (r.items : Items F) =
      some (.val r.quizAttempts) := read_count rfl h.quizAttempts
  have hbaseline : Field.read (ascii "interview_baseline") counter? (r.items : Items F) =
      some (.val r.interviewBaseline) := read_count rfl h.interviewBaseline
  have hsteps : Field.read (ascii "steps_done") ids? (r.items : Items F) =
      some (.val r.stepsDone) := read_ids rfl
  have hcorrect : Field.read (ascii "quiz_correct") ids? (r.items : Items F) =
      some (.val r.quizCorrect) := read_ids rfl
  have hexplain : Field.read (ascii "explain_done") ids? (r.items : Items F) =
      some (.val r.explainDone) := read_ids rfl
  have hstatus : Field.read (ascii "status") text? (r.items : Items F) = some (.val r.status) :=
    rfl
  have hvalidations : Field.read (ascii "validations") (map? Outcome.ofItems) (r.items : Items F) =
      some (.val (r.validations.map outcomeOf)) := read_validations rfl
  have hstarted : Field.read (ascii "started_at") some (r.items : Items F) =
      some (timeField r.startedAt) := read_time rfl
  have hcompleted : Field.read (ascii "completed_at") some (r.items : Items F) =
      some (timeField r.completedAt) := read_time rfl
  rw [LessonRecord.ofItems, hattempts, hhints, hquiz, hbaseline, hsteps, hcorrect, hexplain,
    hstatus, hvalidations, hstarted, hcompleted]
  rfl

/-- The items that a tally is saved as. -/
def Tally.items (t : Tally) : Items F :=
  [(ascii "correct", countValue t.correct), (ascii "incorrect", countValue t.incorrect),
    (ascii "last_seen", timeValue t.lastSeen)]

def Answers.items (entry : Answers) : Items F :=
  [(ascii "correct", countValue entry.correct), (ascii "incorrect", countValue entry.incorrect),
    (ascii "streak", countValue entry.streak)]

theorem toValue_tally (t : Tally) : (t.entry : ConceptEntry F).toValue = .dict t.items := by
  rw [ConceptEntry.toValue, Tally.entry]
  dsimp only
  rw [items_timeField]
  rfl

theorem ofItems_tally {t : Tally} (h : t.Bounded) :
    ConceptEntry.ofItems (t.items : Items F) = some t.entry := by
  have hcorrect : Field.read (ascii "correct") counter? (t.items : Items F) =
      some (.val t.correct) := read_count rfl h.correct
  have hincorrect : Field.read (ascii "incorrect") counter? (t.items : Items F) =
      some (.val t.incorrect) := read_count rfl h.incorrect
  have hseen : Field.read (ascii "last_seen") some (t.items : Items F) =
      some (timeField t.lastSeen) := read_time rfl
  rw [ConceptEntry.ofItems, hcorrect, hincorrect, hseen]
  rfl

theorem ofItems_answers {entry : Answers} (h : entry.Bounded) :
    InterviewEntry.ofItems (entry.items : Items F) = some entry.entry := by
  have hcorrect : Field.read (ascii "correct") counter? (entry.items : Items F) =
      some (.val entry.correct) := read_count rfl h.correct
  have hincorrect : Field.read (ascii "incorrect") counter? (entry.items : Items F) =
      some (.val entry.incorrect) := read_count rfl h.incorrect
  have hstreak : Field.read (ascii "streak") counter? (entry.items : Items F) =
      some (.val entry.streak) := read_count rfl h.streak
  rw [InterviewEntry.ofItems, hcorrect, hincorrect, hstreak]
  rfl

end Records

section Ledgers

variable (a : Ledger)

theorem lessons_toValue : mapValue LessonRecord.toValue (a.state : State F).lessons =
    mapValue (fun r => .dict r.items) a.lessons := by
  rw [state_lessons, mapValue_map]
  exact congrArg (mapValue · a.lessons) (funext toValue_record)

theorem concepts_toValue : mapValue ConceptEntry.toValue (a.state : State F).concepts =
    mapValue (fun t => .dict t.items) a.concepts := by
  rw [state_concepts, mapValue_map]
  exact congrArg (mapValue · a.concepts) (funext toValue_tally)

theorem interview_toValue : mapValue (F := F) InterviewEntry.toValue (a.state : State F).interview =
    mapValue (fun entry => .dict entry.items) a.interview := by
  rw [state_interview, mapValue_map]
  rfl

/-- The items of the saved value. -/
def Ledger.items : Items F :=
  [(ascii "concepts", mapValue (fun t => .dict t.items) a.concepts),
    (ascii "interview", mapValue (fun entry => .dict entry.items) a.interview),
    (ascii "last_lesson_id", timeValue a.lastLessonId),
    (ascii "lessons", mapValue (fun r => .dict r.items) a.lessons),
    (ascii "version", .int stateVersion)]

theorem toValue_state : (a.state : State F).toValue = .dict a.items := by
  rw [State.toValue, lessons_toValue, concepts_toValue, interview_toValue]
  rfl

variable {a}

/-- The loader takes what the store saves of a bounded ledger, as it was. -/
theorem ofValue_toValue (fl : FloatOps F) (h : a.Bounded) :
    State.ofValue fl (a.state.toValue : Value F) = some a.state := by
  have hlessons : readSection LessonRecord.ofItems (ascii "lessons") (a.items : Items F) =
      some (a.lessons.map Standing.record) :=
    map?_mapValue fun id r hr => ofItems_standing (h.lessons id r hr)
  have hconcepts : readSection ConceptEntry.ofItems (ascii "concepts") (a.items : Items F) =
      some (a.concepts.map Tally.entry) :=
    map?_mapValue fun concept t ht => ofItems_tally (h.concepts concept t ht)
  have hinterview : readSection InterviewEntry.ofItems (ascii "interview") (a.items : Items F) =
      some (a.interview.map Answers.entry) :=
    map?_mapValue fun id entry he => ofItems_answers (h.interview id entry he)
  have hlast : Value.get (ascii "last_lesson_id") (a.items : Items F) = timeValue a.lastLessonId :=
    rfl
  have hversion : (Value.get (ascii "version") (a.items : Items F)).eqInt fl stateVersion = true :=
    rfl
  rw [toValue_state, State.ofValue, if_pos hversion, hlessons, hconcepts, hinterview, hlast]
  cases a with
  | mk lastLessonId lessons concepts interview => cases lastLessonId <;> rfl

end Ledgers

section Texts

variable (texts : Text → Prop)

structure Standing.Among (r : Standing) : Prop where
  status : texts r.status
  stepsDone : ∀ id ∈ r.stepsDone, texts id
  validations : ∀ id outcome, r.validations.get? id = some outcome → texts id ∧ texts outcome.2
  quizCorrect : ∀ id ∈ r.quizCorrect, texts id
  explainDone : ∀ id ∈ r.explainDone, texts id
  startedAt : ∀ time ∈ r.startedAt, texts time
  completedAt : ∀ time ∈ r.completedAt, texts time

/-- Every string of the ledger is among those given. -/
structure Ledger.Among (a : Ledger) : Prop where
  lastLessonId : ∀ id ∈ a.lastLessonId, texts id
  lessons : ∀ id r, a.lessons.get? id = some r → texts id ∧ r.Among texts
  concepts : ∀ concept t, a.concepts.get? concept = some t →
    texts concept ∧ ∀ time ∈ t.lastSeen, texts time
  interview : ∀ id entry, a.interview.get? id = some entry → texts id

/-- The keys of the saved objects. -/
def savedKeys : List Text :=
  ["at", "attempts", "completed_at", "concepts", "correct", "explain_done", "hints_used",
    "incorrect", "interview", "interview_baseline", "last_lesson_id", "last_seen", "lessons",
    "passed", "quiz_attempts", "quiz_correct", "started_at", "status", "steps_done", "streak",
    "validations", "version"].map ascii

variable {texts} {ints : Int → Prop}

theorem canonical_ids {ids : List Text} (h : ∀ id ∈ ids, texts id) :
    (idsValue ids : Value F).Canonical ints texts := by
  rw [idsValue, Value.Canonical, Python.canonicalElements_iff]
  intro v hv
  obtain ⟨id, hid, rfl⟩ := List.mem_map.mp hv
  exact h id hid

theorem canonical_time {time : Option Text} (h : ∀ t ∈ time, texts t) :
    (timeValue time : Value F).Canonical ints texts := by
  cases time with
  | none => exact trivial
  | some t => exact h t rfl

theorem canonical_map {ν : Type} {value : ν → Value F} {d : Dict Text ν}
    (h : ∀ k v, d.get? k = some v → texts k ∧ (value v).Canonical ints texts) :
    (mapValue value d).Canonical ints texts := by
  rw [mapValue, Value.Canonical, Python.canonicalItems_iff]
  constructor
  · intro item hitem
    obtain ⟨⟨k, v⟩, hmem, rfl⟩ := List.mem_map.mp hitem
    exact h k v (Dict.mem_entries_iff.mp hmem)
  · rw [List.map_map]
    exact d.sorted

theorem canonical_items {items : Items F} (names : List String)
    (hnames : items.map Prod.fst = names.map ascii)
    (hsorted : (names.map ascii).Pairwise (· < ·)) (hsaved : names.map ascii ⊆ savedKeys)
    (hkeys : ∀ k ∈ savedKeys, texts k) (h : ∀ item ∈ items, item.2.Canonical ints texts) :
    (Value.dict items).Canonical ints texts := by
  rw [Value.Canonical, Python.canonicalItems_iff, hnames]
  refine ⟨?_, hsorted⟩
  intro item hitem
  have hmem : item.1 ∈ names.map ascii := hnames ▸ List.mem_map_of_mem hitem
  exact ⟨hkeys _ (hsaved hmem), h item hitem⟩

theorem canonical_outcome (hkeys : ∀ k ∈ savedKeys, texts k) {outcome : Bool × Text}
    (h : texts outcome.2) : (Value.dict (outcomeItems outcome) : Value F).Canonical ints texts := by
  apply canonical_items ["at", "passed"] rfl (by decide) (by decide) hkeys
  simp only [outcomeItems, List.forall_mem_cons]
  exact ⟨h, trivial, by simp⟩

variable {p : Nat → Prop}

theorem canonical_standing (hints : ∀ n : Nat, p n → ints n) (hkeys : ∀ k ∈ savedKeys, texts k)
    {r : Standing} (hc : r.Counts p) (h : r.Among texts) :
    (Value.dict r.items : Value F).Canonical ints texts := by
  apply canonical_items ["attempts", "completed_at", "explain_done", "hints_used",
    "interview_baseline", "quiz_attempts", "quiz_correct", "started_at", "status", "steps_done",
    "validations"] rfl (by decide) (by decide) hkeys
  simp only [Standing.items, List.forall_mem_cons]
  refine ⟨hints _ hc.attempts, canonical_time h.completedAt, canonical_ids h.explainDone,
    hints _ hc.hintsUsed, hints _ hc.interviewBaseline, hints _ hc.quizAttempts,
    canonical_ids h.quizCorrect, canonical_time h.startedAt, h.status, canonical_ids h.stepsDone,
    ?_, by simp⟩
  rw [validations_toValue]
  apply canonical_map
  intro id outcome ho
  obtain ⟨hid, htime⟩ := h.validations id outcome ho
  exact ⟨hid, canonical_outcome hkeys htime⟩

theorem canonical_tally (hints : ∀ n : Nat, p n → ints n) (hkeys : ∀ k ∈ savedKeys, texts k)
    {t : Tally} (hc : t.Counts p) (h : ∀ time ∈ t.lastSeen, texts time) :
    (Value.dict t.items : Value F).Canonical ints texts := by
  apply canonical_items ["correct", "incorrect", "last_seen"] rfl (by decide) (by decide) hkeys
  simp only [Tally.items, List.forall_mem_cons]
  exact ⟨hints _ hc.correct, hints _ hc.incorrect, canonical_time h, by simp⟩

theorem canonical_answers (hints : ∀ n : Nat, p n → ints n) (hkeys : ∀ k ∈ savedKeys, texts k)
    {entry : Answers} (hc : entry.Counts p) :
    (Value.dict entry.items : Value F).Canonical ints texts := by
  apply canonical_items ["correct", "incorrect", "streak"] rfl (by decide) (by decide) hkeys
  simp only [Answers.items, List.forall_mem_cons]
  exact ⟨hints _ hc.correct, hints _ hc.incorrect, hints _ hc.streak, by simp⟩

/-- The value saved has no float, and its keys are in order. -/
theorem canonical_toValue (hversion : ints stateVersion) (hints : ∀ n : Nat, p n → ints n)
    (hkeys : ∀ k ∈ savedKeys, texts k) {a : Ledger} (hc : a.Counts p) (h : a.Among texts) :
    (a.state.toValue : Value F).Canonical ints texts := by
  rw [toValue_state]
  apply canonical_items ["concepts", "interview", "last_lesson_id", "lessons", "version"] rfl
    (by decide) (by decide) hkeys
  simp only [Ledger.items, List.forall_mem_cons]
  refine ⟨canonical_map ?_, canonical_map ?_, canonical_time h.lastLessonId, canonical_map ?_,
    hversion, by simp⟩
  · intro concept t ht
    obtain ⟨hconcept, htime⟩ := h.concepts concept t ht
    exact ⟨hconcept, canonical_tally hints hkeys (hc.concepts concept t ht) htime⟩
  · intro id entry he
    exact ⟨h.interview id entry he, canonical_answers hints hkeys (hc.interview id entry he)⟩
  · intro id r hr
    obtain ⟨hid, hamong⟩ := h.lessons id r hr
    exact ⟨hid, canonical_standing hints hkeys (hc.lessons id r hr) hamong⟩

end Texts

section Depth

theorem depth_dict {items : Items F} {n : Nat} (h : ∀ item ∈ items, item.2.depth ≤ n) :
    (Value.dict items).depth ≤ n + 1 := by
  rw [Value.depth, Nat.add_comm]
  exact Nat.succ_le_succ (Value.depthItems_le_iff.mpr h)

theorem depth_map {ν : Type} {value : ν → Value F} {d : Dict Text ν} {n : Nat}
    (h : ∀ v, (value v).depth ≤ n) : (mapValue value d).depth ≤ n + 1 := by
  apply depth_dict
  intro item hitem
  obtain ⟨entry, -, rfl⟩ := List.mem_map.mp hitem
  exact h entry.2

theorem depth_ids (ids : List Text) : (idsValue ids : Value F).depth ≤ 2 := by
  rw [idsValue, Value.depth]
  show 1 + Value.depthElements _ ≤ 1 + 1
  apply Nat.add_le_add_left
  rw [Value.depthElements_le_iff]
  intro v hv
  obtain ⟨id, -, rfl⟩ := List.mem_map.mp hv
  exact Nat.le_refl 1

theorem depth_time (time : Option Text) : (timeValue time : Value F).depth = 1 := by
  cases time <;> rfl

/-- The saved value is nested six deep at most: an outcome of a lesson's record. -/
theorem depth_toValue (a : Ledger) : (a.state.toValue : Value F).depth ≤ 6 := by
  have hone {n : Nat} : (countValue n : Value F).depth = 1 := rfl
  have htext {s : Text} : (Value.str s : Value F).depth = 1 := rfl
  have hversion : (Value.int stateVersion : Value F).depth = 1 := rfl
  have hoff (outcome : Bool × Text) : (Value.dict (outcomeItems outcome) : Value F).depth = 2 := rfl
  have hstanding (r : Standing) : (Value.dict r.items : Value F).depth ≤ 4 := by
    apply depth_dict
    have hids := depth_ids (F := F)
    have hvalidations : (mapValue Outcome.toValue (r.validations.map outcomeOf) : Value F).depth ≤
        3 := by
      rw [validations_toValue]
      exact depth_map fun outcome => (hoff outcome).le
    simp only [Standing.items, List.forall_mem_cons, depth_time, hone, htext]
    refine ⟨by omega, by omega, (hids _).trans (by omega), by omega, by omega, by omega,
      (hids _).trans (by omega), by omega, by omega, (hids _).trans (by omega), hvalidations,
      by simp⟩
  rw [toValue_state]
  apply depth_dict
  simp only [Ledger.items, List.forall_mem_cons, depth_time, hversion]
  refine ⟨?_, ?_, by omega, depth_map hstanding, by omega, by simp⟩
  · refine (depth_map (n := 2) fun t => depth_dict ?_).trans (by omega)
    simp only [Tally.items, List.forall_mem_cons, depth_time, hone]
    exact ⟨by omega, by omega, by omega, by simp⟩
  · refine (depth_map (n := 2) fun entry => depth_dict ?_).trans (by omega)
    simp only [Answers.items, List.forall_mem_cons, hone]
    exact ⟨by omega, by omega, by omega, by simp⟩

end Depth

end Learning
