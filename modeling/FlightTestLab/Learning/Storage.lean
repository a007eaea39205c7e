import FlightTestLab.Learning.Ledger
import FlightTestLab.Library.Utf8

/-!
# The progress file

The value that the store saves, and the loader with its checks. A file that the
checks refuse is backed up and the store starts from the empty state.

## Main definitions

- `Learning.State.toValue`: the value that is saved
- `Learning.State.ofValue`: the state of a loaded value, if the checks accept it
- `Learning.load`: `ProgressStore._load` on the bytes of the file
-/

namespace Learning

open Json (Text ascii)
open Python (Value Error FloatOps)

variable {F : Type}

section Saving

/-- A field of a saved object, when it is there. -/
def Field.items {α : Type} (key : Text) (value : α → Value F) : Field α → Items F
  | .absent => []
  | .null => [(key, .none)]
  | .val a => [(key, value a)]

def countValue (n : Nat) : Value F := .int n

def idsValue (ids : List Text) : Value F := .list (ids.map .str)

/-- A mapping with text keys. -/
def mapValue {ν : Type} (value : ν → Value F) (d : Dict Text ν) : Value F :=
  .dict (d.entries.map fun item => (item.1, value item.2))

def Outcome.toValue (o : Outcome) : Value F :=
  .dict (o.time.items (ascii "at") .str ++ o.passed.items (ascii "passed") .bool)

def LessonRecord.toValue (r : LessonRecord F) : Value F :=
  .dict (r.attempts.items (ascii "attempts") countValue ++
    r.completedAt.items (ascii "completed_at") id ++
    r.explainDone.items (ascii "explain_done") idsValue ++
    r.hintsUsed.items (ascii "hints_used") countValue ++
    r.interviewBaseline.items (ascii "interview_baseline") countValue ++
    r.quizAttempts.items (ascii "quiz_attempts") countValue ++
    r.quizCorrect.items (ascii "quiz_correct") idsValue ++
    r.startedAt.items (ascii "started_at") id ++
    r.status.items (ascii "status") .str ++
    r.stepsDone.items (ascii "steps_done") idsValue ++
    r.validations.items (ascii "validations") (mapValue Outcome.toValue))

def ConceptEntry.toValue (e : ConceptEntry F) : Value F :=
  .dict (e.correct.items (ascii "correct") countValue ++
    e.incorrect.items (ascii "incorrect") countValue ++
    e.lastSeen.items (ascii "last_seen") id)

def InterviewEntry.toValue (e : InterviewEntry) : Value F :=
  .dict (e.correct.items (ascii "correct") countValue ++
    e.incorrect.items (ascii "incorrect") countValue ++
    e.streak.items (ascii "streak") countValue)

/-- `STATE_VERSION` -/
def stateVersion : Int := 1

/-- The value that `_save_locked` writes, with its keys in order. -/
def State.toValue (s : State F) : Value F :=
  .dict [(ascii "concepts", mapValue ConceptEntry.toValue s.concepts),
    (ascii "interview", mapValue InterviewEntry.toValue s.interview),
    (ascii "last_lesson_id", s.lastLessonId.elim .none .str),
    (ascii "lessons", mapValue LessonRecord.toValue s.lessons),
    (ascii "version", .int stateVersion)]

theorem mapValue_eq {ν : Type} (value : ν → Value F) (d : Dict Text ν) :
    mapValue value d = .dict (d.map value).entries := rfl

theorem get_entries_map {ν : Type} (value : ν → Value F) (d : Dict Text ν) (key : Text) :
    Value.get key (d.map value).entries = ((d.get? key).map value).getD .none := by
  have hget : Assoc.get? key (d.map value).entries = (d.map value).get? key := by
    rw [Dict.get?]
    congr
  rw [Value.get, hget, Dict.get?_map]

/-- A time in a saved record. -/
def timeValue (time : Option Text) : Value F := time.elim .none .str

/-- The items that a standing is saved as. -/
def Standing.items (r : Standing) : Items F :=
  [(ascii "attempts", countValue r.attempts),
    (ascii "completed_at", timeValue r.completedAt),
    (ascii "explain_done", idsValue r.explainDone),
    (ascii "hints_used", countValue r.hintsUsed),
    (ascii "interview_baseline", countValue r.interviewBaseline),
    (ascii "quiz_attempts", countValue r.quizAttempts),
    (ascii "quiz_correct", idsValue r.quizCorrect),
    (ascii "started_at", timeValue r.startedAt),
    (ascii "status", .str r.status),
    (ascii "steps_done", idsValue r.stepsDone),
    (ascii "validations", mapValue Outcome.toValue (r.validations.map outcomeOf))]

theorem items_timeField (key : Text) (time : Option Text) :
    (timeField (F := F) time).items key id = [(key, timeValue time)] := by
  cases time <;> rfl

theorem toValue_record (r : Standing) : (r.record : LessonRecord F).toValue = .dict r.items := by
  rw [LessonRecord.toValue, Standing.record]
  dsimp only
  rw [items_timeField, items_timeField]
  rfl

end Saving

section Loading

/-- `MAX_COUNTER` -/
def maxCounter : Nat := 1000000

/-- A counter: an `int` that is no `bool`, and in range. -/
def counter? : Value F → Option Nat
  | .int i => if 0 ≤ i ∧ i ≤ maxCounter then some i.toNat else none
  | _ => none

def text? : Value F → Option Text
  | .str s => some s
  | _ => none

def bool? : Value F → Option Bool
  | .bool b => some b
  | _ => none

/-- A list that holds only strings. -/
def ids? : Value F → Option (List Text)
  | .list vs => strings vs
  | _ => none

/-- `record.get(key)`, checked unless it is missing or null. -/
def Field.read {α : Type} (key : Text) (check : Value F → Option α) (record : Items F) :
    Option (Field α) :=
  match Assoc.get? key record with
  | none => some .absent
  | some .none => some .null
  | some v => (check v).map .val

/-- The items of an object of objects, each read by the same check. -/
def readItems {ν : Type} (check : Items F → Option ν) : Items F → Option (List (Text × ν))
  | [] => some []
  | (key, .dict record) :: items => do
    let v ← check record
    let rest ← readItems check items
    some ((key, v) :: rest)
  | _ => none

/-- An object of objects that the check accepts. -/
def map? {ν : Type} (check : Items F → Option ν) : Value F → Option (Dict Text ν)
  | .dict items => (readItems check items).map .ofPairs
  | _ => none

def Outcome.ofItems (outcome : Items F) : Option Outcome := do
  let passed ← Field.read (ascii "passed") bool? outcome
  let time ← Field.read (ascii "at") text? outcome
  some { passed, time }

/-- `_record_is_valid("lessons", record)`, with the fields it checks. -/
def LessonRecord.ofItems (record : Items F) : Option (LessonRecord F) := do
  let attempts ← Field.read (ascii "attempts") counter? record
  let hintsUsed ← Field.read (ascii "hints_used") counter? record
  let quizAttempts ← Field.read (ascii "quiz_attempts") counter? record
  let interviewBaseline ← Field.read (ascii "interview_baseline") counter? record
  let stepsDone ← Field.read (ascii "steps_done") ids? record
  let quizCorrect ← Field.read (ascii "quiz_correct") ids? record
  let explainDone ← Field.read (ascii "explain_done") ids? record
  let status ← Field.read (ascii "status") text? record
  let validations ← Field.read (ascii "validations") (map? Outcome.ofItems) record
  let startedAt ← Field.read (ascii "started_at") some record
  let completedAt ← Field.read (ascii "completed_at") some record
  some { status, stepsDone, validations, quizCorrect, quizAttempts, explainDone, attempts,
         hintsUsed, interviewBaseline, startedAt, completedAt }

/-- `_record_is_valid("concepts", record)` -/
def ConceptEntry.ofItems (record : Items F) : Option (ConceptEntry F) := do
  let correct ← Field.read (ascii "correct") counter? record
  let incorrect ← Field.read (ascii "incorrect") counter? record
  let lastSeen ← Field.read (ascii "last_seen") some record
  some { correct, incorrect, lastSeen }

/-- `_record_is_valid("interview", record)` -/
def InterviewEntry.ofItems (record : Items F) : Option InterviewEntry := do
  let correct ← Field.read (ascii "correct") counter? record
  let incorrect ← Field.read (ascii "incorrect") counter? record
  let streak ← Field.read (ascii "streak") counter? record
  some { correct, incorrect, streak }

/-- `data.setdefault(key, {})` with the checks of a section. -/
def readSection {ν : Type} (check : Items F → Option ν) (key : Text) (data : Items F) :
    Option (Dict Text ν) :=
  map? check (getD data key (.dict []))

/-- The checks of `_load` on the decoded file. -/
def State.ofValue (fl : FloatOps F) : Value F → Option (State F)
  | .dict data => do
    if (Value.get (ascii "version") data).eqInt fl stateVersion then
      let lessons ← readSection LessonRecord.ofItems (ascii "lessons") data
      let concepts ← readSection ConceptEntry.ofItems (ascii "concepts") data
      let interview ← readSection InterviewEntry.ofItems (ascii "interview") data
      match Value.get (ascii "last_lesson_id") data with
      | .none => some { lastLessonId := none, lessons, concepts, interview }
      | .str id => some { lastLessonId := some id, lessons, concepts, interview }
      | _ => none
    else none
  | _ => none

/-- The universal newlines of `read_text`. -/
def translateNewlines : Text → Text
  | 0x0D :: 0x0A :: rest => 0x0A :: translateNewlines rest
  | 0x0D :: rest => 0x0A :: translateNewlines rest
  | c :: rest => c :: translateNewlines rest
  | [] => []

/-- `json.loads(path.read_text(encoding="utf-8"))` on the bytes of the file. -/
def readJson (decode : Text → Except Error (Value F)) (bytes : List Nat) :
    Except Error (Value F) :=
  match Utf8.decodeStrict bytes with
  | none => .error .valueError
  | some text => decode (translateNewlines text)

/-- `_load`: the state, and whether the file was backed up and reset. There may be no file. -/
def load (fl : FloatOps F) (decode : Text → Except Error (Value F)) :
    Option (List Nat) → State F × Bool
  | none => (.initial, false)
  | some bytes =>
    match readJson decode bytes with
    | .error _ => (.initial, true)
    | .ok v =>
      match State.ofValue fl v with
      | none => (.initial, true)
      | some s => (s, false)

end Loading

end Learning
