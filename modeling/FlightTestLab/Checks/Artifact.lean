import FlightTestLab.Checks.Junit
import FlightTestLab.Learning.Storage
import FlightTestLab.Library.Utf8
import FlightTestLab.Python.Csv
import FlightTestLab.Simulator.Manifest

/-!
# Checks of artifacts

`artifact_check` on a file that a learner wrote: its text against patterns, its rows as
CSV, its fields as JSON, its test cases as JUnit XML. Regular expressions, dates, `git` and
the XML parser are parameters.

## Main definitions

- `Checks.Artifact.run`: the check
- `Checks.Artifact.Satisfies`: the file is what the arguments ask for

## Main results

- `Checks.Artifact.checkScalar_total`, `Checks.Artifact.checkScalar_eq_nil_iff`: one JSON value
  against one rule
-/

namespace Checks.Artifact

open Json (Text ascii)
open Junit (Element)
open Learning (isSpace translateNewlines)
open Python (Value Decoder)
open Python.Csv (Row dictReader)
open Simulator.Faults (rejectDuplicateKeys rejectDuplicateKeys_error)

/-- A rule of `json_fields`: a string, or `{"object": required}`. -/
inductive Rule
  | named (name : Text)
  | fields (required : List (Text × Rule))

structure Args where
  /-- What is not a string is skipped. -/
  contains : List (Option Text)
  csvRow : Option (List (Text × Text))
  csvRowMatches : Option (List (Text × Text))
  jsonFields : Option (List (Text × Rule))
  junitTestcase : Option Text
  junitOutcome : Text := ascii "passed"

/-- What is found under the path of the artifact. -/
inductive File
  | absent
  | directory
  | unreadable (reason : Text)
  | content (bytes : List Nat)

/-- What `ET.parse` makes of a file. -/
inductive Xml
  | root (e : Element)
  /-- `ET.ParseError` -/
  | parseError
  /-- The `LookupError` or `ValueError` for the encoding that the document names. -/
  | encodingError

/-- The exceptions that leave the check. -/
inductive Raised
  | csv (e : Python.Csv.Error)
  | python (e : Python.Error)
  | xmlEncoding
  deriving DecidableEq, Repr

/-- What the check uses of the interpreter and of the machine. -/
structure Interpreter (F : Type) extends Simulator.Interpreter F where
  /-- `repr(value)`; none where it exceeds the recursion limit. -/
  repr : Value F → Option Text
  /-- `re.search(pattern, text) is not None` -/
  search : Text → Text → Bool
  /-- The same with `re.MULTILINE`. -/
  searchMultiline : Text → Text → Bool
  /-- `datetime.fromisoformat`: whether what it returns has a `tzinfo`; none for `ValueError`. -/
  fromisoformat : Text → Option Bool
  commitExists : Text → Bool
  parseXml : List Nat → Xml
  /-- A document has a root element. -/
  parseXml_nil : parseXml [] = .parseError

variable {F : Type}

section Texts

/-- `text.strip()` -/
def strip (s : Text) : Text := (s.dropWhile isSpace).rdropWhile isSpace

/-- `target.read_text(encoding="utf-8", errors="replace")` -/
def readText (bytes : List Nat) : Text := translateNewlines (Utf8.decodeReplace bytes)

/-- `text.replace("Z", "+00:00")` -/
def replaceZ (s : Text) : Text := s.flatMap fun c => if c = 0x5A then ascii "+00:00" else [c]

def isHexDigit (c : Nat) : Bool :=
  (0x30 ≤ c ∧ c ≤ 0x39) ∨ (0x41 ≤ c ∧ c ≤ 0x46) ∨ (0x61 ≤ c ∧ c ≤ 0x66)

/-- `re.fullmatch(r"[0-9a-fA-F]{7,40}", s)` -/
def isCommitId (s : Text) : Bool := 7 ≤ s.length ∧ s.length ≤ 40 ∧ s.all isHexDigit

/-- The order of `sorted` on strings. -/
def textLe (a b : Text) : Prop := ¬ b < a

instance : DecidableRel textLe := fun a b => inferInstanceAs (Decidable (¬ b < a))

end Texts

/-- What the check finds wrong, in the order of its messages. -/
inductive Failure
  | missing
  | directory
  | unreadable (reason : Text)
  | noMatch (pattern : Text)
  | noRow (row : List (Text × Text)) (columns : Text)
  | noMatchingRow (row : List (Text × Text)) (columns : Text)
  | invalidJson
  | notJsonObject
  | missingField (field : Text)
  | notObject (label : Text)
  | placeholders (label description : Text)
  | missingKey (label key : Text)
  | notPort (label description : Text)
  | unusablePort (label description : Text)
  | notInteger (label description : Text)
  | empty (label description : Text)
  | notCommit (label description : Text)
  | unknownCommit (label description : Text)
  | notTimestamp (label description : Text)
  | noTimeOfDay (label description : Text)
  | noOffset (label description : Text)
  | mismatch (label rule description : Text)
  | notXml
  | noTestcase (name : Text)
  | outcome (name : Text) (observed : List Text) (expected : Text)
  deriving DecidableEq, Repr

section Json

variable (I : Interpreter F)

/-- `json.loads(text, object_pairs_hook=reject_duplicate_keys)`; `int` has the limit of digits
that the request decoder asks for. -/
def Interpreter.artifactDecoder : Decoder F where
  floats := I.floats
  overflows := I.overflows
  parseInt := Simulator.parseInt
  objectPairs := rejectDuplicateKeys []

/-- `_describe` -/
def describe (value : Value F) : Except Raised Text :=
  match I.repr value with
  | none => .error (.python .recursionError)
  | some rendered =>
    .ok (if rendered.length ≤ 60 then rendered else rendered.take 57 ++ ascii "...")

/-- `isinstance(v, str) and not v.strip()` -/
def isPlaceholder : Value F → Bool
  | .str s => strip s = []
  | _ => false

def checkPlaceholders (label : Text) (value : Value F) (items : List (Text × Value F)) :
    Except Raised (List Failure) :=
  if items.any fun item => isPlaceholder item.2 then
    (describe I value).map fun description => [.placeholders label description]
  else .ok []

/-- `_check_object`; the loop over the required keys is given. -/
def checkObject (label : Text) (value : Value F)
    (keys : List (Text × Value F) → Except Raised (List Failure)) :
    Except Raised (List Failure) :=
  match value with
  | .dict items =>
    if items.isEmpty then .ok [.notObject label]
    else do
      let placeholders ← checkPlaceholders I label value items
      let failures ← keys items
      .ok (placeholders ++ failures)
  | _ => .ok [.notObject label]

/-- What `_check_scalar` finds wrong under a rule that is a string other than `"object"`; the
failure waits for the description of the value. -/
def scalarFailure (label : Text) (value : Value F) (rule : Text) : Option (Text → Failure) :=
  if rule = ascii "port" then
    match value with
    | .int i => if 1 ≤ i ∧ i ≤ 65535 then none else some (.unusablePort label)
    | _ => some (.notPort label)
  else if rule = ascii "integer" then
    match value with
    | .int _ => none
    | _ => some (.notInteger label)
  else
    match value with
    | .str s =>
      if strip s = [] then some (.empty label)
      else if rule = ascii "commit" then
        if !isCommitId (strip s) then some (.notCommit label)
        else if !I.commitExists (strip s) then some (.unknownCommit label)
        else none
      else if rule = ascii "timestamp" then
        match I.fromisoformat (replaceZ (strip s)) with
        | none => some (.notTimestamp label)
        | some aware =>
          -- Neither a `T` nor a blank: no time of day.
          if 0x54 ∉ replaceZ (strip s) ∧ 0x20 ∉ replaceZ (strip s) then some (.noTimeOfDay label)
          else if !aware then some (.noOffset label)
          else none
      else if rule ≠ ascii "string" ∧ !I.search rule s then some (.mismatch label rule)
      else none
    | _ => some (.empty label)

mutual
/-- `_check_scalar` -/
def checkScalar (label : Text) (value : Value F) : Rule → Except Raised (List Failure)
  | .fields required =>
    checkObject I label value fun items =>
      checkFields (.missingKey label) (fun key => label ++ ascii "." ++ key) items required
  | .named rule =>
    if rule = ascii "object" then checkObject I label value fun _ => .ok []
    else
      match scalarFailure I label value rule with
      | none => .ok []
      | some failure => (describe I value).map fun description => [failure description]
/-- The loops of `_check_object` and of `_check_json_fields`. -/
def checkFields (missing : Text → Failure) (label : Text → Text)
    (items : List (Text × Value F)) : List (Text × Rule) → Except Raised (List Failure)
  | [] => .ok []
  | (key, rule) :: required =>
    (match Assoc.get? key items with
      | none => .ok [missing key]
      | some value => checkScalar (label key) value rule) >>= fun first =>
    (checkFields missing label items required).map fun failures => first ++ failures
end

/-- `_check_json_fields` -/
def checkJsonFields (document : List (Text × Value F)) (spec : List (Text × Rule)) :
    Except Raised (List Failure) :=
  checkFields I .missingField id document spec

end Json

section Run

variable (I : Interpreter F) (args : Args)

/-- `read_artifact` -/
def readArtifact : File → Text × List Failure
  | .absent => ([], [.missing])
  | .directory => ([], [.directory])
  | .unreadable reason => ([], [.unreadable reason])
  | .content bytes => (readText bytes, [])

def checkContains (text : Text) : List Failure :=
  args.contains.filterMap fun pattern? => do
    let pattern ← pattern?
    if I.searchMultiline pattern text then none else some (.noMatch pattern)

/-- `row.get(column, "")`; the inner `none` is `None`. -/
def cell (row : Row) (column : Text) : Option Text :=
  (Assoc.get? column row.cells).getD (some [])

/-- The keys of a row; the key of surplus fields is `None`. -/
def rowKeys (row : Row) : List (Option Text) :=
  row.cells.map (fun item => some item.1) ++ if row.surplus.isSome then [none] else []

/-- `", ".join(sorted({key for row in rows for key in row}))`, or `'none'`. `None` has no order
with a string, and is not one. -/
def columnsPresent (rows : List Row) : Except Raised Text :=
  let keys := (rows.flatMap rowKeys).dedup
  if none ∈ keys then .error (.python .typeError)
  else
    let columns := (ascii ", ").intercalate (keys.reduceOption.insertionSort textLe)
    .ok (if columns = [] then ascii "none" else columns)

/-- The blocks of `run` for `csv_row` and for `csv_row_matches`. -/
def checkRows (agrees : Option Text → Text → Bool) (failure : List (Text × Text) → Text → Failure)
    (wanted? : Option (List (Text × Text))) (text : Text) : Except Raised (List Failure) :=
  match wanted? with
  | none => .ok []
  | some wanted =>
    if text = [] then .ok []
    else
      match dictReader text with
      | .error e => .error (.csv e)
      | .ok rows =>
        if rows.any fun row => wanted.all fun entry => agrees (cell row entry.1) entry.2 then .ok []
        else
          match columnsPresent rows with
          | .error e => .error e
          | .ok columns => .ok [failure wanted columns]

/-- `str(row.get(column, "")).strip() == str(value)` -/
def cellEquals (cell : Option Text) (value : Text) : Bool :=
  strip (cell.getD (ascii "None")) = value

/-- `re.search(str(pattern), str(row.get(column, "") or "").strip())` -/
def cellMatches (cell : Option Text) (pattern : Text) : Bool :=
  I.search pattern (strip (cell.getD []))

def checkCsvRow (text : Text) : Except Raised (List Failure) :=
  checkRows cellEquals .noRow args.csvRow text

def checkCsvRowMatches (text : Text) : Except Raised (List Failure) :=
  checkRows (cellMatches I) .noMatchingRow args.csvRowMatches text

def checkJson (text : Text) : Except Raised (List Failure) :=
  match args.jsonFields with
  | none => .ok []
  | some spec =>
    if text = [] then .ok []
    else
      match Python.loads I.artifactDecoder text with
      | .error .valueError | .error .recursionError => .ok [.invalidJson]
      | .error e => .error (.python e)
      | .ok (.dict document) => checkJsonFields I document spec
      | .ok _ => .ok [.notJsonObject]

/-- `junit_testcase in (testcase.get("name") or "")` -/
def nameContains (name : Text) (testcase : Element) : Bool :=
  name <:+: (testcase.get (ascii "name")).getD []

/-- `_junit_outcome` of one test case. -/
def junitOutcome (testcase : Element) : Text :=
  if testcase.has (ascii "failure") then ascii "failed"
  else if testcase.has (ascii "error") then ascii "error"
  else if testcase.has (ascii "skipped") then ascii "skipped"
  else ascii "passed"

def checkJunit (bytes : List Nat) (text : Text) : Except Raised (List Failure) :=
  match args.junitTestcase with
  | none => .ok []
  | some name =>
    if text = [] then .ok []
    else
      match I.parseXml bytes with
      | .parseError => .ok [.notXml]
      | .encodingError => .error .xmlEncoding
      | .root root =>
        let cases := (root.iter (ascii "testcase")).filter (nameContains name)
        if cases.isEmpty then .ok [.noTestcase name]
        else
          let observed := (cases.map junitOutcome).dedup
          if args.junitOutcome ≠ ascii "any" ∧ !observed.contains args.junitOutcome then
            .ok [.outcome name (observed.insertionSort textLe) args.junitOutcome]
          else .ok []

structure CheckResult where
  passed : Bool
  exitStatus : Int
  stdout : Text
  /-- What `interpretation` lists. -/
  failures : List Failure
  deriving DecidableEq, Repr

def File.bytes : File → List Nat
  | .content bytes => bytes
  | _ => []

/-- `run`, on the file that the arguments name. -/
def run (file : File) : Except Raised CheckResult := do
  let (text, error) := readArtifact file
  let csvRow ← checkCsvRow args text
  let csvRowMatches ← checkCsvRowMatches I args text
  let json ← checkJson I args text
  let junit ← checkJunit I args file.bytes text
  let failures := error ++ checkContains I args text ++ csvRow ++ csvRowMatches ++ json ++ junit
  let passed := failures.isEmpty
  .ok ⟨passed, if passed then 0 else 1, text.take 1000, failures⟩

end Run

section Meaning

variable (I : Interpreter F)

/-- ISO 8601 with a time of day and an offset. -/
def IsInstant (s : Text) : Prop :=
  I.fromisoformat (replaceZ s) = some true ∧ (0x54 ∈ replaceZ s ∨ 0x20 ∈ replaceZ s)

/-- A value is what a rule that is a string other than `"object"` asks for. -/
structure MeetsNamed (rule : Text) (value : Value F) : Prop where
  port : rule = ascii "port" → ∃ i, value = .int i ∧ 1 ≤ i ∧ i ≤ 65535
  integer : rule = ascii "integer" → ∃ i, value = .int i
  text : rule ≠ ascii "port" → rule ≠ ascii "integer" →
    ∃ s, value = .str s ∧ strip s ≠ [] ∧
      (rule = ascii "commit" → isCommitId (strip s) = true ∧ I.commitExists (strip s) = true) ∧
      (rule = ascii "timestamp" → IsInstant I (strip s)) ∧
      (rule ∉ [ascii "commit", ascii "timestamp", ascii "string"] → I.search rule s = true)

/-- An object with something in it, and no blank strings. -/
def Filled (items : List (Text × Value F)) : Prop :=
  items ≠ [] ∧ ∀ item ∈ items, isPlaceholder item.2 = false

mutual
/-- A value is what a rule asks for. -/
def Meets : Rule → Value F → Prop
  | .fields required, value =>
    ∃ items, value = .dict items ∧ Filled items ∧ MeetsFields required items
  | .named rule, value =>
    if rule = ascii "object" then ∃ items, value = .dict items ∧ Filled items
    else MeetsNamed I rule value
/-- Every key that is asked for is there, with a value that meets its rule. -/
def MeetsFields : List (Text × Rule) → List (Text × Value F) → Prop
  | [], _ => True
  | (key, rule) :: required, items =>
    (∃ value, Assoc.get? key items = some value ∧ Meets rule value) ∧ MeetsFields required items
end

/-- The values that a check of a value against a rule describes. -/
inductive Described : Rule → Value F → Value F → Prop
  | named {rule : Text} {value : Value F} (hrule : rule ≠ ascii "object")
      (h : ¬ MeetsNamed I rule value) : Described (.named rule) value value
  | object {items : List (Text × Value F)} (h : ∃ item ∈ items, isPlaceholder item.2 = true) :
      Described (.named (ascii "object")) (.dict items) (.dict items)
  | fields {required : List (Text × Rule)} {items : List (Text × Value F)}
      (h : ∃ item ∈ items, isPlaceholder item.2 = true) :
      Described (.fields required) (.dict items) (.dict items)
  | key {required : List (Text × Rule)} {items : List (Text × Value F)} {key : Text} {rule : Rule}
      {value described : Value F} (hrequired : (key, rule) ∈ required)
      (hvalue : Assoc.get? key items = some value) (h : Described rule value described) :
      Described (.fields required) (.dict items) described

/-- `repr` renders a value within the recursion limit. -/
def Renders (value : Value F) : Prop := ∃ rendered, I.repr value = some rendered

theorem scalarFailure_eq_none_iff (label rule : Text) (value : Value F) :
    scalarFailure I label value rule = none ↔ MeetsNamed I rule value := by
  by_cases hport : rule = ascii "port"
  · subst hport
    have hmeets : MeetsNamed I (ascii "port") value ↔ ∃ i, value = .int i ∧ 1 ≤ i ∧ i ≤ 65535 :=
      ⟨fun h => h.port rfl,
        fun h => ⟨fun _ => h, fun he => absurd he (by decide), fun hne => absurd rfl hne⟩⟩
    rw [hmeets]
    unfold scalarFailure
    rw [if_pos rfl]
    cases value <;> simp
  by_cases hinteger : rule = ascii "integer"
  · subst hinteger
    have hmeets : MeetsNamed I (ascii "integer") value ↔ ∃ i, value = .int i :=
      ⟨fun h => h.integer rfl,
        fun h => ⟨fun he => absurd he hport, fun _ => h, fun _ hne => absurd rfl hne⟩⟩
    rw [hmeets]
    unfold scalarFailure
    rw [if_neg hport, if_pos rfl]
    cases value <;> simp
  -- every other rule is about a string that is not blank
  have hmeets : MeetsNamed I rule value ↔ ∃ s, value = .str s ∧ strip s ≠ [] ∧
      (rule = ascii "commit" → isCommitId (strip s) = true ∧ I.commitExists (strip s) = true) ∧
      (rule = ascii "timestamp" → IsInstant I (strip s)) ∧
      (rule ∉ [ascii "commit", ascii "timestamp", ascii "string"] → I.search rule s = true) :=
    ⟨fun h => h.text hport hinteger,
      fun h => ⟨fun he => absurd he hport, fun he => absurd he hinteger, fun _ _ => h⟩⟩
  rw [hmeets]
  unfold scalarFailure
  rw [if_neg hport, if_neg hinteger]
  cases value with
  | str s =>
    simp only [Value.str.injEq, exists_eq_left']
    by_cases hblank : strip s = []
    · simp [hblank]
    rw [if_neg hblank]
    by_cases hcommit : rule = ascii "commit"
    · subst hcommit
      have hne : ascii "commit" ≠ ascii "timestamp" := by decide
      rw [if_pos rfl]
      cases isCommitId (strip s) <;> cases I.commitExists (strip s) <;> simp [hblank, hne]
    rw [if_neg hcommit]
    by_cases htimestamp : rule = ascii "timestamp"
    · subst htimestamp
      rw [if_pos rfl, IsInstant]
      cases I.fromisoformat (replaceZ (strip s)) with
      | none => simp
      | some aware =>
        dsimp only
        -- a date alone is refused, whatever its offset
        by_cases htime : 0x54 ∉ replaceZ (strip s) ∧ 0x20 ∉ replaceZ (strip s)
        · simp [htime]
        · rw [if_neg htime]
          rw [not_and_or, not_not, not_not] at htime
          cases aware <;> simp [hblank, htime, hcommit]
    rw [if_neg htimestamp]
    by_cases hstring : rule = ascii "string"
    · subst hstring
      simp [hblank, hcommit, htimestamp]
    · cases I.search rule s <;> simp [hstring, hblank, hcommit, htimestamp]
  | none | bool _ | int _ | float _ | list _ | dict _ => simp

end Meaning

section Json

variable {I : Interpreter F}

theorem describe_total {value : Value F} :
    (∃ description, describe I value = .ok description) ↔ Renders I value := by
  unfold describe Renders
  cases I.repr value with
  | none => simp
  | some rendered => simp

theorem checkPlaceholders_total (label : Text) {value : Value F}
    {items : List (Text × Value F)} :
    (∃ failures, checkPlaceholders I label value items = .ok failures) ↔
      ((∃ item ∈ items, isPlaceholder item.2 = true) → Renders I value) := by
  unfold checkPlaceholders
  by_cases hblank : ∃ item ∈ items, isPlaceholder item.2 = true
  · rw [if_pos (List.any_eq_true.mpr hblank), ← describe_total]
    constructor
    · rintro ⟨failures, h⟩ -
      obtain ⟨description, hdescription, -⟩ := Except.map_eq_ok.mp h
      exact ⟨description, hdescription⟩
    · intro h
      obtain ⟨description, hdescription⟩ := h hblank
      exact ⟨_, Except.map_eq_ok.mpr ⟨description, hdescription, rfl⟩⟩
  · rw [if_neg fun h => hblank (List.any_eq_true.mp h)]
    exact ⟨fun _ h => absurd h hblank, fun _ => ⟨[], rfl⟩⟩

theorem checkPlaceholders_nil {label : Text} {value : Value F} {items : List (Text × Value F)}
    {failures : List Failure} (h : checkPlaceholders I label value items = .ok failures) :
    failures = [] ↔ ∀ item ∈ items, isPlaceholder item.2 = false := by
  unfold checkPlaceholders at h
  by_cases hblank : ∃ item ∈ items, isPlaceholder item.2 = true
  · rw [if_pos (List.any_eq_true.mpr hblank)] at h
    obtain ⟨description, -, rfl⟩ := Except.map_eq_ok.mp h
    obtain ⟨item, hitem, hblank⟩ := hblank
    simp only [List.cons_ne_self, false_iff]
    intro hfilled
    rw [hfilled item hitem] at hblank
    cases hblank
  · rw [if_neg fun h => hblank (List.any_eq_true.mp h)] at h
    cases h
    simp only [true_iff]
    exact fun item hitem => Bool.eq_false_iff.mpr fun h => hblank ⟨item, hitem, h⟩

theorem checkObject_total {label : Text} {value : Value F}
    {keys : List (Text × Value F) → Except Raised (List Failure)} :
    (∃ failures, checkObject I label value keys = .ok failures) ↔
      ∀ items, value = .dict items → items ≠ [] →
        ((∃ item ∈ items, isPlaceholder item.2 = true) → Renders I value) ∧
          ∃ failures, keys items = .ok failures := by
  unfold checkObject
  cases value with
  | dict items =>
    simp only [Value.dict.injEq, forall_eq']
    by_cases hitems : items = []
    · simp [hitems]
    rw [if_neg (by simpa using hitems), ← checkPlaceholders_total label]
    constructor
    · rintro ⟨failures, h⟩ -
      obtain ⟨placeholders, hplaceholders, h⟩ := Except.bind_eq_ok.mp h
      obtain ⟨found, hkeys, -⟩ := Except.bind_eq_ok.mp h
      exact ⟨⟨placeholders, hplaceholders⟩, found, hkeys⟩
    · intro h
      obtain ⟨⟨placeholders, hplaceholders⟩, found, hkeys⟩ := h hitems
      rw [hplaceholders, Except.ok_bind, hkeys]
      exact ⟨_, rfl⟩
  | none | bool _ | int _ | float _ | str _ | list _ => simp

theorem checkObject_nil {label : Text} {value : Value F} {failures : List Failure}
    {keys : List (Text × Value F) → Except Raised (List Failure)}
    (h : checkObject I label value keys = .ok failures) :
    failures = [] ↔ ∃ items, value = .dict items ∧ Filled items ∧ keys items = .ok [] := by
  unfold checkObject at h
  cases value with
  | dict items =>
    simp only [Value.dict.injEq, exists_eq_left']
    by_cases hitems : items = []
    · subst hitems
      cases h
      simp [Filled]
    dsimp only at h
    rw [if_neg (by simpa using hitems)] at h
    obtain ⟨placeholders, hplaceholders, h⟩ := Except.bind_eq_ok.mp h
    obtain ⟨found, hkeys, h⟩ := Except.bind_eq_ok.mp h
    cases h
    rw [List.append_eq_nil_iff, checkPlaceholders_nil hplaceholders, hkeys, Except.ok.injEq, Filled,
      and_iff_right hitems]
  | none | bool _ | int _ | float _ | str _ | list _ =>
    cases h
    simp

mutual
/-- One value against one rule raises only where a description does. -/
theorem checkScalar_total : ∀ (rule : Rule) (label : Text) (value : Value F),
    (∃ failures, checkScalar I label value rule = .ok failures) ↔
      ∀ described, Described I rule value described → Renders I described
  | .fields required, label, value => by
    rw [checkScalar, checkObject_total]
    constructor
    · rintro h described hdescribed
      cases hdescribed with
      | @fields _ items hblank =>
        have hne : items ≠ [] := by
          rintro rfl
          simp at hblank
        exact (h items rfl hne).1 hblank
      -- what is described below a key was described when the key was checked
      | @key _ items key rule v _ hrequired hv hdescribed =>
        have hne : items ≠ [] := by
          rintro rfl
          cases hv
        exact (checkFields_total required _ _ items).mp (h items rfl hne).2 key rule hrequired v hv
          described hdescribed
    · rintro h items rfl hne
      refine ⟨fun hblank => h _ (.fields hblank), ?_⟩
      exact (checkFields_total required _ _ items).mpr fun key rule hrequired v hv described hd =>
        h described (.key hrequired hv hd)
  | .named rule, label, value => by
    rw [checkScalar]
    by_cases hrule : rule = ascii "object"
    · subst hrule
      rw [if_pos rfl, checkObject_total]
      constructor
      · rintro h described hdescribed
        cases hdescribed with
        | named hne => exact absurd rfl hne
        | @object items hblank =>
          have hne : items ≠ [] := by
            rintro rfl
            simp at hblank
          exact (h items rfl hne).1 hblank
      -- the rule for any object asks for no keys
      · rintro h items rfl -
        exact ⟨fun hblank => h _ (.object hblank), [], rfl⟩
    · rw [if_neg hrule]
      have hnone := scalarFailure_eq_none_iff I label rule value
      cases hfailure : scalarFailure I label value rule with
      | none =>
        have hmeets := hnone.mp hfailure
        refine ⟨fun _ described hdescribed => ?_, fun _ => ⟨[], rfl⟩⟩
        cases hdescribed with
        | named _ hno => exact absurd hmeets hno
        | object _ => exact absurd rfl hrule
      | some failure =>
        have hmeets : ¬ MeetsNamed I rule value := fun h => by
          rw [hnone.mpr h] at hfailure
          cases hfailure
        constructor
        · rintro ⟨failures, h⟩ described hdescribed
          obtain ⟨description, hdescription, -⟩ := Except.map_eq_ok.mp h
          cases hdescribed with
          | named _ _ => exact describe_total.mp ⟨description, hdescription⟩
          | object _ => exact absurd rfl hrule
        · intro h
          obtain ⟨description, hdescription⟩ := describe_total.mpr (h value (.named hrule hmeets))
          exact ⟨_, Except.map_eq_ok.mpr ⟨description, hdescription, rfl⟩⟩
theorem checkFields_total : ∀ (required : List (Text × Rule)) (missing : Text → Failure)
    (label : Text → Text) (items : List (Text × Value F)),
    (∃ failures, checkFields I missing label items required = .ok failures) ↔
      ∀ key rule, (key, rule) ∈ required → ∀ value, Assoc.get? key items = some value →
        ∀ described, Described I rule value described → Renders I described
  | [], missing, label, items => by simp [checkFields]
  | (key, rule) :: required, missing, label, items => by
    have hrest := checkFields_total required missing label items
    have hfirst : (∃ first, (match Assoc.get? key items with
        | none => .ok [missing key]
        | some value => checkScalar I (label key) value rule) = Except.ok first) ↔
        ∀ value, Assoc.get? key items = some value →
          ∀ described, Described I rule value described → Renders I described := by
      cases hget : Assoc.get? key items with
      | none => simp
      | some value =>
        simp only [Option.some.injEq, forall_eq']
        exact checkScalar_total rule (label key) value
    rw [checkFields]
    constructor
    · rintro ⟨failures, h⟩ key' rule' hrequired
      obtain ⟨first, hf, h⟩ := Except.bind_eq_ok.mp h
      obtain ⟨found, hr, -⟩ := Except.map_eq_ok.mp h
      obtain heq | hrequired := List.mem_cons.mp hrequired
      · cases heq
        exact hfirst.mp ⟨first, hf⟩
      · exact hrest.mp ⟨found, hr⟩ key' rule' hrequired
    · intro h
      obtain ⟨first, hf⟩ := hfirst.mpr (h key rule List.mem_cons_self)
      obtain ⟨found, hr⟩ := hrest.mpr fun key' rule' hrequired =>
        h key' rule' (List.mem_cons_of_mem _ hrequired)
      rw [hf, Except.ok_bind, hr]
      exact ⟨_, rfl⟩
end

mutual
/-- One value against one rule: nothing is wrong when the value is what the rule asks for. -/
theorem checkScalar_nil : ∀ {rule : Rule} {label : Text} {value : Value F}
    {failures : List Failure}, checkScalar I label value rule = .ok failures →
      (failures = [] ↔ Meets I rule value)
  | .fields required, label, value, failures, h => by
    rw [checkScalar] at h
    rw [checkObject_nil h, Meets]
    refine exists_congr fun items => and_congr_right fun hvalue => and_congr_right fun hfilled => ?_
    have htotal : ∃ failures, checkFields I (.missingKey label)
        (fun key => label ++ ascii "." ++ key) items required = .ok failures :=
      (checkObject_total.mp ⟨failures, h⟩ items hvalue hfilled.1).2
    obtain ⟨found, hfound⟩ := htotal
    rw [hfound, Except.ok.injEq]
    exact checkFields_nil hfound
  | .named rule, label, value, failures, h => by
    rw [checkScalar] at h
    rw [Meets]
    by_cases hrule : rule = ascii "object"
    · rw [if_pos hrule] at h ⊢
      simpa using checkObject_nil h
    · rw [if_neg hrule] at h ⊢
      rw [← scalarFailure_eq_none_iff I label]
      cases hfailure : scalarFailure I label value rule with
      | none =>
        rw [hfailure] at h
        cases h
        simp
      | some failure =>
        rw [hfailure] at h
        obtain ⟨description, -, rfl⟩ := Except.map_eq_ok.mp h
        simp
theorem checkFields_nil : ∀ {required : List (Text × Rule)} {missing : Text → Failure}
    {label : Text → Text} {items : List (Text × Value F)} {failures : List Failure},
    checkFields I missing label items required = .ok failures →
      (failures = [] ↔ MeetsFields I required items)
  | [], missing, label, items, failures, h => by
    cases h
    simp [MeetsFields]
  | (key, rule) :: required, missing, label, items, failures, h => by
    rw [checkFields] at h
    obtain ⟨first, hfirst, h⟩ := Except.bind_eq_ok.mp h
    obtain ⟨found, hfound, rfl⟩ := Except.map_eq_ok.mp h
    rw [List.append_eq_nil_iff, MeetsFields, checkFields_nil hfound]
    refine and_congr_left fun _ => ?_
    cases hget : Assoc.get? key items with
    | none =>
      rw [hget] at hfirst
      cases hfirst
      simp
    | some value =>
      rw [hget] at hfirst
      simp only [Option.some.injEq, exists_eq_left']
      exact checkScalar_nil hfirst
end

end Json

section Stages

variable (I : Interpreter F) (args : Args)

def Contains (text : Text) : Prop :=
  ∀ pattern, some pattern ∈ args.contains → I.searchMultiline pattern text = true

/-- Some row agrees in every column that is asked for. -/
def RowFound (agrees : Option Text → Text → Bool) (text : Text) (wanted : List (Text × Text)) :
    Prop :=
  ∃ rows, dictReader text = .ok rows ∧
    ∃ row ∈ rows, ∀ entry ∈ wanted, agrees (cell row entry.1) entry.2 = true

/-- No row has more fields than the header. -/
def NoSurplus (text : Text) : Prop :=
  ∀ rows, dictReader text = .ok rows → ∀ row ∈ rows, row.surplus = none

def FieldsMet (text : Text) (spec : List (Text × Rule)) : Prop :=
  ∃ document, Python.loads I.artifactDecoder text = .ok (.dict document) ∧
    MeetsFields I spec document

/-- What the check of the fields describes, `repr` renders. -/
def FieldsRender (text : Text) (spec : List (Text × Rule)) : Prop :=
  ∀ document, Python.loads I.artifactDecoder text = .ok (.dict document) →
    ∀ field rule, (field, rule) ∈ spec → ∀ value, Assoc.get? field document = some value →
      ∀ described, Described I rule value described → Renders I described

/-- A test case of that name has the expected outcome. -/
def CaseFound (bytes : List Nat) (name : Text) : Prop :=
  ∃ root, I.parseXml bytes = .root root ∧
    ∃ testcase ∈ root.iter (ascii "testcase"), nameContains name testcase = true ∧
      (args.junitOutcome = ascii "any" ∨ junitOutcome testcase = args.junitOutcome)

variable {I args}

theorem translateNewlines_not_mem (s : Text) : 0x0D ∉ translateNewlines s := by
  fun_induction translateNewlines s with
  | case1 rest ih => simpa using ih
  | case2 rest _ ih => simpa using ih
  | case3 c rest _ hc ih =>
    rw [List.mem_cons, not_or]
    exact ⟨fun h => hc h.symm, ih⟩
  | case4 => exact List.not_mem_nil

theorem readText_not_mem (bytes : List Nat) : 0x0D ∉ readText bytes :=
  translateNewlines_not_mem _

theorem translateNewlines_eq_nil_iff {s : Text} : translateNewlines s = [] ↔ s = [] := by
  fun_cases translateNewlines s <;> simp

theorem readText_eq_nil_iff {bytes : List Nat} : readText bytes = [] ↔ bytes = [] := by
  rw [readText, translateNewlines_eq_nil_iff]
  cases bytes with
  | nil => exact iff_of_true rfl rfl
  | cons b bytes => simp [Utf8.decodeReplace_cons]

theorem checkContains_eq_nil_iff {text : Text} :
    checkContains I args text = [] ↔ Contains I args text := by
  rw [checkContains, List.filterMap_eq_nil_iff, Contains]
  constructor
  · intro h pattern hpattern
    have hnone := h (some pattern) hpattern
    by_contra hno
    simp [hno] at hnone
  · intro h pattern? hpattern
    cases pattern? with
    | none => rfl
    | some pattern => simp [h pattern hpattern]

theorem columnsPresent_total {rows : List Row} :
    (∃ columns, columnsPresent rows = .ok columns) ↔ ∀ row ∈ rows, row.surplus = none := by
  have hkeys : none ∈ (rows.flatMap rowKeys).dedup ↔ ∃ row ∈ rows, row.surplus ≠ none := by
    rw [List.mem_dedup, List.mem_flatMap]
    refine exists_congr fun row => and_congr_right fun _ => ?_
    cases hsurplus : row.surplus <;> simp [rowKeys, hsurplus]
  unfold columnsPresent
  by_cases hnone : none ∈ (rows.flatMap rowKeys).dedup
  · obtain ⟨row, hrow, hsurplus⟩ := hkeys.mp hnone
    rw [if_pos hnone]
    simp only [reduceCtorEq, exists_false, false_iff]
    exact fun h => hsurplus (h row hrow)
  · rw [if_neg hnone]
    simp only [Except.ok.injEq, exists_eq', true_iff]
    intro row hrow
    by_contra hsurplus
    exact hnone (hkeys.mpr ⟨row, hrow, hsurplus⟩)

theorem dictReader_nil : dictReader [] = .ok [] := rfl

theorem rowFound_iff {agrees : Option Text → Text → Bool} {text : Text}
    {wanted : List (Text × Text)} {rows : List Row} (hrows : dictReader text = .ok rows) :
    RowFound agrees text wanted ↔ (rows.any fun row =>
      wanted.all fun entry => agrees (cell row entry.1) entry.2) = true := by
  rw [RowFound, hrows]
  simp

theorem checkRows_total {agrees : Option Text → Text → Bool}
    (failure : List (Text × Text) → Text → Failure) {wanted? : Option (List (Text × Text))}
    {text : Text} :
    (∃ failures, checkRows agrees failure wanted? text = .ok failures) ↔
      ∀ wanted ∈ wanted?, (∃ rows, dictReader text = .ok rows) ∧
        (RowFound agrees text wanted ∨ NoSurplus text) := by
  unfold checkRows
  cases wanted? with
  | none => simp
  | some wanted =>
    simp only [Option.mem_def, Option.some.injEq, forall_eq']
    by_cases htext : text = []
    · subst htext
      refine iff_of_true ⟨[], rfl⟩ ⟨⟨[], rfl⟩, .inr ?_⟩
      intro rows hrows
      rw [dictReader_nil] at hrows
      cases hrows
      exact fun row hrow => absurd hrow List.not_mem_nil
    rw [if_neg htext]
    cases hrows : dictReader text with
    | error e => simp
    | ok rows =>
      have hsurplus : NoSurplus text ↔ ∀ row ∈ rows, row.surplus = none := by
        simp [NoSurplus, hrows]
      rw [rowFound_iff hrows, hsurplus, ← columnsPresent_total]
      rw [and_iff_right ⟨rows, rfl⟩]
      dsimp only
      by_cases hfound : (rows.any fun row =>
          wanted.all fun entry => agrees (cell row entry.1) entry.2) = true
      · rw [if_pos hfound]
        exact iff_of_true ⟨[], rfl⟩ (.inl hfound)
      · rw [if_neg hfound, or_iff_right hfound]
        cases columnsPresent rows <;> simp

theorem checkRows_nil {agrees : Option Text → Text → Bool}
    {failure : List (Text × Text) → Text → Failure} {wanted? : Option (List (Text × Text))}
    {text : Text} {failures : List Failure}
    (h : checkRows agrees failure wanted? text = .ok failures) :
    failures = [] ↔ text = [] ∨ ∀ wanted ∈ wanted?, RowFound agrees text wanted := by
  unfold checkRows at h
  cases wanted? with
  | none =>
    cases h
    simp
  | some wanted =>
    simp only [Option.mem_def, Option.some.injEq, forall_eq']
    dsimp only at h
    by_cases htext : text = []
    · rw [if_pos htext] at h
      cases h
      exact iff_of_true rfl (.inl htext)
    rw [if_neg htext] at h
    rw [or_iff_right htext]
    cases hrows : dictReader text with
    | error e =>
      rw [hrows] at h
      cases h
    | ok rows =>
      rw [hrows] at h
      rw [rowFound_iff hrows]
      dsimp only at h
      split at h
      · next hfound =>
        cases h
        exact iff_of_true rfl hfound
      · next hfound =>
        split at h
        · cases h
        · cases h
          exact iff_of_false (List.cons_ne_nil _ _) hfound

theorem artifactDecoder_raises (I : Interpreter F) : I.artifactDecoder.RaisesValueError where
  parseInt := by
    intro token e h
    simp only [Interpreter.artifactDecoder, Simulator.parseInt] at h
    split at h <;> cases h
    rfl
  objectPairs := fun _ _ h => rejectDuplicateKeys_error h

theorem loads_nil (D : Decoder F) : Python.loads D [] = .error .valueError := rfl

theorem checkJson_total {text : Text} :
    (∃ failures, checkJson I args text = .ok failures) ↔
      ∀ spec ∈ args.jsonFields, FieldsRender I text spec := by
  unfold checkJson
  cases args.jsonFields with
  | none => simp
  | some spec =>
    simp only [Option.mem_def, Option.some.injEq, forall_eq']
    by_cases htext : text = []
    · subst htext
      refine iff_of_true ⟨[], rfl⟩ ?_
      intro document hdocument
      rw [loads_nil] at hdocument
      cases hdocument
    rw [if_neg htext, FieldsRender]
    cases hloads : Python.loads I.artifactDecoder text with
    | error e =>
      rcases Python.loads_error (artifactDecoder_raises I) hloads with rfl | rfl <;> simp
    | ok value =>
      cases value with
      | dict document =>
        simp only [Except.ok.injEq, Value.dict.injEq, forall_eq']
        exact checkFields_total spec .missingField id document
      | none | bool _ | int _ | float _ | str _ | list _ => simp

theorem checkJson_nil {text : Text} {failures : List Failure}
    (h : checkJson I args text = .ok failures) :
    failures = [] ↔ text = [] ∨ ∀ spec ∈ args.jsonFields, FieldsMet I text spec := by
  unfold checkJson at h
  cases hspec : args.jsonFields with
  | none =>
    rw [hspec] at h
    cases h
    simp
  | some spec =>
    simp only [Option.mem_def, Option.some.injEq, forall_eq']
    rw [hspec] at h
    dsimp only at h
    by_cases htext : text = []
    · rw [if_pos htext] at h
      cases h
      exact iff_of_true rfl (.inl htext)
    rw [if_neg htext] at h
    rw [or_iff_right htext, FieldsMet]
    cases hloads : Python.loads I.artifactDecoder text with
    | error e =>
      rw [hloads] at h
      rcases Python.loads_error (artifactDecoder_raises I) hloads with rfl | rfl <;> cases h <;> simp
    | ok value =>
      rw [hloads] at h
      cases value with
      | dict document =>
        simp only [Except.ok.injEq, Value.dict.injEq, exists_eq_left']
        exact checkFields_nil h
      | none | bool _ | int _ | float _ | str _ | list _ =>
        cases h
        simp

theorem checkJunit_total {bytes : List Nat} :
    (∃ failures, checkJunit I args bytes (readText bytes) = .ok failures) ↔
      (args.junitTestcase.isSome = true → I.parseXml bytes ≠ .encodingError) := by
  unfold checkJunit
  cases args.junitTestcase with
  | none => simp
  | some name =>
    by_cases htext : readText bytes = []
    · have hbytes := readText_eq_nil_iff.mp htext
      subst hbytes
      refine iff_of_true ⟨[], by simp [htext]⟩ fun _ => ?_
      rw [I.parseXml_nil]
      simp
    dsimp only
    rw [if_neg htext]
    cases I.parseXml bytes with
    | parseError => simp
    | encodingError => simp
    | root root =>
      refine iff_of_true ?_ (by simp)
      dsimp only
      split
      · exact ⟨_, rfl⟩
      · split <;> exact ⟨_, rfl⟩

theorem checkJunit_nil {bytes : List Nat} {failures : List Failure}
    (h : checkJunit I args bytes (readText bytes) = .ok failures) :
    failures = [] ↔ readText bytes = [] ∨ ∀ name ∈ args.junitTestcase, CaseFound I args bytes name := by
  unfold checkJunit at h
  cases hname : args.junitTestcase with
  | none =>
    rw [hname] at h
    cases h
    simp
  | some name =>
    simp only [Option.mem_def, Option.some.injEq, forall_eq']
    rw [hname] at h
    dsimp only at h
    by_cases htext : readText bytes = []
    · rw [if_pos htext] at h
      cases h
      exact iff_of_true rfl (.inl htext)
    rw [if_neg htext] at h
    rw [or_iff_right htext, CaseFound]
    cases hxml : I.parseXml bytes with
    | parseError =>
      rw [hxml] at h
      cases h
      simp
    | encodingError =>
      rw [hxml] at h
      cases h
    | root root =>
      rw [hxml] at h
      dsimp only at h
      simp only [Xml.root.injEq, exists_eq_left']
      -- the code filters first and collects the outcomes of what is left
      have hcases : (∃ testcase ∈ root.iter (ascii "testcase"), nameContains name testcase = true ∧
          (args.junitOutcome = ascii "any" ∨ junitOutcome testcase = args.junitOutcome)) ↔
          (root.iter (ascii "testcase")).filter (nameContains name) ≠ [] ∧
            (args.junitOutcome = ascii "any" ∨ args.junitOutcome ∈
              (((root.iter (ascii "testcase")).filter (nameContains name)).map
                junitOutcome).dedup) := by
        rw [List.mem_dedup, List.mem_map]
        simp only [← List.mem_filter, ← and_assoc]
        constructor
        · rintro ⟨testcase, hmem, hany | houtcome⟩
          · exact ⟨List.ne_nil_of_mem hmem, .inl hany⟩
          · exact ⟨List.ne_nil_of_mem hmem, .inr ⟨testcase, hmem, houtcome⟩⟩
        · rintro ⟨hne, hany | ⟨testcase, hmem, houtcome⟩⟩
          · obtain ⟨testcase, hmem⟩ := List.exists_mem_of_ne_nil _ hne
            exact ⟨testcase, hmem, .inl hany⟩
          · exact ⟨testcase, hmem, .inr houtcome⟩
      rw [hcases]
      split at h
      · next hempty =>
        cases h
        simp [List.isEmpty_iff.mp hempty]
      · next hne =>
        rw [List.isEmpty_iff] at hne
        split at h
        · next hexpected =>
          rw [Bool.not_eq_true', ← Bool.not_eq_true, List.contains_iff_mem] at hexpected
          cases h
          simp [hexpected]
        · next hexpected =>
          rw [Bool.not_eq_true', ← Bool.not_eq_true, List.contains_iff_mem, not_and_or, not_not,
            not_not] at hexpected
          cases h
          exact iff_of_true rfl ⟨hne, hexpected⟩

end Stages

section Outcome

variable (I : Interpreter F) (args : Args)

/-- A cell that is missing reads as empty. -/
def cellIs (cell : Option Text) (value : Text) : Bool := strip (cell.getD []) = value

/-- A file is what the arguments ask for. -/
structure Satisfies (bytes : List Nat) : Prop where
  contains : Contains I args (readText bytes)
  csvRow : ∀ wanted ∈ args.csvRow, RowFound cellIs (readText bytes) wanted
  csvRowMatches : ∀ wanted ∈ args.csvRowMatches, RowFound (cellMatches I) (readText bytes) wanted
  jsonFields : ∀ spec ∈ args.jsonFields, FieldsMet I (readText bytes) spec
  junitTestcase : ∀ name ∈ args.junitTestcase, CaseFound I args bytes name

/-- The check returns a result, and it is not one that passes a file that is not what the
arguments ask for. -/
def Handles (file : File) : Prop :=
  ∃ result, run I args file = .ok result ∧
    ((¬ ∃ bytes, file = .content bytes ∧ Satisfies I args bytes) → result.passed = false)

/-- The contents that the check handles. -/
structure Benign (bytes : List Nat) : Prop where
  /-- No CSV field is longer than the limit of the `csv` module. -/
  fieldSize : args.csvRow.isSome = true ∨ args.csvRowMatches.isSome = true →
    ∀ rows, Python.Csv.reader none (readText bytes) = .ok rows →
      ∀ row ∈ rows, ∀ f ∈ row, f.length ≤ Python.Csv.fieldSizeLimit
  /-- A row is what is asked for, or none has more fields than the header. -/
  surplus : ∀ wanted ∈ args.csvRow,
    RowFound cellEquals (readText bytes) wanted ∨ NoSurplus (readText bytes)
  surplusMatches : ∀ wanted ∈ args.csvRowMatches,
    RowFound (cellMatches I) (readText bytes) wanted ∨ NoSurplus (readText bytes)
  renders : ∀ spec ∈ args.jsonFields, FieldsRender I (readText bytes) spec
  /-- The XML parser knows the encoding that the document names. -/
  encoding : args.junitTestcase.isSome = true → I.parseXml bytes ≠ .encodingError
  /-- The file is not empty, or only patterns are asked for, or one of them is not found. -/
  nonempty : bytes = [] → Contains I args [] → args.csvRow = none ∧ args.csvRowMatches = none ∧
    args.jsonFields = none ∧ args.junitTestcase = none
  /-- Where all else is as asked for, the row is not found only through a missing cell, which
  `str` turns into `None`. -/
  missingCell : bytes ≠ [] → Contains I args (readText bytes) →
    (∀ wanted ∈ args.csvRowMatches, RowFound (cellMatches I) (readText bytes) wanted) →
    (∀ spec ∈ args.jsonFields, FieldsMet I (readText bytes) spec) →
    (∀ name ∈ args.junitTestcase, CaseFound I args bytes name) →
    ∀ wanted ∈ args.csvRow, RowFound cellEquals (readText bytes) wanted →
      RowFound cellIs (readText bytes) wanted

variable {I args}

/-- The file, its text, and the failures of the four blocks that may raise. -/
theorem run_eq_ok_iff {file : File} {result : CheckResult} :
    run I args file = .ok result ↔ ∃ csvRow csvRowMatches json junit,
      checkCsvRow args (readArtifact file).1 = .ok csvRow ∧
      checkCsvRowMatches I args (readArtifact file).1 = .ok csvRowMatches ∧
      checkJson I args (readArtifact file).1 = .ok json ∧
      checkJunit I args file.bytes (readArtifact file).1 = .ok junit ∧
      let failures := (readArtifact file).2 ++ checkContains I args (readArtifact file).1 ++
        csvRow ++ csvRowMatches ++ json ++ junit
      (⟨failures.isEmpty, if failures.isEmpty then 0 else 1, (readArtifact file).1.take 1000,
        failures⟩ : CheckResult) = result := by
  unfold run
  simp only [Except.bind_eq_ok, Except.ok.injEq]
  constructor
  · rintro ⟨csvRow, h₁, csvRowMatches, h₂, json, h₃, junit, h₄, h⟩
    exact ⟨csvRow, csvRowMatches, json, junit, h₁, h₂, h₃, h₄, h⟩
  · rintro ⟨csvRow, csvRowMatches, json, junit, h₁, h₂, h₃, h₄, h⟩
    exact ⟨csvRow, h₁, csvRowMatches, h₂, json, h₃, junit, h₄, h⟩

/-- An artifact that is not there, or cannot be read, fails. -/
theorem handles_of_no_content {file : File} (h : ∀ bytes, file ≠ .content bytes) :
    Handles I args file := by
  have hread : (readArtifact file).1 = [] ∧ (readArtifact file).2 ≠ [] := by
    cases file with
    | content bytes => exact absurd rfl (h bytes)
    | absent | directory | unreadable _ => exact ⟨rfl, List.cons_ne_nil _ _⟩
  have hcsvRow : checkCsvRow args [] = .ok [] := by
    cases hwanted : args.csvRow <;> simp [checkCsvRow, checkRows, hwanted]
  have hcsvRowMatches : checkCsvRowMatches I args [] = .ok [] := by
    cases hwanted : args.csvRowMatches <;> simp [checkCsvRowMatches, checkRows, hwanted]
  have hjson : checkJson I args [] = .ok [] := by
    cases hspec : args.jsonFields <;> simp [checkJson, hspec]
  have hjunit : checkJunit I args file.bytes [] = .ok [] := by
    cases hname : args.junitTestcase <;> simp [checkJunit, hname]
  refine ⟨_, run_eq_ok_iff.mpr ⟨[], [], [], [], ?_, ?_, ?_, ?_, rfl⟩, fun _ => ?_⟩
  · rw [hread.1, hcsvRow]
  · rw [hread.1, hcsvRowMatches]
  · rw [hread.1, hjson]
  · rw [hread.1, hjunit]
  · simp [hread.2]

/-- The blocks return when the content keeps the first five conditions. -/
theorem run_total {bytes : List Nat} :
    (∃ result, run I args (.content bytes) = .ok result) ↔
      ((∀ wanted ∈ args.csvRow, (∃ rows, dictReader (readText bytes) = .ok rows) ∧
        (RowFound cellEquals (readText bytes) wanted ∨ NoSurplus (readText bytes))) ∧
      (∀ wanted ∈ args.csvRowMatches, (∃ rows, dictReader (readText bytes) = .ok rows) ∧
        (RowFound (cellMatches I) (readText bytes) wanted ∨ NoSurplus (readText bytes))) ∧
      (∀ spec ∈ args.jsonFields, FieldsRender I (readText bytes) spec) ∧
      (args.junitTestcase.isSome = true → I.parseXml bytes ≠ .encodingError)) := by
  rw [← checkJson_total, ← checkJunit_total, ← checkRows_total .noRow,
    ← checkRows_total .noMatchingRow]
  constructor
  · rintro ⟨result, h⟩
    obtain ⟨csvRow, csvRowMatches, json, junit, h₁, h₂, h₃, h₄, -⟩ := run_eq_ok_iff.mp h
    exact ⟨⟨csvRow, h₁⟩, ⟨csvRowMatches, h₂⟩, ⟨json, h₃⟩, ⟨junit, h₄⟩⟩
  · rintro ⟨⟨csvRow, h₁⟩, ⟨csvRowMatches, h₂⟩, ⟨json, h₃⟩, ⟨junit, h₄⟩⟩
    exact ⟨_, run_eq_ok_iff.mpr ⟨csvRow, csvRowMatches, json, junit, h₁, h₂, h₃, h₄, rfl⟩⟩

/-- What a result that passes says of the file. -/
theorem passed_iff {bytes : List Nat} {result : CheckResult}
    (h : run I args (.content bytes) = .ok result) :
    result.passed = true ↔ Contains I args (readText bytes) ∧ (readText bytes = [] ∨
      (∀ wanted ∈ args.csvRow, RowFound cellEquals (readText bytes) wanted) ∧
      (∀ wanted ∈ args.csvRowMatches, RowFound (cellMatches I) (readText bytes) wanted) ∧
      (∀ spec ∈ args.jsonFields, FieldsMet I (readText bytes) spec) ∧
      (∀ name ∈ args.junitTestcase, CaseFound I args bytes name)) := by
  obtain ⟨csvRow, csvRowMatches, json, junit, h₁, h₂, h₃, h₄, rfl⟩ := run_eq_ok_iff.mp h
  simp only [List.isEmpty_iff, List.append_eq_nil_iff]
  rw [show (readArtifact (.content bytes)).2 = [] from rfl,
    show (readArtifact (.content bytes)).1 = readText bytes from rfl,
    checkContains_eq_nil_iff, checkRows_nil h₁, checkRows_nil h₂, checkJson_nil h₃,
    checkJunit_nil h₄]
  tauto

theorem not_rowFound_nil {agrees : Option Text → Text → Bool} {wanted : List (Text × Text)} :
    ¬ RowFound agrees [] wanted := by
  rintro ⟨rows, hrows, row, hrow, -⟩
  rw [dictReader_nil] at hrows
  cases hrows
  cases hrow

theorem not_fieldsMet_nil {spec : List (Text × Rule)} : ¬ FieldsMet I [] spec := by
  rintro ⟨document, hdocument, -⟩
  rw [loads_nil] at hdocument
  cases hdocument

theorem not_caseFound_nil {name : Text} : ¬ CaseFound I args [] name := by
  rintro ⟨root, hroot, -⟩
  rw [I.parseXml_nil] at hroot
  cases hroot

/-- An empty file is what the arguments ask for when they ask for patterns at most. -/
theorem satisfies_nil_iff : Satisfies I args [] ↔ Contains I args [] ∧ args.csvRow = none ∧
    args.csvRowMatches = none ∧ args.jsonFields = none ∧ args.junitTestcase = none := by
  have hread : readText [] = [] := rfl
  constructor
  · rintro ⟨hcontains, hcsvRow, hcsvRowMatches, hjson, hjunit⟩
    rw [hread] at hcontains hcsvRow hcsvRowMatches hjson
    refine ⟨hcontains, ?_, ?_, ?_, ?_⟩
    · exact Option.eq_none_iff_forall_not_mem.mpr fun w hw => not_rowFound_nil (hcsvRow w hw)
    · exact Option.eq_none_iff_forall_not_mem.mpr fun w hw => not_rowFound_nil (hcsvRowMatches w hw)
    · exact Option.eq_none_iff_forall_not_mem.mpr fun w hw => not_fieldsMet_nil (hjson w hw)
    · exact Option.eq_none_iff_forall_not_mem.mpr fun w hw => not_caseFound_nil (hjunit w hw)
  · rintro ⟨hcontains, hcsvRow, hcsvRowMatches, hjson, hjunit⟩
    refine ⟨hcontains, ?_, ?_, ?_, ?_⟩
    · simp [hcsvRow]
    · simp [hcsvRowMatches]
    · simp [hjson]
    · simp [hjunit]

theorem Handles.benign {bytes : List Nat} (h : Handles I args (.content bytes)) :
    Benign I args bytes := by
  obtain ⟨result, hrun, hfails⟩ := h
  obtain ⟨hcsvRow, hcsvRowMatches, hjson, hjunit⟩ := run_total.mp ⟨result, hrun⟩
  have hsatisfies (hpassed : result.passed = true) : Satisfies I args bytes := by
    by_contra hno
    have hfalse := hfails (by rintro ⟨_, ⟨⟩, h⟩; exact hno h)
    rw [hpassed] at hfalse
    cases hfalse
  have hpassed := passed_iff hrun
  refine ⟨?_, fun w hw => (hcsvRow w hw).2, fun w hw => (hcsvRowMatches w hw).2, hjson, hjunit,
    ?_, ?_⟩
  · rintro (hsome | hsome)
    · obtain ⟨w, hw⟩ := Option.isSome_iff_exists.mp hsome
      exact (Python.Csv.dictReader_eq_ok_iff (readText_not_mem bytes)).mp (hcsvRow w hw).1
    · obtain ⟨w, hw⟩ := Option.isSome_iff_exists.mp hsome
      exact (Python.Csv.dictReader_eq_ok_iff (readText_not_mem bytes)).mp (hcsvRowMatches w hw).1
  · rintro rfl hcontains
    exact (satisfies_nil_iff.mp (hsatisfies (hpassed.mpr ⟨hcontains, .inl rfl⟩))).2
  · intro _ hcontains hmatches hfields hcase w hw hrow
    have hall : ∀ wanted ∈ args.csvRow, RowFound cellEquals (readText bytes) wanted := by
      intro wanted hwanted
      cases hw.symm.trans hwanted
      exact hrow
    exact (hsatisfies (hpassed.mpr ⟨hcontains, .inr ⟨hall, hmatches, hfields, hcase⟩⟩)).csvRow w hw

theorem Benign.handles {bytes : List Nat} (h : Benign I args bytes) :
    Handles I args (.content bytes) := by
  have hrows (hsome : args.csvRow.isSome = true ∨ args.csvRowMatches.isSome = true) :
      ∃ rows, dictReader (readText bytes) = .ok rows :=
    (Python.Csv.dictReader_eq_ok_iff (readText_not_mem bytes)).mpr (h.fieldSize hsome)
  obtain ⟨result, hrun⟩ : ∃ result, run I args (.content bytes) = .ok result := by
    refine run_total.mpr ⟨fun w hw => ⟨hrows (.inl ?_), h.surplus w hw⟩,
      fun w hw => ⟨hrows (.inr ?_), h.surplusMatches w hw⟩, h.renders, h.encoding⟩
    · exact Option.isSome_of_mem hw
    · exact Option.isSome_of_mem hw
  refine ⟨result, hrun, fun hno => ?_⟩
  by_contra hpassed
  rw [Bool.not_eq_false, passed_iff hrun] at hpassed
  apply hno
  refine ⟨bytes, rfl, ?_⟩
  by_cases hbytes : bytes = []
  · subst hbytes
    exact satisfies_nil_iff.mpr ⟨hpassed.1, h.nonempty rfl hpassed.1⟩
  · obtain ⟨hcontains, hnil | ⟨hcsvRow, hmatches, hfields, hcase⟩⟩ := hpassed
    · exact absurd (readText_eq_nil_iff.mp hnil) hbytes
    · exact ⟨hcontains, fun w hw =>
        h.missingCell hbytes hcontains hmatches hfields hcase w hw (hcsvRow w hw),
        hmatches, hfields, hcase⟩

/-- The check returns a result, and passes no file that is not what the arguments ask for,
exactly where the content is benign. -/
theorem handles_iff_benign (I : Interpreter F) (args : Args) (file : File) :
    Handles I args file ↔ ∀ bytes, file = .content bytes → Benign I args bytes := by
  cases file with
  | absent | directory | unreadable _ =>
    exact iff_of_true (handles_of_no_content (by simp)) (by simp)
  | content bytes =>
    constructor
    · rintro h _ ⟨⟩
      exact h.benign
    · intro h
      exact (h bytes rfl).handles

section Sample

/-- A pattern is found where it stands as it is; no commit exists, no XML is parsed. -/
def sampleInterpreter : Interpreter Text where
  floats := .tokens
  overflows := fun _ => false
  repr := fun _ => some []
  search := fun pattern text => pattern <:+: text
  searchMultiline := fun pattern text => pattern <:+: text
  fromisoformat := fun _ => none
  commitExists := fun _ => false
  parseXml := fun _ => .parseError
  parseXml_nil := rfl

def sampleArgs : Args where
  contains := []
  csvRow := some [(ascii "a", ascii "9")]
  csvRowMatches := none
  jsonFields := none
  junitTestcase := none

/-- No row is what is asked for, and sorting the column names for the message raises. -/
theorem surplus_field_raises :
    ¬ ∀ (I : Interpreter Text) (args : Args) (file : File), Handles I args file := by
  intro h
  obtain ⟨result, hrun, -⟩ := h sampleInterpreter sampleArgs (.content (ascii "a,b\n1,2,3\n"))
  have hraises : run sampleInterpreter sampleArgs (.content (ascii "a,b\n1,2,3\n")) =
      .error (.python .typeError) := by
    decide +kernel
  rw [hraises] at hrun
  cases hrun

end Sample

end Outcome

end Checks.Artifact
