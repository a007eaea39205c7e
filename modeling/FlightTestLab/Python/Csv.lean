import FlightTestLab.Library.Assoc
import FlightTestLab.Library.Except
import FlightTestLab.Library.Framing
import FlightTestLab.Library.Json.Print

/-!
# The interpreter's `csv` module

`csv.reader` with its default dialect on a text that is read line by line, and
`csv.DictReader` over it.

## Main definitions

- `Python.Csv.action`: what the reader does with one character
- `Python.Csv.reader`: the rows of a text
- `Python.Csv.dictReader`: the rows as `dict`s

## Main results

- `Python.Csv.reader_bounded`: what the bounded reader returns
- `Python.Csv.dictReader_eq_ok_iff`: when it gets through
-/

namespace Python.Csv

open Json (Text)

/-- `csv.Error` -/
inductive Error
  /-- "field larger than field limit" -/
  | fieldLimit
  /-- "new-line character seen in unquoted field" -/
  | newline
  deriving DecidableEq, Repr

inductive Mode
  | startRecord
  | startField
  | inField
  | inQuotedField
  | quoteInQuotedField
  | eatCrnl
  deriving DecidableEq, Repr

inductive Action
  | go (mode : Mode)
  | save (mode : Mode)
  | add (c : Nat) (mode : Mode)
  | refuse
  deriving DecidableEq, Repr

def comma : Nat := 0x2C

def quote : Nat := 0x22

def isLineEnd (c : Nat) : Bool := c == 0x0A || c == 0x0D

/-- `START_FIELD` in `parse_process_char`; `none` is the end of a line. -/
def actionStartField : Option Nat → Action
  | none => .save .startRecord
  | some c =>
    if isLineEnd c then .save .eatCrnl
    else if c = quote then .go .inQuotedField
    else if c = comma then .save .startField
    else .add c .inField

/-- `parse_process_char`. A quote need not be the last character of its field. -/
def action : Mode → Option Nat → Action
  | .startRecord, none => .go .startRecord
  | .startRecord, some c => if isLineEnd c then .go .eatCrnl else actionStartField (some c)
  | .startField, c => actionStartField c
  | .inField, none => .save .startRecord
  | .inField, some c =>
    if isLineEnd c then .save .eatCrnl
    else if c = comma then .save .startField
    else .add c .inField
  | .inQuotedField, none => .go .inQuotedField
  | .inQuotedField, some c => if c = quote then .go .quoteInQuotedField else .add c .inQuotedField
  | .quoteInQuotedField, none => .save .startRecord
  | .quoteInQuotedField, some c =>
    if c = quote then .add c .inQuotedField
    else if c = comma then .save .startField
    else if isLineEnd c then .save .eatCrnl
    else .add c .inField
  | .eatCrnl, none => .go .startRecord
  | .eatCrnl, some c => if isLineEnd c then .go .eatCrnl else .refuse

/-- The reader, with the rows that it has returned. -/
structure Reader where
  mode : Mode
  field : Text
  fields : List Text
  rows : List (List Text)
  deriving DecidableEq, Repr

def Reader.start : Reader := ⟨.startRecord, [], [], []⟩

/-- One action, with `csv.field_size_limit()` where there is one. -/
def Reader.act (limit : Option Nat) (r : Reader) : Action → Except Error Reader
  | .go mode => .ok { r with mode := mode }
  | .save mode => .ok { r with mode := mode, fields := r.fields ++ [r.field], field := [] }
  | .add c mode =>
    if limit.any (· ≤ r.field.length) then .error .fieldLimit
    else .ok { r with mode := mode, field := r.field ++ [c] }
  | .refuse => .error .newline

/-- A record ends with the line it is in, unless a quoted field goes on. -/
def Reader.endLine (r : Reader) : Reader :=
  if r.mode = .startRecord then { r with rows := r.rows ++ [r.fields], fields := [], field := [] }
  else r

/-- One character, or the end of a line. -/
def Reader.read (limit : Option Nat) (r : Reader) (c : Option Nat) : Except Error Reader :=
  match r.act limit (action r.mode c) with
  | .error e => .error e
  | .ok r => .ok (if c.isNone then r.endLine else r)

/-- At the end of the input a record that was begun is returned as it stands. -/
def Reader.finish (r : Reader) : List (List Text) :=
  if r.field ≠ [] ∨ r.mode = .inQuotedField then r.rows ++ [r.fields ++ [r.field]] else r.rows

/-- The characters of a line and its end. -/
def lineEvents (line : Text) : List (Option Nat) := line.map some ++ [none]

/-- `list(csv.reader(StringIO(text)))` -/
def reader (limit : Option Nat) (text : Text) : Except Error (List (List Text)) :=
  match ((Framing.lines 0x0A text).flatMap lineEvents).foldlM (Reader.read limit) .start with
  | .error e => .error e
  | .ok r => .ok r.finish

/-- The default of `csv.field_size_limit()`. -/
def fieldSizeLimit : Nat := 131072

/-- A row of `DictReader`: what it holds under names, and under the key `None`. -/
structure Row where
  cells : List (Text × Option Text)
  surplus : Option (List Text)
  deriving DecidableEq, Repr

/-- `dict(zip(fieldnames, row))`, filled up with `None`, and the fields beyond the names. -/
def dictRow (fieldnames row : List Text) : Row where
  cells := Assoc.ofPairs (fieldnames.zip (row.map some) ++
    (fieldnames.drop row.length).map fun key => (key, none))
  surplus := if fieldnames.length < row.length then some (row.drop fieldnames.length) else none

/-- The rows below the header; blank ones are passed over. -/
def dictRows : List (List Text) → List Row
  | [] => []
  | fieldnames :: rows => (rows.filter (· ≠ [])).map (dictRow fieldnames)

/-- `list(csv.DictReader(StringIO(text)))` -/
def dictReader (text : Text) : Except Error (List Row) :=
  match reader (some fieldSizeLimit) text with
  | .error e => .error e
  | .ok rows => .ok (dictRows rows)

section Limit

variable {limit : Nat} {r r' : Reader}

/-- No field read so far is longer than the limit. -/
structure Reader.Within (limit : Nat) (r : Reader) : Prop where
  field : r.field.length ≤ limit
  fields : ∀ f ∈ r.fields, f.length ≤ limit
  rows : ∀ row ∈ r.rows, ∀ f ∈ row, f.length ≤ limit

theorem start_within : Reader.start.Within limit :=
  ⟨Nat.zero_le _, by simp [Reader.start], by simp [Reader.start]⟩

theorem within_endLine_iff (h : r.mode = .startRecord → r.field = []) :
    r.endLine.Within limit ↔ r.Within limit := by
  unfold Reader.endLine
  split
  · next hmode =>
    constructor
    · rintro ⟨-, -, hrows⟩
      refine ⟨by simp [h hmode], fun f hf => ?_, fun row hrow => ?_⟩
      · exact hrows r.fields (by simp) f hf
      · exact hrows row (by simp [hrow])
    · rintro ⟨-, hfields, hrows⟩
      refine ⟨Nat.zero_le _, by simp, fun row hrow => ?_⟩
      obtain hrow | hrow := List.mem_append.mp hrow
      · exact hrows row hrow
      · rw [List.mem_singleton.mp hrow]
        exact hfields
  · rfl

/-- What the bounded reader does, the unbounded one does, and within the limit. -/
theorem act_bounded {a : Action} (h : r.Within limit) :
    r.act (some limit) a = .ok r' ↔ r.act none a = .ok r' ∧ r'.Within limit := by
  cases a with
  | go mode =>
    simp only [Reader.act, Except.ok.injEq, iff_self_and]
    rintro rfl
    exact ⟨h.field, h.fields, h.rows⟩
  | save mode =>
    simp only [Reader.act, Except.ok.injEq, iff_self_and]
    rintro rfl
    refine ⟨Nat.zero_le _, fun f hf => ?_, h.rows⟩
    obtain hf | hf := List.mem_append.mp hf
    · exact h.fields f hf
    · rw [List.mem_singleton.mp hf]
      exact h.field
  | add c mode =>
    simp only [Reader.act, Option.any_some, decide_eq_true_eq, Option.any_none, Bool.false_eq_true,
      if_false, Except.ok.injEq]
    split
    · next hfull =>
      simp only [reduceCtorEq, false_iff, not_and]
      rintro rfl hwithin
      have := hwithin.field
      simp only [List.length_append, List.length_singleton] at this
      omega
    · next hroom =>
      simp only [Except.ok.injEq, iff_self_and]
      rintro rfl
      refine ⟨?_, h.fields, h.rows⟩
      simp only [List.length_append, List.length_singleton]
      omega
  | refuse => simp [Reader.act]

/-- A field that is too long stays. -/
theorem act_within {a : Action} (h : r.act none a = .ok r') (hr' : r'.Within limit) :
    r.Within limit := by
  cases a with
  | go mode =>
    cases h
    exact ⟨hr'.field, hr'.fields, hr'.rows⟩
  | save mode =>
    cases h
    exact ⟨hr'.fields r.field (by simp), fun f hf => hr'.fields f (by simp [hf]), hr'.rows⟩
  | add c mode =>
    cases h
    refine ⟨?_, hr'.fields, hr'.rows⟩
    have := hr'.field
    simp only [List.length_append, List.length_singleton] at this
    omega
  | refuse => cases h

/-- No field is begun between two records. -/
def Reader.Between (r : Reader) : Prop :=
  r.mode = .startRecord ∨ r.mode = .eatCrnl → r.field = []

theorem action_go {m m' : Mode} {c : Option Nat} (h : action m c = .go m')
    (hm' : m' = .startRecord ∨ m' = .eatCrnl) : m = .startRecord ∨ m = .eatCrnl := by
  cases m with
  | startRecord => exact .inl rfl
  | eatCrnl => exact .inr rfl
  | startField | inField | inQuotedField | quoteInQuotedField =>
    exfalso
    cases c <;> simp only [action, actionStartField] at h <;> (repeat' split at h) <;> cases h <;>
      simp at hm'

theorem action_add {m m' : Mode} {c : Option Nat} {d : Nat} (h : action m c = .add d m') :
    m' = .inField ∨ m' = .inQuotedField := by
  cases m <;> cases c <;> simp only [action, actionStartField] at h <;> (repeat' split at h) <;>
    cases h <;> simp

theorem start_between : Reader.start.Between := fun _ => rfl

theorem act_between {c : Option Nat} (h : r.Between)
    (hact : r.act none (action r.mode c) = .ok r') : r'.Between := by
  intro hmode
  cases haction : action r.mode c with
  | go mode =>
    rw [haction] at hact
    cases hact
    exact h (action_go haction hmode)
  | save mode =>
    rw [haction] at hact
    cases hact
    rfl
  | add d mode =>
    rw [haction] at hact
    cases hact
    rcases action_add haction with rfl | rfl <;> simp at hmode
  | refuse =>
    rw [haction] at hact
    cases hact

theorem endLine_between (h : r.Between) : r.endLine.Between := by
  unfold Reader.endLine
  split
  · exact fun _ => rfl
  · exact h

theorem read_eq_ok_iff {bound : Option Nat} {c : Option Nat} :
    r.read bound c = .ok r' ↔ ∃ acted, r.act bound (action r.mode c) = .ok acted ∧
      (if c.isNone then acted.endLine else acted) = r' := by
  unfold Reader.read
  split
  · next e he => simp [he]
  · next acted hacted => simp [hacted]

theorem read_between {c : Option Nat} (h : r.Between) (hread : r.read none c = .ok r') :
    r'.Between := by
  obtain ⟨acted, hact, rfl⟩ := read_eq_ok_iff.mp hread
  have hacted := act_between h hact
  split
  · exact endLine_between hacted
  · exact hacted

theorem within_read_iff {acted : Reader} {c : Option Nat} (h : acted.Between) :
    (if c.isNone then acted.endLine else acted).Within limit ↔ acted.Within limit := by
  split
  · exact within_endLine_iff fun hmode => h (.inl hmode)
  · rfl

theorem read_bounded {c : Option Nat} (hb : r.Between) (h : r.Within limit) :
    r.read (some limit) c = .ok r' ↔ r.read none c = .ok r' ∧ r'.Within limit := by
  rw [read_eq_ok_iff, read_eq_ok_iff]
  constructor
  · rintro ⟨acted, hact, rfl⟩
    obtain ⟨hact, hwithin⟩ := (act_bounded h).mp hact
    exact ⟨⟨acted, hact, rfl⟩, (within_read_iff (act_between hb hact)).mpr hwithin⟩
  · rintro ⟨⟨acted, hact, rfl⟩, hwithin⟩
    have hacted := (within_read_iff (act_between hb hact)).mp hwithin
    exact ⟨acted, (act_bounded h).mpr ⟨hact, hacted⟩, rfl⟩

theorem read_within {c : Option Nat} (hb : r.Between) (hread : r.read none c = .ok r')
    (h : r'.Within limit) : r.Within limit := by
  obtain ⟨acted, hact, rfl⟩ := read_eq_ok_iff.mp hread
  exact act_within hact ((within_read_iff (act_between hb hact)).mp h)

theorem foldlM_within {es : List (Option Nat)} (hb : r.Between)
    (hread : es.foldlM (Reader.read none) r = .ok r') (h : r'.Within limit) : r.Within limit := by
  induction es generalizing r with
  | nil =>
    cases hread
    exact h
  | cons c es ih =>
    rw [List.foldlM_cons, Except.bind_eq_ok] at hread
    obtain ⟨next, hnext, hrest⟩ := hread
    exact read_within hb hnext (ih (read_between hb hnext) hrest)

theorem foldlM_bounded {es : List (Option Nat)} (hb : r.Between) (h : r.Within limit) :
    es.foldlM (Reader.read (some limit)) r = .ok r' ↔
      es.foldlM (Reader.read none) r = .ok r' ∧ r'.Within limit := by
  induction es generalizing r with
  | nil =>
    rw [List.foldlM_nil, List.foldlM_nil, iff_self_and]
    rintro ⟨⟩
    exact h
  | cons c es ih =>
    rw [List.foldlM_cons, List.foldlM_cons, Except.bind_eq_ok, Except.bind_eq_ok]
    constructor
    · rintro ⟨next, hnext, hrest⟩
      obtain ⟨hnext, hwithin⟩ := (read_bounded hb h).mp hnext
      obtain ⟨hrest, hr'⟩ := (ih (read_between hb hnext) hwithin).mp hrest
      exact ⟨⟨next, hnext, hrest⟩, hr'⟩
    · rintro ⟨⟨next, hnext, hrest⟩, hr'⟩
      have hbetween := read_between hb hnext
      have hwithin := foldlM_within hbetween hrest hr'
      exact ⟨next, (read_bounded hb h).mpr ⟨hnext, hwithin⟩, (ih hbetween hwithin).mpr ⟨hrest, hr'⟩⟩

/-- Where a line ends, so does the record, or a quoted field goes on. -/
def Reader.Ended (r : Reader) : Prop :=
  r.field = [] ∧ r.fields = [] ∧ r.mode = .startRecord ∨ r.mode = .inQuotedField

theorem start_ended : Reader.start.Ended := .inl ⟨rfl, rfl, rfl⟩

theorem read_none_ended (h : r.read none none = .ok r') : r'.Ended := by
  obtain ⟨acted, hact, rfl⟩ := read_eq_ok_iff.mp h
  have hmode : acted.mode = .startRecord ∨ acted.mode = .inQuotedField := by
    cases hm : r.mode <;> rw [hm] at hact <;> cases hact <;> simp
  obtain hmode | hmode := hmode
  · left
    simp [Reader.endLine, hmode]
  · right
    simp [Reader.endLine, hmode]

theorem foldlM_ended {lines : List Text} (h : r.Ended)
    (hread : (lines.flatMap lineEvents).foldlM (Reader.read none) r = .ok r') : r'.Ended := by
  induction lines generalizing r with
  | nil =>
    cases hread
    exact h
  | cons line lines ih =>
    rw [List.flatMap_cons, lineEvents, List.append_assoc, List.foldlM_append,
      Except.bind_eq_ok] at hread
    obtain ⟨before, -, hread⟩ := hread
    rw [List.singleton_append, List.foldlM_cons, Except.bind_eq_ok] at hread
    obtain ⟨ended, hended, hread⟩ := hread
    exact ih (read_none_ended hended) hread

theorem within_iff_finish (h : r.Ended) :
    r.Within limit ↔ ∀ row ∈ r.finish, ∀ f ∈ row, f.length ≤ limit := by
  unfold Reader.finish
  obtain ⟨hfield, hfields, hmode⟩ | hmode := h
  · rw [if_neg (by simp [hfield, hmode])]
    exact ⟨fun h => h.rows, fun h => ⟨by simp [hfield], by simp [hfields], h⟩⟩
  · rw [if_pos (.inr hmode)]
    constructor
    · rintro ⟨hfield, hfields, hrows⟩ row hrow f hf
      obtain hrow | hrow := List.mem_append.mp hrow
      · exact hrows row hrow f hf
      · rw [List.mem_singleton.mp hrow] at hf
        obtain hf | hf := List.mem_append.mp hf
        · exact hfields f hf
        · rw [List.mem_singleton.mp hf]
          exact hfield
    · intro h
      refine ⟨h (r.fields ++ [r.field]) (by simp) _ (by simp), fun f hf => ?_, fun row hrow => ?_⟩
      · exact h (r.fields ++ [r.field]) (by simp) f (by simp [hf])
      · exact h row (by simp [hrow])

/-- The bounded reader returns what the unbounded one does, where no field is too long. -/
theorem reader_bounded {text : Text} {rows : List (List Text)} :
    reader (some limit) text = .ok rows ↔
      reader none text = .ok rows ∧ ∀ row ∈ rows, ∀ f ∈ row, f.length ≤ limit := by
  let events := (Framing.lines 0x0A text).flatMap lineEvents
  have hfold (r : Reader) : events.foldlM (Reader.read (some limit)) .start = .ok r ↔
      events.foldlM (Reader.read none) .start = .ok r ∧ r.Within limit :=
    foldlM_bounded start_between start_within
  have hfinish {bound : Option Nat} : reader bound text = .ok rows ↔
      ∃ r, events.foldlM (Reader.read bound) .start = .ok r ∧ r.finish = rows := by
    show (match events.foldlM (Reader.read bound) .start with
      | .error e => .error e
      | .ok r => .ok r.finish) = Except.ok rows ↔ _
    cases events.foldlM (Reader.read bound) .start with
    | error e => simp
    | ok r => simp
  rw [hfinish, hfinish]
  constructor
  · rintro ⟨r, hr, rfl⟩
    obtain ⟨hr, hwithin⟩ := (hfold r).mp hr
    exact ⟨⟨r, hr, rfl⟩, (within_iff_finish (foldlM_ended start_ended hr)).mp hwithin⟩
  · rintro ⟨⟨r, hr, rfl⟩, hrows⟩
    have hwithin := (within_iff_finish (foldlM_ended start_ended hr)).mpr hrows
    exact ⟨r, (hfold r).mpr ⟨hr, hwithin⟩, rfl⟩

end Limit

section Newlines

variable {r : Reader}

/-- Only after a line end is a character refused. -/
theorem action_ne_refuse {m : Mode} {c : Option Nat} (h : m = .eatCrnl → ∀ d ∈ c, isLineEnd d) :
    action m c ≠ .refuse := by
  cases m with
  | eatCrnl =>
    cases c with
    | none => simp [action]
    | some d => simp [action, h rfl d rfl]
  | startRecord | startField | inField | inQuotedField | quoteInQuotedField =>
    cases c <;> simp only [action, actionStartField] <;> (repeat' split) <;> simp

/-- Only a line end leads there. -/
theorem act_mode {r' : Reader} {c : Nat} (hc : isLineEnd c = false) (hr : r.mode ≠ .eatCrnl)
    (h : r.act none (action r.mode (some c)) = .ok r') : r'.mode ≠ .eatCrnl := by
  cases hm : r.mode with
  | eatCrnl => exact absurd hm hr
  | startRecord | startField | inField | inQuotedField | quoteInQuotedField =>
    rw [hm] at h
    simp only [action, actionStartField, hc, Bool.false_eq_true, if_false] at h
    (repeat' split at h) <;> cases h <;> simp

theorem act_ok {a : Action} (h : a ≠ .refuse) : ∃ r', r.act none a = .ok r' := by
  cases a with
  | refuse => exact absurd rfl h
  | go mode => exact ⟨_, rfl⟩
  | save mode => exact ⟨_, rfl⟩
  | add c mode => exact ⟨_, rfl⟩

theorem read_ok {c : Option Nat} (h : r.mode = .eatCrnl → ∀ d ∈ c, isLineEnd d) :
    ∃ r', r.read none c = .ok r' := by
  obtain ⟨acted, hact⟩ := act_ok (r := r) (action_ne_refuse h)
  exact ⟨_, read_eq_ok_iff.mpr ⟨acted, hact, rfl⟩⟩

/-- The characters of a line before its end. -/
theorem foldlM_body {body : Text} (hbody : ∀ c ∈ body, isLineEnd c = false)
    (hr : r.mode ≠ .eatCrnl) :
    ∃ r', (body.map some).foldlM (Reader.read none) r = .ok r' ∧ r'.mode ≠ .eatCrnl := by
  induction body generalizing r with
  | nil => exact ⟨r, rfl, hr⟩
  | cons c body ih =>
    rw [List.forall_mem_cons] at hbody
    obtain ⟨next, hnext⟩ := read_ok (c := some c) fun h => absurd h hr
    obtain ⟨acted, hact, hacted⟩ := read_eq_ok_iff.mp hnext
    cases hacted
    obtain ⟨r', hr', hmode⟩ := ih hbody.2 (act_mode hbody.1 hr hact)
    refine ⟨r', ?_, hmode⟩
    rw [List.map_cons, List.foldlM_cons, Except.bind_eq_ok]
    exact ⟨_, hnext, hr'⟩

/-- A line without carriage returns is read. -/
theorem foldlM_line {line : Text} (hr : r.Ended)
    (hline : ∃ body, (line = body ∨ line = body ++ [0x0A]) ∧ ∀ c ∈ body, isLineEnd c = false) :
    ∃ r', (lineEvents line).foldlM (Reader.read none) r = .ok r' ∧ r'.Ended := by
  have hmode : r.mode ≠ .eatCrnl := by
    rcases hr with ⟨-, -, hmode⟩ | hmode <;> simp [hmode]
  obtain ⟨body, hline, hbody⟩ := hline
  obtain ⟨before, hbefore, hmode⟩ := foldlM_body hbody hmode
  have hterminated : ∃ last, (line.map some).foldlM (Reader.read none) r = .ok last := by
    obtain rfl | rfl := hline
    · exact ⟨before, hbefore⟩
    · obtain ⟨last, hlast⟩ := read_ok (r := before) (c := some 0x0A) fun h => absurd h hmode
      refine ⟨last, ?_⟩
      rw [List.map_append, List.foldlM_append, Except.bind_eq_ok]
      exact ⟨before, hbefore, by simp [hlast]⟩
  obtain ⟨last, hlast⟩ := hterminated
  obtain ⟨r', hr'⟩ := read_ok (r := last) (c := none) (by simp)
  refine ⟨r', ?_, read_none_ended hr'⟩
  rw [lineEvents, List.foldlM_append, Except.bind_eq_ok]
  exact ⟨last, hlast, by simp [hr']⟩

theorem foldlM_lines {lines : List Text} (hr : r.Ended)
    (hlines : ∀ line ∈ lines, ∃ body, (line = body ∨ line = body ++ [0x0A]) ∧
      ∀ c ∈ body, isLineEnd c = false) :
    ∃ r', (lines.flatMap lineEvents).foldlM (Reader.read none) r = .ok r' := by
  induction lines generalizing r with
  | nil => exact ⟨r, rfl⟩
  | cons line lines ih =>
    rw [List.forall_mem_cons] at hlines
    obtain ⟨next, hnext, hended⟩ := foldlM_line hr hlines.1
    obtain ⟨r', hr'⟩ := ih hended hlines.2
    refine ⟨r', ?_⟩
    rw [List.flatMap_cons, List.foldlM_append, Except.bind_eq_ok]
    exact ⟨next, hnext, hr'⟩

theorem line_body {text line : Text} (h : 0x0D ∉ text) (hline : line ∈ Framing.lines 0x0A text) :
    ∃ body, (line = body ∨ line = body ++ [0x0A]) ∧ ∀ c ∈ body, isLineEnd c = false := by
  have hsub : ∀ c ∈ line, c ≠ 0x0D := by
    rintro c hc rfl
    apply h
    rw [← Framing.flatten_whole_append_rest 0x0A text]
    rw [Framing.lines, List.mem_append] at hline
    obtain hline | hline := hline
    · exact List.mem_append_left _ (List.mem_flatten.mpr ⟨line, hline, hc⟩)
    · split at hline
      · cases hline
      · rw [List.mem_singleton.mp hline] at hc
        exact List.mem_append_right _ hc
  have hends {body : Text} (hbody : 0x0A ∉ body) (hin : ∀ c ∈ body, c ≠ 0x0D) :
      ∀ c ∈ body, isLineEnd c = false := by
    intro c hc
    rw [isLineEnd, Bool.or_eq_false_iff, beq_eq_false_iff_ne, beq_eq_false_iff_ne]
    exact ⟨fun hn => hbody (hn ▸ hc), hin c hc⟩
  rw [Framing.lines, List.mem_append] at hline
  obtain hline | hline := hline
  · obtain ⟨body, rfl, hbody⟩ := Framing.mem_whole hline
    exact ⟨body, .inr rfl, hends hbody fun c hc => hsub c (List.mem_append_left _ hc)⟩
  · split at hline
    · cases hline
    · rw [List.mem_singleton.mp hline] at hsub ⊢
      exact ⟨_, .inl rfl, hends (Framing.not_mem_rest text) hsub⟩

/-- Where newlines are translated, nothing but the limit stops the reader. -/
theorem reader_unbounded {text : Text} (h : 0x0D ∉ text) : ∃ rows, reader none text = .ok rows := by
  obtain ⟨r, hr⟩ := foldlM_lines start_ended fun line hline => line_body h hline
  exact ⟨r.finish, by rw [reader, hr]⟩

/-- The reader gets through when no field it finds is longer than the limit. -/
theorem dictReader_eq_ok_iff {text : Text} (h : 0x0D ∉ text) :
    (∃ rows, dictReader text = .ok rows) ↔
      ∀ rows, reader none text = .ok rows → ∀ row ∈ rows, ∀ f ∈ row, f.length ≤ fieldSizeLimit := by
  obtain ⟨rows, hrows⟩ := reader_unbounded h
  have hdict : (∃ dicts, dictReader text = .ok dicts) ↔
      ∃ rows, reader (some fieldSizeLimit) text = .ok rows := by
    unfold dictReader
    split
    · next e he => simp [he]
    · next bounded hbounded => simp [hbounded]
  rw [hdict]
  constructor
  · rintro ⟨bounded, hbounded⟩ rows' hrows'
    obtain ⟨hreader, hlimit⟩ := reader_bounded.mp hbounded
    cases hreader.symm.trans hrows'
    exact hlimit
  · intro hlimit
    exact ⟨rows, reader_bounded.mpr ⟨hrows, hlimit rows hrows⟩⟩

example : (dictReader (Json.ascii "a,b\n\n\"1,\n\"\"\",2,3\n4")).toOption = some
    [⟨[(Json.ascii "a", some (Json.ascii "1,\n\"")), (Json.ascii "b", some (Json.ascii "2"))],
      some [Json.ascii "3"]⟩,
     ⟨[(Json.ascii "a", some (Json.ascii "4")), (Json.ascii "b", none)], none⟩] := by
  decide +kernel

end Newlines

end Python.Csv
