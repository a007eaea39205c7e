import FlightTestLab.Learning.Bounds
import FlightTestLab.Library.Replace
import FlightTestLab.Library.Runs

/-!
# Restarting the store

The store saves by writing a temporary file and renaming it, and a process may be
killed at any point. The next process loads the file. Nothing but the loader bounds
the counters, so a restart restores what was saved exactly as long as no call counts
beyond that bound.

## Main definitions

- `Learning.Platform`: what of the interpreter and its files the store relies on
- `Learning.Machine`: the process, the files, and what the last completed save wrote
- `Learning.Machine.step`: a call, or a kill at some point of a call and a restart
- `Learning.Machine.Inverts`: `json.loads` undoes `json.dumps` on what a call saves

## Main results

- `Learning.restart_restores`: while the calls fit, a restart restores what was saved last
- `Learning.saved_file_reset`: after too many calls the store resets its own file
-/

namespace Learning

open Json (Text ascii)
open Python (Value Error FloatOps Decoder)
open Replace (Disk Cut)

variable {F : Type}

section Files

/-- How text files end a line. -/
inductive Newline
  | lf
  | crlf
  deriving DecidableEq, Repr

def Newline.text : Newline → Text
  | .lf => [0x0A]
  | .crlf => [0x0D, 0x0A]

/-- `write_text(text, encoding="utf-8")`: the bytes of the file. -/
def Newline.encode (newline : Newline) (text : Text) : List Nat :=
  Utf8.encodeAll (text.flatMap fun c => if c = 0x0A then newline.text else [c])

theorem translateNewlines_cons {c : Nat} (h : c ≠ 0x0D) (s : Text) :
    translateNewlines (c :: s) = c :: translateNewlines s := by
  rw [translateNewlines]
  · intro rest hc
    exact absurd hc h
  · exact h

/-- Reading a text file undoes writing it. -/
theorem readJson_encode (decode : Text → Except Error (Value F)) (newline : Newline) {text : Text}
    (h : Python.Lines text) : readJson decode (newline.encode text) = decode text := by
  have hascii : ∀ b ∈ text.flatMap (fun c => if c = 0x0A then newline.text else [c]), b < 0x80 := by
    intro b hb
    obtain ⟨c, hc, hb⟩ := List.mem_flatMap.mp hb
    have hline := h c hc
    split_ifs at hb with hlf
    · cases newline with
      | lf =>
        rw [List.mem_singleton.mp hb]
        omega
      | crlf =>
        obtain rfl | hb := List.mem_cons.mp hb
        · omega
        · rw [List.mem_singleton.mp hb]
          omega
    · rw [List.mem_singleton.mp hb]
      omega
  have htranslate : translateNewlines
      (text.flatMap fun c => if c = 0x0A then newline.text else [c]) = text := by
    clear hascii
    induction text with
    | nil => rfl
    | cons c text ih =>
      obtain ⟨hc, htext⟩ := Python.lines_cons.mp h
      rw [List.flatMap_cons]
      by_cases hlf : c = 0x0A
      · rw [if_pos hlf, hlf]
        cases newline with
        | lf => exact (translateNewlines_cons (by decide) _).trans (congrArg (0x0A :: ·) (ih htext))
        | crlf => exact congrArg (0x0A :: ·) (ih htext)
      · rw [if_neg hlf, List.singleton_append, translateNewlines_cons (by omega), ih htext]
  rw [readJson, Newline.encode, Utf8.encodeAll_ascii hascii, Utf8.decodeStrict_ascii hascii]
  exact congrArg decode htranslate

end Files

section Model

/-- What of the interpreter and its files the store relies on. -/
structure Platform (F : Type) where
  floats : FloatOps F
  decoder : Decoder F
  newline : Newline

variable (P : Platform F)

/-- `json.dumps(state, indent=2, sort_keys=True)` -/
def Platform.dumps (s : State F) : Text := Python.dumpsIndented P.floats 0 s.toValue

/-- The bytes that `_save_locked` writes. -/
def Platform.bytes (s : State F) : List Nat := P.newline.encode (P.dumps s)

/-- `_load` -/
def Platform.load (file : Option (List Nat)) : State F × Bool :=
  Learning.load P.floats (Python.loads P.decoder) file

/-- The process that holds the store, and the files. -/
structure Machine (F : Type) where
  pid : Nat
  memory : State F
  disk : Disk Nat Nat
  /-- What the last completed save wrote. -/
  saved : State F
  /-- Whether the store was backed up and reset. -/
  reset : Bool

/-- A call that returns, or during which the process is killed and another takes over. -/
inductive Event (F : Type)
  | call (clock : Clock) (call : Call F)
  | kill (clock : Clock) (call : Call F) (cut : Cut) (pid : Nat)

/-- A hint that is asked for is one of the lesson's own. -/
def Event.HintsWithin (hints : Text → Nat) : Event F → Prop
  | .call _ (.recordHint lessonId index) => index < hints lessonId
  | .kill _ (.recordHint lessonId index) _ _ => index < hints lessonId
  | _ => True

namespace Machine

/-- An empty store on a path where there is no file. -/
def start (pid : Nat) : Machine F where
  pid := pid
  memory := .initial
  disk := .empty
  saved := .initial
  reset := false

/-- `_save_locked`, up to a point. -/
def save (m : Machine F) (s : State F) (cut : Cut) : Machine F :=
  { m with
    disk := m.disk.replace m.pid (P.bytes s) cut
    saved := if cut = .renamed then s else m.saved }

/-- Another process constructs a store on the path. -/
def restart (m : Machine F) (pid : Nat) : Machine F :=
  { m with
    pid
    memory := (P.load m.disk.file).1
    reset := m.reset || (P.load m.disk.file).2 }

/-- A call saves at its end, if at all. In runs from an empty store none that changes the state
raises. -/
def step (m : Machine F) : Event F → Machine F
  | .call clock call =>
    match perform P.floats clock m.memory call with
    | .error _ => m
    | .ok effect =>
      let m := if effect.saved then m.save P effect.state .renamed else m
      { m with memory := effect.state }
  | .kill clock call cut pid =>
    match perform P.floats clock m.memory call with
    | .error _ => m.restart P pid
    | .ok effect => (if effect.saved then m.save P effect.state cut else m).restart P pid

/-- The call counts nothing beyond the bound, unless it is killed before its save is done. -/
def Fits (m : Machine F) : Event F → Prop
  | .call _ call => call.Fits m.memory
  | .kill _ call cut _ => cut = .renamed → call.Fits m.memory

/-- `json.loads` undoes `json.dumps` on what a call saves. -/
def CallInverts (m : Machine F) (clock : Clock) (call : Call F) : Prop :=
  ∀ effect, perform P.floats clock m.memory call = .ok effect → effect.saved = true →
    Python.loads P.decoder (P.dumps effect.state) = .ok effect.state.toValue

def Inverts (m : Machine F) : Event F → Prop
  | .call clock call => m.CallInverts P clock call
  | .kill clock call cut _ => cut = .renamed → m.CallInverts P clock call

end Machine

end Model

section Restoring

variable {P : Platform F}

/-- A call on the state of a ledger. The calls that raise only read. -/
theorem perform_ledger (fl : FloatOps F) (clock : Clock) (a : Ledger) (call : Call F) :
    (∃ saved done, perform fl clock a.state call =
        .ok ⟨(a.apply clock done call).state, saved, done⟩ ∧
      (saved = false → a.apply clock done call = a)) ∨
    ∃ e, perform fl clock a.state call = .error e := by
  by_cases hallowed : call.Allowed
  · obtain ⟨saved, done, hperform, hsame, -⟩ := perform_state fl clock a call hallowed
    exact .inl ⟨saved, done, hperform, hsame⟩
  · cases call with
    | resumeLessonId c =>
      rw [perform]
      cases resumeLessonId fl a.state c with
      | error e => exact .inr ⟨e, rfl⟩
      | ok id => exact .inl ⟨false, false, rfl, fun _ => rfl⟩
    | _ => exact absurd trivial hallowed

/-- The loader takes the file that a save of a bounded ledger leaves. -/
theorem load_bytes {texts : Text → Prop} (hkeys : ∀ k ∈ savedKeys, texts k) {a : Ledger}
    (h : a.Bounded) (hamong : a.Among texts)
    (hinverts : Python.loads P.decoder (P.dumps a.state) = .ok a.state.toValue) :
    P.load (some (P.bytes a.state)) = (a.state, false) := by
  have hcanonical : (a.state.toValue : Value F).Canonical (fun _ => True) texts :=
    canonical_toValue trivial (fun _ _ => trivial) hkeys h hamong
  have hlines : Python.Lines (P.dumps a.state) := Python.lines_dumpsIndented _ _ _ hcanonical
  rw [Platform.load, load, Platform.bytes, readJson_encode _ _ hlines, hinverts]
  dsimp only
  rw [ofValue_toValue P.floats h]

/-- The store holds a bounded ledger, which is what was saved last and what the file loads as. -/
structure Machine.Keeps (P : Platform F) (texts : Text → Prop) (m : Machine F) (a : Ledger) :
    Prop where
  bounded : a.Bounded
  among : a.Among texts
  memory : m.memory = a.state
  saved : m.saved = a.state
  file : P.load m.disk.file = (a.state, false)
  reset : m.reset = false

def Machine.Kept (P : Platform F) (texts : Text → Prop) (m : Machine F) : Prop :=
  ∃ a, m.Keeps P texts a

variable {texts : Text → Prop} {m : Machine F} {a : Ledger}

theorem keeps_start (P : Platform F) (texts : Text → Prop) (pid : Nat) :
    (Machine.start pid : Machine F).Keeps P texts .empty where
  bounded := Ledger.bounded_empty
  among := Ledger.among_empty texts
  memory := rfl
  saved := rfl
  file := rfl
  reset := rfl

/-- A restart restores what was saved last. -/
theorem Machine.Keeps.restart (h : m.Keeps P texts a) (pid : Nat) :
    (m.restart P pid).Keeps P texts a := by
  refine ⟨h.bounded, h.among, ?_, h.saved, h.file, ?_⟩
  · show (P.load m.disk.file).1 = _
    rw [h.file]
  · show (m.reset || (P.load m.disk.file).2) = false
    rw [h.reset, h.file]
    rfl

/-- Up to its renaming a save changes nothing that a restart would see. -/
theorem Machine.Keeps.cut (h : m.Keeps P texts a) (s : State F) {cut : Cut}
    (hcut : cut ≠ .renamed) : (m.save P s cut).Keeps P texts a := by
  refine ⟨h.bounded, h.among, h.memory, ?_, ?_, h.reset⟩
  · show (if cut = .renamed then s else m.saved) = _
    rw [if_neg hcut, h.saved]
  · show P.load (m.disk.replace m.pid (P.bytes s) cut).file = _
    rw [Replace.file_replace, if_neg hcut, h.file]

/-- After the renaming the file is what was saved. -/
theorem Machine.Keeps.save (hkeys : ∀ k ∈ savedKeys, texts k) (h : m.Keeps P texts a)
    {b : Ledger} (hb : b.Bounded) (hamong : b.Among texts)
    (hinverts : Python.loads P.decoder (P.dumps b.state) = .ok b.state.toValue) :
    { m.save P b.state .renamed with memory := b.state }.Keeps P texts b := by
  refine ⟨hb, hamong, rfl, rfl, ?_, h.reset⟩
  show P.load (m.disk.replace m.pid (P.bytes b.state) .renamed).file = _
  rw [Replace.file_replace, if_pos rfl, load_bytes hkeys hb hamong hinverts]

/-- A call raises, or changes nothing, or saves a ledger that is bounded if the call fits. -/
theorem perform_cases (hfixed : ∀ s ∈ statuses, texts s) (h : m.Keeps P texts a) {clock : Clock}
    {call : Call F} (hclock : ∀ i, texts (clock i)) (hcall : call.Among texts) :
    (∃ e, perform P.floats clock m.memory call = .error e) ∨
    (∃ done, perform P.floats clock m.memory call = .ok ⟨m.memory, false, done⟩) ∨
    ∃ (b : Ledger) (done : Bool), perform P.floats clock m.memory call = .ok ⟨b.state, true, done⟩ ∧
      b.Among texts ∧ (call.Fits m.memory → b.Bounded) ∧
      (m.CallInverts P clock call →
        Python.loads P.decoder (P.dumps b.state) = .ok b.state.toValue) := by
  rw [Machine.CallInverts, h.memory]
  obtain ⟨saved, done, hperform, hsame⟩ | hraises := perform_ledger P.floats clock a call
  · cases saved with
    | true =>
      have hamong := apply_among hfixed h.among hclock done hcall
      have hbounded : call.Fits a.state → (a.apply clock done call).Bounded :=
        apply_bounded h.bounded clock done
      have hloads (hinverts : ∀ effect, perform P.floats clock a.state call = .ok effect →
          effect.saved = true →
            Python.loads P.decoder (P.dumps effect.state) = .ok effect.state.toValue) :=
        hinverts _ hperform rfl
      exact .inr (.inr ⟨a.apply clock done call, done, hperform, hamong, hbounded, hloads⟩)
    | false =>
      rw [hsame rfl] at hperform
      exact .inr (.inl ⟨done, hperform⟩)
  · exact .inl hraises

/-- The strings that an event brings in. -/
def Event.Among (texts : Text → Prop) : Event F → Prop
  | .call clock op => (∀ i, texts (clock i)) ∧ op.Among texts
  | .kill clock op _ _ => (∀ i, texts (clock i)) ∧ op.Among texts

/-- An event that fits leaves the store with a ledger that it can load. -/
theorem step_keeps (hkeys : ∀ k ∈ savedKeys, texts k) (hfixed : ∀ s ∈ statuses, texts s)
    (h : m.Keeps P texts a) {event : Event F} (hevent : event.Among texts)
    (hfits : m.Fits event) (hinverts : m.Inverts P event) : (m.step P event).Kept P texts := by
  cases event with
  | call clock call =>
    rw [Machine.step]
    rcases perform_cases hfixed h hevent.1 hevent.2 with
      ⟨e, hraises⟩ | ⟨done, hreads⟩ | ⟨b, done, hsaves, hamong, hbounded, hloads⟩
    · rw [hraises]
      exact ⟨a, h⟩
    · rw [hreads]
      exact ⟨a, h⟩
    · rw [hsaves]
      exact ⟨b, h.save hkeys (hbounded hfits) hamong (hloads hinverts)⟩
  | kill clock call cut pid =>
    rw [Machine.step]
    rcases perform_cases hfixed h hevent.1 hevent.2 with
      ⟨e, hraises⟩ | ⟨done, hreads⟩ | ⟨b, done, hsaves, hamong, hbounded, hloads⟩
    · rw [hraises]
      exact ⟨a, h.restart pid⟩
    · rw [hreads]
      exact ⟨a, h.restart pid⟩
    · rw [hsaves]
      by_cases hcut : cut = .renamed
      · subst hcut
        have hsave := h.save hkeys (hbounded (hfits rfl)) hamong (hloads (hinverts rfl))
        exact ⟨b, hsave.restart pid⟩
      · exact ⟨a, (h.cut b.state hcut).restart pid⟩

theorem Call.among_true (call : Call F) : call.Among fun _ => True := by
  cases call <;> simp [Call.Among]

theorem Event.among_true (event : Event F) : event.Among fun _ => True := by
  cases event with
  | call clock op => exact ⟨fun _ => trivial, op.among_true⟩
  | kill clock op cut pid => exact ⟨fun _ => trivial, op.among_true⟩

/-- While the calls fit, a store constructed on the path holds what the last completed save wrote,
and no store was ever reset. -/
theorem restart_restores (P : Platform F) (pid : Nat) {events : List (Event F)}
    (hinverts : Runs.Along (Machine.step P) (Machine.Inverts P) (.start pid) events)
    (hfits : Runs.Along (Machine.step P) Machine.Fits (.start pid) events) (pid' : Nat) :
    ((Runs.run (Machine.step P) (.start pid) events).restart P pid').memory =
        (Runs.run (Machine.step P) (.start pid) events).saved ∧
      ((Runs.run (Machine.step P) (.start pid) events).restart P pid').reset = false := by
  have hstart : (Machine.start pid).Kept P fun _ => True := ⟨.empty, keeps_start P _ pid⟩
  obtain ⟨a, h⟩ : (Runs.run (Machine.step P) (.start pid) events).Kept P fun _ => True := by
    apply (hinverts.and hfits).invariant hstart
    rintro m event ⟨hinverts, hfits⟩ ⟨a, h⟩
    exact step_keeps (fun _ _ => trivial) (fun _ _ => trivial) h event.among_true hfits hinverts
  have hrestart := h.restart pid'
  exact ⟨hrestart.memory.trans h.saved.symm, hrestart.reset⟩

end Restoring

section Inverting

/-- What the interpreter does on files that the store writes: it builds a `dict` from all pairs,
takes small integers and does not give up on flat nesting. -/
structure Platform.Reads (P : Platform F) (p : Nat → Prop) : Prop where
  pairs : P.decoder.objectPairs = Python.dictOfPairs
  version : P.decoder.Takes stateVersion
  counts : ∀ n, p n → P.decoder.Takes (n : Int)
  nesting : ∀ t : Json.Tree, t.depth ≤ 6 → P.decoder.overflows t = false

variable {P : Platform F} {p : Nat → Prop}

theorem savedKeys_loadable : ∀ k ∈ savedKeys, Python.LoadableText k := by
  have hascii : ∀ k ∈ savedKeys, ∀ c ∈ k, c < 0x80 := by decide
  exact fun k hk => Python.loadable_ascii (hascii k hk)

theorem statuses_loadable : ∀ s ∈ statuses, Python.LoadableText s := by
  have hascii : ∀ s ∈ statuses, ∀ c ∈ s, c < 0x80 := by decide
  exact fun s hs => Python.loadable_ascii (hascii s hs)

/-- `json.loads` undoes `json.dumps` on the state of a ledger. -/
theorem loads_dumps (hP : P.Reads p) {a : Ledger} (hc : a.Counts p)
    (hamong : a.Among Python.LoadableText) :
    Python.loads P.decoder (P.dumps a.state) = .ok a.state.toValue := by
  apply Python.loads_dumpsIndented hP.pairs
  · exact canonical_toValue hP.version hP.counts savedKeys_loadable hc hamong
  · intro t ht
    exact hP.nesting t (ht.trans (depth_toValue a))

/-- A call on a ledger whose strings can be loaded saves what can be loaded, when it counts no
further than the interpreter reads. -/
theorem inverts_of_reads (hP : P.Reads p) {m : Machine F} {a : Ledger} (hm : m.memory = a.state)
    (hamong : a.Among Python.LoadableText) {clock : Clock} {call : Call F}
    (hclock : ∀ i, Python.LoadableText (clock i)) (hcall : call.Among Python.LoadableText)
    (hcounts : ∀ done, (a.apply clock done call).Counts p) : m.CallInverts P clock call := by
  intro effect heffect hsaved
  rw [hm] at heffect
  obtain ⟨saved, done, hperform, -⟩ | ⟨e, hraises⟩ := perform_ledger P.floats clock a call
  · obtain rfl := Except.ok.inj (hperform.symm.trans heffect)
    exact loads_dumps hP (hcounts done) (apply_among statuses_loadable hamong hclock done hcall)
  · cases hraises.symm.trans heffect

/-- In a run of calls that fit, with strings that can be loaded, `json.loads` undoes `json.dumps`
on all that is saved. -/
theorem along_inverts (hP : P.Reads (· ≤ maxCounter)) (pid : Nat) {events : List (Event F)}
    (hevents : ∀ event ∈ events, event.Among Python.LoadableText)
    (hfits : Runs.Along (Machine.step P) Machine.Fits (.start pid) events) :
    Runs.Along (Machine.step P) (Machine.Inverts P) (.start pid) events := by
  have hstart : (Machine.start pid).Kept P Python.LoadableText := ⟨.empty, keeps_start P _ pid⟩
  apply (hfits.and (Runs.Along.of_forall hevents)).imp hstart
  rintro m event ⟨hfits, hevent⟩ ⟨a, h⟩
  have hcall {clock : Clock} {call : Call F} (hclock : ∀ i, Python.LoadableText (clock i))
      (hcall : call.Among Python.LoadableText) (hfits : call.Fits m.memory) :
      m.CallInverts P clock call := by
    apply inverts_of_reads hP h.memory h.among hclock hcall
    intro done
    rw [h.memory] at hfits
    exact apply_bounded h.bounded clock done hfits
  have hinverts : m.Inverts P event := by
    cases event with
    | call clock op => exact hcall hevent.1 hevent.2 hfits
    | kill clock op cut pid => exact fun hcut => hcall hevent.1 hevent.2 (hfits hcut)
  exact ⟨hinverts, step_keeps savedKeys_loadable statuses_loadable h hevent hfits hinverts⟩

end Inverting

section Sample

/-- An interpreter that reads every integer and every nesting. -/
def samplePlatform : Platform Text where
  floats := .tokens
  decoder :=
    { floats := .tokens
      overflows := fun _ => false
      parseInt := fun token => .ok (Json.ofToken token)
      objectPairs := Python.dictOfPairs }
  newline := .lf

theorem samplePlatform_reads (p : Nat → Prop) : samplePlatform.Reads p where
  pairs := rfl
  version := rfl
  counts n _ := congrArg Except.ok (Json.ofToken_decimal n)
  nesting _ _ := rfl

def sampleClock : Clock := fun _ => ascii "2026-01-01T00:00:00+00:00"

theorem sampleClock_loadable (i : Nat) : Python.LoadableText (sampleClock i) := by
  apply Python.loadable_ascii
  show ∀ c ∈ ascii "2026-01-01T00:00:00+00:00", c < 0x80
  decide

/-- A start, a save that is killed while it writes, and one that is killed when it has renamed. -/
def killEvents : List (Event Text) :=
  [.call sampleClock (.markStarted (ascii "z")),
    .kill sampleClock (.recordStep (ascii "z") (ascii "b")) (.writing 7) 1,
    .kill sampleClock (.recordHint (ascii "z") 0) .renamed 2]

theorem killEvents_among : ∀ event ∈ killEvents, event.Among Python.LoadableText := by
  have hz : Python.LoadableText (ascii "z") := Python.loadable_ascii (by decide)
  have hb : Python.LoadableText (ascii "b") := Python.loadable_ascii (by decide)
  simp only [killEvents, List.forall_mem_cons]
  exact ⟨⟨sampleClock_loadable, hz⟩, ⟨sampleClock_loadable, hz, hb⟩, ⟨sampleClock_loadable, hz⟩,
    by simp⟩

theorem killEvents_fit :
    Runs.Along (Machine.step samplePlatform) Machine.Fits (.start 0) killEvents := by
  have hstart : (Call.markStarted (ascii "z")).Fits (State.initial : State Text) :=
    ⟨by decide, fun _ => by decide⟩
  have hcut : (Cut.writing 7) ≠ .renamed := by decide
  have hhint : 0 < maxCounter := by decide
  exact ⟨hstart, fun h => absurd h hcut, fun _ => hhint, trivial⟩

theorem restart_restores_sample :
    ((Runs.run (Machine.step samplePlatform) (.start 0) killEvents).restart samplePlatform
        3).memory = (Runs.run (Machine.step samplePlatform) (.start 0) killEvents).saved ∧
      ((Runs.run (Machine.step samplePlatform) (.start 0) killEvents).restart samplePlatform
        3).reset = false :=
  restart_restores samplePlatform 0
    (along_inverts (samplePlatform_reads _) 0 killEvents_among killEvents_fit)
    killEvents_fit 3

end Sample

section Overrun

/-- The standing of a lesson that is entered again and again. -/
def startedStanding (n : Nat) : Standing :=
  { Standing.fresh with
    status := inProgress
    startedAt := some (sampleClock 0)
    attempts := n + 1 }

def startedLedger (n : Nat) : Ledger :=
  { Ledger.empty with
    lastLessonId := some (ascii "z")
    lessons := Dict.empty.insert (ascii "z") (startedStanding n) }

/-- The event of entering the lesson. -/
def startEvent : Event Text := .call sampleClock (.markStarted (ascii "z"))

theorem markStarted_empty :
    Ledger.empty.markStarted sampleClock (ascii "z") = startedLedger 0 := rfl

theorem markStarted_started (n : Nat) :
    (startedLedger n).markStarted sampleClock (ascii "z") = startedLedger (n + 1) := by
  have hlesson : (startedLedger n).lesson (ascii "z") = startedStanding n := rfl
  have hstart (total : Nat) :
      (startedStanding n).start (sampleClock 0) total = startedStanding (n + 1) := rfl
  rw [Ledger.markStarted, hlesson, hstart]
  rfl

theorem step_start {m : Machine Text} {a : Ledger} (hm : m.memory = a.state) :
    m.step samplePlatform startEvent =
      { m.save samplePlatform (a.markStarted sampleClock (ascii "z")).state .renamed with
        memory := (a.markStarted sampleClock (ascii "z")).state } := by
  have hperform : perform samplePlatform.floats sampleClock m.memory (.markStarted (ascii "z")) =
      .ok ⟨(a.markStarted sampleClock (ascii "z")).state, true, false⟩ := by
    rw [hm, perform, markStarted_state]
    rfl
  rw [startEvent, Machine.step, hperform]
  rfl

theorem run_started (n : Nat) :
    (Runs.run (Machine.step samplePlatform) (.start 0)
        (List.replicate (n + 1) startEvent)).memory = (startedLedger n).state ∧
      (Runs.run (Machine.step samplePlatform) (.start 0)
        (List.replicate (n + 1) startEvent)).disk.file =
          some (samplePlatform.bytes (startedLedger n).state) := by
  induction n with
  | zero =>
    have hstep := step_start (m := .start 0) (a := .empty) rfl
    rw [markStarted_empty] at hstep
    show ((Machine.start 0).step samplePlatform startEvent).memory = _ ∧
      ((Machine.start 0).step samplePlatform startEvent).disk.file = _
    rw [hstep]
    exact ⟨rfl, rfl⟩
  | succ n ih =>
    rw [List.replicate_succ', Runs.run_append]
    have hstep := step_start ih.1
    rw [markStarted_started] at hstep
    rw [Runs.run_cons, hstep]
    refine ⟨rfl, ?_⟩
    show (Disk.replace _ _ _ .renamed).file = _
    rw [Replace.file_replace, if_pos rfl]

/-- A store that holds a ledger whose strings can be loaded. -/
def Machine.Holds (m : Machine Text) : Prop :=
  ∃ a : Ledger, m.memory = a.state ∧ a.Among Python.LoadableText

theorem among_z : (Call.markStarted (F := Text) (ascii "z")).Among Python.LoadableText :=
  Python.loadable_ascii (by decide)

theorem started_inverts (n : Nat) :
    Runs.Along (Machine.step samplePlatform) (Machine.Inverts samplePlatform) (.start 0)
      (List.replicate n startEvent) := by
  have hstart : (Machine.start 0).Holds := ⟨.empty, rfl, Ledger.among_empty _⟩
  have hevents : ∀ event ∈ List.replicate n startEvent, event = startEvent :=
    fun event h => List.eq_of_mem_replicate h
  apply (Runs.Along.of_forall hevents).imp hstart
  rintro m event rfl ⟨a, hm, hamong⟩
  constructor
  · exact inverts_of_reads (samplePlatform_reads fun _ => True) hm hamong sampleClock_loadable
      among_z fun _ => Ledger.counts_true _
  · rw [step_start hm]
    exact ⟨_, rfl, apply_among statuses_loadable hamong sampleClock_loadable false among_z⟩

theorem startedLedger_among (n : Nat) : (startedLedger n).Among Python.LoadableText := by
  induction n with
  | zero =>
    exact apply_among statuses_loadable (Ledger.among_empty _) sampleClock_loadable false among_z
  | succ n ih =>
    rw [← markStarted_started]
    exact apply_among statuses_loadable ih sampleClock_loadable false among_z

theorem load_overrun :
    samplePlatform.load (some (samplePlatform.bytes (startedLedger maxCounter).state)) =
      (.initial, true) := by
  have hamong := startedLedger_among maxCounter
  have hreads : samplePlatform.Reads fun _ => True := samplePlatform_reads _
  have hcounts := Ledger.counts_true (startedLedger maxCounter)
  have hlines : Python.Lines (samplePlatform.dumps (startedLedger maxCounter).state) :=
    Python.lines_dumpsIndented _ _ _ (canonical_toValue hreads.version hreads.counts
      savedKeys_loadable hcounts hamong)
  have hrefused :
      State.ofValue samplePlatform.floats (startedLedger maxCounter).state.toValue = none := rfl
  rw [Platform.load, load, Platform.bytes, readJson_encode _ _ hlines,
    loads_dumps hreads hcounts hamong]
  dsimp only
  rw [hrefused]

/-- After one start too many the store resets the file that it wrote itself. -/
theorem saved_file_reset :
    ¬ ∀ (P : Platform Text) (pid : Nat) (hints : Text → Nat) (events : List (Event Text)),
      (∀ event ∈ events, event.HintsWithin hints) →
      Runs.Along (Machine.step P) (Machine.Inverts P) (.start pid) events → ∀ pid',
        ((Runs.run (Machine.step P) (.start pid) events).restart P pid').memory =
            (Runs.run (Machine.step P) (.start pid) events).saved ∧
          ((Runs.run (Machine.step P) (.start pid) events).restart P pid').reset = false := by
  intro h
  have hhints : ∀ event ∈ List.replicate (maxCounter + 1) startEvent,
      event.HintsWithin fun _ => 0 := by
    intro event hevent
    rw [List.eq_of_mem_replicate hevent]
    exact trivial
  have hreset := (h samplePlatform 0 (fun _ => 0) _ hhints (started_inverts _) 1).2
  have hrestart (m : Machine Text) (hfile : m.disk.file =
      some (samplePlatform.bytes (startedLedger maxCounter).state)) :
      (m.restart samplePlatform 1).reset = true := by
    rw [Machine.restart, hfile, load_overrun]
    exact Bool.or_true _
  rw [hrestart _ (run_started maxCounter).2] at hreset
  cases hreset

end Overrun

end Learning
