import Mathlib.Data.Finset.Basic
import Mathlib.Logic.Function.Basic
import FlightTestLab.Learning.Ledger
import FlightTestLab.Library.Runs

/-!
# Validators and the shutdown of the learning server

The handlers of `/api/validate`, from the lock to `record_validation`, against a main
thread that sets `shutting_down` and then kills what `_ACTIVE` holds. A validator runs
one child, and validators, clients and children may fail or end at any moment.

## Main definitions

- `Learning.Shutdown.Point`: where a handler stands
- `Learning.Shutdown.Server`: the server with its children and the learner's record
- `Learning.Shutdown.step`: one step of a handler, of a child or of the main thread

## Main results

- `Learning.Shutdown.run_consistent`: how lock, `_ACTIVE` and children follow the handlers
-/

namespace Learning.Shutdown

open Json (Text)

/-- A request whose lesson and verify block are found. -/
structure Request where
  lessonId : Text
  blockId : Text
  mandatory : Bool
  historical : Bool
  /-- `lesson.concepts` -/
  concepts : List Text
  clock : Clock

/-- Where the handler of a request stands. From `testing` to `discarding` it is inside the
`with` of the lock, and inside the `try`. -/
inductive Point
  | absent
  | queued
  /-- About to test `shutting_down` before the run. -/
  | testing
  /-- Sending that the check was not started. -/
  | refusing
  | spawning
  | registering
  | waiting
  | unregistering
  /-- The rest of the validator. -/
  | finishing
  /-- About to test `shutting_down` after the run. -/
  | checking (passed : Bool)
  /-- Sending that the result was discarded. -/
  | discarding
  | recording (passed crashed : Bool)
  /-- Done, up to the response that follows a record. -/
  | answered
  deriving DecidableEq, Repr

def Point.critical : Point → Bool
  | .absent | .queued | .recording .. | .answered => false
  | _ => true

/-- The points whose calls are made inside the `try`. -/
def Point.guarded : Point → Bool
  | .refusing | .spawning | .finishing | .discarding => true
  | _ => false

theorem Point.guarded_iff {point : Point} :
    point.guarded = true ↔
      (point = .refusing ∨ point = .discarding) ∨ point = .spawning ∨ point = .finishing := by
  cases point <;> simp [guarded]

/-- What a call made by a handler comes to. -/
inductive Reply
  /-- The response is sent; the child is started. -/
  | done
  /-- The validator returns. -/
  | result (passed : Bool)
  | raised
  deriving DecidableEq, Repr

/-- The main thread in `_serve`: before `begin_shutdown`, before it copies `_ACTIVE`, with
the children it has still to look at, gone. -/
inductive Main
  | serving
  | stopping
  | sweeping (processes : Finset Nat)
  | exited
  deriving DecidableEq

/-- A call of `record_validation` by the handler of request `id`. -/
structure Record where
  id : Nat
  passed : Bool
  crashed : Bool
  deriving DecidableEq, Repr

/-- The process. Requests are numbered, and a child goes by the number of its request. -/
structure Server where
  point : Nat → Point
  lock : Option Nat
  shuttingDown : Bool
  /-- `_ACTIVE` -/
  active : Finset Nat
  /-- The children that run. -/
  running : Finset Nat
  main : Main
  progress : Ledger
  /-- The calls of `record_validation` so far, the latest first. -/
  records : List Record
  /-- The requests whose validator run was over before `begin_shutdown`. -/
  finished : Finset Nat

def Server.start (progress : Ledger) : Server where
  point := fun _ => .absent
  lock := none
  shuttingDown := false
  active := ∅
  running := ∅
  main := .serving
  progress := progress
  records := []
  finished := ∅

inductive Event
  | arrive (i : Nat)
  /-- The handler of a request takes its next step. -/
  | handler (i : Nat) (reply : Reply)
  /-- A child ends by itself. -/
  | childExits (i : Nat)
  /-- The main thread takes its next step; while it sweeps, with this child. -/
  | main (process : Nat)
  deriving DecidableEq, Repr

namespace Server

def goto (s : Server) (i : Nat) (point : Point) : Server :=
  { s with point := Function.update s.point i point }

/-- The end of the `with` block. -/
def release (s : Server) : Server := { s with lock := none }

/-- The end of `run_validator`. -/
def finish (s : Server) (i : Nat) : Server :=
  if s.shuttingDown then s else { s with finished := insert i s.finished }

/-- An exception inside the `try`: it leaves the `with` block for the `except` clause. -/
def crash (s : Server) (i : Nat) : Server := s.release.goto i (.recording false true)

/-- A refusal sent inside the `try`, and the `return` after it. -/
def refuse (s : Server) (i : Nat) (reply : Reply) : Server :=
  if reply = .raised then s.crash i else s.release.goto i .answered

/-- What `run_validator` comes to. -/
def validated (s : Server) (i : Nat) : Reply → Server
  | .done => s
  | .result passed => (s.finish i).goto i (.checking passed)
  | .raised => (s.finish i).crash i

end Server

variable (request : Nat → Request)

/-- `self.server.progress.record_validation(...)` -/
def Record.apply (r : Record) (progress : Ledger) : Ledger :=
  progress.recordValidation (request r.id).clock (request r.id).lessonId (request r.id).blockId
    r.passed (request r.id).mandatory (if r.crashed then [] else (request r.id).concepts)
    (request r.id).historical

namespace Server

def record (s : Server) (r : Record) : Server :=
  { s with progress := r.apply request s.progress, records := r :: s.records }

/-- The next step of a handler, given what the call it is in comes to. -/
def handle (s : Server) (i : Nat) (reply : Reply) : Server :=
  match s.point i with
  | .queued => if s.lock = none then { s with lock := some i }.goto i .testing else s
  | .testing => s.goto i (if s.shuttingDown then .refusing else .spawning)
  | .refusing => s.refuse i reply
  -- a validator can also come back without a child
  | .spawning =>
    if reply = .done then { s with running := insert i s.running }.goto i .registering
    else s.validated i reply
  | .registering => { s with active := insert i s.active }.goto i .waiting
  -- the wait is over when the child has ended or, out of time, is killed here
  | .waiting => { s with running := s.running.erase i }.goto i .unregistering
  | .unregistering => { s with active := s.active.erase i }.goto i .finishing
  | .finishing => s.validated i reply
  | .checking passed =>
    if s.shuttingDown then s.goto i .discarding
    else s.release.goto i (.recording passed false)
  | .discarding => s.refuse i reply
  | .recording passed crashed => (s.record request ⟨i, passed, crashed⟩).goto i .answered
  | .absent | .answered => s

/-- The next step of the main thread. The order in which it goes through its copy of
`_ACTIVE` is any. -/
def stop (s : Server) (process : Nat) : Server :=
  match s.main with
  | .serving => { s with shuttingDown := true, main := .stopping }
  | .stopping => { s with main := .sweeping s.active }
  | .sweeping processes =>
    if processes = ∅ then { s with main := .exited }
    else if process ∈ processes then { s with
      running := s.running.erase process
      main := .sweeping (processes.erase process) }
    else s
  | .exited => s

end Server

/-- One step. A child ends at any time; all else stops with the process. -/
def step (s : Server) : Event → Server
  | .childExits i => { s with running := s.running.erase i }
  | .arrive i =>
    if s.main ≠ .exited ∧ s.point i = .absent then s.goto i .queued else s
  | .handler i reply => if s.main ≠ .exited then s.handle request i reply else s
  | .main process => s.stop process

def run (progress : Ledger) (es : List Event) : Server :=
  Runs.run (step request) (.start progress) es

section Fields

variable (s : Server) (i j : Nat) (point : Point) (r : Record)

@[simp] theorem goto_point :
    (s.goto i point).point j = if j = i then point else s.point j :=
  Function.update_apply ..

@[simp] theorem goto_lock : (s.goto i point).lock = s.lock := rfl

@[simp] theorem goto_shuttingDown : (s.goto i point).shuttingDown = s.shuttingDown := rfl

@[simp] theorem goto_active : (s.goto i point).active = s.active := rfl

@[simp] theorem goto_running : (s.goto i point).running = s.running := rfl

@[simp] theorem goto_main : (s.goto i point).main = s.main := rfl

@[simp] theorem goto_records : (s.goto i point).records = s.records := rfl

@[simp] theorem goto_progress : (s.goto i point).progress = s.progress := rfl

@[simp] theorem goto_finished : (s.goto i point).finished = s.finished := rfl

end Fields

/-- Who is inside the `with` block holds the lock. -/
def LockHeld (s : Server) : Prop := ∀ i, (s.point i).critical = true → s.lock = some i

/-- `_ACTIVE` holds a child from its registration on, and a child that runs is about to be
registered or waited for. -/
structure Consistent (s : Server) : Prop where
  lock : LockHeld s
  active : ∀ i, i ∈ s.active ↔ s.point i = .waiting ∨ s.point i = .unregistering
  running : ∀ i ∈ s.running, s.point i = .registering ∨ s.point i = .waiting

variable {request} {s : Server} {i : Nat}

theorem LockHeld.holder (h : LockHeld s) {point : Point} (hp : s.point i = point)
    (hc : point.critical = true) : s.lock = some i := by
  apply h i
  rwa [hp]

theorem LockHeld.inside (h : LockHeld s) (hi : s.lock = some i) (point : Point) :
    LockHeld (s.goto i point) := by
  intro j hj
  rw [goto_point] at hj
  by_cases hji : j = i
  · rw [hji]
    exact hi
  · rw [if_neg hji] at hj
    exact h j hj

theorem LockHeld.away (h : LockHeld s) (i : Nat) {point : Point}
    (hc : point.critical = false) : LockHeld (s.goto i point) := by
  intro j hj
  rw [goto_point] at hj
  by_cases hji : j = i
  · rw [if_pos hji, hc] at hj
    cases hj
  · rw [if_neg hji] at hj
    exact h j hj

theorem LockHeld.outside (h : LockHeld s) (hi : s.lock = some i) {point : Point}
    (hc : point.critical = false) : LockHeld (s.release.goto i point) := by
  intro j hj
  rw [goto_point] at hj
  by_cases hji : j = i
  · rw [if_pos hji, hc] at hj
    cases hj
  · rw [if_neg hji] at hj
    have hj' : s.lock = some j := h j hj
    rw [hi] at hj'
    exact absurd (Option.some.inj hj').symm hji

theorem LockHeld.refuse (h : LockHeld s) (hi : s.lock = some i) (reply : Reply) :
    LockHeld (s.refuse i reply) := by
  rw [Server.refuse]
  split
  · exact h.outside hi rfl
  · exact h.outside hi rfl

theorem LockHeld.finish (h : LockHeld s) (i : Nat) : LockHeld (s.finish i) := by
  rw [Server.finish]
  split
  · exact h
  · exact h

theorem LockHeld.validated (h : LockHeld s) (hi : s.lock = some i) (reply : Reply) :
    LockHeld (s.validated i reply) := by
  have hfinish : (s.finish i).lock = some i := by
    rw [Server.finish]
    split <;> exact hi
  cases reply with
  | done => exact h
  | result passed => exact (h.finish i).inside hfinish _
  | raised => exact (h.finish i).outside hfinish rfl

theorem handle_lockHeld (h : LockHeld s) (i : Nat) (reply : Reply) :
    LockHeld (s.handle request i reply) := by
  rw [Server.handle.eq_def]
  cases hp : s.point i with
  | absent | answered => exact h
  | queued =>
    dsimp only
    split
    · rename_i hfree
      refine LockHeld.inside ?_ rfl _
      -- nobody is inside while the lock is free
      intro j hj
      have hj' := h j hj
      rw [hfree] at hj'
      cases hj'
    · exact h
  | testing => exact h.inside (h.holder hp rfl) _
  | refusing => exact h.refuse (h.holder hp rfl) reply
  | spawning =>
    dsimp only
    split
    · exact h.inside (h.holder hp rfl) _
    · exact h.validated (h.holder hp rfl) reply
  | registering => exact h.inside (h.holder hp rfl) _
  | waiting => exact h.inside (h.holder hp rfl) _
  | unregistering => exact h.inside (h.holder hp rfl) _
  | finishing => exact h.validated (h.holder hp rfl) reply
  | checking passed =>
    dsimp only
    split
    · exact h.inside (h.holder hp rfl) _
    · exact h.outside (h.holder hp rfl) rfl
  | discarding => exact h.refuse (h.holder hp rfl) reply
  | recording passed crashed =>
    have hrecord : LockHeld (s.record request ⟨i, passed, crashed⟩) := h
    exact hrecord.away i rfl

/-- The point to which a handler's step takes its request. -/
def Server.next (s : Server) (i : Nat) (reply : Reply) : Point :=
  match s.point i with
  | .queued => if s.lock = none then .testing else .queued
  | .testing => if s.shuttingDown then .refusing else .spawning
  | .refusing | .discarding => if reply = .raised then .recording false true else .answered
  | .spawning =>
    match reply with
    | .done => .registering
    | .result passed => .checking passed
    | .raised => .recording false true
  | .registering => .waiting
  | .waiting => .unregistering
  | .unregistering => .finishing
  | .finishing =>
    match reply with
    | .done => .finishing
    | .result passed => .checking passed
    | .raised => .recording false true
  | .checking passed => if s.shuttingDown then .discarding else .recording passed false
  | .recording .. => .answered
  | .absent => .absent
  | .answered => .answered

/-- `_ACTIVE` after a handler's step. -/
def Server.nextActive (s : Server) (i : Nat) : Finset Nat :=
  match s.point i with
  | .registering => insert i s.active
  | .unregistering => s.active.erase i
  | _ => s.active

/-- The children that run after a handler's step. -/
def Server.nextRunning (s : Server) (i : Nat) (reply : Reply) : Finset Nat :=
  match s.point i with
  | .spawning => if reply = .done then insert i s.running else s.running
  | .waiting => s.running.erase i
  | _ => s.running

/-- The runs over in time after a handler's step: none is added once the flag is set. -/
def Server.nextFinished (s : Server) (i : Nat) (reply : Reply) : Finset Nat :=
  if (s.point i = .spawning ∨ s.point i = .finishing) ∧ reply ≠ .done ∧ s.shuttingDown = false
  then insert i s.finished else s.finished

variable (request) in
/-- A handler's step writes the outcome it stands before, or nothing. -/
def Server.recorded (s : Server) (i : Nat) : Server :=
  match s.point i with
  | .recording passed crashed => s.record request ⟨i, passed, crashed⟩
  | _ => s

theorem goto_self {point : Point} (hp : s.point i = point) : s.goto i point = s := by
  rw [Server.goto, ← hp, Function.update_eq_self]

theorem finish_eq (s : Server) (i : Nat) :
    s.finish i = { s with
      finished := if s.shuttingDown = false then insert i s.finished else s.finished } := by
  rw [Server.finish]
  cases hflag : s.shuttingDown with
  | true => rw [if_pos rfl, if_neg Bool.noConfusion, ← hflag]
  | false => rw [if_neg Bool.noConfusion, if_pos rfl, ← hflag]

variable (request) in
/-- Everything that a handler's step does; each later fact about it is read off here. -/
theorem handle_eq (s : Server) (i : Nat) (reply : Reply) :
    ∃ lock, s.handle request i reply = Server.goto { s.recorded request i with
      lock := lock
      active := s.nextActive i
      running := s.nextRunning i reply
      finished := s.nextFinished i reply } i (s.next i reply) := by
  rw [Server.handle.eq_def, Server.recorded.eq_def, Server.nextActive.eq_def,
    Server.nextRunning.eq_def, Server.nextFinished, Server.next.eq_def]
  cases hp : s.point i with
  | absent | answered => exact ⟨s.lock, (goto_self hp).symm⟩
  | queued =>
    dsimp only
    split
    · exact ⟨some i, rfl⟩
    · exact ⟨s.lock, (goto_self hp).symm⟩
  | testing => exact ⟨s.lock, rfl⟩
  | refusing | discarding =>
    dsimp only
    rw [Server.refuse]
    split
    · exact ⟨none, rfl⟩
    · exact ⟨none, rfl⟩
  | spawning =>
    cases reply with
    | done => exact ⟨s.lock, rfl⟩
    | result passed =>
      refine ⟨s.lock, ?_⟩
      simp [Server.validated, finish_eq]
    | raised =>
      refine ⟨none, ?_⟩
      simp [Server.validated, Server.crash, Server.release, finish_eq]
  | registering => exact ⟨s.lock, rfl⟩
  | waiting => exact ⟨s.lock, rfl⟩
  | unregistering => exact ⟨s.lock, rfl⟩
  | finishing =>
    cases reply with
    | done => exact ⟨s.lock, (goto_self hp).symm⟩
    | result passed =>
      refine ⟨s.lock, ?_⟩
      simp [Server.validated, finish_eq]
    | raised =>
      refine ⟨none, ?_⟩
      simp [Server.validated, Server.crash, Server.release, finish_eq]
  | checking passed =>
    dsimp only
    split
    · exact ⟨s.lock, rfl⟩
    · exact ⟨none, rfl⟩
  | recording passed crashed => exact ⟨s.lock, rfl⟩

/-- What a handler's step leaves as it is: all that concerns other requests, the flag and
the main thread. -/
structure Local (i : Nat) (s s' : Server) : Prop where
  point : ∀ j ≠ i, s'.point j = s.point j
  active : ∀ j ≠ i, (j ∈ s'.active ↔ j ∈ s.active)
  running : ∀ j ≠ i, (j ∈ s'.running ↔ j ∈ s.running)
  finished : ∀ j ≠ i, (j ∈ s'.finished ↔ j ∈ s.finished)
  shuttingDown : s'.shuttingDown = s.shuttingDown
  main : s'.main = s.main

theorem recorded_shuttingDown : (s.recorded request i).shuttingDown = s.shuttingDown := by
  rw [Server.recorded.eq_def]
  split <;> rfl

theorem recorded_main : (s.recorded request i).main = s.main := by
  rw [Server.recorded.eq_def]
  split <;> rfl

theorem recorded_point : (s.recorded request i).point = s.point := by
  rw [Server.recorded.eq_def]
  split <;> rfl

theorem mem_nextActive_of_ne {j : Nat} (hj : j ≠ i) : j ∈ s.nextActive i ↔ j ∈ s.active := by
  rw [Server.nextActive.eq_def]
  split
  · rw [Finset.mem_insert, or_iff_right hj]
  · rw [Finset.mem_erase, and_iff_right hj]
  · rfl

theorem mem_nextRunning_of_ne {reply : Reply} {j : Nat} (hj : j ≠ i) :
    j ∈ s.nextRunning i reply ↔ j ∈ s.running := by
  rw [Server.nextRunning.eq_def]
  split
  · split
    · rw [Finset.mem_insert, or_iff_right hj]
    · rfl
  · rw [Finset.mem_erase, and_iff_right hj]
  · rfl

theorem mem_nextFinished_of_ne {reply : Reply} {j : Nat} (hj : j ≠ i) :
    j ∈ s.nextFinished i reply ↔ j ∈ s.finished := by
  rw [Server.nextFinished]
  split
  · rw [Finset.mem_insert, or_iff_right hj]
  · rfl

theorem handle_local (s : Server) (i : Nat) (reply : Reply) :
    Local i s (s.handle request i reply) := by
  obtain ⟨lock, hstep⟩ := handle_eq request s i reply
  rw [hstep]
  refine ⟨?_, fun j hj => mem_nextActive_of_ne hj, fun j hj => mem_nextRunning_of_ne hj,
    fun j hj => mem_nextFinished_of_ne hj, recorded_shuttingDown, recorded_main⟩
  intro j hj
  rw [goto_point, if_neg hj]
  exact congrFun recorded_point j

section Fields

variable (s : Server) (i : Nat) (reply : Reply)

theorem handle_point : (s.handle request i reply).point i = s.next i reply := by
  obtain ⟨lock, hstep⟩ := handle_eq request s i reply
  rw [hstep, goto_point, if_pos rfl]

theorem handle_active : (s.handle request i reply).active = s.nextActive i := by
  obtain ⟨lock, hstep⟩ := handle_eq request s i reply
  rw [hstep, goto_active]

theorem handle_running : (s.handle request i reply).running = s.nextRunning i reply := by
  obtain ⟨lock, hstep⟩ := handle_eq request s i reply
  rw [hstep, goto_running]

theorem handle_finished : (s.handle request i reply).finished = s.nextFinished i reply := by
  obtain ⟨lock, hstep⟩ := handle_eq request s i reply
  rw [hstep, goto_finished]

theorem handle_records :
    (s.handle request i reply).records = (s.recorded request i).records := by
  obtain ⟨lock, hstep⟩ := handle_eq request s i reply
  rw [hstep, goto_records]

theorem handle_progress :
    (s.handle request i reply).progress = (s.recorded request i).progress := by
  obtain ⟨lock, hstep⟩ := handle_eq request s i reply
  rw [hstep, goto_progress]

end Fields

/-- Only a flag that is set leads to a refusal. -/
theorem next_refusing {reply : Reply}
    (h : s.next i reply = .refusing ∨ s.next i reply = .discarding) :
    s.shuttingDown = true := by
  cases hp : s.point i <;> cases reply <;> grind [Server.next]

theorem next_spawning {reply : Reply} (h : s.next i reply = .spawning) :
    s.shuttingDown = false := by
  cases hp : s.point i <;> cases reply <;> grind [Server.next]

theorem next_checking {reply : Reply} {passed : Bool} (h : s.next i reply = .checking passed) :
    (s.point i = .spawning ∨ s.point i = .finishing) ∧ reply = .result passed := by
  cases hp : s.point i <;> cases reply <;> grind [Server.next]

/-- A handler comes to record by what is raised inside the `try`, or with the flag unset. -/
theorem next_recording {reply : Reply} {passed crashed : Bool}
    (h : s.next i reply = .recording passed crashed) :
    (s.point i).guarded = true ∧ reply = .raised ∨
      s.point i = .checking passed ∧ s.shuttingDown = false := by
  cases hp : s.point i <;> cases reply <;> grind [Server.next, Point.guarded]

theorem next_registering {reply : Reply} :
    s.next i reply = .registering ↔ s.point i = .spawning ∧ reply = .done := by
  cases hp : s.point i <;> cases reply <;> grind [Server.next]

theorem next_waiting {reply : Reply} : s.next i reply = .waiting ↔ s.point i = .registering := by
  cases hp : s.point i <;> cases reply <;> grind [Server.next]

theorem next_unregistering {reply : Reply} :
    s.next i reply = .unregistering ↔ s.point i = .waiting := by
  cases hp : s.point i <;> cases reply <;> grind [Server.next]

theorem mem_nextActive (h : Consistent s) (i : Nat) :
    i ∈ s.nextActive i ↔ s.point i = .registering ∨ s.point i = .waiting := by
  have hi := h.active i
  rw [Server.nextActive.eq_def]
  split
  · rename_i hp
    simp [hp]
  · rename_i hp
    simp [hp]
  · rename_i hregistering hunregistering
    rw [hi, or_iff_left hunregistering, or_iff_right hregistering]

theorem mem_nextRunning (h : Consistent s) {reply : Reply} (hi : i ∈ s.nextRunning i reply) :
    s.point i = .spawning ∧ reply = .done ∨ s.point i = .registering := by
  rw [Server.nextRunning.eq_def] at hi
  split at hi
  · rename_i hp
    split at hi
    · rename_i hreply
      exact .inl ⟨hp, hreply⟩
    · have hrun := h.running i hi
      simp [hp] at hrun
  · simp at hi
  · rename_i hwaiting
    exact .inr ((h.running i hi).resolve_right hwaiting)

theorem handle_consistent (h : Consistent s) (i : Nat) (reply : Reply) :
    Consistent (s.handle request i reply) where
  lock := handle_lockHeld h.lock i reply
  active := by
    intro j
    by_cases hj : j = i
    · subst hj
      rw [handle_active, handle_point, next_waiting, next_unregistering]
      exact mem_nextActive h j
    · have hlocal : Local i s (s.handle request i reply) := handle_local s i reply
      rw [hlocal.active j hj, hlocal.point j hj]
      exact h.active j
  running := by
    intro j hmem
    by_cases hj : j = i
    · subst hj
      rw [handle_running] at hmem
      rw [handle_point, next_waiting, next_registering]
      exact mem_nextRunning h hmem
    · have hlocal : Local i s (s.handle request i reply) := handle_local s i reply
      rw [hlocal.point j hj]
      exact h.running j ((hlocal.running j hj).mp hmem)

theorem stop_consistent (h : Consistent s) (process : Nat) : Consistent (s.stop process) := by
  rw [Server.stop.eq_def]
  split
  · exact ⟨h.lock, h.active, h.running⟩
  · exact ⟨h.lock, h.active, h.running⟩
  · split
    · exact ⟨h.lock, h.active, h.running⟩
    split
    · refine ⟨h.lock, h.active, ?_⟩
      intro i hi
      exact h.running i (Finset.mem_of_mem_erase hi)
    · exact h
  · exact h

theorem arrive_consistent (h : Consistent s) (hp : s.point i = .absent) :
    Consistent (s.goto i .queued) := by
  refine ⟨h.lock.away i rfl, ?_, ?_⟩
  · intro j
    rw [goto_active, h.active j, goto_point]
    by_cases hj : j = i
    · simp [hj, hp]
    · rw [if_neg hj]
  · intro j hj
    rw [goto_running] at hj
    have hrun := h.running j hj
    rw [goto_point, if_neg]
    · exact hrun
    · rintro rfl
      simp [hp] at hrun

theorem step_consistent (s : Server) (e : Event) (h : Consistent s) :
    Consistent (step request s e) := by
  cases e with
  | arrive i =>
    rw [step]
    split
    · rename_i hi
      exact arrive_consistent h hi.2
    · exact h
  | handler i reply =>
    rw [step]
    split
    · exact handle_consistent h i reply
    · exact h
  | childExits i =>
    refine ⟨h.lock, h.active, ?_⟩
    intro j hj
    exact h.running j (Finset.mem_of_mem_erase hj)
  | main process => exact stop_consistent h process

theorem start_consistent (progress : Ledger) : Consistent (.start progress) where
  lock := by
    intro i hi
    cases hi
  active := by
    intro i
    simp [Server.start]
  running := by
    intro i hi
    cases hi

theorem run_append (progress : Ledger) (es fs : List Event) :
    run request progress (es ++ fs) =
      Runs.run (step request) (run request progress es) fs :=
  Runs.run_append es fs

theorem run_consistent (progress : Ledger) (es : List Event) :
    Consistent (run request progress es) :=
  Runs.run_invariant (start_consistent progress) step_consistent es

/-- The request for a first lesson's mandatory check. -/
def sampleRequest (_ : Nat) : Request where
  lessonId := Json.ascii "d1-import-no-side-effects"
  blockId := Json.ascii "verify"
  mandatory := true
  historical := false
  concepts := []
  clock := fun _ => []

end Learning.Shutdown
