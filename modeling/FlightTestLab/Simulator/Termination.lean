import FlightTestLab.Library.Runs
import FlightTestLab.Library.Tickets
import FlightTestLab.Simulator.Handler

/-!
# The process-termination fault of the Python DUT

The handlers of all connections of a `ThreadingDutServer`, each in a thread of its own:
the locked increment of `request_count`, the comparison after it, the exit and the reply
are steps of their own, and any thread may take the next one.

## Main definitions

- `Simulator.Termination.Point`: where the handler of a connection stands
- `Simulator.Termination.Server`: the process
- `Simulator.Termination.step`: one step of a handler

## Main results

- `Simulator.Termination.step_move`: what a step does to the ordinals
- `Simulator.Termination.handler_alone`: undisturbed, these steps are `handleLine`
-/

namespace Simulator.Termination

open Json (ascii)

variable {F : Type}

/-- Where the handler of a connection stands. From `loading` to `releasing` it is inside
the `with` of `request_lock`. -/
inductive Point
  /-- In `readline`. -/
  | reading
  | measuring (line : List Nat)
  /-- Writing the answer to an over-long line. -/
  | refusing
  | acquiring (line : List Nat)
  /-- About to read `request_count` for the `+=`. -/
  | loading (line : List Nat)
  /-- About to write it back. -/
  | storing (line : List Nat) (requestCount : Nat)
  /-- About to read it again for `count`. -/
  | taking (line : List Nat)
  | releasing (line : List Nat) (count : Nat)
  | comparing (line : List Nat) (count : Nat)
  /-- In the branch of `os._exit`. -/
  | exiting (line : List Nat) (count : Nat)
  /-- The rest of the loop body. -/
  | replying (line : List Nat) (count : Option Nat)
  | closed
  deriving DecidableEq, Repr

def Point.critical : Point → Bool
  | .loading _ | .storing .. | .taking _ | .releasing .. => true
  | _ => false

/-- The line a handler works on with the ordinal it received. -/
def Point.holds : Point → Option (List Nat × Nat)
  | .releasing line count | .comparing line count | .exiting line count => some (line, count)
  | .replying line count => count.map (line, ·)
  | _ => none

/-- A request that was counted. -/
structure Request where
  connection : Nat
  line : List Nat
  ordinal : Nat
  deriving DecidableEq, Repr

/-- The process. Connections are numbered. -/
structure Server where
  point : Nat → Point
  /-- `request_lock` -/
  lock : Option Nat
  requestCount : Nat
  exited : Bool
  /-- What was written to each connection. -/
  written : Nat → List (List Nat)
  /-- The requests counted, the latest first. -/
  requests : List Request
  /-- The ordinals of the requests that got as far as their reply, the latest first. -/
  answered : List Nat

def Server.start : Server where
  point := fun _ => .reading
  lock := none
  requestCount := 0
  exited := false
  written := fun _ => []
  requests := []
  answered := []

inductive Event
  /-- `readline` returns a line to the handler of a connection. -/
  | line (i : Nat) (line : List Nat)
  /-- It returns nothing, or fails. -/
  | disconnect (i : Nat)
  /-- The handler takes its next step; a write in it may raise. -/
  | handler (i : Nat) (raised : Bool)
  deriving DecidableEq, Repr

namespace Server

def goto (s : Server) (i : Nat) (point : Point) : Server :=
  { s with point := Function.update s.point i point }

def write (s : Server) (i : Nat) (payload : List Nat) : Server :=
  { s with written := Function.update s.written i (s.written i ++ [payload]) }

/-- `self.wfile.write(...)` and what comes after it. -/
def send (s : Server) (i : Nat) (payload : List Nat) (raised : Bool) (next : Point) : Server :=
  if raised then s.goto i .closed else (s.write i payload).goto i next

/-- The loop body after the fault that exits. -/
def reply (I : Interpreter F) (faults : FaultConfig) (s : Server) (i : Nat) (line : List Nat)
    (raised : Bool) : Server :=
  if faults.dropConnection then s.goto i .closed
  else
    let response := respond I ((Utf8.decodeReplace line).rdropWhile isCrLf)
    if faults.malformedResponse then s.send i (ascii "this-is-not-json\n") raised .reading
    else s.send i (payload I response) raised .reading

/-- The next step of a handler. -/
def handle (I : Interpreter F) (faults : FaultConfig) (s : Server) (i : Nat) (raised : Bool) :
    Server :=
  match s.point i with
  | .reading | .closed => s
  | .measuring line =>
    if (line.rdropWhile isCrLf).length > maxLineBytes then s.goto i .refusing
    else if faults.exitAfterRequests.isSome then s.goto i (.acquiring line)
    else s.goto i (.replying line none)
  | .refusing => s.send i (payload I invalidJson) raised .closed
  | .acquiring line => if s.lock = none then { s with lock := some i }.goto i (.loading line) else s
  | .loading line => s.goto i (.storing line s.requestCount)
  | .storing line count => { s with requestCount := count + 1 }.goto i (.taking line)
  | .taking line =>
    { s with requests := ⟨i, line, s.requestCount⟩ :: s.requests }.goto i
      (.releasing line s.requestCount)
  | .releasing line count => { s with lock := none }.goto i (.comparing line count)
  | .comparing line count =>
    if faults.exitAfterRequests.any (· ≤ count) then s.goto i (.exiting line count)
    else s.goto i (.replying line (some count))
  | .exiting .. => { s with exited := true }
  | .replying line count =>
    { s with answered := count.toList ++ s.answered }.reply I faults i line raised

end Server

def step (I : Interpreter F) (faults : FaultConfig) (s : Server) (e : Event) : Server :=
  if s.exited then s
  else
    match e with
    | .line i line => if s.point i = .reading then s.goto i (.measuring line) else s
    | .disconnect i => if s.point i = .reading then s.goto i .closed else s
    | .handler i raised => s.handle I faults i raised

def run (I : Interpreter F) (faults : FaultConfig) (es : List Event) : Server :=
  Runs.run (step I faults) .start es

section Fields

variable (s : Server) (i j : Nat) (point : Point) (payload : List Nat)

@[simp] theorem goto_point :
    (s.goto i point).point j = if j = i then point else s.point j :=
  Function.update_apply ..

@[simp] theorem goto_lock : (s.goto i point).lock = s.lock := rfl

@[simp] theorem goto_requestCount : (s.goto i point).requestCount = s.requestCount := rfl

@[simp] theorem goto_exited : (s.goto i point).exited = s.exited := rfl

@[simp] theorem goto_written : (s.goto i point).written = s.written := rfl

@[simp] theorem goto_requests : (s.goto i point).requests = s.requests := rfl

@[simp] theorem goto_answered : (s.goto i point).answered = s.answered := rfl

end Fields

variable {I : Interpreter F} {faults : FaultConfig} {s : Server} {i : Nat}

/-- What the rest of the loop body changes: the place of its handler and what was written. -/
theorem send_eq (s : Server) (i : Nat) (payload : List Nat) (raised : Bool) (next : Point) :
    ∃ written, s.send i payload raised next =
      { s with written := written }.goto i (if raised then .closed else next) := by
  cases raised with
  | true => exact ⟨s.written, rfl⟩
  | false => exact ⟨_, rfl⟩

theorem reply_eq (I : Interpreter F) (faults : FaultConfig) (s : Server) (i : Nat)
    (line : List Nat) (raised : Bool) :
    ∃ written, ∃ next, (next = .closed ∨ next = .reading) ∧
      s.reply I faults i line raised = { s with written := written }.goto i next := by
  have hnext : (if raised then Point.closed else .reading) = .closed ∨
      (if raised then Point.closed else .reading) = .reading := by
    cases raised <;> simp
  rw [Server.reply]
  split
  · exact ⟨s.written, .closed, Or.inl rfl, rfl⟩
  · dsimp only
    split
    · obtain ⟨written, h⟩ := send_eq s i (ascii "this-is-not-json\n") raised .reading
      exact ⟨written, _, hnext, h⟩
    · obtain ⟨written, h⟩ := send_eq s i
        (payload I (respond I ((Utf8.decodeReplace line).rdropWhile isCrLf))) raised .reading
      exact ⟨written, _, hnext, h⟩

/-- The lock is held by who is inside its `with`; the counter is one ahead of the ordinals
handed out between its increment and the second read. -/
structure Locked (s : Server) : Prop where
  holder : ∀ i, (s.point i).critical = true ↔ s.lock = some i
  free : s.lock = none → s.requestCount = s.requests.length
  loading : ∀ i line, s.point i = .loading line → s.requestCount = s.requests.length
  storing : ∀ i line count, s.point i = .storing line count →
    count = s.requestCount ∧ s.requestCount = s.requests.length
  taking : ∀ i line, s.point i = .taking line → s.requestCount = s.requests.length + 1
  releasing : ∀ i line count, s.point i = .releasing line count →
    s.requestCount = s.requests.length

/-- What the counter is while a handler stands at a point. -/
def Point.Fits (s : Server) : Point → Prop
  | .loading _ => s.requestCount = s.requests.length
  | .storing _ count => count = s.requestCount ∧ s.requestCount = s.requests.length
  | .taking _ => s.requestCount = s.requests.length + 1
  | .releasing _ _ => s.requestCount = s.requests.length
  | _ => True

theorem Point.fits_of_not_critical {point : Point} (h : point.critical = false) : point.Fits s := by
  cases point with
  | loading _ | storing _ _ | taking _ | releasing _ _ => cases h
  | _ => trivial

namespace Locked

theorem fits (h : Locked s) (i : Nat) : (s.point i).Fits s := by
  cases hp : s.point i with
  | loading line => exact h.loading i line hp
  | storing line count => exact h.storing i line count hp
  | taking line => exact h.taking i line hp
  | releasing line count => exact h.releasing i line count hp
  | _ => trivial

/-- Who is outside while another holds the lock, or nobody does. -/
theorem outside (h : Locked s) {j : Nat} (hj : s.lock ≠ some j) : (s.point j).critical = false := by
  rw [Bool.eq_false_iff, Ne, h.holder j]
  exact hj

/-- A handler goes to a point that fits, while the others stay where they fit. -/
theorem of_goto {i : Nat} {point : Point} (hself : point.critical = true ↔ s.lock = some i)
    (hothers : ∀ j, j ≠ i → ((s.point j).critical = true ↔ s.lock = some j))
    (hfree : s.lock = none → s.requestCount = s.requests.length) (hpoint : point.Fits s)
    (hfits : ∀ j, j ≠ i → (s.point j).Fits s) : Locked (s.goto i point) := by
  have hall (j : Nat) : ((s.goto i point).point j).Fits s := by
    rw [goto_point]
    split
    · exact hpoint
    · next hj => exact hfits j hj
  refine ⟨?_, hfree, ?_, ?_, ?_, ?_⟩
  · intro j
    rw [goto_point, goto_lock]
    split
    · next hj =>
      rw [hj]
      exact hself
    · next hj => exact hothers j hj
  · intro j line hj
    have hj' := hall j
    rw [hj] at hj'
    exact hj'
  · intro j line count hj
    have hj' := hall j
    rw [hj] at hj'
    exact hj'
  · intro j line hj
    have hj' := hall j
    rw [hj] at hj'
    exact hj'
  · intro j line count hj
    have hj' := hall j
    rw [hj] at hj'
    exact hj'

/-- A handler stays inside, or outside. -/
theorem goto (h : Locked s) (i : Nat) {point : Point}
    (hcritical : point.critical = (s.point i).critical) (hpoint : point.Fits s) :
    Locked (s.goto i point) := by
  refine of_goto ?_ (fun j _ => h.holder j) h.free hpoint fun j _ => h.fits j
  rw [hcritical]
  exact h.holder i

/-- A handler stays outside. -/
theorem roam (h : Locked s) {i : Nat} {point old : Point} (hp : s.point i = old)
    (hold : old.critical = false) (hnew : point.critical = false) : Locked (s.goto i point) := by
  apply h.goto i
  · rw [hp, hold, hnew]
  · exact Point.fits_of_not_critical hnew

end Locked

theorem handle_locked (h : Locked s) (i : Nat) (raised : Bool) :
    Locked (s.handle I faults i raised) := by
  -- while the handler is inside, all others are outside
  have hinside (hi : (s.point i).critical = true) (j : Nat) (hj : j ≠ i) :
      (s.point j).critical = false := by
    apply h.outside
    rw [(h.holder i).mp hi]
    exact fun heq => hj (Option.some.inj heq).symm
  rw [Server.handle.eq_def]
  cases hp : s.point i with
  | reading | closed => exact h
  | measuring line =>
    dsimp only
    split
    · exact h.roam hp rfl rfl
    · split
      · exact h.roam hp rfl rfl
      · exact h.roam hp rfl rfl
  | refusing =>
    obtain ⟨written, hsend⟩ := send_eq s i (payload I invalidJson) raised .closed
    dsimp only
    rw [hsend, ite_self]
    have h' : Locked { s with written := written } := ⟨h.1, h.2, h.3, h.4, h.5, h.6⟩
    exact h'.roam hp rfl rfl
  | acquiring line =>
    dsimp only
    split
    · next hlock =>
      have hnobody (j : Nat) : (s.point j).critical = false := h.outside (by rw [hlock]; nofun)
      apply Locked.of_goto
      · exact iff_of_true rfl rfl
      · intro j hj
        refine iff_of_false (by simp [hnobody j]) ?_
        exact fun heq => hj (Option.some.inj heq).symm
      · nofun
      · exact h.free hlock
      · exact fun j _ => Point.fits_of_not_critical (hnobody j)
    · exact h
  | loading line =>
    refine h.goto i (by rw [hp]; rfl) ?_
    exact ⟨rfl, h.loading i line hp⟩
  | storing line count =>
    obtain ⟨hcount, hlength⟩ := h.storing i line count hp
    have hin : (s.point i).critical = true := by rw [hp]; rfl
    have hlock : s.lock = some i := (h.holder i).mp hin
    apply Locked.of_goto
    · exact iff_of_true rfl hlock
    · exact fun j _ => h.holder j
    · intro hfree
      rw [show s.lock = none from hfree] at hlock
      cases hlock
    · show count + 1 = s.requests.length + 1
      rw [hcount, hlength]
    · exact fun j hj => Point.fits_of_not_critical (hinside hin j hj)
  | taking line =>
    have hin : (s.point i).critical = true := by rw [hp]; rfl
    have hlock : s.lock = some i := (h.holder i).mp hin
    apply Locked.of_goto
    · exact iff_of_true rfl hlock
    · exact fun j _ => h.holder j
    · exact fun _ => h.taking i line hp
    · exact h.taking i line hp
    · exact fun j hj => Point.fits_of_not_critical (hinside hin j hj)
  | releasing line count =>
    have hin : (s.point i).critical = true := by rw [hp]; rfl
    apply Locked.of_goto
    · exact iff_of_false (by simp [Point.critical]) nofun
    · exact fun j hj => iff_of_false (by simp [hinside hin j hj]) nofun
    · exact fun _ => h.releasing i line count hp
    · trivial
    · exact fun j hj => Point.fits_of_not_critical (hinside hin j hj)
  | comparing line count =>
    dsimp only
    split
    · exact h.roam hp rfl rfl
    · exact h.roam hp rfl rfl
  | exiting line count => exact ⟨h.1, h.2, h.3, h.4, h.5, h.6⟩
  | replying line count =>
    obtain ⟨written, next, hnext, hreply⟩ := reply_eq I faults
      { s with answered := count.toList ++ s.answered } i line raised
    dsimp only
    rw [hreply]
    have h' : Locked { s with answered := count.toList ++ s.answered, written := written } :=
      ⟨h.1, h.2, h.3, h.4, h.5, h.6⟩
    obtain rfl | rfl := hnext
    · exact h'.roam hp rfl rfl
    · exact h'.roam hp rfl rfl

theorem step_locked (h : Locked s) (e : Event) : Locked (step I faults s e) := by
  rw [step.eq_def]
  split
  · exact h
  · cases e with
    | line i line =>
      dsimp only
      split
      · next hp => exact h.roam hp rfl rfl
      · exact h
    | disconnect i =>
      dsimp only
      split
      · next hp => exact h.roam hp rfl rfl
      · exact h
    | handler i raised => exact handle_locked h i raised

/-- The ordinals issued, held by handlers and answered. -/
def Server.desk (s : Server) : Tickets.Desk Nat where
  issued := s.requests.length
  held := fun i => (s.point i).holds.map Prod.snd
  used := s.answered

theorem desk_goto (s : Server) (i : Nat) (point : Point) :
    (s.goto i point).desk =
      { s.desk with held := Function.update s.desk.held i (point.holds.map Prod.snd) } := by
  have hheld : (s.goto i point).desk.held =
      Function.update s.desk.held i (point.holds.map Prod.snd) := by
    funext j
    show ((s.goto i point).point j).holds.map Prod.snd = _
    rw [goto_point, Function.update_apply]
    split
    · rfl
    · rfl
  rw [← hheld]
  rfl

theorem desk_goto_drop (s : Server) (i : Nat) {point : Point} (h : point.holds = none) :
    (s.goto i point).desk = s.desk.drop i := by
  rw [desk_goto, h]
  rfl

/-- A handler goes on with the ordinal it has. -/
theorem desk_goto_keep (s : Server) (i : Nat) {point : Point}
    (h : point.holds = (s.point i).holds) : (s.goto i point).desk = s.desk := by
  rw [desk_goto, h]
  show { s.desk with held := Function.update s.desk.held i (s.desk.held i) } = s.desk
  rw [Function.update_eq_self]

theorem reply_desk (s : Server) (i : Nat) (line : List Nat) (raised : Bool) :
    (s.reply I faults i line raised).desk = s.desk.drop i := by
  obtain ⟨written, next, hnext, hreply⟩ := reply_eq I faults s i line raised
  rw [hreply]
  obtain rfl | rfl := hnext
  · exact desk_goto_drop { s with written := written } i rfl
  · exact desk_goto_drop { s with written := written } i rfl

theorem handle_move (h : Locked s) (i : Nat) (raised : Bool) :
    Tickets.Move s.desk (s.handle I faults i raised).desk := by
  rw [Server.handle.eq_def]
  cases hp : s.point i with
  | reading | closed => exact .stay
  | measuring line =>
    dsimp only
    split
    · rw [desk_goto_drop s i rfl]
      exact .drop i
    · split
      · rw [desk_goto_drop s i rfl]
        exact .drop i
      · rw [desk_goto_drop s i rfl]
        exact .drop i
  | refusing =>
    obtain ⟨written, hsend⟩ := send_eq s i (payload I invalidJson) raised .closed
    dsimp only
    rw [hsend, ite_self, desk_goto_drop { s with written := written } i rfl]
    exact .drop i
  | acquiring line =>
    dsimp only
    split
    · rw [desk_goto_drop { s with lock := some i } i rfl]
      exact .drop i
    · exact .stay
  | loading line =>
    dsimp only
    rw [desk_goto_drop s i rfl]
    exact .drop i
  | storing line count =>
    dsimp only
    rw [desk_goto_drop { s with requestCount := count + 1 } i rfl]
    exact .drop i
  | taking line =>
    have hcount : s.requestCount = s.requests.length + 1 := h.taking i line hp
    dsimp only
    rw [desk_goto, hcount]
    exact .take i
  | releasing line count =>
    dsimp only
    rw [desk_goto_keep { s with lock := none } i (by rw [hp]; rfl)]
    exact .stay
  | comparing line count =>
    dsimp only
    split
    · rw [desk_goto_keep s i (by rw [hp]; rfl)]
      exact .stay
    · rw [desk_goto_keep s i (by rw [hp]; rfl)]
      exact .stay
  | exiting line count => exact .stay
  | replying line count =>
    dsimp only
    rw [reply_desk]
    cases count with
    | none => exact .drop i
    | some k =>
      refine .use i k ?_
      show (s.point i).holds.map Prod.snd = some k
      rw [hp]
      rfl

theorem step_move (h : Locked s) (e : Event) : Tickets.Move s.desk (step I faults s e).desk := by
  rw [step.eq_def]
  split
  · exact .stay
  · cases e with
    | line i line =>
      dsimp only
      split
      · rw [desk_goto_drop s i rfl]
        exact .drop i
      · exact .stay
    | disconnect i =>
      dsimp only
      split
      · rw [desk_goto_drop s i rfl]
        exact .drop i
      · exact .stay
    | handler i raised => exact handle_move h i raised

/-- The line of a handler that has found its length within the bound. -/
def Point.accepted : Point → Option (List Nat)
  | .acquiring line | .loading line | .storing line _ | .taking line | .releasing line _
  | .comparing line _ | .exiting line _ | .replying line _ => some line
  | .reading | .measuring _ | .refusing | .closed => none

/-- What is counted is within the bound and belongs to its handler as long as it is held. -/
structure Counted (s : Server) : Prop where
  accepted : ∀ i line, (s.point i).accepted = some line →
    (line.rdropWhile isCrLf).length ≤ maxLineBytes
  held : ∀ i line count, (s.point i).holds = some (line, count) → ⟨i, line, count⟩ ∈ s.requests
  bounded : ∀ r ∈ s.requests, (r.line.rdropWhile isCrLf).length ≤ maxLineBytes
  ordinals : s.requests.map Request.ordinal = (List.range' 1 s.requests.length).reverse

namespace Counted

/-- A handler goes on with a line within the bound, and with an ordinal that was counted. -/
theorem goto (h : Counted s) (i : Nat) {point : Point}
    (haccepted : ∀ line, point.accepted = some line →
      (line.rdropWhile isCrLf).length ≤ maxLineBytes)
    (hheld : ∀ line count, point.holds = some (line, count) → ⟨i, line, count⟩ ∈ s.requests) :
    Counted (s.goto i point) where
  accepted := by
    intro j line hj
    rw [goto_point] at hj
    split at hj
    · exact haccepted line hj
    · exact h.accepted j line hj
  held := by
    intro j line count hj
    rw [goto_point] at hj
    split at hj
    · next hji =>
      rw [hji]
      exact hheld line count hj
    · exact h.held j line count hj
  bounded := h.bounded
  ordinals := h.ordinals

/-- A handler keeps its line and its ordinal, if it has one. -/
theorem keep (h : Counted s) {old point : Point} (hp : s.point i = old)
    (haccepted : point.accepted = old.accepted) (hheld : point.holds = old.holds) :
    Counted (s.goto i point) := by
  apply h.goto i
  · intro line hline
    rw [haccepted, ← hp] at hline
    exact h.accepted i line hline
  · intro line count hcount
    rw [hheld, ← hp] at hcount
    exact h.held i line count hcount

/-- A handler that has no ordinal keeps its line. -/
theorem advance (h : Counted s) {old point : Point} (hp : s.point i = old)
    (haccepted : point.accepted = old.accepted) (hheld : point.holds = none) :
    Counted (s.goto i point) := by
  apply h.goto i
  · intro line hline
    rw [haccepted, ← hp] at hline
    exact h.accepted i line hline
  · intro line count hcount
    rw [hheld] at hcount
    cases hcount

/-- A handler leaves its line and its ordinal. -/
theorem leave (h : Counted s) (i : Nat) {point : Point} (haccepted : point.accepted = none)
    (hheld : point.holds = none) : Counted (s.goto i point) := by
  apply h.goto i
  · intro line hline
    rw [haccepted] at hline
    cases hline
  · intro line count hcount
    rw [hheld] at hcount
    cases hcount

end Counted

theorem handle_counted (hl : Locked s) (h : Counted s) (i : Nat) (raised : Bool) :
    Counted (s.handle I faults i raised) := by
  rw [Server.handle.eq_def]
  cases hp : s.point i with
  | reading | closed => exact h
  | measuring line =>
    dsimp only
    split
    · exact h.leave i rfl rfl
    · next hshort =>
      have hbound (line' : List Nat) (heq : some line = some line') :
          (line'.rdropWhile isCrLf).length ≤ maxLineBytes := by
        cases heq
        exact Nat.le_of_not_lt hshort
      split
      · exact h.goto i hbound nofun
      · exact h.goto i hbound nofun
  | refusing =>
    obtain ⟨written, hsend⟩ := send_eq s i (payload I invalidJson) raised .closed
    dsimp only
    rw [hsend, ite_self]
    have h' : Counted { s with written := written } := ⟨h.1, h.2, h.3, h.4⟩
    exact h'.leave i rfl rfl
  | acquiring line =>
    dsimp only
    split
    · have h' : Counted { s with lock := some i } := ⟨h.1, h.2, h.3, h.4⟩
      exact h'.advance hp rfl rfl
    · exact h
  | loading line => exact h.advance hp rfl rfl
  | storing line count =>
    have h' : Counted { s with requestCount := count + 1 } := ⟨h.1, h.2, h.3, h.4⟩
    exact h'.advance hp rfl rfl
  | taking line =>
    have hbound := h.accepted i line (by rw [hp]; rfl)
    have hcount : s.requestCount = 1 + s.requests.length := by
      rw [hl.taking i line hp, Nat.add_comm]
    have h' : Counted { s with requests := ⟨i, line, s.requestCount⟩ :: s.requests } := by
      refine ⟨h.accepted, ?_, List.forall_mem_cons.mpr ⟨hbound, h.bounded⟩, ?_⟩
      · exact fun j line' count hj => List.mem_cons_of_mem _ (h.held j line' count hj)
      · show s.requestCount :: s.requests.map Request.ordinal =
          (List.range' 1 (s.requests.length + 1)).reverse
        rw [List.range'_1_concat, List.reverse_append, h.ordinals, hcount]
        rfl
    apply h'.goto i
    · intro line' heq
      cases heq
      exact hbound
    · intro line' count heq
      cases heq
      exact List.mem_cons_self
  | releasing line count =>
    have h' : Counted { s with lock := none } := ⟨h.1, h.2, h.3, h.4⟩
    exact h'.keep hp rfl rfl
  | comparing line count =>
    dsimp only
    split
    · exact h.keep hp rfl rfl
    · exact h.keep hp rfl rfl
  | exiting line count => exact ⟨h.1, h.2, h.3, h.4⟩
  | replying line count =>
    obtain ⟨written, next, hnext, hreply⟩ := reply_eq I faults
      { s with answered := count.toList ++ s.answered } i line raised
    dsimp only
    rw [hreply]
    have h' : Counted { s with answered := count.toList ++ s.answered, written := written } :=
      ⟨h.1, h.2, h.3, h.4⟩
    obtain rfl | rfl := hnext
    · exact h'.leave i rfl rfl
    · exact h'.leave i rfl rfl

/-- The line and the ordinal of a handler that has not passed the comparison. -/
def Point.late : Point → Option (List Nat × Nat)
  | .releasing line count | .comparing line count | .exiting line count => some (line, count)
  | _ => none

theorem Point.late_eq_some {point : Point} {line : List Nat} {count : Nat}
    (h : point.late = some (line, count)) :
    point = .releasing line count ∨ point = .comparing line count ∨ point = .exiting line count := by
  cases point <;> simp_all [late]

/-- How the ordinals from the limit on are kept from an answer. -/
structure Judged (limit : Nat) (s : Server) : Prop where
  answered : ∀ k ∈ s.answered, k < limit
  replying : ∀ i line count, s.point i = .replying line count → ∃ k < limit, count = some k
  exiting : ∀ i line count, s.point i = .exiting line count → limit ≤ count
  late : ∀ r ∈ s.requests, limit ≤ r.ordinal →
    (s.point r.connection).late = some (r.line, r.ordinal)
  exited : s.exited = true → ∃ r ∈ s.requests, limit ≤ r.ordinal ∧
    s.point r.connection = .exiting r.line r.ordinal

namespace Judged

variable {limit : Nat}

/-- A handler goes to a place where it may be, and stays late if it is. -/
theorem goto (h : Judged limit s) (hs : s.exited = false) (i : Nat) {point : Point}
    (hreplying : ∀ line count, point = .replying line count → ∃ k < limit, count = some k)
    (hexiting : ∀ line count, point = .exiting line count → limit ≤ count)
    (hlate : ∀ line count, limit ≤ count → (s.point i).late = some (line, count) →
      point.late = some (line, count)) : Judged limit (s.goto i point) where
  answered := h.answered
  replying := by
    intro j line count hj
    rw [goto_point] at hj
    split at hj
    · exact hreplying line count hj
    · exact h.replying j line count hj
  exiting := by
    intro j line count hj
    rw [goto_point] at hj
    split at hj
    · exact hexiting line count hj
    · exact h.exiting j line count hj
  late := by
    intro r hr hle
    have hr' := h.late r hr hle
    rw [goto_point]
    split
    · rename_i hi
      rw [hi] at hr'
      exact hlate r.line r.ordinal hle hr'
    · exact hr'
  exited := by
    intro hexited
    rw [goto_exited, hs] at hexited
    cases hexited

/-- A handler without an ordinal from the limit on goes where it has none to answer. -/
theorem leave (h : Judged limit s) (hs : s.exited = false) {old point : Point}
    (hp : s.point i = old) (hold : old.late = none) (hnext : point.late = none)
    (hreplying : ∀ line count, point ≠ .replying line count) : Judged limit (s.goto i point) := by
  apply h.goto hs i
  · exact fun line count heq => absurd heq (hreplying line count)
  · intro line count heq
    rw [heq] at hnext
    cases hnext
  · intro line count _ hlate
    rw [hp, hold] at hlate
    cases hlate

end Judged

theorem handle_judged {limit : Nat} (hlimit : faults.exitAfterRequests = some limit)
    (hc : Counted s) (h : Judged limit s) (hs : s.exited = false) (i : Nat) (raised : Bool) :
    Judged limit (s.handle I faults i raised) := by
  rw [Server.handle.eq_def]
  cases hp : s.point i with
  | reading | closed => exact h
  | measuring line =>
    dsimp only
    split
    · exact h.leave hs hp rfl rfl (by simp)
    · rw [hlimit, Option.isSome_some, if_pos rfl]
      exact h.leave hs hp rfl rfl (by simp)
  | refusing =>
    obtain ⟨written, hsend⟩ := send_eq s i (payload I invalidJson) raised .closed
    dsimp only
    rw [hsend, ite_self]
    have h' : Judged limit { s with written := written } := ⟨h.1, h.2, h.3, h.4, h.5⟩
    exact h'.leave hs hp rfl rfl (by simp)
  | acquiring line =>
    dsimp only
    split
    · have h' : Judged limit { s with lock := some i } := ⟨h.1, h.2, h.3, h.4, h.5⟩
      exact h'.leave hs hp rfl rfl (by simp)
    · exact h
  | loading line =>
    exact h.leave hs hp rfl rfl (by simp)
  | storing line count =>
    have h' : Judged limit { s with requestCount := count + 1 } := ⟨h.1, h.2, h.3, h.4, h.5⟩
    exact h'.leave hs hp rfl rfl (by simp)
  | taking line =>
    have hlate : (s.point i).late = none := by rw [hp]; rfl
    have hgo : Judged limit (s.goto i (.releasing line s.requestCount)) := by
      apply h.goto hs i
      · simp
      · simp
      · intro line count _ hsome
        rw [hlate] at hsome
        cases hsome
    refine ⟨hgo.1, hgo.2, hgo.3, ?_, ?_⟩
    · intro r hr hle
      obtain rfl | hr := List.mem_cons.mp hr
      · show ((s.goto i (.releasing line s.requestCount)).point i).late = _
        rw [goto_point, if_pos rfl]
        rfl
      · exact hgo.late r hr hle
    · intro hexited
      rw [goto_exited, hs] at hexited
      cases hexited
  | releasing line count =>
    have h' : Judged limit { s with lock := none } := ⟨h.1, h.2, h.3, h.4, h.5⟩
    apply h'.goto hs i
    · simp
    · simp
    · intro line' count' _ hlate
      rw [hp] at hlate
      exact hlate
  | comparing line count =>
    dsimp only
    rw [hlimit, Option.any_some]
    split
    · rename_i hle
      apply h.goto hs i
      · simp
      · intro line' count' heq
        cases heq
        exact of_decide_eq_true hle
      · intro line' count' _ hlate
        rw [hp] at hlate
        exact hlate
    · rename_i hlt
      have hlt : count < limit := by simpa using hlt
      apply h.goto hs i
      · intro line' count' heq
        cases heq
        exact ⟨count, hlt, rfl⟩
      · simp
      -- an ordinal below the limit is not late
      · intro line' count' hle hlate
        rw [hp] at hlate
        cases hlate
        omega
  | exiting line count =>
    have hmem : ⟨i, line, count⟩ ∈ s.requests := hc.held i line count (by rw [hp]; rfl)
    have hle := h.exiting i line count hp
    exact ⟨h.answered, h.replying, h.exiting, h.late, fun _ => ⟨⟨i, line, count⟩, hmem, hle, hp⟩⟩
  | replying line count =>
    obtain ⟨k, hk, rfl⟩ := h.replying i line count hp
    obtain ⟨written, next, hnext, hreply⟩ := reply_eq I faults
      { s with answered := (some k).toList ++ s.answered } i line raised
    dsimp only
    rw [hreply]
    have h' : Judged limit
        { s with answered := (some k).toList ++ s.answered, written := written } := by
      refine ⟨?_, h.2, h.3, h.4, h.5⟩
      intro k' hk'
      obtain rfl | hk' := List.mem_cons.mp hk'
      · exact hk
      · exact h.answered k' hk'
    obtain rfl | rfl := hnext
    · exact h'.leave hs hp rfl rfl (by simp)
    · exact h'.leave hs hp rfl rfl (by simp)

theorem step_counted (hl : Locked s) (h : Counted s) (e : Event) :
    Counted (step I faults s e) := by
  rw [step.eq_def]
  split
  · exact h
  · cases e with
    | handler i raised => exact handle_counted hl h i raised
    | line i line =>
      dsimp only
      split
      · exact h.leave i rfl rfl
      · exact h
    | disconnect i =>
      dsimp only
      split
      · exact h.leave i rfl rfl
      · exact h

theorem step_judged {limit : Nat} (hlimit : faults.exitAfterRequests = some limit)
    (hc : Counted s) (h : Judged limit s) (e : Event) : Judged limit (step I faults s e) := by
  rw [step.eq_def]
  split
  · exact h
  · rename_i hexited
    have hs : s.exited = false := Bool.eq_false_iff.mpr hexited
    cases e with
    | handler i raised => exact handle_judged hlimit hc h hs i raised
    | line i line =>
      dsimp only
      split
      · rename_i hp
        exact h.leave hs hp rfl rfl (by simp)
      · exact h
    | disconnect i =>
      dsimp only
      split
      · rename_i hp
        exact h.leave hs hp rfl rfl (by simp)
      · exact h

/-- What holds in every state of a run with a limit. -/
structure Reached (limit : Nat) (s : Server) : Prop where
  locked : Locked s
  counted : Counted s
  judged : Judged limit s
  desk : s.desk.Sound

theorem start_reached (limit : Nat) : Reached limit .start where
  locked := by constructor <;> simp [Server.start, Point.critical]
  counted := by constructor <;> simp [Server.start, Point.accepted, Point.holds]
  judged := by constructor <;> simp [Server.start]
  desk := by constructor <;> simp [Server.start, Server.desk, Point.holds]

theorem run_reached {limit : Nat} (hlimit : faults.exitAfterRequests = some limit)
    (es : List Event) : Reached limit (run I faults es) := by
  apply Runs.run_invariant (start_reached limit)
  intro s e h
  exact {
    locked := step_locked h.locked e
    counted := step_counted h.locked h.counted e
    judged := step_judged hlimit h.counted h.judged e
    desk := (step_move h.locked e).sound h.desk }

/-- With a limit of N, at most N - 1 requests get as far as their reply; ordinals are
distinct; who has an ordinal from N on is on its way to the exit; and over-long lines are
refused without an ordinal. -/
theorem termination_never_late (I : Interpreter F) (faults : FaultConfig) {limit : Nat}
    (hlimit : faults.exitAfterRequests = some limit) (hpos : 1 ≤ limit) (es : List Event) :
    let s := run I faults es
    s.answered.length ≤ limit - 1 ∧
    (s.requests.map Request.ordinal).Nodup ∧
    (∀ r ∈ s.requests, limit ≤ r.ordinal → r.ordinal ∉ s.answered ∧
      (s.point r.connection = .releasing r.line r.ordinal ∨
        s.point r.connection = .comparing r.line r.ordinal ∨
        s.point r.connection = .exiting r.line r.ordinal)) ∧
    (∀ i line count raised, s.point i = .comparing line count → limit ≤ count →
      s.handle I faults i raised = s.goto i (.exiting line count)) ∧
    (∀ r ∈ s.requests, (r.line.rdropWhile isCrLf).length ≤ maxLineBytes) ∧
    (s.lock = none → s.requestCount = s.requests.length) ∧
    (s.exited = true → ∃ r ∈ s.requests, limit ≤ r.ordinal ∧
      s.point r.connection = .exiting r.line r.ordinal) ∧
    (∀ i line raised, s.point i = .measuring line →
      maxLineBytes < (line.rdropWhile isCrLf).length →
      s.handle I faults i raised = s.goto i .refusing) ∧
    (∀ i raised, s.point i = .refusing →
      s.handle I faults i raised = s.send i (payload I invalidJson) raised .closed) := by
  intro s
  have h : Reached limit s := run_reached hlimit es
  have hlength : s.answered.length < limit :=
    h.desk.length_used_lt hpos h.judged.answered
  have hnodup : (s.requests.map Request.ordinal).Nodup := by
    rw [h.counted.ordinals, List.nodup_reverse]
    exact List.nodup_range'
  refine ⟨by omega, hnodup, ?late, ?compare, h.counted.bounded, h.locked.free, h.judged.exited,
    ?long, ?refuse⟩
  case late =>
    intro r hr hle
    refine ⟨?_, Point.late_eq_some (h.judged.late r hr hle)⟩
    intro hmem
    have := h.judged.answered r.ordinal hmem
    omega
  case compare =>
    intro i line count raised hp hle
    have hreached : faults.exitAfterRequests.any (· ≤ count) = true := by
      rw [hlimit]
      exact decide_eq_true hle
    rw [Server.handle.eq_def, hp]
    dsimp only
    rw [if_pos hreached]
  case long =>
    intro i line raised hp hlong
    rw [Server.handle.eq_def, hp]
    dsimp only
    rw [if_pos hlong]
  case refuse =>
    intro i raised hp
    rw [Server.handle.eq_def, hp]

/-- An interpreter whose floats are their spelling. -/
def sampleInterpreter : Interpreter (List Nat) where
  floats := {
    nan := []
    inf := fun _ => []
    parse := id
    isNan := fun x => x == []
    isInf := fun _ => none
    repr := id
    eqInt := fun _ _ => false }
  overflows := fun _ => false

/-- Two clients whose handlers compare out of order. -/
def sampleEvents : List Event :=
  [.line 0 (ascii "\x7b\x7d\n"), .line 1 (ascii "[]\n")] ++
  List.replicate 6 (.handler 0 false) ++ List.replicate 7 (.handler 1 false) ++
  List.replicate 2 (.handler 0 false) ++ [.handler 1 false]

theorem termination_never_late_sample :
    let s := run sampleInterpreter { exitAfterRequests := some 2 } sampleEvents
    (s.answered.length ≤ 1 ∧ (s.requests.map Request.ordinal).Nodup) ∧
      s.answered = [1] ∧ s.requests.map Request.ordinal = [2, 1] ∧ s.exited = true := by
  have hlimit : FaultConfig.exitAfterRequests { exitAfterRequests := some 2 } = some 2 := rfl
  have h := termination_never_late sampleInterpreter _ hlimit (by decide) sampleEvents
  exact ⟨⟨h.1, h.2.1⟩, by decide +kernel⟩

/-- A handler that nobody disturbs does with a line what `handleLine` does. -/
theorem handler_alone (s : Server) (i : Nat) (line : List Nat) (hs : s.exited = false)
    (hlock : s.lock = none) (hp : s.point i = .measuring line) :
    let s' := Runs.run (step I faults) s (List.replicate 8 (.handler i false))
    let (served, session) := handleLine I faults ⟨s.written i, [], s.requestCount⟩ line
    s'.requestCount = session.requestCount ∧ s'.written i = session.written ∧
      (s'.exited = true ↔ served = .exited) ∧ s'.lock = none := by
  simp only [List.replicate, Runs.run_cons, Runs.run_nil]
  by_cases hlong : (line.rdropWhile isCrLf).length > maxLineBytes
  · simp [step, Server.handle, hs, hp, hlong, handleLine, Server.send, Server.write, hlock]
  · cases hlimit : faults.exitAfterRequests with
    | none =>
      by_cases hdrop : faults.dropConnection
      · simp [step, Server.handle, hs, hp, hlong, hlimit, hdrop, handleLine, Server.reply, hlock]
      · by_cases hbad : faults.malformedResponse
        · simp [step, Server.handle, hs, hp, hlong, hlimit, hdrop, hbad, handleLine,
            Server.reply, Server.send, Server.write, hlock]
        · simp [step, Server.handle, hs, hp, hlong, hlimit, hdrop, hbad, handleLine,
            Server.reply, Server.send, Server.write, hlock]
    | some limit =>
      by_cases hlate : limit ≤ s.requestCount + 1
      · simp [step, Server.handle, hs, hp, hlong, hlimit, handleLine, hlock, hlate]
      · by_cases hdrop : faults.dropConnection
        · simp [step, Server.handle, hs, hp, hlong, hlimit, hdrop, handleLine, Server.reply,
            hlock, hlate]
        · by_cases hbad : faults.malformedResponse
          · simp [step, Server.handle, hs, hp, hlong, hlimit, hdrop, hbad, handleLine,
              Server.reply, Server.send, Server.write, hlock, hlate]
          · simp [step, Server.handle, hs, hp, hlong, hlimit, hdrop, hbad, handleLine,
              Server.reply, Server.send, Server.write, hlock, hlate]

end Simulator.Termination
