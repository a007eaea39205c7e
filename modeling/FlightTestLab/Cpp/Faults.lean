import FlightTestLab.Cpp.Server
import FlightTestLab.Library.Runs
import FlightTestLab.Library.Tickets

/-!
# The injected fault of the native DUT

`maybe_inject_fault` over the life of the process: the startup call of `run_server` and
the calls of the handlers, with the atomic increment of `g_request_count` as a step of
its own. Any handler may take the next step.

## Main definitions

- `Cpp.Faults.Process`: the process
- `Cpp.Faults.step`: one step of `run_server` or of a handler
- `Cpp.Faults.FiresOnce`: the fault fires on the configured call and on no other

## Main results

- `Cpp.Faults.run_reached`: what holds in every state
- `Cpp.Faults.firesOnce_of_counted_lt`: the counter does not wrap in the first 2^32 frames
-/

namespace Cpp.Faults

/-- Where the handler of a connection stands. -/
inductive Point
  | absent
  | reading
  /-- In `handle_line` with a frame. -/
  | measuring (line : Bytes)
  /-- About to increment `g_request_count`. -/
  | counting
  /-- About to call `maybe_inject_fault` for the frame counted as this one. -/
  | injecting (frame : Nat) (requestNumber : Int32)
  | answering
  /-- Waiting for `g_hang_mutex`. -/
  | hung
  | closed
  deriving DecidableEq, Repr

def Point.frame : Point → Option Nat
  | .injecting frame _ => some frame
  | _ => none

/-- `run_server`: before its startup call, in the accept loop, waiting for `g_hang_mutex`. -/
inductive Main
  | starting
  | accepting
  | hung
  deriving DecidableEq, Repr

/-- A call of `maybe_inject_fault`: at startup, or for a counted frame. -/
inductive Call
  | startup
  | frame (n : Nat)
  deriving DecidableEq, Repr

def Call.frame? : Call → Option Nat
  | .startup => none
  | .frame n => some n

/-- The process. Connections are numbered. -/
structure Process where
  main : Main
  point : Nat → Point
  /-- `g_request_count` -/
  requestCount : Int32
  ended : Bool
  /-- How many frames were counted. -/
  counted : Nat
  /-- The calls of `maybe_inject_fault` and those that injected, the latest first. -/
  calls : List Call
  injected : List Call

def Process.start : Process where
  main := .starting
  point := fun _ => .absent
  requestCount := 0
  ended := false
  counted := 0
  calls := []
  injected := []

inductive Event
  /-- `run_server` gets to its accept loop; an out-of-bounds write may end the process. -/
  | startup (survives : Bool)
  | accept (i : Nat)
  /-- A handler takes a frame from its buffer. -/
  | frame (i : Nat) (line : Bytes)
  /-- It finds its connection closed. -/
  | disconnect (i : Nat)
  /-- It takes its next step; a send may fail, an out-of-bounds write may end the process. -/
  | handler (i : Nat) (survives : Bool)
  /-- The process ends for another reason. -/
  | stop
  deriving DecidableEq, Repr

/-- What becomes of a thread that calls `maybe_inject_fault`. -/
inductive Outcome
  | returns
  | blocks
  /-- The whole process is gone. -/
  | dies
  deriving DecidableEq, Repr

/-- The `switch` of `maybe_inject_fault`. -/
def Outcome.of (survives : Bool) : Option Fault → Outcome
  | none | some .none | some .slow => .returns
  | some .crash => .dies
  | some .badAccess => if survives then .returns else .dies
  | some .hang => .blocks

namespace Process

def goto (p : Process) (i : Nat) (point : Point) : Process :=
  { p with point := Function.update p.point i point }

/-- A call with its comparison. -/
def call (options : ServerOptions) (p : Process) (c : Call) (requestNumber : Int32) : Process :=
  let fires := (maybeInjectFault options requestNumber).isSome
  { p with calls := c :: p.calls, injected := if fires then c :: p.injected else p.injected }

/-- `if (options.fault_after == 0) maybe_inject_fault(options, 0);` -/
def startup (options : ServerOptions) (p : Process) (survives : Bool) : Process :=
  if options.faultAfter = 0 then
    let p := p.call options .startup 0
    match Outcome.of survives (maybeInjectFault options 0) with
    | .returns => { p with main := .accepting }
    | .blocks => { p with main := .hung }
    | .dies => { p with ended := true }
  else { p with main := .accepting }

/-- The next step of a handler. -/
def handle (options : ServerOptions) (p : Process) (i : Nat) (survives : Bool) : Process :=
  match p.point i with
  | .absent | .reading | .hung | .closed => p
  | .measuring line =>
    if (stripCr line).length > kMaxLineBytes then p.goto i .closed else p.goto i .counting
  | .counting =>
    { p with requestCount := p.requestCount + 1, counted := p.counted + 1 }.goto i
      (.injecting (p.counted + 1) (p.requestCount + 1))
  | .injecting frame requestNumber =>
    let p := p.call options (.frame frame) requestNumber
    match Outcome.of survives (maybeInjectFault options requestNumber) with
    | .returns => p.goto i .answering
    | .blocks => p.goto i .hung
    | .dies => { p with ended := true }.goto i .closed
  | .answering => if survives then p.goto i .reading else p.goto i .closed

end Process

def step (options : ServerOptions) (p : Process) (e : Event) : Process :=
  if p.ended then p
  else
    match e with
    | .startup survives => if p.main = .starting then p.startup options survives else p
    | .accept i => if p.main = .accepting ∧ p.point i = .absent then p.goto i .reading else p
    | .frame i line => if p.point i = .reading then p.goto i (.measuring line) else p
    | .disconnect i => if p.point i = .reading then p.goto i .closed else p
    | .handler i survives => p.handle options i survives
    | .stop => { p with ended := true }

def run (options : ServerOptions) (es : List Event) : Process :=
  Runs.run (step options) .start es

/-- The call that the fault is configured for. -/
def configured (after : Nat) : Call := if after = 0 then .startup else .frame after

/-- Of the calls made, the configured one injects the fault and no other; it is made once. -/
def FiresOnce (after : Nat) (p : Process) : Prop :=
  (∀ c, c ∈ p.injected ↔ c ∈ p.calls ∧ c = configured after) ∧ p.injected.length ≤ 1

section Numbers

theorem ofNat_eq_iff {after : Nat} {faultAfter : Int32} (h : faultAfter.toInt = after) (k : Nat) :
    Int32.ofNat k = faultAfter ↔ k % 2 ^ 32 = after := by
  have hlt := faultAfter.toInt_lt
  rw [← Int32.toInt_inj, h, Int32.toInt_ofNat', Int.bmod_def]
  simp only [Int32.size]
  omega

/-- The number a call is made with. -/
def Call.number : Call → Int32
  | .startup => 0
  | .frame n => Int32.ofNat n

def Call.fires (options : ServerOptions) (c : Call) : Bool :=
  (maybeInjectFault options c.number).isSome

variable {options : ServerOptions} {after : Nat}

theorem fires_iff (hfault : options.fault ≠ .none) (c : Call) :
    c.fires options = true ↔ c.number = options.faultAfter := by
  rw [Call.fires, maybeInjectFault]
  simp [hfault]

theorem fires_startup_iff (hfault : options.fault ≠ .none) :
    Call.startup.fires options = true ↔ options.faultAfter = 0 := by
  rw [fires_iff hfault, eq_comm]
  rfl

theorem fires_frame_iff (hfault : options.fault ≠ .none)
    (hafter : options.faultAfter.toInt = after) (k : Nat) :
    (Call.frame k).fires options = true ↔ k % 2 ^ 32 = after := by
  rw [fires_iff hfault]
  exact ofNat_eq_iff hafter k

end Numbers

section Fields

variable (p : Process) (i j : Nat) (point : Point)

@[simp, grind =] theorem goto_point :
    (p.goto i point).point j = if j = i then point else p.point j :=
  Function.update_apply ..

@[simp, grind =] theorem goto_main : (p.goto i point).main = p.main := rfl

@[simp, grind =] theorem goto_requestCount : (p.goto i point).requestCount = p.requestCount := rfl

@[simp, grind =] theorem goto_ended : (p.goto i point).ended = p.ended := rfl

@[simp, grind =] theorem goto_counted : (p.goto i point).counted = p.counted := rfl

@[simp, grind =] theorem goto_calls : (p.goto i point).calls = p.calls := rfl

@[simp, grind =] theorem goto_injected : (p.goto i point).injected = p.injected := rfl

end Fields

/-- The numbers of the frames counted, on their way to a call and used for one. -/
def Process.desk (p : Process) : Tickets.Desk Nat where
  issued := p.counted
  held := fun i => (p.point i).frame
  used := p.calls.filterMap Call.frame?

/-- The calls made so far, and the counter as it follows the frames. -/
structure Recorded (options : ServerOptions) (p : Process) : Prop where
  requestCount : p.requestCount = Int32.ofNat p.counted
  injecting : ∀ i frame requestNumber, p.point i = .injecting frame requestNumber →
    requestNumber = Int32.ofNat frame
  injected : p.injected = p.calls.filter (Call.fires options)
  startup : .startup ∈ p.calls → options.faultAfter = 0
  starting : p.main = .starting → p.ended = false → .startup ∉ p.calls
  nodup : p.calls.Nodup

variable {options : ServerOptions} {after : Nat} {p : Process}

theorem call_injected (h : p.injected = p.calls.filter (Call.fires options)) (c : Call) :
    (p.call options c c.number).injected = (c :: p.calls).filter (Call.fires options) := by
  rw [List.filter_cons, ← h]
  rfl

theorem Recorded.call (h : Recorded options p) {n : Nat} (hn : .frame n ∉ p.calls) :
    Recorded options (p.call options (.frame n) (Int32.ofNat n)) where
  requestCount := h.requestCount
  injecting := h.injecting
  injected := call_injected h.injected (.frame n)
  startup := by
    intro hmem
    obtain heq | hmem := List.mem_cons.mp hmem
    · cases heq
    · exact h.startup hmem
  starting := by
    intro hmain hended hmem
    obtain heq | hmem := List.mem_cons.mp hmem
    · cases heq
    · exact h.starting hmain hended hmem
  nodup := List.nodup_cons.mpr ⟨hn, h.nodup⟩

theorem Recorded.goto (h : Recorded options p) (i : Nat) {point : Point}
    (hp : point.frame = none) : Recorded options (p.goto i point) where
  requestCount := h.requestCount
  injecting := by
    intro j frame requestNumber hj
    rw [goto_point] at hj
    split at hj
    · rw [hj] at hp
      cases hp
    · exact h.injecting j frame requestNumber hj
  injected := h.injected
  startup := h.startup
  starting := h.starting
  nodup := h.nodup

theorem Recorded.ends (h : Recorded options p) : Recorded options { p with ended := true } where
  requestCount := h.requestCount
  injecting := h.injecting
  injected := h.injected
  startup := h.startup
  starting := by
    intro _ hended
    cases hended
  nodup := h.nodup

theorem mem_used_iff (n : Nat) : n ∈ p.desk.used ↔ .frame n ∈ p.calls := by
  show n ∈ p.calls.filterMap Call.frame? ↔ _
  rw [List.mem_filterMap]
  constructor
  · rintro ⟨c, hc, hn⟩
    cases c with
    | startup => cases hn
    | frame m =>
      obtain rfl := Option.some.inj hn
      exact hc
  · intro h
    exact ⟨.frame n, h, rfl⟩

theorem handle_recorded (hd : p.desk.Sound) (h : Recorded options p) (i : Nat)
    (survives : Bool) : Recorded options (p.handle options i survives) := by
  rw [Process.handle.eq_def]
  cases hp : p.point i with
  | absent | reading | hung | closed => exact h
  | measuring line =>
    dsimp only
    split
    · exact h.goto i rfl
    · exact h.goto i rfl
  | counting =>
    have hcount : p.requestCount + 1 = Int32.ofNat (p.counted + 1) := by
      rw [h.requestCount, Int32.ofNat_add]
      rfl
    constructor
    case requestCount => exact hcount
    case injecting =>
      intro j frame requestNumber hj
      dsimp only at hj
      rw [goto_point] at hj
      split at hj
      · cases hj
        exact hcount
      · exact h.injecting j frame requestNumber hj
    case injected => exact h.injected
    case startup => exact h.startup
    case starting => exact h.starting
    case nodup => exact h.nodup
  | injecting frame requestNumber =>
    have hnumber : requestNumber = Int32.ofNat frame := h.injecting i frame requestNumber hp
    have hheld : p.desk.held i = some frame := by
      show (p.point i).frame = some frame
      rw [hp]
      rfl
    -- a frame number that is held has not been used
    have hnew : .frame frame ∉ p.calls := by
      rw [← mem_used_iff]
      exact hd.held_unused i frame hheld
    have hcall := h.call hnew
    rw [← hnumber] at hcall
    dsimp only
    split
    · exact hcall.goto i rfl
    · exact hcall.goto i rfl
    · exact hcall.ends.goto i rfl
  | answering =>
    dsimp only
    split
    · exact h.goto i rfl
    · exact h.goto i rfl

theorem startup_recorded (h : Recorded options p) (hmain : p.main = .starting)
    (hended : p.ended = false) (survives : Bool) :
    Recorded options (p.startup options survives) := by
  rw [Process.startup]
  split
  · rename_i hzero
    have hinjected := call_injected h.injected .startup
    have hnodup : (.startup :: p.calls).Nodup :=
      List.nodup_cons.mpr ⟨h.starting hmain hended, h.nodup⟩
    dsimp only
    split
    · exact ⟨h.requestCount, h.injecting, hinjected, fun _ => hzero, by simp, hnodup⟩
    · exact ⟨h.requestCount, h.injecting, hinjected, fun _ => hzero, by simp, hnodup⟩
    · exact ⟨h.requestCount, h.injecting, hinjected, fun _ => hzero, by simp, hnodup⟩
  · exact ⟨h.requestCount, h.injecting, h.injected, h.startup, by simp, h.nodup⟩

theorem step_recorded (hd : p.desk.Sound) (h : Recorded options p) (e : Event) :
    Recorded options (step options p e) := by
  rw [step.eq_def]
  split
  · exact h
  · rename_i hended
    cases e with
    | startup survives =>
      dsimp only
      split
      · rename_i hmain
        exact startup_recorded h hmain (Bool.eq_false_iff.mpr hended) survives
      · exact h
    | accept i =>
      dsimp only
      split
      · exact h.goto i rfl
      · exact h
    | frame i line =>
      dsimp only
      split
      · exact h.goto i rfl
      · exact h
    | disconnect i =>
      dsimp only
      split
      · exact h.goto i rfl
      · exact h
    | handler i survives => exact handle_recorded hd h i survives
    | stop => exact h.ends

theorem desk_goto (p : Process) (i : Nat) (point : Point) :
    (p.goto i point).desk =
      { p.desk with held := Function.update p.desk.held i point.frame } := by
  have hheld : (p.goto i point).desk.held = Function.update p.desk.held i point.frame := by
    funext j
    show ((p.goto i point).point j).frame = _
    rw [goto_point, Function.update_apply]
    split
    · rfl
    · rfl
  rw [← hheld]
  rfl

theorem desk_goto_drop (p : Process) (i : Nat) {point : Point} (h : point.frame = none) :
    (p.goto i point).desk = p.desk.drop i := by
  rw [desk_goto, h]
  rfl

theorem handle_move (p : Process) (i : Nat) (survives : Bool) :
    Tickets.Move p.desk (p.handle options i survives).desk := by
  rw [Process.handle.eq_def]
  cases hp : p.point i with
  | absent | reading | hung | closed => exact .stay
  | measuring line =>
    dsimp only
    split
    · rw [desk_goto_drop p i rfl]
      exact .drop i
    · rw [desk_goto_drop p i rfl]
      exact .drop i
  | counting =>
    dsimp only
    rw [desk_goto]
    exact .take i
  | injecting frame requestNumber =>
    have hheld : p.desk.held i = some frame := by
      show (p.point i).frame = some frame
      rw [hp]
      rfl
    dsimp only
    split
    · rw [desk_goto_drop _ i rfl]
      exact .use i frame hheld
    · rw [desk_goto_drop _ i rfl]
      exact .use i frame hheld
    · rw [desk_goto_drop _ i rfl]
      exact .use i frame hheld
  | answering =>
    dsimp only
    split
    · rw [desk_goto_drop p i rfl]
      exact .drop i
    · rw [desk_goto_drop p i rfl]
      exact .drop i

theorem step_move (p : Process) (e : Event) : Tickets.Move p.desk (step options p e).desk := by
  rw [step.eq_def]
  split
  · exact .stay
  · cases e with
    | startup survives =>
      dsimp only
      split
      · rw [Process.startup]
        split
        · dsimp only
          split
          · exact .stay
          · exact .stay
          · exact .stay
        · exact .stay
      · exact .stay
    | accept i =>
      dsimp only
      split
      · rw [desk_goto_drop p i rfl]
        exact .drop i
      · exact .stay
    | frame i line =>
      dsimp only
      split
      · rw [desk_goto_drop p i rfl]
        exact .drop i
      · exact .stay
    | disconnect i =>
      dsimp only
      split
      · rw [desk_goto_drop p i rfl]
        exact .drop i
      · exact .stay
    | handler i survives => exact handle_move p i survives
    | stop => exact .stay

/-- What holds in every state of a run. -/
structure Reached (options : ServerOptions) (p : Process) : Prop where
  desk : p.desk.Sound
  recorded : Recorded options p

theorem start_reached (options : ServerOptions) : Reached options .start where
  desk := by constructor <;> simp [Process.start, Process.desk, Point.frame]
  recorded := by constructor <;> simp [Process.start]

theorem run_reached (options : ServerOptions) (es : List Event) :
    Reached options (run options es) := by
  apply Runs.run_invariant (start_reached options)
  intro p e h
  exact ⟨(step_move p e).sound h.desk, step_recorded h.desk h.recorded e⟩

/-- The fault fires once unless a frame that is not the configured one has its number
modulo 2^32. -/
theorem Reached.firesOnce_iff (h : Reached options p) (hfault : options.fault ≠ .none)
    (hafter : options.faultAfter.toInt = after) :
    FiresOnce after p ↔ ∀ k, .frame k ∈ p.calls → k % 2 ^ 32 = after → k = after := by
  -- the comparison is on `int32_t`, the configured number below 2^31
  have hzero : options.faultAfter = 0 ↔ after = 0 := by
    rw [← Int32.toInt_inj, hafter, Int32.toInt_zero]
    omega
  have hlt : after < 2 ^ 32 := by
    have := options.faultAfter.toInt_lt
    omega
  have hinjected (c : Call) : c ∈ p.injected ↔ c ∈ p.calls ∧ c.fires options = true := by
    rw [h.recorded.injected, List.mem_filter]
  constructor
  · intro hfires k hk hmod
    have hmem : .frame k ∈ p.injected :=
      (hinjected _).mpr ⟨hk, (fires_frame_iff hfault hafter k).mpr hmod⟩
    have hconf := ((hfires.1 _).mp hmem).2
    rw [configured] at hconf
    split at hconf
    · cases hconf
    · exact Call.frame.inj hconf
  · intro hk
    have hall (c : Call) : c ∈ p.injected ↔ c ∈ p.calls ∧ c = configured after := by
      rw [hinjected, and_congr_right_iff]
      intro hc
      rw [configured]
      cases c with
      | startup =>
        have hafter0 : after = 0 := hzero.mp (h.recorded.startup hc)
        rw [fires_startup_iff hfault, if_pos hafter0, hzero]
        exact iff_of_true hafter0 rfl
      | frame k =>
        have hpos := (h.desk.used_range k ((mem_used_iff k).mpr hc)).1
        rw [fires_frame_iff hfault hafter]
        constructor
        · intro hmod
          have heq := hk k hc hmod
          rw [if_neg (by omega), heq]
        · intro heq
          split at heq
          · cases heq
          · rw [Call.frame.inj heq]
            exact Nat.mod_eq_of_lt hlt
    refine ⟨hall, ?_⟩
    have hnodup : p.injected.Nodup := by
      rw [h.recorded.injected]
      exact h.recorded.nodup.filter _
    -- all that fires is the configured call, and no call is made twice
    have hsame : p.injected = List.replicate p.injected.length (configured after) :=
      List.eq_replicate_of_mem fun c hc => ((hall c).mp hc).2
    rw [hsame] at hnodup
    exact List.nodup_replicate.mp hnodup

/-- Before the counter has come round to the configured number the fault fires once. -/
theorem Reached.firesOnce_of_counted_lt (h : Reached options p) (hfault : options.fault ≠ .none)
    (hafter : options.faultAfter.toInt = after) (hlt : p.counted < 2 ^ 32 + after) :
    FiresOnce after p := by
  rw [h.firesOnce_iff hfault hafter]
  intro k hk hmod
  have hle := (h.desk.used_range k ((mem_used_iff k).mpr hk)).2
  have hle : k ≤ p.counted := hle
  omega

/-- The fault fires on the configured call only, unless a handler makes its call for another
frame with the same number modulo 2^32; none does in the first 2^32 + N - 1 frames. -/
theorem fires_once_iff (options : ServerOptions) {after : Nat} (hfault : options.fault ≠ .none)
    (hafter : options.faultAfter.toInt = after) (es : List Event) :
    (FiresOnce after (run options es) ↔
      ∀ k, .frame k ∈ (run options es).calls → k % 2 ^ 32 = after → k = after) ∧
    ((run options es).counted < 2 ^ 32 + after → FiresOnce after (run options es)) :=
  ⟨(run_reached options es).firesOnce_iff hfault hafter,
    (run_reached options es).firesOnce_of_counted_lt hfault hafter⟩

def slowOptions : ServerOptions where
  fault := .slow
  faultAfter := 1

/-- One empty frame on connection 0, answered. -/
def round : List Event := .frame 0 [] :: List.replicate 4 (.handler 0 true)

/-- A client that sends so many frames, one after the other. -/
def frames (m : Nat) : List Event := (List.replicate m round).flatten

theorem fires_once_iff_sample :
    FiresOnce 1 (run slowOptions (.startup true :: .accept 0 :: frames 3)) :=
  (fires_once_iff slowOptions (by decide) (by decide) _).2 (by decide +kernel)

section Rounds

theorem run_round (hended : p.ended = false) (hpoint : p.point 0 = .reading) :
    let p' := Runs.run (step slowOptions) p round
    p'.ended = false ∧ p'.point 0 = .reading ∧ p'.counted = p.counted + 1 ∧
      p'.calls = .frame (p.counted + 1) :: p.calls := by
  have hslow (survives : Bool) (n : Int32) :
      Outcome.of survives (maybeInjectFault slowOptions n) = .returns := by
    rw [maybeInjectFault]
    split
    · rfl
    · rfl
  have hshort : ¬ (stripCr []).length > kMaxLineBytes := by decide
  simp [round, List.replicate, step, Process.handle, Process.call, hended, hpoint, hslow, hshort]

theorem run_frames (hended : p.ended = false) (hpoint : p.point 0 = .reading) (m : Nat) :
    let p' := Runs.run (step slowOptions) p (frames (m + 1))
    .frame (p.counted + m + 1) ∈ p'.calls := by
  induction m generalizing p with
  | zero =>
    obtain ⟨-, -, -, hcalls⟩ := run_round hended hpoint
    show _ ∈ (Runs.run (step slowOptions) p (round ++ [])).calls
    rw [List.append_nil, hcalls]
    exact List.mem_cons_self
  | succ m ih =>
    obtain ⟨hended', hpoint', hcounted, -⟩ := run_round hended hpoint
    have hmem := ih hended' hpoint'
    rw [hcounted, Nat.add_assoc p.counted, Nat.add_comm 1] at hmem
    show _ ∈ (Runs.run (step slowOptions) p (round ++ frames (m + 1))).calls
    rw [Runs.run_append]
    exact hmem

theorem frames_called (m : Nat) :
    .frame (m + 1) ∈ (run slowOptions (.startup true :: .accept 0 :: frames (m + 1))).calls := by
  have hmem := run_frames (p := run slowOptions [.startup true, .accept 0]) (by decide)
    (by decide) m
  have hcounted : (run slowOptions [.startup true, .accept 0]).counted = 0 := by decide
  rw [hcounted, Nat.zero_add] at hmem
  exact hmem

/-- One client and 2^32 + 1 frames: the first is answered late, and so is the last. -/
theorem fires_again :
    ¬ FiresOnce 1 (run slowOptions (.startup true :: .accept 0 :: frames (2 ^ 32 + 1))) := by
  rw [(run_reached slowOptions _).firesOnce_iff (by decide) (by decide)]
  intro hall
  exact absurd (hall _ (frames_called (2 ^ 32)) (by decide)) (by decide)

end Rounds

end Cpp.Faults
