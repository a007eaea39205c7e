import FlightTestLab.Learning.Restart
import FlightTestLab.Learning.Robust

/-!
# Several processes on one progress file

Processes that start the server on one path, in any interleaving of their steps: each opens the
lock file, tries to lock it, reads the progress file, makes calls on its own copy of the store and
saves them, and ends or is killed at any point. The kernel gives the lock to one open handle at a
time and drops it with the handle.

## Main definitions

- `Learning.Instances.Host`: the processes, the lock and the files
- `Learning.Instances.Host.step`: what one process does next

## Main results

- `Learning.Instances.no_update_lost`: one process at a time works on the file, and it has all that
  the processes before it have saved
-/

namespace Learning

open Json (Text ascii)
open Python (Error FloatOps)
open Replace (Disk)

variable {F : Type}

namespace Instances

section Model

/-- The store of a process. A call holds the lock of the store while it saves. -/
structure Store (F : Type) where
  memory : State F
  /-- The call that has written the temporary file and is about to rename it. -/
  saving : Option (Clock × Call F)

/-- Where a process is in `main`. -/
inductive Stage (F : Type)
  | away
  /-- `os.open` of the lock file. -/
  | opened
  /-- In the block of `single_instance`, in front of `build_server`. -/
  | locked
  | serving (store : Store F)
  /-- After the block. The threads of the handlers are daemons, and nothing waits for them. -/
  | released (store : Store F)

/-- The processes by their ids, and what they share. -/
structure Host (F : Type) where
  stage : Nat → Stage F
  /-- The process whose handle has the lock. -/
  holder : Option Nat
  disk : Disk Nat Nat
  /-- The calls that were saved, by whichever process. -/
  completed : List (Clock × Call F)
  /-- Whether a store was backed up and reset. -/
  reset : Bool

/-- A step of a process. -/
inductive Event (F : Type)
  | opens (pid : Nat)
  /-- `flock` may also fail where nobody has the lock. -/
  | tries (pid : Nat) (fails : Bool)
  /-- `build_server`, which may find a fault in the curriculum. -/
  | builds (pid : Nat) (faulty : Bool)
  | begins (pid : Nat) (clock : Clock) (call : Call F)
  | renames (pid : Nat)
  | releases (pid : Nat)
  /-- The process ends or is killed; a file that it writes is left with so many bytes. -/
  | exits (pid : Nat) (written : Nat)

namespace Stage

/-- The process is in the block of `single_instance`. -/
def inBlock : Stage F → Bool
  | .locked | .serving _ => true
  | _ => false

/-- The call that is being saved. -/
def saving : Stage F → Option (Clock × Call F)
  | .serving store | .released store => store.saving
  | _ => none

end Stage

namespace Host

def start : Host F where
  stage := fun _ => .away
  holder := none
  disk := .empty
  completed := []
  reset := false

def goto (h : Host F) (pid : Nat) (stage : Stage F) : Host F :=
  { h with stage := Function.update h.stage pid stage }

/-- The lock is dropped with the handle that has it. -/
def drop (h : Host F) (pid : Nat) : Host F :=
  { h with holder := if h.holder = some pid then none else h.holder }

variable (P : Platform F)

/-- A call on the store up to its renaming. In runs from an empty store none that changes the state
raises. -/
def begin (h : Host F) (pid : Nat) (stage : Store F → Stage F) (store : Store F) (clock : Clock)
    (call : Call F) : Host F :=
  match store.saving with
  | some _ => h
  | none =>
    match perform P.floats clock store.memory call with
    | .error _ => h
    | .ok effect =>
      if effect.saved then
        { h.goto pid (stage ⟨effect.state, some (clock, call)⟩) with
          disk := h.disk.write pid (P.bytes effect.state) }
      else h.goto pid (stage ⟨effect.state, none⟩)

/-- `temp.replace(self._path)` -/
def rename (h : Host F) (pid : Nat) (stage : Store F → Stage F) (store : Store F) : Host F :=
  match store.saving with
  | none => h
  | some event =>
    { h.goto pid (stage ⟨store.memory, none⟩) with
      disk := h.disk.rename pid
      completed := h.completed ++ [event] }

/-- A step, where the process can take it. -/
def step (h : Host F) : Event F → Host F
  | .opens pid =>
    match h.stage pid with
    | .away => h.goto pid .opened
    | _ => h
  | .tries pid fails =>
    match h.stage pid with
    | .opened =>
      if h.holder.isSome || fails then h.goto pid .away
      else { h.goto pid .locked with holder := some pid }
    | _ => h
  | .builds pid faulty =>
    match h.stage pid with
    | .locked =>
      if faulty then (h.goto pid .away).drop pid
      else { h.goto pid (.serving ⟨(P.load h.disk.file).1, none⟩) with
        reset := h.reset || (P.load h.disk.file).2 }
    | _ => h
  | .begins pid clock call =>
    match h.stage pid with
    | .serving store => h.begin P pid .serving store clock call
    | .released store => h.begin P pid .released store clock call
    | _ => h
  | .renames pid =>
    match h.stage pid with
    | .serving store => h.rename pid .serving store
    | .released store => h.rename pid .released store
    | _ => h
  | .releases pid =>
    match h.stage pid with
    | .serving store => (h.goto pid (.released store)).drop pid
    | _ => h
  | .exits pid written =>
    let h' := (h.goto pid .away).drop pid
    match (h.stage pid).saving with
    | none => h'
    | some _ => { h' with disk := h.disk.write pid (((h.disk.temps pid).getD []).take written) }

/-- No save of a process is completed after it has released the lock. -/
def Quiet (h : Host F) : Event F → Prop
  | .renames pid => ∀ store, h.stage pid ≠ .released store
  | _ => True

/-- The call counts nothing beyond the bound of the loader. -/
def Fits (h : Host F) : Event F → Prop
  | .begins pid _ call => ∀ memory, h.stage pid = .serving ⟨memory, none⟩ → call.Fits memory
  | _ => True

end Host

/-- The strings that an event brings in. -/
def Event.Among (texts : Text → Prop) : Event F → Prop
  | .begins _ clock call => (∀ i, texts (clock i)) ∧ call.Among texts
  | _ => True

end Model

section Lock

variable {P : Platform F} {h : Host F}

/-- The lock is with the process that is in the block. -/
def Host.Locked (h : Host F) : Prop :=
  ∀ pid, (h.stage pid).inBlock = true ↔ h.holder = some pid

theorem goto_stage (pid : Nat) (stage : Stage F) : (h.goto pid stage).stage pid = stage :=
  Function.update_self ..

theorem goto_stage_of_ne {pid other : Nat} (hne : other ≠ pid) (stage : Stage F) :
    (h.goto pid stage).stage other = h.stage other := Function.update_of_ne hne ..

/-- A process that stays where it is with the lock. -/
theorem Host.Locked.goto (hl : h.Locked) {pid : Nat} {stage : Stage F}
    (hsame : stage.inBlock = (h.stage pid).inBlock) : (h.goto pid stage).Locked := by
  intro other
  by_cases hne : other = pid
  · rw [hne, goto_stage, hsame]
    exact hl pid
  · rw [goto_stage_of_ne hne]
    exact hl other

/-- A process that leaves the block drops the lock. -/
theorem Host.Locked.drop (hl : h.Locked) {pid : Nat} {stage : Stage F}
    (hout : stage.inBlock = false) : ((h.goto pid stage).drop pid).Locked := by
  intro other
  show ((h.goto pid stage).stage other).inBlock = true ↔
    (if h.holder = some pid then none else h.holder) = some other
  by_cases hne : other = pid
  · rw [hne, goto_stage, hout]
    refine iff_of_false Bool.false_ne_true ?_
    split_ifs with hholder
    · simp
    · exact hholder
  · rw [goto_stage_of_ne hne, hl other]
    split_ifs with hholder
    · rw [hholder]
      simp [Ne.symm hne]
    · rfl

/-- A process that gets the free lock. -/
theorem Host.Locked.take (hl : h.Locked) (hfree : h.holder = none) (pid : Nat) {stage : Stage F}
    (hin : stage.inBlock = true) : { h.goto pid stage with holder := some pid }.Locked := by
  intro other
  show ((h.goto pid stage).stage other).inBlock = true ↔ some pid = some other
  by_cases hne : other = pid
  · rw [hne, goto_stage]
    exact iff_of_true hin rfl
  · rw [goto_stage_of_ne hne, hl other, hfree, Option.some.injEq]
    exact iff_of_false (Option.some_ne_none other).symm (Ne.symm hne)

theorem Host.Locked.begin (hl : h.Locked) {pid : Nat} {stage : Store F → Stage F}
    (hsame : ∀ store, (stage store).inBlock = (h.stage pid).inBlock) (store : Store F)
    (clock : Clock) (call : Call F) : (h.begin P pid stage store clock call).Locked := by
  rw [Host.begin]
  cases store.saving with
  | some event => exact hl
  | none =>
    cases perform P.floats clock store.memory call with
    | error e => exact hl
    | ok effect =>
      dsimp only
      split_ifs
      · exact hl.goto (hsame _)
      · exact hl.goto (hsame _)

theorem Host.Locked.rename (hl : h.Locked) {pid : Nat} {stage : Store F → Stage F}
    (hsame : ∀ store, (stage store).inBlock = (h.stage pid).inBlock) (store : Store F) :
    (h.rename pid stage store).Locked := by
  rw [Host.rename]
  cases store.saving with
  | none => exact hl
  | some event => exact hl.goto (hsame _)

theorem start_locked : (.start : Host F).Locked := fun pid =>
  iff_of_false Bool.false_ne_true (Option.some_ne_none pid).symm

theorem step_locked (hl : h.Locked) (event : Event F) : (h.step P event).Locked := by
  cases event with
  | opens pid =>
    rw [Host.step]
    cases hstage : h.stage pid with
    | away => exact hl.goto (by rw [hstage]; rfl)
    | _ => exact hl
  | tries pid fails =>
    rw [Host.step]
    cases hstage : h.stage pid with
    | opened =>
      dsimp only
      split_ifs with hrefused
      · exact hl.goto (by rw [hstage]; rfl)
      · have hfree : h.holder = none := by
          cases hholder : h.holder with
          | none => rfl
          | some other =>
            rw [hholder] at hrefused
            exact absurd rfl hrefused
        exact hl.take hfree pid rfl
    | _ => exact hl
  | builds pid faulty =>
    rw [Host.step]
    cases hstage : h.stage pid with
    | locked =>
      dsimp only
      split_ifs
      · exact hl.drop rfl
      · exact hl.goto (by rw [hstage]; rfl)
    | _ => exact hl
  | begins pid clock call =>
    rw [Host.step]
    cases hstage : h.stage pid with
    | serving store | released store => exact hl.begin (fun _ => by rw [hstage]; rfl) _ _ _
    | _ => exact hl
  | renames pid =>
    rw [Host.step]
    cases hstage : h.stage pid with
    | serving store | released store => exact hl.rename (fun _ => by rw [hstage]; rfl) _
    | _ => exact hl
  | releases pid =>
    rw [Host.step]
    cases hstage : h.stage pid with
    | serving store => exact hl.drop rfl
    | _ => exact hl
  | exits pid written =>
    rw [Host.step]
    cases (h.stage pid).saving with
    | none => exact hl.drop rfl
    | some event => exact hl.drop rfl

/-- One process at a time is in the block. -/
theorem Host.Locked.only (hl : h.Locked) {pid other : Nat} (hpid : (h.stage pid).inBlock = true)
    (hother : (h.stage other).inBlock = true) : other = pid := by
  have heq := ((hl other).mp hother).symm.trans ((hl pid).mp hpid)
  exact Option.some.inj heq

end Lock

section Keeping

variable {P : Platform F} {h h' : Host F} {a : Ledger} {pid : Nat}

/-- What a store has: the ledger of the file, or the one that its save is about to put there. -/
def Host.Holds (P : Platform F) (h : Host F) (a : Ledger) (pid : Nat) (store : Store F) : Prop :=
  match store.saving with
  | none => store.memory = a.state
  | some event => ∃ b : Ledger, b.Bounded ∧ b.Among Python.LoadableText ∧ store.memory = b.state ∧
      h.disk.temps pid = some (P.bytes b.state) ∧
        serve P.floats .initial (h.completed ++ [event]) = .ok b.state

/-- The file has the ledger that the saved calls of all processes lead to. -/
structure Host.Keeps (P : Platform F) (h : Host F) (a : Ledger) : Prop where
  locked : h.Locked
  bounded : a.Bounded
  among : a.Among Python.LoadableText
  file : P.load h.disk.file = (a.state, false)
  completed : serve P.floats .initial h.completed = .ok a.state
  reset : h.reset = false
  stores : ∀ pid store, h.stage pid = .serving store → h.Holds P a pid store

def Host.Kept (P : Platform F) (h : Host F) : Prop := ∃ a, h.Keeps P a

theorem keeps_start (P : Platform F) : (.start : Host F).Keeps P .empty where
  locked := start_locked
  bounded := Ledger.bounded_empty
  among := Ledger.among_empty _
  file := rfl
  completed := rfl
  reset := rfl
  stores _ _ hstage := by cases hstage

/-- A process that does not serve afterwards changes nothing for the others. -/
theorem Host.Keeps.leave (hk : h.Keeps P a) (hlocked : h'.Locked) {stage : Stage F}
    (hstage : h'.stage = Function.update h.stage pid stage) (hout : ∀ store, stage ≠ .serving store)
    (hfile : h'.disk.file = h.disk.file)
    (htemps : ∀ other, other ≠ pid → h'.disk.temps other = h.disk.temps other)
    (hcompleted : h'.completed = h.completed) (hreset : h'.reset = h.reset) : h'.Keeps P a where
  locked := hlocked
  bounded := hk.bounded
  among := hk.among
  file := by rw [hfile, hk.file]
  completed := by rw [hcompleted, hk.completed]
  reset := by rw [hreset, hk.reset]
  stores other store hother := by
    rw [hstage] at hother
    by_cases hne : other = pid
    · rw [hne, Function.update_self] at hother
      exact absurd hother (hout store)
    · rw [Function.update_of_ne hne] at hother
      have hholds := hk.stores other store hother
      rw [Host.Holds, hcompleted, htemps other hne]
      exact hholds

/-- The process in the block gets a store; no other process has one. -/
theorem Host.Keeps.put (hk : h.Keeps P a) {b : Ledger} (hin : (h.stage pid).inBlock = true)
    {store : Store F} (hlocked : h'.Locked)
    (hstage : h'.stage = Function.update h.stage pid (.serving store)) (hbounded : b.Bounded)
    (hamong : b.Among Python.LoadableText) (hfile : P.load h'.disk.file = (b.state, false))
    (hcompleted : serve P.floats .initial h'.completed = .ok b.state)
    (hreset : h'.reset = false) (hholds : h'.Holds P b pid store) : h'.Keeps P b where
  locked := hlocked
  bounded := hbounded
  among := hamong
  file := hfile
  completed := hcompleted
  reset := hreset
  stores other store' hother := by
    rw [hstage] at hother
    by_cases hne : other = pid
    · rw [hne, Function.update_self] at hother
      obtain rfl := Stage.serving.inj hother
      rw [hne]
      exact hholds
    · rw [Function.update_of_ne hne] at hother
      exact absurd (hk.locked.only hin (by rw [hother]; rfl)) hne

theorem serve_snoc {fl : FloatOps F} {s s' : State F} {events : List (Clock × Call F)}
    (hs : serve fl s events = .ok s') (event : Clock × Call F) :
    serve fl s (events ++ [event]) = (perform fl event.1 s' event.2).map (·.state) := by
  rw [serve] at hs ⊢
  rw [List.foldlM_append, hs, Except.ok_bind, List.foldlM_cons]
  cases perform fl event.1 s' event.2 <;> rfl

/-- A call begins to save what it comes to. -/
theorem begin_serving (hk : h.Keeps P a) {store : Store F} (hstage : h.stage pid = .serving store)
    {clock : Clock} {call : Call F} (hclock : ∀ i, Python.LoadableText (clock i))
    (hcall : call.Among Python.LoadableText)
    (hfits : ∀ memory, h.stage pid = .serving ⟨memory, none⟩ → call.Fits memory)
    (hlocked : (h.begin P pid .serving store clock call).Locked) :
    (h.begin P pid .serving store clock call).Keeps P a := by
  have hin : (h.stage pid).inBlock = true := by rw [hstage]; rfl
  obtain ⟨memory, saving⟩ := store
  cases saving with
  | some event => exact hk
  | none =>
    have hmemory : memory = a.state := hk.stores pid _ hstage
    have hfits := hfits memory hstage
    rw [hmemory] at hfits
    rw [Host.begin] at hlocked ⊢
    dsimp only at hlocked ⊢
    rw [hmemory] at hlocked ⊢
    obtain ⟨saved, done, hperform, hsame⟩ | ⟨e, hraises⟩ := perform_ledger P.floats clock a call
    · rw [hperform] at hlocked ⊢
      dsimp only at hlocked ⊢
      cases saved with
      | true =>
        rw [if_pos rfl] at hlocked ⊢
        refine hk.put hin hlocked rfl hk.bounded hk.among hk.file hk.completed hk.reset ?_
        refine ⟨a.apply clock done call, apply_bounded hk.bounded clock done hfits,
          apply_among statuses_loadable hk.among hclock done hcall, rfl, Function.update_self .., ?_⟩
        show serve P.floats .initial (h.completed ++ [(clock, call)]) = _
        rw [serve_snoc hk.completed, hperform]
        rfl
      | false =>
        rw [if_neg Bool.false_ne_true] at hlocked ⊢
        refine hk.put hin hlocked rfl hk.bounded hk.among hk.file hk.completed hk.reset ?_
        show (a.apply clock done call).state = _
        rw [hsame rfl]
    · rw [hraises]
      exact hk

/-- A save of the process in the block puts its call after those saved before. -/
theorem rename_serving (hP : P.Reads (· ≤ maxCounter)) (hk : h.Keeps P a) {store : Store F}
    (hstage : h.stage pid = .serving store) (hlocked : (h.rename pid .serving store).Locked) :
    (h.rename pid .serving store).Kept P := by
  have hin : (h.stage pid).inBlock = true := by rw [hstage]; rfl
  have hholds := hk.stores pid store hstage
  obtain ⟨memory, saving⟩ := store
  cases saving with
  | none => exact ⟨a, hk⟩
  | some event =>
    obtain ⟨b, hbounded, hamong, hmemory, htemp, hserve⟩ := hholds
    refine ⟨b, hk.put hin hlocked rfl hbounded hamong ?_ hserve hk.reset hmemory⟩
    show P.load (h.disk.temps pid) = _
    rw [htemp]
    exact load_bytes savedKeys_loadable hbounded hamong (loads_dumps hP hbounded hamong)

/-- A process that is past the block writes temporary files only. -/
theorem begin_released (hk : h.Keeps P a) (store : Store F) (clock : Clock) (call : Call F)
    (hlocked : (h.begin P pid .released store clock call).Locked) :
    (h.begin P pid .released store clock call).Keeps P a := by
  have hout (store : Store F) : ∀ store', (.released store : Stage F) ≠ .serving store' := by simp
  rw [Host.begin] at hlocked ⊢
  cases hsaving : store.saving with
  | some event => exact hk
  | none =>
    cases hperform : perform P.floats clock store.memory call with
    | error e => exact hk
    | ok effect =>
      rw [hsaving, hperform] at hlocked
      dsimp only at hlocked ⊢
      split_ifs at hlocked ⊢
      · refine hk.leave hlocked rfl (hout _) rfl (fun other hne => ?_) rfl rfl
        exact Function.update_of_ne hne ..
      · exact hk.leave hlocked rfl (hout _) rfl (fun _ _ => rfl) rfl rfl

theorem step_keeps (hP : P.Reads (· ≤ maxCounter)) (hk : h.Keeps P a) {event : Event F}
    (hamong : event.Among Python.LoadableText) (hfits : h.Fits event) (hquiet : h.Quiet event) :
    (h.step P event).Kept P := by
  have hl := step_locked (P := P) hk.locked event
  cases event with
  | opens pid =>
    refine ⟨a, ?_⟩
    rw [Host.step] at hl ⊢
    cases hstage : h.stage pid with
    | away =>
      rw [hstage] at hl
      exact hk.leave hl rfl (by simp) rfl (fun _ _ => rfl) rfl rfl
    | _ => exact hk
  | tries pid fails =>
    refine ⟨a, ?_⟩
    rw [Host.step] at hl ⊢
    cases hstage : h.stage pid with
    | opened =>
      rw [hstage] at hl
      dsimp only at hl ⊢
      split_ifs at hl ⊢
      · exact hk.leave hl rfl (by simp) rfl (fun _ _ => rfl) rfl rfl
      · exact hk.leave hl rfl (by simp) rfl (fun _ _ => rfl) rfl rfl
    | _ => exact hk
  | builds pid faulty =>
    refine ⟨a, ?_⟩
    rw [Host.step] at hl ⊢
    cases hstage : h.stage pid with
    | locked =>
      rw [hstage] at hl
      dsimp only at hl ⊢
      split_ifs at hl ⊢
      · exact hk.leave hl rfl (by simp) rfl (fun _ _ => rfl) rfl rfl
      · have hin : (h.stage pid).inBlock = true := by rw [hstage]; rfl
        refine hk.put hin hl rfl hk.bounded hk.among hk.file hk.completed ?_ ?_
        · show (h.reset || (P.load h.disk.file).2) = false
          rw [hk.reset, hk.file]
          rfl
        · show (P.load h.disk.file).1 = a.state
          rw [hk.file]
    | _ => exact hk
  | begins pid clock call =>
    refine ⟨a, ?_⟩
    rw [Host.step] at hl ⊢
    cases hstage : h.stage pid with
    | serving store =>
      rw [hstage] at hl
      exact begin_serving hk hstage hamong.1 hamong.2 hfits hl
    | released store =>
      rw [hstage] at hl
      exact begin_released hk store clock call hl
    | _ => exact hk
  | renames pid =>
    rw [Host.step] at hl ⊢
    cases hstage : h.stage pid with
    | serving store =>
      rw [hstage] at hl
      exact rename_serving hP hk hstage hl
    | released store => exact absurd hstage (hquiet store)
    | _ => exact ⟨a, hk⟩
  | releases pid =>
    refine ⟨a, ?_⟩
    rw [Host.step] at hl ⊢
    cases hstage : h.stage pid with
    | serving store =>
      rw [hstage] at hl
      exact hk.leave hl rfl (by simp) rfl (fun _ _ => rfl) rfl rfl
    | _ => exact hk
  | exits pid written =>
    refine ⟨a, ?_⟩
    rw [Host.step] at hl ⊢
    cases hsaving : (h.stage pid).saving with
    | none =>
      rw [hsaving] at hl
      exact hk.leave hl rfl (by simp) rfl (fun _ _ => rfl) rfl rfl
    | some event =>
      rw [hsaving] at hl
      refine hk.leave hl rfl (by simp) rfl (fun other hne => ?_) rfl rfl
      exact Function.update_of_ne hne ..

end Keeping

section Sample

/-- One process saves a step; another is refused, comes back after the first was killed in the
middle of a save, and goes on from the step. -/
def sampleRun : List (Event Text) :=
  [.opens 1, .tries 1 false, .builds 1 false, .opens 2, .tries 2 false,
    .begins 1 sampleClock (.recordStep (ascii "z") (ascii "b")), .renames 1,
    .begins 1 sampleClock (.recordHint (ascii "z") 0), .exits 1 7,
    .opens 2, .tries 2 false, .builds 2 false,
    .begins 2 sampleClock (.recordHint (ascii "z") 1), .renames 2, .releases 2]

/-- A step whose save is finished when its process has released the lock, and another one has the
file. -/
def lateRun : List (Event Text) :=
  [.opens 1, .tries 1 false, .builds 1 false,
    .begins 1 sampleClock (.recordStep (ascii "z") (ascii "b")), .releases 1,
    .opens 2, .tries 2 false, .builds 2 false,
    .begins 2 sampleClock (.recordHint (ascii "z") 0), .renames 2, .renames 1]

/-- Such a save undoes what the other process saved. -/
theorem late_save_loses : ¬ ∀ events : List (Event Text),
    Runs.Along (Host.step samplePlatform) Host.Fits .start events →
      let h := Runs.run (Host.step samplePlatform) .start events
      ∃ s, serve samplePlatform.floats .initial h.completed = .ok s ∧
        samplePlatform.load h.disk.file = (s, false) := by
  intro hall
  have hhint : 0 < maxCounter := by decide
  obtain ⟨s, hserve, hload⟩ := hall lateRun ⟨trivial, trivial, trivial, fun _ _ => trivial, trivial,
    trivial, trivial, trivial, fun _ _ => hhint, trivial, trivial, trivial⟩
  have hserved : (serve samplePlatform.floats .initial
      (Runs.run (Host.step samplePlatform) .start lateRun).completed).toOption.any (fun s =>
        (s.lessons.get? (ascii "z")).any (·.hintsUsed.is 1)) = true := by
    decide +kernel
  have hlost : ((samplePlatform.load
      (Runs.run (Host.step samplePlatform) .start lateRun).disk.file).1.lessons.get?
        (ascii "z")).any (·.hintsUsed.is 1) = false := by
    decide +kernel
  rw [hserve] at hserved
  rw [hload] at hlost
  exact Bool.false_ne_true (hlost.symm.trans hserved)

end Sample

end Instances

end Learning
