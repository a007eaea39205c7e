import Mathlib.Data.List.Perm.Basic
import Mathlib.Data.List.Range
import FlightTestLab.Library.Runs

/-!
# The handler threads of the native DUT

The accept loop of `run_server`, `reap_finished` with `std::remove_if` taken one
element at a time, and the shutdown sequence, against threads that set their flag at
any moment.

## Main definitions

- `Cpp.Threads.Handler`: an element of the `handlers` vector
- `Cpp.Threads.Point`: where `run_server` stands
- `Cpp.Threads.step`: one step of `run_server` or of its surroundings
-/

namespace Cpp.Threads

/-- `Handler`. Threads are numbered in the order they are started; the `std::thread` is
`none` once joined or moved from, the flag once moved from. -/
structure Handler where
  thread : Option Nat
  done : Option Nat
  deriving DecidableEq, Repr

def Handler.joinable (handler : Handler) : Bool := handler.thread.isSome

/-- What a move leaves behind. -/
def movedFrom : Handler := ⟨none, none⟩

/-- Where `run_server` stands: about to test `stop_requested`, in `accept`, in the
`find_if` and in the shifting loop of `remove_if`, in `erase`, in the first pass before
its wait and before its join, in the second pass, or out of the function. -/
inductive Point
  | looping
  | accepting
  | finding (first : Nat)
  | shifting (result first : Nat)
  | erasing (finished : Nat)
  | waiting (i : Nat)
  | joining (i : Nat)
  | scanning (i : Nat) (allJoined : Bool)
  | returned
  | exited
  /-- `std::terminate`: a joinable thread was overwritten or destroyed. -/
  | terminated
  /-- A flag was read through a null pointer. -/
  | invalid
  deriving DecidableEq, Repr

def Point.over : Point → Bool
  | .returned | .exited | .terminated | .invalid => true
  | _ => false

structure Process where
  handlers : List Handler
  started : Nat
  /-- The threads whose flag is set. -/
  finished : List Nat
  /-- The threads joined, the latest first. -/
  joins : List Nat
  stopRequested : Bool
  expired : Bool
  point : Point
  deriving DecidableEq, Repr

inductive Event
  /-- A thread sets its flag. -/
  | finish (id : Nat)
  /-- `accept` returns a connection. -/
  | connection
  | stop
  /-- The shutdown deadline passes. -/
  | expire
  /-- `run_server` takes its next step. -/
  | advance
  deriving DecidableEq, Repr

def Process.start : Process :=
  { handlers := [], started := 0, finished := [], joins := [], stopRequested := false,
    expired := false, point := .looping }

/-- `handler.done->load()`, `none` through a null pointer. -/
def Process.load (p : Process) (handler : Handler) : Option Bool :=
  handler.done.map fun id => p.finished.contains id

/-- `if (handler.thread.joinable()) handler.thread.join();` on the `i`-th handler. -/
def Process.join (p : Process) (i : Nat) (handler : Handler) : Process :=
  match handler.thread with
  | some id => { p with
      handlers := p.handlers.set i { handler with thread := none }
      joins := id :: p.joins }
  | none => p

/-- `*result = std::move(*first)`. -/
def Process.moveAssign (p : Process) (result first : Nat) (handler : Handler) : Process :=
  if p.handlers[result]?.any Handler.joinable then { p with point := .terminated }
  else { p with
    handlers := (p.handlers.set result handler).set first movedFrom
    point := .shifting (result + 1) (first + 1) }

/-- One round of the `find_if` that `remove_if` starts with. -/
def Process.find (p : Process) (first : Nat) : Process :=
  match p.handlers[first]? with
  | none => { p with point := .erasing first }
  | some handler =>
    match p.load handler with
    | none => { p with point := .invalid }
    | some false => { p with point := .finding (first + 1) }
    | some true => { p.join first handler with point := .shifting first (first + 1) }

/-- One round of the loop in `remove_if` that shifts what stays. -/
def Process.shift (p : Process) (result first : Nat) : Process :=
  match p.handlers[first]? with
  | none => { p with point := .erasing result }
  | some handler =>
    match p.load handler with
    | none => { p with point := .invalid }
    | some false => p.moveAssign result first handler
    | some true => { p.join first handler with point := .shifting result (first + 1) }

/-- `handlers.erase(finished, handlers.end())`. -/
def Process.erase (p : Process) (finished : Nat) : Process :=
  if (p.handlers.drop finished).any Handler.joinable then { p with point := .terminated }
  else { p with handlers := p.handlers.take finished, point := .looping }

/-- The test of the first pass's wait; a failed one sleeps and tests again. -/
def Process.wait (p : Process) (i : Nat) : Process :=
  match p.handlers[i]? with
  | none => { p with point := .scanning 0 true }
  | some handler =>
    match p.load handler with
    | none => { p with point := .invalid }
    | some done => if !done && !p.expired then p else { p with point := .joining i }

/-- The first pass after its wait, which reads the flag again. -/
def Process.joinFinished (p : Process) (i : Nat) : Process :=
  match p.handlers[i]? with
  | none => { p with point := .invalid }
  | some handler =>
    match p.load handler with
    | none => { p with point := .invalid }
    | some false => { p with point := .waiting (i + 1) }
    | some true => { p.join i handler with point := .waiting (i + 1) }

/-- The end of `run_server`: `_Exit`, or a return that destroys the vector. -/
def Process.leave (p : Process) (allJoined : Bool) : Process :=
  if !allJoined then { p with point := .exited }
  else if p.handlers.any Handler.joinable then { p with point := .terminated }
  else { p with handlers := [], point := .returned }

/-- One round of the second pass, and what follows it. -/
def Process.scan (p : Process) (i : Nat) (allJoined : Bool) : Process :=
  match p.handlers[i]? with
  | none => p.leave allJoined
  | some handler =>
    match p.load handler with
    | none => { p with point := .invalid }
    | some false => { p with point := .scanning (i + 1) (allJoined && !handler.joinable) }
    -- joined here if it was not before
    | some true => { p.join i handler with point := .scanning (i + 1) allJoined }

/-- The next step of `run_server`. -/
def Process.advance (p : Process) : Process :=
  match p.point with
  | .looping =>
    if p.stopRequested then { p with expired := false, point := .waiting 0 }
    else { p with point := .accepting }
  -- `accept` timed out
  | .accepting => { p with point := .looping }
  | .finding first => p.find first
  | .shifting result first => p.shift result first
  | .erasing finished => p.erase finished
  | .waiting i => p.wait i
  | .joining i => p.joinFinished i
  | .scanning i allJoined => p.scan i allJoined
  | .returned | .exited | .terminated | .invalid => p

def step (p : Process) (e : Event) : Process :=
  if p.point.over then p
  else match e with
    | .finish id =>
      if id < p.started then { p with finished := id :: p.finished } else p
    | .connection =>
      if p.point = .accepting then { p with
        handlers := p.handlers ++ [⟨some p.started, some p.started⟩]
        started := p.started + 1
        point := .finding 0 }
      else p
    | .stop => { p with stopRequested := true }
    | .expire => { p with expired := true }
    | .advance => p.advance

def run (es : List Event) : Process := Runs.run step .start es

section Vector

variable {handlers : List Handler} {handler : Handler} {result first i : Nat}

theorem filterMap_cons_toList {α β : Type*} (f : α → Option β) (a : α) (l : List α) :
    (a :: l).filterMap f = (f a).toList ++ l.filterMap f := by
  cases h : f a <;> simp [h]

/-- Overwriting an element trades what the old one held for what the new one holds. -/
theorem filterMap_set_perm {α β : Type*} (f : α → Option β) {l : List α} {i : Nat} {a : α}
    (b : α) (h : l[i]? = some a) :
    ((f a).toList ++ (l.set i b).filterMap f).Perm ((f b).toList ++ l.filterMap f) := by
  induction l generalizing i with
  | nil => simp at h
  | cons x l ih =>
    cases i with
    | zero =>
      obtain rfl : x = a := by simpa using h
      rw [List.set_cons_zero, filterMap_cons_toList, filterMap_cons_toList]
      exact List.perm_append_comm_assoc ..
    | succ i =>
      rw [List.set_cons_succ, filterMap_cons_toList, filterMap_cons_toList]
      refine (List.perm_append_comm_assoc ..).trans (.trans ?_ (List.perm_append_comm_assoc ..))
      exact (ih (by simpa using h)).append_left _

/-- The slots from `result` up to `first` own no thread; all others hold their flag. -/
def Gap (result first : Nat) (handlers : List Handler) : Prop :=
  ∀ i handler, handlers[i]? = some handler →
    if result ≤ i ∧ i < first then handler.thread = none else handler.done.isSome = true

theorem Gap.holds (h : Gap result first handlers) (hi : handlers[i]? = some handler)
    (hout : ¬(result ≤ i ∧ i < first)) : handler.done.isSome = true := by
  have := h i handler hi
  rwa [if_neg hout] at this

theorem Gap.emptied (h : Gap result first handlers) (hi : handlers[i]? = some handler)
    (hr : result ≤ i) (hf : i < first) : handler.thread = none := by
  have := h i handler hi
  rwa [if_pos ⟨hr, hf⟩] at this

theorem gap_iff_of_le (h : first ≤ result) : Gap result first handlers ↔ Gap 0 0 handlers := by
  have hk (i : Nat) : ¬(result ≤ i ∧ i < first) := by omega
  simp [Gap, hk]

theorem Gap.nil (result first : Nat) : Gap result first [] := by
  intro i handler hi
  simp at hi

theorem Gap.push (h : Gap 0 0 handlers) {id : Nat} :
    Gap 0 0 (handlers ++ [⟨some id, some id⟩]) := by
  intro i handler hi
  rw [if_neg (by omega)]
  obtain hi | rfl : handlers[i]? = some handler ∨ handler = ⟨some id, some id⟩ := by
    grind
  · exact h.holds hi (by omega)
  · rfl

/-- Joining outside the gap leaves it as it was. -/
theorem Gap.join (h : Gap result first handlers) (hi : handlers[i]? = some handler)
    (hout : ¬(result ≤ i ∧ i < first)) :
    Gap result first (handlers.set i { handler with thread := none }) := by
  intro j other hj
  by_cases hij : i = j
  · subst hij
    obtain rfl : { handler with thread := none } = other := by grind
    rw [if_neg hout]
    show handler.done.isSome = true
    exact h.holds hi hout
  · exact h j other (by rwa [List.getElem?_set_ne hij] at hj)

/-- Joining the next element makes it part of the gap. -/
theorem Gap.grow (h : Gap result first handlers) (hr : result ≤ first)
    (hi : handlers[first]? = some handler) :
    Gap result (first + 1) (handlers.set first { handler with thread := none }) := by
  intro j other hj
  by_cases hij : first = j
  · subst hij
    obtain rfl : { handler with thread := none } = other := by grind
    rw [if_pos (by omega)]
  · have := h j other (by rwa [List.getElem?_set_ne hij] at hj)
    have hiff : (result ≤ j ∧ j < first + 1) ↔ (result ≤ j ∧ j < first) := by omega
    rwa [if_congr hiff rfl rfl]

/-- Moving the next element to the front of the gap shifts the gap by one. -/
theorem Gap.move (h : Gap result first handlers) (hr : result < first)
    (hi : handlers[first]? = some handler) :
    Gap (result + 1) (first + 1) ((handlers.set result handler).set first movedFrom) := by
  intro j other hj
  by_cases hfj : first = j
  · subst hfj
    obtain rfl : movedFrom = other := by grind
    rw [if_pos (by omega)]
    rfl
  rw [List.getElem?_set_ne hfj] at hj
  by_cases hrj : result = j
  · subst hrj
    obtain rfl : handler = other := by grind
    rw [if_neg (by omega)]
    exact h.holds hi (by omega)
  · have := h j other (by rwa [List.getElem?_set_ne hrj] at hj)
    have hiff : (result + 1 ≤ j ∧ j < first + 1) ↔ (result ≤ j ∧ j < first) := by omega
    rwa [if_congr hiff rfl rfl]

/-- The part of the gap past the end holds nothing. -/
theorem Gap.to_end (h : Gap result first handlers) (hf : handlers.length ≤ first) :
    Gap result handlers.length handlers := by
  intro i handler hi
  have hlt := (List.getElem?_eq_some_iff.mp hi).1
  have hiff : (result ≤ i ∧ i < handlers.length) ↔ (result ≤ i ∧ i < first) := by omega
  rw [if_congr hiff rfl rfl]
  exact h i handler hi

theorem Gap.drop (h : Gap result handlers.length handlers) :
    ∀ handler ∈ handlers.drop result, handler.joinable = false := by
  intro handler hmem
  obtain ⟨i, hi⟩ := List.mem_iff_getElem?.mp hmem
  rw [List.getElem?_drop] at hi
  have hlt := (List.getElem?_eq_some_iff.mp hi).1
  rw [Handler.joinable, h.emptied hi (by omega) hlt]
  rfl

theorem Gap.take (h : Gap result first handlers) : Gap 0 0 (handlers.take result) := by
  intro i handler hi
  rw [if_neg (by omega)]
  have hlt : i < result := by grind
  refine h.holds (by rwa [List.getElem?_take_of_lt hlt] at hi) (by omega)

/-- Whether none of the first `i` handlers is joinable. -/
def Scanned (i : Nat) (allJoined : Bool) (handlers : List Handler) : Prop :=
  allJoined = true ↔ ∀ handler ∈ handlers.take i, handler.joinable = false

theorem scanned_zero : Scanned 0 true handlers := by
  simp [Scanned]

theorem Scanned.next {allJoined : Bool} (h : Scanned i allJoined handlers)
    (hi : handlers[i]? = some handler) :
    Scanned (i + 1) (allJoined && !handler.joinable) handlers := by
  have htake : handlers.take (i + 1) = handlers.take i ++ [handler] := by
    rw [List.take_add_one, hi]
    rfl
  have hiff : allJoined = true ↔ ∀ handler ∈ handlers.take i, handler.joinable = false := h
  rw [Scanned, htake, List.forall_mem_append, List.forall_mem_singleton, ← hiff]
  simp

theorem Scanned.join {allJoined : Bool} (h : Scanned i allJoined handlers)
    (hi : handlers[i]? = some handler) :
    Scanned (i + 1) allJoined (handlers.set i { handler with thread := none }) := by
  have hlt := (List.getElem?_eq_some_iff.mp hi).1
  have hkeep : Scanned i allJoined (handlers.set i { handler with thread := none }) := by
    rwa [Scanned, List.take_set_of_le le_rfl]
  have hnext := hkeep.next (List.getElem?_set_self hlt)
  rwa [Handler.joinable, Option.isSome_none, Bool.not_false, Bool.and_true] at hnext

end Vector

/-- What holds of the vector at each point of `run_server`. -/
def Point.Shape (handlers : List Handler) : Point → Prop
  | .looping | .accepting | .waiting _ => Gap 0 0 handlers
  | .finding first => Gap first first handlers
  | .shifting result first => result < first ∧ Gap result first handlers
  | .erasing finished => Gap finished handlers.length handlers
  | .joining i => i < handlers.length ∧ Gap 0 0 handlers
  | .scanning i allJoined => Gap 0 0 handlers ∧ Scanned i allJoined handlers
  | .returned => handlers = []
  | .exited => ∃ handler ∈ handlers, handler.joinable = true
  | .terminated | .invalid => False

/-- The threads are accounted for: each one started is either joined, once and after it
set its flag, or owned by one handler, which then holds the flag of that thread. -/
structure Accounted (p : Process) : Prop where
  owned : ∀ handler ∈ p.handlers, ∀ id, handler.thread = some id → handler.done = some id
  started : (p.joins ++ p.handlers.filterMap Handler.thread).Perm (List.range p.started)
  finished : ∀ id ∈ p.joins, id ∈ p.finished

structure Invariant (p : Process) : Prop extends Accounted p where
  shape : p.point.Shape p.handlers

section Account

variable {p : Process} {handler : Handler} {i result first : Nat} {b : Bool}

theorem Accounted.goto (h : Accounted p) (point : Point) :
    Accounted { p with point := point } :=
  ⟨h.owned, h.started, h.finished⟩

theorem Accounted.joins_nodup (h : Accounted p) : p.joins.Nodup :=
  (List.nodup_append.mp (h.started.nodup_iff.mpr List.nodup_range)).1

theorem load_isSome (h : handler.done.isSome = true) : (p.load handler).isSome = true := by
  rw [Process.load, Option.isSome_map]
  exact h

theorem load_owned {id : Nat} (h : Accounted p) (hi : p.handlers[i]? = some handler)
    (ht : handler.thread = some id) (hl : p.load handler = some true) : id ∈ p.finished := by
  have hd : handler.done = some id := h.owned handler (List.mem_of_getElem? hi) id ht
  simpa [Process.load, hd] using hl

@[simp] theorem load_goto (point : Point) :
    Process.load { p with point := point } handler = p.load handler := rfl

theorem join_handlers (hi : p.handlers[i]? = some handler) :
    (p.join i handler).handlers = p.handlers.set i { handler with thread := none } := by
  obtain ⟨thread, done⟩ := handler
  cases thread with
  | none =>
    show p.handlers = _
    ext j
    grind
  | some id => rfl

theorem Accounted.join (h : Accounted p) (hi : p.handlers[i]? = some handler)
    (hl : p.load handler = some true) : Accounted (p.join i handler) where
  owned := by
    intro other hmem id ht
    rw [join_handlers hi] at hmem
    obtain hmem | rfl := List.mem_or_eq_of_mem_set hmem
    · exact h.owned other hmem id ht
    · simp at ht
  started := by
    cases ht : handler.thread with
    | none =>
      rw [Process.join, ht]
      exact h.started
    | some id =>
      have hp := filterMap_set_perm Handler.thread { handler with thread := none } hi
      rw [ht] at hp
      rw [Process.join, ht]
      show (id :: (p.joins ++ _)).Perm _
      exact ((List.perm_middle.symm).trans (hp.append_left p.joins)).trans h.started
  finished := by
    cases ht : handler.thread with
    | none =>
      rw [Process.join, ht]
      exact h.finished
    | some id =>
      have hmem : id ∈ p.finished := load_owned h hi ht hl
      rw [Process.join, ht]
      show ∀ other ∈ id :: p.joins, other ∈ p.finished
      exact List.forall_mem_cons.mpr ⟨hmem, h.finished⟩

/-- Moving onto an emptied slot loses no thread. -/
theorem Accounted.move (h : Accounted p) (hlt : result < first)
    (hi : p.handlers[first]? = some handler) {target : Handler}
    (hr : p.handlers[result]? = some target) (hempty : target.thread = none) (point : Point) :
    Accounted { p with
      handlers := (p.handlers.set result handler).set first movedFrom, point := point } where
  owned := by
    intro other hmem id ht
    obtain hmem | rfl := List.mem_or_eq_of_mem_set hmem
    · obtain hmem | rfl := List.mem_or_eq_of_mem_set hmem
      · exact h.owned other hmem id ht
      · exact h.owned other (List.mem_of_getElem? hi) id ht
    · simp [movedFrom] at ht
  started := by
    have hi' : (p.handlers.set result handler)[first]? = some handler := by
      rwa [List.getElem?_set_ne (by omega)]
    have hput := filterMap_set_perm Handler.thread handler hr
    have htake := filterMap_set_perm Handler.thread movedFrom hi'
    rw [hempty] at hput
    have hp := (List.perm_append_left_iff _).mp (htake.trans hput)
    exact (hp.append_left p.joins).trans h.started
  finished := h.finished

end Account

section Step

variable {p : Process} {handler : Handler}

theorem invariant_start : Invariant .start where
  owned := by
    intro handler hmem
    simp [Process.start] at hmem
  started := .refl _
  finished := by
    intro id hmem
    simp [Process.start] at hmem
  shape := Gap.nil 0 0

theorem find_invariant (h : Accounted p) {first : Nat} (hgap : Gap 0 0 p.handlers) :
    Invariant (p.find first) := by
  rw [Process.find]
  cases hi : p.handlers[first]? with
  | none =>
    -- nothing to reap: `remove_if` returns the end
    refine ⟨h.goto _, ?_⟩
    show Gap first p.handlers.length p.handlers
    exact (gap_iff_of_le (List.getElem?_eq_none_iff.mp hi)).mpr hgap
  | some handler =>
    obtain ⟨b, hl⟩ := Option.isSome_iff_exists.mp
      (load_isSome (p := p) (hgap.holds hi (by omega)))
    cases b with
    | false =>
      simp only [hl]
      exact ⟨h.goto _, (gap_iff_of_le le_rfl).mpr hgap⟩
    | true =>
      simp only [hl]
      refine ⟨(h.join hi hl).goto _, ?_⟩
      show first < first + 1 ∧ Gap first (first + 1) (p.join first handler).handlers
      rw [join_handlers hi]
      exact ⟨Nat.lt_succ_self _, ((gap_iff_of_le le_rfl).mpr hgap).grow le_rfl hi⟩

theorem moveAssign_invariant (h : Accounted p) {result first : Nat} (hlt : result < first)
    (hgap : Gap result first p.handlers) (hi : p.handlers[first]? = some handler) :
    Invariant (p.moveAssign result first handler) := by
  have hlen := (List.getElem?_eq_some_iff.mp hi).1
  obtain ⟨target, hr⟩ : ∃ target, p.handlers[result]? = some target :=
    ⟨_, List.getElem?_eq_getElem (by omega)⟩
  have hempty : target.thread = none := hgap.emptied hr le_rfl hlt
  have hjoin : ¬ (p.handlers[result]?.any Handler.joinable = true) := by
    simp [hr, Handler.joinable, hempty]
  rw [Process.moveAssign, if_neg hjoin]
  refine ⟨h.move hlt hi hr hempty _, ?_⟩
  show result + 1 < first + 1 ∧ Gap (result + 1) (first + 1) _
  exact ⟨by omega, hgap.move hlt hi⟩

theorem shift_invariant (h : Accounted p) {result first : Nat} (hlt : result < first)
    (hgap : Gap result first p.handlers) : Invariant (p.shift result first) := by
  rw [Process.shift]
  cases hi : p.handlers[first]? with
  | none =>
    refine ⟨h.goto _, ?_⟩
    show Gap result p.handlers.length p.handlers
    exact hgap.to_end (List.getElem?_eq_none_iff.mp hi)
  | some handler =>
    obtain ⟨b, hl⟩ := Option.isSome_iff_exists.mp
      (load_isSome (p := p) (hgap.holds hi (by omega)))
    cases b with
    | false =>
      simp only [hl]
      exact moveAssign_invariant h hlt hgap hi
    | true =>
      simp only [hl]
      refine ⟨(h.join hi hl).goto _, ?_⟩
      show result < first + 1 ∧ Gap result (first + 1) (p.join first handler).handlers
      rw [join_handlers hi]
      exact ⟨by omega, hgap.grow (by omega) hi⟩

theorem filterMap_thread_eq_nil {handlers : List Handler}
    (h : ∀ handler ∈ handlers, handler.joinable = false) :
    handlers.filterMap Handler.thread = [] := by
  apply List.filterMap_eq_nil_iff.mpr
  intro handler hmem
  simpa [Handler.joinable] using h handler hmem

theorem erase_invariant (h : Accounted p) {finished : Nat}
    (hgap : Gap finished p.handlers.length p.handlers) : Invariant (p.erase finished) := by
  have hdrop := hgap.drop
  have hjoin : ¬ ((p.handlers.drop finished).any Handler.joinable = true) := by
    simpa using hdrop
  rw [Process.erase, if_neg hjoin]
  refine ⟨⟨?_, ?_, h.finished⟩, hgap.take⟩
  · intro handler hmem
    exact h.owned handler (List.mem_of_mem_take hmem)
  · -- what is erased owned no thread
    have hsplit := congrArg (List.filterMap Handler.thread)
      (List.take_append_drop finished p.handlers)
    rw [List.filterMap_append, filterMap_thread_eq_nil hdrop, List.append_nil] at hsplit
    show (p.joins ++ _).Perm _
    rw [hsplit]
    exact h.started

theorem wait_invariant (h : Invariant p) {i : Nat} (hgap : Gap 0 0 p.handlers) :
    Invariant (p.wait i) := by
  rw [Process.wait]
  cases hi : p.handlers[i]? with
  | none =>
    exact ⟨h.goto _, hgap, scanned_zero⟩
  | some handler =>
    obtain ⟨b, hl⟩ := Option.isSome_iff_exists.mp
      (load_isSome (p := p) (hgap.holds hi (by omega)))
    simp only [hl]
    split
    · exact h
    · exact ⟨h.goto _, (List.getElem?_eq_some_iff.mp hi).1, hgap⟩

theorem joinFinished_invariant (h : Accounted p) {i : Nat} (hlt : i < p.handlers.length)
    (hgap : Gap 0 0 p.handlers) : Invariant (p.joinFinished i) := by
  have hi := List.getElem?_eq_getElem hlt
  obtain ⟨b, hl⟩ := Option.isSome_iff_exists.mp
    (load_isSome (p := p) (hgap.holds hi (by omega)))
  rw [Process.joinFinished, hi]
  cases b with
  | false =>
    simp only [hl]
    exact ⟨h.goto _, hgap⟩
  | true =>
    simp only [hl]
    refine ⟨(h.join hi hl).goto _, ?_⟩
    show Gap 0 0 (p.join i _).handlers
    rw [join_handlers hi]
    exact hgap.join hi (by omega)

/-- With the second pass over, the handlers still joinable decide how it ends. -/
theorem leave_eq {i : Nat} {allJoined : Bool} (h : Scanned i allJoined p.handlers)
    (hi : p.handlers.length ≤ i) :
    p.leave allJoined =
      if p.handlers.any Handler.joinable then { p with point := .exited }
      else { p with handlers := [], point := .returned } := by
  rw [Scanned, List.take_of_length_le hi] at h
  have hany : allJoined = !p.handlers.any Handler.joinable := by
    rw [Bool.eq_iff_iff, h]
    simp
  rw [Process.leave, hany]
  cases p.handlers.any Handler.joinable <;> rfl

theorem scan_invariant (h : Accounted p) {i : Nat} {allJoined : Bool}
    (hgap : Gap 0 0 p.handlers) (hscan : Scanned i allJoined p.handlers) :
    Invariant (p.scan i allJoined) := by
  rw [Process.scan]
  cases hi : p.handlers[i]? with
  | none =>
    simp only [leave_eq hscan (List.getElem?_eq_none_iff.mp hi)]
    split
    · rename_i hany
      exact ⟨h.goto _, List.any_eq_true.mp hany⟩
    · rename_i hany
      have hnone : p.handlers.filterMap Handler.thread = [] :=
        filterMap_thread_eq_nil (by simpa using hany)
      refine ⟨⟨?_, ?_, h.finished⟩, rfl⟩
      · intro handler hmem
        simp at hmem
      · have hstarted := h.started
        rwa [hnone] at hstarted
  | some handler =>
    obtain ⟨b, hl⟩ := Option.isSome_iff_exists.mp
      (load_isSome (p := p) (hgap.holds hi (by omega)))
    cases b with
    | false =>
      simp only [hl]
      exact ⟨h.goto _, hgap, hscan.next hi⟩
    | true =>
      simp only [hl]
      refine ⟨(h.join hi hl).goto _, ?_⟩
      show Gap 0 0 (p.join i handler).handlers ∧ Scanned (i + 1) allJoined (p.join i handler).handlers
      rw [join_handlers hi]
      exact ⟨hgap.join hi (by omega), hscan.join hi⟩

/-- Each step of `run_server` keeps the invariant. -/
theorem advance_invariant (h : Invariant p) : Invariant p.advance := by
  have hshape := h.shape
  rw [Process.advance]
  cases hp : p.point with
  | looping =>
    rw [hp] at hshape
    dsimp only
    split
    · exact ⟨⟨h.owned, h.started, h.finished⟩, hshape⟩
    · exact ⟨h.goto _, hshape⟩
  | accepting =>
    rw [hp] at hshape
    exact ⟨h.goto _, hshape⟩
  | finding first =>
    rw [hp] at hshape
    exact find_invariant h.toAccounted ((gap_iff_of_le le_rfl).mp hshape)
  | shifting result first =>
    rw [hp] at hshape
    exact shift_invariant h.toAccounted hshape.1 hshape.2
  | erasing finished =>
    rw [hp] at hshape
    exact erase_invariant h.toAccounted hshape
  | waiting i =>
    rw [hp] at hshape
    exact wait_invariant h hshape
  | joining i =>
    rw [hp] at hshape
    exact joinFinished_invariant h.toAccounted hshape.1 hshape.2
  | scanning i allJoined =>
    rw [hp] at hshape
    exact scan_invariant h.toAccounted hshape.1 hshape.2
  | returned | exited | terminated | invalid => exact h

theorem step_invariant (p : Process) (e : Event) (h : Invariant p) : Invariant (step p e) := by
  rw [step.eq_def]
  split
  · exact h
  cases e with
  | finish id =>
    dsimp only
    split
    · refine ⟨⟨h.owned, h.started, ?_⟩, h.shape⟩
      intro other hmem
      exact List.mem_cons_of_mem _ (h.finished other hmem)
    · exact h
  | connection =>
    dsimp only
    split
    · rename_i hp
      have hgap : Gap 0 0 p.handlers := by simpa [Point.Shape, hp] using h.shape
      refine ⟨⟨?_, ?_, h.finished⟩, (gap_iff_of_le le_rfl).mpr hgap.push⟩
      · intro handler hmem id ht
        obtain hmem | hmem := List.mem_append.mp hmem
        · exact h.owned handler hmem id ht
        · obtain rfl := List.mem_singleton.mp hmem
          exact ht
      · show (p.joins ++ _).Perm (List.range (p.started + 1))
        rw [List.filterMap_append, ← List.append_assoc, List.range_succ]
        exact h.started.append_right _
    · exact h
  | stop => exact ⟨⟨h.owned, h.started, h.finished⟩, h.shape⟩
  | expire => exact ⟨⟨h.owned, h.started, h.finished⟩, h.shape⟩
  | advance => exact advance_invariant h

theorem run_invariant (es : List Event) : Invariant (run es) :=
  Runs.run_invariant invariant_start step_invariant es

theorem run_snoc (es : List Event) (e : Event) : run (es ++ [e]) = step (run es) e :=
  Runs.run_append es [e]

/-- No joinable thread is overwritten, destroyed or joined twice, however the steps of
`run_server` and of its threads interleave: `remove_if` moves onto slots that own no
thread, `erase` drops such slots, the second pass ends in `_Exit` exactly when a handler
is still joinable, and after a return every thread started has been joined. -/
theorem handlers_never_terminate (es : List Event) :
    (run es).point ≠ .terminated ∧ (run es).point ≠ .invalid ∧
    (∀ result first, (run es).point = .shifting result first →
      ∀ target, (run es).handlers[result]? = some target → target.joinable = false) ∧
    (∀ finished, (run es).point = .erasing finished →
      ∀ handler ∈ (run es).handlers.drop finished, handler.joinable = false) ∧
    (∀ i allJoined, (run es).point = .scanning i allJoined → (run es).handlers.length ≤ i →
      (run (es ++ [.advance])).point =
        if (run es).handlers.any Handler.joinable then .exited else .returned) ∧
    ((run es).point = .exited → ∃ handler ∈ (run es).handlers, handler.joinable = true) ∧
    ((run es).point = .returned → (run es).joins.Perm (List.range (run es).started)) ∧
    ((run es).joins ++ (run es).handlers.filterMap Handler.thread).Perm
      (List.range (run es).started) ∧
    (run es).joins.Nodup ∧ ∀ id ∈ (run es).joins, id ∈ (run es).finished := by
  have h := run_invariant es
  have hshape := h.shape
  refine ⟨?_, ?_, ?_, ?_, ?_, ?_, ?_, h.started, h.joins_nodup, h.finished⟩
  · intro hp
    rw [hp] at hshape
    exact hshape
  · intro hp
    rw [hp] at hshape
    exact hshape
  · intro result first hp target ht
    rw [hp] at hshape
    rw [Handler.joinable, hshape.2.emptied ht le_rfl hshape.1]
    rfl
  · intro finished hp
    rw [hp] at hshape
    exact Gap.drop hshape
  · intro i allJoined hp hi
    rw [hp] at hshape
    have hadvance : step (run es) .advance = (run es).leave allJoined := by
      simp only [step.eq_def, Point.over, hp, Process.advance, Process.scan,
        List.getElem?_eq_none hi]
      rfl
    rw [run_snoc, hadvance, leave_eq hshape.2 hi]
    split <;> rfl
  · intro hp
    rw [hp] at hshape
    exact hshape
  · intro hp
    rw [hp] at hshape
    have hnil : (run es).handlers = [] := hshape
    have hstarted := h.started
    rwa [hnil, List.filterMap_nil, List.append_nil] at hstarted

/-- The first of two threads is reaped while the second runs and is moved onto its slot;
the second finishes between the two passes. -/
example :
    let first : List Event := [.advance, .connection, .advance, .advance, .advance]
    let second : List Event := [.advance, .connection, .finish 0, .advance, .advance]
    (run (first ++ second)).point = .shifting 1 2 ∧
    (run (first ++ second ++ [.advance, .advance, .stop, .advance, .expire, .advance, .advance,
      .advance, .finish 1, .advance, .advance])).point = .returned := by
  decide

end Step

end Cpp.Threads
