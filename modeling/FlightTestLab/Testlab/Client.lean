import FlightTestLab.Library.Framing
import FlightTestLab.Library.Runs
import FlightTestLab.Library.Utf8
import FlightTestLab.Python.Json

/-!
# The TCP client

`LabClient` on one machine and a DUT on the other, with what is on its way between them.
Every byte carries the call that sent it, every byte of a reply the frame it answers.
The DUT takes its time; so does the network.

## Main definitions

- `Testlab.State`: the client, its connection, and the calls made so far
- `Testlab.step`: one step of the client, of the network or of the DUT
- `Testlab.Paired`: a payload is the DUT's reply to the frame that the call sent

## Main results

- `Testlab.run_tracked`: what is on its way is of the call in progress, or older
-/

namespace Testlab

open Json (Text)
open Python (Value Error Decoder)

def newline : Nat := 0x0A

/-- A byte on its way to the DUT, with the call that sent it. -/
structure Sent where
  call : Nat
  byte : Nat
  deriving DecidableEq, Repr

/-- What the DUT wrote for one frame, without the newline. -/
structure Answer where
  frame : List Sent
  text : List Nat
  deriving DecidableEq, Repr

/-- A byte on its way to the client, with the answer it is part of. -/
structure Heard where
  answer : Answer
  byte : Nat
  deriving DecidableEq, Repr

def Sent.ends (b : Sent) : Bool := b.byte == newline

def Heard.ends (h : Heard) : Bool := h.byte == newline

/-- The line that the DUT writes. -/
def Answer.line (a : Answer) : List Heard := (a.text ++ [newline]).map (Heard.mk a)

/-- `_socket` and `_reader` with what is on its way between them and the DUT. -/
structure Connection where
  /-- Transmitted, and not yet framed by the DUT. -/
  wire : List Sent := []
  /-- Written by the DUT, and not yet returned by the reader. -/
  incoming : List Heard := []
  /-- The DUT has closed its side. -/
  closed : Bool := false
  /-- A read on the `makefile` reader has timed out. -/
  timedOut : Bool := false

/-- Nothing is left on the connection, in either direction. -/
def Connection.quiet (c : Connection) : Bool := c.wire.isEmpty && c.incoming.isEmpty

/-- A `dict`, as `request` is given one and returns one. -/
abbrev Message (F : Type) := List (Text × Value F)

/-- The client's `json`. -/
structure Codec (F : Type) extends Decoder F where
  /-- What `json.dumps` raises: it gives up past its recursion limit, and on an integer of too many
  digits. -/
  refuses : Value F → Option Error

variable {F : Type}

/-- A call of `request`, and whether it found its connection quiet. -/
structure Call (F : Type) where
  number : Nat
  message : Message F
  quiet : Bool

/-- How a call ended; a payload comes with the line it was read from. -/
inductive Outcome (F : Type)
  | returned (payload : Message F) (line : List Heard)
  /-- `LabCommunicationError` -/
  | communicationError
  /-- Another exception. -/
  | escaped (e : Error)

structure Result (F : Type) where
  call : Call F
  outcome : Outcome F

/-- Where `request` stands. -/
inductive Phase (F : Type)
  | idle
  /-- In `sendall`, with what is not yet transmitted. -/
  | sending (call : Call F) (rest : List Nat)
  /-- In `readline`. -/
  | reading (call : Call F)

structure State (F : Type) where
  connection : Option Connection := none
  phase : Phase F := .idle
  calls : Nat := 0
  /-- What the DUT answered, on this connection and on earlier ones. -/
  answered : List Answer := []
  results : List (Result F) := []

inductive Event (F : Type)
  /-- `connect()`; `create_connection` may fail. -/
  | connect (accepted : Bool)
  /-- `close()` -/
  | close
  /-- `request(message)` is called. -/
  | request (message : Message F)
  /-- `sendall` gets `n` more bytes out. -/
  | transmit (n : Nat)
  /-- `sendall` returns. -/
  | sent
  /-- `sendall` raises, a timeout or another `OSError`. -/
  | sendFails
  /-- The DUT takes a frame and answers it. -/
  | answer (text : List Nat)
  /-- The DUT closes its side. -/
  | hangUp
  /-- `readline` returns, or finds that it cannot. -/
  | readline
  /-- `readline` times out. -/
  | timesOut
  /-- `readline` loses a chunk that does not decode. -/
  | undecodable (n : Nat)

section Step

variable (D : Codec F)

/-- `json.dumps(message, sort_keys=True)`, where it returns, encoded, without the newline. -/
def encoded (message : Message F) : List Nat :=
  Utf8.encodeAll (Python.dumps D.floats (.dict message))

/-- The call is over. -/
def State.finish (s : State F) (call : Call F) (outcome : Outcome F) : State F :=
  { s with phase := .idle, results := s.results ++ [⟨call, outcome⟩] }

/-- What `request` makes of the line it read. -/
def outcomeOf (line : List Heard) (text : Text) : Outcome F :=
  match Python.loads D.toDecoder (text ++ [newline]) with
  | .ok (.dict payload) => .returned payload line
  | .ok _ => .communicationError
  | .error .valueError | .error .recursionError => .communicationError
  | .error e => .escaped e

def State.connect (s : State F) (accepted : Bool) : State F :=
  match s.phase, s.connection with
  | .idle, none => { s with connection := if accepted then some {} else none }
  | _, _ => s

def State.close (s : State F) : State F :=
  match s.phase with
  | .idle => { s with connection := none }
  | _ => s

/-- `request` up to `sendall`. -/
def State.request (s : State F) (message : Message F) : State F :=
  match s.phase with
  | .idle =>
    match s.connection with
    | none =>
      { s with calls := s.calls + 1 }.finish ⟨s.calls, message, true⟩ .communicationError
    | some c =>
      let call := ⟨s.calls, message, c.quiet⟩
      let s := { s with calls := s.calls + 1 }
      match D.refuses (.dict message) with
      -- `json.dumps` stands before the `try` clause
      | some e => s.finish call (.escaped e)
      | none => { s with phase := .sending call (encoded D message ++ [newline]) }
  | _ => s

def State.transmit (s : State F) (n : Nat) : State F :=
  match s.phase, s.connection with
  | .sending call rest, some c =>
    { s with
      phase := .sending call (rest.drop n)
      connection := some { c with wire := c.wire ++ (rest.take n).map (Sent.mk call.number) } }
  | _, _ => s

def State.sent (s : State F) : State F :=
  match s.phase with
  | .sending call [] => { s with phase := .reading call }
  | _ => s

def State.sendFails (s : State F) : State F :=
  match s.phase with
  | .sending call _ => s.finish call .communicationError
  | _ => s

/-- The DUT answers the next frame, once it is all there. -/
def State.answer (s : State F) (text : List Nat) : State F :=
  match s.connection with
  | none => s
  | some c =>
    if c.closed ∨ newline ∈ text then s
    else
      match Framing.first Sent.ends c.wire with
      | none => s
      | some (frame, _, rest) =>
        let a : Answer := ⟨frame, text⟩
        { s with
          connection := some { c with wire := rest, incoming := c.incoming ++ a.line }
          answered := s.answered ++ [a] }

def State.hangUp (s : State F) : State F :=
  { s with connection := s.connection.map fun c => { c with closed := true } }

/-- `readline`: an error on a reader that has timed out, else a line, or nothing at the end. -/
def State.readline (s : State F) : State F :=
  match s.phase, s.connection with
  | .reading call, some c =>
    if c.timedOut then s.finish call .communicationError
    else
      match Framing.first Heard.ends c.incoming with
      | none =>
        if c.closed ∧ c.incoming = [] then s.finish call .communicationError else s
      | some (text, terminator, rest) =>
        match Utf8.decodeStrict (text.map Heard.byte) with
        | none => s
        | some decoded =>
          { s with connection := some { c with incoming := rest } }.finish call
            (outcomeOf D (text ++ [terminator]) decoded)
  | _, _ => s

def State.timesOut (s : State F) : State F :=
  match s.phase, s.connection with
  | .reading call, some c =>
    { s with connection := some { c with timedOut := true } }.finish call .communicationError
  | _, _ => s

/-- A `UnicodeDecodeError` in `readline`: what it had read of the stream is gone. -/
def State.undecodable (s : State F) (n : Nat) : State F :=
  match s.phase, s.connection with
  | .reading call, some c =>
    if c.timedOut ∨ (Utf8.decodeStrict (c.incoming.map Heard.byte)).isSome then s
    else
      { s with connection := some { c with incoming := c.incoming.drop (n + 1) } }.finish call
        (.escaped .valueError)
  | _, _ => s

def step (s : State F) : Event F → State F
  | .connect accepted => s.connect accepted
  | .close => s.close
  | .request message => s.request D message
  | .transmit n => s.transmit n
  | .sent => s.sent
  | .sendFails => s.sendFails
  | .answer text => s.answer text
  | .hangUp => s.hangUp
  | .readline => s.readline D
  | .timesOut => s.timesOut
  | .undecodable n => s.undecodable n

/-- The frame that a call sends, newline apart. -/
def Call.frame (call : Call F) : List Sent :=
  (encoded D call.message).map (Sent.mk call.number)

/-- The line a call read is all of the DUT's answer to the one frame that this call sent, and
the payload is what it says. -/
def Paired (answered : List Answer) (call : Call F) (payload : Message F) (line : List Heard) :
    Prop :=
  ∃ a ∈ answered, a.frame = call.frame D ∧ line = a.line ∧
    ∃ text, Utf8.decodeStrict a.text = some text ∧
      Python.loads D.toDecoder (text ++ [newline]) = .ok (.dict payload)

end Step

section Streams

variable {D : Codec F}

theorem encoded_cons (message : Message F) : ∃ bytes, encoded D message = 0x7B :: bytes := by
  rw [encoded, Python.dumps, Utf8.encodeAll_cons_ascii (by decide)]
  exact ⟨_, rfl⟩

theorem frame_ne_nil (call : Call F) : call.frame D ≠ [] := by
  obtain ⟨bytes, hbytes⟩ := encoded_cons (D := D) call.message
  simp [Call.frame, hbytes]

theorem outcomeOf_eq_returned {line line' : List Heard} {text : Text} {payload : Message F}
    (h : outcomeOf D line text = .returned payload line') :
    line' = line ∧ Python.loads D.toDecoder (text ++ [newline]) = .ok (.dict payload) := by
  unfold outcomeOf at h
  split at h <;> cases h
  exact ⟨rfl, by assumption⟩

theorem Answer.head?_line (a : Answer) : ∃ h ∈ a.line.head?, h.answer = a := by
  rcases htext : a.text with _ | ⟨b, text⟩
  · exact ⟨⟨a, newline⟩, by simp [Answer.line, htext], rfl⟩
  · exact ⟨⟨a, b⟩, by simp [Answer.line, htext], rfl⟩

theorem Answer.answer_of_mem_line {a : Answer} {h : Heard} (hh : h ∈ a.line) : h.answer = a := by
  simp only [Answer.line, List.mem_map] at hh
  obtain ⟨b, -, rfl⟩ := hh
  rfl

/-- The reader takes a whole answer as one line. -/
theorem Answer.first_line {a : Answer} (ha : newline ∉ a.text) :
    Framing.first Heard.ends a.line =
      some (a.text.map (Heard.mk a), ⟨a, newline⟩, []) := by
  rw [Answer.line, List.map_append]
  apply Framing.first_append
  · rfl
  · intro h hh
    obtain ⟨b, hb, rfl⟩ := List.mem_map.mp hh
    exact beq_false_of_ne fun he : b = newline => ha (he ▸ hb)

/-- The DUT sees the frame of a call once all of it was sent. -/
theorem first_sent {call : Call F} (hcall : newline ∉ encoded D call.message)
    {sent rest : List Nat} (hsent : encoded D call.message ++ [newline] = sent ++ rest) :
    Framing.first Sent.ends (sent.map (Sent.mk call.number)) =
      if rest = [] then some (call.frame D, ⟨call.number, newline⟩, []) else none := by
  split
  · next hrest =>
    rw [hrest, List.append_nil] at hsent
    rw [← hsent, List.map_append]
    apply Framing.first_append
    · rfl
    · intro b hb
      obtain ⟨byte, hbyte, rfl⟩ := List.mem_map.mp hb
      exact beq_false_of_ne fun he : byte = newline => hcall (he ▸ hbyte)
  · next hrest =>
    -- The only newline is the last byte, and it is still to be sent.
    have hbegins : sent <+: encoded D call.message := by
      have hlen := congrArg List.length hsent
      have hpos := List.length_pos_iff.mpr hrest
      simp only [List.length_append, List.length_singleton] at hlen
      have hline : sent <+: encoded D call.message ++ [newline] := ⟨rest, hsent.symm⟩
      exact List.prefix_of_prefix_length_le hline (List.prefix_append _ _) (by omega)
    rw [Option.eq_none_iff_forall_ne_some]
    rintro ⟨line, terminator, rest'⟩ hfirst
    obtain ⟨hmap, hend, -⟩ := Framing.first_eq_some_iff.mp hfirst
    have hmem : terminator ∈ sent.map (Sent.mk call.number) := by simp [hmap]
    obtain ⟨byte, hbyte, rfl⟩ := List.mem_map.mp hmem
    exact hcall (hbegins.subset (eq_of_beq hend ▸ hbyte))

end Streams

section Tracking

variable (D : Codec F)

/-- What is on its way is of the calls before the `n`-th. -/
def Connection.Before (n : Nat) (c : Connection) : Prop :=
  (∀ b ∈ c.wire, b.call < n) ∧ ∀ h ∈ c.incoming, ∀ b ∈ h.answer.frame, b.call < n

/-- All that is on its way is the frame of the call, as far as it was sent, or the answer. -/
def Connection.Fresh (answered : List Answer) (call : Call F) (rest : List Nat)
    (c : Connection) : Prop :=
  (∃ sent, encoded D call.message ++ [newline] = sent ++ rest ∧
    c.wire = sent.map (Sent.mk call.number) ∧ c.incoming = []) ∨
  (rest = [] ∧ c.wire = [] ∧
    ∃ a ∈ answered, a.frame = call.frame D ∧ newline ∉ a.text ∧ c.incoming = a.line)

/-- The next byte of a reply belongs to another frame, or the next frame starts with a byte
of another call. -/
def Connection.Stale (call : Call F) (c : Connection) : Prop :=
  (∃ h ∈ c.incoming.head?, h.answer.frame ≠ call.frame D) ∨
  (c.incoming = [] ∧ ∃ b ∈ c.wire.head?, b.call ≠ call.number)

/-- A call that returns was paired if it found its connection quiet, and only then. -/
def Result.Exact (answered : List Answer) (r : Result F) : Prop :=
  ∀ payload line, r.outcome = .returned payload line →
    (r.call.quiet = true → Paired D answered r.call payload line) ∧
    (r.call.quiet = false → ∃ h ∈ line.head?, h.answer.frame ≠ r.call.frame D)

/-- The call in progress and what it has not yet transmitted. -/
def Phase.current : Phase F → Option (Call F × List Nat)
  | .idle => none
  | .sending call rest => some (call, rest)
  | .reading call => some (call, [])

structure State.Tracked (s : State F) : Prop where
  before : ∀ c ∈ s.connection, c.Before s.calls
  number : ∀ call rest, s.phase.current = some (call, rest) →
    call.number < s.calls ∧ newline ∉ encoded D call.message
  fresh : ∀ call rest, s.phase.current = some (call, rest) → ∀ c ∈ s.connection,
    call.quiet = true → c.Fresh D s.answered call rest
  stale : ∀ call rest, s.phase.current = some (call, rest) → ∀ c ∈ s.connection,
    call.quiet = false → c.Stale D call
  results : ∀ r ∈ s.results, r.Exact D s.answered

variable {D}

theorem Result.Exact.mono {answered : List Answer} {r : Result F} (h : r.Exact D answered)
    (more : List Answer) : r.Exact D (answered ++ more) := by
  intro payload line houtcome
  refine ⟨fun hquiet => ?_, (h payload line houtcome).2⟩
  obtain ⟨a, ha, hpaired⟩ := (h payload line houtcome).1 hquiet
  exact ⟨a, List.mem_append_left _ ha, hpaired⟩

theorem start_tracked : ({} : State F).Tracked D where
  before := by simp
  number := by simp [Phase.current]
  fresh := by simp [Phase.current]
  stale := by simp [Phase.current]
  results := by simp

/-- A call that ends leaves only its result to be checked. -/
theorem tracked_finish {s : State F} {call : Call F} {outcome : Outcome F}
    (hbefore : ∀ c ∈ s.connection, c.Before s.calls)
    (hresults : ∀ r ∈ s.results, r.Exact D s.answered)
    (hr : Result.Exact D s.answered ⟨call, outcome⟩) : (s.finish call outcome).Tracked D where
  before := hbefore
  number := by simp [State.finish, Phase.current]
  fresh := by simp [State.finish, Phase.current]
  stale := by simp [State.finish, Phase.current]
  results := by
    intro r hmem
    obtain hmem | hmem := List.mem_append.mp hmem
    · exact hresults r hmem
    · rw [List.mem_singleton.mp hmem]
      exact hr

theorem exact_of_raised {answered : List Answer} {call : Call F} {outcome : Outcome F}
    (h : ∀ payload line, outcome ≠ .returned payload line) :
    Result.Exact D answered ⟨call, outcome⟩ :=
  fun payload line houtcome => absurd houtcome (h payload line)

variable {s : State F}

theorem connect_tracked (h : s.Tracked D) (accepted : Bool) : (s.connect accepted).Tracked D := by
  unfold State.connect
  split
  · next hphase _ =>
    refine ⟨?_, ?_, ?_, ?_, h.results⟩
    · intro c hc
      cases accepted
      · cases hc
      · cases hc
        exact ⟨by simp, by simp⟩
    all_goals simp [hphase, Phase.current]
  · exact h

theorem close_tracked (h : s.Tracked D) : s.close.Tracked D := by
  unfold State.close
  split
  · next hphase =>
    refine ⟨by simp, ?_, ?_, ?_, h.results⟩
    all_goals simp [hphase, Phase.current]
  · exact h

/-- What is left on a connection when a call begins is not of this call. -/
theorem stale_of_before {c : Connection} {call : Call F} (hc : c.Before call.number)
    (hquiet : c.quiet = false) : c.Stale D call := by
  rcases hincoming : c.incoming with _ | ⟨h, incoming⟩
  · right
    rcases hwire : c.wire with _ | ⟨b, wire⟩
    · simp [Connection.quiet, hincoming, hwire] at hquiet
    · have hb := hc.1 b (by simp [hwire])
      exact ⟨hincoming, b, by simp, by omega⟩
  · left
    refine ⟨h, by simp [hincoming], fun hframe => ?_⟩
    obtain ⟨b, hb⟩ := List.exists_mem_of_ne_nil _ (frame_ne_nil (D := D) call)
    have hlt := hc.2 h (by simp [hincoming]) b (hframe ▸ hb)
    simp only [Call.frame, List.mem_map] at hb
    obtain ⟨byte, -, rfl⟩ := hb
    exact absurd hlt (Nat.lt_irrefl _)

theorem Connection.Before.mono {c : Connection} {n : Nat} (h : c.Before n) : c.Before (n + 1) :=
  ⟨fun b hb => Nat.lt_succ_of_lt (h.1 b hb),
    fun h' hh b hb => Nat.lt_succ_of_lt (h.2 h' hh b hb)⟩

theorem request_tracked (h : s.Tracked D) {message : Message F}
    (hmessage : newline ∉ encoded D message) : (s.request D message).Tracked D := by
  unfold State.request
  split
  · split
    · next hconnection =>
      exact tracked_finish (by simp [hconnection]) h.results
        (exact_of_raised fun _ _ => by simp)
    · next c hconnection =>
      have hbefore : ∀ c' ∈ s.connection, c'.Before (s.calls + 1) := fun c' hc' =>
        (h.before c' hc').mono
      dsimp only
      split
      · exact tracked_finish hbefore h.results (exact_of_raised fun _ _ => by simp)
      have hc := h.before c hconnection
      refine ⟨hbefore, ?_, ?_, ?_, h.results⟩
      · rintro call rest ⟨⟩
        exact ⟨Nat.lt_succ_self _, hmessage⟩
      · rintro call rest ⟨⟩ c' hc' hquiet
        cases hconnection.symm.trans hc'
        simp only [Connection.quiet, Bool.and_eq_true, List.isEmpty_iff] at hquiet
        exact .inl ⟨[], rfl, hquiet.1, hquiet.2⟩
      · rintro call rest ⟨⟩ c' hc' hquiet
        cases hconnection.symm.trans hc'
        exact stale_of_before hc hquiet
  · exact h

theorem transmit_tracked (h : s.Tracked D) (n : Nat) : (s.transmit n).Tracked D := by
  unfold State.transmit
  split
  · next call rest c hphase hconnection =>
    have hcurrent : s.phase.current = some (call, rest) := by rw [hphase]; rfl
    obtain ⟨hnumber, hcall⟩ := h.number call rest hcurrent
    have hc := h.before c hconnection
    refine ⟨?_, ?_, ?_, ?_, h.results⟩
    · rintro c' ⟨⟩
      refine ⟨fun b hb => ?_, hc.2⟩
      obtain hb | hb := List.mem_append.mp hb
      · exact hc.1 b hb
      · obtain ⟨byte, -, rfl⟩ := List.mem_map.mp hb
        exact hnumber
    · rintro call' rest' ⟨⟩
      exact ⟨hnumber, hcall⟩
    · rintro call' rest' ⟨⟩ c' ⟨⟩ hquiet
      rcases h.fresh call rest hcurrent c hconnection hquiet with
        ⟨sent, hsent, hwire, hincoming⟩ | ⟨hrest, hwire, hanswer⟩
      · refine .inl ⟨sent ++ rest.take n, ?_, ?_, hincoming⟩
        · rw [hsent, List.append_assoc, List.take_append_drop]
        · rw [hwire, List.map_append]
      · refine .inr ⟨by rw [hrest, List.drop_nil], ?_, hanswer⟩
        rw [hwire, hrest, List.take_nil]
        rfl
    · rintro call' rest' ⟨⟩ c' ⟨⟩ hquiet
      obtain hhead | ⟨hincoming, b, hb, hne⟩ := h.stale call rest hcurrent c hconnection hquiet
      · exact .inl hhead
      · refine .inr ⟨hincoming, b, ?_, hne⟩
        rw [Option.mem_def] at hb ⊢
        rw [List.head?_append, hb]
        rfl
  · exact h

theorem sent_tracked (h : s.Tracked D) : s.sent.Tracked D := by
  unfold State.sent
  split
  · next call hphase =>
    have hcurrent : s.phase.current = some (call, []) := by rw [hphase]; rfl
    refine ⟨h.before, ?_, ?_, ?_, h.results⟩
    · rintro call' rest' ⟨⟩
      exact h.number call [] hcurrent
    · rintro call' rest' ⟨⟩
      exact h.fresh call [] hcurrent
    · rintro call' rest' ⟨⟩
      exact h.stale call [] hcurrent
  · exact h

theorem sendFails_tracked (h : s.Tracked D) : s.sendFails.Tracked D := by
  unfold State.sendFails
  split
  · exact tracked_finish h.before h.results (exact_of_raised fun _ _ => by simp)
  · exact h

theorem hangUp_tracked (h : s.Tracked D) : s.hangUp.Tracked D := by
  refine ⟨?_, h.number, ?_, ?_, h.results⟩
  · intro c hc
    obtain ⟨c, hconnection, rfl⟩ := Option.map_eq_some_iff.mp hc
    exact h.before c hconnection
  · intro call rest hcurrent c hc
    obtain ⟨c, hconnection, rfl⟩ := Option.map_eq_some_iff.mp hc
    exact h.fresh call rest hcurrent c hconnection
  · intro call rest hcurrent c hc
    obtain ⟨c, hconnection, rfl⟩ := Option.map_eq_some_iff.mp hc
    exact h.stale call rest hcurrent c hconnection

/-- A frame that starts with a byte of another call is not the frame of this one. -/
theorem frame_ne_of_head {call : Call F} {wire frame rest : List Sent} {terminator b : Sent}
    (hwire : wire = frame ++ terminator :: rest) (hb : b ∈ wire.head?)
    (hne : b.call ≠ call.number) : frame ≠ call.frame D := by
  intro hframe
  obtain _ | ⟨b', frame⟩ := frame
  · exact frame_ne_nil call hframe.symm
  · rw [hwire] at hb
    cases hb
    have hmem : b ∈ call.frame D := hframe ▸ List.mem_cons_self
    obtain ⟨byte, -, rfl⟩ := List.mem_map.mp hmem
    exact hne rfl

theorem answer_tracked (h : s.Tracked D) (text : List Nat) : (s.answer text).Tracked D := by
  unfold State.answer
  split
  · exact h
  next c hconnection =>
  split
  · exact h
  next htext =>
  split
  · exact h
  next frame terminator rest hfirst =>
  have hc := h.before c hconnection
  obtain ⟨hwire, -, -⟩ := Framing.first_eq_some_iff.mp hfirst
  refine ⟨?_, h.number, ?_, ?_, fun r hr => (h.results r hr).mono _⟩
  -- a frame that is taken off the wire is answered by a line for it
  · rintro c' ⟨⟩
    refine ⟨fun b hb => hc.1 b (by simp [hwire, hb]), fun heard hheard b hb => ?_⟩
    obtain hheard | hheard := List.mem_append.mp hheard
    · exact hc.2 heard hheard b hb
    · rw [Answer.answer_of_mem_line hheard] at hb
      exact hc.1 b (by simp [hwire, hb])
  · rintro call rest' hcurrent c' ⟨⟩ hquiet
    rcases h.fresh call rest' hcurrent c hconnection hquiet with
      ⟨sent, hsent, hsentWire, hincoming⟩ | ⟨-, hnil, -⟩
    · rw [hsentWire, first_sent (h.number call rest' hcurrent).2 hsent] at hfirst
      split at hfirst
      · next hrest =>
        cases hfirst
        refine .inr ⟨hrest, rfl, _, List.mem_append_right _ (List.mem_singleton.mpr rfl), rfl,
          fun hmem => htext (.inr hmem), ?_⟩
        rw [hincoming]
        rfl
      · cases hfirst
    · rw [hnil] at hfirst
      cases hfirst
  -- an answer in front stays in front
  · rintro call rest' hcurrent c' ⟨⟩ hquiet
    left
    rcases h.stale call rest' hcurrent c hconnection hquiet with
      ⟨heard, hheard, hne⟩ | ⟨hincoming, b, hb, hne⟩
    · refine ⟨heard, ?_, hne⟩
      rw [Option.mem_def] at hheard ⊢
      rw [List.head?_append, hheard]
      rfl
    · obtain ⟨heard, hheard, hanswer⟩ := Answer.head?_line ⟨frame, text⟩
      refine ⟨heard, ?_, ?_⟩
      · rw [hincoming]
        exact hheard
      · rw [hanswer]
        exact frame_ne_of_head hwire hb hne

/-- Reading takes bytes away from what is on its way. -/
theorem Connection.Before.read {c : Connection} {n : Nat} (hc : c.Before n)
    {incoming : List Heard} (hsub : incoming ⊆ c.incoming) :
    Connection.Before n { c with incoming := incoming } :=
  ⟨hc.1, fun heard hheard => hc.2 heard (hsub hheard)⟩

/-- The line that a call reads, if it found its connection quiet and if it did not. -/
theorem exact_of_first (h : s.Tracked D) {call : Call F} {c : Connection}
    (hphase : s.phase = .reading call) (hconnection : s.connection = some c)
    {text rest : List Heard} {terminator : Heard}
    (hfirst : Framing.first Heard.ends c.incoming = some (text, terminator, rest))
    {decoded : Text} (hdecoded : Utf8.decodeStrict (text.map Heard.byte) = some decoded) :
    Result.Exact D s.answered ⟨call, outcomeOf D (text ++ [terminator]) decoded⟩ := by
  have hcurrent : s.phase.current = some (call, []) := by rw [hphase]; rfl
  intro payload line houtcome
  obtain ⟨rfl, hloads⟩ := outcomeOf_eq_returned houtcome
  constructor
  · intro hquiet
    rcases h.fresh call [] hcurrent c hconnection hquiet with
      ⟨sent, -, -, hincoming⟩ | ⟨-, -, a, ha, hframe, htext, hincoming⟩
    · rw [hincoming] at hfirst
      cases hfirst
    · rw [hincoming, Answer.first_line htext] at hfirst
      cases hfirst
      refine ⟨a, ha, hframe, ?_, decoded, ?_, hloads⟩
      · rw [Answer.line, List.map_append]
        rfl
      · rw [← hdecoded, List.map_map]
        exact congrArg _ (List.map_id _).symm
  · intro hquiet
    rcases h.stale call [] hcurrent c hconnection hquiet with
      ⟨heard, hheard, hne⟩ | ⟨hincoming, -⟩
    · refine ⟨heard, ?_, hne⟩
      rw [(Framing.first_eq_some_iff.mp hfirst).1, List.head?_append] at hheard
      rw [List.head?_append]
      exact hheard
    · rw [hincoming] at hfirst
      cases hfirst

theorem readline_tracked (h : s.Tracked D) : (s.readline D).Tracked D := by
  unfold State.readline
  split
  · next call c hphase hconnection =>
    split
    · exact tracked_finish h.before h.results (exact_of_raised fun _ _ => by simp)
    split
    · split
      · exact tracked_finish h.before h.results (exact_of_raised fun _ _ => by simp)
      · exact h
    · next text terminator rest hfirst =>
      split
      · exact h
      · next decoded hdecoded =>
        refine tracked_finish ?_ h.results (exact_of_first h hphase hconnection hfirst hdecoded)
        rintro c' ⟨⟩
        refine (h.before c hconnection).read fun heard hheard => ?_
        rw [(Framing.first_eq_some_iff.mp hfirst).1]
        exact List.mem_append_right _ (List.mem_cons_of_mem _ hheard)
  · exact h

theorem timesOut_tracked (h : s.Tracked D) : s.timesOut.Tracked D := by
  unfold State.timesOut
  split
  · next call c _ hconnection =>
    refine tracked_finish ?_ h.results (exact_of_raised fun _ _ => by simp)
    rintro c' ⟨⟩
    exact h.before c hconnection
  · exact h

theorem undecodable_tracked (h : s.Tracked D) (n : Nat) : (s.undecodable n).Tracked D := by
  unfold State.undecodable
  split
  · next call c _ hconnection =>
    split
    · exact h
    · refine tracked_finish ?_ h.results (exact_of_raised fun _ _ => by simp)
      rintro c' ⟨⟩
      exact (h.before c hconnection).read (List.drop_subset _ _)
  · exact h

theorem step_tracked (h : s.Tracked D) (e : Event F)
    (he : ∀ message, e = .request message → newline ∉ encoded D message) :
    (step D s e).Tracked D := by
  cases e with
  | connect accepted => exact connect_tracked h accepted
  | close => exact close_tracked h
  | request message => exact request_tracked h (he message rfl)
  | transmit n => exact transmit_tracked h n
  | sent => exact sent_tracked h
  | sendFails => exact sendFails_tracked h
  | answer text => exact answer_tracked h text
  | hangUp => exact hangUp_tracked h
  | readline => exact readline_tracked h
  | timesOut => exact timesOut_tracked h
  | undecodable n => exact undecodable_tracked h n

theorem run_tracked {es : List (Event F)}
    (hes : ∀ message, Event.request message ∈ es → newline ∉ encoded D message) :
    (Runs.run (step D) {} es).Tracked D := by
  have hok : Runs.Along (step D)
      (fun _ e => ∀ message, e = Event.request message → newline ∉ encoded D message) {} es :=
    Runs.Along.of_forall fun e he message hmessage => hes message (hmessage ▸ he)
  exact hok.invariant start_tracked fun _ e he h => step_tracked h e he

end Tracking

section Whole

variable (D : Codec F)

/-- A send that fails has transmitted nothing, and a line that does not decode is lost whole. -/
def Whole (s : State F) : Event F → Prop
  | .sendFails => ∀ call rest, s.phase = .sending call rest →
      rest = encoded D call.message ++ [newline]
  | .undecodable n => ∀ c ∈ s.connection, c.incoming.length ≤ n + 1
  | _ => True

/-- No read on the connection returns a line any more. -/
def Connection.Dead (c : Connection) : Prop :=
  c.timedOut = true ∨ c.closed = true ∧ c.incoming = []

structure State.Clean (s : State F) : Prop where
  idle : s.phase = .idle → ∀ c ∈ s.connection, c.quiet = true ∨ c.Dead
  current : ∀ call rest, s.phase.current = some (call, rest) → ∀ c ∈ s.connection,
    call.quiet = true ∨ c.Dead
  results : ∀ r ∈ s.results, ∀ payload line, r.outcome = .returned payload line →
    r.call.quiet = true

structure State.Reached (s : State F) : Prop where
  tracked : s.Tracked D
  clean : s.Clean

variable {D} {s : State F}

theorem start_clean : ({} : State F).Clean := ⟨by simp, by simp, by simp⟩

theorem clean_finish {call : Call F} {outcome : Outcome F}
    (hconnection : ∀ c ∈ s.connection, c.quiet = true ∨ c.Dead)
    (hresults : ∀ r ∈ s.results, ∀ payload line, r.outcome = .returned payload line →
      r.call.quiet = true)
    (hr : ∀ payload line, outcome = .returned payload line → call.quiet = true) :
    (s.finish call outcome).Clean where
  idle := fun _ => hconnection
  current := by simp [State.finish, Phase.current]
  results := by
    intro r hmem
    obtain hmem | hmem := List.mem_append.mp hmem
    · exact hresults r hmem
    · rw [List.mem_singleton.mp hmem]
      exact hr

theorem quiet_of_nil {c : Connection} (hwire : c.wire = []) (hincoming : c.incoming = []) :
    c.quiet = true := by
  simp [Connection.quiet, hwire, hincoming]

theorem connect_clean (h : s.Clean) (accepted : Bool) : (s.connect accepted).Clean := by
  unfold State.connect
  split
  · next hphase _ =>
    refine ⟨fun _ c hc => ?_, by simp [hphase, Phase.current], h.results⟩
    cases accepted
    · cases hc
    · cases hc
      exact .inl rfl
  · exact h

theorem close_clean (h : s.Clean) : s.close.Clean := by
  unfold State.close
  split
  · exact ⟨by simp, by simp, h.results⟩
  · exact h

theorem request_clean (h : s.Clean) (message : Message F) : (s.request D message).Clean := by
  unfold State.request
  split
  · next hphase =>
    split
    · next hconnection =>
      exact clean_finish (by simp [hconnection]) h.results (by simp)
    · next c hconnection =>
      have hidle := h.idle hphase
      dsimp only
      split
      · exact clean_finish hidle h.results (by simp)
      refine ⟨by simp, ?_, h.results⟩
      rintro call rest ⟨⟩ c' hc'
      cases hconnection.symm.trans hc'
      exact hidle c hconnection
  · exact h

theorem transmit_clean (h : s.Clean) (n : Nat) : (s.transmit n).Clean := by
  unfold State.transmit
  split
  · next call rest c hphase hconnection =>
    refine ⟨by simp, ?_, h.results⟩
    rintro call' rest' ⟨⟩ c' ⟨⟩
    exact h.current call rest (by rw [hphase]; rfl) c hconnection
  · exact h

theorem sent_clean (h : s.Clean) : s.sent.Clean := by
  unfold State.sent
  split
  · next call hphase =>
    refine ⟨by simp, ?_, h.results⟩
    rintro call' rest' ⟨⟩
    exact h.current call [] (by rw [hphase]; rfl)
  · exact h

theorem sendFails_clean (ht : s.Tracked D) (h : s.Clean) (hwhole : Whole D s .sendFails) :
    s.sendFails.Clean := by
  unfold State.sendFails
  split
  · next call rest hphase =>
    have hcurrent : s.phase.current = some (call, rest) := by rw [hphase]; rfl
    have hrest := hwhole call rest hphase
    refine clean_finish (fun c hc => ?_) h.results (by simp)
    obtain hquiet | hdead := h.current call rest hcurrent c hc
    · left
      rcases ht.fresh call rest hcurrent c hc hquiet with
        ⟨sent, hsent, hwire, hincoming⟩ | ⟨hnil, -⟩
      · rw [hrest, List.self_eq_append_left] at hsent
        exact quiet_of_nil (by rw [hwire, hsent]; rfl) hincoming
      · simp [hrest] at hnil
    · exact .inr hdead
  · exact h

theorem answer_clean (h : s.Clean) (text : List Nat) : (s.answer text).Clean := by
  unfold State.answer
  split
  · exact h
  next c hconnection =>
  split
  · exact h
  next hopen =>
  split
  · exact h
  next frame terminator rest hfirst =>
  -- The DUT answers: its side is open, and there is something on the wire.
  have hdead {c' : Connection} (hdead : c.Dead) (htimedOut : c'.timedOut = c.timedOut) :
      c'.Dead := by
    obtain hdead | ⟨hclosed, -⟩ := hdead
    · exact .inl (htimedOut.trans hdead)
    · exact absurd (.inl hclosed) hopen
  refine ⟨?_, ?_, h.results⟩
  · rintro hphase c' ⟨⟩
    obtain hquiet | hd := h.idle hphase c hconnection
    · simp only [Connection.quiet, Bool.and_eq_true, List.isEmpty_iff] at hquiet
      rw [hquiet.1] at hfirst
      cases hfirst
    · exact .inr (hdead hd rfl)
  · rintro call rest' hcurrent c' ⟨⟩
    exact (h.current call rest' hcurrent c hconnection).imp id fun hd => hdead hd rfl

theorem hangUp_clean (h : s.Clean) : s.hangUp.Clean := by
  have hdead {c : Connection} (hdead : c.Dead) :
      Connection.Dead { c with closed := true } :=
    hdead.imp id fun hd => ⟨rfl, hd.2⟩
  refine ⟨?_, ?_, h.results⟩
  · intro hphase c hc
    obtain ⟨c, hconnection, rfl⟩ := Option.map_eq_some_iff.mp hc
    exact (h.idle hphase c hconnection).imp id hdead
  · intro call rest hcurrent c hc
    obtain ⟨c, hconnection, rfl⟩ := Option.map_eq_some_iff.mp hc
    exact (h.current call rest hcurrent c hconnection).imp id hdead

theorem readline_clean (ht : s.Tracked D) (h : s.Clean) : (s.readline D).Clean := by
  unfold State.readline
  split
  · next call c hphase hconnection =>
    have hcurrent : s.phase.current = some (call, []) := by rw [hphase]; rfl
    have hcall := h.current call [] hcurrent c hconnection
    -- every way out but an answer leaves the connection dead
    have hdies (hdead : c.Dead) : (s.finish call .communicationError).Clean := by
      refine clean_finish (fun c' hc' => ?_) h.results (by simp)
      cases hconnection.symm.trans hc'
      exact .inr hdead
    split
    · next htimedOut => exact hdies (.inl htimedOut)
    next htimedOut =>
    split
    · split
      · next hclosed => exact hdies (.inr hclosed)
      · exact h
    · next text terminator rest hfirst =>
      split
      · exact h
      · next decoded hdecoded =>
        have hincoming : c.incoming ≠ [] := fun hnil => by
          rw [hnil] at hfirst
          cases hfirst
        -- a line came, so the call was alone on its connection
        have hquiet : call.quiet = true := by
          obtain hquiet | hdead | ⟨-, hnil⟩ := hcall
          · exact hquiet
          · exact absurd hdead htimedOut
          · exact absurd hnil hincoming
        refine clean_finish ?_ h.results fun _ _ _ => hquiet
        rintro c' ⟨⟩
        left
        rcases ht.fresh call [] hcurrent c hconnection hquiet with
          ⟨-, -, -, hnil⟩ | ⟨-, hwire, a, -, -, htext, hline⟩
        · exact absurd hnil hincoming
        · rw [hline, Answer.first_line htext] at hfirst
          cases hfirst
          exact quiet_of_nil hwire rfl
  · exact h

theorem timesOut_clean (h : s.Clean) : s.timesOut.Clean := by
  unfold State.timesOut
  split
  · refine clean_finish ?_ h.results (by simp)
    rintro c' ⟨⟩
    exact .inr (.inl rfl)
  · exact h

theorem undecodable_clean (ht : s.Tracked D) (h : s.Clean) {n : Nat}
    (hwhole : Whole D s (.undecodable n)) : (s.undecodable n).Clean := by
  unfold State.undecodable
  split
  · next call c hphase hconnection =>
    have hcurrent : s.phase.current = some (call, []) := by rw [hphase]; rfl
    split
    · exact h
    next hguard =>
    have hdrop : c.incoming.drop (n + 1) = [] :=
      List.drop_eq_nil_of_le (hwhole c hconnection)
    have hincoming : c.incoming ≠ [] := fun hnil => hguard (.inr (by rw [hnil]; rfl))
    refine clean_finish ?_ h.results (by simp)
    rintro c' ⟨⟩
    left
    obtain hquiet | hdead | ⟨-, hnil⟩ := h.current call [] hcurrent c hconnection
    · rcases ht.fresh call [] hcurrent c hconnection hquiet with
        ⟨-, -, -, hnil⟩ | ⟨-, hwire, -⟩
      · exact absurd hnil hincoming
      · exact quiet_of_nil hwire hdrop
    · exact absurd (.inl hdead) hguard
    · exact absurd hnil hincoming
  · exact h

theorem step_clean (ht : s.Tracked D) (h : s.Clean) (e : Event F) (he : Whole D s e) :
    (step D s e).Clean := by
  cases e with
  | connect accepted => exact connect_clean h accepted
  | close => exact close_clean h
  | request message => exact request_clean h message
  | transmit n => exact transmit_clean h n
  | sent => exact sent_clean h
  | sendFails => exact sendFails_clean ht h he
  | answer text => exact answer_clean h text
  | hangUp => exact hangUp_clean h
  | readline => exact readline_clean ht h
  | timesOut => exact timesOut_clean h
  | undecodable n => exact undecodable_clean ht h he

/-- Where no frame and no reply was cut short, each call that returns found nothing of an
earlier one. -/
theorem run_clean {es : List (Event F)}
    (hes : ∀ message, Event.request message ∈ es → newline ∉ encoded D message)
    (hwhole : Runs.Along (step D) (Whole D) {} es) : (Runs.run (step D) {} es).Clean := by
  have hok : Runs.Along (step D)
      (fun _ e => ∀ message, e = Event.request message → newline ∉ encoded D message) {} es :=
    Runs.Along.of_forall fun e he message hmessage => hes message (hmessage ▸ he)
  have hreached : (Runs.run (step D) {} es).Reached D :=
    (hok.and hwhole).invariant ⟨start_tracked, start_clean⟩ fun _ e he h =>
      ⟨step_tracked h.tracked e he.1, step_clean h.tracked h.clean e he.2⟩
  exact hreached.clean

end Whole

section Pairing

variable (D : Codec F)

/-- Every call of the run that returns a payload was given the reply to its own frame. -/
def Pairs (es : List (Event F)) : Prop :=
  ∀ r ∈ (Runs.run (step D) {} es).results, ∀ payload line,
    r.outcome = .returned payload line →
      Paired D (Runs.run (step D) {} es).answered r.call payload line

/-- A reply is paired with its request exactly when the call found nothing of an earlier call
left on the connection; so it is in each run in which no frame and no reply was cut short. -/
theorem request_paired_iff {es : List (Event F)}
    (hes : ∀ message, Event.request message ∈ es → newline ∉ encoded D message) :
    (∀ r ∈ (Runs.run (step D) {} es).results, ∀ payload line,
      r.outcome = .returned payload line →
        (Paired D (Runs.run (step D) {} es).answered r.call payload line ↔
          r.call.quiet = true)) ∧
    (Runs.Along (step D) (Whole D) {} es → Pairs D es) := by
  have htracked := run_tracked hes
  constructor
  · intro r hr payload line houtcome
    have hexact := htracked.results r hr payload line houtcome
    constructor
    · rintro ⟨a, -, hframe, rfl, -⟩
      by_contra hquiet
      obtain ⟨heard, hheard, hne⟩ := hexact.2 (by simpa using hquiet)
      rw [Answer.answer_of_mem_line (List.mem_of_mem_head? hheard)] at hne
      exact hne hframe
    · exact hexact.1
  · intro hwhole r hr payload line houtcome
    have hquiet := (run_clean hes hwhole).results r hr payload line houtcome
    exact (htracked.results r hr payload line houtcome).1 hquiet

section Sample

/-- `json.loads` as far as the samples go: their numbers are small and their nesting is flat. -/
def sampleCodec : Codec Text where
  floats := .tokens
  overflows := fun _ => false
  parseInt := fun token => .ok (token.foldl (fun n digit => 10 * n + (digit - 0x30 : Nat)) 0 : Nat)
  objectPairs := Python.dictOfPairs
  refuses := fun v => if 900 < v.depth then some .recursionError else none

def sampleMessage (sequence : Int) : Message Text := [(Json.ascii "sequence", .int sequence)]

/-- The send of the first call times out after five bytes; the second call reads a reply. -/
def sampleRun : List (Event Text) :=
  [.connect true, .request (sampleMessage 1), .transmit 5, .sendFails,
    .request (sampleMessage 2), .transmit 16, .sent,
    .answer (Json.ascii "\x7b\"status\": \"error\"\x7d"), .readline]

/-- The same, but the send that times out has transmitted nothing. -/
def wholeRun : List (Event Text) :=
  [.connect true, .request (sampleMessage 1), .sendFails,
    .request (sampleMessage 2), .transmit 16, .sent,
    .answer (Json.ascii "\x7b\"status\": \"ok\"\x7d"), .readline]

theorem sampleRun_newline (message : Message Text) (h : Event.request message ∈ sampleRun) :
    newline ∉ encoded sampleCodec message := by
  simp only [sampleRun, List.mem_cons, reduceCtorEq, Event.request.injEq, List.not_mem_nil,
    or_false, false_or] at h
  obtain rfl | rfl := h
  · decide +kernel
  · decide +kernel

theorem wholeRun_newline (message : Message Text) (h : Event.request message ∈ wholeRun) :
    newline ∉ encoded sampleCodec message := by
  refine sampleRun_newline message ?_
  simp only [wholeRun, sampleRun, List.mem_cons, reduceCtorEq, Event.request.injEq,
    List.not_mem_nil, or_false, false_or] at h ⊢
  exact h

theorem wholeRun_whole : Runs.Along (step sampleCodec) (Whole sampleCodec) {} wholeRun := by
  have hnothing : Whole sampleCodec
      (Runs.run (step sampleCodec) {} [.connect true, .request (sampleMessage 1)]) .sendFails := by
    rintro call rest ⟨⟩
    rfl
  exact ⟨trivial, trivial, hnothing, trivial, trivial, trivial, trivial, trivial, trivial⟩

/-- In the second run the call that returns has the reply to its own frame. -/
theorem request_paired_iff_sample :
    (∀ r ∈ (Runs.run (step sampleCodec) {} sampleRun).results, ∀ payload line,
      r.outcome = .returned payload line →
        (Paired sampleCodec (Runs.run (step sampleCodec) {} sampleRun).answered r.call payload
            line ↔
          r.call.quiet = true)) ∧
      Pairs sampleCodec wholeRun :=
  ⟨(request_paired_iff sampleCodec sampleRun_newline).1,
    (request_paired_iff sampleCodec wholeRun_newline).2 wholeRun_whole⟩

/-- The DUT answers the five bytes and the second frame as one; that reply is returned. -/
theorem reply_to_joined_frame :
    ¬ ∀ (D : Codec Text) (es : List (Event Text)),
      (∀ message, Event.request message ∈ es → newline ∉ encoded D message) → Pairs D es := by
  intro h
  have hreturned : (Runs.run (step sampleCodec) {} sampleRun).results.any (fun r =>
      (match r.outcome with | .returned _ _ => true | _ => false) &&
      (Runs.run (step sampleCodec) {} sampleRun).answered.all fun a =>
        a.frame != r.call.frame sampleCodec) = true := by
    decide +kernel
  obtain ⟨r, hr, hmispaired⟩ := List.any_eq_true.mp hreturned
  rw [Bool.and_eq_true, List.all_eq_true] at hmispaired
  rcases houtcome : r.outcome with ⟨payload, line⟩ | _ | _
  · obtain ⟨a, ha, hframe, -⟩ := h sampleCodec sampleRun sampleRun_newline r hr payload line houtcome
    exact (bne_iff_ne.mp (hmispaired.2 a ha)) hframe
  · simp [houtcome] at hmispaired
  · simp [houtcome] at hmispaired

end Sample

end Pairing

end Testlab
