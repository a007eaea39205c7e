import FlightTestLab.Testlab.Exchange

/-!
# Waiting until the DUT is ready

`wait_until_ready`: status requests on one connection after another, until a reply says `READY`
or the deadline is past. A connection is closed after each failure, and so what is read is never
left over from a request before.

## Main definitions

- `Testlab.Polling.Loop`: the client and where the loop stands
- `Testlab.Polling.step`: a turn of the loop, or a step of the network or of the DUT

## Main results

- `Testlab.Polling.ready_answered`: on any DUT, readiness is the DUT's reply to the last request
- `Testlab.Polling.first_reply_ready`: on a DUT without faults, the first reply ends the loop
-/

namespace Testlab

open Json (Text ascii)
open Python (Value Error Decoder)

variable {F : Type}

/-- The event is not a call of the program that has the client. -/
def Event.isOutside : Event F → Bool
  | .connect _ | .close | .request _ => false
  | _ => true

namespace Polling

/-- How `wait_until_ready` ends. -/
inductive Ending
  | ready
  | timeout
  | raised (e : Error)

inductive Stage
  /-- At the head of the loop. -/
  | looping
  /-- In `request`. -/
  | requesting
  | ended (ending : Ending)

structure Loop (F : Type) where
  client : State F
  stage : Stage

inductive Move (F : Type)
  /-- The loop goes on, before the deadline or not; a connection it asks for may be refused. -/
  | turn (early accepted : Bool)
  | outside (event : Event F)

/-- `{"command": "status", "sequence": 0}` -/
def statusRequest : Message F :=
  [(ascii "command", .str (ascii "status")), (ascii "sequence", .int 0)]

/-- `payload.get("state") == "READY"` -/
def saysReady (payload : Message F) : Bool :=
  (Value.get (ascii "state") payload).eqStr (ascii "READY")

/-- The rest of a turn, when `request` has returned or raised. -/
def afterRequest (client : State F) : Loop F :=
  match client.results.getLast? with
  | some ⟨_, .returned payload _⟩ => ⟨client, if saysReady payload then .ended .ready else .looping⟩
  | some ⟨_, .escaped e⟩ => ⟨client, .ended (.raised e)⟩
  | _ => ⟨client.close, .looping⟩

section Step

variable (D : Codec F)

def Loop.turn (l : Loop F) (early accepted : Bool) : Loop F :=
  match l.stage with
  | .looping =>
    if early then
      let client := l.client.connect accepted
      if client.connection.isSome then
        let client := client.request D statusRequest
        match client.phase with
        | .idle => afterRequest client
        | _ => ⟨client, .requesting⟩
      else ⟨client.close, .looping⟩
    else { l with stage := .ended .timeout }
  | _ => l

def Loop.outside (l : Loop F) (event : Event F) : Loop F :=
  if event.isOutside then
    let client := Testlab.step D l.client event
    match l.stage, client.phase with
    | .requesting, .idle => afterRequest client
    | stage, _ => ⟨client, stage⟩
  else l

def step (l : Loop F) : Move F → Loop F
  | .turn early accepted => l.turn D early accepted
  | .outside event => l.outside D event

end Step

section Calls

variable {D : Codec F} {s : State F}

/-- On an idle client nothing is sent or read. -/
theorem outside_idle (hphase : s.phase = .idle) {event : Event F}
    (hout : event.isOutside = true) :
    (Testlab.step D s event).phase = .idle ∧ (Testlab.step D s event).results = s.results ∧
      ((∀ c ∈ s.connection, c.quiet = true) →
        ∀ c ∈ (Testlab.step D s event).connection, c.quiet = true) := by
  cases event with
  | connect _ | close | request _ => cases hout
  | transmit n =>
    rw [Testlab.step, State.transmit, hphase]
    exact ⟨hphase, rfl, id⟩
  | sent =>
    rw [Testlab.step, State.sent, hphase]
    exact ⟨hphase, rfl, id⟩
  | sendFails =>
    rw [Testlab.step, State.sendFails, hphase]
    exact ⟨hphase, rfl, id⟩
  | readline =>
    rw [Testlab.step, State.readline, hphase]
    exact ⟨hphase, rfl, id⟩
  | timesOut =>
    rw [Testlab.step, State.timesOut, hphase]
    exact ⟨hphase, rfl, id⟩
  | undecodable n =>
    rw [Testlab.step, State.undecodable, hphase]
    exact ⟨hphase, rfl, id⟩
  | hangUp =>
    refine ⟨hphase, rfl, fun hquiet c hc => ?_⟩
    obtain ⟨c, hconnection, rfl⟩ := Option.map_eq_some_iff.mp hc
    exact hquiet c hconnection
  | answer text =>
    rw [Testlab.step, State.answer]
    cases hconnection : s.connection with
    | none => exact ⟨hphase, rfl, by simp [hconnection]⟩
    | some c =>
      dsimp only
      by_cases hclosed : c.closed = true ∨ newline ∈ text
      · rw [if_pos hclosed, hconnection]
        exact ⟨hphase, rfl, id⟩
      rw [if_neg hclosed]
      cases hfirst : Framing.first Sent.ends c.wire with
      | none =>
        dsimp only
        rw [hconnection]
        exact ⟨hphase, rfl, id⟩
      | some found =>
        refine ⟨hphase, rfl, fun hquiet => ?_⟩
        -- a quiet connection has no frame to answer
        have hwire := hquiet c rfl
        simp only [Connection.quiet, Bool.and_eq_true, List.isEmpty_iff] at hwire
        rw [hwire.1] at hfirst
        cases hfirst

theorem connect_idle (hphase : s.phase = .idle) (hquiet : ∀ c ∈ s.connection, c.quiet = true)
    (accepted : Bool) :
    (s.connect accepted).phase = .idle ∧ (s.connect accepted).results = s.results ∧
      ∀ c ∈ (s.connect accepted).connection, c.quiet = true := by
  rw [State.connect, hphase]
  cases hconnection : s.connection with
  | none =>
    refine ⟨rfl, rfl, fun c hc => ?_⟩
    cases accepted with
    | true =>
      cases hc
      rfl
    | false => cases hc
  | some c => exact ⟨hphase, rfl, hquiet⟩

/-- A call on a connection sends its message, unless the encoder raises on it. -/
theorem request_idle (hphase : s.phase = .idle) {c : Connection} (hconnection : s.connection = some c)
    (message : Message F) :
    s.request D message =
      match D.refuses (.dict message) with
      | some e => { s with calls := s.calls + 1 }.finish ⟨s.calls, message, c.quiet⟩ (.escaped e)
      | none => { s with
          calls := s.calls + 1
          phase := .sending ⟨s.calls, message, c.quiet⟩ (encoded D message ++ [newline]) } := by
  obtain ⟨connection, phase, calls, answered, results⟩ := s
  obtain rfl : phase = .idle := hphase
  obtain rfl : connection = some c := hconnection
  unfold State.request
  cases D.refuses (.dict message) <;> rfl

/-- What a call that found its connection quiet comes to in one step: it goes on, or it ends with an
outcome, and with a payload nothing is left on the connection. -/
def Proceeds (call : Call F) (s s' : State F) : Prop :=
  (s'.results = s.results ∧ ∃ rest, s'.phase.current = some (call, rest)) ∨
  (s'.phase = .idle ∧ ∃ outcome, s'.results = s.results ++ [⟨call, outcome⟩] ∧
    ∀ payload line, outcome = .returned payload line → ∀ c ∈ s'.connection, c.quiet = true)

theorem proceeds_finish {s' : State F} {call : Call F} {outcome : Outcome F}
    (hresults : s'.results = s.results)
    (h : ∀ payload line, outcome = .returned payload line →
      ∀ c ∈ s'.connection, c.quiet = true) : Proceeds call s (s'.finish call outcome) := by
  refine .inr ⟨rfl, outcome, ?_, h⟩
  rw [← hresults]
  rfl

theorem phase_cases {call : Call F} {rest : List Nat} (h : s.phase.current = some (call, rest)) :
    s.phase = .sending call rest ∨ s.phase = .reading call ∧ rest = [] := by
  cases hphase : s.phase with
  | idle =>
    rw [hphase] at h
    cases h
  | sending call' rest' =>
    rw [hphase] at h
    cases h
    exact .inl rfl
  | reading call' =>
    rw [hphase] at h
    cases h
    exact .inr ⟨rfl, rfl⟩

/-- The reply that such a call reads is all that was on its connection. -/
theorem readline_call (ht : s.Tracked D) {call : Call F} (hphase : s.phase = .reading call)
    (hquiet : call.quiet = true) : Proceeds call s (s.readline D) := by
  have hcurrent : s.phase.current = some (call, []) := by rw [hphase]; rfl
  have hgoes : Proceeds call s s := .inl ⟨rfl, [], hcurrent⟩
  rw [State.readline, hphase]
  cases hconnection : s.connection with
  | none => exact hgoes
  | some c =>
    dsimp only
    by_cases htimedOut : c.timedOut = true
    · rw [if_pos htimedOut]
      exact proceeds_finish rfl (by simp)
    rw [if_neg htimedOut]
    cases hfirst : Framing.first Heard.ends c.incoming with
    | none =>
      dsimp only
      split_ifs
      · exact proceeds_finish rfl (by simp)
      · exact hgoes
    | some found =>
      obtain ⟨text, terminator, rest⟩ := found
      dsimp only
      cases Utf8.decodeStrict (text.map Heard.byte) with
      | none => exact hgoes
      | some decoded =>
        refine proceeds_finish rfl fun _ _ _ => ?_
        rintro c' ⟨⟩
        rcases ht.fresh call [] hcurrent c hconnection hquiet with
          ⟨-, -, -, hnil⟩ | ⟨-, hwire, a, -, -, htext, hline⟩
        · rw [hnil] at hfirst
          cases hfirst
        · rw [hline, Answer.first_line htext] at hfirst
          cases hfirst
          exact quiet_of_nil hwire rfl

theorem outside_call (ht : s.Tracked D) {call : Call F} {rest : List Nat}
    (hcurrent : s.phase.current = some (call, rest)) (hquiet : call.quiet = true) {event : Event F}
    (hout : event.isOutside = true) : Proceeds call s (Testlab.step D s event) := by
  have hgoes : Proceeds call s s := .inl ⟨rfl, rest, hcurrent⟩
  cases event with
  | connect _ | close | request _ => cases hout
  | transmit n =>
    rw [Testlab.step, State.transmit]
    obtain hphase | ⟨hphase, rfl⟩ := phase_cases hcurrent
    · rw [hphase]
      cases hconnection : s.connection with
      | none => exact hgoes
      | some c => exact .inl ⟨rfl, rest.drop n, rfl⟩
    · rw [hphase]
      exact hgoes
  | sent =>
    rw [Testlab.step, State.sent]
    obtain hphase | ⟨hphase, rfl⟩ := phase_cases hcurrent
    · rw [hphase]
      cases rest with
      | nil => exact .inl ⟨rfl, [], rfl⟩
      | cons byte rest => exact hgoes
    · rw [hphase]
      exact hgoes
  | sendFails =>
    rw [Testlab.step, State.sendFails]
    obtain hphase | ⟨hphase, rfl⟩ := phase_cases hcurrent
    · rw [hphase]
      exact proceeds_finish rfl (by simp)
    · rw [hphase]
      exact hgoes
  | answer text =>
    rw [Testlab.step, State.answer]
    cases hconnection : s.connection with
    | none => exact hgoes
    | some c =>
      dsimp only
      split_ifs
      · exact hgoes
      · cases Framing.first Sent.ends c.wire with
        | none => exact hgoes
        | some found => exact .inl ⟨rfl, rest, hcurrent⟩
  | hangUp => exact .inl ⟨rfl, rest, hcurrent⟩
  | readline =>
    obtain hphase | ⟨hphase, rfl⟩ := phase_cases hcurrent
    · rw [Testlab.step, State.readline, hphase]
      exact hgoes
    · exact readline_call ht hphase hquiet
  | timesOut =>
    rw [Testlab.step, State.timesOut]
    obtain hphase | ⟨hphase, rfl⟩ := phase_cases hcurrent
    · rw [hphase]
      exact hgoes
    · rw [hphase]
      cases s.connection with
      | none => exact hgoes
      | some c => exact proceeds_finish rfl (by simp)
  | undecodable n =>
    rw [Testlab.step, State.undecodable]
    obtain hphase | ⟨hphase, rfl⟩ := phase_cases hcurrent
    · rw [hphase]
      exact hgoes
    · rw [hphase]
      cases s.connection with
      | none => exact hgoes
      | some c =>
        dsimp only
        split_ifs
        · exact hgoes
        · exact proceeds_finish rfl (by simp)

end Calls

section Loop

/-- The loop has made its own calls after the first `n` results, each on a quiet connection. -/
structure Loop.Sound (D : Codec F) (n : Nat) (l : Loop F) : Prop where
  tracked : l.client.Tracked D
  idle : l.stage ≠ .requesting → l.client.phase = .idle
  quiet : l.stage = .looping → ∀ c ∈ l.client.connection, c.quiet = true
  requesting : l.stage = .requesting → ∃ call rest, l.client.phase.current = some (call, rest) ∧
    call.quiet = true ∧ call.message = statusRequest
  calls : ∀ r ∈ l.client.results.drop n, r.call.quiet = true ∧ r.call.message = statusRequest
  ready : l.stage = .ended .ready → ∃ r ∈ l.client.results.drop n, ∃ payload line,
    l.client.results.getLast? = some r ∧ r.outcome = .returned payload line ∧
      saysReady payload = true
  count : n ≤ l.client.results.length

variable {D : Codec F} {n : Nat} {l : Loop F}

theorem statusRequest_encoded : encoded D statusRequest =
    ascii "\x7b\"command\": \"status\", \"sequence\": 0\x7d" := rfl

theorem newline_not_mem_statusRequest : newline ∉ encoded D statusRequest := by
  rw [statusRequest_encoded]
  decide

/-- A loop that has not called anything yet. -/
theorem looping_sound {s : State F} (ht : s.Tracked D) (hphase : s.phase = .idle)
    (hquiet : ∀ c ∈ s.connection, c.quiet = true) (hcount : n ≤ s.results.length)
    (hcalls : ∀ r ∈ s.results.drop n, r.call.quiet = true ∧ r.call.message = statusRequest) :
    Loop.Sound D n ⟨s, .looping⟩ where
  tracked := ht
  idle _ := hphase
  quiet _ := hquiet
  requesting h := by cases h
  calls := hcalls
  ready h := by cases h
  count := hcount

theorem close_idle {s : State F} (hphase : s.phase = .idle) :
    s.close.phase = .idle ∧ s.close.results = s.results ∧ s.close.connection = none := by
  rw [State.close, hphase]
  exact ⟨rfl, rfl, rfl⟩

/-- After a failure the connection is closed; after a payload nothing is left on it. -/
theorem afterRequest_sound {s : State F} (ht : s.Tracked D) (hphase : s.phase = .idle)
    {results : List (Result F)} {call : Call F} {outcome : Outcome F}
    (hresults : s.results = results ++ [⟨call, outcome⟩]) (hcount : n ≤ results.length)
    (hcalls : ∀ r ∈ results.drop n, r.call.quiet = true ∧ r.call.message = statusRequest)
    (hcall : call.quiet = true ∧ call.message = statusRequest)
    (hquiet : ∀ payload line, outcome = .returned payload line →
      ∀ c ∈ s.connection, c.quiet = true) : (afterRequest s).Sound D n := by
  have hdrop : s.results.drop n = results.drop n ++ [⟨call, outcome⟩] := by
    rw [hresults, List.drop_append_of_le_length hcount]
  have hcalls : ∀ r ∈ s.results.drop n, r.call.quiet = true ∧ r.call.message = statusRequest := by
    rw [hdrop]
    exact List.forall_mem_append.mpr ⟨hcalls, by rwa [List.forall_mem_singleton]⟩
  have hcount : n ≤ s.results.length := by
    rw [hresults, List.length_append]
    omega
  have hlast : s.results.getLast? = some ⟨call, outcome⟩ := by
    rw [hresults, List.getLast?_concat]
  rw [afterRequest, hlast]
  cases outcome with
  | returned payload line =>
    dsimp only
    cases hready : saysReady payload with
    | false =>
      rw [if_neg Bool.false_ne_true]
      exact looping_sound ht hphase (hquiet payload line rfl) hcount hcalls
    | true =>
      rw [if_pos rfl]
      refine ⟨ht, fun _ => hphase, by simp, by simp, hcalls, fun _ => ?_, hcount⟩
      refine ⟨_, ?_, payload, line, hlast, rfl, hready⟩
      rw [hdrop]
      exact List.mem_append_right _ (List.mem_singleton.mpr rfl)
  | communicationError =>
    obtain ⟨hphase', hresults', hnone⟩ := close_idle hphase
    refine looping_sound (close_tracked ht) hphase' (by simp [hnone]) ?_ ?_
    · rw [hresults']
      exact hcount
    · rw [hresults']
      exact hcalls
  | escaped e => exact ⟨ht, fun _ => hphase, by simp, by simp, hcalls, by simp, hcount⟩

theorem turn_sound (h : l.Sound D n) (early accepted : Bool) :
    (l.turn D early accepted).Sound D n := by
  obtain ⟨client, stage⟩ := l
  rw [Loop.turn]
  cases stage with
  | requesting | ended _ => exact h
  | looping =>
    have hidle := h.idle (by simp)
    dsimp only
    cases early with
    | false =>
      rw [if_neg Bool.false_ne_true]
      refine ⟨h.tracked, fun _ => hidle, ?_, ?_, h.calls, ?_, h.count⟩ <;> simp
    | true =>
      rw [if_pos rfl]
      obtain ⟨hphase, hresults, hquiet⟩ := connect_idle hidle (h.quiet rfl) accepted
      have ht := connect_tracked h.tracked accepted
      have hcalls := h.calls
      have hcount := h.count
      dsimp only at hresults hcalls hcount
      rw [← hresults] at hcalls hcount
      cases hconnection : (client.connect accepted).connection with
      | none =>
        rw [Option.isSome_none, if_neg Bool.false_ne_true]
        obtain ⟨hphase', hresults', hnone⟩ := close_idle hphase
        refine looping_sound (close_tracked ht) hphase' (by simp [hnone]) ?_ ?_
        · rw [hresults']
          exact hcount
        · rw [hresults']
          exact hcalls
      | some c =>
        rw [Option.isSome_some, if_pos rfl]
        have hrequest := request_tracked ht (newline_not_mem_statusRequest (D := D))
        rw [request_idle hphase hconnection] at hrequest ⊢
        have hcall := hquiet c hconnection
        cases hrefuses : D.refuses (.dict statusRequest) with
        | some e =>
          rw [hrefuses] at hrequest
          exact afterRequest_sound hrequest rfl rfl hcount hcalls ⟨hcall, rfl⟩ (by simp)
        | none =>
          rw [hrefuses] at hrequest
          exact ⟨hrequest, fun hne => absurd rfl hne, by simp, fun _ => ⟨_, _, rfl, hcall, rfl⟩,
            hcalls, by simp, hcount⟩

theorem Loop.Sound.outside_tracked (h : l.Sound D n) {event : Event F}
    (hout : event.isOutside = true) : (Testlab.step D l.client event).Tracked D := by
  refine step_tracked h.tracked event ?_
  rintro message rfl
  cases hout

/-- A step from outside leaves the loop where it is, or it ends the call that the loop has made. -/
theorem outside_cases (h : l.Sound D n) {event : Event F} (hout : event.isOutside = true) :
    let client := Testlab.step D l.client event
    (l.outside D event = ⟨client, l.stage⟩ ∧ client.results = l.client.results ∧
      Loop.Sound D n ⟨client, l.stage⟩) ∨
    (l.stage = .requesting ∧ l.outside D event = afterRequest client ∧ client.phase = .idle ∧
      ∃ call outcome, (call.quiet = true ∧ call.message = statusRequest) ∧
        client.results = l.client.results ++ [⟨call, outcome⟩] ∧
        ∀ payload line, outcome = .returned payload line →
          ∀ c ∈ client.connection, c.quiet = true) := by
  have ht := h.outside_tracked hout
  obtain ⟨client, stage⟩ := l
  rw [Loop.outside, if_pos hout]
  have hstays (hstage : stage ≠ .requesting) :
      (Testlab.step D client event).results = client.results ∧
        Loop.Sound D n ⟨Testlab.step D client event, stage⟩ := by
    obtain ⟨hphase, hresults, hquiet⟩ := outside_idle (D := D) (h.idle hstage) hout
    have hcalls := h.calls
    have hready := h.ready
    have hcount := h.count
    rw [← hresults] at hcalls hready hcount
    exact ⟨hresults, ht, fun _ => hphase, fun hlooping => hquiet (h.quiet hlooping),
      fun hrequesting => absurd hrequesting hstage, hcalls, hready, hcount⟩
  cases stage with
  | looping => exact .inl ⟨rfl, hstays (by simp)⟩
  | ended ending => exact .inl ⟨rfl, hstays (by simp)⟩
  | requesting =>
    obtain ⟨call, rest, hcurrent, hcall⟩ := h.requesting rfl
    obtain ⟨hresults, rest', hcurrent'⟩ | ⟨hphase, outcome, hresults, hquiet⟩ :=
      outside_call h.tracked hcurrent hcall.1 hout
    · have hcalls := h.calls
      have hcount := h.count
      rw [← hresults] at hcalls hcount
      refine .inl ⟨?_, hresults, ht, fun hne => absurd rfl hne, by simp,
        fun _ => ⟨call, rest', hcurrent', hcall⟩, hcalls, by simp, hcount⟩
      obtain hphase | ⟨hphase, -⟩ := phase_cases hcurrent'
      · dsimp only
        rw [hphase]
      · dsimp only
        rw [hphase]
    · refine .inr ⟨rfl, ?_, hphase, call, outcome, hcall, hresults, hquiet⟩
      dsimp only
      rw [hphase]

theorem outside_sound (h : l.Sound D n) (event : Event F) : (l.outside D event).Sound D n := by
  cases hout : event.isOutside with
  | false =>
    rw [Loop.outside, if_neg (by simp [hout])]
    exact h
  | true =>
    obtain ⟨heq, -, hsound⟩ | ⟨-, heq, hphase, call, outcome, hcall, hresults, hquiet⟩ :=
      outside_cases h hout
    · rw [heq]
      exact hsound
    · rw [heq]
      exact afterRequest_sound (h.outside_tracked hout) hphase hresults h.count h.calls hcall hquiet

theorem step_sound (h : l.Sound D n) (move : Move F) : (step D l move).Sound D n := by
  cases move with
  | turn early accepted => exact turn_sound h early accepted
  | outside event => exact outside_sound h event

/-- On whatever DUT that answers a frame with one line at most, after calls of newline-free messages
that are over and have left nothing on the connection: all that `wait_until_ready` gets are replies
to its own status requests, each to the one that was last sent; and when it returns, that reply says
`READY`. -/
theorem ready_answered {earlier : List (Event F)}
    (hearlier : ∀ message, Event.request message ∈ earlier → newline ∉ encoded D message)
    (hphase : (Runs.run (Testlab.step D) {} earlier).phase = .idle)
    (hquiet : ∀ c ∈ (Runs.run (Testlab.step D) {} earlier).connection, c.quiet = true)
    (moves : List (Move F)) :
    let s := Runs.run (Testlab.step D) {} earlier
    let l := Runs.run (step D) ⟨s, .looping⟩ moves
    (∀ r ∈ l.client.results.drop s.results.length, r.call.message = statusRequest ∧
      ∀ payload line, r.outcome = .returned payload line →
        Paired D l.client.answered r.call payload line) ∧
    (l.stage = .ended .ready → ∃ r ∈ l.client.results.drop s.results.length, ∃ payload line,
      l.client.results.getLast? = some r ∧ r.outcome = .returned payload line ∧
        saysReady payload = true) := by
  have hstart := looping_sound (run_tracked hearlier) hphase hquiet (Nat.le_refl _)
    (by simp : ∀ r ∈ (Runs.run (Testlab.step D) {} earlier).results.drop
      (Runs.run (Testlab.step D) {} earlier).results.length, _)
  have h := Runs.run_invariant hstart (fun _ move h => step_sound h move) moves
  refine ⟨fun r hr => ⟨(h.calls r hr).2, fun payload line houtcome => ?_⟩, h.ready⟩
  exact (h.tracked.results r (List.mem_of_mem_drop hr) payload line houtcome).1 (h.calls r hr).1

section Genuine

variable {I : Simulator.Interpreter F} {N : Cpp.NativeDouble F}

/-- The DUT answers as one of the two programs does. -/
def Answered (I : Simulator.Interpreter F) (N : Cpp.NativeDouble F) (l : Loop F) : Move F → Prop
  | .turn _ _ => True
  | .outside event => Answers I N l.client event

instance (l : Loop F) : ∀ move, Decidable (Answered I N l move)
  | .turn _ _ => isTrue trivial
  | .outside _ => inferInstanceAs (Decidable (Answers I N _ _))

theorem statusRequest_sendable : Sendable D I statusRequest where
  among := by
    refine among_object [ascii "command", ascii "sequence"] rfl (by decide) ?_
    simp only [statusRequest, List.forall_mem_cons]
    exact ⟨among_str (by decide), .int rfl, List.forall_mem_nil _⟩
  length := by
    rw [statusRequest_encoded]
    decide

theorem refuses_statusRequest (hp : Peers D I N) : D.refuses (.dict statusRequest) = none := by
  refine hp.writes _ ((statusRequest_sendable (D := D)).among.mono (fun _ h => h) (fun _ h => h)
    fun _ _ => trivial) ?_
  show 2 ≤ Simulator.maxNestingDepth
  decide

/-- The protocol answers a status request with `READY`. -/
theorem saysReady_response {payload : Message F}
    (h : .dict payload = (response (statusRequest : Message F)).sorted) :
    saysReady payload = true := by
  have hresponse : (response (statusRequest : Message F)).sorted =
      .dict [(ascii "sequence", .int 0), (ascii "state", .str (ascii "READY")),
        (ascii "status", .str (ascii "ok"))] := rfl
  rw [Value.dict.inj (h.trans hresponse)]
  rfl

/-- No call has returned yet, or the loop is over. -/
structure Loop.Prompt (D : Codec F) (I : Simulator.Interpreter F) (N : Cpp.NativeDouble F)
    (n : Nat) (l : Loop F) : Prop where
  sound : l.Sound D n
  served : l.client.Served D I N
  first : (∃ r ∈ l.client.results.drop n, ∃ payload line, r.outcome = .returned payload line) →
    l.stage = .ended .ready
  caught : ∀ e, l.stage ≠ .ended (.raised e)

/-- A turn makes no call that returns at once, and it raises nothing. -/
theorem turn_cases (hp : Peers D I N) (h : l.Sound D n) (early accepted : Bool) :
    l.turn D early accepted = l ∨
    (l.stage = .looping ∧ (l.turn D early accepted).client.results = l.client.results ∧
      (∀ e, (l.turn D early accepted).stage ≠ .ended (.raised e)) ∧
      (l.client.Served D I N → (l.turn D early accepted).client.Served D I N)) := by
  obtain ⟨client, stage⟩ := l
  rw [Loop.turn]
  cases stage with
  | requesting | ended _ => exact .inl rfl
  | looping =>
    obtain ⟨hphase, hresults, -⟩ := connect_idle (h.idle (by simp)) (h.quiet rfl) accepted
    refine .inr ⟨rfl, ?_⟩
    dsimp only at hphase hresults ⊢
    cases early with
    | false => exact ⟨rfl, by simp, id⟩
    | true =>
      cases hconnection : (client.connect accepted).connection with
      | none =>
        rw [if_pos rfl, Option.isSome_none, if_neg Bool.false_ne_true]
        exact ⟨(close_idle hphase).2.1.trans hresults, by simp,
          fun hserved => close_served (connect_served hserved accepted)⟩
      | some c =>
        have hserves (hserved : client.Served D I N) :=
          request_served (connect_served hserved accepted) fun _ => statusRequest_sendable
        rw [if_pos rfl, Option.isSome_some, if_pos rfl]
        rw [request_idle hphase hconnection, refuses_statusRequest hp] at hserves ⊢
        exact ⟨hresults, by simp, hserves⟩

/-- While the loop runs, none of its calls has returned. -/
theorem Loop.Prompt.not_returned (h : l.Prompt D I N n) (hstage : l.stage ≠ .ended .ready)
    {r : Result F} (hr : r ∈ l.client.results.drop n) (payload : Message F) (line : List Heard) :
    r.outcome ≠ .returned payload line :=
  fun houtcome => hstage (h.first ⟨r, hr, payload, line, houtcome⟩)

theorem turn_prompt (hp : Peers D I N) (h : l.Prompt D I N n) (early accepted : Bool) :
    (l.turn D early accepted).Prompt D I N n := by
  have hsound := turn_sound h.sound early accepted
  obtain heq | ⟨hstage, hresults, hcaught, hserved⟩ :=
    turn_cases hp h.sound early accepted
  · rw [heq]
    exact h
  · refine ⟨hsound, hserved h.served, ?_, hcaught⟩
    rintro ⟨r, hr, payload, line, houtcome⟩
    rw [hresults] at hr
    exact absurd houtcome (h.not_returned (by simp [hstage]) hr payload line)

theorem outside_prompt (hp : Peers D I N) (h : l.Prompt D I N n) {event : Event F}
    (hanswers : Answers I N l.client event) : (l.outside D event).Prompt D I N n := by
  cases hout : event.isOutside with
  | false =>
    rw [Loop.outside, if_neg (by simp [hout])]
    exact h
  | true =>
    have hserved : (Testlab.step D l.client event).Served D I N := by
      refine step_served hp h.served event ?_ hanswers
      rintro message rfl
      cases hout
    have hsound := outside_sound h.sound event
    obtain ⟨heq, hresults, -⟩ | ⟨hstage, heq, hphase, call, outcome, hcall, hresults, -⟩ :=
      outside_cases h.sound hout
    · have hfirst := h.first
      rw [← hresults] at hfirst
      rw [heq] at hsound ⊢
      exact ⟨hsound, hserved, hfirst, h.caught⟩
    · have hlast : (Testlab.step D l.client event).results.getLast? = some ⟨call, outcome⟩ := by
        rw [hresults, List.getLast?_concat]
      have hmem := List.mem_of_getLast? hlast
      rw [heq, afterRequest, hlast] at hsound
      rw [heq, afterRequest, hlast]
      cases outcome with
      | returned payload line =>
        have hready : saysReady payload = true := by
          have hexact := (h.sound.outside_tracked hout).results _ hmem payload line rfl
          have hsendable : Sendable D I call.message := hcall.2 ▸ statusRequest_sendable
          have hpayload := payload_of_paired hp hserved.answered hsendable (hexact.1 hcall.1)
          rw [hcall.2] at hpayload
          exact saysReady_response hpayload
        dsimp only at hsound ⊢
        rw [if_pos hready] at hsound ⊢
        exact ⟨hsound, hserved, fun _ => rfl, by simp⟩
      | communicationError =>
        refine ⟨hsound, close_served hserved, ?_, by simp⟩
        rintro ⟨r, hr, payload, line, houtcome⟩
        dsimp only at hr
        rw [(close_idle hphase).2.1, hresults, List.drop_append_of_le_length h.sound.count] at hr
        obtain hr | hr := List.mem_append.mp hr
        · exact absurd houtcome (h.not_returned (by simp [hstage]) hr payload line)
        · rw [List.mem_singleton.mp hr] at houtcome
          cases houtcome
      | escaped e =>
        have hraised := (hserved.results _ hmem).caught e rfl
        rw [hcall.2, refuses_statusRequest hp] at hraised
        cases hraised

theorem step_prompt (hp : Peers D I N) (h : l.Prompt D I N n) {move : Move F}
    (hanswered : Answered I N l move) : (step D l move).Prompt D I N n := by
  cases move with
  | turn early accepted => exact turn_prompt hp h early accepted
  | outside event => exact outside_prompt hp h hanswered

/-- On a DUT without faults, after calls that are over and have left nothing on the connection, all of
messages that the protocol has a line for or the encoder refuses: `wait_until_ready` raises nothing
but its `TimeoutError`, and it returns with the first of its requests that is answered in time. -/
theorem first_reply_ready (hp : Peers D I N) {earlier : List (Event F)}
    (hearlier : ∀ message, Event.request message ∈ earlier → D.refuses (.dict message) = none →
      Sendable D I message)
    (hanswers : Runs.Along (Testlab.step D) (Answers I N) {} earlier)
    (hphase : (Runs.run (Testlab.step D) {} earlier).phase = .idle)
    (hquiet : ∀ c ∈ (Runs.run (Testlab.step D) {} earlier).connection, c.quiet = true)
    {moves : List (Move F)}
    (hanswered : Runs.Along (step D) (Answered I N)
      ⟨Runs.run (Testlab.step D) {} earlier, .looping⟩ moves) :
    let s := Runs.run (Testlab.step D) {} earlier
    let l := Runs.run (step D) ⟨s, .looping⟩ moves
    (∀ e, l.stage ≠ .ended (.raised e)) ∧
    (l.stage = .ended .ready ↔ ∃ r ∈ l.client.results.drop s.results.length, ∃ payload line,
      r.outcome = .returned payload line) := by
  have htracked : (Runs.run (Testlab.step D) {} earlier).Tracked D :=
    run_tracked fun message _ => newline_not_mem_encoded hp message
  have hsound := looping_sound htracked hphase hquiet (Nat.le_refl _)
    (by simp : ∀ r ∈ (Runs.run (Testlab.step D) {} earlier).results.drop
      (Runs.run (Testlab.step D) {} earlier).results.length, _)
  have hstart : Loop.Prompt D I N _ ⟨Runs.run (Testlab.step D) {} earlier, .looping⟩ :=
    ⟨hsound, run_served hp hearlier hanswers, by simp, by simp⟩
  have h := hanswered.invariant hstart fun _ move hmove h => step_prompt hp h hmove
  refine ⟨h.caught, fun hready => ?_, h.first⟩
  obtain ⟨r, hr, payload, line, -, houtcome, -⟩ := h.sound.ready hready
  exact ⟨r, hr, payload, line, houtcome⟩

end Genuine

end Loop

section Sample

open Cpp (Single)

/-- A call that timed out, and whose connection was closed. -/
def earlierCalls : List (Event Single) :=
  [.connect true, .request statusMessage, .transmit 40, .sent, .timesOut, .close]

/-- The first connection is refused, on the second one the reply is late, on the third one it is
read. -/
def pollingRun : List (Move Single) :=
  [.turn true false, .turn true true, .outside (.transmit 60), .outside .sent, .outside .timesOut,
    .outside (.answer []), .turn true true, .outside (.transmit 20), .outside (.transmit 40),
    .outside .sent,
    .outside (.answer (ascii "\x7b\"sequence\": 0, \"state\": \"READY\", \"status\": \"ok\"\x7d")),
    .outside .readline, .turn false true]

theorem earlierCalls_sendable (message : Message Single)
    (h : Event.request message ∈ earlierCalls) (_ : singleCodec.refuses (.dict message) = none) :
    Sendable singleCodec singleInterpreter message := by
  simp only [earlierCalls, List.mem_cons, reduceCtorEq, Event.request.injEq, List.not_mem_nil,
    or_false, false_or] at h
  obtain rfl := h
  exact statusMessage_sendable

theorem earlierCalls_quiet :
    ∀ c ∈ (Runs.run (Testlab.step singleCodec) {} earlierCalls).connection,
      c.quiet = true := by
  decide +kernel

theorem ready_answered_sample :
    let s := Runs.run (Testlab.step singleCodec) {} earlierCalls
    let l := Runs.run (step singleCodec) ⟨s, .looping⟩ pollingRun
    (∀ r ∈ l.client.results.drop s.results.length, r.call.message = statusRequest ∧
      ∀ payload line, r.outcome = .returned payload line →
        Paired singleCodec l.client.answered r.call payload line) ∧
    (l.stage = .ended .ready → ∃ r ∈ l.client.results.drop s.results.length, ∃ payload line,
      l.client.results.getLast? = some r ∧ r.outcome = .returned payload line ∧
        saysReady payload = true) :=
  ready_answered (fun message _ => newline_not_mem_encoded single_peers message) rfl
    earlierCalls_quiet pollingRun

theorem first_reply_ready_sample :
    let s := Runs.run (Testlab.step singleCodec) {} earlierCalls
    let l := Runs.run (step singleCodec) ⟨s, .looping⟩ pollingRun
    (∀ e, l.stage ≠ .ended (.raised e)) ∧
    (l.stage = .ended .ready ↔ ∃ r ∈ l.client.results.drop s.results.length, ∃ payload line,
      r.outcome = .returned payload line) :=
  first_reply_ready (N := Single.native) single_peers earlierCalls_sendable (by decide +kernel) rfl
    earlierCalls_quiet (by decide +kernel)

end Sample

end Polling

end Testlab
