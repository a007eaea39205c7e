import FlightTestLab.Checks.Probe
import FlightTestLab.Cpp.RoundTrip
import FlightTestLab.Testlab.Exchange

/-!
# The probe against the Python DUT

The steps of a probe on one connection to the Python DUT with whatever faults. A send gets out whole
or is cut short, and the handler takes each line when it has come to its end. What a step reads is
what the handler has written and the probe has not read yet, or the end of the stream, or a timeout.

## Main definitions

- `Checks.Probe.Link`: the connection
- `Checks.Probe.Conducted`: a conversation on it
- `Checks.Probe.framed`: the line that the DUT has at each step
- `Checks.Probe.Agrees`: a step asks for what the protocol and the configured faults come to

## Main results

- `Checks.Probe.clean_iff_agrees`: the steps have no failure when each agrees
-/

namespace Checks.Probe

open Json (Text Tree Item ascii)
open Python (Value Error Decoder)
open Simulator (Interpreter FaultConfig Session maxLineBytes maxNestingDepth isCrLf)

variable {F : Type}

section Responses

variable {I : Interpreter F}

theorem elementsOf_eq (fl : Python.FloatOps F) (ts : List Tree) :
    Simulator.elementsOf fl ts = ts.map (Simulator.valueOf fl) := by
  induction ts with
  | nil => rfl
  | cons t ts ih => rw [Simulator.elementsOf, ih, List.map_cons]

theorem membersOf_eq (fl : Python.FloatOps F) (ms : List (List Item × Tree)) :
    Simulator.membersOf fl ms = ms.map (Prod.map Json.decodeItems (Simulator.valueOf fl)) := by
  induction ms with
  | nil => rfl
  | cons m ms ih =>
    rw [Simulator.membersOf, ih, List.map_cons]
    rfl

/-- An integer is written with no more digits than it was read from. -/
theorem takes_ofToken {tok : Text} (h : Json.IsIntToken tok)
    (hd : Json.digitCount tok ≤ Simulator.maxIntDigits) :
    I.decoder.Takes (Json.ofToken tok) := by
  have hcount : Json.digitCount (Json.decimal (Json.ofToken tok)) ≤ Simulator.maxIntDigits := by
    -- `-0` is read as 0 and written without its sign.
    by_cases hz : tok = [0x2D, 0x30]
    · rw [hz]
      decide
    · rw [Json.decimal_ofToken h hz]
      exact hd
  show Simulator.parseInt _ = _
  rw [Simulator.parseInt_token (Json.isIntToken_decimal _), if_pos hcount, Json.ofToken_decimal]

theorem loadable_decodeItems {is : List Item} (hp : Json.ProperItems is)
    (hplain : ∀ i ∈ is, i.Plain) : Python.LoadableText (Json.decodeItems is) :=
  ⟨Json.decodeItems_lt hp, Json.unpaired_decodeItems hplain⟩

/-- What is decoded from a text can be written and decoded again. -/
theorem among_valueOf {t : Tree} (hp : t.Proper) (hplain : t.AllItems Item.Plain)
    (hd : Json.DigitsFit Simulator.maxIntDigits t.intTokens) :
    (Simulator.valueOf I.floats t).Among I.decoder.Takes (fun _ => True) Python.LoadableText := by
  induction t using Tree.induct with
  | null => exact .none
  | bool b => exact .bool b
  | nan | inf _ | float _ => exact .float trivial
  | int tok => exact .int (takes_ofToken hp (hd tok (List.mem_singleton.mpr rfl)))
  | str is => exact .str (loadable_decodeItems hp hplain)
  | arr ts ih =>
    rw [Simulator.valueOf, elementsOf_eq]
    refine .list (List.forall_mem_map.mpr fun t ht => ?_)
    exact ih t ht (Tree.properElements_iff.mp hp t ht) (Tree.allItemsElements_iff.mp hplain t ht)
      (Cpp.digitsFit_element hd t ht)
  | obj ms ih =>
    have hmember : ∀ item ∈ Assoc.ofPairs (Simulator.membersOf I.floats ms),
        ∃ m ∈ ms, Json.decodeItems m.1 = item.1 ∧ Simulator.valueOf I.floats m.2 = item.2 := by
      intro item hitem
      have hmem := Assoc.mem_of_last? (Assoc.mem_ofPairs.mp
        (show (item.1, item.2) ∈ _ from hitem))
      rw [membersOf_eq] at hmem
      obtain ⟨m, hm, heq⟩ := List.mem_map.mp hmem
      exact ⟨m, hm, Prod.mk.inj heq⟩
    rw [Simulator.valueOf]
    refine .dict (Assoc.nodup_ofPairs _) (fun item hitem => ?_) fun item hitem => ?_
    · obtain ⟨m, hm, hkey, -⟩ := hmember item hitem
      rw [← hkey]
      exact loadable_decodeItems (Tree.properMembers_iff.mp hp m hm).1
        (Tree.allItemsMembers_iff.mp hplain m hm).1
    · obtain ⟨m, hm, -, hvalue⟩ := hmember item hitem
      rw [← hvalue]
      exact ih m hm (Tree.properMembers_iff.mp hp m hm).2
        (Tree.allItemsMembers_iff.mp hplain m hm).2 (Cpp.digitsFit_member hd m hm)

theorem among_response {message : Value F}
    (h : message.Among I.decoder.Takes (fun _ => True) Python.LoadableText) :
    (Simulator.buildResponse message).Among I.decoder.Takes (fun _ => True)
      Python.LoadableText := by
  cases h with
  | dict _ _ hvalues => exact Testlab.among_buildResponse hvalues
  | none | bool _ | int _ | float _ | str _ | list _ =>
    rw [Simulator.buildResponse]
    · refine Testlab.among_object [ascii "status", ascii "error_code", ascii "message"] rfl
        (by decide) ?_
      simp only [List.forall_mem_cons]
      exact ⟨Testlab.among_str (by decide), Testlab.among_str (by decide),
        Testlab.among_str (by decide), List.forall_mem_nil _⟩
    · simp

theorem depth_response (message : Value F) :
    (Simulator.buildResponse message).depth ≤ message.depth + 1 := by
  have hpos := message.depth_pos
  cases message with
  | dict items => exact Testlab.depth_buildResponse items
  | none | bool _ | int _ | float _ | str _ | list _ =>
    exact (show _ ≤ 2 from Nat.le_refl 2).trans (Nat.add_le_add_right hpos 1)

/-- Whatever line it is sent, the DUT responds with a value that can be written and decoded. -/
theorem respond_among {text : Text} (htext : ∀ c ∈ text, Utf8.IsScalar c) :
    (Simulator.respond I text).Among I.decoder.Takes (fun _ => True) Python.LoadableText ∧
      (Simulator.respond I text).depth ≤ maxNestingDepth + 1 := by
  have hlt (c : Nat) (hc : c ∈ text) : c < 0x110000 := by
    have := htext c hc
    unfold Utf8.IsScalar at this
    omega
  cases hdecode : Simulator.decodeRequest I text with
  | mk message decoded =>
    rw [Simulator.respond, hdecode]
    dsimp only
    cases decoded with
    | false =>
      rw [if_neg Bool.false_ne_true]
      exact ⟨Testlab.among_invalidJson, (show 2 ≤ maxNestingDepth + 1 by decide)⟩
    | true =>
      rw [if_pos rfl]
      obtain ⟨t, hdoc, -, hdigits, hdepth, rfl⟩ :=
        (Simulator.decodeRequest_eq_iff I hlt message).mp hdecode
      have hplain := hdoc.allItems Cpp.plain_rule htext
      have hnest := depth_response (Simulator.valueOf I.floats t)
      rw [Simulator.depth_valueOf] at hnest
      exact ⟨among_response (among_valueOf (hdoc.proper hlt) hplain hdigits), by omega⟩

/-- What the probe uses of the interpreter fits what the DUT uses of its own. -/
structure Hears (D : Decoder F) (I : Interpreter F) : Prop where
  floats : D.floats = I.floats
  readsBack : ∀ x, I.floats.ReadsBack x
  objectPairs : D.objectPairs = Python.dictOfPairs
  takes : ∀ i, I.decoder.Takes i → D.Takes i
  overflows : ∀ t, D.overflows t = true → maxNestingDepth + 1 < t.depth

/-- The probe decodes what the DUT responds. -/
theorem loads_respond {D : Decoder F} (hears : Hears D I) {text : Text}
    (htext : ∀ c ∈ text, Utf8.IsScalar c) :
    Python.loads D (Python.dumps I.floats (Simulator.respond I text) ++ [newline]) =
      .ok (Simulator.respond I text).sorted := by
  obtain ⟨hamong, hdepth⟩ := respond_among (I := I) htext
  rw [← hears.floats]
  refine Python.loads_dumps hears.objectPairs
    (hamong.mono hears.takes (fun x _ => hears.floats ▸ hears.readsBack x) fun _ h => h)
    (fun t ht => ?_) (.cons (.inr (.inr (.inl rfl))) .nil)
  rw [Bool.eq_false_iff]
  intro hover
  have := hears.overflows t hover
  omega

end Responses

section Link

/-- The connection: what the handler has kept, whether it goes on reading, what it waits for the end
of, the lines it has written that are not read yet, and whether a read of the probe has timed out. -/
structure Link where
  session : Session
  listening : Bool := true
  pending : List Nat := []
  unread : List (List Nat) := []
  timedOut : Bool := false

variable (I : Interpreter F) (faults : FaultConfig)

/-- The handler takes a line. -/
def Link.take (link : Link) (line : List Nat) : Link :=
  if link.listening then
    let handled := Simulator.handleLine I faults link.session line
    { link with
      session := handled.2
      listening := handled.1 == .cont
      unread := link.unread ++ handled.2.written.drop link.session.written.length }
  else link

/-- The handler takes what it has, one line after the other. `readline` waits for a newline, or for
as many bytes as it may read. -/
def Link.drain (link : Link) (buffer : List Nat) : Link :=
  if _h : newline ∈ buffer ∨ maxLineBytes + 2 ≤ buffer.length then
    let read := Simulator.readline (maxLineBytes + 2) buffer
    (link.take I faults read.1).drain read.2
  else { link with pending := buffer }
termination_by buffer.length
decreasing_by
  refine Simulator.length_readline_lt (fun hnil => ?_) maxLineBytes
  subst hnil
  simp at _h

/-- The handler gets more of what it is sent. -/
def Link.receive (link : Link) (stream : List Nat) : Link :=
  link.drain I faults (link.pending ++ stream)

/-- What `readline` may come to, and the connection after it. -/
inductive Link.Reads (link : Link) : Read → Link → Prop
  | line {frame : List Nat} {unread : List (List Nat)} {text : Text}
      (htimedOut : link.timedOut = false) (hunread : link.unread = frame :: unread)
      (hdecode : Utf8.decodeStrict frame = some text) :
      Reads link (.line text) { link with unread }
  | undecodable {frame : List Nat} {unread : List (List Nat)} (htimedOut : link.timedOut = false)
      (hunread : link.unread = frame :: unread) (hdecode : Utf8.decodeStrict frame = none) :
      Reads link .undecodable link
  | closed (htimedOut : link.timedOut = false) (hunread : link.unread = [])
      (hclosed : link.listening = false) : Reads link (.line []) link
  | timesOut (htimedOut : link.timedOut = false) :
      Reads link .timesOut { link with timedOut := true }
  | reset (hclosed : link.listening = false) : Reads link .fails { link with unread := [] }
  | stuck (htimedOut : link.timedOut = true) : Reads link .fails link

/-- A step with what becomes of it, and what gets out of what it sends. -/
structure Turn (F : Type) where
  step : Step F
  attempt : Attempt
  transmitted : List Nat

variable (R : Runtime F)

/-- What a step sends, in bytes. -/
def bytes (step : Step F) : List Nat := Utf8.encodeAll (wire R step)

/-- What may become of a step, and the connection after it. -/
inductive Link.Becomes (link : Link) (turn : Turn F) : Link → Prop
  /-- `sendall` raises, a timeout or another `OSError`, with something left to send. -/
  | cut {reason : Text} (hsend : turn.attempt.sendError = some reason)
      (hpart : turn.transmitted <+: bytes R turn.step)
      (hrest : turn.transmitted ≠ bytes R turn.step) :
      Becomes link turn (link.receive I faults turn.transmitted)
  | read {next : Link} (hsend : wire R turn.step = [] ∨ turn.attempt.sendError = none)
      (hwhole : turn.transmitted = bytes R turn.step)
      (h : (link.receive I faults turn.transmitted).Reads turn.attempt.read next) :
      Becomes link turn next

/-- The steps with what becomes of them are a conversation on the connection. -/
inductive Conducted : Link → List (Turn F) → Prop
  | nil (link : Link) : Conducted link []
  | cons {link next : Link} {turn : Turn F} {turns : List (Turn F)}
      (h : link.Becomes I faults R turn next) (hrest : Conducted next turns) :
      Conducted link (turn :: turns)

/-- The steps, each with what the DUT has of a line when the step has been sent: what is left of the
sends that were cut short before, and its own. -/
def framed : List Nat → List (Turn F) → List (Turn F × List Nat)
  | _, [] => []
  | left, turn :: turns =>
    let line := left ++ turn.transmitted
    let left := if reads R turn.step turn.attempt && !turn.transmitted.isEmpty then [] else line
    (turn, line) :: framed left turns

/-- A step that sends nothing, or one line. -/
def SendsLine (step : Step F) : Prop :=
  wire R step = [] ∨ ∃ line, wire R step = line ++ [newline] ∧ newline ∉ line

/-- A line as the DUT decodes it. -/
def request (line : List Nat) : Text := (Utf8.decodeReplace line).rdropWhile isCrLf

/-- The DUT is configured to hang up. -/
def HangsUp : Prop := faults.dropConnection = true ∨ faults.exitAfterRequests.isSome = true

/-- A step asks for what it reads, given the response of the protocol to a line and the configured
faults. -/
inductive AgreesRead (step : Step F) (elapsedMs : Nat) (sent : List Nat) : Read → Prop
  | timesOut (h : flag R (ascii "expect_timeout") step = true) :
      AgreesRead step elapsedMs sent .timesOut
  | fails (h : flag R (ascii "expect_timeout") step = true) : AgreesRead step elapsedMs sent .fails
  | closed (hfault : HangsUp faults) (h : flag R (ascii "expect_closed") step = true) :
      AgreesRead step elapsedMs sent (.line [])
  | malformed {line : Text} (hline : line ≠ []) (hsends : wire R step ≠ [])
      (hfault : faults.malformedResponse = true) (hsilent : silent R step = false)
      (h : flag R (ascii "expect_invalid_json") step = true) :
      AgreesRead step elapsedMs sent (.line line)
  | answered {line : Text} (hline : line ≠ []) (hsends : wire R step ≠ [])
      (hfault : faults.malformedResponse = false) (hsilent : silent R step = false)
      (h : flag R (ascii "expect_invalid_json") step = false)
      (hfits : Fits R step elapsedMs (Simulator.respond I (request sent))) :
      AgreesRead step elapsedMs sent (.line line)

structure Agrees (step : Step F) (attempt : Attempt) (sent : List Nat) : Prop where
  writes : Writes R step
  sendFails : reads R step attempt = false → flag R (ascii "expect_send_error") step = true
  read : reads R step attempt = true →
    AgreesRead I faults R step attempt.elapsedMs sent attempt.read

/-- The line that the DUT writes for one that it has. -/
def answerTo (line : List Nat) : Text :=
  if faults.malformedResponse then ascii "this-is-not-json\n"
  else Python.dumps I.floats (Simulator.respond I (request line)) ++ [newline]

variable {I faults R} {step : Step F} {link next : Link} {turn : Turn F} {left line : List Nat}

theorem newline_not_mem_encodeAll {text : Text} (h : newline ∉ text) :
    newline ∉ Utf8.encodeAll text := by
  intro hmem
  obtain ⟨c, hc, hbyte⟩ := List.mem_flatMap.mp hmem
  by_cases hascii : c < 0x80
  · rw [Utf8.encode_ascii hascii, List.mem_singleton] at hbyte
    exact h (hbyte ▸ hc)
  · have := Utf8.le_of_mem_encode (Nat.le_of_not_lt hascii) hbyte
    unfold newline at this
    omega

/-- What a step sends has a newline at its end, and no other one. -/
theorem bytes_line (h : SendsLine R step) (hsends : wire R step ≠ []) :
    ∃ body, bytes R step = body ++ [newline] ∧ newline ∉ body := by
  obtain ⟨line, hwire, hnewline⟩ := h.resolve_left hsends
  refine ⟨Utf8.encodeAll line, ?_, newline_not_mem_encodeAll hnewline⟩
  rw [bytes, hwire, Utf8.encodeAll_append, @Utf8.encodeAll_ascii [newline] (by decide)]

/-- The part of a line that gets out before its send fails has no newline. -/
theorem newline_not_mem_part (h : SendsLine R step) {part : List Nat} (hpart : part <+: bytes R step)
    (hrest : part ≠ bytes R step) : newline ∉ part := by
  by_cases hsends : wire R step = []
  · have hnil : bytes R step = [] := by rw [bytes, hsends]; rfl
    rw [hnil, List.prefix_nil] at hpart
    exact absurd (hpart.trans hnil.symm) hrest
  · obtain ⟨body, hbytes, hnewline⟩ := bytes_line h hsends
    rw [hbytes] at hpart hrest
    exact fun hmem => hnewline (((List.prefix_concat_iff.mp hpart).resolve_left hrest).subset hmem)

/-- A part of a line is waited for the end of. -/
theorem receive_part {part : List Nat} (hpart : newline ∉ link.pending ++ part)
    (hlength : (link.pending ++ part).length ≤ maxLineBytes + 1) :
    link.receive I faults part = { link with pending := link.pending ++ part } := by
  rw [Link.receive, Link.drain, dif_neg]
  rintro (hmem | hlong)
  · exact hpart hmem
  · omega

/-- A line is taken in one piece, once it has come to its end. -/
theorem receive_line {body : List Nat} (hbody : newline ∉ link.pending ++ body)
    (hlength : (link.pending ++ body).length ≤ maxLineBytes) :
    link.receive I faults (body ++ [newline]) =
      { link.take I faults (link.pending ++ (body ++ [newline])) with pending := [] } := by
  rw [Link.receive, ← List.append_assoc]
  generalize link.pending ++ body = line at hbody hlength
  have hindex : (line ++ [newline]).findIdx (· == 0x0A) = line.length := by
    rw [List.findIdx_append, List.findIdx_eq_length.mpr]
    · simp [List.findIdx_cons, newline]
    · intro c hc
      simpa using fun he : c = 0x0A => hbody (he ▸ hc : 0x0A ∈ line)
  have hread : Simulator.readline (maxLineBytes + 2) (line ++ [newline]) =
      (line ++ [newline], []) := by
    have hmin : min (maxLineBytes + 2) (line.length + 1) = (line ++ [newline]).length := by
      rw [List.length_append, List.length_singleton]
      omega
    rw [Simulator.readline, hindex, hmin, List.take_length, List.drop_length]
  rw [Link.drain, dif_pos (.inl (List.mem_append_right _ (List.mem_singleton.mpr rfl))), hread,
    Link.drain, dif_neg (by simp)]

/-- What the handler does with a line. -/
theorem handleLine_line {body : List Nat} (hlength : body.length ≤ maxLineBytes)
    (session : Session) :
    let handled := Simulator.handleLine I faults session (body ++ [newline])
    (handled.1 = .cont ∧ handled.2.written = session.written ++
      [if faults.malformedResponse then ascii "this-is-not-json\n"
        else Simulator.payload I (Simulator.respond I (request (body ++ [newline])))]) ∨
    (handled.1 ≠ .cont ∧ handled.2.written = session.written ∧ HangsUp faults) := by
  have hstrip : ((body ++ [newline]).rdropWhile isCrLf).length ≤ maxLineBytes := by
    rw [Framing.rdropWhile_append_of_forall (fun c hc => by rw [List.mem_singleton.mp hc]; rfl)]
    exact (List.rdropWhile_prefix _ _).length_le.trans hlength
  rw [Simulator.handleLine, if_neg (Nat.not_lt.mpr hstrip)]
  dsimp only
  generalize session.requestCount + _ = count
  -- The process may end here, before the fault that closes the connection is looked at.
  by_cases hexit : faults.exitAfterRequests.any (· ≤ count) = true
  · rw [if_pos hexit]
    refine .inr ⟨by simp, rfl, .inr ?_⟩
    cases hexits : faults.exitAfterRequests with
    | none =>
      rw [hexits] at hexit
      cases hexit
    | some n => rfl
  rw [if_neg hexit]
  by_cases hdrop : faults.dropConnection = true
  · rw [if_pos hdrop]
    exact .inr ⟨by simp, rfl, .inl hdrop⟩
  rw [if_neg hdrop]
  cases faults.malformedResponse with
  | true => exact .inl ⟨rfl, rfl⟩
  | false => exact .inl ⟨rfl, rfl⟩

/-- The answer is ASCII. -/
theorem answerTo_ascii (hears : Hears R.decoder I) : ∀ c ∈ answerTo I faults line, c < 0x80 := by
  rw [answerTo]
  split_ifs
  · decide
  · intro c hc
    obtain hc | hc := List.mem_append.mp hc
    · exact ((Testlab.dumps_line hears.readsBack _).2 c hc).1
    · rw [List.mem_singleton.mp hc]
      decide

theorem answerTo_ne_nil : answerTo I faults line ≠ [] := by
  rw [answerTo]
  split_ifs
  · decide
  · exact List.append_ne_nil_of_right_ne_nil _ (List.cons_ne_nil _ _)

theorem loads_malformed {D : Decoder F} :
    Python.loads D (ascii "this-is-not-json\n") = .error .valueError := by
  have hread : Json.readDocument (ascii "this-is-not-json\n") = none := by decide +kernel
  rw [Python.loads, if_neg (by decide), hread]

theorem request_scalar (line : List Nat) : ∀ c ∈ request line, Utf8.IsScalar c := fun _ hc =>
  Utf8.isScalar_of_mem_decodeReplace ((List.rdropWhile_prefix _ _).subset hc)

/-- What the probe decodes from the answer. -/
theorem loads_answerTo (hears : Hears R.decoder I) :
    Python.loads R.decoder (answerTo I faults line) =
      if faults.malformedResponse then .error .valueError
      else .ok (Simulator.respond I (request line)).sorted := by
  rw [answerTo]
  split_ifs
  · exact loads_malformed
  · exact loads_respond hears (request_scalar line)

/-- Nothing is left to read, unless a read has timed out; only a DUT that is configured to hang up
has hung up; and the handler waits for the end of what is left of sends that were cut short. -/
structure Link.Sound (faults : FaultConfig) (left : List Nat) (link : Link) : Prop where
  quiet : link.timedOut = false → link.unread = []
  hangsUp : link.listening = false → HangsUp faults
  pending : link.pending = left
  unbroken : newline ∉ left

/-- What a step may read. -/
inductive Heard (I : Interpreter F) (faults : FaultConfig) (R : Runtime F) (step : Step F)
    (sent : List Nat) : Read → Prop
  | timesOut : Heard I faults R step sent .timesOut
  | fails : Heard I faults R step sent .fails
  | closed (h : HangsUp faults) : Heard I faults R step sent (.line [])
  | answered (hsends : wire R step ≠ []) :
      Heard I faults R step sent (.line (answerTo I faults sent))

/-- The connection once the handler has what a step sends, and what may be read on it. -/
structure Link.Received (I : Interpreter F) (faults : FaultConfig) (R : Runtime F) (turn : Turn F)
    (left line : List Nat) (link : Link) : Prop where
  hangsUp : link.listening = false → HangsUp faults
  pending : link.pending = left
  unread : link.timedOut = false → link.unread = [] ∨
    wire R turn.step ≠ [] ∧ link.unread = [answerTo I faults line]

theorem receive_turn (hears : Hears R.decoder I) (hline : SendsLine R turn.step)
    (h : link.Sound faults left) (hwhole : turn.transmitted = bytes R turn.step)
    (hlength : (left ++ turn.transmitted).length ≤ maxLineBytes + 1) :
    (link.receive I faults turn.transmitted).Received I faults R turn
      (if turn.transmitted.isEmpty then left else []) (left ++ turn.transmitted) := by
  obtain ⟨hquiet, hhangsUp, rfl, hleft⟩ := h
  by_cases hsends : wire R turn.step = []
  · have hnil : turn.transmitted = [] := by rw [hwhole, bytes, hsends]; rfl
    rw [hnil] at hlength ⊢
    have hpart : newline ∉ link.pending ++ [] := by rw [List.append_nil]; exact hleft
    rw [receive_part hpart hlength, List.append_nil]
    exact ⟨hhangsUp, rfl, fun hfresh => .inl (hquiet hfresh)⟩
  obtain ⟨body, hbytes, hnewline⟩ := bytes_line hline hsends
  rw [hwhole, hbytes] at hlength ⊢
  have hbody : newline ∉ link.pending ++ body := by
    rw [List.mem_append]
    rintro (hmem | hmem)
    · exact hleft hmem
    · exact hnewline hmem
  have hfits : (link.pending ++ body).length ≤ maxLineBytes := by
    rw [← List.append_assoc, List.length_append, List.length_singleton] at hlength
    omega
  have hframe : (if faults.malformedResponse then ascii "this-is-not-json\n"
      else Simulator.payload I (Simulator.respond I (request (link.pending ++ (body ++ [newline]))))) =
        answerTo I faults (link.pending ++ (body ++ [newline])) := by
    rw [answerTo, Testlab.payload_eq hears.readsBack]
    rfl
  have hempty : (body ++ [newline]).isEmpty = false :=
    List.isEmpty_eq_false_iff.mpr (List.append_ne_nil_of_right_ne_nil _ (List.cons_ne_nil _ _))
  rw [receive_line hbody hfits, hempty, if_neg Bool.false_ne_true, Link.take]
  cases hlistening : link.listening with
  | false =>
    rw [if_neg Bool.false_ne_true]
    exact ⟨fun _ => hhangsUp hlistening, rfl, fun hfresh => .inl (hquiet hfresh)⟩
  | true =>
    rw [if_pos rfl]
    dsimp only
    have hhandled := @handleLine_line _ I faults _ hfits link.session
    rw [List.append_assoc] at hhandled
    obtain ⟨hcont, hwritten⟩ | ⟨hstop, hwritten, hfault⟩ := hhandled
    · refine ⟨fun hno => ?_, rfl, fun hfresh => .inr ⟨hsends, ?_⟩⟩
      · dsimp only at hno
        rw [hcont] at hno
        cases hno
      · dsimp only
        rw [hwritten, List.drop_left, hquiet hfresh, List.nil_append, hframe]
    · refine ⟨fun _ => hfault, rfl, fun hfresh => .inl ?_⟩
      dsimp only
      rw [hwritten, List.drop_length, List.append_nil, hquiet hfresh]

/-- What has got out of a send that was cut short is waited for the end of. -/
theorem becomes_cut {reason : Text} (hline : SendsLine R turn.step) (h : link.Sound faults left)
    (hlength : (left ++ turn.transmitted).length ≤ maxLineBytes + 1)
    (hsend : turn.attempt.sendError = some reason) (hpart : turn.transmitted <+: bytes R turn.step)
    (hrest : turn.transmitted ≠ bytes R turn.step) :
    reads R turn.step turn.attempt = false ∧
      (link.receive I faults turn.transmitted).Sound faults (left ++ turn.transmitted) := by
  have hsends : wire R turn.step ≠ [] := by
    intro hnil
    have hbytes : bytes R turn.step = [] := by rw [bytes, hnil]; rfl
    rw [hbytes] at hpart hrest
    exact hrest (List.prefix_nil.mp hpart)
  obtain ⟨hquiet, hhangsUp, rfl, hleft⟩ := h
  have hunbroken : newline ∉ link.pending ++ turn.transmitted := by
    rw [List.mem_append]
    rintro (hmem | hmem)
    · exact hleft hmem
    · exact newline_not_mem_part hline hpart hrest hmem
  constructor
  · rw [reads, hsend, List.isEmpty_eq_false_iff.mpr hsends]
    rfl
  · rw [receive_part hunbroken hlength]
    exact ⟨hquiet, hhangsUp, rfl, hunbroken⟩

/-- What a step reads from a connection on which nothing was left over is the answer to its line. -/
theorem reads_heard (hears : Hears R.decoder I) {read : Read}
    (hreceived : link.Received I faults R turn left line) (hunbroken : newline ∉ left)
    (h : link.Reads read next) :
    next.Sound faults left ∧ Heard I faults R turn.step line read := by
  obtain ⟨hhangsUp, hpending, hunread⟩ := hreceived
  cases h with
  | line hfresh hframe hdecode =>
    obtain hnil | ⟨hsends, hanswer⟩ := hunread hfresh
    · rw [hnil] at hframe
      cases hframe
    · obtain ⟨rfl, rfl⟩ := List.cons.inj (hframe.symm.trans hanswer)
      rw [Utf8.decodeStrict_ascii (answerTo_ascii hears)] at hdecode
      cases hdecode
      exact ⟨⟨fun _ => rfl, hhangsUp, hpending, hunbroken⟩, .answered hsends⟩
  | undecodable hfresh hframe hdecode =>
    obtain hnil | ⟨hsends, hanswer⟩ := hunread hfresh
    · rw [hnil] at hframe
      cases hframe
    · obtain ⟨rfl, -⟩ := List.cons.inj (hframe.symm.trans hanswer)
      rw [Utf8.decodeStrict_ascii (answerTo_ascii hears)] at hdecode
      cases hdecode
  | closed _ hnothing hclosed =>
    exact ⟨⟨fun _ => hnothing, hhangsUp, hpending, hunbroken⟩, .closed (hhangsUp hclosed)⟩
  | timesOut _ =>
    exact ⟨⟨fun hno => Bool.noConfusion hno, hhangsUp, hpending, hunbroken⟩, .timesOut⟩
  | reset _ => exact ⟨⟨fun _ => rfl, hhangsUp, hpending, hunbroken⟩, .fails⟩
  | stuck hstuck =>
    refine ⟨⟨fun hno => ?_, hhangsUp, hpending, hunbroken⟩, .fails⟩
    rw [hstuck] at hno
    cases hno

theorem becomes_heard (hears : Hears R.decoder I) (hline : SendsLine R turn.step)
    (h : link.Sound faults left) (hlength : (left ++ turn.transmitted).length ≤ maxLineBytes + 1)
    (hbecomes : link.Becomes I faults R turn next) :
    next.Sound faults (if reads R turn.step turn.attempt && !turn.transmitted.isEmpty then []
        else left ++ turn.transmitted) ∧
      (reads R turn.step turn.attempt = true →
        Heard I faults R turn.step (left ++ turn.transmitted) turn.attempt.read) := by
  cases hbecomes with
  | cut hsend hpart hrest =>
    obtain ⟨hreads, hsound⟩ := becomes_cut hline h hlength hsend hpart hrest
    rw [hreads, Bool.false_and, if_neg Bool.false_ne_true]
    exact ⟨hsound, fun hno => Bool.noConfusion hno⟩
  | read hsend hwhole hread =>
    have hreads : reads R turn.step turn.attempt = true := by
      obtain hnil | hnone := hsend
      · rw [reads, hnil]
        rfl
      · rw [reads, hnone, Bool.or_comm]
        rfl
    -- What is left of the sends before is left as it was, or it went out with this line.
    have hleft : (if reads R turn.step turn.attempt && !turn.transmitted.isEmpty then []
        else left ++ turn.transmitted) = if turn.transmitted.isEmpty then left else [] := by
      rw [hreads, Bool.true_and]
      cases hnil : turn.transmitted with
      | nil => exact List.append_nil left
      | cons b rest => rfl
    have hunbroken : newline ∉ if turn.transmitted.isEmpty then left else [] := by
      split_ifs
      · exact h.unbroken
      · exact List.not_mem_nil
    rw [hleft]
    obtain ⟨hnext, hheard⟩ :=
      reads_heard hears (receive_turn hears hline h hwhole hlength) hunbroken hread
    exact ⟨hnext, fun _ => hheard⟩

theorem matches_sorted {expect : List (Text × Value F)} {ints : Int → Prop} {floats : F → Prop}
    {texts : Text → Prop} {payload : Value F} (h : payload.Among ints floats texts) :
    Matches R expect payload.sorted ↔ Matches R expect payload := by
  have hequal {items : List (Text × Value F)} (hn : (items.map Prod.fst).Nodup) (key : Text)
      (w : Value F) :
      equal R (Value.get key ((items.insertionSort Python.keyLe).map (Prod.map id Value.sorted))) w =
        equal R (Value.get key items) w := by
    rw [equal, Python.get_sorted hn, Python.equal_sorted]
    rfl
  constructor
  · rintro ⟨others, hothers, hall⟩
    cases h with
    | @dict items hn _ _ =>
      rw [Python.sorted_dict] at hothers
      cases hothers
      exact ⟨items, rfl, fun entry hentry => (hequal hn _ _).symm.trans (hall entry hentry)⟩
    | none | bool _ | int _ | float _ | str _ | list _ =>
      rw [Value.sorted] at hothers
      cases hothers
  · rintro ⟨items, rfl, hall⟩
    cases h with
    | dict hn _ _ =>
      exact ⟨_, Python.sorted_dict items,
        fun entry hentry => (hequal hn _ _).trans (hall entry hentry)⟩

/-- What a step asks for does not depend on the order of the keys. -/
theorem fits_sorted {elapsedMs : Nat} {ints : Int → Prop} {floats : F → Prop} {texts : Text → Prop}
    {payload : Value F} (h : payload.Among ints floats texts) :
    Fits R step elapsedMs payload.sorted ↔ Fits R step elapsedMs payload := by
  constructor
  · intro hfits
    exact ⟨fun expect hexpect => (matches_sorted h).mp (hfits.wanted expect hexpect),
      hfits.inTime, hfits.notEarly⟩
  · intro hfits
    exact ⟨fun expect hexpect => (matches_sorted h).mpr (hfits.wanted expect hexpect),
      hfits.inTime, hfits.notEarly⟩

/-- The answer of the DUT is what a step asks for when the step agrees with it. -/
theorem meetsRead_iff_of_loads {text : Text} {elapsedMs : Nat} (hne : text ≠ [])
    (hsends : wire R step ≠ [])
    (hloads : Python.loads R.decoder text =
      if faults.malformedResponse then .error .valueError
      else .ok (Simulator.respond I (request line)).sorted) :
    MeetsRead R step elapsedMs (.line text) ↔
      AgreesRead I faults R step elapsedMs line (.line text) := by
  have hsorted := @fits_sorted _ R step elapsedMs _ _ _ _
    (@respond_among _ I _ (request_scalar line)).1
  constructor
  · intro h
    cases h with
    | closed _ => exact absurd rfl hne
    | unparseable _ hsilent herror hflag =>
      cases hfault : faults.malformedResponse with
      | true => exact .malformed hne hsends hfault hsilent hflag
      | false =>
        rw [hfault, if_neg Bool.false_ne_true] at hloads
        rw [hloads] at herror
        exact absurd herror (by simp)
    | answered _ hsilent hok hflag hfits =>
      cases hfault : faults.malformedResponse with
      | true =>
        rw [hfault, if_pos rfl, hok] at hloads
        cases hloads
      | false =>
        rw [hfault, if_neg Bool.false_ne_true, hok] at hloads
        rw [Except.ok.inj hloads, hsorted] at hfits
        exact .answered hne hsends hfault hsilent hflag hfits
  · intro h
    cases h with
    | closed _ _ => exact absurd rfl hne
    | malformed _ _ hfault hsilent hflag =>
      rw [hfault, if_pos rfl] at hloads
      exact .unparseable hne hsilent (.inl hloads) hflag
    | answered _ _ hfault hsilent hflag hfits =>
      rw [hfault, if_neg Bool.false_ne_true] at hloads
      exact .answered hne hsilent hloads hflag (hsorted.mpr hfits)

/-- What a step may read is what it asks for when it agrees. -/
theorem meetsRead_iff_agreesRead (hears : Hears R.decoder I) {elapsedMs : Nat} {read : Read}
    (h : Heard I faults R step line read) :
    MeetsRead R step elapsedMs read ↔ AgreesRead I faults R step elapsedMs line read := by
  cases h with
  | timesOut =>
    constructor
    · intro h
      cases h with
      | timesOut h => exact .timesOut h
    · intro h
      cases h with
      | timesOut h => exact .timesOut h
  | fails =>
    constructor
    · intro h
      cases h with
      | fails h => exact .fails h
    · intro h
      cases h with
      | fails h => exact .fails h
  | closed hfault =>
    constructor
    · intro h
      cases h with
      | closed h => exact .closed hfault h
      | unparseable hline _ _ _ | answered hline _ _ _ _ => exact absurd rfl hline
    · intro h
      cases h with
      | closed _ h => exact .closed h
      | malformed hline _ _ _ _ | answered hline _ _ _ _ _ => exact absurd rfl hline
  | answered hsends => exact meetsRead_iff_of_loads answerTo_ne_nil hsends (loads_answerTo hears)

variable {turns : List (Turn F)}

theorem framed_fst : (framed R left turns).map Prod.fst = turns := by
  induction turns generalizing left with
  | nil => rfl
  | cons turn turns ih => exact congrArg (turn :: ·) ih

/-- In a conversation whose steps send one line each, a step reads the answer to the line that ends
with its own, or nothing. -/
theorem conducted_heard (hears : Hears R.decoder I) (hlines : ∀ turn ∈ turns, SendsLine R turn.step)
    (hlink : link.Sound faults left)
    (hlength : ∀ p ∈ framed R left turns, p.2.length ≤ maxLineBytes + 1)
    (h : Conducted I faults R link turns) :
    ∀ p ∈ framed R left turns, reads R p.1.step p.1.attempt = true →
      Heard I faults R p.1.step p.2 p.1.attempt.read := by
  induction h generalizing left with
  | nil _ => exact List.forall_mem_nil _
  | cons hbecomes _ ih =>
    obtain ⟨hline, hlines⟩ := List.forall_mem_cons.mp hlines
    obtain ⟨hfits, hlength⟩ := List.forall_mem_cons.mp hlength
    obtain ⟨hnext, hheard⟩ := becomes_heard hears hline hlink hfits hbecomes
    exact List.forall_mem_cons.mpr ⟨hheard, ih hlines hnext hlength⟩

/-- Where a send that fails has transmitted nothing, what the DUT has is what the step sends. -/
theorem framed_own (h : Conducted I faults R link turns)
    (hcut : ∀ turn ∈ turns, reads R turn.step turn.attempt = false → turn.transmitted = []) :
    ∀ p ∈ framed R [] turns, reads R p.1.step p.1.attempt = true → p.2 = bytes R p.1.step := by
  induction h with
  | nil _ => exact List.forall_mem_nil _
  | @cons link next turn turns hbecomes _ ih =>
    obtain ⟨hfirst, hcut⟩ := List.forall_mem_cons.mp hcut
    have hleft : (if reads R turn.step turn.attempt && !turn.transmitted.isEmpty then []
        else [] ++ turn.transmitted) = [] := by
      cases hreads : reads R turn.step turn.attempt with
      | false => exact hfirst hreads
      | true =>
        cases turn.transmitted with
        | nil => rfl
        | cons b rest => rfl
    rw [framed, hleft]
    refine List.forall_mem_cons.mpr ⟨fun hreads => ?_, ih hcut⟩
    cases hbecomes with
    | read _ hwhole _ => exact hwhole
    | cut hsend hpart hrest =>
      -- A send fails only where there is something to send, and then the step does not read.
      have hnil : wire R turn.step = [] := by
        rw [reads, hsend] at hreads
        simpa using hreads
      have hbytes : bytes R turn.step = [] := by rw [bytes, hnil]; rfl
      rw [hbytes] at hpart hrest
      exact absurd (List.prefix_nil.mp hpart) hrest

/-- Against the Python DUT with any faults, whatever of its answers comes too late and whichever sends
fail, the steps have no failure exactly when each of them agrees with what it gets: the response of
the protocol to the line that its own send ends, an unparseable one where that fault is configured, a
close where one of the faults that hang up is. That line is its own, and no more, unless a send
before it was cut short. -/
theorem clean_iff_agrees (hears : Hears R.decoder I) {session : Session}
    (hlines : ∀ turn ∈ turns, SendsLine R turn.step)
    (hlength : ∀ p ∈ framed R [] turns, p.2.length ≤ maxLineBytes + 1)
    (h : Conducted I faults R { session } turns) :
    ((∃ transcript, runSteps R 1 (turns.map fun turn => (turn.step, turn.attempt)) =
          .ok ([], transcript)) ↔
        ∀ p ∈ framed R [] turns, Agrees I faults R p.1.step p.1.attempt p.2) ∧
      ((∀ turn ∈ turns, reads R turn.step turn.attempt = false → turn.transmitted = []) →
        ∀ p ∈ framed R [] turns, reads R p.1.step p.1.attempt = true → p.2 = bytes R p.1.step) := by
  refine ⟨?_, framed_own h⟩
  have hfresh : Link.Sound faults [] { session } :=
    ⟨fun _ => rfl, fun hno => Bool.noConfusion hno, rfl, List.not_mem_nil⟩
  have hturns : (framed R [] turns).map Prod.fst = turns := framed_fst
  rw [runSteps_clean_iff, List.forall_mem_map]
  nth_rewrite 1 [← hturns]
  rw [List.forall_mem_map]
  refine forall₂_congr fun p hp => ?_
  have hheard := conducted_heard hears hlines hfresh hlength h p hp
  constructor
  · intro hmeets
    exact ⟨hmeets.writes, hmeets.sendFails, fun hreads =>
      (meetsRead_iff_agreesRead hears (hheard hreads)).mp (hmeets.read hreads)⟩
  · intro hagrees
    exact ⟨hagrees.writes, hagrees.sendFails, fun hreads =>
      (meetsRead_iff_agreesRead hears (hheard hreads)).mpr (hagrees.read hreads)⟩

section Sample

/-- The interpreter of the DUT. -/
def singleRuntime : Runtime Cpp.Single where
  decoder := Testlab.singleInterpreter.decoder
  refuses := Testlab.singleCodec.refuses
  eqFloat x y := x == y
  gtFloat _ _ := false
  ltFloat _ _ := false
  repr _ := []
  search pattern text := pattern <:+: text

theorem single_hears : Hears singleRuntime.decoder Testlab.singleInterpreter where
  floats := rfl
  readsBack := Testlab.single_readsBack
  objectPairs := rfl
  takes _ h := h
  overflows t h := lt_trans (by decide) ((Testlab.single_overflows t).mp h)

def readyStep : Step Cpp.Single :=
  [(ascii "send", .dict Testlab.statusMessage),
    (ascii "expect", .dict [(ascii "state", .str (ascii "READY"))])]

def cutStep : Step Cpp.Single :=
  [(ascii "send_raw", .str (ascii "ping")), (ascii "expect_send_error", .bool true)]

def restStep : Step Cpp.Single :=
  [(ascii "send_raw", .str (ascii "ng")),
    (ascii "expect", .dict [(ascii "error_code", .str (ascii "INVALID_JSON"))])]

def lateStep : Step Cpp.Single :=
  [(ascii "send", .dict Testlab.statusMessage), (ascii "expect_timeout", .bool true)]

def waitStep : Step Cpp.Single := [(ascii "expect_timeout", .bool true)]

def statusLine : Text := ascii "\x7b\"command\": \"status\", \"sequence\": 1.0\x7d"

def readyLine : Text :=
  ascii "\x7b\"sequence\": 1.0, \"state\": \"READY\", \"status\": \"ok\"\x7d\n"

def invalidLine : Text :=
  ascii "\x7b\"error_code\": \"INVALID_JSON\", \"status\": \"error\"\x7d\n"

/-- A request that is answered, one of which two bytes get out, the rest of it, and one that times
out. -/
def sampleTurns : List (Turn Cpp.Single) :=
  [⟨readyStep, ⟨none, .line readyLine, 3⟩, statusLine ++ [newline]⟩,
    ⟨cutStep, ⟨some (ascii "timed out"), .fails, 0⟩, ascii "pi"⟩,
    ⟨restStep, ⟨none, .line invalidLine, 3⟩, ascii "ng\n"⟩,
    ⟨lateStep, ⟨none, .timesOut, 5⟩, statusLine ++ [newline]⟩,
    ⟨waitStep, ⟨none, .fails, 5⟩, []⟩]

theorem sampleTurns_lines : ∀ turn ∈ sampleTurns, SendsLine singleRuntime turn.step := by
  simp only [sampleTurns, List.forall_mem_cons]
  refine ⟨.inr ⟨statusLine, by decide +kernel⟩, .inr ⟨ascii "ping", by decide +kernel⟩,
    .inr ⟨ascii "ng", by decide +kernel⟩, .inr ⟨statusLine, by decide +kernel⟩,
    .inl (by decide +kernel), List.forall_mem_nil _⟩

theorem sample_read {link : Link} {step : Step Cpp.Single} {body frame : List Nat} {elapsedMs : Nat}
    (hbody : newline ∉ link.pending ++ body)
    (hlength : (link.pending ++ body).length ≤ maxLineBytes) (hfresh : link.timedOut = false)
    (hbytes : body ++ [newline] = bytes singleRuntime step)
    (hunread :
      (link.take Testlab.singleInterpreter {} (link.pending ++ (body ++ [newline]))).unread = [frame])
    (hframe : Utf8.decodeStrict frame = some frame) :
    link.Becomes Testlab.singleInterpreter {} singleRuntime
      ⟨step, ⟨none, .line frame, elapsedMs⟩, body ++ [newline]⟩
      { link.take Testlab.singleInterpreter {} (link.pending ++ (body ++ [newline])) with
        pending := [], unread := [] } := by
  refine .read (.inr rfl) hbytes ?_
  dsimp only
  rw [receive_line hbody hlength]
  refine @Link.Reads.line _ frame [] frame ?_ hunread hframe
  rw [Link.take]
  split_ifs <;> exact hfresh

theorem sampleTurns_conducted :
    Conducted Testlab.singleInterpreter {} singleRuntime { session := .start } sampleTurns := by
  refine .cons (sample_read (by decide) (by decide) rfl (by decide +kernel) (by decide +kernel)
    (by decide +kernel)) ?_
  -- The handler waits for the end of what has got out.
  refine .cons (.cut rfl (by decide +kernel) (by decide +kernel)) ?_
  rw [receive_part (by decide) (by decide)]
  refine .cons (@sample_read _ _ (ascii "ng") _ _ (by decide) (by decide) rfl (by decide +kernel)
    (by decide +kernel) (by decide +kernel)) ?_
  refine .cons (.read (.inr rfl) (by decide +kernel) (.timesOut ?_)) ?_
  · rw [receive_line (by decide) (by decide)]
    rfl
  · rw [receive_line (by decide) (by decide)]
    refine .cons (.read (.inl (by decide +kernel)) (by decide +kernel) (.stuck ?_)) (.nil _)
    rw [receive_part (by decide) (by decide)]

theorem sampleTurns_clean :
    ∃ transcript,
      runSteps singleRuntime 1 (sampleTurns.map fun turn => (turn.step, turn.attempt)) =
        .ok ([], transcript) := by
  generalize hran : runSteps singleRuntime 1 _ = ran
  have hempty : ran.toOption.any (·.1.isEmpty) = true := by
    rw [← hran]
    decide +kernel
  match ran, hempty with
  | .ok ([], transcript), _ => exact ⟨transcript, rfl⟩

theorem clean_iff_agrees_sample :
    (framed singleRuntime [] sampleTurns).map Prod.snd =
      [statusLine ++ [newline], ascii "pi", ascii "ping\n", statusLine ++ [newline], []] ∧
    ∀ p ∈ framed singleRuntime [] sampleTurns,
      Agrees Testlab.singleInterpreter {} singleRuntime p.1.step p.1.attempt p.2 :=
  ⟨by decide +kernel, (clean_iff_agrees single_hears sampleTurns_lines (by decide +kernel)
    sampleTurns_conducted).1.mp sampleTurns_clean⟩

end Sample

end Link

end Checks.Probe
