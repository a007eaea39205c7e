import FlightTestLab.Cpp.Connection
import FlightTestLab.Cpp.Members

/-!
# Replies as frames

A response echoes what the client chose, but the serialiser escapes every string, and
the only text a value carries past it is the token of an integer literal. So a reply is
printable ASCII up to its newline, for every request line and in every connection.

## Main definitions

- `Cpp.OneFrame`: printable bytes and a newline

## Main results

- `Cpp.replies_one_frame`: every reply, and every payload a connection sends
-/

namespace Cpp

open Json (Printable ascii printable_append printable_cons)

variable {D : Type} {N : NativeDouble D}

/-- Every raw number in a value is printable. -/
def PlainRaws (v : Value D) : Prop := ∀ text, Inside (.raw text) v → Printable text

theorem plainRaws_object {entries : List (Bytes × Value D)} (h : ∀ e ∈ entries, PlainRaws e.2) :
    PlainRaws (.object entries) := by
  intro text hin
  cases hin with
  | member he hin => exact h _ he text hin

theorem plainRaws_string (s : Bytes) : PlainRaws (.string s : Value D) := by
  intro text hin
  cases hin

theorem plainRaws_null : PlainRaws (.null : Value D) := by
  intro text hin
  cases hin

/-- What the parser stores as raw text is a sign and digits. -/
theorem plainRaws_parse (hN : StrtodReads N) {text : Bytes} {v : Value D}
    (h : parse N text = some v) : PlainRaws v := by
  obtain ⟨t, hdoc, -, hv⟩ := (parse_eq_some_iff hN text v).mp h
  intro raw hin
  obtain ⟨u, -, hw, hproper⟩ := exists_source hin hv
  obtain rfl := ofTree_eq_raw hw.symm
  exact (hproper (hdoc.proper (Utf8.decodeReplace_lt text))).printable

theorem plainRaws_find {request : Value D} (h : PlainRaws request) {key : Bytes} {v : Value D}
    (hv : request.find key = some v) : PlainRaws v := by
  intro text hin
  cases request with
  | object entries => exact h text (.member (Assoc.mem_of_get? hv) hin)
  | null | bool _ | int _ | double _ | string _ | raw _ | array _ => cases hv

theorem plainRaws_sequenceOf {request : Value D} (h : PlainRaws request) :
    PlainRaws (sequenceOf request) := by
  rw [sequenceOf]
  cases hs : request.find (ascii "sequence") with
  | none => exact plainRaws_null
  | some v => exact plainRaws_find h hs

/-- A response holds constants and values of the request. -/
theorem plainRaws_buildResponse {request : Value D} (h : PlainRaws request) :
    PlainRaws (buildResponse request) := by
  have hseq := plainRaws_sequenceOf h
  have hstring := plainRaws_string (D := D)
  rw [buildResponse]
  split
  · exact plainRaws_object (by simp [hstring])
  · dsimp only
    split
    · exact plainRaws_object (by simp [hstring, hseq])
    · next command hc =>
      have hcommand := plainRaws_find h hc
      split_ifs
      · exact plainRaws_object (by simp [hstring, hseq])
      · exact plainRaws_object (by simp [hstring, hseq])
      · exact plainRaws_object (by simp [hstring, hseq, hcommand])

theorem response_printable (hN : StrtodReads N) (hp : PrintsPlain N) (payload : Bytes) :
    Printable (dumpValue N (handleRequestLine N payload)) := by
  refine dumpValue_printable hp ?_
  show PlainRaws _
  rw [handleRequestLine]
  split
  · exact plainRaws_object (by simp [plainRaws_string])
  · next request hr => exact plainRaws_buildResponse (plainRaws_parse hN hr)

section Frames

/-- Printable bytes and the newline that ends them. -/
def OneFrame (payload : Bytes) : Prop := ∃ body, payload = body ++ [0x0A] ∧ Printable body

theorem OneFrame.count {payload : Bytes} (h : OneFrame payload) : payload.count 0x0A = 1 := by
  obtain ⟨body, rfl, hbody⟩ := h
  have hnone : body.count 0x0A = 0 := by
    refine List.count_eq_zero.mpr fun hmem => ?_
    have := hbody _ hmem
    omega
  rw [List.count_append, hnone]
  rfl

theorem oneFrame_reply (hN : StrtodReads N) (hp : PrintsPlain N) (payload : Bytes) :
    OneFrame (reply N payload) := ⟨_, rfl, response_printable hN hp payload⟩

theorem oneFrame_invalidJsonLine : OneFrame invalidJsonLine :=
  ⟨invalidJsonLine.dropLast, by decide, by decide⟩

variable {S : Server D}

/-- Everything a connection has sent is one frame each. -/
def Framed (log : Log) : Prop := ∀ payload ∈ log.sent, OneFrame payload

theorem sendAll_framed {log : Log} (h : Framed log) {payload : Bytes} (hp : OneFrame payload) :
    Framed (sendAll S log payload).2 := by
  rw [sendAll]
  split
  · exact List.forall_mem_append.mpr ⟨h, by simpa using hp⟩
  · exact h

theorem refuse_framed {log : Log} (h : Framed log) : Framed (refuse S log) :=
  sendAll_framed h oneFrame_invalidJsonLine

/-- One frame of the client is answered by at most one frame. -/
theorem handleLine_framed (hN : StrtodReads S.doubles) (hp : PrintsPlain S.doubles) {log : Log}
    (h : Framed log) (text : Bytes) : Framed (handleLine S log text).2 := by
  unfold handleLine
  dsimp only
  split
  · exact refuse_framed h
  · have hanswer {log' : Log} (h' : Framed log') :
        Framed (sendAll S log' (reply S.doubles (stripCr text))).2 :=
      sendAll_framed h' (oneFrame_reply hN hp _)
    split
    · exact hanswer (fun payload hmem => h payload hmem)
    · exact hanswer (fun payload hmem => h payload hmem)
    · exact hanswer (fun payload hmem => h payload hmem)
    · exact h
    · exact h
    · exact h

theorem serve_framed (hN : StrtodReads S.doubles) (hp : PrintsPlain S.doubles) {log : Log}
    (h : Framed log) (fs : List Bytes) : Framed (serve S log fs).2 := by
  induction fs generalizing log with
  | nil => exact h
  | cons f fs ih =>
    have hf := handleLine_framed hN hp h f
    rw [serve]
    split
    · next log' he =>
      rw [he] at hf
      exact ih hf
    · exact hf

theorem step_framed (hN : StrtodReads S.doubles) (hp : PrintsPlain S.doubles) {c : Connection}
    (h : Framed c.log) (received : Recv) : Framed (step S c received).log := by
  unfold step
  split
  · split
    · next chunk =>
      have hdrain : Framed (drain S c.log (c.buffer ++ chunk)).2.1 := by
        rw [(drain_eq S c.log (c.buffer ++ chunk)).2.1]
        exact serve_framed hN hp h _
      show Framed (receive S c.log c.buffer chunk).2.1
      rw [receive]
      split
      · next log' buffer' he =>
        rw [he] at hdrain
        dsimp only
        split
        · exact refuse_framed hdrain
        · exact hdrain
      · exact hdrain
    · have hline := handleLine_framed hN hp h c.buffer
      split
      · exact h
      · split
        · next log' he =>
          rw [he] at hline
          exact hline
        · next next' log' _ he =>
          rw [he] at hline
          exact hline
    · exact h
  · exact h

theorem handleConnection_framed (hN : StrtodReads S.doubles) (hp : PrintsPlain S.doubles)
    (received : List Recv) : Framed (handleConnection S received).log := by
  have hfold : ∀ {c : Connection}, Framed c.log → Framed (received.foldl (step S) c).log := by
    induction received with
    | nil => exact fun h => h
    | cons r received ih => exact fun h => ih (step_framed hN hp h r)
  exact hfold (by simp [Framed, accepted])

end Frames

/-- The reply to any line is printable ASCII with one newline, at its end, and so is everything
a connection sends, whatever it receives, whatever fault is configured and whichever sends fail. -/
theorem replies_one_frame (hN : StrtodReads N) (hp : PrintsPlain N) (payload : Bytes) :
    (∀ b ∈ dumpValue N (handleRequestLine N payload), 0x20 ≤ b ∧ b ≤ 0x7E) ∧
      (reply N payload).count 0x0A = 1 ∧ (reply N payload).getLast? = some 0x0A ∧
      ∀ options sends received,
        ∀ sent ∈ (handleConnection { doubles := N, options, sends } received).log.sent,
          OneFrame sent := by
  refine ⟨response_printable hN hp payload, (oneFrame_reply hN hp payload).count, ?_, ?_⟩
  · exact List.getLast?_concat
  · intro options sends received
    exact handleConnection_framed (S := { doubles := N, options, sends }) hN hp received

theorem Single.strtodReads : StrtodReads Single.native := fun _ _ => rfl

/-- A command with a line break, a NUL, a DEL and a large integer in it. -/
def sampleCommand : Bytes :=
  ascii "\x7b\"command\":[\"\\n\\u0000\\u007f\",99999999999999999999]\x7d"

theorem replies_one_frame_sample :
    (∀ b ∈ dumpValue Single.native (handleRequestLine Single.native sampleCommand),
        0x20 ≤ b ∧ b ≤ 0x7E) ∧
      (reply Single.native sampleCommand).count 0x0A = 1 ∧
      (reply Single.native sampleCommand).getLast? = some 0x0A :=
  have h := replies_one_frame Single.strtodReads Single.printsPlain sampleCommand
  ⟨h.1, h.2.1, h.2.2.1⟩

end Cpp
