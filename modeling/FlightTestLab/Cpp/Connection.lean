import FlightTestLab.Cpp.Server

/-!
# The receive loop as a function of the bytes

With no fault configured and sends that succeed, the state after some chunks is
computed from the bytes they carry, without looking at where they were cut. The
final log is that of the frames of the stream handled in order.

## Main definitions

- `Cpp.Clean`: no fault, and every send succeeds
- `Cpp.faultless`: such a server
- `Cpp.answers`: the payloads sent for some frames
- `Cpp.Tracks`: what a connection remembers of the bytes it received

## Main results

- `Cpp.tracks_chunks`: the invariant of the loop
- `Cpp.handleConnection_sent`: what is sent for a stream, however it is chunked
-/

namespace Cpp

open Framing (rest whole)

variable {D : Type}

/-- No fault is configured and every send succeeds. -/
structure Clean (S : Server D) : Prop where
  fault : S.options.fault = .none
  sends : ∀ sent payload, S.sends sent payload = true

/-- A server with no fault configured, on a connection whose sends succeed. -/
def faultless (N : NativeDouble D) (faultAfter : Int32) : Server D where
  doubles := N
  options := { fault := .none, faultAfter := faultAfter }
  sends := fun _ _ => true

theorem faultless_clean (N : NativeDouble D) (faultAfter : Int32) :
    Clean (faultless N faultAfter) where
  fault := rfl
  sends := fun _ _ => rfl

/-- The reply to a stripped request line, with its newline. -/
def reply (N : NativeDouble D) (payload : Bytes) : Bytes :=
  dumpValue N (handleRequestLine N payload) ++ [0x0A]

/-- The payloads sent for some frames, cut at the first over-long one. -/
def answers (N : NativeDouble D) : List Bytes → List Bytes
  | [] => []
  | f :: fs =>
    if (stripCr f).length > kMaxLineBytes then [invalidJsonLine]
    else reply N (stripCr f) :: answers N fs

/-- The stripped frames handed to decoding, cut at the first over-long one. -/
def events : List Bytes → List (Framing.Event Bytes)
  | [] => []
  | f :: fs =>
    if (stripCr f).length > kMaxLineBytes then [.tooLong] else .request (stripCr f) :: events fs

section Serve

variable {S : Server D}

theorem refuse_clean (hS : Clean S) (log : Log) :
    refuse S log =
      { log with sent := log.sent ++ [invalidJsonLine], events := log.events ++ [.tooLong] } := by
  rw [refuse, sendAll, if_pos (hS.sends _ _)]

theorem handleLine_clean (hS : Clean S) (log : Log) (line : Bytes) :
    handleLine S log line =
      if (stripCr line).length > kMaxLineBytes then (.stop, refuse S log)
      else
        (.cont, { sent := log.sent ++ [reply S.doubles (stripCr line)],
                  events := log.events ++ [.request (stripCr line)],
                  requestCount := log.requestCount + 1 }) := by
  have hfault (n : Int32) : maybeInjectFault S.options n = none := by
    rw [maybeInjectFault, if_pos (.inl hS.fault)]
  unfold handleLine
  dsimp only
  split
  · rfl
  · simp only [hfault, sendAll, hS.sends, if_true, reply]

/-- What serving some frames adds to the log. -/
theorem serve_clean (hS : Clean S) (log : Log) (fs : List Bytes) :
    (serve S log fs).2.sent = log.sent ++ answers S.doubles fs ∧
      (serve S log fs).2.events = log.events ++ events fs := by
  induction fs generalizing log with
  | nil => simp [serve, answers, events]
  | cons f fs ih =>
    rw [serve, handleLine_clean hS, answers, events]
    split_ifs
    · rw [refuse_clean hS]
      exact ⟨rfl, rfl⟩
    · dsimp only
      rw [(ih _).1, (ih _).2, List.append_assoc, List.append_assoc]
      exact ⟨rfl, rfl⟩

theorem serve_next (hS : Clean S) (log : Log) (fs : List Bytes) :
    (serve S log fs).1 = .cont ∧ (∀ f ∈ fs, (stripCr f).length ≤ kMaxLineBytes) ∨
      (serve S log fs).1 = .stop ∧ ∃ f ∈ fs, kMaxLineBytes < (stripCr f).length := by
  induction fs generalizing log with
  | nil => exact .inl ⟨rfl, by simp⟩
  | cons f fs ih =>
    rw [serve, handleLine_clean hS]
    split_ifs with hlong
    · exact .inr ⟨rfl, f, by simp, hlong⟩
    · dsimp only
      generalize Log.mk _ _ _ = log'
      obtain ⟨hn, hall⟩ | ⟨hn, g, hg, hl⟩ := ih log'
      · exact .inl ⟨hn, List.forall_mem_cons.mpr ⟨by omega, hall⟩⟩
      · exact .inr ⟨hn, g, by simp [hg], hl⟩

theorem serve_eq_pair (hS : Clean S) (log : Log) (fs : List Bytes) :
    (∃ log', serve S log fs = (.cont, log')) ∨ ∃ log', serve S log fs = (.stop, log') := by
  obtain ⟨h, -⟩ | ⟨h, -⟩ := serve_next hS log fs
  · exact .inl ⟨_, Prod.ext h rfl⟩
  · exact .inr ⟨_, Prod.ext h rfl⟩

end Serve

section Invariant

/-- The state that some received bytes alone determine. -/
def stateAfter (S : Server D) (received : Bytes) : Next × Log :=
  match serve S accepted.log (wholeFrames received) with
  | (.cont, log) =>
    if (stripCr (rest 0x0A received)).length > kMaxLineBytes then (.stop, refuse S log)
    else (.cont, log)
  | stopped => stopped

/-- The connection is in the state its bytes determine, and while it runs its buffer is the
unterminated rest of them. -/
structure Tracks (S : Server D) (received : Bytes) (c : Connection) : Prop where
  state : (c.next, c.log) = stateAfter S received
  buffer : c.next = .cont → c.buffer = rest 0x0A received

variable {S : Server D}

theorem tracks_accepted : Tracks S [] accepted := by
  refine ⟨?_, fun _ => rfl⟩
  rw [stateAfter, wholeFrames, Framing.whole_nil]
  rfl

/-- An over-long unterminated rest is refused whether its newline arrives or not. -/
theorem serve_rest (hS : Clean S) (log : Log) {r : Bytes} (hr : 0x0A ∉ r)
    (hlong : (stripCr r).length > kMaxLineBytes) (chunk : Bytes) :
    (match serve S log (wholeFrames (r ++ chunk)) with
      | (.cont, log) =>
        if (stripCr (rest 0x0A (r ++ chunk))).length > kMaxLineBytes then (.stop, refuse S log)
        else (.cont, log)
      | stopped => stopped) = (Next.stop, refuse S log) := by
  obtain h | ⟨f, t, rfl, hf⟩ := Framing.first_cases 0x0A chunk
  · have hrc : 0x0A ∉ r ++ chunk := by simp [hr, h]
    have hle := stripCr_append_le r chunk
    rw [wholeFrames, Framing.whole_of_not_mem hrc, Framing.rest_of_not_mem hrc, List.map_nil, serve]
    dsimp only
    rw [if_pos (by omega)]
  · have hrf : 0x0A ∉ r ++ f := by simp [hr, hf]
    have hle := stripCr_append_le r f
    rw [← List.append_assoc, wholeFrames, Framing.whole_append_sep hrf, List.map_cons,
      Framing.body_terminated hrf, serve, handleLine_clean hS, if_pos (by omega)]

/-- One received chunk keeps the invariant, wherever the stream was cut. -/
theorem Tracks.data {received : Bytes} {c : Connection} (h : Tracks S received c) (hS : Clean S)
    (chunk : Bytes) : Tracks S (received ++ chunk) (step S c (.data chunk)) := by
  have hstate := h.state
  have hafter : stateAfter S (received ++ chunk) =
      match serve S accepted.log (wholeFrames received) with
      | (.cont, log) =>
        match serve S log (wholeFrames (rest 0x0A received ++ chunk)) with
        | (.cont, log) =>
          if (stripCr (rest 0x0A (rest 0x0A received ++ chunk))).length > kMaxLineBytes then
            (.stop, refuse S log)
          else (.cont, log)
        | stopped => stopped
      | stopped => stopped := by
    rw [stateAfter, wholeFrames_append, serve_append, Framing.rest_append]
    rcases serve_eq_pair hS accepted.log (wholeFrames received) with ⟨log, hl⟩ | ⟨log, hl⟩ <;>
      rw [hl]
  rw [stateAfter] at hstate
  obtain ⟨log, hl⟩ | ⟨log, hl⟩ := serve_eq_pair hS accepted.log (wholeFrames received)
  · rw [hl] at hstate hafter
    dsimp only at hstate hafter
    split at hstate
    · next hlong =>
      -- refused already: the frame stays over-long whatever arrives
      obtain ⟨hn, hlog⟩ := Prod.mk.inj hstate
      rw [serve_rest hS log (Framing.not_mem_rest received) hlong] at hafter
      have hstep : step S c (.data chunk) = c := by rw [step, hn]
      rw [hstep]
      exact ⟨by rw [hafter, hn, hlog], fun hc => by rw [hn] at hc; cases hc⟩
    · next hshort =>
      obtain ⟨hn, hlog⟩ := Prod.mk.inj hstate
      obtain ⟨hd1, hd2, hd3⟩ := drain_eq S log (rest 0x0A received ++ chunk)
      have hstep : step S c (.data chunk) =
          { next := (receive S log (rest 0x0A received) chunk).1,
            log := (receive S log (rest 0x0A received) chunk).2.1,
            buffer := (receive S log (rest 0x0A received) chunk).2.2 } := by
        rw [step, hn, hlog, h.buffer hn]
      rw [hstep, receive]
      rcases serve_eq_pair hS log (wholeFrames (rest 0x0A received ++ chunk)) with
        ⟨log', hl'⟩ | ⟨log', hl'⟩
      · rw [hl'] at hd1 hd2 hafter
        have hd : drain S log (rest 0x0A received ++ chunk) =
            (.cont, log', rest 0x0A (received ++ chunk)) := by
          rw [Framing.rest_append]
          exact Prod.ext hd1 (Prod.ext hd2 (hd3 hd1))
        rw [hd]
        dsimp only at hafter ⊢
        rw [← Framing.rest_append] at hafter
        split
        · next hp =>
          rw [if_pos hp] at hafter
          exact ⟨hafter.symm, nofun⟩
        · next hp =>
          rw [if_neg hp] at hafter
          exact ⟨hafter.symm, fun _ => rfl⟩
      · rw [hl'] at hd1 hd2 hafter
        have hd : drain S log (rest 0x0A received ++ chunk) =
            (.stop, log', (drain S log (rest 0x0A received ++ chunk)).2.2) :=
          Prod.ext hd1 (Prod.ext hd2 rfl)
        rw [hd]
        exact ⟨hafter.symm, nofun⟩
  · rw [hl] at hstate hafter
    obtain ⟨hn, hlog⟩ := Prod.mk.inj hstate
    have hstep : step S c (.data chunk) = c := by rw [step, hn]
    rw [hstep]
    exact ⟨by rw [hafter, hn, hlog], fun hc => by rw [hn] at hc; cases hc⟩

theorem tracks_foldl {received : Bytes} {c : Connection} (h : Tracks S received c) (hS : Clean S)
    (chunks : List Bytes) :
    Tracks S (received ++ chunks.flatten) ((chunks.map .data).foldl (step S) c) := by
  induction chunks generalizing received c with
  | nil => simpa using h
  | cons chunk chunks ih =>
    have := ih (h.data hS chunk)
    rwa [List.append_assoc] at this

/-- The invariant of the loop over all chunks received. -/
theorem tracks_chunks (hS : Clean S) (chunks : List Bytes) :
    Tracks S chunks.flatten (handleConnection S (chunks.map .data)) :=
  tracks_foldl tracks_accepted hS chunks

/-- The final log is that of the frames of the stream handled in order. -/
theorem log_closed (hS : Clean S) (chunks : List Bytes) :
    (handleConnection S (chunks.map .data ++ [.closed])).log =
      (serve S accepted.log (frames chunks.flatten)).2 := by
  obtain ⟨hstate, hbuffer⟩ := tracks_chunks hS chunks
  rw [handleConnection, List.foldl_append, List.foldl_cons, List.foldl_nil, ← handleConnection]
  generalize handleConnection S (chunks.map .data) = c at hstate hbuffer
  rw [frames_eq, serve_append]
  rw [stateAfter] at hstate
  obtain ⟨log, hl⟩ | ⟨log, hl⟩ := serve_eq_pair hS accepted.log (wholeFrames chunks.flatten)
  · rw [hl] at hstate ⊢
    dsimp only at hstate ⊢
    split at hstate
    · next hlong =>
      obtain ⟨hn, hlog⟩ := Prod.mk.inj hstate
      have hne : rest 0x0A chunks.flatten ≠ [] := by
        intro hnil
        rw [hnil] at hlong
        exact absurd hlong (by decide)
      rw [step, hn, hlog, if_neg hne, serve, handleLine_clean hS, if_pos hlong]
    · next hshort =>
      obtain ⟨hn, hlog⟩ := Prod.mk.inj hstate
      rw [step, hn, hbuffer hn, hlog]
      dsimp only
      split_ifs with hnil
      · rw [serve]
      · rw [serve, handleLine_clean hS, if_neg hshort]
        rfl
  · rw [hl] at hstate ⊢
    obtain ⟨hn, hlog⟩ := Prod.mk.inj hstate
    rw [step, hn, hlog]

/-- Whatever the chunk boundaries, the payloads sent are the replies to the frames of the
stream in order, up to the first over-long one. -/
theorem handleConnection_sent (N : NativeDouble D) (faultAfter : Int32) (chunks : List Bytes) :
    (handleConnection (faultless N faultAfter) (chunks.map .data ++ [.closed])).log.sent =
      answers N (frames chunks.flatten) := by
  have hS := faultless_clean N faultAfter
  rw [log_closed hS, (serve_clean hS _ _).1]
  exact List.nil_append _

end Invariant

end Cpp
