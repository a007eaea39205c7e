import FlightTestLab.Cpp.Connection

/-!
# What the receive loop keeps in memory

The buffer is bounded by a check that does not count trailing carriage returns, so
the bound on the buffer itself holds for a stream exactly when no run of them hides
behind the limit.

## Main definitions

- `Cpp.ByteStream`: what a client may send, finite or endless
- `Cpp.Bounded`: the bound on the buffer for a stream, however it is received
- `Cpp.Outgrows`: the streams that exceed it

## Main results

- `Cpp.bounded_iff`: the bound holds of the streams that do not outgrow it
-/

namespace Cpp

open Framing (rest whole)

variable {D : Type}

/-- `sizeof(chunk)` -/
def kChunkBytes : Nat := 1024

/-- The bytes a client sends, with or without end. -/
inductive ByteStream
  | finite (s : Bytes)
  | endless (byteAt : Nat → Nat)

/-- The first `n` bytes of a stream, or all of them when it has fewer. -/
def ByteStream.take : ByteStream → Nat → Bytes
  | .finite s, n => s.take n
  | .endless f, n => (List.range n).map f

theorem ByteStream.take_take (stream : ByteStream) {m n : Nat} (h : m ≤ n) :
    (stream.take n).take m = stream.take m := by
  cases stream with
  | finite s => rw [take, take, List.take_take, Nat.min_eq_left h]
  | endless f => rw [take, take, ← List.map_take, List.take_range, Nat.min_eq_left h]

theorem ByteStream.length_take_le (stream : ByteStream) (n : Nat) : (stream.take n).length ≤ n := by
  cases stream with
  | finite s => exact List.length_take_le n s
  | endless f => simp [take]

/-- A prefix of what was sent was sent. -/
theorem ByteStream.take_of_append {stream : ByteStream} {n : Nat} {s t : Bytes}
    (h : stream.take n = s ++ t) : stream.take s.length = s := by
  have hlen := stream.length_take_le n
  rw [h, List.length_append] at hlen
  rw [← stream.take_take (by omega : s.length ≤ n), h, List.take_left]

section Retains

variable {S : Server D}

/-- What a running connection knows of the bytes it received, whatever the server. -/
structure Retains (received : Bytes) (c : Connection) : Prop where
  buffer : c.buffer = rest 0x0A received
  frames : ∀ f ∈ wholeFrames received, (stripCr f).length ≤ kMaxLineBytes
  pending : (stripCr c.buffer).length ≤ kMaxLineBytes

theorem handleLine_cont {log : Log} {line : Bytes} (h : (handleLine S log line).1 = .cont) :
    (stripCr line).length ≤ kMaxLineBytes := by
  by_contra hlong
  rw [handleLine, if_pos (by omega)] at h
  cases h

theorem serve_cont {log : Log} {fs : List Bytes} (h : (serve S log fs).1 = .cont) :
    ∀ f ∈ fs, (stripCr f).length ≤ kMaxLineBytes := by
  induction fs generalizing log with
  | nil => simp
  | cons f fs ih =>
    rw [serve] at h
    rcases hl : handleLine S log f with ⟨_ | _ | _, log'⟩
    · rw [hl] at h
      have hf := handleLine_cont (congrArg Prod.fst hl)
      exact List.forall_mem_cons.mpr ⟨hf, ih h⟩
    · rw [hl] at h
      cases h
    · rw [hl] at h
      cases h

/-- Draining never adds to the buffer. -/
theorem drain_suffix (log : Log) (buffer : Bytes) : (drain S log buffer).2.2 <:+ buffer := by
  induction buffer using Framing.stream_induction 0x0A generalizing log with
  | last s h =>
    rw [drain_of_not_mem S log h]
  | line f s h ih =>
    rw [drain_append S log h]
    have hs : s <:+ f ++ 0x0A :: s := ⟨f ++ [0x0A], by simp⟩
    obtain ⟨_ | _ | _, log'⟩ := handleLine S log f
    · exact (ih log').trans hs
    · exact hs
    · exact hs

/-- Once a newline arrived, only bytes of the chunk are kept. -/
theorem drain_length_lt (log : Log) {buffer chunk : Bytes} (hb : 0x0A ∉ buffer)
    (hc : 0x0A ∈ chunk) : (drain S log (buffer ++ chunk)).2.2.length < chunk.length := by
  obtain ⟨f, t, rfl, hf⟩ := List.eq_append_cons_of_mem hc
  have hbf : 0x0A ∉ buffer ++ f := by simp [hb, hf]
  rw [← List.append_assoc, drain_append S log hbf]
  have hlen : t.length < (f ++ 0x0A :: t).length := by
    rw [List.length_append, List.length_cons]
    omega
  obtain ⟨_ | _ | _, log'⟩ := handleLine S log (buffer ++ f)
  · exact Nat.lt_of_le_of_lt (drain_suffix log' t).length_le hlen
  · exact hlen
  · exact hlen

theorem receive_buffer (log : Log) (buffer chunk : Bytes) :
    (receive S log buffer chunk).2.2 = (drain S log (buffer ++ chunk)).2.2 := by
  rw [receive]
  obtain ⟨_ | _ | _, log', left⟩ := drain S log (buffer ++ chunk)
  · dsimp only
    split <;> rfl
  · rfl
  · rfl

theorem receive_cont {log : Log} {buffer chunk : Bytes}
    (h : (receive S log buffer chunk).1 = .cont) :
    (drain S log (buffer ++ chunk)).1 = .cont ∧
      (stripCr (receive S log buffer chunk).2.2).length ≤ kMaxLineBytes := by
  rw [receive_buffer]
  rw [receive] at h
  rcases hd : drain S log (buffer ++ chunk) with ⟨_ | _ | _, log', left⟩
  · rw [hd] at h
    dsimp only at h ⊢
    split at h
    · cases h
    · next hp => exact ⟨rfl, Nat.le_of_not_lt hp⟩
  · rw [hd] at h
    cases h
  · rw [hd] at h
    cases h

theorem retains_accepted : Retains [] accepted where
  buffer := rfl
  frames := by simp [wholeFrames]
  pending := by decide

theorem step_data {c : Connection} (hc : c.next = .cont) (chunk : Bytes) :
    step S c (.data chunk) =
      { next := (receive S c.log c.buffer chunk).1,
        log := (receive S c.log c.buffer chunk).2.1,
        buffer := (receive S c.log c.buffer chunk).2.2 } := by
  rw [step, hc]

theorem step_stopped {c : Connection} (hc : c.next ≠ .cont) (received : Recv) :
    step S c received = c := by
  obtain ⟨_ | _ | _, log, buffer⟩ := c
  · exact absurd rfl hc
  · rfl
  · rfl

/-- A round that goes on knows what it received. -/
theorem Retains.data {received : Bytes} {c : Connection} (h : Retains received c)
    (hc : c.next = .cont) {chunk : Bytes} (hs : (step S c (.data chunk)).next = .cont) :
    Retains (received ++ chunk) (step S c (.data chunk)) := by
  rw [step_data hc] at hs ⊢
  obtain ⟨hd, hp⟩ := receive_cont hs
  obtain ⟨hd1, -, hd3⟩ := drain_eq S c.log (c.buffer ++ chunk)
  refine ⟨?_, ?_, hp⟩
  · rw [Framing.rest_append, ← h.buffer, ← hd3 hd]
    exact receive_buffer _ _ _
  · rw [wholeFrames_append, ← h.buffer]
    intro f hf
    obtain hf | hf := List.mem_append.mp hf
    · exact h.frames f hf
    · exact serve_cont (hd1 ▸ hd) f hf

end Retains

section Bound

/-- For every server and every way to receive a part of the stream, the buffer at the end of
a round is at most the line limit and a chunk, and a client whose unterminated line is longer
has been answered and disconnected. -/
def Bounded (N : NativeDouble D) (stream : ByteStream) : Prop :=
  ∀ (S : Server D) (chunks : List Bytes) (n : Nat), S.doubles = N →
    (∀ chunk ∈ chunks, chunk ≠ [] ∧ chunk.length ≤ kChunkBytes) →
    chunks.flatten = stream.take n →
    (handleConnection S (chunks.map .data)).buffer.length ≤ kMaxLineBytes + kChunkBytes ∧
      (Clean S → kMaxLineBytes + kChunkBytes < (rest 0x0A chunks.flatten).length →
        (handleConnection S (chunks.map .data)).next = .stop ∧
          (handleConnection S (chunks.map .data)).log.sent.getLast? = some invalidJsonLine)

/-- Some part of the stream has only terminated lines within the limit and then one byte more
than the limit and a chunk without a newline, with a carriage return right after the limit. -/
def Outgrows (stream : ByteStream) : Prop :=
  ∃ n, (∀ f ∈ wholeFrames (stream.take n), (stripCr f).length ≤ kMaxLineBytes) ∧
    (rest 0x0A (stream.take n)).length = kMaxLineBytes + kChunkBytes + 1 ∧
    (rest 0x0A (stream.take n))[kMaxLineBytes]? = some 0x0D

/-- The first byte past the limit of a pending line is stripped. -/
theorem getElem?_of_stripCr_le {r : Bytes} {k : Nat} (h : (stripCr r).length ≤ k)
    (hk : k < r.length) : r[k]? = some 0x0D := by
  have hc := (stripCr_le_iff r k).mp h
  rw [List.drop_eq_getElem_cons hk] at hc
  rw [List.getElem?_eq_getElem hk, hc _ List.mem_cons_self]

/-- A round keeps the buffer within the bound unless the stream outgrows it. -/
theorem step_buffer_length {S : Server D} {stream : ByteStream} {received chunk : Bytes}
    {c : Connection} {n : Nat} (hstream : ¬ Outgrows stream)
    (hn : stream.take n = received ++ chunk) (hchunk : chunk.length ≤ kChunkBytes)
    (hc : c.next = .cont → Retains received c)
    (hlen : c.buffer.length ≤ kMaxLineBytes + kChunkBytes) :
    (step S c (.data chunk)).buffer.length ≤ kMaxLineBytes + kChunkBytes := by
  by_cases hnext : c.next = .cont
  · have hr := hc hnext
    have hb : 0x0A ∉ c.buffer := by
      rw [hr.buffer]
      exact Framing.not_mem_rest received
    rw [step_data hnext]
    dsimp only
    rw [receive_buffer]
    by_cases hmem : 0x0A ∈ chunk
    · have := drain_length_lt (S := S) c.log hb hmem
      omega
    · rw [drain_of_not_mem S _ (by simp [hb, hmem])]
      dsimp only
      rw [List.length_append]
      by_contra hlong
      -- the bytes up to the first one over the bound witness that the stream outgrows it
      let part := chunk.take (kMaxLineBytes + kChunkBytes + 1 - c.buffer.length)
      have hpart : 0x0A ∉ c.buffer ++ part := by
        simp only [List.mem_append, not_or]
        exact ⟨hb, fun h => hmem (List.mem_of_mem_take h)⟩
      have htake : stream.take (received ++ part).length = received ++ part := by
        refine ByteStream.take_of_append (n := n)
          (t := chunk.drop (kMaxLineBytes + kChunkBytes + 1 - c.buffer.length)) ?_
        rw [hn, List.append_assoc, List.take_append_drop]
      have hrest : rest 0x0A (received ++ part) = c.buffer ++ part := by
        rw [Framing.rest_append, ← hr.buffer, Framing.rest_of_not_mem hpart]
      have hpos : kMaxLineBytes < c.buffer.length := by omega
      refine hstream ⟨(received ++ part).length, ?_, ?_, ?_⟩
      · rw [htake, wholeFrames_append, ← hr.buffer, wholeFrames, wholeFrames,
          Framing.whole_of_not_mem hpart, List.map_nil, List.append_nil]
        exact hr.frames
      · rw [htake, hrest, List.length_append, List.length_take]
        omega
      · rw [htake, hrest, List.getElem?_append_left hpos]
        exact getElem?_of_stripCr_le hr.pending hpos
  · rwa [step_stopped hnext]

/-- Every round of a stream that does not outgrow the bound keeps it. -/
theorem foldl_buffer_length {S : Server D} {stream : ByteStream} (hstream : ¬ Outgrows stream)
    (chunks : List Bytes) {received : Bytes} {c : Connection} {n : Nat}
    (hchunks : ∀ chunk ∈ chunks, chunk.length ≤ kChunkBytes)
    (hn : stream.take n = received ++ chunks.flatten)
    (hc : c.next = .cont → Retains received c)
    (hlen : c.buffer.length ≤ kMaxLineBytes + kChunkBytes) :
    ((chunks.map .data).foldl (step S) c).buffer.length ≤ kMaxLineBytes + kChunkBytes := by
  induction chunks generalizing received c with
  | nil => exact hlen
  | cons chunk chunks ih =>
    rw [List.flatten_cons, ← List.append_assoc] at hn
    have hsent := ByteStream.take_of_append hn
    have hfirst := hchunks chunk List.mem_cons_self
    refine ih (fun d hd => hchunks d (List.mem_cons_of_mem _ hd)) hn ?_
      (step_buffer_length hstream hsent hfirst hc hlen)
    intro hs
    by_cases hnext : c.next = .cont
    · exact (hc hnext).data hnext hs
    · rw [step_stopped hnext] at hs
      exact absurd hs hnext

theorem answers_getLast? (N : NativeDouble D) {fs : List Bytes}
    (h : ∃ f ∈ fs, kMaxLineBytes < (stripCr f).length) :
    (answers N fs).getLast? = some invalidJsonLine := by
  induction fs with
  | nil => simp at h
  | cons f fs ih =>
    rw [answers]
    split_ifs with hf
    · rfl
    · obtain ⟨g, hg, hl⟩ := h
      obtain rfl | hg := List.mem_cons.mp hg
      · exact absurd hl hf
      · rw [List.getLast?_cons, ih ⟨g, hg, hl⟩]
        rfl

/-- Without faults a connection ends only by refusing a line. -/
theorem stateAfter_stopped {S : Server D} (hS : Clean S) {received : Bytes}
    (h : (stateAfter S received).1 ≠ .cont) :
    (stateAfter S received).1 = .stop ∧
      (stateAfter S received).2.sent.getLast? = some invalidJsonLine := by
  have hsent := (serve_clean hS accepted.log (wholeFrames received)).1
  have hnext := serve_next hS accepted.log (wholeFrames received)
  rw [stateAfter] at h ⊢
  rcases hs : serve S accepted.log (wholeFrames received) with ⟨next, log⟩
  rw [hs] at h hsent hnext
  obtain ⟨rfl, -⟩ | ⟨rfl, hlong⟩ := hnext
  · dsimp only at h ⊢
    split_ifs with hp
    · rw [refuse_clean hS]
      exact ⟨rfl, List.getLast?_concat⟩
    · rw [if_neg hp] at h
      exact absurd rfl h
  · dsimp only at hsent ⊢
    rw [hsent, List.getLast?_append, answers_getLast? S.doubles hlong]
    exact ⟨rfl, rfl⟩

/-- A connection whose lines are within the limit goes on. -/
theorem stateAfter_cont {S : Server D} (hS : Clean S) {received : Bytes}
    (hframes : ∀ f ∈ wholeFrames received, (stripCr f).length ≤ kMaxLineBytes)
    (hpending : (stripCr (rest 0x0A received)).length ≤ kMaxLineBytes) :
    (stateAfter S received).1 = .cont := by
  have hnext := serve_next hS accepted.log (wholeFrames received)
  rw [stateAfter]
  rcases hs : serve S accepted.log (wholeFrames received) with ⟨next, log⟩
  rw [hs] at hnext
  obtain ⟨rfl, -⟩ | ⟨-, f, hf, hl⟩ := hnext
  · dsimp only
    rw [if_neg (Nat.not_lt.mpr hpending)]
  · exact absurd (hframes f hf) (Nat.not_le.mpr hl)

/-- Received byte by byte up to the last chunk, a stream that outgrows the bound exceeds it. -/
theorem exists_overflow (N : NativeDouble D) {stream : ByteStream} (h : Outgrows stream) :
    ∃ (chunks : List Bytes) (n : Nat), chunks.flatten = stream.take n ∧
      (∀ chunk ∈ chunks, chunk ≠ [] ∧ chunk.length ≤ kChunkBytes) ∧
      kMaxLineBytes + kChunkBytes <
        (handleConnection (faultless N 1) (chunks.map .data)).buffer.length := by
  obtain ⟨n, hframes, hlen, hcr⟩ := h
  generalize hp : stream.take n = p at hframes hlen hcr
  have hple : (rest 0x0A p).length ≤ p.length := by
    have := congrArg List.length (Framing.flatten_whole_append_rest 0x0A p)
    rw [List.length_append] at this
    omega
  let a := p.take (p.length - kChunkBytes)
  let b := p.drop (p.length - kChunkBytes)
  have hab : a ++ b = p := List.take_append_drop _ p
  have hb : b.length = kChunkBytes := by
    rw [List.length_drop]
    omega
  have hrest : rest 0x0A p = rest 0x0A (rest 0x0A a ++ b) := by rw [← hab, Framing.rest_append]
  have hmem : 0x0A ∉ rest 0x0A a ++ b := by
    rw [List.mem_append, not_or]
    refine ⟨Framing.not_mem_rest a, fun hbm => ?_⟩
    have hnot : 0x0A ∉ rest 0x0A a := Framing.not_mem_rest a
    have := Framing.length_rest_append_le hnot hbm
    rw [← hrest, hlen, hb] at this
    omega
  rw [Framing.rest_of_not_mem hmem] at hrest
  rw [hrest, List.length_append, hb] at hlen
  have hpos : kMaxLineBytes < (rest 0x0A a).length := by omega
  rw [hrest, List.getElem?_append_left hpos] at hcr
  have hpending : (stripCr (rest 0x0A a)).length ≤ kMaxLineBytes := by
    rw [stripCr_le_iff, List.drop_eq_getElem_cons hpos, List.drop_eq_nil_of_le (by omega)]
    rw [List.getElem?_eq_getElem hpos, Option.some.injEq] at hcr
    simpa using hcr
  have hwhole : ∀ f ∈ wholeFrames a, (stripCr f).length ≤ kMaxLineBytes := by
    intro f hf
    refine hframes f ?_
    rw [← hab, wholeFrames_append]
    exact List.mem_append_left _ hf
  -- the state after `a` does not depend on how it arrived
  let S := faultless N 1
  have hS : Clean S := faultless_clean N 1
  have hflat : (a.map fun c => [c]).flatten = a := by
    rw [← List.flatMap_def, List.flatMap_singleton']
  have htrack := tracks_chunks hS (a.map fun c => [c])
  rw [hflat] at htrack
  generalize hrun : handleConnection S ((a.map fun c => [c]).map .data) = c at htrack
  have hnext : c.next = .cont := by
    have hstate := congrArg Prod.fst htrack.state
    rwa [stateAfter_cont hS hwhole hpending] at hstate
  refine ⟨(a.map fun c => [c]) ++ [b], n, ?_, ?_, ?_⟩
  · rw [List.flatten_append, hflat, List.flatten_singleton, hab, hp]
  · intro chunk hchunk
    obtain hchunk | hchunk := List.mem_append.mp hchunk
    · obtain ⟨x, -, rfl⟩ := List.mem_map.mp hchunk
      exact ⟨by simp, Nat.le_of_ble_eq_true rfl⟩
    · rw [List.mem_singleton.mp hchunk]
      refine ⟨fun hnil => ?_, by omega⟩
      rw [hnil] at hb
      exact absurd hb (by decide)
  · rw [List.map_append, handleConnection, List.foldl_append, ← handleConnection, hrun,
      List.map_singleton, List.foldl_cons, List.foldl_nil, step_data hnext]
    dsimp only
    rw [receive_buffer, htrack.buffer hnext, drain_of_not_mem S _ hmem]
    dsimp only
    rw [List.length_append]
    omega

theorem not_bounded_of_outgrows (N : NativeDouble D) {stream : ByteStream} (h : Outgrows stream) :
    ¬ Bounded N stream := by
  intro hbounded
  obtain ⟨chunks, n, hn, hchunks, hlong⟩ := exists_overflow N h
  have := (hbounded (faultless N 1) chunks n rfl hchunks hn).1
  omega

/-- The buffer is bounded for exactly the streams that do not outgrow the bound. -/
theorem bounded_iff (N : NativeDouble D) (stream : ByteStream) :
    Bounded N stream ↔ ¬ Outgrows stream := by
  constructor
  · exact fun hbounded houtgrows => not_bounded_of_outgrows N houtgrows hbounded
  · intro hstream S chunks n _ hchunks hn
    have hlen : (handleConnection S (chunks.map .data)).buffer.length ≤
        kMaxLineBytes + kChunkBytes :=
      foldl_buffer_length hstream chunks (fun chunk hchunk => (hchunks chunk hchunk).2) hn.symm
        (fun _ => retains_accepted) (Nat.zero_le _)
    refine ⟨hlen, fun hS hlong => ?_⟩
    obtain ⟨hstate, hbuffer⟩ := tracks_chunks hS chunks
    have hnext : (stateAfter S chunks.flatten).1 ≠ .cont := by
      intro hcont
      rw [← hstate] at hcont
      have hb := hbuffer hcont
      rw [hb] at hlen
      omega
    have hstopped := stateAfter_stopped hS hnext
    rwa [← hstate] at hstopped

/-- A client that sends nothing but carriage returns is never refused. -/
theorem cr_run_not_bounded : ¬ Bounded Sample.native (.endless fun _ => 0x0D) := by
  refine not_bounded_of_outgrows Sample.native ?_
  have htake (n : Nat) : ByteStream.take (.endless fun _ => 0x0D) n = List.replicate n 0x0D := by
    rw [ByteStream.take, List.map_const', List.length_range]
  have hmem (n : Nat) : 0x0A ∉ List.replicate n 0x0D := by simp
  refine ⟨kMaxLineBytes + kChunkBytes + 1, ?_, ?_, ?_⟩
  · rw [htake, wholeFrames, Framing.whole_of_not_mem (hmem _)]
    simp
  · rw [htake, Framing.rest_of_not_mem (hmem _), List.length_replicate]
  · rw [htake, Framing.rest_of_not_mem (hmem _), List.getElem?_replicate, if_pos (by omega)]

end Bound

end Cpp
