import FlightTestLab.Cpp.Connection
import FlightTestLab.Parity.Acceptance
import FlightTestLab.Simulator.Handler

/-!
# Framing of the two DUTs

Both sides take the same requests from a stream line by line, except where the bounded
`readline` cuts inside a run of carriage returns that the native loop strips whole.

## Main definitions

- `Parity.Cut`: a line the bounded read cuts inside such a run
- `Parity.SplitsCrRun`: the streams in which such a line is reached

## Main results

- `Parity.framing_agrees_iff`: the same requests exactly for the other streams
-/

namespace Parity

open Cpp (frames stripCr kMaxLineBytes)
open Framing (Event body lines)
open Json (Text)
open Simulator (Interpreter isCrLf maxLineBytes readline requests)

/-- The line does not fit one read, and the read ends with two carriage returns that lie
past the limit. -/
def Cut (l : List Nat) : Prop :=
  kMaxLineBytes + 2 < l.length ∧ l[kMaxLineBytes]? = some 0x0D ∧
    l[kMaxLineBytes + 1]? = some 0x0D

/-- A cut line comes before any over-long one. -/
def CutReached (ls : List (List Nat)) : Prop :=
  ∃ pre line post, ls = pre ++ line :: post ∧
    (∀ l ∈ pre, (stripCr (body 0x0A l)).length ≤ kMaxLineBytes) ∧ Cut line

/-- A line of the stream is cut before the connection ends. -/
def SplitsCrRun (stream : List Nat) : Prop := CutReached (lines 0x0A stream)

/-- The requests the native loop takes from a stream, as their decoding sees them. -/
def nativeRequests (stream : List Nat) : List (Event Text) :=
  (Cpp.events (frames stream)).map (Event.map Utf8.decodeReplace)

section Condition

theorem cutReached_nil : ¬ CutReached [] := by
  rintro ⟨pre, line, post, h, -⟩
  simp at h

theorem cutReached_cons (line : List Nat) (ls : List (List Nat)) :
    CutReached (line :: ls) ↔
      Cut line ∨ (stripCr (body 0x0A line)).length ≤ kMaxLineBytes ∧ CutReached ls := by
  constructor
  · rintro ⟨_ | ⟨l, pre⟩, cut, post, h, hpre, hcut⟩
    · obtain ⟨rfl, -⟩ := List.cons_eq_cons.mp h
      exact .inl hcut
    · obtain ⟨rfl, rfl⟩ := List.cons_eq_cons.mp h
      exact .inr ⟨hpre _ List.mem_cons_self, pre, cut, post, rfl,
        fun l hl => hpre l (List.mem_cons_of_mem _ hl), hcut⟩
  · rintro (hcut | ⟨hle, pre, cut, post, rfl, hpre, hcut⟩)
    · exact ⟨[], line, ls, rfl, by simp, hcut⟩
    · exact ⟨line :: pre, cut, post, rfl, List.forall_mem_cons.mpr ⟨hle, hpre⟩, hcut⟩

end Condition

section Lines

/-- What follows the first line of a stream: nothing, or a newline and more lines. -/
inductive Tail : List Nat → Prop
  | ended : Tail []
  | line (s : List Nat) : Tail (0x0A :: s)

/-- One request and what comes after it, unless its line is over-long. -/
def first (f : List Nat) (next : List (Event Text)) : List (Event Text) :=
  if (stripCr f).length > kMaxLineBytes then [.tooLong]
  else .request (Utf8.decodeReplace (stripCr f)) :: next

variable {f t : List Nat}

theorem lines_first (hf : 0x0A ∉ f) (ht : Tail t) (hne : f ++ t ≠ []) :
    lines 0x0A (f ++ t) = (f ++ t.take 1) :: lines 0x0A t.tail := by
  cases ht with
  | ended =>
    rw [List.append_nil] at hne
    rw [List.append_nil, Framing.lines_of_not_mem hf hne, List.take_nil, List.append_nil]
    rfl
  | line s => exact Framing.lines_append_sep hf s

theorem body_first (hf : 0x0A ∉ f) (ht : Tail t) : body 0x0A (f ++ t.take 1) = f := by
  cases ht with
  | ended => rw [List.take_nil, List.append_nil, Framing.body_of_not_mem hf]
  | line s => exact Framing.body_terminated hf

theorem nativeRequests_first (hf : 0x0A ∉ f) (ht : Tail t) (hne : f ++ t ≠ []) :
    nativeRequests (f ++ t) = first f (nativeRequests t.tail) := by
  have hframes : frames (f ++ t) = f :: frames t.tail := by
    rw [frames, lines_first hf ht hne, List.map_cons, body_first hf ht, frames]
  rw [nativeRequests, hframes, Cpp.events, first]
  split <;> rfl

/-- Stripping both delimiters strips a newline-free text of its carriage returns. -/
theorem strip_first (hf : 0x0A ∉ f) (ht : Tail t) :
    (f ++ t.take 1).rdropWhile isCrLf = stripCr f := by
  have hdelim : ∀ c ∈ t.take 1, isCrLf c = true := by
    cases ht with
    | ended => simp
    | line s => simp [isCrLf]
  rw [Framing.rdropWhile_append_of_forall hdelim, stripCr]
  refine Framing.rdropWhile_congr fun c hc => ?_
  have hne : c ≠ 0x0A := fun h => hf (h ▸ hc)
  simp [isCrLf, hne]

theorem findIdx_first (hf : 0x0A ∉ f) (ht : Tail t) :
    (f ++ t).findIdx (· == 0x0A) = f.length := by
  have hnone : f.findIdx (· == 0x0A) = f.length := by
    rw [List.findIdx_eq_length]
    intro c hc
    simpa using fun he : c = 0x0A => hf (he ▸ hc)
  rw [List.findIdx_append, hnone, if_neg (by omega)]
  cases ht with
  | ended => simp
  | line s => simp [List.findIdx_cons]

/-- A line that fits is read whole. -/
theorem readline_whole (hf : 0x0A ∉ f) (ht : Tail t) {limit : Nat}
    (hle : (f ++ t.take 1).length ≤ limit) :
    readline limit (f ++ t) = (f ++ t.take 1, t.tail) := by
  rw [List.length_append] at hle
  rw [readline, findIdx_first hf ht]
  cases ht with
  | ended =>
    have hlen : f.length ≤ limit := by omega
    simp only [List.append_nil, List.take_nil, List.tail_nil, Prod.mk.injEq]
    exact ⟨List.take_of_length_le (by omega), List.drop_of_length_le (by omega)⟩
  | line s =>
    simp only [List.take_succ_cons, List.take_zero, List.length_singleton] at hle
    have hlen : (f ++ [0x0A]).length = f.length + 1 := by simp
    rw [Nat.min_eq_right hle, List.append_cons f 0x0A s]
    exact Prod.ext (List.take_left' hlen) (List.drop_left' hlen)

/-- A line that does not fit is cut. -/
theorem readline_cut (hf : 0x0A ∉ f) (ht : Tail t) {limit : Nat} (hle : limit ≤ f.length) :
    readline limit (f ++ t) = (f.take limit, f.drop limit ++ t) := by
  rw [readline, findIdx_first hf ht, Nat.min_eq_left (by omega),
    List.take_append_of_le_length hle, List.drop_append_of_le_length hle]

theorem requests_whole (hf : 0x0A ∉ f) (ht : Tail t) (hne : f ++ t ≠ [])
    (hle : (f ++ t.take 1).length ≤ kMaxLineBytes + 2) :
    requests (f ++ t) = first f (requests t.tail) := by
  have hread : readline (maxLineBytes + 2) (f ++ t) = (f ++ t.take 1, t.tail) :=
    readline_whole hf ht hle
  rw [requests, dif_neg hne]
  dsimp only
  rw [hread, strip_first hf ht]
  rfl

theorem requests_cut (hf : 0x0A ∉ f) (ht : Tail t) (hle : kMaxLineBytes + 2 ≤ f.length) :
    requests (f ++ t) =
      first (f.take (kMaxLineBytes + 2)) (requests (f.drop (kMaxLineBytes + 2) ++ t)) := by
  have hread : readline (maxLineBytes + 2) (f ++ t) =
      (f.take (kMaxLineBytes + 2), f.drop (kMaxLineBytes + 2) ++ t) := readline_cut hf ht hle
  have hne : f ++ t ≠ [] := by
    intro h
    rw [(List.append_eq_nil_iff.mp h).1] at hle
    exact absurd hle (by simp)
  have hpart : 0x0A ∉ f.take (kMaxLineBytes + 2) := fun h => hf (List.mem_of_mem_take h)
  have hstrip := strip_first hpart Tail.ended
  rw [List.take_nil, List.append_nil] at hstrip
  rw [requests, dif_neg hne]
  dsimp only
  rw [hread, hstrip]
  rfl

end Lines

section Agreement

open Cpp (NativeDouble handleConnection faultless)

variable {f t : List Nat}

theorem first_tooLong {next : List (Event Text)} (h : kMaxLineBytes < (stripCr f).length) :
    first f next = [.tooLong] := if_pos h

theorem first_request {next : List (Event Text)} (h : (stripCr f).length ≤ kMaxLineBytes) :
    first f next = .request (Utf8.decodeReplace (stripCr f)) :: next :=
  if_neg (Nat.not_lt.mpr h)

/-- The first read of a cut line holds nothing past the limit but carriage returns. -/
theorem cut_iff (hle : kMaxLineBytes + 2 ≤ f.length)
    (hlong : kMaxLineBytes + 2 < (f ++ t.take 1).length) :
    Cut (f ++ t.take 1) ↔ (stripCr (f.take (kMaxLineBytes + 2))).length ≤ kMaxLineBytes := by
  have h0 : kMaxLineBytes < f.length := by omega
  have h1 : kMaxLineBytes + 1 < f.length := by omega
  have htwo : (f.take (kMaxLineBytes + 2)).drop kMaxLineBytes =
      [f[kMaxLineBytes], f[kMaxLineBytes + 1]] := by
    rw [List.drop_take, Nat.add_sub_cancel_left, List.drop_eq_getElem_cons h0,
      List.drop_eq_getElem_cons h1]
    rfl
  rw [Cpp.stripCr_le_iff, htwo, Cut, List.getElem?_append_left h0, List.getElem?_append_left h1,
    List.getElem?_eq_getElem h0, List.getElem?_eq_getElem h1]
  simp only [hlong, true_and, Option.some.injEq, List.forall_mem_cons, List.not_mem_nil,
    false_implies, implies_true, and_true]

/-- Enough of a line that does not fit is left to be read again. -/
theorem drop_append_ne_nil (hlong : ¬ (f ++ t.take 1).length ≤ kMaxLineBytes + 2) :
    f.drop (kMaxLineBytes + 2) ++ t ≠ [] := by
  intro hnil
  rw [List.append_eq_nil_iff] at hnil
  rw [hnil.2, List.take_nil, List.append_nil] at hlong
  exact hlong (List.drop_eq_nil_iff.mp hnil.1)

/-- Past the limit a line within it holds only carriage returns. -/
theorem stripCr_drop_le (hle : (stripCr f).length ≤ kMaxLineBytes) :
    (stripCr (f.drop (kMaxLineBytes + 2))).length ≤ kMaxLineBytes := by
  rw [Cpp.stripCr_le_iff] at hle ⊢
  intro c hc
  refine hle c ?_
  rw [List.drop_drop, Nat.add_comm, ← List.drop_drop] at hc
  exact List.mem_of_mem_drop hc

/-- A line within the limit gives at least one request however it is read. -/
theorem length_requests_first (hf : 0x0A ∉ f) (ht : Tail t) (hne : f ++ t ≠ [])
    (hle : (stripCr f).length ≤ kMaxLineBytes) :
    (requests t.tail).length + 1 ≤ (requests (f ++ t)).length := by
  induction hn : f.length using Nat.strongRecOn generalizing f with
  | ind n ih =>
    by_cases hfits : (f ++ t.take 1).length ≤ kMaxLineBytes + 2
    · rw [requests_whole hf ht hne hfits, first_request hle, List.length_cons]
    · have hlen : kMaxLineBytes + 2 ≤ f.length := by
        rw [List.length_append, List.length_take] at hfits
        omega
      have hcut : (stripCr (f.take (kMaxLineBytes + 2))).length ≤ kMaxLineBytes := by
        have := Cpp.stripCr_append_le (f.take (kMaxLineBytes + 2)) (f.drop (kMaxLineBytes + 2))
        rw [List.take_append_drop] at this
        omega
      have hnext := ih _ (by rw [List.length_drop]; omega)
        (fun h => hf (List.mem_of_mem_drop h)) (drop_append_ne_nil hfits) (stripCr_drop_le hle) rfl
      rw [requests_cut hf ht hlen, first_request hcut, List.length_cons]
      omega

theorem requests_ne_nil {s : List Nat} (h : s ≠ []) : requests s ≠ [] := by
  rw [requests, dif_neg h]
  dsimp only
  split <;> simp

@[simp] theorem requests_nil : requests [] = [] := by
  rw [requests, dif_pos rfl]

/-- Reading with a bound never takes fewer requests. -/
theorem length_nativeRequests_le (s : List Nat) :
    (nativeRequests s).length ≤ (requests s).length := by
  have hline {f t : List Nat} (hf : 0x0A ∉ f) (ht : Tail t) (hne : f ++ t ≠ [])
      (ih : (nativeRequests t.tail).length ≤ (requests t.tail).length) :
      (nativeRequests (f ++ t)).length ≤ (requests (f ++ t)).length := by
    rw [nativeRequests_first hf ht hne]
    by_cases hlong : kMaxLineBytes < (stripCr f).length
    · rw [first_tooLong hlong]
      exact List.length_pos_iff.mpr (requests_ne_nil hne)
    · have := length_requests_first hf ht hne (Nat.le_of_not_lt hlong)
      rw [first_request (Nat.le_of_not_lt hlong), List.length_cons]
      omega
  induction s using Framing.stream_induction 0x0A with
  | last s h =>
    by_cases hne : s = []
    · subst hne
      simp [nativeRequests, frames, Cpp.events]
    · have := hline h .ended (by simpa using hne) (by simp [nativeRequests, frames, Cpp.events])
      rwa [List.append_nil] at this
  | line f s h ih => exact hline h (.line s) (by simp) ih

/-- One line: the two sides go on alike unless it is cut. -/
theorem agree_first (hf : 0x0A ∉ f) (ht : Tail t) (hne : f ++ t ≠ []) :
    requests (f ++ t) = nativeRequests (f ++ t) ↔
      ¬ Cut (f ++ t.take 1) ∧ (kMaxLineBytes < (stripCr f).length ∨
        requests t.tail = nativeRequests t.tail) := by
  rw [nativeRequests_first hf ht hne]
  by_cases hfits : (f ++ t.take 1).length ≤ kMaxLineBytes + 2
  · have hcut : ¬ Cut (f ++ t.take 1) := fun h => absurd h.1 (Nat.not_lt.mpr hfits)
    rw [requests_whole hf ht hne hfits]
    by_cases hlong : kMaxLineBytes < (stripCr f).length
    · simp [first_tooLong hlong, hcut, hlong]
    · simp [first_request (Nat.le_of_not_lt hlong), hcut, hlong]
  · have hlen : kMaxLineBytes + 2 ≤ f.length := by
      rw [List.length_append, List.length_take] at hfits
      omega
    rw [cut_iff hlen (Nat.lt_of_not_le hfits), requests_cut hf ht hlen]
    have hprefix := Cpp.stripCr_append_le (f.take (kMaxLineBytes + 2)) (f.drop (kMaxLineBytes + 2))
    rw [List.take_append_drop] at hprefix
    by_cases hpart : kMaxLineBytes < (stripCr (f.take (kMaxLineBytes + 2))).length
    · have hlong : kMaxLineBytes < (stripCr f).length := by omega
      simp [first_tooLong hpart, first_tooLong hlong, hpart, hlong]
    · rw [first_request (Nat.le_of_not_lt hpart)]
      refine iff_of_false ?_ (fun h => h.1 (Nat.le_of_not_lt hpart))
      by_cases hlong : kMaxLineBytes < (stripCr f).length
      · simp [first_tooLong hlong]
      · -- the rest of the run is taken as further requests
        have hshort := Nat.le_of_not_lt hlong
        have hmore := length_requests_first (fun h => hf (List.mem_of_mem_drop h)) ht
          (drop_append_ne_nil hfits) (stripCr_drop_le hshort)
        have hfewer := length_nativeRequests_le t.tail
        rw [first_request hshort]
        intro h
        have hlengths := congrArg List.length (List.cons_eq_cons.mp h).2
        omega

/-- The same requests are taken from the streams in which no line is cut. -/
theorem requests_eq_iff (s : List Nat) : requests s = nativeRequests s ↔ ¬ SplitsCrRun s := by
  have hline {f t : List Nat} (hf : 0x0A ∉ f) (ht : Tail t) (hne : f ++ t ≠ [])
      (ih : requests t.tail = nativeRequests t.tail ↔ ¬ SplitsCrRun t.tail) :
      requests (f ++ t) = nativeRequests (f ++ t) ↔ ¬ SplitsCrRun (f ++ t) := by
    rw [agree_first hf ht hne, SplitsCrRun, lines_first hf ht hne, cutReached_cons,
      body_first hf ht, not_or, not_and, ih, SplitsCrRun, ← Nat.not_le]
    tauto
  have hnil : requests [] = nativeRequests [] ↔ ¬ SplitsCrRun [] := by
    rw [requests_nil]
    exact iff_of_true rfl cutReached_nil
  induction s using Framing.stream_induction 0x0A with
  | last s h =>
    by_cases hne : s = []
    · subst hne
      exact hnil
    · have := hline h .ended (by simpa using hne) hnil
      rwa [List.append_nil] at this
  | line f s h ih => exact hline h (.line s) (by simp) ih

/-- Over any chunking the native loop takes its requests from the stream. -/
theorem handleConnection_events {D : Type} (N : NativeDouble D) (faultAfter : Int32)
    (chunks : List (List Nat)) :
    (handleConnection (faultless N faultAfter) (chunks.map .data ++ [.closed])).log.events.map
        (Event.map Utf8.decodeReplace) =
      nativeRequests chunks.flatten := by
  have hS := Cpp.faultless_clean N faultAfter
  rw [Cpp.log_closed hS, (Cpp.serve_clean hS _ _).2]
  rfl

/-- Over any chunking of a stream, the two loops decode the same requests and refuse at the same
place exactly when no line of it is cut. -/
theorem framing_agrees_iff {F D : Type} (I : Interpreter F) (N : NativeDouble D)
    (faultAfter : Int32) (chunks : List (List Nat)) :
    (Simulator.handle I {} .start chunks.flatten).2.events =
        (handleConnection (faultless N faultAfter)
          (chunks.map .data ++ [.closed])).log.events.map (Event.map Utf8.decodeReplace) ↔
      ¬ SplitsCrRun chunks.flatten := by
  rw [handleConnection_events, Simulator.handle_events, ← requests_eq_iff]
  rfl

/-- A full-size payload that ends with two carriage returns is cut. -/
theorem splitsCrRun_payload {payload : List Nat} (hmem : 0x0A ∉ payload)
    (hlen : payload.length = kMaxLineBytes) :
    SplitsCrRun (payload ++ [0x0D, 0x0D] ++ [0x0A]) := by
  have hline : 0x0A ∉ payload ++ [0x0D, 0x0D] := by simpa using hmem
  refine ⟨[], _, [], Framing.lines_append_sep hline [], by simp, ?_, ?_, ?_⟩
  · simp only [List.length_append, hlen, List.length_cons, List.length_nil]
    omega
  · rw [List.append_assoc, List.getElem?_append_right (by omega), ← hlen, Nat.sub_self]
    rfl
  · rw [List.append_assoc, List.getElem?_append_right (by omega), ← hlen,
      Nat.add_sub_cancel_left]
    rfl

def crRunStream : List Nat := List.replicate kMaxLineBytes 0x61 ++ [0x0D, 0x0D] ++ [0x0A]

theorem splitsCrRun_crRunStream : SplitsCrRun crRunStream := by
  rw [crRunStream]
  exact splitsCrRun_payload (by simp) List.length_replicate

theorem disagree_of_splitsCrRun {F D : Type} (I : Interpreter F) (N : NativeDouble D)
    (faultAfter : Int32) {stream : List Nat} (h : SplitsCrRun stream) :
    (Simulator.handle I {} .start stream).2.events ≠
      (handleConnection (faultless N faultAfter)
        ((stream.map fun c => [c]).map .data ++ [.closed])).log.events.map
          (Event.map Utf8.decodeReplace) := by
  have hflat : (stream.map fun c => [c]).flatten = stream := by
    rw [← List.flatMap_def, List.flatMap_singleton']
  rw [handleConnection_events, hflat, Simulator.handle_events]
  exact fun heq => (requests_eq_iff stream).mp heq h

/-- Received byte by byte, that stream gives the Python handler one more request. -/
theorem cr_run_disagrees :
    (Simulator.handle sampleInterpreter {} .start crRunStream).2.events ≠
      (handleConnection (faultless Cpp.Sample.native 1)
        ((crRunStream.map fun c => [c]).map .data ++ [.closed])).log.events.map
          (Event.map Utf8.decodeReplace) :=
  disagree_of_splitsCrRun _ _ _ splitsCrRun_crRunStream

end Agreement

end Parity
