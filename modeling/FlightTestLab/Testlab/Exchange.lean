import FlightTestLab.Cpp.Replies
import FlightTestLab.Parity.Answers
import FlightTestLab.Python.RoundTrip
import FlightTestLab.Simulator.Handler
import FlightTestLab.Testlab.Client

/-!
# What the client gets from a DUT

`LabClient` with one of the two DUTs at the other end, neither with a fault: the message that a
caller sends, through the encoder, the wire, the DUT and back, is answered by the response of the
protocol to it.

## Main definitions

- `Testlab.Answers`: the DUT answers as the code of one of the two does
- `Testlab.response`: the response of the protocol to a message

## Main results

- `Testlab.request_answered`: what each call of a run comes to
-/

namespace Testlab

open Json (Text Tree Document ascii)
open Python (Value Error Decoder)
open Simulator (Interpreter maxNestingDepth maxLineBytes)
open Cpp (NativeDouble)

variable {F : Type}

/-- The response of the protocol to a message. -/
def response (message : Message F) : Value F :=
  if (Value.dict message).depth ≤ maxNestingDepth then Simulator.buildResponse (.dict message)
  else Simulator.invalidJson

/-- What the Python DUT writes for a line. -/
def pythonReply (I : Interpreter F) (line : List Nat) : List (List Nat) :=
  (Simulator.handleLine I {} .start (line ++ [newline])).2.written

/-- What the native DUT writes for a line. -/
def nativeReply (N : NativeDouble F) (line : List Nat) : List (List Nat) :=
  (Cpp.handleLine (Cpp.faultless N 0) Cpp.accepted.log line).2.sent

/-- The DUT that answers is one of the two, whichever the caller has started. -/
def Genuine (I : Interpreter F) (N : NativeDouble F) (a : Answer) : Prop :=
  let line := a.frame.map Sent.byte
  nativeReply N line = [a.text ++ [newline]] ∨ pythonReply I line = [a.text ++ [newline]]

def Answers (I : Interpreter F) (N : NativeDouble F) (s : State F) : Event F → Prop
  | .answer text => ∀ c ∈ s.connection, ∀ found ∈ Framing.first Sent.ends c.wire,
      Genuine I N ⟨found.1, text⟩
  | _ => True

instance (I : Interpreter F) (N : NativeDouble F) (a : Answer) : Decidable (Genuine I N a) :=
  inferInstanceAs (Decidable (_ ∨ _))

instance (I : Interpreter F) (N : NativeDouble F) (s : State F) :
    ∀ event, Decidable (Answers I N s event)
  | .answer _ => inferInstanceAs (Decidable (∀ c ∈ s.connection, ∀ found ∈ _, Genuine I N _))
  | .connect _ | .close | .request _ | .transmit _ | .sent | .sendFails | .hangUp | .readline
  | .timesOut | .undecodable _ => isTrue trivial

/-- The three programs read and write numbers alike, and the client's `json` is the default one. -/
structure Peers (D : Codec F) (I : Interpreter F) (N : NativeDouble F) : Prop where
  floats : D.floats = I.floats
  readsBack : ∀ x, I.floats.ReadsBack x
  agree : Parity.Agree N I.floats
  prints : Cpp.PrintsPlain N
  objectPairs : D.objectPairs = Python.dictOfPairs
  takes : ∀ i, I.decoder.Takes i → D.Takes i
  raises : D.RaisesValueError
  /-- the encoder writes what the DUTs read -/
  writes : ∀ v : Value F, v.Among I.decoder.Takes (fun _ => True) (fun _ => True) →
    v.depth ≤ maxNestingDepth → D.refuses v = none
  /-- the scanner gives up past the nesting that the DUTs allow, and that of a response around it -/
  overflows : ∀ t, D.overflows t = true → maxNestingDepth + 1 < t.depth
  deep : ∀ t, I.overflows t = true → maxNestingDepth < t.depth

/-- A message that the protocol has a line for: no integer has too many digits, no string has a
divided surrogate pair, and the line is not too long. -/
structure Sendable (D : Codec F) (I : Interpreter F) (message : Message F) : Prop where
  among : (Value.dict message).Among I.decoder.Takes (fun _ => True) Python.LoadableText
  length : (encoded D message).length ≤ maxLineBytes

section Reply

variable {D : Codec F} {I : Interpreter F} {N : NativeDouble F}

theorem payload_eq (hI : ∀ x, I.floats.ReadsBack x) (v : Value F) :
    Simulator.payload I v = Python.dumps I.floats v ++ [newline] := by
  rw [Simulator.payload]
  apply Utf8.encodeAll_ascii
  intro c hc
  obtain hc | hc := List.mem_append.mp hc
  · have := (Python.dumps_printable hI v c hc).2
    omega
  · rw [List.mem_singleton.mp hc]
    omega

/-- The encoder's text has no line break in it, before or after. -/
theorem dumps_line (hI : ∀ x, I.floats.ReadsBack x) (v : Value F) :
    newline ∉ Python.dumps I.floats v ∧
      (∀ c ∈ Python.dumps I.floats v, c < 0x80 ∧ Simulator.isCrLf c = false) := by
  have hprint := Python.dumps_printable hI v
  constructor
  · intro hmem
    have := (hprint newline hmem).1
    unfold newline at this
    omega
  · intro c hc
    have := hprint c hc
    refine ⟨by omega, ?_⟩
    simp only [Simulator.isCrLf, Bool.or_eq_false_iff, beq_eq_false_iff_ne]
    omega

theorem encoded_eq (hp : Peers D I N) (message : Message F) :
    encoded D message = Python.dumps I.floats (.dict message) := by
  rw [encoded, hp.floats]
  exact Utf8.encodeAll_ascii fun c hc => ((dumps_line hp.readsBack _).2 c hc).1

/-- The text of a value is a document of that value. -/
theorem exists_document (hp : Peers D I N) {v : Value F}
    (hv : v.Among I.decoder.Takes I.floats.ReadsBack Python.LoadableText) :
    ∃ t, Document t (Python.dumps I.floats v) ∧ t.Proper ∧
      Json.DigitsFit Simulator.maxIntDigits t.intTokens ∧ t.depth ≤ v.depth ∧
      t.liveDepth = v.depth ∧ Simulator.valueOf I.floats t = v.sorted := by
  obtain ⟨t, hderives, hbuild, hdepth⟩ := Python.spells_dumps (D := I.decoder) rfl hv
  have hdoc : Document t (Python.dumps I.floats v) := by
    have hderives := hderives []
    rw [List.append_nil] at hderives
    exact ⟨_, [], .nil, hderives, .nil⟩
  have hproper : t.Proper := hdoc.proper fun c hc => by
    have := ((dumps_line hp.readsBack v).2 c hc).1
    omega
  rw [Python.depth_sorted hv] at hdepth
  rw [Simulator.build_eq I t hproper] at hbuild
  split_ifs at hbuild with hdigits
  have hvalue : Simulator.valueOf I.floats t = v.sorted := Except.ok.inj hbuild
  refine ⟨t, hdoc, hproper, hdigits, hdepth, ?_, hvalue⟩
  rw [← Simulator.depth_valueOf I.floats t, hvalue, Python.depth_sorted hv]

/-- The Python DUT responds to the value, up to the nesting that the protocol allows. -/
theorem respond_dumps (hp : Peers D I N) {v : Value F}
    (hv : v.Among I.decoder.Takes I.floats.ReadsBack Python.LoadableText) :
    Simulator.respond I (Python.dumps I.floats v) =
      if v.depth ≤ maxNestingDepth then Simulator.buildResponse v.sorted
      else Simulator.invalidJson := by
  obtain ⟨t, hdoc, -, hdigits, hdepth, hlive, hvalue⟩ := exists_document hp hv
  have hlt (c : Nat) (hc : c ∈ Python.dumps I.floats v) : c < 0x110000 := by
    have := ((dumps_line hp.readsBack v).2 c hc).1
    omega
  rw [Simulator.respond]
  split_ifs with hle
  · have hover : I.overflows t = false := by
      rw [Bool.eq_false_iff]
      intro hover
      have := hp.deep t hover
      omega
    rw [(Simulator.decodeRequest_eq_iff I hlt v.sorted).mpr
      ⟨t, hdoc, hover, hdigits, by omega, hvalue.symm⟩]
    rfl
  · cases hdecode : Simulator.decodeRequest I (Python.dumps I.floats v) with
    | mk message decoded =>
      cases decoded with
      | false => rfl
      | true =>
        obtain ⟨t', hdoc', -, -, hlive', -⟩ :=
          (Simulator.decodeRequest_eq_iff I hlt message).mp hdecode
        rw [hdoc'.unique hdoc] at hlive'
        omega

theorem unicode_invalidJson : Parity.Unicode (Simulator.invalidJson : Value F) := by
  have hascii {s : Text} (h : ∀ c ∈ s, c < 0x80) : Parity.UnicodeText s :=
    fun c hc => (h c hc).trans (by omega)
  exact ⟨hascii (by decide), hascii (s := ascii "error") (by decide), hascii (by decide),
    hascii (s := ascii "INVALID_JSON") (by decide), trivial⟩

/-- The native DUT writes the same response. -/
theorem native_dumps (hp : Peers D I N) {v : Value F}
    (hv : v.Among I.decoder.Takes I.floats.ReadsBack Python.LoadableText) :
    Cpp.dumpValue N (Cpp.handleRequestLine N (Python.dumps I.floats v)) =
      Python.dumps I.floats (if v.depth ≤ maxNestingDepth then Simulator.buildResponse v.sorted
        else Simulator.invalidJson) := by
  obtain ⟨t, hdoc, hproper, hdigits, hdepth, hlive, hvalue⟩ := exists_document hp hv
  have hline : Utf8.decodeReplace (Python.dumps I.floats v) = Python.dumps I.floats v :=
    Utf8.decodeReplace_ascii fun c hc => ((dumps_line hp.readsBack v).2 c hc).1
  have hparse := Cpp.parse_eq_some_iff hp.agree.strtodReads (Python.dumps I.floats v)
  rw [hline] at hparse
  rw [Cpp.handleRequestLine]
  split_ifs with hle
  · have hunicode : Parity.Unicode (Simulator.valueOf I.floats t) :=
      Parity.unicode_valueOf t hproper
    rw [(hparse _).mpr ⟨t, hdoc, ⟨Nat.succ_le_succ (hdepth.trans hle), hdigits⟩, rfl⟩,
      Parity.ofTree_eq hp.agree t hproper]
    dsimp only
    rw [Parity.buildResponse_toNative hunicode,
      Parity.dumpValue_toNative hp.agree _ (Parity.unicode_buildResponse hunicode), hvalue]
    exact Utf8.encodeAll_ascii fun c hc => ((dumps_line hp.readsBack _).2 c hc).1
  · cases hread : Cpp.parse N (Python.dumps I.floats v) with
    | none =>
      have hnative : Parity.toNative (Simulator.invalidJson : Value F) =
          .object [(ascii "status", .string (ascii "error")),
            (ascii "error_code", .string (ascii "INVALID_JSON"))] := rfl
      dsimp only
      rw [← hnative, Parity.dumpValue_toNative hp.agree _ unicode_invalidJson]
      exact Utf8.encodeAll_ascii fun c hc => ((dumps_line hp.readsBack _).2 c hc).1
    | some w =>
      obtain ⟨t', hdoc', ⟨hdepth', -⟩, -⟩ := (hparse w).mp hread
      rw [hdoc'.unique hdoc] at hdepth'
      have := t.liveDepth_le_depth
      exact absurd hdepth' (by unfold Cpp.kMaxDepth; unfold maxNestingDepth at hle; omega)

theorem stripped {line : List Nat} (h : ∀ c ∈ line, c < 0x80 ∧ Simulator.isCrLf c = false) :
    (line ++ [newline]).rdropWhile Simulator.isCrLf = line := by
  rw [Framing.rdropWhile_append_of_forall (fun c hc => by rw [List.mem_singleton.mp hc]; rfl)]
  exact List.rdropWhile_eq_self_iff.mpr fun hne => by
    rw [(h _ (List.getLast_mem hne)).2]
    exact Bool.false_ne_true

/-- What the DUTs answer to the line of a message, before it is written. -/
def reply (message : Message F) : Value F :=
  if (Value.dict message).depth ≤ maxNestingDepth then
    Simulator.buildResponse (Value.dict message).sorted
  else Simulator.invalidJson

theorem Sendable.readsBack (hp : Peers D I N) {message : Message F} (hm : Sendable D I message) :
    (Value.dict message).Among I.decoder.Takes I.floats.ReadsBack Python.LoadableText :=
  hm.among.mono (fun _ h => h) (fun x _ => hp.readsBack x) fun _ h => h

theorem pythonReply_eq (hp : Peers D I N) {message : Message F} (hm : Sendable D I message) :
    pythonReply I (encoded D message) = [Python.dumps I.floats (reply message) ++ [newline]] := by
  have hlength := hm.length
  have hline := (dumps_line hp.readsBack (.dict message)).2
  rw [encoded_eq hp] at hlength ⊢
  rw [pythonReply, Simulator.handleLine_faultless, stripped hline, if_neg (Nat.not_lt.mpr hlength)]
  dsimp only
  rw [Utf8.decodeReplace_ascii fun c hc => (hline c hc).1, respond_dumps hp (hm.readsBack hp),
    payload_eq hp.readsBack]
  rfl

theorem nativeReply_eq (hp : Peers D I N) {message : Message F} (hm : Sendable D I message) :
    nativeReply N (encoded D message) = [Python.dumps I.floats (reply message) ++ [newline]] := by
  have hlength := hm.length
  have hline := (dumps_line hp.readsBack (.dict message)).2
  rw [encoded_eq hp] at hlength ⊢
  have hstrip : Cpp.stripCr (Python.dumps I.floats (.dict message)) =
      Python.dumps I.floats (.dict message) := by
    refine List.rdropWhile_eq_self_iff.mpr fun hne => ?_
    have := (hline _ (List.getLast_mem hne)).2
    simp only [Simulator.isCrLf, Bool.or_eq_false_iff] at this
    rw [this.1]
    exact Bool.false_ne_true
  have hfits : ¬ (Python.dumps I.floats (.dict message)).length > Cpp.kMaxLineBytes :=
    Nat.not_lt.mpr hlength
  rw [nativeReply, Cpp.handleLine_clean (Cpp.faultless_clean N 0), hstrip, if_neg hfits]
  show [Cpp.dumpValue N (Cpp.handleRequestLine N _) ++ [0x0A]] = _
  rw [native_dumps hp (hm.readsBack hp)]
  rfl

/-- Whichever DUT it is, it answers the line of a message with the same text. -/
theorem Genuine.text_eq (hp : Peers D I N) {message : Message F} (hm : Sendable D I message)
    {a : Answer} (ha : Genuine I N a) (hframe : a.frame.map Sent.byte = encoded D message) :
    a.text = Python.dumps I.floats (reply message) := by
  rw [Genuine, hframe, nativeReply_eq hp hm, pythonReply_eq hp hm, or_self] at ha
  exact (List.append_cancel_right (List.singleton_inj.mp ha)).symm

end Reply

section Responses

variable {D : Codec F} {I : Interpreter F} {N : NativeDouble F}

theorem isNone_sorted (v : Value F) : v.sorted.isNone = v.isNone := by
  cases v <;> rw [Value.sorted] <;> rfl

theorem eqStr_sorted (v : Value F) (text : Text) : v.sorted.eqStr text = v.eqStr text := by
  cases v <;> rw [Value.sorted] <;> rfl

variable {ints : Int → Prop} {floats : F → Prop} {texts : Text → Prop}

theorem among_get {items : List (Text × Value F)}
    (h : ∀ item ∈ items, item.2.Among ints floats texts) (key : Text) :
    (Value.get key items).Among ints floats texts := by
  rw [Value.get]
  cases hget : Assoc.get? key items with
  | none => exact .none
  | some v => exact h (key, v) (Assoc.mem_of_get? hget)

/-- The order of the keys in a message shows at most in the order of those in the response. -/
theorem sorted_buildResponse {items : List (Text × Value F)}
    (h : (Value.dict items).Among ints floats texts) :
    (Simulator.buildResponse (Value.dict items).sorted).sorted =
      (Simulator.buildResponse (.dict items)).sorted := by
  cases h with
  | dict hn _ hvalues =>
    have hget := Python.get_sorted hn
    have hsequence := Python.sorted_sorted (among_get hvalues (ascii "sequence"))
    have hcommand := Python.sorted_sorted (among_get hvalues (ascii "command"))
    rw [Python.sorted_dict, Simulator.buildResponse, Simulator.buildResponse, hget, hget,
      isNone_sorted, eqStr_sorted]
    split_ifs
    all_goals simp only [Value.sorted, Python.sortedItems, hsequence, hcommand]

/-- An object with the keys of the protocol. -/
theorem among_object {fields : List (Text × Value F)} (keys : List Text)
    (heq : fields.map Prod.fst = keys) (hkeys : keys.Nodup ∧ ∀ key ∈ keys, ∀ c ∈ key, c < 0x80)
    (h : ∀ field ∈ fields, field.2.Among ints floats Python.LoadableText) :
    (Value.dict fields).Among ints floats Python.LoadableText := by
  refine .dict (heq ▸ hkeys.1) (fun field hfield => ?_) h
  exact Python.loadable_ascii (hkeys.2 _ (heq ▸ List.mem_map_of_mem hfield))

theorem among_str {s : Text} (h : ∀ c ∈ s, c < 0x80) :
    (Value.str s : Value F).Among ints floats Python.LoadableText := .str (Python.loadable_ascii h)

/-- A response is made of what the message is made of, and of constants. -/
theorem among_buildResponse {items : List (Text × Value F)}
    (h : ∀ item ∈ items, item.2.Among ints floats Python.LoadableText) :
    (Simulator.buildResponse (.dict items)).Among ints floats Python.LoadableText := by
  have hsequence := among_get h (ascii "sequence")
  have hcommand := among_get h (ascii "command")
  rw [Simulator.buildResponse]
  split_ifs
  · refine among_object [ascii "status", ascii "error_code", ascii "sequence"] rfl (by decide) ?_
    simp only [List.forall_mem_cons]
    exact ⟨among_str (by decide), among_str (by decide), hsequence, List.forall_mem_nil _⟩
  · refine among_object [ascii "status", ascii "state", ascii "sequence"] rfl (by decide) ?_
    simp only [List.forall_mem_cons]
    exact ⟨among_str (by decide), among_str (by decide), hsequence, List.forall_mem_nil _⟩
  · refine among_object [ascii "status", ascii "error_code", ascii "command", ascii "sequence"] rfl
      (by decide) ?_
    simp only [List.forall_mem_cons]
    exact ⟨among_str (by decide), among_str (by decide), hcommand, hsequence,
      List.forall_mem_nil _⟩

theorem among_invalidJson :
    (Simulator.invalidJson : Value F).Among ints floats Python.LoadableText := by
  refine among_object [ascii "status", ascii "error_code"] rfl (by decide) ?_
  simp only [List.forall_mem_cons]
  exact ⟨among_str (by decide), among_str (by decide), List.forall_mem_nil _⟩

theorem depth_get (key : Text) (items : List (Text × Value F)) :
    (Value.get key items).depth ≤ (Value.dict items).depth := by
  rw [Value.get]
  cases hget : Assoc.get? key items with
  | none => exact (Value.dict items).depth_pos
  | some v =>
    have hitem := Value.depthItems_le_iff.mp (Nat.le_refl _) (key, v) (Assoc.mem_of_get? hget)
    rw [Option.getD_some, Value.depth]
    exact hitem.trans (Nat.le_add_left _ 1)

/-- A response nests at most one level deeper than the message. -/
theorem depth_buildResponse (items : List (Text × Value F)) :
    (Simulator.buildResponse (.dict items)).depth ≤ (Value.dict items).depth + 1 := by
  have hsequence := depth_get (ascii "sequence") items
  have hcommand := depth_get (ascii "command") items
  have hpos := (Value.dict items).depth_pos
  rw [Simulator.buildResponse]
  split_ifs
  all_goals
    simp only [Value.depth, Value.depthItems] at hsequence hcommand hpos ⊢
    omega

/-- What the client decodes from the text of a reply. -/
theorem loads_reply (hp : Peers D I N) {message : Message F} (hm : Sendable D I message) :
    Python.loads D.toDecoder (Python.dumps I.floats (reply message) ++ [newline]) =
      .ok (response message).sorted := by
  have hback : Json.Blank [newline] [] := .cons (.inr (.inr (.inl rfl))) .nil
  have hmessage := hm.readsBack hp
  have of {v : Value F} (hv : v.Among I.decoder.Takes I.floats.ReadsBack Python.LoadableText)
      (hdepth : v.depth ≤ maxNestingDepth + 1) :
      Python.loads D.toDecoder (Python.dumps I.floats v ++ [newline]) = .ok v.sorted := by
    rw [← hp.floats] at hv ⊢
    refine Python.loads_dumps hp.objectPairs (hv.mono hp.takes (fun _ h => h) fun _ h => h)
      (fun t ht => ?_) hback
    rw [Bool.eq_false_iff]
    intro hover
    have := hp.overflows t hover
    omega
  rw [reply, response]
  split_ifs with hdepth
  · rw [← sorted_buildResponse hmessage]
    have hsorted := hmessage.sorted
    have hsame := Python.depth_sorted hmessage
    rw [Python.sorted_dict] at hsorted hsame ⊢
    cases hsorted with
    | dict _ _ hvalues =>
      have hnest := depth_buildResponse ((message.insertionSort Python.keyLe).map
        (Prod.map id Value.sorted))
      exact of (among_buildResponse hvalues) (by omega)
  · have hnest : (Simulator.invalidJson : Value F).depth = 2 := rfl
    exact of among_invalidJson (by rw [hnest]; decide)

end Responses

section Serving

variable {D : Codec F} {I : Interpreter F} {N : NativeDouble F}

/-- What a DUT writes is ASCII. -/
theorem Genuine.ascii (hp : Peers D I N) {a : Answer} (ha : Genuine I N a) :
    ∀ b ∈ a.text, b < 0x80 := by
  have of {payload : List Nat} (h : Cpp.OneFrame payload)
      (heq : [payload] = [a.text ++ [newline]]) : ∀ b ∈ a.text, b < 0x80 := by
    obtain ⟨body, rfl, hbody⟩ := h
    intro b hb
    rw [← List.append_cancel_right (List.singleton_inj.mp heq)] at hb
    have := (hbody b hb).2
    omega
  have hpython (v : Value F) : Cpp.OneFrame (Simulator.payload I v) :=
    ⟨_, payload_eq hp.readsBack v, Python.dumps_printable hp.readsBack v⟩
  obtain ha | ha := ha
  · rw [nativeReply, Cpp.handleLine_clean (Cpp.faultless_clean N 0)] at ha
    split_ifs at ha
    · rw [Cpp.refuse_clean (Cpp.faultless_clean N 0)] at ha
      exact of Cpp.oneFrame_invalidJsonLine ha
    · exact of (Cpp.oneFrame_reply hp.agree.strtodReads hp.prints _) ha
  · rw [pythonReply, Simulator.handleLine_faultless] at ha
    split_ifs at ha
    · exact of (hpython _) ha
    · exact of (hpython _) ha

variable (D I N)

/-- What a call comes to: a payload for a message that the protocol has a line for, and no
exception that is not caught but the one of the encoder. -/
structure Result.Served (r : Result F) : Prop where
  sendable : ∀ payload line, r.outcome = .returned payload line → Sendable D I r.call.message
  caught : ∀ e, r.outcome = .escaped e → D.refuses (.dict r.call.message) = some e

/-- What the DUT has answered is its own. -/
structure State.Served (s : State F) : Prop where
  current : ∀ call rest, s.phase.current = some (call, rest) → Sendable D I call.message
  results : ∀ r ∈ s.results, r.Served D I
  answered : ∀ a ∈ s.answered, Genuine I N a
  incoming : ∀ c ∈ s.connection, ∀ h ∈ c.incoming, h.byte < 0x80

variable {D I N} {s : State F}

theorem start_served : ({} : State F).Served D I N where
  current := by simp [Phase.current]
  results := by simp
  answered := by simp
  incoming := by simp

/-- A call that ends. -/
theorem served_finish {call : Call F} {outcome : Outcome F}
    (hr : Result.Served D I ⟨call, outcome⟩) (hresults : ∀ r ∈ s.results, r.Served D I)
    (hanswered : ∀ a ∈ s.answered, Genuine I N a)
    (hincoming : ∀ c ∈ s.connection, ∀ h ∈ c.incoming, h.byte < 0x80) :
    (s.finish call outcome).Served D I N where
  current := by simp [State.finish, Phase.current]
  results := List.forall_mem_append.mpr ⟨hresults, by rwa [List.forall_mem_singleton]⟩
  answered := hanswered
  incoming := hincoming

theorem served_communicationError (call : Call F) :
    Result.Served D I ⟨call, .communicationError⟩ := ⟨by simp, by simp⟩

theorem connect_served (h : s.Served D I N) (accepted : Bool) :
    (s.connect accepted).Served D I N := by
  rw [State.connect]
  split
  · next hphase _ =>
    refine ⟨by simp [hphase, Phase.current], h.results, h.answered, ?_⟩
    cases accepted
    · simp
    · simp
  · exact h

theorem close_served (h : s.Served D I N) : s.close.Served D I N := by
  rw [State.close]
  split
  · next hphase => exact ⟨by simp [hphase, Phase.current], h.results, h.answered, by simp⟩
  · exact h

theorem request_served (h : s.Served D I N) {message : Message F}
    (hmessage : D.refuses (.dict message) = none → Sendable D I message) :
    (s.request D message).Served D I N := by
  rw [State.request]
  split
  · split
    · exact served_finish (served_communicationError _) h.results h.answered h.incoming
    · dsimp only
      split
      · next e hrefuses =>
        refine served_finish ⟨by simp, ?_⟩ h.results h.answered h.incoming
        rintro _ ⟨⟩
        exact hrefuses
      · next hwrites =>
        refine ⟨?_, h.results, h.answered, h.incoming⟩
        rintro call rest ⟨⟩
        exact hmessage hwrites
  · exact h

theorem transmit_served (h : s.Served D I N) (n : Nat) : (s.transmit n).Served D I N := by
  rw [State.transmit]
  split
  · next call rest c hphase hconnection =>
    refine ⟨?_, h.results, h.answered, ?_⟩
    · rintro call' rest' ⟨⟩
      exact h.current call rest (by rw [hphase]; rfl)
    · rintro c' ⟨⟩
      exact h.incoming c hconnection
  · exact h

theorem sent_served (h : s.Served D I N) : s.sent.Served D I N := by
  rw [State.sent]
  split
  · next call hphase =>
    refine ⟨?_, h.results, h.answered, h.incoming⟩
    rintro call' rest' ⟨⟩
    exact h.current call [] (by rw [hphase]; rfl)
  · exact h

theorem sendFails_served (h : s.Served D I N) : s.sendFails.Served D I N := by
  rw [State.sendFails]
  split
  · next call rest hphase =>
    exact served_finish (served_communicationError call) h.results h.answered h.incoming
  · exact h

theorem hangUp_served (h : s.Served D I N) : s.hangUp.Served D I N := by
  refine ⟨h.current, h.results, h.answered, ?_⟩
  intro c hc
  obtain ⟨c, hconnection, rfl⟩ := Option.map_eq_some_iff.mp hc
  exact h.incoming c hconnection

theorem answer_served (hp : Peers D I N) (h : s.Served D I N) {text : List Nat}
    (hanswers : Answers I N s (.answer text)) : (s.answer text).Served D I N := by
  rw [State.answer]
  split
  · exact h
  next c hconnection =>
  split
  · exact h
  split
  · exact h
  next frame terminator rest hfirst =>
  have hgenuine := hanswers c hconnection (frame, terminator, rest) hfirst
  refine ⟨h.current, h.results, ?_, ?_⟩
  · refine List.forall_mem_append.mpr ⟨h.answered, ?_⟩
    rw [List.forall_mem_singleton]
    exact hgenuine
  · rintro c' ⟨⟩
    refine List.forall_mem_append.mpr ⟨h.incoming c hconnection, ?_⟩
    intro heard hheard
    obtain ⟨byte, hbyte, rfl⟩ := List.mem_map.mp hheard
    obtain hbyte | hbyte := List.mem_append.mp hbyte
    · exact hgenuine.ascii hp byte hbyte
    · rw [List.mem_singleton.mp hbyte]
      show newline < 0x80
      decide

/-- Every line of a DUT comes to a payload or to a `LabCommunicationError`. -/
theorem outcomeOf_caught (hp : Peers D I N) (line : List Heard) (text : Text) (e : Error) :
    outcomeOf D line text ≠ .escaped e := by
  rw [outcomeOf]
  cases hloads : Python.loads D.toDecoder (text ++ [newline]) with
  | ok v => cases v <;> simp
  | error e' =>
    obtain rfl | rfl := Python.loads_error hp.raises hloads
    · simp
    · simp

theorem readline_served (hp : Peers D I N) (h : s.Served D I N) :
    (s.readline D).Served D I N := by
  rw [State.readline]
  split
  · next call c hphase hconnection =>
    have hcall := h.current call [] (by rw [hphase]; rfl)
    split
    · exact served_finish (served_communicationError call) h.results h.answered h.incoming
    split
    · split
      · exact served_finish (served_communicationError call) h.results h.answered h.incoming
      · exact h
    · next text terminator rest hfirst =>
      split
      · exact h
      · refine served_finish ⟨fun _ _ _ => hcall, fun e he => ?_⟩ h.results h.answered ?_
        · exact absurd he (outcomeOf_caught hp _ _ e)
        rintro c' ⟨⟩ heard hheard
        refine h.incoming c hconnection heard ?_
        rw [(Framing.first_eq_some_iff.mp hfirst).1]
        exact List.mem_append_right _ (List.mem_cons_of_mem _ hheard)
  · exact h

theorem timesOut_served (h : s.Served D I N) : s.timesOut.Served D I N := by
  rw [State.timesOut]
  split
  · next call c hphase hconnection =>
    refine served_finish (served_communicationError call) h.results h.answered ?_
    rintro c' ⟨⟩
    exact h.incoming c hconnection
  · exact h

/-- ASCII decodes. -/
theorem undecodable_served (h : s.Served D I N) (n : Nat) : (s.undecodable n).Served D I N := by
  rw [State.undecodable]
  split
  · next call c hphase hconnection =>
    have hdecodes : (Utf8.decodeStrict (c.incoming.map Heard.byte)).isSome := by
      rw [Utf8.decodeStrict_ascii (List.forall_mem_map.mpr (h.incoming c hconnection))]
      rfl
    rw [if_pos (.inr hdecodes)]
    exact h
  · exact h

theorem step_served (hp : Peers D I N) (h : s.Served D I N) (e : Event F)
    (he : ∀ message, e = .request message → D.refuses (.dict message) = none →
      Sendable D I message) (hanswers : Answers I N s e) :
    (step D s e).Served D I N := by
  cases e with
  | connect accepted => exact connect_served h accepted
  | close => exact close_served h
  | request message => exact request_served h (he message rfl)
  | transmit n => exact transmit_served h n
  | sent => exact sent_served h
  | sendFails => exact sendFails_served h
  | answer text => exact answer_served hp h hanswers
  | hangUp => exact hangUp_served h
  | readline => exact readline_served hp h
  | timesOut => exact timesOut_served h
  | undecodable n => exact undecodable_served h n

theorem run_served (hp : Peers D I N) {es : List (Event F)}
    (hes : ∀ message, Event.request message ∈ es → D.refuses (.dict message) = none →
      Sendable D I message)
    (hanswers : Runs.Along (step D) (Answers I N) {} es) :
    (Runs.run (step D) {} es).Served D I N := by
  have hrequests : Runs.Along (step D)
      (fun _ e => ∀ message, e = Event.request message → D.refuses (.dict message) = none →
        Sendable D I message) {} es :=
    Runs.Along.of_forall fun e he message hmessage => hes message (hmessage ▸ he)
  exact (hrequests.and hanswers).invariant start_served fun _ e he h =>
    step_served hp h e he.1 he.2

theorem newline_not_mem_encoded (hp : Peers D I N) (message : Message F) :
    newline ∉ encoded D message := by
  rw [encoded_eq hp]
  exact (dumps_line hp.readsBack _).1

/-- A response repeats the sequence of its message. -/
theorem get_sequence {message payload : Message F}
    (hdepth : (Value.dict message).depth ≤ maxNestingDepth)
    (hpayload : .dict payload = (response message).sorted) :
    Value.get (ascii "sequence") payload = (Value.get (ascii "sequence") message).sorted := by
  rw [response, if_pos hdepth] at hpayload
  have of {fields : List (Text × Value F)} (keys : List Text) (heq : fields.map Prod.fst = keys)
      (hkeys : keys.Nodup) (hfields : .dict payload = (Value.dict fields).sorted)
      (hget : Value.get (ascii "sequence") fields = Value.get (ascii "sequence") message) :
      Value.get (ascii "sequence") payload = (Value.get (ascii "sequence") message).sorted := by
    rw [Python.sorted_dict] at hfields
    rw [Value.dict.inj hfields, Python.get_sorted (heq ▸ hkeys), hget]
  rw [Simulator.buildResponse] at hpayload
  split_ifs at hpayload
  · exact of [ascii "status", ascii "error_code", ascii "sequence"] rfl (by decide) hpayload rfl
  · exact of [ascii "status", ascii "state", ascii "sequence"] rfl (by decide) hpayload rfl
  · exact of [ascii "status", ascii "error_code", ascii "command", ascii "sequence"] rfl (by decide)
      hpayload rfl

/-- A paired payload is the response of the protocol to the message of the call. -/
theorem payload_of_paired (hp : Peers D I N) {answered : List Answer}
    (hanswered : ∀ a ∈ answered, Genuine I N a) {call : Call F}
    (hcall : Sendable D I call.message) {payload : Message F} {line : List Heard}
    (h : Paired D answered call payload line) :
    .dict payload = (response call.message).sorted := by
  obtain ⟨a, ha, hframe, -, text, hdecode, hloads⟩ := h
  have hline : a.frame.map Sent.byte = encoded D call.message := by
    rw [hframe, Call.frame, List.map_map]
    exact List.map_id _
  have htext := (hanswered a ha).text_eq hp hcall hline
  rw [Utf8.decodeStrict_ascii ((hanswered a ha).ascii hp)] at hdecode
  rw [← Option.some.inj hdecode, htext, loads_reply hp hcall] at hloads
  exact (Except.ok.inj hloads).symm

/-- Whatever a caller asks of a DUT without faults, in whatever order and with whatever timeouts
and reconnections in between, as long as each message that the encoder writes is one that the
protocol has a line for: a call returns or raises `LabCommunicationError`, unless `json.dumps` itself
raises on its message; and what it returns, on a connection that it found quiet, is the response of
the protocol to its own message, with the sequence that the message has. -/
theorem request_answered (hp : Peers D I N) {es : List (Event F)}
    (hes : ∀ message, Event.request message ∈ es → D.refuses (.dict message) = none →
      Sendable D I message)
    (hanswers : Runs.Along (step D) (Answers I N) {} es) :
    ∀ r ∈ (Runs.run (step D) {} es).results,
      (∀ e, r.outcome = .escaped e → D.refuses (.dict r.call.message) = some e) ∧
      ∀ payload line, r.outcome = .returned payload line → r.call.quiet = true →
        .dict payload = (response r.call.message).sorted ∧
        ((Value.dict r.call.message).depth ≤ maxNestingDepth →
          Value.get (ascii "sequence") payload =
            (Value.get (ascii "sequence") r.call.message).sorted) := by
  have hserved := run_served hp hes hanswers
  have htracked : (Runs.run (step D) {} es).Tracked D :=
    run_tracked fun message _ => newline_not_mem_encoded hp message
  intro r hr
  have hresult := hserved.results r hr
  refine ⟨hresult.caught, fun payload line houtcome hquiet => ?_⟩
  have hpaired := (htracked.results r hr payload line houtcome).1 hquiet
  have hpayload := payload_of_paired hp hserved.answered (hresult.sendable payload line houtcome)
    hpaired
  exact ⟨hpayload, fun hdepth => get_sequence hdepth hpayload⟩

end Serving

section Sample

open Cpp (Single)

/-- The doubles of which one is finite, as the interpreter sees them. -/
def singleFloats : Python.FloatOps Single where
  nan := .nan
  inf := .inf
  parse _ := .one
  isNan x := x == .nan
  isInf
    | .inf neg => some neg
    | _ => none
  repr _ := ascii "1.0"
  eqInt x i := x == .one && i == 1

def singleInterpreter : Interpreter Single where
  floats := singleFloats
  overflows t := 1000 < t.depth

theorem single_readsBack (x : Single) : singleFloats.ReadsBack x := by
  cases x with
  | nan => rfl
  | inf neg => rfl
  | one =>
    refine ⟨⟨[], [0x31], [0x2E, 0x30], [], rfl, .inl rfl, .inr ⟨⟨by simp, by decide⟩, by decide⟩,
      .inr ⟨[0x30], rfl, by simp, by decide⟩, .inl rfl, by simp⟩, rfl⟩

theorem single_agree : Parity.Agree Single.native singleFloats where
  quietNan := rfl
  infinity := rfl
  negInfinity := rfl
  strtod _ _ := rfl
  isnan _ := rfl
  isinf x _ := by
    cases x with
    | inf neg => cases neg <;> rfl
    | nan | one => rfl
  positive x neg _ h := by
    cases x with
    | inf neg' =>
      cases h
      cases neg <;> rfl
    | nan | one => cases h
  format x hnan hinf := by
    cases x with
    | one => decide +kernel
    | nan => cases hnan
    | inf neg => cases hinf

theorem single_overflows (t : Tree) :
    singleInterpreter.overflows t = true ↔ 1000 < t.depth := decide_eq_true_iff

/-- The same for the client, with an encoder that nests 150 levels deep. -/
def singleCodec : Codec Single where
  toDecoder := singleInterpreter.decoder
  refuses v := if 150 < v.depth then some .recursionError else none

theorem single_peers : Peers singleCodec singleInterpreter Single.native where
  floats := rfl
  readsBack := single_readsBack
  agree := single_agree
  prints := Single.printsPlain
  objectPairs := rfl
  takes _ h := h
  raises := by
    refine ⟨fun token e h => ?_, fun pairs e h => ?_⟩
    · have h : Simulator.parseInt token = .error e := h
      rw [Simulator.parseInt] at h
      split_ifs at h
      exact (Except.error.inj h).symm
    · cases h
  writes v _ hdepth := if_neg (Nat.not_lt.mpr (hdepth.trans (by decide)))
  overflows t h := lt_trans (by decide) ((single_overflows t).mp h)
  deep t h := lt_trans (by decide) ((single_overflows t).mp h)

/-- A status request, with a float for its sequence. -/
def statusMessage : Message Single :=
  [(ascii "sequence", .float .one), (ascii "command", .str (ascii "status"))]

theorem statusMessage_sendable :
    Sendable singleCodec singleInterpreter statusMessage where
  among := by
    refine among_object [ascii "sequence", ascii "command"] rfl (by decide) ?_
    simp only [statusMessage, List.forall_mem_cons]
    exact ⟨.float trivial, among_str (by decide), List.forall_mem_nil _⟩
  length := by decide +kernel

/-- A message of 200 nested lists. -/
def deepMessage : Message Single :=
  [(ascii "command", (fun v => .list [v])^[200] .none)]

/-- The first call times out; the second one, on a new connection, is answered. The third one raises
before it sends anything. -/
def exchangeRun : List (Event Single) :=
  [.connect true, .request statusMessage, .transmit 40, .sent, .timesOut, .close, .connect true,
    .request statusMessage, .transmit 30, .transmit 20, .sent,
    .answer (ascii "\x7b\"sequence\": 1.0, \"state\": \"READY\", \"status\": \"ok\"\x7d"),
    .readline, .request deepMessage]

theorem exchangeRun_sendable (message : Message Single)
    (h : Event.request message ∈ exchangeRun)
    (hwrites : singleCodec.refuses (.dict message) = none) :
    Sendable singleCodec singleInterpreter message := by
  simp only [exchangeRun, List.mem_cons, reduceCtorEq, Event.request.injEq, List.not_mem_nil,
    or_false, false_or] at h
  obtain rfl | rfl | rfl := h
  · exact statusMessage_sendable
  · exact statusMessage_sendable
  · have hdeep : (singleCodec.refuses (.dict deepMessage)).isSome = true := by decide +kernel
    rw [hwrites] at hdeep
    cases hdeep

theorem exchangeRun_answers :
    Runs.Along (step singleCodec) (Answers singleInterpreter Single.native) {} exchangeRun := by
  decide +kernel

theorem request_answered_sample :
    (Runs.run (step singleCodec) {} exchangeRun).results.length = 3 ∧
    ∀ r ∈ (Runs.run (step singleCodec) {} exchangeRun).results,
      (∀ e, r.outcome = .escaped e → singleCodec.refuses (.dict r.call.message) = some e) ∧
      ∀ payload line, r.outcome = .returned payload line → r.call.quiet = true →
        .dict payload = (response r.call.message).sorted ∧
        ((Value.dict r.call.message).depth ≤ maxNestingDepth →
          Value.get (ascii "sequence") payload =
            (Value.get (ascii "sequence") r.call.message).sorted) :=
  ⟨by decide +kernel, request_answered single_peers exchangeRun_sendable exchangeRun_answers⟩

end Sample

end Testlab
