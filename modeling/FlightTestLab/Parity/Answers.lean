import FlightTestLab.Cpp.Dumping
import FlightTestLab.Cpp.Protocol
import FlightTestLab.Parity.Acceptance

/-!
# What the two DUTs answer

A decoded Python value has a counterpart on the native side: strings encoded, small
integers as `int64_t`, large ones as their text. Parsing, the response shapes and
printing commute with this translation.

## Main definitions

- `Parity.toNative`: the native counterpart of a decoded value

## Main results

- `Parity.ofTree_eq`: the native parser builds the counterpart of the decoded value
- `Parity.dumpValue_toNative`: the serialisers write the same bytes
- `Parity.answers_agree`: the replies to a line both sides accept
-/

namespace Parity

open Json (Text Tree Item Document ascii decodeItems)
open Cpp (NativeDouble)
open Python (FloatOps)
open Utf8 (encodeAll decodeReplace decodeReplace_lt)

variable {D : Type}

/-- An integer as the native parser stores it. -/
def nativeInt (i : Int) : Cpp.Value D :=
  if i < -2 ^ 63 ∨ 2 ^ 63 ≤ i then .raw (Json.decimal i) else .int (Int64.ofInt i)

mutual
/-- The native counterpart of a decoded value. -/
def toNative : Python.Value D → Cpp.Value D
  | .none => .null
  | .bool b => .bool b
  | .int i => nativeInt i
  | .float x => .double x
  | .str s => .string (encodeAll s)
  | .list vs => .array (toNativeElements vs)
  | .dict items => .object (toNativeItems items)
/-- The counterparts of list elements. -/
def toNativeElements : List (Python.Value D) → List (Cpp.Value D)
  | [] => []
  | v :: vs => toNative v :: toNativeElements vs
/-- The counterparts of `dict` items. -/
def toNativeItems : List (Text × Python.Value D) → List (Cpp.Bytes × Cpp.Value D)
  | [] => []
  | (k, v) :: items => (encodeAll k, toNative v) :: toNativeItems items
end

theorem toNativeItems_eq (items : List (Text × Python.Value D)) :
    toNativeItems items = items.map (Prod.map encodeAll toNative) := by
  induction items with
  | nil => rfl
  | cons item items ih => rw [toNativeItems, ih, List.map_cons]; rfl

/-- Every code point of a text is below the end of Unicode. -/
def UnicodeText (s : Text) : Prop := ∀ c ∈ s, c < 0x110000

mutual
/-- Every string in a value is Unicode. -/
def Unicode : Python.Value D → Prop
  | .str s => UnicodeText s
  | .list vs => UnicodeElements vs
  | .dict items => UnicodeItems items
  | _ => True
/-- Every list element is Unicode. -/
def UnicodeElements : List (Python.Value D) → Prop
  | [] => True
  | v :: vs => Unicode v ∧ UnicodeElements vs
/-- Every `dict` item is Unicode. -/
def UnicodeItems : List (Text × Python.Value D) → Prop
  | [] => True
  | (k, v) :: items => UnicodeText k ∧ Unicode v ∧ UnicodeItems items
end

theorem unicodeItems_iff {items : List (Text × Python.Value D)} :
    UnicodeItems items ↔ ∀ item ∈ items, UnicodeText item.1 ∧ Unicode item.2 := by
  induction items with
  | nil => simp [UnicodeItems]
  | cons item items ih =>
    rw [UnicodeItems, ih, List.forall_mem_cons]
    tauto

section Parsing

variable {N : NativeDouble D} {fl : FloatOps D}

theorem intValue_eq {tok : Text} (h : Json.IsIntToken tok) :
    (Cpp.intValue tok : Cpp.Value D) = nativeInt (Json.ofToken tok) := by
  unfold Cpp.intValue nativeInt
  by_cases hr : Json.ofToken tok < -2 ^ 63 ∨ 2 ^ 63 ≤ Json.ofToken tok
  · rw [if_pos hr, if_pos hr, Json.decimal_ofToken h]
    rintro rfl
    exact absurd hr (by decide)
  · rw [if_neg hr, if_neg hr]

mutual
theorem unicode_valueOf : ∀ t : Tree, t.Proper → Unicode (Simulator.valueOf fl t)
  | .str _, h => Json.decodeItems_lt h
  | .arr ts, h => unicodeElements_elementsOf ts h
  | .obj ms, h => by
    rw [Simulator.valueOf, Unicode, unicodeItems_iff]
    intro item hi
    exact unicodeItems_iff.mp (unicodeItems_membersOf ms h) item
      (Assoc.mem_of_last? (Assoc.mem_ofPairs.mp hi))
  | .null, _ | .bool _, _ | .nan, _ | .inf _, _ | .int _, _ | .float _, _ => trivial
theorem unicodeElements_elementsOf :
    ∀ ts : List Tree, Tree.ProperElements ts → UnicodeElements (Simulator.elementsOf fl ts)
  | [], _ => trivial
  | t :: ts, h => ⟨unicode_valueOf t h.1, unicodeElements_elementsOf ts h.2⟩
theorem unicodeItems_membersOf : ∀ ms : List (List Item × Tree), Tree.ProperMembers ms →
    UnicodeItems (Simulator.membersOf fl ms)
  | [], _ => trivial
  | (_, t) :: ms, h =>
    ⟨Json.decodeItems_lt h.1, unicode_valueOf t h.2.1, unicodeItems_membersOf ms h.2.2⟩
end

mutual
/-- The native parser builds the counterpart of the decoded value. -/
theorem ofTree_eq (h : Agree N fl) :
    ∀ t : Tree, t.Proper → Cpp.ofTree N t = toNative (Simulator.valueOf fl t)
  | .nan, _ => congrArg Cpp.Value.double h.quietNan
  | .inf false, _ => congrArg Cpp.Value.double h.infinity
  | .inf true, _ => congrArg Cpp.Value.double h.negInfinity
  | .int _, ht => intValue_eq ht
  | .float tok, ht => by
    rw [Cpp.ofTree, h.strtod tok ht]
    rfl
  | .arr ts, ht => by
    rw [Cpp.ofTree, ofElements_eq h ts ht]
    rfl
  | .obj ms, ht => by
    have hu : ∀ item ∈ Simulator.membersOf fl ms, UnicodeText item.1 ∧ Unicode item.2 :=
      unicodeItems_iff.mp (unicodeItems_membersOf ms ht)
    rw [Cpp.ofTree, ofMembers_eq h ms ht, toNativeItems_eq, ← Assoc.map_ofPairs, ← toNativeItems_eq]
    · rfl
    · intro a ha b hb he
      obtain ⟨item, hi, rfl⟩ := List.mem_map.mp ha
      obtain ⟨item', hi', rfl⟩ := List.mem_map.mp hb
      exact Utf8.encodeAll_injective (hu item hi).1 (hu item' hi').1 he
  | .null, _ | .bool _, _ | .str _, _ => rfl
theorem ofElements_eq (h : Agree N fl) : ∀ ts : List Tree, Tree.ProperElements ts →
    Cpp.ofElements N ts = toNativeElements (Simulator.elementsOf fl ts)
  | [], _ => rfl
  | t :: ts, ht => by
    rw [Cpp.ofElements, ofTree_eq h t ht.1, ofElements_eq h ts ht.2]
    rfl
theorem ofMembers_eq (h : Agree N fl) : ∀ ms : List (List Item × Tree), Tree.ProperMembers ms →
    Cpp.ofMembers N ms = toNativeItems (Simulator.membersOf fl ms)
  | [], _ => rfl
  | (_, t) :: ms, ht => by
    rw [Cpp.ofMembers, ofTree_eq h t ht.2.1, ofMembers_eq h ms ht.2.2]
    rfl
end

end Parsing

/-- The strings of the protocol and the keywords are their own encoding. -/
private def constants : List String :=
  ["status", "error", "error_code", "INVALID_MESSAGE_TYPE", "message",
    "Request must be a JSON object", "MISSING_COMMAND", "sequence", "ok", "state", "READY",
    "UNSUPPORTED_COMMAND", "command", "INVALID_JSON", "null", "true", "false", "NaN", "Infinity",
    "-Infinity", ", ", ": "]

private theorem constants_ascii : ∀ s ∈ constants, ∀ c ∈ ascii s, c < 0x80 := by
  decide +kernel

private theorem encodeAll_constant {s : String} (h : s ∈ constants) :
    encodeAll (ascii s) = ascii s := Utf8.encodeAll_ascii (constants_ascii s h)

private theorem unicode_constant {s : String} (h : s ∈ constants) : UnicodeText (ascii s) :=
  fun c hc => by have := constants_ascii s h c hc; omega

section Responding

theorem isNull_toNative (v : Python.Value D) : (toNative v).isNull = v.isNone := by
  cases v with
  | int i =>
    rw [toNative, nativeInt]
    split <;> rfl
  | _ => rfl

theorem isText_toNative {v : Python.Value D} (hv : Unicode v) (text : Text)
    (ht : ∀ c ∈ text, c < 0x80) : (toNative v).isText text = v.eqStr text := by
  cases v with
  | int i =>
    rw [toNative, nativeInt]
    split <;> rfl
  | str s =>
    have hinj : encodeAll s = text ↔ s = text := by
      constructor
      · intro h
        rw [← Utf8.encodeAll_ascii ht] at h
        exact Utf8.encodeAll_injective hv (fun c hc => by have := ht c hc; omega) h
      · rintro rfl
        exact Utf8.encodeAll_ascii ht
    simp only [toNative, Cpp.Value.isText, Python.Value.eqStr]
    rw [Bool.eq_iff_iff, beq_iff_eq, beq_iff_eq, hinj]
  | _ => rfl

theorem find_toNative {items : List (Text × Python.Value D)} (h : UnicodeItems items) {key : Text}
    (hk : ∀ c ∈ key, c < 0x80) :
    (toNative (.dict items)).find key = (Assoc.get? key items).map toNative := by
  rw [toNative, Cpp.Value.find, toNativeItems_eq]
  conv_lhs => rw [← Utf8.encodeAll_ascii hk]
  refine Assoc.get?_map key items fun a ha he => ?_
  obtain ⟨item, hi, rfl⟩ := List.mem_map.mp ha
  exact Utf8.encodeAll_injective (unicodeItems_iff.mp h item hi).1
    (fun c hc => by have := hk c hc; omega) he

theorem sequenceOf_toNative {items : List (Text × Python.Value D)} (h : UnicodeItems items) :
    Cpp.sequenceOf (toNative (.dict items)) =
      toNative (Python.Value.get (ascii "sequence") items) := by
  rw [Cpp.sequenceOf, find_toNative h (by decide), Python.Value.get]
  cases Assoc.get? (ascii "sequence") items <;> rfl

theorem unicode_get {items : List (Text × Python.Value D)} (h : UnicodeItems items) (key : Text) :
    Unicode (Python.Value.get key items) := by
  rw [Python.Value.get]
  cases hg : Assoc.get? key items with
  | none => trivial
  | some v => exact (unicodeItems_iff.mp h _ (Assoc.mem_of_get? hg)).2

/-- The response shapes commute with the translation. -/
theorem buildResponse_toNative {message : Python.Value D} (h : Unicode message) :
    Cpp.buildResponse (toNative message) = toNative (Simulator.buildResponse message) := by
  have hconst : ∀ s ∈ constants, encodeAll (ascii s) = ascii s := fun s => encodeAll_constant
  simp only [constants, List.forall_mem_cons, List.not_mem_nil, false_implies, implies_true,
    and_true] at hconst
  have hshape (hn : ∀ items, message ≠ .dict items) (ho : (toNative message).isObject = false) :
      Cpp.buildResponse (toNative message) = toNative (Simulator.buildResponse message) := by
    rw [Cpp.buildResponse, ho, if_pos (by rfl), Simulator.buildResponse.eq_def]
    split
    · next items => exact absurd rfl (hn items)
    · simp [toNative, toNativeItems, hconst]
  cases message with
  | dict items =>
    have ho : (toNative (.dict items)).isObject = true := rfl
    have hseq := sequenceOf_toNative (D := D) h
    have hget : Python.Value.get (ascii "command") items =
        (Assoc.get? (ascii "command") items).getD .none := rfl
    rw [Cpp.buildResponse, ho, find_toNative h (by decide), hseq, Simulator.buildResponse]
    cases hc : Assoc.get? (ascii "command") items with
    | none =>
      simp [hget, hc, Python.Value.isNone, toNative, toNativeItems, hconst]
    | some command =>
      have hu : Unicode command := (unicodeItems_iff.mp h _ (Assoc.mem_of_get? hc)).2
      simp only [hget, hc, Option.map_some, Option.getD_some, isNull_toNative,
        isText_toNative hu (ascii "status") (by decide)]
      cases command.isNone
      · cases command.eqStr (ascii "status") <;> simp [toNative, toNativeItems, hconst]
      · simp [toNative, toNativeItems, hconst]
  | int i =>
    refine hshape (by simp) ?_
    rw [toNative, nativeInt]
    split <;> rfl
  | none | bool _ | float _ | str _ | list _ => exact hshape (by simp) rfl

end Responding

section Printing

theorem encodeAll_joinComma (xs : List Text) :
    encodeAll (Json.joinComma xs) = Json.joinComma (xs.map encodeAll) := by
  induction xs using Json.joinComma.induct with
  | case1 => rfl
  | case2 x => rfl
  | case3 x y rest ih =>
    have hsep : encodeAll (ascii ", ") = ascii ", " := encodeAll_constant (by decide)
    simp only [Json.joinComma, List.map_cons, Utf8.encodeAll_append, hsep] at ih ⊢
    rw [ih]

/-- Outside the cases of the switch both sides write a code point alike. -/
theorem dumpCodePoint_eq {c : Nat} (h22 : c ≠ 0x22) (h5C : c ≠ 0x5C) (h08 : c ≠ 0x08)
    (h0C : c ≠ 0x0C) (h0A : c ≠ 0x0A) (h0D : c ≠ 0x0D) (h09 : c ≠ 0x09) :
    Cpp.dumpCodePoint c = Python.escapeChar c := by
  unfold Cpp.dumpCodePoint Python.escapeChar
  rw [if_neg h22, if_neg h5C, if_neg h0A, if_neg h0D, if_neg h09, if_neg h0C, if_neg h08]
  by_cases h20 : c < 0x20
  · rw [if_pos h20, if_neg (by omega), if_pos (by omega)]
  rw [if_neg h20]
  by_cases h7F : c < 0x7F
  · rw [if_pos h7F, if_pos (by omega)]
  rw [if_neg h7F, if_neg (show ¬ (0x20 ≤ c ∧ c ≤ 0x7E) by omega)]
  by_cases hbmp : c ≤ 0xFFFF
  · rw [if_pos hbmp, if_pos (by omega)]
  · have hhigh : (c - 0x10000) >>> 10 = (c - 0x10000) / 0x400 := Nat.shiftRight_eq_div_pow _ 10
    have hlow : (c - 0x10000) &&& 0x3FF = (c - 0x10000) % 0x400 :=
      Nat.and_two_pow_sub_one_eq_mod _ 10
    rw [if_neg hbmp, if_neg (by omega)]
    dsimp only
    rw [hhigh, hlow]

/-- Both sides write a code point alike, the cases of the switch included. -/
theorem dumpChar_eq (c : Nat) : Cpp.dumpChar c = Python.escapeChar c := by
  by_cases h22 : c = 0x22
  · rw [h22]; rfl
  by_cases h5C : c = 0x5C
  · rw [h5C]; rfl
  by_cases h08 : c = 0x08
  · rw [h08]; rfl
  by_cases h0C : c = 0x0C
  · rw [h0C]; rfl
  by_cases h0A : c = 0x0A
  · rw [h0A]; rfl
  by_cases h0D : c = 0x0D
  · rw [h0D]; rfl
  by_cases h09 : c = 0x09
  · rw [h09]; rfl
  rw [Cpp.dumpChar, if_neg h22, if_neg h5C, if_neg h08, if_neg h0C, if_neg h0A, if_neg h0D,
    if_neg h09, dumpCodePoint_eq h22 h5C h08 h0C h0A h0D h09]

theorem dumpString_encodeAll {s : Text} (h : UnicodeText s) :
    Cpp.dumpString (encodeAll s) = encodeAll (Python.encodeString s) := by
  have hquote : Utf8.encode 0x22 = [0x22] := rfl
  have hchars : encodeAll (s.flatMap Python.escapeChar) = s.flatMap Python.escapeChar := by
    refine Utf8.encodeAll_ascii fun b hb => ?_
    obtain ⟨c, -, hb⟩ := List.mem_flatMap.mp hb
    exact (Python.escapeChar_ascii c b hb).2.trans (by omega)
  rw [Cpp.dumpString_encodeAll h, funext dumpChar_eq, Python.encodeString, Utf8.encodeAll_cons,
    Utf8.encodeAll_append, hchars, hquote]
  rfl

theorem decimal_encodeAll (i : Int) : encodeAll (Json.decimal i) = Json.decimal i :=
  Utf8.encodeAll_ascii fun c hc => by have := Json.decimal_ascii i c hc; omega

theorem dumpInt_eq (N : NativeDouble D) (i : Int) :
    Cpp.dumpValue N (nativeInt i) = Json.decimal i := by
  unfold nativeInt
  split
  · rw [Cpp.dumpValue]
  · next h =>
    rw [Cpp.dumpValue, Int64.toInt_ofInt_of_le (by omega) (by omega)]

theorem formatDouble_eq {N : NativeDouble D} {fl : FloatOps D} (h : Agree N fl) (x : D) :
    Cpp.formatDouble N x = encodeAll (Python.floatText fl x) := by
  unfold Cpp.formatDouble Python.floatText
  rw [h.isnan]
  cases hn : fl.isNan x with
  | true => exact (encodeAll_constant (s := "NaN") (by decide)).symm
  | false =>
    rw [h.isinf x hn]
    cases hi : fl.isInf x with
    | none => simp [h.format x hn hi]
    | some neg =>
      rw [h.positive x neg hn hi]
      cases neg
      · exact (encodeAll_constant (s := "Infinity") (by decide)).symm
      · exact (encodeAll_constant (s := "-Infinity") (by decide)).symm

/-- Byte order on stored keys is code point order on the keys. -/
theorem sort_encoded {items : List (Text × Text)} (h : ∀ item ∈ items, UnicodeText item.1) :
    (items.map (Prod.map encodeAll encodeAll)).insertionSort Cpp.entryLe =
      (items.insertionSort Python.keyLe).map (Prod.map encodeAll encodeAll) := by
  refine (List.map_insertionSort _ _ _ items fun a ha b hb => ?_).symm
  change ¬ b.1 < a.1 ↔ ¬ encodeAll b.1 < encodeAll a.1
  rw [Utf8.encodeAll_lt_iff (h b hb) (h a ha)]

mutual
/-- The serialisers write the same bytes. -/
theorem dumpValue_toNative {N : NativeDouble D} {fl : FloatOps D} (h : Agree N fl) :
    ∀ v : Python.Value D, Unicode v →
      Cpp.dumpValue N (toNative v) = encodeAll (Python.dumps fl v)
  | .none, _ => (encodeAll_constant (s := "null") (by decide)).symm
  | .bool true, _ => (encodeAll_constant (s := "true") (by decide)).symm
  | .bool false, _ => (encodeAll_constant (s := "false") (by decide)).symm
  | .int i, _ => by rw [toNative, dumpInt_eq, Python.dumps, decimal_encodeAll]
  | .float x, _ => formatDouble_eq h x
  | .str s, hv => dumpString_encodeAll hv
  | .list vs, hv => by
    rw [toNative, Cpp.dumpValue, dumpElements_toNative h vs hv, Python.dumps, Utf8.encodeAll_cons,
      Utf8.encodeAll_append, encodeAll_joinComma]
    rfl
  | .dict items, hv => by
    have hkeys : ∀ item ∈ Python.dumpsItems fl items, UnicodeText item.1 :=
      fun item hi => dumpsItems_unicode items hv item hi
    have htext : ((Python.dumpsItems fl items).insertionSort Python.keyLe).map
          (Cpp.entryText ∘ Prod.map encodeAll encodeAll) =
        ((Python.dumpsItems fl items).insertionSort Python.keyLe).map
          (encodeAll ∘ Python.itemText) := by
      refine List.map_congr_left fun item hi => ?_
      have hsep : encodeAll (ascii ": ") = ascii ": " := encodeAll_constant (by decide)
      have hk := hkeys item ((List.mem_insertionSort _).mp hi)
      simp only [Function.comp, Cpp.entryText, Prod.map_fst, Prod.map_snd, Python.itemText,
        dumpString_encodeAll hk, Utf8.encodeAll_append, hsep]
    rw [toNative, Cpp.dumpValue, dumpEntries_toNative h items hv, sort_encoded hkeys, List.map_map,
      htext, ← List.map_map, ← encodeAll_joinComma, Python.dumps, Utf8.encodeAll_cons,
      Utf8.encodeAll_append]
    rfl
theorem dumpElements_toNative {N : NativeDouble D} {fl : FloatOps D} (h : Agree N fl) :
    ∀ vs : List (Python.Value D), UnicodeElements vs →
      Cpp.dumpElements N (toNativeElements vs) = (Python.dumpsElements fl vs).map encodeAll
  | [], _ => rfl
  | v :: vs, hv => by
    rw [toNativeElements, Cpp.dumpElements, dumpValue_toNative h v hv.1,
      dumpElements_toNative h vs hv.2]
    rfl
theorem dumpEntries_toNative {N : NativeDouble D} {fl : FloatOps D} (h : Agree N fl) :
    ∀ items : List (Text × Python.Value D), UnicodeItems items →
      Cpp.dumpEntries N (toNativeItems items) =
        (Python.dumpsItems fl items).map (Prod.map encodeAll encodeAll)
  | [], _ => rfl
  | (k, v) :: items, hv => by
    rw [toNativeItems, Cpp.dumpEntries, dumpValue_toNative h v hv.2.1,
      dumpEntries_toNative h items hv.2.2]
    rfl
theorem dumpsItems_unicode {fl : FloatOps D} : ∀ items : List (Text × Python.Value D),
    UnicodeItems items → ∀ item ∈ Python.dumpsItems fl items, UnicodeText item.1
  | [], _ => by simp [Python.dumpsItems]
  | (k, v) :: items, hv => by
    rw [Python.dumpsItems, List.forall_mem_cons]
    exact ⟨hv.1, dumpsItems_unicode items hv.2.2⟩
end

end Printing

/-- Every response to a Unicode message is Unicode. -/
theorem unicode_buildResponse {message : Python.Value D} (h : Unicode message) :
    Unicode (Simulator.buildResponse message) := by
  have hconst : ∀ s ∈ constants, UnicodeText (ascii s) := fun s => unicode_constant
  simp only [constants, List.forall_mem_cons, List.not_mem_nil, false_implies, implies_true,
    and_true] at hconst
  unfold Simulator.buildResponse
  split
  · next items =>
    have hget := unicode_get (D := D) h
    dsimp only
    split_ifs <;> simp [Unicode, UnicodeItems, hconst, hget]
  · simp [Unicode, UnicodeItems, hconst]

/-- On a line that both decoders accept the two replies are the same bytes. -/
theorem answers_agree {N : NativeDouble D} {I : Simulator.Interpreter D} (h : Agree N I.floats)
    (line : List Nat) {message : Python.Value D}
    (hpy : Simulator.decodeRequest I (decodeReplace line) = (message, true))
    (hcpp : (Cpp.parse N line).isSome) :
    Cpp.dumpValue N (Cpp.handleRequestLine N line) =
      encodeAll (Python.dumps I.floats (Simulator.buildResponse message)) := by
  have hlt := decodeReplace_lt line
  obtain ⟨t, hdoc, -, -, -, rfl⟩ := (Simulator.decodeRequest_eq_iff I hlt message).mp hpy
  obtain ⟨v, hv⟩ := Option.isSome_iff_exists.mp hcpp
  obtain ⟨t', hdoc', -, rfl⟩ := (Cpp.parse_eq_some_iff h.strtodReads line v).mp hv
  obtain rfl := hdoc.unique hdoc'
  have hproper := hdoc.proper hlt
  have hu : Unicode (Simulator.valueOf I.floats t) := unicode_valueOf t hproper
  rw [Cpp.handleRequestLine, hv, ofTree_eq h t hproper]
  dsimp only
  rw [buildResponse_toNative hu, dumpValue_toNative h _ (unicode_buildResponse hu)]

/-- A request with a lone surrogate and a double. -/
def sampleLine : List Nat := ascii "\x7b\"command\":\"\\ud800\",\"sequence\":1.5\x7d"

def sampleTree : Tree :=
  .obj [((ascii "command").map .raw, .str [.unicode 0xD800]),
    ((ascii "sequence").map .raw, .float (ascii "1.5"))]

theorem document_sample : Document sampleTree sampleLine := by
  refine ⟨sampleLine, [], .nil, ?_, .nil⟩
  have hcommand (r : Text) : Json.Derives (.value (.str [.unicode 0xD800]))
      (ascii "\"\\ud800\"" ++ r) r := .str (.unicode rfl .close)
  have hfloat : Json.IsFloatToken (ascii "1.5") :=
    ⟨[], [0x31], [0x2E, 0x35], [], rfl, .inl rfl, .inr ⟨⟨by simp, by decide⟩, by decide⟩,
      .inr ⟨[0x35], rfl, by simp, by decide⟩, .inl rfl, by simp⟩
  exact .obj (.member .nil (.ofRaw (by decide) _) .nil .nil (hcommand _) .nil
    (.lastMember .nil (.ofRaw (by decide) _) .nil .nil (.float hfloat) .nil))

theorem decodeRequest_sample :
    Simulator.decodeRequest sampleInterpreter (decodeReplace sampleLine) =
      (Simulator.valueOf Sample.floats sampleTree, true) := by
  have hline : decodeReplace sampleLine = sampleLine := by decide +kernel
  exact (Simulator.decodeRequest_eq_iff sampleInterpreter (decodeReplace_lt _) _).mpr
    ⟨sampleTree, hline ▸ document_sample, by decide +kernel, by decide +kernel, by decide +kernel, rfl⟩

theorem answers_agree_sample :
    Cpp.dumpValue Cpp.Sample.native (Cpp.handleRequestLine Cpp.Sample.native sampleLine) =
      encodeAll (Python.dumps Sample.floats
        (Simulator.buildResponse (Simulator.valueOf Sample.floats sampleTree))) :=
  answers_agree Sample.agree sampleLine decodeRequest_sample (by decide +kernel)

example : Cpp.dumpValue Cpp.Sample.native (Cpp.handleRequestLine Cpp.Sample.native sampleLine) =
    ascii ("\x7b\"command\": \"\\ud800\", \"error_code\": \"UNSUPPORTED_COMMAND\", " ++
      "\"sequence\": 1.5, \"status\": \"error\"\x7d") := by decide +kernel

end Parity
