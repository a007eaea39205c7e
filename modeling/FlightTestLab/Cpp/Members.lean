import FlightTestLab.Cpp.Dumping
import FlightTestLab.Cpp.Simulation

/-!
# Objects in parsed values

Every value inside a parsed value comes from a place in the source. An object holds
each key of its source object once, with the value of the key's last occurrence, and
the serialiser writes the members by code point, although it compares bytes.

## Main definitions

- `Cpp.Source`: the tree a value inside a value comes from

## Main results

- `Cpp.exists_source`: everything inside a parsed value has a source
- `Cpp.members_canonical`: the objects of a parsed value, in memory and on the wire
-/

namespace Cpp

open Json (Text Tree Item Document ascii joinComma decodeItems)
open Utf8 (encodeAll)

variable {D : Type}

theorem ofElements_eq (N : NativeDouble D) (ts : List Tree) :
    ofElements N ts = ts.map (ofTree N) := by
  induction ts with
  | nil => rfl
  | cons t ts ih => rw [ofElements, ih, List.map_cons]

theorem ofMembers_eq (N : NativeDouble D) (ms : List (List Item × Tree)) :
    ofMembers N ms = ms.map fun m => (encodeAll (decodeItems m.1), ofTree N m.2) := by
  induction ms with
  | nil => rfl
  | cons m ms ih => rw [ofMembers, ih, List.map_cons]

/-- Only arrays are parsed to arrays. -/
theorem ofTree_eq_array {N : NativeDouble D} {t : Tree} {items : List (Value D)}
    (h : ofTree N t = .array items) : ∃ ts, t = .arr ts ∧ items = ts.map (ofTree N) := by
  cases t with
  | arr ts =>
    rw [ofTree, ofElements_eq, Value.array.injEq] at h
    exact ⟨ts, rfl, h.symm⟩
  | int tok =>
    rw [ofTree, intValue] at h
    split at h <;> cases h
  | inf negative => cases negative <;> (rw [ofTree] at h; cases h)
  | null | bool _ | nan | float _ | str _ | obj _ => rw [ofTree] at h; cases h

/-- Only objects are parsed to objects. -/
theorem ofTree_eq_object {N : NativeDouble D} {t : Tree} {entries : List (Bytes × Value D)}
    (h : ofTree N t = .object entries) :
    ∃ ms, t = .obj ms ∧ entries = Assoc.ofPairs (ofMembers N ms) := by
  cases t with
  | obj ms =>
    rw [ofTree, Value.object.injEq] at h
    exact ⟨ms, rfl, h.symm⟩
  | int tok =>
    rw [ofTree, intValue] at h
    split at h <;> cases h
  | inf negative => cases negative <;> (rw [ofTree] at h; cases h)
  | null | bool _ | nan | float _ | str _ | arr _ => rw [ofTree] at h; cases h

/-- A raw number is the token of an integer literal. -/
theorem ofTree_eq_raw {N : NativeDouble D} {t : Tree} {text : Bytes}
    (h : ofTree N t = .raw text) : t = .int text := by
  cases t with
  | int tok =>
    rw [ofTree, intValue] at h
    split at h
    · cases h
      rfl
    · cases h
  | inf negative => cases negative <;> (rw [ofTree] at h; cases h)
  | null | bool _ | nan | float _ | str _ | arr _ | obj _ => rw [ofTree] at h; cases h

section Source

/-- The stored keys of some members with their trees, in source order. -/
def sourceMembers (ms : List (List Item × Tree)) : List (Bytes × Tree) :=
  ms.map fun m => (encodeAll (decodeItems m.1), m.2)

/-- `Source t v u w`: the value `w` inside `v` comes from `u` inside `t`, going through the
same positions of arrays and the last occurrences of the keys of objects. -/
inductive Source : Tree → Value D → Tree → Value D → Prop
  | self {t : Tree} {v : Value D} : Source t v t v
  | element {ts : List Tree} {items : List (Value D)} {i : Nat} {t u : Tree} {v w : Value D} :
      ts[i]? = some t → items[i]? = some v → Source t v u w →
      Source (.arr ts) (.array items) u w
  | member {ms : List (List Item × Tree)} {entries : List (Bytes × Value D)} {key : Bytes}
      {t u : Tree} {v w : Value D} :
      Assoc.last? key (sourceMembers ms) = some t → (key, v) ∈ entries → Source t v u w →
      Source (.obj ms) (.object entries) u w

theorem last?_ofMembers (N : NativeDouble D) (key : Bytes) (ms : List (List Item × Tree)) :
    Assoc.last? key (ofMembers N ms) = (Assoc.last? key (sourceMembers ms)).map (ofTree N) := by
  rw [← Assoc.last?_map, ofMembers_eq, sourceMembers, List.map_map]
  rfl

/-- Everything inside the value of a tree comes from a tree inside it, whose value it is. -/
theorem exists_source {N : NativeDouble D} {t : Tree} {v w : Value D} (h : Inside w v)
    (hv : v = ofTree N t) :
    ∃ u, Source t v u w ∧ w = ofTree N u ∧ (t.Proper → u.Proper) := by
  induction h generalizing t with
  | self => exact ⟨t, .self, hv, id⟩
  | element hmem _ ih =>
    obtain ⟨ts, rfl, rfl⟩ := ofTree_eq_array hv.symm
    obtain ⟨i, hi⟩ := List.getElem?_of_mem hmem
    have hi' := hi
    rw [List.getElem?_map, Option.map_eq_some_iff] at hi'
    obtain ⟨t, ht, he⟩ := hi'
    obtain ⟨u, hsource, hw, hp⟩ := ih he.symm
    refine ⟨u, .element ht hi hsource, hw, fun h => hp ?_⟩
    exact Tree.properElements_iff.mp h t (List.mem_of_getElem? ht)
  | @member e entries hmem _ ih =>
    obtain ⟨ms, rfl, rfl⟩ := ofTree_eq_object hv.symm
    have hlast := Assoc.mem_ofPairs.mp (show (e.1, e.2) ∈ _ from hmem)
    rw [last?_ofMembers, Option.map_eq_some_iff] at hlast
    obtain ⟨t, ht, he⟩ := hlast
    obtain ⟨u, hsource, hw, hp⟩ := ih he.symm
    refine ⟨u, .member ht hmem hsource, hw, fun h => hp ?_⟩
    obtain ⟨m, hm, hmt⟩ := List.mem_map.mp (Assoc.mem_of_last? ht)
    have htree : m.2 = t := congrArg Prod.snd hmt
    exact htree ▸ (Tree.properMembers_iff.mp h m hm).2

end Source

section Order

instance {α : Type} : Std.Total (entryLe (α := α)) where
  total a b := by
    show ¬ b.1 < a.1 ∨ ¬ a.1 < b.1
    rw [← not_and_or]
    exact fun h => List.lt_asymm h.1 h.2

instance {α : Type} : IsTrans (Bytes × α) entryLe where
  trans a b c hab hbc := by
    show ¬ c.1 < a.1
    exact List.not_lt.mpr (List.le_trans (List.not_lt.mp hab) (List.not_lt.mp hbc))

/-- Sorting distinct keys makes them increase strictly. -/
theorem sorted_strict {α : Type} {entries : List (Bytes × α)}
    (hn : (entries.map Prod.fst).Nodup) :
    (entries.insertionSort entryLe).Pairwise fun a b => a.1 < b.1 := by
  have hsorted := List.pairwise_insertionSort entryLe entries
  have hperm := List.perm_insertionSort entryLe entries
  have hne : (entries.insertionSort entryLe).Pairwise fun a b => a.1 ≠ b.1 :=
    List.pairwise_map.mp ((hperm.map Prod.fst).nodup_iff.mpr hn)
  refine hsorted.imp₂ ?_ hne
  intro a b hle hne
  by_contra hlt
  exact hne (List.le_antisymm (List.not_lt.mp hle) (List.not_lt.mp hlt))

/-- On decoded keys the serialiser's sort gives the same order as on stored ones. -/
theorem insertionSort_encoded {α : Type} {members : List (Text × α)}
    (h : ∀ m ∈ members, ∀ c ∈ m.1, c < 0x110000) :
    (members.map (Prod.map encodeAll id)).insertionSort entryLe =
      (members.insertionSort entryLe).map (Prod.map encodeAll id) := by
  refine (List.map_insertionSort _ _ _ members fun a ha b hb => ?_).symm
  show ¬ b.1 < a.1 ↔ ¬ encodeAll b.1 < encodeAll a.1
  rw [Utf8.encodeAll_lt_iff (h b hb) (h a ha)]

end Order

section Dumped

/-- The text of a value inside a value is part of that value's text. -/
theorem Inside.dumpValue_infix {N : NativeDouble D} {v w : Value D} (h : Inside w v) :
    dumpValue N w <:+: dumpValue N v := by
  have joined {text : Bytes} {texts : List Bytes} (hmem : text ∈ texts) :
      text <:+: joinComma texts := by
    induction texts using Json.joinComma.induct with
    | case1 => cases hmem
    | case2 x => rw [List.mem_singleton.mp hmem]; exact List.infix_refl _
    | case3 x y rest ih =>
      rw [joinComma]
      obtain rfl | hmem := List.mem_cons.mp hmem
      · exact ⟨[], ascii ", " ++ joinComma (y :: rest), by simp⟩
      · exact (ih hmem).trans (List.suffix_append _ _).isInfix
  have bracketed {text : Bytes} {texts : List Bytes} (hmem : text ∈ texts) (l r : Nat) :
      text <:+: l :: (joinComma texts ++ [r]) :=
    (joined hmem).trans ⟨[l], [r], rfl⟩
  induction h with
  | self => exact List.infix_refl _
  | element hmem _ ih =>
    rw [dumpValue_array]
    exact ih.trans (bracketed (List.mem_map.mpr ⟨_, hmem, rfl⟩) _ _)
  | @member e entries hmem _ ih =>
    rw [dumpValue_object]
    have hentry : Prod.map id (dumpValue N) e ∈
        (entries.insertionSort entryLe).map (Prod.map id (dumpValue N)) :=
      List.mem_map.mpr ⟨e, (List.mem_insertionSort _).mpr hmem, rfl⟩
    have hpart : dumpValue N e.2 <:+: entryText (Prod.map id (dumpValue N) e) :=
      (List.suffix_append _ _).isInfix
    exact (ih.trans hpart).trans (bracketed (List.mem_map.mpr ⟨_, hentry, rfl⟩) _ _)

end Dumped

/-- An object inside a value, against the tree the value was parsed from. -/
structure Canonical (N : NativeDouble D) (t : Tree) (v : Value D)
    (entries : List (Bytes × Value D)) : Prop where
  distinct : (entries.map Prod.fst).Nodup
  /-- `find` answers the value of the key's last occurrence in the source object. -/
  last : ∃ ms, Source t v (.obj ms) (.object entries) ∧
    ∀ key, (Value.object entries).find key = Assoc.last? key (ofMembers N ms)
  written : dumpValue N (.object entries) <:+: dumpValue N v
  /-- The members are written once each, by increasing keys as sequences of code points. -/
  order : ∃ members : List (Text × Value D),
    (members.map (Prod.map encodeAll id)).Perm entries ∧
      (∀ m ∈ members, ∀ c ∈ m.1, c < 0x110000) ∧ members.Pairwise (fun a b => a.1 < b.1) ∧
      dumpValue N (.object entries) =
        0x7B :: (joinComma (members.map fun m =>
          dumpString (encodeAll m.1) ++ ascii ": " ++ dumpValue N m.2) ++ [0x7D])

/-- Every object of a parsed value, at any depth, is canonical. -/
theorem members_canonical {N : NativeDouble D} (hN : StrtodReads N) {text : Bytes} {v : Value D}
    (h : parse N text = some v) :
    ∃ t, Document t (Utf8.decodeReplace text) ∧
      ∀ entries, Inside (.object entries) v → Canonical N t v entries := by
  obtain ⟨t, hdoc, -, hv⟩ := (parse_eq_some_iff hN text v).mp h
  refine ⟨t, hdoc, fun entries hin => ?_⟩
  obtain ⟨u, hsource, hw, hproper⟩ := exists_source hin hv
  obtain ⟨ms, rfl, rfl⟩ := ofTree_eq_object hw.symm
  have hms := Tree.properMembers_iff.mp (hproper (hdoc.proper (Utf8.decodeReplace_lt text)))
  -- the same object with decoded keys
  let pairs := ms.map fun m => (decodeItems m.1, ofTree N m.2)
  have hkey : ∀ key ∈ pairs.map Prod.fst, ∀ c ∈ key, c < 0x110000 := by
    intro key hk
    obtain ⟨p, hp, rfl⟩ := List.mem_map.mp hk
    obtain ⟨m, hm, rfl⟩ := List.mem_map.mp hp
    exact Json.decodeItems_lt (hms m hm).1
  have hdecoded : Assoc.ofPairs (ofMembers N ms) =
      (Assoc.ofPairs pairs).map (Prod.map encodeAll id) := by
    rw [Assoc.map_ofPairs pairs fun a ha b hb he =>
      Utf8.encodeAll_injective (hkey a ha) (hkey b hb) he, ofMembers_eq, List.map_map]
    rfl
  have hdkey : ∀ m ∈ Assoc.ofPairs pairs, ∀ c ∈ m.1, c < 0x110000 := by
    intro m hm
    exact hkey m.1 (List.mem_map.mpr ⟨m, Assoc.mem_of_last? (Assoc.mem_ofPairs.mp hm), rfl⟩)
  refine ⟨Assoc.nodup_ofPairs _, ⟨ms, hsource, fun key => Assoc.get?_ofPairs key _⟩,
    hin.dumpValue_infix, (Assoc.ofPairs pairs).insertionSort entryLe, ?_, ?_, ?_, ?_⟩
  · rw [hdecoded]
    exact (List.perm_insertionSort entryLe _).map _
  · intro m hm
    exact hdkey m ((List.mem_insertionSort _).mp hm)
  · exact sorted_strict (Assoc.nodup_ofPairs pairs)
  · rw [dumpValue_object, hdecoded, insertionSort_encoded hdkey, List.map_map, List.map_map]
    rfl

/-- A repeated key, a lone surrogate and an object inside an array. -/
def sampleMembers : Bytes :=
  ascii "\x7b\"b\":[\x7b\x7d],\"\\ud800\":1,\"b\":[\x7b\"\":2\x7d]\x7d"

theorem members_canonical_sample :
    ∃ v, parse Sample.native sampleMembers = some v ∧
      ∃ t, Document t (Utf8.decodeReplace sampleMembers) ∧
        ∀ entries, Inside (.object entries) v → Canonical Sample.native t v entries := by
  have hsome : (parse Sample.native sampleMembers).isSome := by decide +kernel
  obtain ⟨v, hv⟩ := Option.isSome_iff_exists.mp hsome
  exact ⟨v, hv, members_canonical Sample.strtodReads hv⟩

end Cpp
