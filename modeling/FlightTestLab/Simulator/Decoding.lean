import FlightTestLab.Library.Utf8
import FlightTestLab.Simulator.Nesting

/-!
# Request decoding against the grammar

`decode_request` accepts the documents whose integers fit the digit bound and whose
decoded value stays within the nesting limit. The value no longer has the members
that a later one overwrote, so it is their nesting that the limit does not see.

## Main definitions

- `Simulator.valueOf`: the decoded value of a syntax tree

## Main results

- `Simulator.decodeRequest_eq_iff`: `decode_request` against the grammar
-/

namespace Simulator

open Json (Text Tree Item DigitsFit decodeItems)
open Python (Value Error FloatOps)

variable {F : Type}

mutual
/-- The decoded value of a syntax tree. -/
def valueOf (fl : FloatOps F) : Tree → Value F
  | .null => .none
  | .bool b => .bool b
  | .nan => .float fl.nan
  | .inf neg => .float (fl.inf neg)
  | .int tok => .int (Json.ofToken tok)
  | .float tok => .float (fl.parse tok)
  | .str is => .str (decodeItems is)
  | .arr ts => .list (elementsOf fl ts)
  | .obj ms => .dict (Assoc.ofPairs (membersOf fl ms))
/-- The decoded values of array elements. -/
def elementsOf (fl : FloatOps F) : List Tree → List (Value F)
  | [] => []
  | t :: ts => valueOf fl t :: elementsOf fl ts
/-- The keys and decoded values of object members, in source order. -/
def membersOf (fl : FloatOps F) : List (List Item × Tree) → List (Text × Value F)
  | [] => []
  | (is, t) :: ms => (decodeItems is, valueOf fl t) :: membersOf fl ms
end

section Building

theorem length_lstrip {tok : Text} (h : Json.IsIntToken tok) :
    (tok.dropWhile (· == 0x2D)).length = Json.digitCount tok := by
  obtain ⟨sign, int, rfl, hm, hi⟩ := h
  obtain ⟨c, ds, rfl, hc⟩ := hi.head
  have hne : (c == 0x2D) = false := by
    unfold Json.IsDigit at hc
    simp only [beq_eq_false_iff_ne]
    omega
  rw [Json.digitCount_token hm hi]
  obtain rfl | rfl := hm
  · simp [hne]
  · simp [hne]

theorem parseInt_token {tok : Text} (h : Json.IsIntToken tok) :
    parseInt tok =
      if Json.digitCount tok ≤ maxIntDigits then .ok (Json.ofToken tok)
      else .error .valueError := by
  rw [parseInt, length_lstrip h]
  by_cases hd : Json.digitCount tok ≤ maxIntDigits
  · rw [if_neg (by omega), if_pos hd]
  · rw [if_pos (by omega), if_neg hd]

mutual
/-- Building a value fails exactly on an integer past the digit bound. -/
theorem build_eq (I : Interpreter F) : ∀ t : Tree, t.Proper →
    Python.build I.decoder t =
      if DigitsFit maxIntDigits t.intTokens then .ok (valueOf I.floats t) else .error .valueError
  | .int tok, h => by
    have hp : I.decoder.parseInt tok = parseInt tok := rfl
    rw [Python.build, hp, parseInt_token h]
    by_cases hd : Json.digitCount tok ≤ maxIntDigits
    · rw [if_pos hd, if_pos (by simpa [Tree.intTokens, DigitsFit])]
      rfl
    · rw [if_neg hd, if_neg (by simpa [Tree.intTokens, DigitsFit] using hd)]
  | .arr ts, h => by
    rw [Python.build, buildElements_eq I ts h, Tree.intTokens]
    by_cases hd : DigitsFit maxIntDigits (Tree.intTokensElements ts)
    · rw [if_pos hd, if_pos hd]
      rfl
    · rw [if_neg hd, if_neg hd]
  | .obj ms, h => by
    rw [Python.build, buildMembers_eq I ms h, Tree.intTokens]
    by_cases hd : DigitsFit maxIntDigits (Tree.intTokensMembers ms)
    · rw [if_pos hd, if_pos hd]
      rfl
    · rw [if_neg hd, if_neg hd]
  | .null, _ | .bool _, _ | .nan, _ | .inf _, _ | .float _, _ | .str _, _ => by
    rw [if_pos (by simp [Tree.intTokens, DigitsFit])]
    rfl
theorem buildElements_eq (I : Interpreter F) : ∀ ts : List Tree, Tree.ProperElements ts →
    Python.buildElements I.decoder ts =
      if DigitsFit maxIntDigits (Tree.intTokensElements ts) then .ok (elementsOf I.floats ts)
      else .error .valueError
  | [], _ => by
    rw [if_pos (by simp [Tree.intTokensElements, DigitsFit])]
    rfl
  | t :: ts, h => by
    simp only [Python.buildElements, build_eq I t h.1, buildElements_eq I ts h.2,
      Tree.intTokensElements, Json.digitsFit_append, elementsOf]
    by_cases ht : DigitsFit maxIntDigits t.intTokens
    · by_cases hts : DigitsFit maxIntDigits (Tree.intTokensElements ts) <;> simp [ht, hts]
    · simp [ht]
theorem buildMembers_eq (I : Interpreter F) :
    ∀ ms : List (List Item × Tree), Tree.ProperMembers ms →
      Python.buildMembers I.decoder ms =
        if DigitsFit maxIntDigits (Tree.intTokensMembers ms) then .ok (membersOf I.floats ms)
        else .error .valueError
  | [], _ => by
    rw [if_pos (by simp [Tree.intTokensMembers, DigitsFit])]
    rfl
  | (is, t) :: ms, h => by
    simp only [Python.buildMembers, build_eq I t h.2.1, buildMembers_eq I ms h.2.2,
      Tree.intTokensMembers, Json.digitsFit_append, membersOf]
    by_cases ht : DigitsFit maxIntDigits t.intTokens
    · by_cases hts : DigitsFit maxIntDigits (Tree.intTokensMembers ms) <;> simp [ht, hts]
    · simp [ht]
end

end Building

section Depth

theorem keys_membersOf (fl : FloatOps F) (ms : List (List Item × Tree)) :
    (membersOf fl ms).map Prod.fst = Json.keys ms := by
  induction ms with
  | nil => rfl
  | cons m ms ih => simpa [membersOf, Json.keys] using ih

mutual
/-- The depth of a decoded value is the depth of what no later member overwrites. -/
theorem depth_valueOf (fl : FloatOps F) : ∀ t : Tree, (valueOf fl t).depth = t.liveDepth
  | .arr ts => by rw [valueOf, Value.depth, depthElements_elementsOf fl ts, Tree.liveDepth]
  | .obj ms => by
    have h : Value.depthItems (Assoc.ofPairs (membersOf fl ms)) = Tree.liveDepthMembers ms := by
      refine eq_of_forall_ge_iff fun n => ?_
      rw [Value.depthItems_le_iff, ← last?_membersOf_le fl ms]
      exact ⟨fun h k v hv => h (k, v) (Assoc.mem_ofPairs.mpr hv),
        fun h item hi => h item.1 item.2 (Assoc.mem_ofPairs.mp hi)⟩
    rw [valueOf, Value.depth, h, Tree.liveDepth]
  | .null | .bool _ | .nan | .inf _ | .int _ | .float _ | .str _ => rfl
theorem depthElements_elementsOf (fl : FloatOps F) :
    ∀ ts : List Tree, Value.depthElements (elementsOf fl ts) = Tree.liveDepthElements ts
  | [] => rfl
  | t :: ts => by
    rw [elementsOf, Value.depthElements, depth_valueOf fl t, depthElements_elementsOf fl ts,
      Tree.liveDepthElements]
theorem last?_membersOf_le (fl : FloatOps F) : ∀ (ms : List (List Item × Tree)) {n : Nat},
    (∀ k v, Assoc.last? k (membersOf fl ms) = some v → v.depth ≤ n) ↔
      Tree.liveDepthMembers ms ≤ n
  | [], n => by simp [membersOf, Assoc.last?, Tree.liveDepthMembers]
  | (is, t) :: ms, n => by
    have ih := last?_membersOf_le fl ms (n := n)
    have ht := depth_valueOf fl t
    have hkey : decodeItems is ∈ Json.keys ms ↔
        Assoc.last? (decodeItems is) (membersOf fl ms) ≠ none := by
      rw [ne_eq, Assoc.last?_eq_none_iff, keys_membersOf, not_not]
    rw [Tree.liveDepthMembers]
    by_cases hk : decodeItems is ∈ Json.keys ms
    · -- a later member has the key
      rw [if_pos hk, ← ih]
      refine forall₂_congr fun k v => ?_
      rw [membersOf, Assoc.last?, Option.or_eq_some_iff]
      constructor
      · exact fun h hv => h (.inl hv)
      · rintro h (hv | ⟨hn, hv⟩)
        · exact h hv
        · split at hv
          · next he =>
            rw [he] at hkey
            exact absurd hn (hkey.mp (he ▸ hk))
          · cases hv
    · rw [if_neg hk, Nat.max_le, ← ih, ← ht]
      have hnone : Assoc.last? (decodeItems is) (membersOf fl ms) = none := by
        by_contra h
        exact hk (hkey.mpr h)
      constructor
      · intro h
        refine ⟨h (decodeItems is) _ ?_, fun k v hv => h k v ?_⟩
        · rw [membersOf, Assoc.last?, hnone, if_pos rfl, Option.none_or]
        · rw [membersOf, Assoc.last?, hv, Option.some_or]
      · rintro ⟨h, h'⟩ k v hv
        rw [membersOf, Assoc.last?, Option.or_eq_some_iff] at hv
        obtain hv | ⟨-, hv⟩ := hv
        · exact h' k v hv
        · split at hv
          · cases hv
            exact h
          · cases hv
end

end Depth

section Acceptance

theorem loads_eq_ok_iff (I : Interpreter F) {s : Text} (hs : ∀ c ∈ s, c < 0x110000) (v : Value F) :
    Python.loads I.decoder s = .ok v ↔
      ∃ t, Json.Document t s ∧ I.overflows t = false ∧ DigitsFit maxIntDigits t.intTokens ∧
        v = valueOf I.floats t := by
  rw [Python.loads_eq_ok_iff]
  refine exists_congr fun t => and_congr_right fun hdoc => and_congr_right fun _ => ?_
  rw [build_eq I t (hdoc.proper hs)]
  by_cases hd : DigitsFit maxIntDigits t.intTokens
  · rw [if_pos hd, Except.ok.injEq, eq_comm, and_iff_right hd]
  · rw [if_neg hd]
    exact iff_of_false (fun h => by cases h) fun h => hd h.1

/-- `decode_request` accepts a document by its integers and by what is live of its nesting. -/
theorem decodeRequest_eq_iff (I : Interpreter F) {s : Text} (hs : ∀ c ∈ s, c < 0x110000)
    (v : Value F) :
    decodeRequest I s = (v, true) ↔
      ∃ t, Json.Document t s ∧ I.overflows t = false ∧ DigitsFit maxIntDigits t.intTokens ∧
        t.liveDepth ≤ maxNestingDepth ∧ v = valueOf I.floats t := by
  unfold decodeRequest
  cases hl : Python.loads I.decoder s with
  | error e =>
    refine ⟨fun h => absurd h (by simp), ?_⟩
    rintro ⟨t, hdoc, hov, hd, -, rfl⟩
    rw [(loads_eq_ok_iff I hs _).mpr ⟨t, hdoc, hov, hd, rfl⟩] at hl
    cases hl
  | ok message =>
    obtain ⟨t, hdoc, hov, hd, rfl⟩ := (loads_eq_ok_iff I hs _).mp hl
    have hdepth := exceedsNestingLimit_iff (valueOf I.floats t) maxNestingDepth
    rw [depth_valueOf] at hdepth
    dsimp only
    constructor
    · intro h
      split at h
      · cases h
      · next hle =>
        cases h
        exact ⟨t, hdoc, hov, hd, by rw [hdepth] at hle; omega, rfl⟩
    · rintro ⟨t', hdoc', -, -, hle, rfl⟩
      obtain rfl := hdoc.unique hdoc'
      rw [if_neg (by rw [hdepth]; omega)]

end Acceptance

end Simulator
