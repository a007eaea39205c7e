import FlightTestLab.Library.Json.Strings
import FlightTestLab.Cpp.Replies

/-!
# Parsing what was dumped

The serialiser's text of a parsed value spells that value again, with the members of
every object in the order they were written. Strings are the delicate part: a stored
lone high surrogate before a lone low one would come back as one code point, and the
parser stores no such pair.

## Main definitions

- `Cpp.sortMembers`: a value with the members of every object sorted
- `Cpp.RoundTrips`: what `strtod` and `to_chars` have to do with each other
- `Cpp.Spells`: bytes that are read as a value

## Main results

- `Cpp.parse_dump`: parsing undoes dumping, and dumping again gives the same bytes
-/

namespace Cpp

open Json (Text Tree Item Items Derives Printable ascii joinComma DigitsFit Unpaired asciiItems
  printable_append)
open Utf8 (encodeAll)

variable {D : Type}

mutual
/-- The members of every object, at every level, in the serialiser's order. -/
def sortMembers : Value D → Value D
  | .array items => .array (sortElements items)
  | .object entries => .object ((sortEntries entries).insertionSort entryLe)
  | .null => .null
  | .bool b => .bool b
  | .int i => .int i
  | .double x => .double x
  | .string s => .string s
  | .raw text => .raw text
/-- The elements with their objects sorted. -/
def sortElements : List (Value D) → List (Value D)
  | [] => []
  | v :: vs => sortMembers v :: sortElements vs
/-- The members with the objects in their values sorted. -/
def sortEntries : List (Bytes × Value D) → List (Bytes × Value D)
  | [] => []
  | (k, v) :: entries => (k, sortMembers v) :: sortEntries entries
end

section Sorting

theorem sortMembers_array (items : List (Value D)) :
    sortMembers (.array items) = .array (items.map sortMembers) := by
  have hmap : sortElements items = items.map sortMembers := by
    induction items with
    | nil => rfl
    | cons v items ih => rw [sortElements, ih, List.map_cons]
  rw [sortMembers, hmap]

theorem sortMembers_object (entries : List (Bytes × Value D)) :
    sortMembers (.object entries) =
      .object ((entries.insertionSort entryLe).map (Prod.map id sortMembers)) := by
  have hmap : sortEntries entries = entries.map (Prod.map id sortMembers) := by
    induction entries with
    | nil => rfl
    | cons e entries ih =>
      rw [sortEntries, ih, List.map_cons]
      rfl
  have hsort : (entries.map (Prod.map id sortMembers)).insertionSort entryLe =
      (entries.insertionSort entryLe).map (Prod.map id sortMembers) :=
    (List.map_insertionSort entryLe entryLe (Prod.map id sortMembers) entries
      fun _ _ _ _ => Iff.rfl).symm
  rw [sortMembers, hmap, hsort]

theorem sorted_map {g : Value D → Value D} (entries : List (Bytes × Value D)) :
    (((entries.insertionSort entryLe).map (Prod.map id g)).insertionSort entryLe) =
      (entries.insertionSort entryLe).map (Prod.map id g) :=
  List.Pairwise.insertionSort_eq
    (List.pairwise_map.mpr (List.pairwise_insertionSort entryLe entries))

/-- The order of the members in memory does not show on the wire. -/
theorem dumpValue_sortMembers (N : NativeDouble D) (v : Value D) :
    dumpValue N (sortMembers v) = dumpValue N v := by
  induction v using Value.induct with
  | array items ih =>
    have helements : items.map (dumpValue N ∘ sortMembers) = items.map (dumpValue N) :=
      List.map_congr_left ih
    rw [sortMembers_array, dumpValue_array, dumpValue_array, List.map_map, helements]
  | object entries ih =>
    have hvalues : ((entries.insertionSort entryLe).map (Prod.map id sortMembers)).map
        (Prod.map id (dumpValue N)) =
          (entries.insertionSort entryLe).map (Prod.map id (dumpValue N)) := by
      rw [List.map_map]
      refine List.map_congr_left fun e he => ?_
      have := ih e ((List.mem_insertionSort _).mp he)
      show (e.1, dumpValue N (sortMembers e.2)) = (e.1, dumpValue N e.2)
      rw [this]
    rw [sortMembers_object, dumpValue_object, dumpValue_object, sorted_map, hvalues]
  | null | bool _ | int _ | double _ | string _ | raw _ => rw [sortMembers]

end Sorting

/-- The text of a finite double in scientific notation. -/
def IsScientific (s : Bytes) : Prop :=
  ∃ sign int frac exp, s = sign ++ int ++ frac ++ exp ∧ Json.IsMinus sign ∧ Json.IsInt int ∧
    Json.IsFrac frac ∧ Json.IsExp exp ∧ exp ≠ []

/-- The text of a finite double in positional notation. -/
def IsFixed (s : Bytes) : Prop :=
  ∃ sign int frac, s = sign ++ int ++ frac ∧ Json.IsMinus sign ∧ Json.IsInt int ∧ Json.IsFrac frac

/-- `strtod` reads back what `to_chars` wrote. -/
structure RoundTrips (N : NativeDouble D) : Prop where
  reads : StrtodReads N
  quietNan : N.isnan N.quietNan = true
  infinity : N.isnan N.infinity = false ∧ N.isinf N.infinity = true ∧ N.positive N.infinity = true
  negInfinity : N.isnan N.negInfinity = false ∧ N.isinf N.negInfinity = true ∧
    N.positive N.negInfinity = false
  /-- no number is read as NaN -/
  strtod_isnan : ∀ tok, Json.IsFloatToken tok → N.isnan (N.strtod tok).1 = false
  /-- there are two infinities -/
  isinf : ∀ x, N.isnan x = false → N.isinf x = true →
    x = if N.positive x then N.infinity else N.negInfinity
  scientific : ∀ x, N.isnan x = false → N.isinf x = false →
    IsScientific (N.scientific x) ∧ (N.strtod (N.scientific x)).1 = x
  fixed : ∀ x, N.isnan x = false → N.isinf x = false →
    IsFixed (N.fixed x) ∧ (N.strtod (N.fixed x)).1 = x
  /-- a fraction of zero does not change the value -/
  dotZero : ∀ tok, Json.IsIntToken tok → (N.strtod (tok ++ ascii ".0")).1 = (N.strtod tok).1

section Scalars

/-- Bytes that the grammar reads as a value, whatever follows them, within this depth and the
limit on digits. -/
def Spells (N : NativeDouble D) (b : Bytes) (w : Value D) (depth : Nat) : Prop :=
  ∃ t, (∀ r, Derives (.value t) (b ++ r) r) ∧ ofTree N t = w ∧ t.depth ≤ depth ∧
    DigitsFit kMaxIntDigits t.intTokens

variable {N : NativeDouble D}

theorem Spells.mono {b : Bytes} {w : Value D} {m n : Nat} (h : Spells N b w m) (hmn : m ≤ n) :
    Spells N b w n := by
  obtain ⟨t, hd, hw, hdepth, hdigits⟩ := h
  exact ⟨t, hd, hw, hdepth.trans hmn, hdigits⟩

theorem spells_literal {lit : Bytes} {t : Tree} (h : (lit, t) ∈ Json.literals) :
    Spells N lit (ofTree N t) 1 := by
  refine ⟨t, fun r => .literal h, rfl, ?_, ?_⟩
  all_goals
    simp only [Json.literals, List.mem_cons, Prod.mk.injEq, List.not_mem_nil, or_false] at h
    obtain ⟨-, rfl⟩ | ⟨-, rfl⟩ | ⟨-, rfl⟩ | ⟨-, rfl⟩ | ⟨-, rfl⟩ | ⟨-, rfl⟩ := h
  all_goals first
    | exact Nat.le_refl 1
    | simp [Tree.intTokens, DigitsFit]

/-- The literal names as the serialiser writes them. -/
theorem literals_eq : Json.literals =
    [(ascii "null", .null), (ascii "true", .bool true), (ascii "false", .bool false),
      (ascii "NaN", .nan), (ascii "Infinity", .inf false), (ascii "-Infinity", .inf true)] := rfl

theorem spells_intToken {tok : Bytes} (h : Json.IsIntToken tok)
    (hd : Json.digitCount tok ≤ kMaxIntDigits) : Spells N tok (intValue tok) 1 :=
  ⟨.int tok, fun _ => .int h, by rw [ofTree], Nat.le_refl 1, by simpa [Tree.intTokens, DigitsFit]⟩

theorem spells_int (i : Int64) : Spells N (Json.decimal i.toInt) (.int i) 1 := by
  have hlow := i.le_toInt
  have hhigh := i.toInt_lt
  have hvalue : (intValue (Json.decimal i.toInt) : Value D) = .int i := by
    rw [intValue, Json.ofToken_decimal, if_neg (by omega), Int64.ofInt_toInt]
  rw [← hvalue]
  refine spells_intToken (Json.isIntToken_decimal _) ?_
  have hdigits : Json.digitCount (Json.decimal i.toInt) ≤ 19 :=
    Json.digitCount_decimal (by omega) (by omega)
  exact hdigits.trans (by decide)

theorem IsScientific.isFloatToken {s : Bytes} (h : IsScientific s) : Json.IsFloatToken s := by
  obtain ⟨sign, int, frac, exp, rfl, hm, hi, hf, he, hne⟩ := h
  exact ⟨sign, int, frac, exp, rfl, hm, hi, hf, he, by simp [hne]⟩

/-- Positional text with a point in it is a float token. -/
theorem IsFixed.isFloatToken {s : Bytes} (h : IsFixed s) (hdot : 0x2E ∈ s) :
    Json.IsFloatToken s := by
  obtain ⟨sign, int, frac, rfl, hm, hi, hf⟩ := h
  refine ⟨sign, int, frac, [], (List.append_nil _).symm, hm, hi, hf, .inl rfl, ?_⟩
  rintro hnil
  obtain ⟨rfl, -⟩ := List.append_eq_nil_iff.mp hnil
  rw [List.append_nil, List.mem_append] at hdot
  obtain hdot | hdot := hdot
  · rcases hm with rfl | rfl <;> simp at hdot
  · obtain rfl | ⟨⟨-, hd⟩, -⟩ := hi
    · simp at hdot
    · have := hd _ hdot
      unfold Json.IsDigit at this
      omega

/-- Positional text without a point is an integer token. -/
theorem IsFixed.isIntToken {s : Bytes} (h : IsFixed s) (hdot : 0x2E ∉ s) : Json.IsIntToken s := by
  obtain ⟨sign, int, frac, rfl, hm, hi, hf⟩ := h
  obtain rfl | ⟨ds, rfl, -⟩ := hf
  · exact ⟨sign, int, List.append_nil _, hm, hi⟩
  · exact absurd (by simp) hdot

theorem isFloatToken_dotZero {s : Bytes} (h : Json.IsIntToken s) :
    Json.IsFloatToken (s ++ ascii ".0") := by
  obtain ⟨sign, int, rfl, hm, hi⟩ := h
  refine ⟨sign, int, ascii ".0", [], (List.append_nil _).symm, hm, hi, .inr ?_, .inl rfl, by decide⟩
  exact ⟨[0x30], rfl, by simp, by decide⟩

theorem spells_floatToken {tok : Bytes} (h : Json.IsFloatToken tok) :
    Spells N tok (.double (N.strtod tok).1) 1 :=
  ⟨.float tok, fun _ => .float h, by rw [ofTree], Nat.le_refl 1, by simp [Tree.intTokens, DigitsFit]⟩

/-- A finite double is read back from either notation. -/
theorem spells_finite (hN : RoundTrips N) {x : D} (hnan : N.isnan x = false)
    (hinf : N.isinf x = false) : Spells N (formatFinite N x) (.double x) 1 := by
  obtain ⟨hsci, hsciRead⟩ := hN.scientific x hnan hinf
  obtain ⟨hfix, hfixRead⟩ := hN.fixed x hnan hinf
  have of {tok : Bytes} (htok : Json.IsFloatToken tok) (hread : (N.strtod tok).1 = x) :
      Spells N tok (.double x) 1 := hread ▸ spells_floatToken htok
  unfold formatFinite
  dsimp only
  split_ifs with hexp hdot
  · exact of hsci.isFloatToken hsciRead
  · exact of (hfix.isFloatToken hdot) hfixRead
  · refine of (isFloatToken_dotZero (hfix.isIntToken hdot)) ?_
    rw [hN.dotZero _ (hfix.isIntToken hdot), hfixRead]

/-- A double that is not a NaN of another kind is read back. -/
theorem spells_double (hN : RoundTrips N) {x : D} (hx : N.isnan x = true → x = N.quietNan) :
    Spells N (formatDouble N x) (.double x) 1 := by
  unfold formatDouble
  cases hnan : N.isnan x with
  | true =>
    rw [hx hnan]
    exact spells_literal (t := .nan) (by simp [literals_eq])
  | false =>
    cases hinf : N.isinf x with
    | false => exact spells_finite hN hnan hinf
    | true =>
      have hvalue := hN.isinf x hnan hinf
      cases hpos : N.positive x with
      | true =>
        rw [hpos, if_pos rfl] at hvalue
        rw [hvalue]
        exact spells_literal (t := .inf false) (by simp [literals_eq])
      | false =>
        rw [hpos, if_neg (by simp)] at hvalue
        rw [hvalue]
        exact spells_literal (t := .inf true) (by simp [literals_eq])

end Scalars

section Containers

variable {N : NativeDouble D}

/-- What the parser stores for a string: an encoding without a divided pair. -/
def StoredText (s : Bytes) : Prop :=
  ∃ cs, s = encodeAll cs ∧ (∀ c ∈ cs, c < 0x110000) ∧ Unpaired cs

/-- The elements that spell a code point are what `dump_string` writes for it. -/
theorem items_dumpChar {c : Nat} (hc : c < 0x110000) {is : List Item} {s r : Text}
    (h : Items is s r) : Items (asciiItems c ++ is) (dumpChar c ++ s) r := by
  by_cases hesc : Json.HasEscape c
  · rw [asciiItems, if_pos hesc]
    obtain rfl | rfl | rfl | rfl | rfl | rfl | rfl := hesc
    all_goals exact .escape (by decide) h
  · have hchar : dumpChar c = dumpCodePoint c := by
      unfold Json.HasEscape at hesc
      rw [dumpChar, if_neg (by omega), if_neg (by omega), if_neg (by omega), if_neg (by omega),
        if_neg (by omega), if_neg (by omega), if_neg (by omega)]
    rw [asciiItems, if_neg hesc, hchar, dumpCodePoint]
    by_cases hctl : c < 0x20
    · rw [if_neg (by omega), if_pos (by omega), if_pos hctl]
      exact .unicodeEscape (by omega) h
    by_cases hdel : c < 0x7F
    · rw [if_pos (by omega), if_neg hctl, if_pos hdel]
      unfold Json.HasEscape at hesc
      exact .raw (by omega) (by omega) (by omega) h
    by_cases hbmp : c ≤ 0xFFFF
    · rw [if_neg (by omega), if_pos hbmp, if_neg hctl, if_neg hdel, if_pos hbmp]
      exact .unicodeEscape (by omega) h
    · have hhigh : (c - 0x10000) >>> 10 = (c - 0x10000) / 0x400 := Nat.shiftRight_eq_div_pow _ 10
      have hlow : (c - 0x10000) &&& 0x3FF = (c - 0x10000) % 0x400 :=
        Nat.and_two_pow_sub_one_eq_mod _ 10
      rw [if_neg (by omega), if_neg hbmp, if_neg hctl, if_neg hdel, if_neg hbmp]
      dsimp only
      rw [hhigh, hlow, List.append_assoc]
      exact .unicodeEscape (by omega) (.unicodeEscape (by omega) h)

theorem items_dump {cs : Text} (h : ∀ c ∈ cs, c < 0x110000) (r : Text) :
    Items (cs.flatMap asciiItems) (cs.flatMap dumpChar ++ 0x22 :: r) r := by
  induction cs with
  | nil => exact .close
  | cons c cs ih =>
    rw [List.forall_mem_cons] at h
    rw [List.flatMap_cons, List.flatMap_cons, List.append_assoc]
    exact items_dumpChar h.1 (ih h.2)

/-- A stored string is read back from what `dump_string` writes. -/
theorem StoredText.items {s : Bytes} (h : StoredText s) :
    ∃ is, encodeAll (Json.decodeItems is) = s ∧
      ∀ r, ∃ text, dumpString s ++ r = 0x22 :: text ∧ Items is text r := by
  obtain ⟨cs, rfl, hlt, hunpaired⟩ := h
  refine ⟨cs.flatMap asciiItems, by rw [Json.decodeItems_asciiItems hlt hunpaired], fun r => ?_⟩
  refine ⟨cs.flatMap dumpChar ++ 0x22 :: r, ?_, items_dump hlt r⟩
  rw [dumpString_encodeAll hlt]
  simp

theorem spells_string {s : Bytes} (h : StoredText s) : Spells N (dumpString s) (.string s) 1 := by
  obtain ⟨is, hdecode, hitems⟩ := h.items
  refine ⟨.str is, fun r => ?_, by rw [ofTree, hdecode], Nat.le_refl 1,
    by simp [Tree.intTokens, DigitsFit]⟩
  obtain ⟨text, htext, his⟩ := hitems r
  rw [htext]
  exact .str his

theorem blank_space (s : Text) : Json.Blank (ascii " " ++ s) s := .cons (.inl rfl) .nil

/-- Spelled elements, joined and closed, are the rest of an array. -/
theorem exists_elements {texts : List Bytes} {ws : List (Value D)} {d : Nat}
    (h : List.Forall₂ (fun b w => Spells N b w d) texts ws) :
    ∃ ts, (texts ≠ [] → ∀ s r, Json.Blank s (joinComma texts ++ 0x5D :: r) →
        Derives (.elements ts) s r) ∧
      ts.length = texts.length ∧ ofElements N ts = ws ∧ Tree.depthElements ts ≤ d ∧
      DigitsFit kMaxIntDigits (Tree.intTokensElements ts) := by
  induction h with
  | nil => exact ⟨[], fun h => absurd rfl h, rfl, rfl, Nat.zero_le d, by
      simp [Tree.intTokensElements, DigitsFit]⟩
  | @cons text w texts ws hhead _ ih =>
    obtain ⟨t, hderives, rfl, hdepth, hdigits⟩ := hhead
    obtain ⟨ts, hrest, hlen, rfl, hdepths, hdigitss⟩ := ih
    refine ⟨t :: ts, fun _ s r hs => ?_, by simp [hlen], rfl, ?_, ?_⟩
    · cases texts with
      | nil =>
        obtain rfl := List.eq_nil_of_length_eq_zero hlen
        exact .lastElement hs (hderives _) .nil
      | cons y rest =>
        have hjoin : joinComma (text :: y :: rest) ++ 0x5D :: r =
            text ++ (0x2C :: (ascii " " ++ (joinComma (y :: rest) ++ 0x5D :: r))) := by
          rw [joinComma, List.append_assoc, List.append_assoc]
          rfl
        rw [hjoin] at hs
        exact .element hs (hderives _) .nil
          (hrest (List.cons_ne_nil _ _) _ r (blank_space _))
    · exact Nat.max_le.mpr ⟨hdepth, hdepths⟩
    · exact Json.digitsFit_append.mpr ⟨hdigits, hdigitss⟩

theorem spells_array {texts : List Bytes} {ws : List (Value D)} {d : Nat}
    (h : List.Forall₂ (fun b w => Spells N b w d) texts ws) :
    Spells N (0x5B :: (joinComma texts ++ [0x5D])) (.array ws) (1 + d) := by
  obtain ⟨ts, hderives, hlen, hws, hdepth, hdigits⟩ := exists_elements h
  refine ⟨.arr ts, fun r => ?_, by rw [ofTree, hws], ?_, hdigits⟩
  · have happend : 0x5B :: (joinComma texts ++ [0x5D]) ++ r =
        0x5B :: (joinComma texts ++ 0x5D :: r) := by simp
    rw [happend]
    cases texts with
    | nil =>
      obtain rfl := List.eq_nil_of_length_eq_zero hlen
      exact .emptyArr .nil
    | cons text texts => exact .arr (hderives (List.cons_ne_nil _ _) _ r .nil)
  · rw [Tree.depth]
    omega

/-- A key with the text of a value, and the member they spell. -/
def SpellsMember (N : NativeDouble D) (d : Nat) (entry : Bytes × Bytes)
    (member : Bytes × Value D) : Prop :=
  entry.1 = member.1 ∧ StoredText member.1 ∧ Spells N entry.2 member.2 d

/-- Spelled members, joined and closed, are the rest of an object. -/
theorem exists_members {entries : List (Bytes × Bytes)} {members : List (Bytes × Value D)} {d : Nat}
    (h : List.Forall₂ (SpellsMember N d) entries members) :
    ∃ ms, (entries ≠ [] → ∀ s r, Json.Blank s (joinComma (entries.map entryText) ++ 0x7D :: r) →
        Derives (.members ms) s r) ∧
      ms.length = entries.length ∧ ofMembers N ms = members ∧ Tree.depthMembers ms ≤ d ∧
      DigitsFit kMaxIntDigits (Tree.intTokensMembers ms) := by
  induction h with
  | nil => exact ⟨[], fun h => absurd rfl h, rfl, rfl, Nat.zero_le d, by
      simp [Tree.intTokensMembers, DigitsFit]⟩
  | @cons entry member entries members hhead _ ih =>
    obtain ⟨key, text⟩ := entry
    obtain ⟨key', w⟩ := member
    obtain ⟨hkey, hstored, t, hderives, hw, hdepth, hdigits⟩ := hhead
    dsimp only at hkey hstored hderives hw
    subst hkey hw
    obtain ⟨is, hdecode, hitems⟩ := hstored.items
    obtain ⟨ms, hrest, hlen, rfl, hdepths, hdigitss⟩ := ih
    refine ⟨(is, t) :: ms, fun _ s r hs => ?_, by simp [hlen], by rw [ofMembers, hdecode], ?_, ?_⟩
    · cases entries with
      | nil =>
        obtain rfl := List.eq_nil_of_length_eq_zero hlen
        have htext : joinComma ([(key, text)].map entryText) ++ 0x7D :: r =
            dumpString key ++ (0x3A :: (ascii " " ++ (text ++ 0x7D :: r))) := by
          rw [List.map_singleton, joinComma, entryText, List.append_assoc, List.append_assoc]
          rfl
        obtain ⟨s₁, hs₁, his⟩ := hitems (0x3A :: (ascii " " ++ (text ++ 0x7D :: r)))
        rw [htext, hs₁] at hs
        exact .lastMember hs his .nil (blank_space _) (hderives _) .nil
      | cons y rest =>
        have htext : joinComma (((key, text) :: y :: rest).map entryText) ++ 0x7D :: r =
            dumpString key ++ (0x3A :: (ascii " " ++ (text ++ (0x2C :: (ascii " " ++
              (joinComma ((y :: rest).map entryText) ++ 0x7D :: r)))))) := by
          rw [List.map_cons, List.map_cons, joinComma, entryText]
          simp only [List.append_assoc]
          rfl
        obtain ⟨s₁, hs₁, his⟩ := hitems (0x3A :: (ascii " " ++ (text ++ (0x2C :: (ascii " " ++
              (joinComma ((y :: rest).map entryText) ++ 0x7D :: r))))))
        rw [htext, hs₁] at hs
        exact .member hs his .nil (blank_space _) (hderives _) .nil
          (hrest (List.cons_ne_nil _ _) _ r (blank_space _))
    · exact Nat.max_le.mpr ⟨hdepth, hdepths⟩
    · exact Json.digitsFit_append.mpr ⟨hdigits, hdigitss⟩

theorem spells_object {entries : List (Bytes × Bytes)} {members : List (Bytes × Value D)} {d : Nat}
    (h : List.Forall₂ (SpellsMember N d) entries members)
    (hn : (members.map Prod.fst).Nodup) :
    Spells N (0x7B :: (joinComma (entries.map entryText) ++ [0x7D])) (.object members) (1 + d) := by
  obtain ⟨ms, hderives, hlen, hms, hdepth, hdigits⟩ := exists_members h
  refine ⟨.obj ms, fun r => ?_, by rw [ofTree, hms, Assoc.ofPairs_of_nodup hn], ?_, hdigits⟩
  · have happend : 0x7B :: (joinComma (entries.map entryText) ++ [0x7D]) ++ r =
        0x7B :: (joinComma (entries.map entryText) ++ 0x7D :: r) := by simp
    rw [happend]
    cases entries with
    | nil =>
      obtain rfl := List.eq_nil_of_length_eq_zero hlen
      exact .emptyObj .nil
    | cons entry entries => exact .obj (hderives (List.cons_ne_nil _ _) _ r .nil)
  · rw [Tree.depth]
    omega

end Containers

section Dumped

variable {N : NativeDouble D}

theorem depth_le_depthElements {ts : List Tree} {t : Tree} (h : t ∈ ts) :
    t.depth ≤ Tree.depthElements ts := by
  induction ts with
  | nil => cases h
  | cons u ts ih =>
    rw [Tree.depthElements]
    obtain rfl | h := List.mem_cons.mp h
    · exact Nat.le_max_left _ _
    · exact (ih h).trans (Nat.le_max_right _ _)

theorem depth_le_depthMembers {ms : List (List Item × Tree)} {m : List Item × Tree} (h : m ∈ ms) :
    m.2.depth ≤ Tree.depthMembers ms := by
  induction ms with
  | nil => cases h
  | cons u ms ih =>
    rw [Tree.depthMembers]
    obtain rfl | h := List.mem_cons.mp h
    · exact Nat.le_max_left _ _
    · exact (ih h).trans (Nat.le_max_right _ _)

theorem digitsFit_element {limit : Nat} {ts : List Tree}
    (h : DigitsFit limit (Tree.intTokensElements ts)) : ∀ t ∈ ts, DigitsFit limit t.intTokens := by
  induction ts with
  | nil => simp
  | cons t ts ih =>
    rw [Tree.intTokensElements, Json.digitsFit_append] at h
    exact List.forall_mem_cons.mpr ⟨h.1, ih h.2⟩

theorem digitsFit_member {limit : Nat} {ms : List (List Item × Tree)}
    (h : DigitsFit limit (Tree.intTokensMembers ms)) : ∀ m ∈ ms, DigitsFit limit m.2.intTokens := by
  induction ms with
  | nil => simp
  | cons m ms ih =>
    rw [Tree.intTokensMembers, Json.digitsFit_append] at h
    exact List.forall_mem_cons.mpr ⟨h.1, ih h.2⟩

theorem storedText_decodeItems {is : List Item} (hp : Json.ProperItems is)
    (hplain : ∀ i ∈ is, i.Plain) : StoredText (encodeAll (Json.decodeItems is)) :=
  ⟨Json.decodeItems is, rfl, Json.decodeItems_lt hp, Json.unpaired_decodeItems hplain⟩

/-- The text of a parsed value spells it, with its members sorted. -/
theorem spells_dump (hN : RoundTrips N) {t : Tree} (hp : t.Proper)
    (hplain : t.AllItems Item.Plain) (hd : DigitsFit kMaxIntDigits t.intTokens) :
    Spells N (dumpValue N (ofTree N t)) (sortMembers (ofTree N t)) t.depth := by
  induction t using Tree.induct with
  | null =>
    have hlit : (ascii "null", Tree.null) ∈ Json.literals := by simp [literals_eq]
    exact spells_literal hlit
  | bool b =>
    cases b
    · have hlit : (ascii "false", Tree.bool false) ∈ Json.literals := by simp [literals_eq]
      exact spells_literal hlit
    · have hlit : (ascii "true", Tree.bool true) ∈ Json.literals := by simp [literals_eq]
      exact spells_literal hlit
  | nan => exact spells_double hN fun _ => rfl
  | inf negative =>
    cases negative
    · exact spells_double hN fun h => absurd h (by simp [hN.infinity.1])
    · exact spells_double hN fun h => absurd h (by simp [hN.negInfinity.1])
  | int tok =>
    have htoken : Spells N tok (intValue tok) 1 :=
      spells_intToken hp (hd tok (by simp [Tree.intTokens]))
    show Spells N (dumpValue N (intValue tok)) (sortMembers (intValue tok)) 1
    unfold intValue at htoken ⊢
    split
    · next hr =>
      rw [if_pos hr] at htoken
      exact htoken
    · exact spells_int _
  | float tok => exact spells_double hN fun h => absurd h (by simp [hN.strtod_isnan tok hp])
  | str is => exact spells_string (storedText_decodeItems hp hplain)
  | arr ts ih =>
    rw [ofTree, ofElements_eq, dumpValue_array, sortMembers_array, List.map_map, List.map_map]
    refine spells_array (d := Tree.depthElements ts) ?_
    rw [List.forall₂_map_left_iff, List.forall₂_map_right_iff, List.forall₂_same]
    intro t ht
    have := ih t ht (Tree.properElements_iff.mp hp t ht) (Tree.allItemsElements_iff.mp hplain t ht)
      (digitsFit_element hd t ht)
    exact this.mono (depth_le_depthElements ht)
  | obj ms ih =>
    rw [ofTree, dumpValue_object, sortMembers_object]
    refine spells_object (d := Tree.depthMembers ms) ?_ ?_
    · rw [List.forall₂_map_left_iff, List.forall₂_map_right_iff, List.forall₂_same]
      intro e he
      have he := Assoc.mem_of_last? (Assoc.mem_ofPairs.mp
        (show (e.1, e.2) ∈ _ from (List.mem_insertionSort _).mp he))
      rw [ofMembers_eq] at he
      obtain ⟨m, hm, hme⟩ := List.mem_map.mp he
      obtain ⟨hkey, hvalue⟩ := Prod.mk.inj hme
      have hproper := Tree.properMembers_iff.mp hp m hm
      have hitems := Tree.allItemsMembers_iff.mp hplain m hm
      have := ih m hm hproper.2 hitems.2 (digitsFit_member hd m hm)
      refine ⟨rfl, ?_, ?_⟩
      · show StoredText e.1
        rw [← hkey]
        exact storedText_decodeItems hproper.1 hitems.1
      · show Spells N (dumpValue N e.2) (sortMembers e.2) _
        rw [← hvalue]
        exact this.mono (depth_le_depthMembers hm)
    · rw [List.map_map]
      show ((Assoc.ofPairs (ofMembers N ms)).insertionSort entryLe |>.map Prod.fst).Nodup
      have hperm := List.perm_insertionSort entryLe (Assoc.ofPairs (ofMembers N ms))
      exact (hperm.map Prod.fst).nodup_iff.mpr (Assoc.nodup_ofPairs _)

/-- A raw character or a short escape on sanitised text is no surrogate. -/
theorem plain_rule : Json.ItemRule Utf8.IsScalar Item.Plain where
  raw c hc := by
    show ¬ Json.IsHighSurrogate c ∧ ¬ Json.IsLowSurrogate c
    unfold Utf8.IsScalar at hc
    unfold Json.IsHighSurrogate Json.IsLowSurrogate
    omega
  escape e c he := by
    show ¬ Json.IsHighSurrogate c ∧ ¬ Json.IsLowSurrogate c
    have := Json.escapeOf_lt he
    unfold Json.IsHighSurrogate Json.IsLowSurrogate
    omega
  unicode _ _ := trivial

theorem RoundTrips.printsPlain (hN : RoundTrips N) : PrintsPlain N where
  scientific x hnan hinf := by
    obtain ⟨⟨sign, int, frac, exp, he, hm, hi, hf, hexp, -⟩, -⟩ := hN.scientific x hnan hinf
    rw [he]
    exact printable_append.mpr ⟨printable_append.mpr
      ⟨Json.IsIntToken.printable ⟨sign, int, rfl, hm, hi⟩, hf.printable⟩, hexp.printable⟩
  fixed x hnan hinf := by
    obtain ⟨⟨sign, int, frac, he, hm, hi, hf⟩, -⟩ := hN.fixed x hnan hinf
    rw [he]
    exact printable_append.mpr
      ⟨Json.IsIntToken.printable ⟨sign, int, rfl, hm, hi⟩, hf.printable⟩

/-- Printable bytes that spell a value within the limits are parsed to it. -/
theorem Spells.parse_eq (hN : RoundTrips N) {b : Bytes} {w : Value D} (h : Spells N b w kMaxDepth)
    (hb : Printable b) : parse N b = some w := by
  obtain ⟨t, hderives, rfl, hdepth, hdigits⟩ := h
  refine (parse_eq_some_iff hN.reads b _).mpr ⟨t, ?_, ⟨Nat.add_le_add_right hdepth 1, hdigits⟩, rfl⟩
  rw [Utf8.decodeReplace_ascii fun c hc => Nat.lt_of_le_of_lt (hb c hc).2 (by omega)]
  have := hderives []
  rw [List.append_nil] at this
  exact ⟨b, [], .nil, this, .nil⟩

end Dumped

/-- Parsing the text of a parsed value succeeds with the same value, its members sorted at every
level, and that value has the same text. -/
theorem parse_dump {N : NativeDouble D} (hN : RoundTrips N) {text : Bytes} {v : Value D}
    (h : parse N text = some v) :
    parse N (dumpValue N v) = some (sortMembers v) ∧
      dumpValue N (sortMembers v) = dumpValue N v := by
  refine ⟨?_, dumpValue_sortMembers N v⟩
  obtain ⟨t, hdoc, ⟨hdepth, hdigits⟩, rfl⟩ := (parse_eq_some_iff hN.reads text v).mp h
  have hproper := hdoc.proper (Utf8.decodeReplace_lt text)
  have hplain := hdoc.allItems plain_rule fun c hc => Utf8.isScalar_of_mem_decodeReplace hc
  have hspells := (spells_dump hN hproper hplain hdigits).mono (Nat.le_of_add_le_add_right hdepth)
  exact hspells.parse_eq hN
    (dumpValue_printable hN.printsPlain (plainRaws_parse hN.reads h))

theorem Single.roundTrips : RoundTrips Single.native where
  reads := Single.strtodReads
  quietNan := rfl
  infinity := by decide
  negInfinity := by decide
  strtod_isnan _ _ := rfl
  isinf x _ h := by
    cases x with
    | inf negative => cases negative <;> rfl
    | nan => cases h
    | one => cases h
  scientific x hnan hinf := by
    refine ⟨⟨[], [0x31], [], [0x65, 0x2B, 0x30, 0x30], rfl, .inl rfl, ?_, .inl rfl, ?_, by simp⟩, ?_⟩
    · exact .inr ⟨⟨by simp, by decide⟩, by decide⟩
    · exact .inr ⟨0x65, [0x2B], [0x30, 0x30], rfl, .inl rfl, .inr (.inl rfl), by simp, by decide⟩
    · cases x with
      | one => rfl
      | nan => cases hnan
      | inf negative => cases negative <;> cases hinf
  fixed x hnan hinf := by
    refine ⟨⟨[], [0x31], [], rfl, .inl rfl, .inr ⟨⟨by simp, by decide⟩, by decide⟩, .inl rfl⟩, ?_⟩
    cases x with
    | one => rfl
    | nan => cases hnan
    | inf negative => cases negative <;> cases hinf
  dotZero _ _ := rfl

/-- Lone surrogates, a repeated key, a large integer and a double that is not finite. -/
def sampleDocument : Bytes :=
  ascii ("\x7b\"b\":1,\"a\":\"\\ud800x\\udc00\"," ++
    "\"b\":[99999999999999999999,NaN,1.0]\x7d")

theorem parse_dump_sample :
    ∃ v, parse Single.native sampleDocument = some v ∧
      parse Single.native (dumpValue Single.native v) = some (sortMembers v) ∧
      dumpValue Single.native (sortMembers v) = dumpValue Single.native v := by
  have hsome : (parse Single.native sampleDocument).isSome := by decide +kernel
  obtain ⟨v, hv⟩ := Option.isSome_iff_exists.mp hsome
  exact ⟨v, hv, parse_dump Single.roundTrips hv⟩

end Cpp
