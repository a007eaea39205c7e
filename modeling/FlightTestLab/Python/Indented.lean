import FlightTestLab.Library.Json.Strings
import FlightTestLab.Python.Json

/-!
# Indented JSON, written and read back

`json.dumps` with `indent=2`, and that `json.loads` undoes it on the values that
have no float and whose strings hold no divided surrogate pair.

## Main definitions

- `Python.dumpsIndented`: `json.dumps(value, indent=2, sort_keys=True)`
- `Python.Value.Canonical`: the values without floats whose keys are in order

## Main results

- `Python.loads_dumpsIndented`: loading undoes dumping
- `Python.lines_dumpsIndented`: the text is ASCII, without a carriage return
-/

namespace Python

open Json (Text Tree Item Items Derives Blank Unpaired ascii asciiItems)

variable {F : Type}

section Dumps

/-- The start of a line at a level of nesting. -/
def lineBreak (level : Nat) : Text := 0x0A :: List.replicate (2 * level) 0x20

/-- Texts on lines of their own, with commas between them. -/
def joinLines (level : Nat) : List Text → Text
  | [] => []
  | [x] => x
  | x :: y :: rest => x ++ 0x2C :: (lineBreak level ++ joinLines level (y :: rest))

/-- The items of a container at a level of nesting, between its brackets. -/
def inBrackets (opening closing level : Nat) (texts : List Text) : Text :=
  if texts = [] then [opening, closing]
  else
    opening :: (lineBreak (level + 1) ++
      (joinLines (level + 1) texts ++ (lineBreak level ++ [closing])))

mutual
/-- `json.dumps(value, indent=2, sort_keys=True)`, from a level of nesting on. -/
def dumpsIndented (fl : FloatOps F) (level : Nat) : Value F → Text
  | .none => ascii "null"
  | .bool true => ascii "true"
  | .bool false => ascii "false"
  | .int i => Json.decimal i
  | .float x => floatText fl x
  | .str s => encodeString s
  | .list vs => inBrackets 0x5B 0x5D level (dumpsIndentedElements fl (level + 1) vs)
  | .dict items =>
    inBrackets 0x7B 0x7D level
      (((dumpsIndentedItems fl (level + 1) items).insertionSort keyLe).map itemText)
/-- The texts of list items. -/
def dumpsIndentedElements (fl : FloatOps F) (level : Nat) : List (Value F) → List Text
  | [] => []
  | v :: vs => dumpsIndented fl level v :: dumpsIndentedElements fl level vs
/-- The keys of a `dict` with the texts of their values. -/
def dumpsIndentedItems (fl : FloatOps F) (level : Nat) :
    List (Text × Value F) → List (Text × Text)
  | [] => []
  | (k, v) :: items => (k, dumpsIndented fl level v) :: dumpsIndentedItems fl level items
end

example : dumpsIndented FloatOps.tokens 0
    (.dict [(ascii "b", .list [.int 1, .none]), (ascii "a", .dict [])]) =
    ascii "\x7b\n  \"a\": \x7b\x7d,\n  \"b\": [\n    1,\n    null\n  ]\n\x7d" := by
  decide +kernel

end Dumps

section Values

/-- A string without a divided surrogate pair. -/
def LoadableText (s : Text) : Prop := (∀ c ∈ s, c < 0x110000) ∧ Unpaired s

theorem loadable_ascii {s : Text} (h : ∀ c ∈ s, c < 0x80) : LoadableText s := by
  refine ⟨fun c hc => (h c hc).trans (by omega), ?_⟩
  induction s with
  | nil => exact .nil
  | cons c s ih =>
    rw [List.forall_mem_cons] at h
    refine List.isChain_cons.mpr ⟨?_, ih h.2⟩
    rintro d - ⟨hhigh, -⟩
    unfold Json.IsHighSurrogate at hhigh
    omega

mutual
/-- The value has no float, its integers and strings are among those given, and the keys of
each `dict` are in order. -/
def Value.Canonical (ints : Int → Prop) (texts : Text → Prop) : Value F → Prop
  | .none | .bool _ => True
  | .int i => ints i
  | .float _ => False
  | .str s => texts s
  | .list vs => CanonicalElements ints texts vs
  | .dict items =>
    CanonicalItems ints texts items ∧ (items.map Prod.fst).Pairwise (· < ·)
/-- All list elements are canonical. -/
def CanonicalElements (ints : Int → Prop) (texts : Text → Prop) : List (Value F) → Prop
  | [] => True
  | v :: vs => v.Canonical ints texts ∧ CanonicalElements ints texts vs
/-- All values of a `dict` are canonical, and its keys are among the strings given. -/
def CanonicalItems (ints : Int → Prop) (texts : Text → Prop) : List (Text × Value F) → Prop
  | [] => True
  | (k, v) :: items => texts k ∧ v.Canonical ints texts ∧ CanonicalItems ints texts items
end

variable {ints : Int → Prop} {texts : Text → Prop}

theorem canonicalElements_iff {vs : List (Value F)} :
    CanonicalElements ints texts vs ↔ ∀ v ∈ vs, v.Canonical ints texts := by
  induction vs with
  | nil => simp [CanonicalElements]
  | cons v vs ih => simp [CanonicalElements, ih]

theorem canonicalItems_iff {items : List (Text × Value F)} :
    CanonicalItems ints texts items ↔
      ∀ item ∈ items, texts item.1 ∧ item.2.Canonical ints texts := by
  induction items with
  | nil => simp [CanonicalItems]
  | cons item items ih => simp [CanonicalItems, ih, and_assoc]

/-- The integers that a decoder takes from their text. -/
def Decoder.Takes (D : Decoder F) (i : Int) : Prop := D.parseInt (Json.decimal i) = .ok i

end Values

section Strings

theorem escapeChar_of_not_hasEscape {c : Nat} (h : ¬ Json.HasEscape c) :
    escapeChar c =
      if 0x20 ≤ c ∧ c ≤ 0x7E then [c]
      else if c < 0x10000 then Json.unicodeEscape c
      else
        Json.unicodeEscape (0xD800 + (c - 0x10000) / 0x400) ++
          Json.unicodeEscape (0xDC00 + (c - 0x10000) % 0x400) := by
  unfold Json.HasEscape at h
  rw [escapeChar, if_neg (by omega), if_neg (by omega), if_neg (by omega), if_neg (by omega),
    if_neg (by omega), if_neg (by omega), if_neg (by omega)]

/-- The elements that spell a code point are what the encoder writes for it. -/
theorem items_escapeChar {c : Nat} (hc : c < 0x110000) {is : List Item} {s r : Text}
    (h : Items is s r) : Items (asciiItems c ++ is) (escapeChar c ++ s) r := by
  by_cases hesc : Json.HasEscape c
  · rw [asciiItems, if_pos hesc]
    obtain rfl | rfl | rfl | rfl | rfl | rfl | rfl := hesc
    all_goals exact .escape (by decide) h
  rw [escapeChar_of_not_hasEscape hesc, asciiItems, if_neg hesc]
  by_cases hprint : 0x20 ≤ c ∧ c < 0x7F
  · have hle : 0x20 ≤ c ∧ c ≤ 0x7E := by omega
    rw [if_pos hprint, if_pos hle]
    unfold Json.HasEscape at hesc
    exact .raw (by omega) (by omega) (by omega) h
  have hle : ¬ (0x20 ≤ c ∧ c ≤ 0x7E) := by omega
  rw [if_neg hprint, if_neg hle]
  by_cases hbmp : c < 0x10000
  · rw [if_pos (Nat.le_of_lt_succ hbmp), if_pos hbmp]
    exact .unicodeEscape hbmp h
  · rw [if_neg fun hle => hbmp (Nat.lt_succ_of_le hle), if_neg hbmp, List.append_assoc]
    exact .unicodeEscape (by omega) (.unicodeEscape (by omega) h)

theorem items_encodeString {s : Text} (h : ∀ c ∈ s, c < 0x110000) (r : Text) :
    Items (s.flatMap asciiItems) (s.flatMap escapeChar ++ 0x22 :: r) r := by
  induction s with
  | nil => exact .close
  | cons c s ih =>
    rw [List.forall_mem_cons] at h
    rw [List.flatMap_cons, List.flatMap_cons, List.append_assoc]
    exact items_escapeChar h.1 (ih h.2)

/-- A loadable string is read back from its literal. -/
theorem LoadableText.items {s : Text} (h : LoadableText s) :
    ∃ is, Json.decodeItems is = s ∧
      ∀ r, ∃ text, encodeString s ++ r = 0x22 :: text ∧ Items is text r := by
  obtain ⟨hlt, hunpaired⟩ := h
  refine ⟨s.flatMap asciiItems, Json.decodeItems_asciiItems hlt hunpaired, fun r => ?_⟩
  refine ⟨s.flatMap escapeChar ++ 0x22 :: r, ?_, items_encodeString hlt r⟩
  rw [encodeString]
  simp

end Strings

section Containers

variable {D : Decoder F}

/-- The text is that of a tree which the decoder builds the value of, whatever follows. -/
def Spells (D : Decoder F) (text : Text) (v : Value F) : Prop :=
  ∃ t, (∀ r, Derives (.value t) (text ++ r) r) ∧ build D t = .ok v ∧ t.depth ≤ v.depth

theorem blank_replicate (n : Nat) (s : Text) : Blank (List.replicate n 0x20 ++ s) s := by
  induction n with
  | zero => exact .nil
  | succ n ih => exact .cons (.inl rfl) ih

theorem blank_lineBreak (level : Nat) (s : Text) : Blank (lineBreak level ++ s) s :=
  .cons (.inr (.inr (.inl rfl))) (blank_replicate _ s)

/-- Texts are joined by commas, with blanks after them. -/
structure Joins (join : List Text → Text) : Prop where
  one : ∀ x, join [x] = x
  more : ∀ x y rest, ∃ gap, (∀ s, Blank (gap ++ s) s) ∧
    join (x :: y :: rest) = x ++ 0x2C :: (gap ++ join (y :: rest))

theorem joins_joinLines (level : Nat) : Joins (joinLines level) where
  one _ := rfl
  more _ _ _ := ⟨lineBreak level, blank_lineBreak level, rfl⟩

variable {join : List Text → Text}

/-- Spelled elements, joined, are the rest of an array. -/
theorem derives_elements (hj : Joins join) {texts : List Text} {vs : List (Value F)}
    (h : List.Forall₂ (Spells D) texts vs) :
    ∃ ts, (texts ≠ [] → ∀ s e r, Blank s (join texts ++ e) → Blank e (0x5D :: r) →
        Derives (.elements ts) s r) ∧
      (texts = [] → ts = []) ∧ buildElements D ts = .ok vs ∧
      Tree.depthElements ts ≤ Value.depthElements vs := by
  induction h with
  | nil => exact ⟨[], fun h => absurd rfl h, fun _ => rfl, rfl, Nat.le_refl _⟩
  | @cons text v texts vs hhead _ ih =>
    obtain ⟨t, hderives, hbuild, hdepth⟩ := hhead
    obtain ⟨ts, hrest, hnil, hbuilds, hdepths⟩ := ih
    refine ⟨t :: ts, fun _ s e r hs he => ?_, nofun, ?_, max_le_max hdepth hdepths⟩
    · cases texts with
      | nil =>
        obtain rfl := hnil rfl
        rw [hj.one] at hs
        exact .lastElement hs (hderives _) he
      | cons y rest =>
        obtain ⟨gap, hgap, hjoin⟩ := hj.more text y rest
        rw [hjoin, List.append_assoc, List.cons_append, List.append_assoc] at hs
        exact .element hs (hderives _) .nil
          (hrest (List.cons_ne_nil _ _) _ e r (hgap _) he)
    · rw [buildElements, hbuild, hbuilds]

theorem spells_emptyArr : Spells D [0x5B, 0x5D] (.list []) :=
  ⟨.arr [], fun _ => .emptyArr .nil, rfl, Nat.le_refl _⟩

/-- Spelled elements, joined, with blanks around them and in brackets, spell a list. -/
theorem spells_arr (hj : Joins join) {texts : List Text} {vs : List (Value F)}
    (h : List.Forall₂ (Spells D) texts vs) (hne : texts ≠ []) {front back : Text}
    (hfront : ∀ s, Blank (front ++ s) s) (hback : ∀ s, Blank (back ++ s) s) :
    Spells D (0x5B :: (front ++ (join texts ++ (back ++ [0x5D])))) (.list vs) := by
  obtain ⟨ts, hderives, -, hbuild, hdepth⟩ := derives_elements hj h
  refine ⟨.arr ts, fun r => ?_, by rw [build, hbuild], Nat.add_le_add_left hdepth 1⟩
  rw [List.cons_append, List.append_assoc, List.append_assoc, List.append_assoc]
  exact .arr (hderives hne _ _ r (hfront _) (hback _))

theorem spells_list {texts : List Text} {vs : List (Value F)}
    (h : List.Forall₂ (Spells D) texts vs) (level : Nat) :
    Spells D (inBrackets 0x5B 0x5D level texts) (.list vs) := by
  rw [inBrackets]
  split_ifs with hempty
  · rw [hempty] at h
    cases h
    exact spells_emptyArr
  · exact spells_arr (joins_joinLines _) h hempty (blank_lineBreak _) (blank_lineBreak _)

theorem keys_dumpsIndentedItems (fl : FloatOps F) (level : Nat) (items : List (Text × Value F)) :
    (dumpsIndentedItems fl level items).map Prod.fst = items.map Prod.fst := by
  induction items with
  | nil => rfl
  | cons item items ih => rw [dumpsIndentedItems, List.map_cons, List.map_cons, ih]

theorem sort_eq_self {entries : List (Text × Text)}
    (h : (entries.map Prod.fst).Pairwise (· < ·)) : entries.insertionSort keyLe = entries := by
  rw [List.pairwise_map] at h
  have hle : entries.Pairwise keyLe := h.imp fun hlt => lt_asymm hlt
  exact hle.insertionSort_eq

/-- A key with the text of a value, and the item they spell. -/
def SpellsItem (D : Decoder F) (entry : Text × Text) (item : Text × Value F) : Prop :=
  entry.1 = item.1 ∧ LoadableText item.1 ∧ Spells D entry.2 item.2

/-- Spelled items, joined, are the rest of an object. -/
theorem derives_members (hj : Joins join) {entries : List (Text × Text)}
    {items : List (Text × Value F)} (h : List.Forall₂ (SpellsItem D) entries items) :
    ∃ ms, (entries ≠ [] → ∀ s e r, Blank s (join (entries.map itemText) ++ e) →
        Blank e (0x7D :: r) → Derives (.members ms) s r) ∧
      (entries = [] → ms = []) ∧ buildMembers D ms = .ok items ∧
      Tree.depthMembers ms ≤ Value.depthItems items := by
  induction h with
  | nil => exact ⟨[], fun h => absurd rfl h, fun _ => rfl, rfl, Nat.le_refl _⟩
  | @cons entry item entries items hhead _ ih =>
    obtain ⟨key, text⟩ := entry
    obtain ⟨key', v⟩ := item
    obtain ⟨hkey, hloadable, t, hderives, hbuild, hdepth⟩ := hhead
    dsimp only at hkey hloadable hderives hbuild hdepth
    subst hkey
    obtain ⟨is, hdecode, hitems⟩ := hloadable.items
    obtain ⟨ms, hrest, hnil, hbuilds, hdepths⟩ := ih
    have hspace (s : Text) : Blank (0x20 :: s) s := .cons (.inl rfl) .nil
    refine ⟨(is, t) :: ms, fun _ s e r hs he => ?_, nofun, ?_, max_le_max hdepth hdepths⟩
    · cases entries with
      | nil =>
        obtain rfl := hnil rfl
        have htext : join ([(key, text)].map itemText) ++ e =
            encodeString key ++ 0x3A :: 0x20 :: (text ++ e) := by
          rw [List.map_singleton, hj.one, itemText, List.append_assoc, List.append_assoc]
          rfl
        obtain ⟨s₁, hs₁, his⟩ := hitems (0x3A :: 0x20 :: (text ++ e))
        rw [htext, hs₁] at hs
        exact .lastMember hs his .nil (hspace _) (hderives _) he
      | cons y rest =>
        obtain ⟨gap, hgap, hjoin⟩ := hj.more (itemText (key, text)) (itemText y)
          (rest.map itemText)
        have htext : join (((key, text) :: y :: rest).map itemText) ++ e =
            encodeString key ++ 0x3A :: 0x20 :: (text ++ 0x2C :: (gap ++
              (join ((y :: rest).map itemText) ++ e))) := by
          rw [List.map_cons, List.map_cons, hjoin, itemText]
          simp only [List.append_assoc, List.cons_append]
          rfl
        obtain ⟨s₁, hs₁, his⟩ := hitems (0x3A :: 0x20 :: (text ++ 0x2C :: (gap ++
              (join ((y :: rest).map itemText) ++ e))))
        rw [htext, hs₁] at hs
        exact .member hs his .nil (hspace _) (hderives _) .nil
          (hrest (List.cons_ne_nil _ _) _ e r (hgap _) he)
    · rw [buildMembers, hbuild, hbuilds, hdecode]

theorem spells_emptyObj (hD : D.objectPairs = dictOfPairs) : Spells D [0x7B, 0x7D] (.dict []) := by
  refine ⟨.obj [], fun _ => .emptyObj .nil, ?_, Nat.le_refl _⟩
  rw [build, buildMembers, hD]
  rfl

/-- Spelled items, joined, with blanks around them and in braces, spell a `dict`. -/
theorem spells_obj (hj : Joins join) (hD : D.objectPairs = dictOfPairs)
    {entries : List (Text × Text)} {items : List (Text × Value F)}
    (h : List.Forall₂ (SpellsItem D) entries items) (hne : entries ≠ [])
    (hn : (items.map Prod.fst).Nodup) {front back : Text}
    (hfront : ∀ s, Blank (front ++ s) s) (hback : ∀ s, Blank (back ++ s) s) :
    Spells D (0x7B :: (front ++ (join (entries.map itemText) ++ (back ++ [0x7D]))))
      (.dict items) := by
  obtain ⟨ms, hderives, -, hbuild, hdepth⟩ := derives_members hj h
  refine ⟨.obj ms, fun r => ?_, ?_, Nat.add_le_add_left hdepth 1⟩
  · rw [List.cons_append, List.append_assoc, List.append_assoc, List.append_assoc]
    exact .obj (hderives hne _ _ r (hfront _) (hback _))
  · rw [build, hbuild, hD]
    show Except.ok (Value.dict (Assoc.ofPairs items)) = _
    rw [Assoc.ofPairs_of_nodup hn]

theorem spells_dict (hD : D.objectPairs = dictOfPairs) {entries : List (Text × Text)}
    {items : List (Text × Value F)} (h : List.Forall₂ (SpellsItem D) entries items)
    (hn : (items.map Prod.fst).Nodup) (level : Nat) :
    Spells D (inBrackets 0x7B 0x7D level (entries.map itemText)) (.dict items) := by
  rw [inBrackets]
  split_ifs with hempty
  · rw [List.map_eq_nil_iff.mp hempty] at h
    cases h
    exact spells_emptyObj hD
  · exact spells_obj (joins_joinLines _) hD h (fun hnil => hempty (List.map_eq_nil_iff.mpr hnil)) hn
      (blank_lineBreak _) (blank_lineBreak _)

end Containers

section Loads

variable {D : Decoder F}

theorem spells_literal {lit : Text} {t : Tree} {v : Value F} (h : (lit, t) ∈ Json.literals)
    (hbuild : build D t = .ok v) (hdepth : t.depth ≤ v.depth) : Spells D lit v :=
  ⟨t, fun _ => .literal h, hbuild, hdepth⟩

mutual
theorem spells_dumpsIndented (hD : D.objectPairs = dictOfPairs) (fl : FloatOps F) :
    ∀ (v : Value F) (level : Nat), v.Canonical D.Takes LoadableText →
      Spells D (dumpsIndented fl level v) v
  | .none, _, _ => by
    rw [dumpsIndented]
    exact spells_literal (t := .null) (.head _) rfl (Nat.le_refl 1)
  | .bool true, _, _ => by
    rw [dumpsIndented]
    exact spells_literal (t := .bool true) (.tail _ (.head _)) rfl (Nat.le_refl 1)
  | .bool false, _, _ => by
    rw [dumpsIndented]
    exact spells_literal (t := .bool false) (.tail _ (.tail _ (.head _))) rfl (Nat.le_refl 1)
  | .int i, _, h => by
    refine ⟨.int (Json.decimal i), fun _ => .int (Json.isIntToken_decimal i), ?_, Nat.le_refl 1⟩
    rw [Value.Canonical] at h
    rw [build, h]
  | .str s, _, h => by
    rw [Value.Canonical] at h
    obtain ⟨is, hdecode, hitems⟩ := h.items
    refine ⟨.str is, fun r => ?_, by rw [build, hdecode], Nat.le_refl 1⟩
    obtain ⟨text, htext, his⟩ := hitems r
    rw [dumpsIndented, htext]
    exact .str his
  | .list vs, level, h => by
    rw [Value.Canonical] at h
    exact spells_list (spells_dumpsIndentedElements hD fl vs (level + 1) h) level
  | .dict items, level, h => by
    rw [Value.Canonical] at h
    have hspells := spells_dumpsIndentedItems hD fl items (level + 1) h.1
    -- the texts keep the keys, which are in order already
    have hkeys : (dumpsIndentedItems fl (level + 1) items).map Prod.fst = items.map Prod.fst :=
      keys_dumpsIndentedItems fl (level + 1) items
    rw [dumpsIndented, sort_eq_self (by rw [hkeys]; exact h.2)]
    exact spells_dict hD hspells (h.2.imp ne_of_lt) level
theorem spells_dumpsIndentedElements (hD : D.objectPairs = dictOfPairs) (fl : FloatOps F) :
    ∀ (vs : List (Value F)) (level : Nat), CanonicalElements D.Takes LoadableText vs →
      List.Forall₂ (Spells D) (dumpsIndentedElements fl level vs) vs
  | [], _, _ => .nil
  | v :: vs, level, h => by
    rw [CanonicalElements] at h
    exact .cons (spells_dumpsIndented hD fl v level h.1)
      (spells_dumpsIndentedElements hD fl vs level h.2)
theorem spells_dumpsIndentedItems (hD : D.objectPairs = dictOfPairs) (fl : FloatOps F) :
    ∀ (items : List (Text × Value F)) (level : Nat), CanonicalItems D.Takes LoadableText items →
      List.Forall₂ (SpellsItem D) (dumpsIndentedItems fl level items) items
  | [], _, _ => .nil
  | (k, v) :: items, level, h => by
    rw [CanonicalItems] at h
    exact .cons ⟨rfl, h.1, spells_dumpsIndented hD fl v level h.2.1⟩
      (spells_dumpsIndentedItems hD fl items level h.2.2)
end

/-- Loading undoes dumping, where the nesting is within the decoder's. -/
theorem loads_dumpsIndented (hD : D.objectPairs = dictOfPairs) (fl : FloatOps F) {v : Value F}
    (h : v.Canonical D.Takes LoadableText)
    (hdeep : ∀ t : Tree, t.depth ≤ v.depth → D.overflows t = false) :
    loads D (dumpsIndented fl 0 v) = .ok v := by
  obtain ⟨t, hderives, hbuild, hdepth⟩ := spells_dumpsIndented hD fl v 0 h
  have hdocument : Json.Document t (dumpsIndented fl 0 v) := by
    refine ⟨_, [], .nil, ?_, .nil⟩
    simpa using hderives []
  obtain ⟨c, s, hs, hc⟩ := hdocument.head_lt
  rw [loads, Json.readDocument_eq_some_iff.mpr hdocument]
  dsimp only
  rw [hdeep t hdepth, hbuild, hs, List.head?_cons, if_neg]
  · rfl
  · intro h
    have : c = 0xFEFF := Option.some.inj h
    omega

end Loads

section Lines

/-- Lines of printable ASCII. -/
def Lines (s : Text) : Prop := ∀ c ∈ s, c = 0x0A ∨ 0x20 ≤ c ∧ c < 0x7F

instance (s : Text) : Decidable (Lines s) := inferInstanceAs (Decidable (∀ _ ∈ _, _))

theorem lines_append {s t : Text} : Lines (s ++ t) ↔ Lines s ∧ Lines t := List.forall_mem_append

theorem lines_cons {c : Nat} {s : Text} :
    Lines (c :: s) ↔ (c = 0x0A ∨ 0x20 ≤ c ∧ c < 0x7F) ∧ Lines s := List.forall_mem_cons

theorem lines_lineBreak (level : Nat) : Lines (lineBreak level) := by
  refine lines_cons.mpr ⟨.inl rfl, ?_⟩
  intro c hc
  rw [List.eq_of_mem_replicate hc]
  omega

theorem lines_joinLines (level : Nat) {texts : List Text} (h : ∀ text ∈ texts, Lines text) :
    Lines (joinLines level texts) := by
  induction texts using joinLines.induct with
  | case1 => exact fun c hc => absurd hc (List.not_mem_nil)
  | case2 x => exact h x List.mem_cons_self
  | case3 x y rest ih =>
    rw [List.forall_mem_cons] at h
    rw [joinLines]
    exact lines_append.mpr ⟨h.1, lines_cons.mpr ⟨by omega,
      lines_append.mpr ⟨lines_lineBreak level, ih h.2⟩⟩⟩

theorem lines_inBrackets {opening closing : Nat} (ho : Lines [opening]) (hc : Lines [closing])
    (level : Nat) {texts : List Text} (h : ∀ text ∈ texts, Lines text) :
    Lines (inBrackets opening closing level texts) := by
  rw [inBrackets]
  split_ifs
  · exact lines_append (s := [opening]).mpr ⟨ho, hc⟩
  · refine lines_append (s := [opening]).mpr ⟨ho, lines_append.mpr ⟨lines_lineBreak _, ?_⟩⟩
    exact lines_append.mpr ⟨lines_joinLines _ h, lines_append.mpr ⟨lines_lineBreak _, hc⟩⟩

theorem lines_encodeString (s : Text) : Lines (encodeString s) := by
  refine lines_cons.mpr ⟨by omega, lines_append.mpr ⟨?_, by decide⟩⟩
  intro c hc
  obtain ⟨d, -, hd⟩ := List.mem_flatMap.mp hc
  exact .inr (escapeChar_ascii d c hd)

variable {ints : Int → Prop} {texts : Text → Prop}

mutual
/-- The text of a value is ASCII, without a carriage return. -/
theorem lines_dumpsIndented (fl : FloatOps F) :
    ∀ (v : Value F) (level : Nat), v.Canonical ints texts → Lines (dumpsIndented fl level v)
  | .none, _, _ => by
    rw [dumpsIndented]
    decide
  | .bool true, _, _ => by
    rw [dumpsIndented]
    decide
  | .bool false, _, _ => by
    rw [dumpsIndented]
    decide
  | .int i, _, _ => by
    rw [dumpsIndented]
    exact fun c hc => .inr (Json.decimal_ascii i c hc)
  | .str s, _, _ => by
    rw [dumpsIndented]
    exact lines_encodeString s
  | .list vs, level, h => by
    rw [Value.Canonical] at h
    rw [dumpsIndented]
    exact lines_inBrackets (by decide) (by decide) level
      (lines_dumpsIndentedElements fl vs (level + 1) h)
  | .dict items, level, h => by
    rw [Value.Canonical] at h
    rw [dumpsIndented]
    apply lines_inBrackets (by decide) (by decide)
    intro text htext
    obtain ⟨entry, hentry, rfl⟩ := List.mem_map.mp htext
    rw [List.mem_insertionSort] at hentry
    refine lines_append.mpr ⟨lines_append.mpr ⟨lines_encodeString _, by decide⟩, ?_⟩
    exact lines_dumpsIndentedItems fl items (level + 1) h.1 entry hentry
theorem lines_dumpsIndentedElements (fl : FloatOps F) :
    ∀ (vs : List (Value F)) (level : Nat), CanonicalElements ints texts vs →
      ∀ text ∈ dumpsIndentedElements fl level vs, Lines text
  | [], _, _ => fun _ h => absurd h List.not_mem_nil
  | v :: vs, level, h => by
    rw [CanonicalElements] at h
    rw [dumpsIndentedElements]
    exact List.forall_mem_cons.mpr ⟨lines_dumpsIndented fl v level h.1,
      lines_dumpsIndentedElements fl vs level h.2⟩
theorem lines_dumpsIndentedItems (fl : FloatOps F) :
    ∀ (items : List (Text × Value F)) (level : Nat), CanonicalItems ints texts items →
      ∀ entry ∈ dumpsIndentedItems fl level items, Lines entry.2
  | [], _, _ => fun _ h => absurd h List.not_mem_nil
  | (k, v) :: items, level, h => by
    rw [CanonicalItems] at h
    rw [dumpsIndentedItems]
    exact List.forall_mem_cons.mpr ⟨lines_dumpsIndented fl v level h.2.1,
      lines_dumpsIndentedItems fl items level h.2.2⟩
end

end Lines

end Python
