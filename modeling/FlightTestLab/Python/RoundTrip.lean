import FlightTestLab.Python.Indented

/-!
# JSON on one line, written and read back

`json.dumps` with `sort_keys`, and that `json.loads` undoes it, but for the order of the keys.

## Main definitions

- `Python.Value.Among`: what a value is made of
- `Python.Value.sorted`: a value with the keys of each `dict` in order

## Main results

- `Python.loads_dumps`: loading a dumped value gives it back sorted
- `Python.dumps_printable`: the text is one line of ASCII
-/

namespace Python

open Json (Text Printable ascii joinComma printable_append printable_ascii printable_cons
  printable_joinComma)

variable {F : Type}

/-- The integers, floats and strings of a value are among those given, and no `dict` has a key
twice. -/
inductive Value.Among (ints : Int → Prop) (floats : F → Prop) (texts : Text → Prop) :
    Value F → Prop
  | none : Among ints floats texts .none
  | bool (b : Bool) : Among ints floats texts (.bool b)
  | int {i : Int} (h : ints i) : Among ints floats texts (.int i)
  | float {x : F} (h : floats x) : Among ints floats texts (.float x)
  | str {s : Text} (h : texts s) : Among ints floats texts (.str s)
  | list {vs : List (Value F)} (h : ∀ v ∈ vs, Among ints floats texts v) :
      Among ints floats texts (.list vs)
  | dict {items : List (Text × Value F)} (hn : (items.map Prod.fst).Nodup)
      (hkeys : ∀ item ∈ items, texts item.1) (h : ∀ item ∈ items, Among ints floats texts item.2) :
      Among ints floats texts (.dict items)

/-- `loads` reads the float that `dumps` wrote. -/
def FloatOps.ReadsBack (fl : FloatOps F) (x : F) : Prop :=
  if fl.isNan x then x = fl.nan
  else
    match fl.isInf x with
    | some neg => x = fl.inf neg
    | none => Json.IsFloatToken (fl.repr x) ∧ fl.parse (fl.repr x) = x

section Sorting

mutual
/-- The keys of each `dict`, at every level, in the order of `sort_keys`. -/
def Value.sorted : Value F → Value F
  | .list vs => .list (sortedElements vs)
  | .dict items => .dict ((sortedItems items).insertionSort keyLe)
  | .none => .none
  | .bool b => .bool b
  | .int i => .int i
  | .float x => .float x
  | .str s => .str s
/-- The list elements, sorted. -/
def sortedElements : List (Value F) → List (Value F)
  | [] => []
  | v :: vs => v.sorted :: sortedElements vs
/-- The items of a `dict`, with sorted values. -/
def sortedItems : List (Text × Value F) → List (Text × Value F)
  | [] => []
  | (k, v) :: items => (k, v.sorted) :: sortedItems items
end

theorem sorted_list (vs : List (Value F)) :
    (Value.list vs).sorted = .list (vs.map Value.sorted) := by
  have hmap : sortedElements vs = vs.map Value.sorted := by
    induction vs with
    | nil => rfl
    | cons v vs ih => rw [sortedElements, ih, List.map_cons]
  rw [Value.sorted, hmap]

theorem sortedItems_eq (items : List (Text × Value F)) :
    sortedItems items = items.map (Prod.map id Value.sorted) := by
  induction items with
  | nil => rfl
  | cons item items ih =>
    rw [sortedItems, ih, List.map_cons]
    rfl

/-- Keys are compared without their values. -/
theorem insertionSort_map {α β : Type} (g : α → β) (items : List (Text × α)) :
    (items.map (Prod.map id g)).insertionSort keyLe =
      (items.insertionSort keyLe).map (Prod.map id g) :=
  (List.map_insertionSort keyLe keyLe (Prod.map id g) items fun _ _ _ _ => Iff.rfl).symm

theorem sorted_dict (items : List (Text × Value F)) :
    (Value.dict items).sorted =
      .dict ((items.insertionSort keyLe).map (Prod.map id Value.sorted)) := by
  rw [Value.sorted, sortedItems_eq, insertionSort_map]

instance {α : Type} : Std.Total (keyLe (α := α)) where
  total a b := (lt_or_ge b.1 a.1).symm.imp not_lt_of_ge lt_asymm

instance {α : Type} : IsTrans (Text × α) keyLe where
  trans _ _ _ hab hbc := not_lt_of_ge ((le_of_not_gt hab).trans (le_of_not_gt hbc))

theorem keys_sort (items : List (Text × Value F)) :
    ((items.insertionSort keyLe).map (Prod.map id Value.sorted)).map Prod.fst =
      (items.insertionSort keyLe).map Prod.fst := by
  rw [List.map_map]
  rfl

theorem nodup_sort {items : List (Text × Value F)} (hn : (items.map Prod.fst).Nodup) :
    ((items.insertionSort keyLe).map Prod.fst).Nodup :=
  ((List.perm_insertionSort keyLe items).map Prod.fst).nodup_iff.mpr hn

variable {ints ints' : Int → Prop} {floats floats' : F → Prop}
  {texts texts' : Text → Prop}

theorem Value.Among.mono {v : Value F} (h : v.Among ints floats texts)
    (hints : ∀ i, ints i → ints' i) (hfloats : ∀ x, floats x → floats' x)
    (htexts : ∀ s, texts s → texts' s) : v.Among ints' floats' texts' := by
  induction h with
  | none => exact .none
  | bool b => exact .bool b
  | int h => exact .int (hints _ h)
  | float h => exact .float (hfloats _ h)
  | str h => exact .str (htexts _ h)
  | list _ ih => exact .list ih
  | dict hn hkeys _ ih => exact .dict hn (fun item hitem => htexts _ (hkeys item hitem)) ih

/-- Sorting keeps the depth. -/
theorem depth_sorted {v : Value F} (h : v.Among ints floats texts) : v.sorted.depth = v.depth := by
  induction h with
  | none | bool _ | int _ | float _ | str _ => rw [Value.sorted]
  | @list vs _ ih =>
    have helements : Value.depthElements (vs.map Value.sorted) = Value.depthElements vs := by
      apply eq_of_forall_ge_iff
      intro n
      rw [Value.depthElements_le_iff, Value.depthElements_le_iff, List.forall_mem_map]
      exact forall₂_congr fun v hv => by rw [ih v hv]
    rw [sorted_list, Value.depth, Value.depth, helements]
  | @dict items _ _ _ ih =>
    have hitems : Value.depthItems ((items.insertionSort keyLe).map (Prod.map id Value.sorted)) =
        Value.depthItems items := by
      apply eq_of_forall_ge_iff
      intro n
      rw [Value.depthItems_le_iff, Value.depthItems_le_iff, List.forall_mem_map]
      simp only [List.mem_insertionSort]
      exact forall₂_congr fun item hitem => by rw [Prod.map_snd, ih item hitem]
    rw [sorted_dict, Value.depth, Value.depth, hitems]

/-- A sorted value is made of the same. -/
theorem Value.Among.sorted {v : Value F} (h : v.Among ints floats texts) :
    v.sorted.Among ints floats texts := by
  induction h with
  | none | bool _ | int _ | float _ | str _ =>
    rw [Value.sorted]
    constructor <;> assumption
  | list _ ih =>
    rw [sorted_list]
    exact .list (List.forall_mem_map.mpr ih)
  | @dict items hn hkeys _ ih =>
    rw [sorted_dict]
    refine .dict (by rw [keys_sort]; exact nodup_sort hn) ?_ ?_
    · refine List.forall_mem_map.mpr fun item hitem => ?_
      exact hkeys item ((List.mem_insertionSort _).mp hitem)
    · refine List.forall_mem_map.mpr fun item hitem => ?_
      exact ih item ((List.mem_insertionSort _).mp hitem)

/-- Sorting what is sorted changes nothing. -/
theorem sorted_sorted {v : Value F} (h : v.Among ints floats texts) :
    v.sorted.sorted = v.sorted := by
  induction h with
  | none | bool _ | int _ | float _ | str _ => rw [Value.sorted, Value.sorted]
  | @list vs _ ih =>
    rw [sorted_list, sorted_list, List.map_map]
    exact congrArg Value.list (List.map_congr_left ih)
  | @dict items _ _ _ ih =>
    have hsorted :
        ((items.insertionSort keyLe).map (Prod.map id Value.sorted)).insertionSort keyLe =
          (items.insertionSort keyLe).map (Prod.map id Value.sorted) := by
      apply List.Pairwise.insertionSort_eq
      exact List.pairwise_map.mpr (List.pairwise_insertionSort keyLe items)
    rw [sorted_dict, sorted_dict, hsorted, List.map_map]
    refine congrArg Value.dict (List.map_congr_left fun item hitem => ?_)
    exact Prod.ext rfl (ih item ((List.mem_insertionSort _).mp hitem))

/-- What a key is bound to does not depend on the order. -/
theorem get_sorted {items : List (Text × Value F)} (hn : (items.map Prod.fst).Nodup) (key : Text) :
    Value.get key ((items.insertionSort keyLe).map (Prod.map id Value.sorted)) =
      (Value.get key items).sorted := by
  have hget : Assoc.get? key (items.insertionSort keyLe) = Assoc.get? key items := by
    ext v
    constructor
    · intro h
      exact Assoc.get?_of_mem hn ((List.mem_insertionSort _).mp (Assoc.mem_of_get? h))
    · intro h
      exact Assoc.get?_of_mem (nodup_sort hn) ((List.mem_insertionSort _).mpr (Assoc.mem_of_get? h))
  have hmap := Assoc.get?_map (f := id) (g := Value.sorted) key (items.insertionSort keyLe)
    fun _ _ heq => heq
  rw [Value.get, Value.get, ← hget]
  show (Assoc.get? (id key) _).getD _ = _
  rw [hmap]
  cases Assoc.get? key (items.insertionSort keyLe) with
  | none =>
    show Value.none = Value.none.sorted
    rw [Value.sorted]
  | some v => rfl

end Sorting

section Loads

variable {D : Decoder F}

theorem joins_joinComma : Joins joinComma where
  one _ := rfl
  more x y rest := by
    refine ⟨ascii " ", fun s => .cons (.inl rfl) .nil, ?_⟩
    rw [joinComma, List.append_assoc]
    rfl

theorem spells_float {x : F} (h : D.floats.ReadsBack x) :
    Spells D (floatText D.floats x) (.float x) := by
  rw [FloatOps.ReadsBack] at h
  rw [floatText]
  cases hnan : D.floats.isNan x with
  | true =>
    rw [hnan, if_pos rfl] at h
    rw [if_pos rfl]
    refine spells_literal (t := .nan) (.tail _ (.tail _ (.tail _ (.head _)))) ?_ (Nat.le_refl 1)
    rw [build, ← h]
  | false =>
    rw [hnan, if_neg Bool.false_ne_true] at h
    rw [if_neg Bool.false_ne_true]
    cases hinf : D.floats.isInf x with
    | none =>
      rw [hinf] at h
      obtain ⟨htoken, hparse⟩ := h
      refine ⟨.float (D.floats.repr x), fun r => .float htoken, ?_, Nat.le_refl 1⟩
      rw [build, hparse]
    | some neg =>
      rw [hinf] at h
      cases neg with
      | false =>
        refine spells_literal (t := .inf false)
          (.tail _ (.tail _ (.tail _ (.tail _ (.head _))))) ?_ (Nat.le_refl 1)
        rw [build, ← h]
      | true =>
        refine spells_literal (t := .inf true)
          (.tail _ (.tail _ (.tail _ (.tail _ (.tail _ (.head _)))))) ?_ (Nat.le_refl 1)
        rw [build, ← h]

theorem dumpsElements_eq (fl : FloatOps F) (vs : List (Value F)) :
    dumpsElements fl vs = vs.map (dumps fl) := by
  induction vs with
  | nil => rfl
  | cons v vs ih => rw [dumpsElements, ih, List.map_cons]

theorem dumpsItems_eq (fl : FloatOps F) (items : List (Text × Value F)) :
    dumpsItems fl items = items.map (Prod.map id (dumps fl)) := by
  induction items with
  | nil => rfl
  | cons item items ih =>
    rw [dumpsItems, ih, List.map_cons]
    rfl

/-- The text of a value spells it, with the keys in order. -/
theorem spells_dumps (hD : D.objectPairs = dictOfPairs) {v : Value F}
    (h : v.Among D.Takes D.floats.ReadsBack LoadableText) :
    Spells D (dumps D.floats v) v.sorted := by
  have hnil (s : Text) : Json.Blank ([] ++ s) s := .nil
  induction h with
  | none =>
    rw [dumps, Value.sorted]
    exact spells_literal (t := .null) (.head _) rfl (Nat.le_refl 1)
  | bool b =>
    cases b with
    | true =>
      rw [dumps, Value.sorted]
      exact spells_literal (t := .bool true) (.tail _ (.head _)) rfl (Nat.le_refl 1)
    | false =>
      rw [dumps, Value.sorted]
      exact spells_literal (t := .bool false) (.tail _ (.tail _ (.head _))) rfl (Nat.le_refl 1)
  | @int i h =>
    rw [dumps, Value.sorted]
    refine ⟨.int (Json.decimal i), fun _ => .int (Json.isIntToken_decimal i), ?_, Nat.le_refl 1⟩
    rw [build, h]
  | float h =>
    rw [dumps, Value.sorted]
    exact spells_float h
  | str h =>
    rw [dumps, Value.sorted]
    obtain ⟨is, hdecode, hitems⟩ := h.items
    refine ⟨.str is, fun r => ?_, by rw [build, hdecode], Nat.le_refl 1⟩
    obtain ⟨text, htext, his⟩ := hitems r
    rw [htext]
    exact .str his
  | @list vs _ ih =>
    have hspells : List.Forall₂ (Spells D) (vs.map (dumps D.floats)) (vs.map Value.sorted) := by
      rw [List.forall₂_map_left_iff, List.forall₂_map_right_iff, List.forall₂_same]
      exact ih
    rw [dumps, dumpsElements_eq, sorted_list]
    cases vs with
    | nil => exact spells_emptyArr
    | cons v vs => exact spells_arr joins_joinComma hspells (List.cons_ne_nil _ _) hnil hnil
  | @dict items hn hkeys _ ih =>
    have hspells : List.Forall₂ (SpellsItem D)
        ((items.insertionSort keyLe).map (Prod.map id (dumps D.floats)))
        ((items.insertionSort keyLe).map (Prod.map id Value.sorted)) := by
      rw [List.forall₂_map_left_iff, List.forall₂_map_right_iff, List.forall₂_same]
      intro item hitem
      have hitem := (List.mem_insertionSort _).mp hitem
      exact ⟨rfl, hkeys item hitem, ih item hitem⟩
    rw [dumps, dumpsItems_eq, insertionSort_map, sorted_dict]
    cases hitems : items.insertionSort keyLe with
    | nil => exact spells_emptyObj hD
    | cons item rest =>
      rw [hitems] at hspells
      refine spells_obj joins_joinComma hD hspells (List.cons_ne_nil _ _) ?_ hnil hnil
      rw [← hitems, keys_sort]
      exact nodup_sort hn

/-- Loading undoes dumping, but for the order of the keys, where the nesting is within the
decoder's. -/
theorem loads_dumps (hD : D.objectPairs = dictOfPairs) {v : Value F}
    (h : v.Among D.Takes D.floats.ReadsBack LoadableText)
    (hdeep : ∀ t : Json.Tree, t.depth ≤ v.depth → D.overflows t = false) {back : Text}
    (hback : Json.Blank back []) :
    loads D (dumps D.floats v ++ back) = .ok v.sorted := by
  obtain ⟨t, hderives, hbuild, hdepth⟩ := spells_dumps hD h
  rw [depth_sorted h] at hdepth
  exact (loads_eq_ok_iff D).mpr ⟨t, ⟨_, back, .nil, hderives back, hback⟩, hdeep t hdepth, hbuild⟩

end Loads

section Printing

theorem printable_encodeString (s : Text) : Printable (encodeString s) := by
  refine printable_cons.mpr ⟨by omega, printable_append.mpr ⟨?_, ?_⟩⟩
  · intro c hc
    obtain ⟨d, -, hd⟩ := List.mem_flatMap.mp hc
    exact printable_ascii (escapeChar_ascii d) c hd
  · exact printable_cons.mpr ⟨by omega, List.forall_mem_nil _⟩

theorem printable_floatText {fl : FloatOps F} {x : F} (h : fl.ReadsBack x) :
    Printable (floatText fl x) := by
  rw [FloatOps.ReadsBack] at h
  rw [floatText]
  split_ifs at h ⊢ with hnan
  · exact printable_ascii (by decide)
  · cases hinf : fl.isInf x with
    | none =>
      rw [hinf] at h
      exact h.1.printable
    | some neg =>
      cases neg with
      | false => exact printable_ascii (s := ascii "Infinity") (by decide)
      | true => exact printable_ascii (s := ascii "-Infinity") (by decide)

theorem printable_enclosed {opening closing : Nat} {text : Text}
    (ho : 0x20 ≤ opening ∧ opening ≤ 0x7E) (hc : 0x20 ≤ closing ∧ closing ≤ 0x7E)
    (h : Printable text) : Printable (opening :: (text ++ [closing])) :=
  printable_cons.mpr ⟨ho, printable_append.mpr
    ⟨h, printable_cons.mpr ⟨hc, List.forall_mem_nil _⟩⟩⟩

theorem printable_itemText {item : Text × Text} (h : Printable item.2) :
    Printable (itemText item) :=
  printable_append.mpr ⟨printable_append.mpr
    ⟨printable_encodeString _, printable_ascii (by decide)⟩, h⟩

mutual
/-- The text of a value is one line of ASCII. -/
theorem dumps_printable {fl : FloatOps F} (hfl : ∀ x, fl.ReadsBack x) :
    ∀ v : Value F, Printable (dumps fl v)
  | .none => printable_ascii (s := ascii "null") (by decide)
  | .bool true => printable_ascii (s := ascii "true") (by decide)
  | .bool false => printable_ascii (s := ascii "false") (by decide)
  | .int i => printable_ascii (Json.decimal_ascii i)
  | .float x => printable_floatText (hfl x)
  | .str s => printable_encodeString s
  | .list vs => by
    rw [dumps]
    exact printable_enclosed (by omega) (by omega)
      (printable_joinComma (dumpsElements_printable hfl vs))
  | .dict items => by
    rw [dumps]
    refine printable_enclosed (by omega) (by omega) (printable_joinComma ?_)
    refine List.forall_mem_map.mpr fun item hitem => ?_
    have hitem := (List.mem_insertionSort _).mp hitem
    exact printable_itemText (dumpsItems_printable hfl items item hitem)
theorem dumpsElements_printable {fl : FloatOps F} (hfl : ∀ x, fl.ReadsBack x) :
    ∀ vs : List (Value F), ∀ text ∈ dumpsElements fl vs, Printable text
  | [] => List.forall_mem_nil _
  | v :: vs => by
    rw [dumpsElements]
    exact List.forall_mem_cons.mpr ⟨dumps_printable hfl v, dumpsElements_printable hfl vs⟩
theorem dumpsItems_printable {fl : FloatOps F} (hfl : ∀ x, fl.ReadsBack x) :
    ∀ items : List (Text × Value F), ∀ entry ∈ dumpsItems fl items, Printable entry.2
  | [] => List.forall_mem_nil _
  | (k, v) :: items => by
    rw [dumpsItems]
    exact List.forall_mem_cons.mpr ⟨dumps_printable hfl v, dumpsItems_printable hfl items⟩
end

end Printing

end Python
