import Mathlib.Data.List.Basic
import Mathlib.Tactic.SplitIfs

/-!
# The JSON grammar with the JavaScript number spellings

RFC 8259 extended with `NaN`, `Infinity` and `-Infinity`, over lists of code
points. A nonterminal relates a text to what is left of it, so a derivation reads
a prefix and no concatenation has to be reassociated. The syntax tree keeps what
a consumer may still look at: number tokens, escapes and repeated members.

## Main definitions

- `Json.Tree`: the syntax tree of a document
- `Json.Derives`: one production for each spelling of a value
- `Json.Document`: a whole text that spells a tree
- `Json.Tree.depth`, `Json.Tree.liveDepth`: nesting with and without overwritten members
-/

namespace Json

abbrev Text := List Nat

/-- The code points of a string constant. -/
def ascii (s : String) : Text := s.toList.map Char.toNat

def IsBlank (c : Nat) : Prop := c = 0x20 ∨ c = 0x09 ∨ c = 0x0A ∨ c = 0x0D

instance (c : Nat) : Decidable (IsBlank c) := inferInstanceAs (Decidable (_ ∨ _))

/-- Some run of blanks stands before the rest. -/
inductive Blank : Text → Text → Prop
  | nil {s : Text} : Blank s s
  | cons {c : Nat} {s r : Text} : IsBlank c → Blank s r → Blank (c :: s) r

theorem Blank.trans {s t r : Text} (h : Blank s t) (h' : Blank t r) : Blank s r := by
  induction h with
  | nil => exact h'
  | cons hc _ ih => exact .cons hc (ih h')

def IsDigit (c : Nat) : Prop := 0x30 ≤ c ∧ c ≤ 0x39

instance (c : Nat) : Decidable (IsDigit c) := inferInstanceAs (Decidable (_ ∧ _))

def IsDigits (ds : Text) : Prop := ds ≠ [] ∧ ∀ c ∈ ds, IsDigit c

def IsMinus (s : Text) : Prop := s = [] ∨ s = [0x2D]

/-- `0`, or digits that do not start with `0`. -/
def IsInt (ds : Text) : Prop := ds = [0x30] ∨ IsDigits ds ∧ ds.head? ≠ some 0x30

def IsFrac (s : Text) : Prop := s = [] ∨ ∃ ds, s = 0x2E :: ds ∧ IsDigits ds

def IsExp (s : Text) : Prop :=
  s = [] ∨ ∃ e sign ds, s = e :: (sign ++ ds) ∧ (e = 0x65 ∨ e = 0x45) ∧
    (sign = [] ∨ sign = [0x2B] ∨ sign = [0x2D]) ∧ IsDigits ds

theorem IsInt.head {int : Text} (h : IsInt int) :
    ∃ c ds, int = c :: ds ∧ IsDigit c := by
  obtain rfl | ⟨hd, -⟩ := h
  · exact ⟨0x30, [], rfl, by decide⟩
  · obtain ⟨c, ds, rfl⟩ := List.exists_cons_of_ne_nil hd.1
    exact ⟨c, ds, rfl, hd.2 c (by simp)⟩

/-- The token of an integer literal. -/
def IsIntToken (tok : Text) : Prop := ∃ sign int, tok = sign ++ int ∧ IsMinus sign ∧ IsInt int

/-- The token of a number literal with a fraction or an exponent. -/
def IsFloatToken (tok : Text) : Prop :=
  ∃ sign int frac exp, tok = sign ++ int ++ frac ++ exp ∧ IsMinus sign ∧ IsInt int ∧
    IsFrac frac ∧ IsExp exp ∧ frac ++ exp ≠ []

theorem IsMinus.ascii {s : Text} (h : IsMinus s) : ∀ c ∈ s, c < 0x80 := by
  rcases h with rfl | rfl <;> decide

theorem IsDigits.ascii {ds : Text} (h : IsDigits ds) : ∀ c ∈ ds, c < 0x80 := by
  intro c hc
  have := (h.2 c hc).2
  omega

theorem IsInt.ascii {ds : Text} (h : IsInt ds) : ∀ c ∈ ds, c < 0x80 := by
  obtain rfl | ⟨h, -⟩ := h
  · decide
  · exact h.ascii

theorem IsFrac.ascii {s : Text} (h : IsFrac s) : ∀ c ∈ s, c < 0x80 := by
  obtain rfl | ⟨ds, rfl, h⟩ := h
  · simp
  · intro c hc
    obtain rfl | hc := List.mem_cons.mp hc
    · omega
    · exact h.ascii c hc

theorem IsExp.ascii {s : Text} (h : IsExp s) : ∀ c ∈ s, c < 0x80 := by
  obtain rfl | ⟨e, sign, ds, rfl, he, hs, hd⟩ := h
  · simp
  · intro c hc
    obtain rfl | hc := List.mem_cons.mp hc
    · omega
    obtain hc | hc := List.mem_append.mp hc
    · rcases hs with rfl | rfl | rfl <;> simp at hc <;> omega
    · exact hd.ascii c hc

theorem IsIntToken.ascii {tok : Text} (h : IsIntToken tok) : ∀ c ∈ tok, c < 0x80 := by
  obtain ⟨sign, int, rfl, hm, hi⟩ := h
  intro c hc
  obtain hc | hc := List.mem_append.mp hc
  · exact hm.ascii c hc
  · exact hi.ascii c hc

theorem IsFloatToken.ascii {tok : Text} (h : IsFloatToken tok) : ∀ c ∈ tok, c < 0x80 := by
  obtain ⟨sign, int, frac, exp, rfl, hm, hi, hf, he, -⟩ := h
  intro c hc
  simp only [List.mem_append] at hc
  obtain ((hc | hc) | hc) | hc := hc
  · exact hm.ascii c hc
  · exact hi.ascii c hc
  · exact hf.ascii c hc
  · exact he.ascii c hc

def hexDigit (c : Nat) : Option Nat :=
  if 0x30 ≤ c ∧ c ≤ 0x39 then some (c - 0x30)
  else if 0x61 ≤ c ∧ c ≤ 0x66 then some (c - 0x61 + 10)
  else if 0x41 ≤ c ∧ c ≤ 0x46 then some (c - 0x41 + 10)
  else none

/-- The value of four hexadecimal digits. -/
def hex4 (a b c d : Nat) : Option Nat := do
  let w ← hexDigit a
  let x ← hexDigit b
  let y ← hexDigit c
  let z ← hexDigit d
  some (((w * 16 + x) * 16 + y) * 16 + z)

theorem hexDigit_eq_none {c : Nat} (h : 0x80 ≤ c) : hexDigit c = none := by
  rw [hexDigit, if_neg (by omega), if_neg (by omega), if_neg (by omega)]

theorem hex4_ascii {a b c d u : Nat} (h : hex4 a b c d = some u) :
    ∀ x ∈ [a, b, c, d], x < 0x80 := by
  have ascii {x y : Nat} (hx : hexDigit x = some y) : x < 0x80 := by
    by_contra hge
    rw [hexDigit_eq_none (Nat.le_of_not_lt hge)] at hx
    cases hx
  simp only [hex4, Option.bind_eq_bind, Option.bind_eq_some_iff] at h
  obtain ⟨w, hw, x, hx, y, hy, z, hz, -⟩ := h
  simp [ascii hw, ascii hx, ascii hy, ascii hz]

/-- The code point of a one-letter escape. -/
def escapeOf (e : Nat) : Option Nat :=
  if e = 0x22 then some 0x22
  else if e = 0x5C then some 0x5C
  else if e = 0x2F then some 0x2F
  else if e = 0x62 then some 0x08
  else if e = 0x66 then some 0x0C
  else if e = 0x6E then some 0x0A
  else if e = 0x72 then some 0x0D
  else if e = 0x74 then some 0x09
  else none

/-- One element of a string literal. -/
inductive Item
  | raw (c : Nat)
  | escape (c : Nat)
  | unicode (u : Nat)
  deriving DecidableEq, Repr

/-- The elements of a string literal up to its closing quote. -/
inductive Items : List Item → Text → Text → Prop
  | close {r : Text} : Items [] (0x22 :: r) r
  | raw {c : Nat} {is : List Item} {s r : Text} :
      0x20 ≤ c → c ≠ 0x22 → c ≠ 0x5C → Items is s r → Items (.raw c :: is) (c :: s) r
  | escape {e c : Nat} {is : List Item} {s r : Text} :
      escapeOf e = some c → Items is s r → Items (.escape c :: is) (0x5C :: e :: s) r
  | unicode {a b c d u : Nat} {is : List Item} {s r : Text} :
      hex4 a b c d = some u → Items is s r →
      Items (.unicode u :: is) (0x5C :: 0x75 :: a :: b :: c :: d :: s) r

/-- Characters that need no escape spell themselves. -/
theorem Items.ofRaw {name : Text} (h : ∀ c ∈ name, 0x20 ≤ c ∧ c ≠ 0x22 ∧ c ≠ 0x5C) (r : Text) :
    Items (name.map .raw) (name ++ 0x22 :: r) r := by
  induction name with
  | nil => exact .close
  | cons c name ih =>
    obtain ⟨h1, h2, h3⟩ := h c List.mem_cons_self
    exact .raw h1 h2 h3 (ih fun d hd => h d (List.mem_cons_of_mem _ hd))

def IsHighSurrogate (u : Nat) : Prop := 0xD800 ≤ u ∧ u ≤ 0xDBFF

def IsLowSurrogate (u : Nat) : Prop := 0xDC00 ≤ u ∧ u ≤ 0xDFFF

instance (u : Nat) : Decidable (IsHighSurrogate u) := inferInstanceAs (Decidable (_ ∧ _))

instance (u : Nat) : Decidable (IsLowSurrogate u) := inferInstanceAs (Decidable (_ ∧ _))

def joinSurrogates (hi lo : Nat) : Nat := 0x10000 + (hi - 0xD800) * 0x400 + (lo - 0xDC00)

/-- The code point an element stands for on its own. -/
def Item.code : Item → Nat
  | .raw c | .escape c | .unicode c => c

/-- The code point of adjacent escapes of a high and a low surrogate. -/
def pairOf : Item → List Item → Option Nat
  | .unicode u, .unicode v :: _ =>
    if IsHighSurrogate u ∧ IsLowSurrogate v then some (joinSurrogates u v) else none
  | _, _ => none

/-- The code points of a string literal: a surrogate escape that is not half of a pair
stands for itself. -/
def decodeItems : List Item → List Nat
  | [] => []
  | i :: is =>
    match pairOf i is with
    | none => i.code :: decodeItems is
    | some c =>
      match is with
      | [] => [c]
      | _ :: is => c :: decodeItems is

@[simp] theorem decodeItems_nil : decodeItems [] = [] := rfl

theorem decodeItems_cons {i : Item} {is : List Item} (h : pairOf i is = none) :
    decodeItems (i :: is) = i.code :: decodeItems is := by
  rw [decodeItems, h]

theorem decodeItems_pair {u v : Nat} (hu : IsHighSurrogate u) (hv : IsLowSurrogate v)
    (is : List Item) :
    decodeItems (.unicode u :: .unicode v :: is) = joinSurrogates u v :: decodeItems is := by
  rw [decodeItems, pairOf, if_pos ⟨hu, hv⟩]

theorem pairOf_eq_some_iff {i : Item} {is : List Item} {c : Nat} :
    pairOf i is = some c ↔
      ∃ u v is', i = .unicode u ∧ is = .unicode v :: is' ∧ IsHighSurrogate u ∧
        IsLowSurrogate v ∧ c = joinSurrogates u v := by
  constructor
  · intro h
    unfold pairOf at h
    split at h
    · next u v is' =>
      split at h
      · next hs =>
        rw [Option.some.injEq] at h
        exact ⟨u, v, is', rfl, rfl, hs.1, hs.2, h.symm⟩
      · cases h
    · cases h
  · rintro ⟨u, v, is', rfl, rfl, hu, hv, hc⟩
    rw [pairOf, if_pos ⟨hu, hv⟩, hc]

/-- The syntax tree of a document. -/
inductive Tree
  | null
  | bool (b : Bool)
  | nan
  | inf (negative : Bool)
  | int (token : Text)
  | float (token : Text)
  | str (items : List Item)
  | arr (elements : List Tree)
  | obj (members : List (List Item × Tree))

/-- Induction on a tree, with the hypothesis for every element and member. -/
@[elab_as_elim]
theorem Tree.induct {motive : Tree → Prop} (null : motive .null) (bool : ∀ b, motive (.bool b))
    (nan : motive .nan) (inf : ∀ negative, motive (.inf negative))
    (int : ∀ tok, motive (.int tok)) (float : ∀ tok, motive (.float tok))
    (str : ∀ is, motive (.str is)) (arr : ∀ ts, (∀ t ∈ ts, motive t) → motive (.arr ts))
    (obj : ∀ ms, (∀ m ∈ ms, motive m.2) → motive (.obj ms)) : ∀ t, motive t
  | .null => null
  | .bool b => bool b
  | .nan => nan
  | .inf negative => inf negative
  | .int tok => int tok
  | .float tok => float tok
  | .str is => str is
  | .arr ts => arr ts fun t ht =>
    have : sizeOf t < sizeOf ts := List.sizeOf_lt_of_mem ht
    induct null bool nan inf int float str arr obj t
  | .obj ms => obj ms fun m hm =>
    have : sizeOf m < sizeOf ms := List.sizeOf_lt_of_mem hm
    have : sizeOf m.2 < sizeOf m := by
      obtain ⟨is, t⟩ := m
      show sizeOf t < sizeOf (is, t)
      rw [Prod.mk.sizeOf_spec]
      omega
    induct null bool nan inf int float str arr obj m.2
  termination_by t => sizeOf t

/-- The literal names and what they stand for. -/
def literals : List (Text × Tree) :=
  [([0x6E, 0x75, 0x6C, 0x6C], .null),
   ([0x74, 0x72, 0x75, 0x65], .bool true),
   ([0x66, 0x61, 0x6C, 0x73, 0x65], .bool false),
   ([0x4E, 0x61, 0x4E], .nan),
   ([0x49, 0x6E, 0x66, 0x69, 0x6E, 0x69, 0x74, 0x79], .inf false),
   ([0x2D, 0x49, 0x6E, 0x66, 0x69, 0x6E, 0x69, 0x74, 0x79], .inf true)]

/-- What a derivation reads: a value, or the rest of an array or object from its
next element on, with the closing bracket. -/
inductive Phrase
  | value (t : Tree)
  | elements (ts : List Tree)
  | members (ms : List (List Item × Tree))

/-- `Derives p s r`: a spelling of `p` stands at the head of `s` and leaves `r`. -/
inductive Derives : Phrase → Text → Text → Prop
  | literal {lit : Text} {t : Tree} {r : Text} :
      (lit, t) ∈ literals → Derives (.value t) (lit ++ r) r
  | int {tok r : Text} : IsIntToken tok → Derives (.value (.int tok)) (tok ++ r) r
  | float {tok r : Text} : IsFloatToken tok → Derives (.value (.float tok)) (tok ++ r) r
  | str {is : List Item} {s r : Text} : Items is s r → Derives (.value (.str is)) (0x22 :: s) r
  | emptyArr {s r : Text} : Blank s (0x5D :: r) → Derives (.value (.arr [])) (0x5B :: s) r
  | arr {ts : List Tree} {s r : Text} :
      Derives (.elements ts) s r → Derives (.value (.arr ts)) (0x5B :: s) r
  | emptyObj {s r : Text} : Blank s (0x7D :: r) → Derives (.value (.obj [])) (0x7B :: s) r
  | obj {ms : List (List Item × Tree)} {s r : Text} :
      Derives (.members ms) s r → Derives (.value (.obj ms)) (0x7B :: s) r
  | lastElement {t : Tree} {s s₁ s₂ r : Text} :
      Blank s s₁ → Derives (.value t) s₁ s₂ → Blank s₂ (0x5D :: r) → Derives (.elements [t]) s r
  | element {t : Tree} {ts : List Tree} {s s₁ s₂ s₃ r : Text} :
      Blank s s₁ → Derives (.value t) s₁ s₂ → Blank s₂ (0x2C :: s₃) →
      Derives (.elements ts) s₃ r → Derives (.elements (t :: ts)) s r
  | lastMember {is : List Item} {t : Tree} {s s₁ s₂ s₃ s₄ s₅ r : Text} :
      Blank s (0x22 :: s₁) → Items is s₁ s₂ → Blank s₂ (0x3A :: s₃) → Blank s₃ s₄ →
      Derives (.value t) s₄ s₅ → Blank s₅ (0x7D :: r) → Derives (.members [(is, t)]) s r
  | member {is : List Item} {t : Tree} {ms : List (List Item × Tree)}
      {s s₁ s₂ s₃ s₄ s₅ s₆ r : Text} :
      Blank s (0x22 :: s₁) → Items is s₁ s₂ → Blank s₂ (0x3A :: s₃) → Blank s₃ s₄ →
      Derives (.value t) s₄ s₅ → Blank s₅ (0x2C :: s₆) → Derives (.members ms) s₆ r →
      Derives (.members ((is, t) :: ms)) s r

/-- The whole text spells the tree, with blanks around it. -/
def Document (t : Tree) (s : Text) : Prop :=
  ∃ s₁ s₂, Blank s s₁ ∧ Derives (.value t) s₁ s₂ ∧ Blank s₂ []

/-- The keys of some members, decoded. -/
def keys (ms : List (List Item × Tree)) : List (List Nat) := ms.map fun m => decodeItems m.1

namespace Tree

mutual
/-- Nesting depth: 1 for a scalar or an empty container. -/
def depth : Tree → Nat
  | .arr ts => 1 + depthElements ts
  | .obj ms => 1 + depthMembers ms
  | _ => 1
/-- The greatest depth among some elements. -/
def depthElements : List Tree → Nat
  | [] => 0
  | t :: ts => max t.depth (depthElements ts)
/-- The greatest depth among some members. -/
def depthMembers : List (List Item × Tree) → Nat
  | [] => 0
  | (_, t) :: ms => max t.depth (depthMembers ms)
end

mutual
/-- Nesting depth when only the last member of each name counts. -/
def liveDepth : Tree → Nat
  | .arr ts => 1 + liveDepthElements ts
  | .obj ms => 1 + liveDepthMembers ms
  | _ => 1
/-- The greatest live depth among some elements. -/
def liveDepthElements : List Tree → Nat
  | [] => 0
  | t :: ts => max t.liveDepth (liveDepthElements ts)
/-- The greatest live depth among the members that no later one overwrites. -/
def liveDepthMembers : List (List Item × Tree) → Nat
  | [] => 0
  | (is, t) :: ms =>
    if decodeItems is ∈ keys ms then liveDepthMembers ms else max t.liveDepth (liveDepthMembers ms)
end

mutual
/-- The integer tokens of a tree, overwritten members included. -/
def intTokens : Tree → List Text
  | .int tok => [tok]
  | .arr ts => intTokensElements ts
  | .obj ms => intTokensMembers ms
  | _ => []
/-- The integer tokens of some elements. -/
def intTokensElements : List Tree → List Text
  | [] => []
  | t :: ts => t.intTokens ++ intTokensElements ts
/-- The integer tokens of some members. -/
def intTokensMembers : List (List Item × Tree) → List Text
  | [] => []
  | (_, t) :: ms => t.intTokens ++ intTokensMembers ms
end

mutual
/-- Dropping overwritten members never adds depth. -/
theorem liveDepth_le_depth : ∀ t : Tree, t.liveDepth ≤ t.depth
  | .arr ts => by
    have h := liveDepthElements_le ts
    simp only [liveDepth, depth]
    omega
  | .obj ms => by
    have h := liveDepthMembers_le ms
    simp only [liveDepth, depth]
    omega
  | .null | .bool _ | .nan | .inf _ | .int _ | .float _ | .str _ => by simp [liveDepth, depth]
theorem liveDepthElements_le : ∀ ts : List Tree, liveDepthElements ts ≤ depthElements ts
  | [] => by simp [liveDepthElements]
  | t :: ts => by
    have h := liveDepth_le_depth t
    have h' := liveDepthElements_le ts
    simp only [liveDepthElements, depthElements]
    omega
theorem liveDepthMembers_le :
    ∀ ms : List (List Item × Tree), liveDepthMembers ms ≤ depthMembers ms
  | [] => by simp [liveDepthMembers]
  | (_, t) :: ms => by
    have h := liveDepth_le_depth t
    have h' := liveDepthMembers_le ms
    simp only [liveDepthMembers, depthMembers]
    split <;> omega
end

theorem depth_pos (t : Tree) : 1 ≤ t.depth := by
  cases t <;> simp [depth]

end Tree

section Length

theorem Blank.length_le {s r : Text} (h : Blank s r) : r.length ≤ s.length := by
  induction h with
  | nil => exact Nat.le_refl _
  | cons _ _ ih => simp only [List.length_cons]; omega

theorem Items.length_lt {is : List Item} {s r : Text} (h : Items is s r) :
    r.length < s.length := by
  induction h with
  | close => simp
  | raw _ _ _ _ ih => simp only [List.length_cons]; omega
  | escape _ _ ih => simp only [List.length_cons]; omega
  | unicode _ _ ih => simp only [List.length_cons]; omega

theorem IsInt.length_pos {ds : Text} (h : IsInt ds) : 0 < ds.length := by
  obtain rfl | ⟨⟨h, -⟩, -⟩ := h
  · simp
  · exact List.length_pos_of_ne_nil h

theorem length_pos_of_mem_literals {lit : Text} {t : Tree} (h : (lit, t) ∈ literals) :
    0 < lit.length := by
  simp only [literals, List.mem_cons, Prod.mk.injEq, List.not_mem_nil, or_false] at h
  rcases h with ⟨rfl, -⟩ | ⟨rfl, -⟩ | ⟨rfl, -⟩ | ⟨rfl, -⟩ | ⟨rfl, -⟩ | ⟨rfl, -⟩ <;> simp

/-- Every phrase reads at least one code point. -/
theorem Derives.length_lt {p : Phrase} {s r : Text} (h : Derives p s r) :
    r.length < s.length := by
  induction h with
  | literal h =>
    have := length_pos_of_mem_literals h
    simp only [List.length_append]
    omega
  | int h =>
    obtain ⟨sign, int, rfl, -, hi⟩ := h
    have := hi.length_pos
    simp only [List.length_append]
    omega
  | float h =>
    obtain ⟨sign, int, frac, exp, rfl, -, hi, -⟩ := h
    have := hi.length_pos
    simp only [List.length_append]
    omega
  | str h =>
    have := h.length_lt
    simp only [List.length_cons]
    omega
  | emptyArr h | emptyObj h =>
    have := h.length_le
    simp only [List.length_cons] at this ⊢
    omega
  | arr _ ih | obj _ ih =>
    simp only [List.length_cons]
    omega
  | lastElement h₁ _ h₂ ih =>
    have := h₁.length_le
    have := h₂.length_le
    simp only [List.length_cons] at this
    omega
  | element h₁ _ h₂ _ ih ih' =>
    have := h₁.length_le
    have := h₂.length_le
    simp only [List.length_cons] at this
    omega
  | lastMember h₁ h₂ h₃ h₄ _ h₅ ih =>
    have := h₁.length_le
    have := h₂.length_lt
    have := h₃.length_le
    have := h₄.length_le
    have := h₅.length_le
    simp only [List.length_cons] at *
    omega
  | member h₁ h₂ h₃ h₄ _ h₅ _ ih ih' =>
    have := h₁.length_le
    have := h₂.length_lt
    have := h₃.length_le
    have := h₄.length_le
    have := h₅.length_le
    simp only [List.length_cons] at *
    omega

end Length

section Proper

/-- The code points of the elements of a string literal are below the end of Unicode. -/
def ProperItems (is : List Item) : Prop := ∀ i ∈ is, i.code < 0x110000

namespace Tree

mutual
/-- The tokens of a tree are tokens of the grammar and its strings are Unicode. -/
def Proper : Tree → Prop
  | .int tok => IsIntToken tok
  | .float tok => IsFloatToken tok
  | .str is => ProperItems is
  | .arr ts => ProperElements ts
  | .obj ms => ProperMembers ms
  | _ => True
/-- Every element is proper. -/
def ProperElements : List Tree → Prop
  | [] => True
  | t :: ts => t.Proper ∧ ProperElements ts
/-- Every member is proper. -/
def ProperMembers : List (List Item × Tree) → Prop
  | [] => True
  | (is, t) :: ms => ProperItems is ∧ t.Proper ∧ ProperMembers ms
end

theorem properElements_iff {ts : List Tree} : ProperElements ts ↔ ∀ t ∈ ts, t.Proper := by
  induction ts with
  | nil => simp [ProperElements]
  | cons t ts ih => rw [ProperElements, ih, List.forall_mem_cons]

theorem properMembers_iff {ms : List (List Item × Tree)} :
    ProperMembers ms ↔ ∀ m ∈ ms, ProperItems m.1 ∧ m.2.Proper := by
  induction ms with
  | nil => simp [ProperMembers]
  | cons m ms ih => rw [ProperMembers, ih, List.forall_mem_cons, and_assoc]

end Tree

/-- What a derivation reads is proper. -/
def Phrase.Proper : Phrase → Prop
  | .value t => t.Proper
  | .elements ts => Tree.ProperElements ts
  | .members ms => Tree.ProperMembers ms

theorem Blank.forall {s r : Text} (h : Blank s r) {p : Nat → Prop} (hs : ∀ c ∈ s, p c) :
    ∀ c ∈ r, p c := by
  induction h with
  | nil => exact hs
  | cons _ _ ih => exact ih fun c hc => hs c (List.mem_cons_of_mem _ hc)

theorem hexDigit_lt {c d : Nat} (h : hexDigit c = some d) : d < 16 := by
  unfold hexDigit at h
  split_ifs at h <;> simp only [Option.some.injEq] at h <;> omega

theorem hex4_lt {a b c d u : Nat} (h : hex4 a b c d = some u) : u < 0x10000 := by
  simp only [hex4, Option.bind_eq_bind, Option.bind_eq_some_iff, Option.some.injEq] at h
  obtain ⟨w, hw, x, hx, y, hy, z, hz, rfl⟩ := h
  have := hexDigit_lt hw
  have := hexDigit_lt hx
  have := hexDigit_lt hy
  have := hexDigit_lt hz
  omega

theorem escapeOf_lt {e c : Nat} (h : escapeOf e = some c) : c < 0x80 := by
  unfold escapeOf at h
  split_ifs at h <;> cases h <;> omega

theorem Items.proper {is : List Item} {s r : Text} (h : Items is s r)
    (hs : ∀ c ∈ s, c < 0x110000) : ProperItems is ∧ ∀ c ∈ r, c < 0x110000 := by
  induction h with
  | close => exact ⟨by simp [ProperItems], fun c hc => hs c (List.mem_cons_of_mem _ hc)⟩
  | @raw c is s r _ _ _ _ ih =>
    obtain ⟨hi, hr⟩ := ih fun c hc => hs c (List.mem_cons_of_mem _ hc)
    exact ⟨List.forall_mem_cons.mpr ⟨hs c List.mem_cons_self, hi⟩, hr⟩
  | @escape e c is s r he _ ih =>
    obtain ⟨hi, hr⟩ := ih fun c hc => hs c (by simp [hc])
    have := escapeOf_lt he
    exact ⟨List.forall_mem_cons.mpr ⟨by simp only [Item.code]; omega, hi⟩, hr⟩
  | @unicode _ _ _ _ u is s r hu _ ih =>
    obtain ⟨hi, hr⟩ := ih fun c hc => hs c (by simp [hc])
    have := hex4_lt hu
    exact ⟨List.forall_mem_cons.mpr ⟨by simp only [Item.code]; omega, hi⟩, hr⟩

/-- A derivation on Unicode text builds proper trees. -/
theorem Derives.proper {p : Phrase} {s r : Text} (h : Derives p s r)
    (hs : ∀ c ∈ s, c < 0x110000) : p.Proper ∧ ∀ c ∈ r, c < 0x110000 := by
  induction h with
  | @literal lit t r h =>
    refine ⟨?_, fun c hc => hs c (List.mem_append_right _ hc)⟩
    simp only [literals, List.mem_cons, Prod.mk.injEq, List.not_mem_nil, or_false] at h
    rcases h with ⟨-, rfl⟩ | ⟨-, rfl⟩ | ⟨-, rfl⟩ | ⟨-, rfl⟩ | ⟨-, rfl⟩ | ⟨-, rfl⟩ <;> trivial
  | int h => exact ⟨h, fun c hc => hs c (List.mem_append_right _ hc)⟩
  | float h => exact ⟨h, fun c hc => hs c (List.mem_append_right _ hc)⟩
  | str h => exact h.proper fun c hc => hs c (List.mem_cons_of_mem _ hc)
  | emptyArr h | emptyObj h =>
    have := h.forall fun c hc => hs c (List.mem_cons_of_mem _ hc)
    exact ⟨trivial, fun c hc => this c (List.mem_cons_of_mem _ hc)⟩
  | arr _ ih | obj _ ih => exact ih fun c hc => hs c (List.mem_cons_of_mem _ hc)
  | lastElement h₁ _ h₂ ih =>
    obtain ⟨ht, hr⟩ := ih (h₁.forall hs)
    exact ⟨⟨ht, trivial⟩, fun c hc => h₂.forall hr c (List.mem_cons_of_mem _ hc)⟩
  | element h₁ _ h₂ _ ih ih' =>
    obtain ⟨ht, hr⟩ := ih (h₁.forall hs)
    obtain ⟨hts, hr⟩ := ih' fun c hc => h₂.forall hr c (List.mem_cons_of_mem _ hc)
    exact ⟨⟨ht, hts⟩, hr⟩
  | lastMember h₁ h₂ h₃ h₄ _ h₅ ih =>
    obtain ⟨hi, hr⟩ := h₂.proper fun c hc => h₁.forall hs c (List.mem_cons_of_mem _ hc)
    obtain ⟨ht, hr⟩ := ih (h₄.forall fun c hc => h₃.forall hr c (List.mem_cons_of_mem _ hc))
    exact ⟨⟨hi, ht, trivial⟩, fun c hc => h₅.forall hr c (List.mem_cons_of_mem _ hc)⟩
  | member h₁ h₂ h₃ h₄ _ h₅ _ ih ih' =>
    obtain ⟨hi, hr⟩ := h₂.proper fun c hc => h₁.forall hs c (List.mem_cons_of_mem _ hc)
    obtain ⟨ht, hr⟩ := ih (h₄.forall fun c hc => h₃.forall hr c (List.mem_cons_of_mem _ hc))
    obtain ⟨hms, hr⟩ := ih' fun c hc => h₅.forall hr c (List.mem_cons_of_mem _ hc)
    exact ⟨⟨hi, ht, hms⟩, hr⟩

theorem Document.proper {t : Tree} {s : Text} (h : Document t s) (hs : ∀ c ∈ s, c < 0x110000) :
    t.Proper := by
  obtain ⟨s₁, s₂, hb, hd, -⟩ := h
  exact (hd.proper (hb.forall hs)).1

theorem decodeItems_lt {is : List Item} (h : ProperItems is) :
    ∀ c ∈ decodeItems is, c < 0x110000 := by
  induction hn : is.length using Nat.strongRecOn generalizing is with
  | ind n ih =>
    cases is with
    | nil => simp
    | cons i is =>
      obtain ⟨hi, hrest⟩ := List.forall_mem_cons.mp h
      rw [List.length_cons] at hn
      cases hp : pairOf i is with
      | none =>
        rw [decodeItems_cons hp]
        exact List.forall_mem_cons.mpr ⟨hi, ih _ (by omega) hrest rfl⟩
      | some c =>
        obtain ⟨u, v, is', rfl, rfl, hu, hv, -⟩ := pairOf_eq_some_iff.mp hp
        have htail : ProperItems is' := fun i hi => hrest i (List.mem_cons_of_mem _ hi)
        rw [List.length_cons] at hn
        rw [decodeItems_pair hu hv]
        refine List.forall_mem_cons.mpr ⟨?_, ih _ (by omega) htail rfl⟩
        unfold IsHighSurrogate at hu
        unfold IsLowSurrogate at hv
        unfold joinSurrogates
        omega

end Proper

end Json
