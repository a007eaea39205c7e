import FlightTestLab.Library.Utf8
import FlightTestLab.Library.Json.Print

/-!
# The grammar over bytes and over code points

JSON's syntax is ASCII, so the grammar may be read over the UTF-8 bytes of a text as
well as over its code points. The two readings accept the same documents, and their
trees differ only in the characters of string literals.

## Main definitions

- `Json.Tree.bytes`: a tree with its raw characters split into bytes

## Main results

- `Json.document_encodeAll_iff`: the documents of the two readings
-/

namespace Json

open Utf8 (encode encodeAll encodeAll_cons_ascii encodeAll_eq_cons_iff)

/-- The elements of a string literal that the bytes of an element spell. -/
def Item.bytes : Item → List Item
  | .raw c => (encode c).map .raw
  | .escape c => [.escape c]
  | .unicode u => [.unicode u]

/-- A string literal, byte by byte. -/
def itemBytes (is : List Item) : List Item := is.flatMap Item.bytes

namespace Tree

mutual
/-- The tree of the encoded document. -/
def bytes : Tree → Tree
  | .null => .null
  | .bool b => .bool b
  | .nan => .nan
  | .inf negative => .inf negative
  | .int tok => .int tok
  | .float tok => .float tok
  | .str is => .str (itemBytes is)
  | .arr ts => .arr (bytesElements ts)
  | .obj ms => .obj (bytesMembers ms)
/-- The trees of the encoded elements. -/
def bytesElements : List Tree → List Tree
  | [] => []
  | t :: ts => t.bytes :: bytesElements ts
/-- The members of the encoded object. -/
def bytesMembers : List (List Item × Tree) → List (List Item × Tree)
  | [] => []
  | (is, t) :: ms => (itemBytes is, t.bytes) :: bytesMembers ms
end

mutual
theorem depth_bytes : ∀ t : Tree, t.bytes.depth = t.depth
  | .arr ts => by rw [bytes, depth, depth, depthElements_bytes ts]
  | .obj ms => by rw [bytes, depth, depth, depthMembers_bytes ms]
  | .null | .bool _ | .nan | .inf _ | .int _ | .float _ | .str _ => rfl
theorem depthElements_bytes :
    ∀ ts : List Tree, depthElements (bytesElements ts) = depthElements ts
  | [] => rfl
  | t :: ts => by
    rw [bytesElements, depthElements, depthElements, depth_bytes t, depthElements_bytes ts]
theorem depthMembers_bytes :
    ∀ ms : List (List Item × Tree), depthMembers (bytesMembers ms) = depthMembers ms
  | [] => rfl
  | (_, t) :: ms => by
    rw [bytesMembers, depthMembers, depthMembers, depth_bytes t, depthMembers_bytes ms]
end

mutual
theorem intTokens_bytes : ∀ t : Tree, t.bytes.intTokens = t.intTokens
  | .arr ts => by rw [bytes, intTokens, intTokens, intTokensElements_bytes ts]
  | .obj ms => by rw [bytes, intTokens, intTokens, intTokensMembers_bytes ms]
  | .null | .bool _ | .nan | .inf _ | .int _ | .float _ | .str _ => rfl
theorem intTokensElements_bytes :
    ∀ ts : List Tree, intTokensElements (bytesElements ts) = intTokensElements ts
  | [] => rfl
  | t :: ts => by
    rw [bytesElements, intTokensElements, intTokensElements, intTokens_bytes t,
      intTokensElements_bytes ts]
theorem intTokensMembers_bytes :
    ∀ ms : List (List Item × Tree), intTokensMembers (bytesMembers ms) = intTokensMembers ms
  | [] => rfl
  | (_, t) :: ms => by
    rw [bytesMembers, intTokensMembers, intTokensMembers, intTokens_bytes t,
      intTokensMembers_bytes ms]
end

end Tree

/-- The phrase of the encoded text. -/
def Phrase.bytes : Phrase → Phrase
  | .value t => .value t.bytes
  | .elements ts => .elements (Tree.bytesElements ts)
  | .members ms => .members (Tree.bytesMembers ms)

section Encoding

theorem encodeAll_ascii_append {tok : Text} (h : ∀ c ∈ tok, c < 0x80) (r : Text) :
    encodeAll (tok ++ r) = tok ++ encodeAll r := by
  rw [Utf8.encodeAll_append, Utf8.encodeAll_ascii h]

theorem isBlank_ascii {c : Nat} (h : IsBlank c) : c < 0x80 := by
  unfold IsBlank at h
  omega

theorem literals_ascii {lit : Text} {t : Tree} (h : (lit, t) ∈ literals) : ∀ c ∈ lit, c < 0x80 := by
  have hall : ∀ p ∈ literals, ∀ c ∈ p.1, c < 0x80 := by
    simp only [literals, List.forall_mem_cons]
    decide
  exact hall _ h

theorem literals_bytes {lit : Text} {t : Tree} (h : (lit, t) ∈ literals) : t.bytes = t := by
  simp only [literals, List.mem_cons, Prod.mk.injEq, List.not_mem_nil, or_false] at h
  rcases h with ⟨-, rfl⟩ | ⟨-, rfl⟩ | ⟨-, rfl⟩ | ⟨-, rfl⟩ | ⟨-, rfl⟩ | ⟨-, rfl⟩ <;> rfl

theorem Blank.encode {s r : Text} (h : Blank s r) : Blank (encodeAll s) (encodeAll r) := by
  induction h with
  | nil => exact .nil
  | cons hc _ ih =>
    rw [encodeAll_cons_ascii (isBlank_ascii hc)]
    exact .cons hc ih

/-- Blanks before an ASCII byte. -/
theorem Blank.encode_cons {s r : Text} {c : Nat} (hc : c < 0x80) (h : Blank s (c :: r)) :
    Blank (encodeAll s) (c :: encodeAll r) := by
  rw [← encodeAll_cons_ascii hc]
  exact h.encode

/-- Bytes that may stand in a string literal are elements of their own. -/
theorem Items.raws {bs : Text} (h : ∀ b ∈ bs, 0x20 ≤ b ∧ b ≠ 0x22 ∧ b ≠ 0x5C) {is : List Item}
    {s r : Text} (his : Items is s r) : Items (bs.map .raw ++ is) (bs ++ s) r := by
  induction bs with
  | nil => exact his
  | cons b bs ih =>
    rw [List.forall_mem_cons] at h
    obtain ⟨⟨h1, h2, h3⟩, h⟩ := h
    exact .raw h1 h2 h3 (ih h)

theorem encode_raw {c : Nat} (h : 0x20 ≤ c) (hq : c ≠ 0x22) (hb : c ≠ 0x5C) :
    ∀ b ∈ encode c, 0x20 ≤ b ∧ b ≠ 0x22 ∧ b ≠ 0x5C := by
  intro b hmem
  by_cases hc : c < 0x80
  · rw [Utf8.encode_ascii hc, List.mem_singleton] at hmem
    subst hmem
    exact ⟨h, hq, hb⟩
  · have := Utf8.le_of_mem_encode (Nat.le_of_not_lt hc) hmem
    omega

theorem escapeOf_ascii {e c : Nat} (h : escapeOf e = some c) : e < 0x80 := by
  unfold escapeOf at h
  split_ifs at h <;> omega

theorem Items.encode {is : List Item} {s r : Text} (h : Items is s r) :
    Items (itemBytes is) (encodeAll s) (encodeAll r) := by
  induction h with
  | close =>
    rw [encodeAll_cons_ascii (by omega)]
    exact .close
  | raw h1 h2 h3 _ ih =>
    rw [Utf8.encodeAll_cons]
    exact ih.raws (encode_raw h1 h2 h3)
  | escape he _ ih =>
    rw [encodeAll_cons_ascii (by omega), encodeAll_cons_ascii (escapeOf_ascii he)]
    exact .escape he ih
  | @unicode a b c d u is s r hu _ ih =>
    have hascii := hex4_ascii hu
    rw [show 0x5C :: 0x75 :: a :: b :: c :: d :: s = [0x5C, 0x75] ++ ([a, b, c, d] ++ s) from rfl,
      encodeAll_ascii_append (by decide), encodeAll_ascii_append hascii]
    exact .unicode hu ih

/-- What the grammar derives over code points, it derives over their bytes. -/
theorem Derives.encode {p : Phrase} {s r : Text} (h : Derives p s r) :
    Derives p.bytes (encodeAll s) (encodeAll r) := by
  induction h with
  | literal h =>
    rw [encodeAll_ascii_append (literals_ascii h), Phrase.bytes, literals_bytes h]
    exact .literal h
  | int h =>
    rw [encodeAll_ascii_append h.ascii]
    exact .int h
  | float h =>
    rw [encodeAll_ascii_append h.ascii]
    exact .float h
  | str h =>
    rw [encodeAll_cons_ascii (by omega)]
    exact .str h.encode
  | emptyArr h =>
    rw [encodeAll_cons_ascii (by omega)]
    exact .emptyArr (h.encode_cons (by omega))
  | arr _ ih =>
    rw [encodeAll_cons_ascii (by omega)]
    exact .arr ih
  | emptyObj h =>
    rw [encodeAll_cons_ascii (by omega)]
    exact .emptyObj (h.encode_cons (by omega))
  | obj _ ih =>
    rw [encodeAll_cons_ascii (by omega)]
    exact .obj ih
  | lastElement h₁ _ h₂ ih => exact .lastElement h₁.encode ih (h₂.encode_cons (by omega))
  | element h₁ _ h₂ _ ih ih' => exact .element h₁.encode ih (h₂.encode_cons (by omega)) ih'
  | lastMember h₁ h₂ h₃ h₄ _ h₅ ih =>
    exact .lastMember (h₁.encode_cons (by omega)) h₂.encode (h₃.encode_cons (by omega)) h₄.encode ih
      (h₅.encode_cons (by omega))
  | member h₁ h₂ h₃ h₄ _ h₅ _ ih ih' =>
    exact .member (h₁.encode_cons (by omega)) h₂.encode (h₃.encode_cons (by omega)) h₄.encode ih
      (h₅.encode_cons (by omega)) ih'

end Encoding

section Decoding

/-- An ASCII token at the head of the bytes is one at the head of the text. -/
theorem exists_of_append_eq {tok bs : Text} (h : ∀ c ∈ tok, c < 0x80) {s : Text}
    (he : tok ++ bs = encodeAll s) : ∃ r, s = tok ++ r ∧ bs = encodeAll r := by
  induction tok generalizing s with
  | nil => exact ⟨s, rfl, he⟩
  | cons c tok ih =>
    rw [List.forall_mem_cons] at h
    obtain ⟨s', rfl, hs'⟩ := (encodeAll_eq_cons_iff h.1).mp he.symm
    obtain ⟨r, rfl, hr⟩ := ih h.2 hs'.symm
    exact ⟨r, rfl, hr⟩

theorem Blank.decode {s bs : Text} (h : Blank (encodeAll s) bs) :
    ∃ r, Blank s r ∧ bs = encodeAll r := by
  generalize he : encodeAll s = cs at h
  induction h generalizing s with
  | nil => exact ⟨s, .nil, he.symm⟩
  | cons hc _ ih =>
    obtain ⟨s', rfl, hs'⟩ := (encodeAll_eq_cons_iff (isBlank_ascii hc)).mp he
    obtain ⟨r, hr, hbs⟩ := ih hs'
    exact ⟨r, .cons hc hr, hbs⟩

/-- Blanks in the bytes before an ASCII byte. -/
theorem Blank.decode_cons {s bs : Text} {c : Nat} (hc : c < 0x80)
    (h : Blank (encodeAll s) (c :: bs)) : ∃ r, Blank s (c :: r) ∧ bs = encodeAll r := by
  obtain ⟨r, hr, he⟩ := h.decode
  obtain ⟨r', rfl, hr'⟩ := (encodeAll_eq_cons_iff hc).mp he.symm
  exact ⟨r', hr, hr'.symm⟩

/-- Bytes above ASCII can only be read as raw elements. -/
theorem Items.raws_inv {bs : Text} (h : ∀ b ∈ bs, 0x80 ≤ b) {is : List Item} {s r : Text}
    (his : Items is (bs ++ s) r) : ∃ is', is = bs.map .raw ++ is' ∧ Items is' s r := by
  induction bs generalizing is with
  | nil => exact ⟨is, rfl, his⟩
  | cons b bs ih =>
    rw [List.forall_mem_cons] at h
    have hb := h.1
    generalize hs : (b :: bs) ++ s = t at his
    cases his with
    | close => exact absurd (List.cons.inj hs).1 (by omega)
    | raw h1 h2 h3 hrest =>
      obtain ⟨rfl, rfl⟩ := List.cons.inj hs
      obtain ⟨is', rfl, his'⟩ := ih h.2 hrest
      exact ⟨is', rfl, his'⟩
    | escape _ _ => exact absurd (List.cons.inj hs).1 (by omega)
    | unicode _ _ => exact absurd (List.cons.inj hs).1 (by omega)

theorem Items.decode {is : List Item} {s bs : Text} (h : Items is (encodeAll s) bs) :
    ∃ is' r, Items is' s r ∧ is = itemBytes is' ∧ bs = encodeAll r := by
  induction hn : s.length using Nat.strongRecOn generalizing s is with
  | ind n ih =>
    cases s with
    | nil => cases h
    | cons c s =>
      by_cases hc : c < 0x80
      · rw [encodeAll_cons_ascii hc] at h
        generalize hs : encodeAll s = t at h
        cases h with
        | close => exact ⟨[], s, .close, rfl, hs.symm⟩
        | raw h1 h2 h3 hrest =>
          subst hs
          obtain ⟨is', r, his, rfl, hr⟩ := ih s.length (by simp [← hn]) hrest rfl
          refine ⟨.raw c :: is', r, .raw h1 h2 h3 his, ?_, hr⟩
          show _ = (Utf8.encode c).map .raw ++ itemBytes is'
          rw [Utf8.encode_ascii hc]
          rfl
        | escape he hrest =>
          obtain ⟨s', rfl, rfl⟩ := (encodeAll_eq_cons_iff (escapeOf_ascii he)).mp hs
          obtain ⟨is', r, his, rfl, hr⟩ := ih s'.length (by simp only [← hn, List.length_cons]; omega)
            hrest rfl
          exact ⟨.escape _ :: is', r, .escape he his, rfl, hr⟩
        | @unicode a b d e u is t r hu hrest =>
          have hascii : ∀ x ∈ [0x75, a, b, d, e], x < 0x80 :=
            List.forall_mem_cons.mpr ⟨by omega, hex4_ascii hu⟩
          obtain ⟨s', rfl, hs'⟩ := exists_of_append_eq hascii hs.symm
          subst hs'
          obtain ⟨is', r, his, rfl, hr⟩ := ih s'.length
            (by simp only [← hn, List.length_cons, List.length_append]; omega) hrest rfl
          exact ⟨.unicode u :: is', r, .unicode hu his, rfl, hr⟩
      · have hc : 0x80 ≤ c := Nat.le_of_not_lt hc
        rw [Utf8.encodeAll_cons] at h
        obtain ⟨is', rfl, hrest⟩ := h.raws_inv fun b hb => Utf8.le_of_mem_encode hc hb
        obtain ⟨is', r, his, rfl, hr⟩ := ih s.length (by simp [← hn]) hrest rfl
        exact ⟨.raw c :: is', r, .raw (by omega) (by omega) (by omega) his, rfl, hr⟩

/-- What the grammar derives over the bytes of a text, it derives over the text. -/
theorem Derives.decode {p : Phrase} {s bs : Text} (h : Derives p (encodeAll s) bs) :
    ∃ p' r, Derives p' s r ∧ p = p'.bytes ∧ bs = encodeAll r := by
  generalize he : encodeAll s = cs at h
  induction h generalizing s with
  | @literal lit t r h =>
    obtain ⟨r, rfl, hr⟩ := exists_of_append_eq (literals_ascii h) he.symm
    refine ⟨.value t, r, .literal h, ?_, hr⟩
    rw [Phrase.bytes, literals_bytes h]
  | @int tok r h =>
    obtain ⟨r, rfl, hr⟩ := exists_of_append_eq h.ascii he.symm
    exact ⟨.value (.int tok), r, .int h, rfl, hr⟩
  | @float tok r h =>
    obtain ⟨r, rfl, hr⟩ := exists_of_append_eq h.ascii he.symm
    exact ⟨.value (.float tok), r, .float h, rfl, hr⟩
  | str h =>
    obtain ⟨s', rfl, rfl⟩ := (encodeAll_eq_cons_iff (by omega)).mp he
    obtain ⟨is, r, his, rfl, hr⟩ := h.decode
    exact ⟨.value (.str is), r, .str his, rfl, hr⟩
  | emptyArr h =>
    obtain ⟨s', rfl, rfl⟩ := (encodeAll_eq_cons_iff (by omega)).mp he
    obtain ⟨r, hb, hr⟩ := h.decode_cons (by omega)
    exact ⟨.value (.arr []), r, .emptyArr hb, rfl, hr⟩
  | arr _ ih =>
    obtain ⟨s', rfl, hs'⟩ := (encodeAll_eq_cons_iff (by omega)).mp he
    obtain ⟨p', r, hd, hp, hr⟩ := ih hs'
    cases p' with
    | elements ts =>
      obtain rfl : _ = Tree.bytesElements ts := Phrase.elements.inj hp
      exact ⟨.value (.arr ts), r, .arr hd, rfl, hr⟩
    | value _ | members _ => cases hp
  | emptyObj h =>
    obtain ⟨s', rfl, rfl⟩ := (encodeAll_eq_cons_iff (by omega)).mp he
    obtain ⟨r, hb, hr⟩ := h.decode_cons (by omega)
    exact ⟨.value (.obj []), r, .emptyObj hb, rfl, hr⟩
  | obj _ ih =>
    obtain ⟨s', rfl, hs'⟩ := (encodeAll_eq_cons_iff (by omega)).mp he
    obtain ⟨p', r, hd, hp, hr⟩ := ih hs'
    cases p' with
    | members ms =>
      obtain rfl : _ = Tree.bytesMembers ms := Phrase.members.inj hp
      exact ⟨.value (.obj ms), r, .obj hd, rfl, hr⟩
    | value _ | elements _ => cases hp
  | lastElement h₁ _ h₂ ih =>
    subst he
    obtain ⟨s₁, hb₁, rfl⟩ := h₁.decode
    obtain ⟨p', s₂, hd, hp, rfl⟩ := ih rfl
    obtain ⟨r, hb₂, hr⟩ := h₂.decode_cons (by omega)
    cases p' with
    | value t =>
      obtain rfl : _ = t.bytes := Phrase.value.inj hp
      exact ⟨.elements [t], r, .lastElement hb₁ hd hb₂, rfl, hr⟩
    | elements _ | members _ => cases hp
  | element h₁ _ h₂ _ ih ih' =>
    subst he
    obtain ⟨s₁, hb₁, rfl⟩ := h₁.decode
    obtain ⟨p', s₂, hd, hp, rfl⟩ := ih rfl
    obtain ⟨s₃, hb₂, rfl⟩ := h₂.decode_cons (by omega)
    obtain ⟨p'', r, hd', hp', hr⟩ := ih' rfl
    cases p' with
    | value t =>
      cases p'' with
      | elements ts =>
        obtain rfl : _ = t.bytes := Phrase.value.inj hp
        obtain rfl : _ = Tree.bytesElements ts := Phrase.elements.inj hp'
        exact ⟨.elements (t :: ts), r, .element hb₁ hd hb₂ hd', rfl, hr⟩
      | value _ | members _ => cases hp'
    | elements _ | members _ => cases hp
  | lastMember h₁ h₂ h₃ h₄ _ h₅ ih =>
    subst he
    obtain ⟨s₁, hb₁, rfl⟩ := h₁.decode_cons (by omega)
    obtain ⟨is, s₂, his, rfl, rfl⟩ := h₂.decode
    obtain ⟨s₃, hb₃, rfl⟩ := h₃.decode_cons (by omega)
    obtain ⟨s₄, hb₄, rfl⟩ := h₄.decode
    obtain ⟨p', s₅, hd, hp, rfl⟩ := ih rfl
    obtain ⟨r, hb₅, hr⟩ := h₅.decode_cons (by omega)
    cases p' with
    | value t =>
      obtain rfl : _ = t.bytes := Phrase.value.inj hp
      exact ⟨.members [(is, t)], r, .lastMember hb₁ his hb₃ hb₄ hd hb₅, rfl, hr⟩
    | elements _ | members _ => cases hp
  | member h₁ h₂ h₃ h₄ _ h₅ _ ih ih' =>
    subst he
    obtain ⟨s₁, hb₁, rfl⟩ := h₁.decode_cons (by omega)
    obtain ⟨is, s₂, his, rfl, rfl⟩ := h₂.decode
    obtain ⟨s₃, hb₃, rfl⟩ := h₃.decode_cons (by omega)
    obtain ⟨s₄, hb₄, rfl⟩ := h₄.decode
    obtain ⟨p', s₅, hd, hp, rfl⟩ := ih rfl
    obtain ⟨s₆, hb₅, rfl⟩ := h₅.decode_cons (by omega)
    obtain ⟨p'', r, hd', hp', hr⟩ := ih' rfl
    cases p' with
    | value t =>
      cases p'' with
      | members ms =>
        obtain rfl : _ = t.bytes := Phrase.value.inj hp
        obtain rfl : _ = Tree.bytesMembers ms := Phrase.members.inj hp'
        exact ⟨.members ((is, t) :: ms), r, .member hb₁ his hb₃ hb₄ hd hb₅ hd', rfl, hr⟩
      | value _ | elements _ => cases hp'
    | elements _ | members _ => cases hp

end Decoding

/-- The documents over the bytes of a text are the encoded documents over the text. -/
theorem document_encodeAll_iff {u : Tree} {s : Text} :
    Document u (encodeAll s) ↔ ∃ t, Document t s ∧ u = t.bytes := by
  constructor
  · rintro ⟨_, _, hblank, hderives, hrest⟩
    obtain ⟨s₁, hb, rfl⟩ := hblank.decode
    obtain ⟨p, s₂, hd, hp, rfl⟩ := hderives.decode
    obtain ⟨r, hb', hr⟩ := hrest.decode
    have hnil : r = [] := by
      have := Utf8.length_le_encodeAll r
      rw [← hr] at this
      exact List.eq_nil_of_length_eq_zero (Nat.le_zero.mp this)
    subst hnil
    cases p with
    | value t => exact ⟨t, ⟨s₁, s₂, hb, hd, hb'⟩, Phrase.value.inj hp⟩
    | elements _ | members _ => cases hp
  · rintro ⟨t, ⟨s₁, s₂, hb, hd, hb'⟩, rfl⟩
    exact ⟨encodeAll s₁, encodeAll s₂, hb.encode, hd.encode, hb'.encode⟩

end Json
