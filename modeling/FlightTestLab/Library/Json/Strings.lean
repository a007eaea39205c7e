import Mathlib.Data.List.Chain
import FlightTestLab.Library.Json.Print

/-!
# String literals and surrogates

A high and a low surrogate that stand side by side in a decoded string would be joined
if they were escaped and read again. Decoding never yields such a pair, because it has
joined them already; and a string without one comes back from its ASCII spelling.

## Main definitions

- `Json.Unpaired`: no high surrogate stands directly before a low one
- `Json.asciiItems`: the elements that spell a code point in printable ASCII
- `Json.Tree.AllItems`: a property of every element of every string literal

## Main results

- `Json.unpaired_decodeItems`: decoded strings are unpaired
- `Json.decodeItems_asciiItems`: unpaired strings survive spelling and decoding
-/

namespace Json

section Surrogates

/-- No high surrogate stands directly before a low one. -/
def Unpaired (cs : Text) : Prop := cs.IsChain fun a b => ¬ (IsHighSurrogate a ∧ IsLowSurrogate b)

/-- A character that is not written with `\u` is not a surrogate. -/
def Item.Plain : Item → Prop
  | .raw c | .escape c => ¬ IsHighSurrogate c ∧ ¬ IsLowSurrogate c
  | .unicode _ => True

theorem joinSurrogates_ge (u v : Nat) : 0x10000 ≤ joinSurrogates u v := by
  unfold joinSurrogates
  omega

theorem not_surrogate_of_ge {c : Nat} (h : 0x10000 ≤ c) :
    ¬ IsHighSurrogate c ∧ ¬ IsLowSurrogate c := by
  unfold IsHighSurrogate IsLowSurrogate
  omega

/-- A low surrogate at the head of a decoded string stands there on its own. -/
theorem head_decodeItems_low {is : List Item} (hplain : ∀ i ∈ is, i.Plain) {c : Nat}
    (hc : (decodeItems is).head? = some c) (hlow : IsLowSurrogate c) :
    ∃ is', is = .unicode c :: is' := by
  cases is with
  | nil => cases hc
  | cons i is =>
    have hi := hplain i List.mem_cons_self
    cases hp : pairOf i is with
    | none =>
      rw [decodeItems_cons hp, List.head?_cons, Option.some.injEq] at hc
      cases i with
      | raw d | escape d =>
        have hcode : d = c := hc
        exact absurd (hcode ▸ hlow) hi.2
      | unicode u => exact ⟨is, by rw [← hc]; rfl⟩
    | some d =>
      obtain ⟨u, v, is', rfl, rfl, hu, hv, -⟩ := pairOf_eq_some_iff.mp hp
      rw [decodeItems_pair hu hv, List.head?_cons, Option.some.injEq] at hc
      exact absurd hlow (hc ▸ (not_surrogate_of_ge (joinSurrogates_ge u v)).2)

/-- Decoding leaves no pair: adjacent escapes of one have been joined. -/
theorem unpaired_decodeItems {is : List Item} (hplain : ∀ i ∈ is, i.Plain) :
    Unpaired (decodeItems is) := by
  induction hn : is.length using Nat.strongRecOn generalizing is with
  | ind n ih =>
    cases is with
    | nil => exact .nil
    | cons i is =>
      obtain ⟨hi, hrest⟩ := List.forall_mem_cons.mp hplain
      rw [List.length_cons] at hn
      cases hp : pairOf i is with
      | none =>
        rw [decodeItems_cons hp]
        refine List.isChain_cons.mpr ⟨fun c hc => ?_, ih is.length (by omega) hrest rfl⟩
        rintro ⟨hhigh, hlow⟩
        obtain ⟨is', rfl⟩ := head_decodeItems_low hrest hc hlow
        cases i with
        | raw d | escape d => exact hi.1 hhigh
        | unicode u =>
          have hpair : pairOf (.unicode u) (.unicode c :: is') = some (joinSurrogates u c) :=
            pairOf_eq_some_iff.mpr ⟨u, c, is', rfl, rfl, hhigh, hlow, rfl⟩
          rw [hp] at hpair
          cases hpair
      | some d =>
        obtain ⟨u, v, is', rfl, rfl, hu, hv, -⟩ := pairOf_eq_some_iff.mp hp
        rw [decodeItems_pair hu hv]
        rw [List.length_cons] at hn
        have htail : ∀ i ∈ is', i.Plain := fun i hi => hrest i (List.mem_cons_of_mem _ hi)
        refine List.isChain_cons.mpr ⟨fun c _ => ?_, ih is'.length (by omega) htail rfl⟩
        exact fun h => (not_surrogate_of_ge (joinSurrogates_ge u v)).1 h.1

end Surrogates

section Spelling

/-- The code points with an escape of their own. -/
def HasEscape (c : Nat) : Prop :=
  c = 0x22 ∨ c = 0x5C ∨ c = 0x08 ∨ c = 0x0C ∨ c = 0x0A ∨ c = 0x0D ∨ c = 0x09

instance (c : Nat) : Decidable (HasEscape c) := inferInstanceAs (Decidable (_ ∨ _))

/-- The elements that spell a code point in printable ASCII. -/
def asciiItems (c : Nat) : List Item :=
  if HasEscape c then [.escape c]
  else if 0x20 ≤ c ∧ c < 0x7F then [.raw c]
  else if c ≤ 0xFFFF then [.unicode c]
  else [.unicode (0xD800 + (c - 0x10000) / 0x400), .unicode (0xDC00 + (c - 0x10000) % 0x400)]

/-- The first of the elements that spell a code point. -/
theorem asciiItems_cons {c : Nat} (hc : c < 0x110000) : ∃ i is, asciiItems c = i :: is ∧
    ∀ v, i = .unicode v → IsLowSurrogate v → v = c := by
  unfold asciiItems
  split_ifs
  · exact ⟨_, _, rfl, fun v hv => by cases hv⟩
  · exact ⟨_, _, rfl, fun v hv => by cases hv⟩
  · exact ⟨_, _, rfl, fun v hv _ => (Item.unicode.inj hv).symm⟩
  · refine ⟨_, _, rfl, fun v hv hlow => ?_⟩
    have := Item.unicode.inj hv
    unfold IsLowSurrogate at hlow
    omega

theorem pairOf_asciiItems {c : Nat} {cs : Text} (hcs : ∀ d ∈ cs, d < 0x110000)
    (h : ∀ d ∈ cs.head?, ¬ (IsHighSurrogate c ∧ IsLowSurrogate d)) {i : Item} (hi : i.code = c) :
    pairOf i (cs.flatMap asciiItems) = none := by
  cases hp : pairOf i (cs.flatMap asciiItems) with
  | none => rfl
  | some e =>
    obtain ⟨u, v, is', rfl, he, hu, hv, -⟩ := pairOf_eq_some_iff.mp hp
    cases cs with
    | nil => cases he
    | cons d cs =>
      obtain ⟨j, is, hj, hlow⟩ := asciiItems_cons (hcs d List.mem_cons_self)
      rw [List.flatMap_cons, hj, List.cons_append, List.cons.injEq] at he
      obtain rfl := hlow v he.1 hv
      exact absurd ⟨hi ▸ hu, hv⟩ (h v rfl)

/-- An unpaired string is what its ASCII spelling decodes to. -/
theorem decodeItems_asciiItems {cs : Text} (hlt : ∀ c ∈ cs, c < 0x110000) (h : Unpaired cs) :
    decodeItems (cs.flatMap asciiItems) = cs := by
  induction cs with
  | nil => rfl
  | cons c cs ih =>
    obtain ⟨hc, hcs⟩ := List.forall_mem_cons.mp hlt
    obtain ⟨hhead, htail⟩ := List.isChain_cons.mp h
    have hrest := ih hcs htail
    have alone {i : Item} (hi : i.code = c) :
        decodeItems ([i] ++ cs.flatMap asciiItems) = c :: cs := by
      rw [List.singleton_append, decodeItems_cons (pairOf_asciiItems hcs hhead hi), hi, hrest]
    rw [List.flatMap_cons]
    unfold asciiItems
    split_ifs
    · exact alone rfl
    · exact alone rfl
    · exact alone rfl
    · have hhigh : IsHighSurrogate (0xD800 + (c - 0x10000) / 0x400) := by
        unfold IsHighSurrogate
        omega
      have hlow : IsLowSurrogate (0xDC00 + (c - 0x10000) % 0x400) := by
        unfold IsLowSurrogate
        omega
      have hjoin : joinSurrogates (0xD800 + (c - 0x10000) / 0x400)
          (0xDC00 + (c - 0x10000) % 0x400) = c := by
        unfold joinSurrogates
        omega
      rw [List.cons_append, List.singleton_append, decodeItems_pair hhigh hlow, hjoin]
      exact congrArg (c :: ·) hrest

theorem hexDigit_hexChar : ∀ d < 16, hexDigit (hexChar d) = some d := by decide

theorem hex4_hexText {n : Nat} (h : n < 0x10000) :
    hex4 (hexChar (n / 0x1000 % 16)) (hexChar (n / 0x100 % 16)) (hexChar (n / 0x10 % 16))
      (hexChar (n % 16)) = some n := by
  have digit (m : Nat) : hexDigit (hexChar (m % 16)) = some (m % 16) :=
    hexDigit_hexChar _ (Nat.mod_lt _ (by omega))
  simp only [hex4, digit, Option.bind_eq_bind, Option.bind_some, Option.some.injEq]
  omega

theorem Items.unicodeEscape {n : Nat} (h : n < 0x10000) {is : List Item} {s r : Text}
    (his : Items is s r) : Items (.unicode n :: is) (unicodeEscape n ++ s) r :=
  .unicode (hex4_hexText h) his

end Spelling

namespace Tree

mutual
/-- Every element of every string literal, keys included, has the property. -/
def AllItems (p : Item → Prop) : Tree → Prop
  | .str is => ∀ i ∈ is, p i
  | .arr ts => AllItemsElements p ts
  | .obj ms => AllItemsMembers p ms
  | _ => True
/-- Every literal of every element has the property. -/
def AllItemsElements (p : Item → Prop) : List Tree → Prop
  | [] => True
  | t :: ts => t.AllItems p ∧ AllItemsElements p ts
/-- Every key and every literal of every member has the property. -/
def AllItemsMembers (p : Item → Prop) : List (List Item × Tree) → Prop
  | [] => True
  | (is, t) :: ms => (∀ i ∈ is, p i) ∧ t.AllItems p ∧ AllItemsMembers p ms
end

theorem allItemsElements_iff {p : Item → Prop} {ts : List Tree} :
    AllItemsElements p ts ↔ ∀ t ∈ ts, t.AllItems p := by
  induction ts with
  | nil => simp [AllItemsElements]
  | cons t ts ih => rw [AllItemsElements, ih, List.forall_mem_cons]

theorem allItemsMembers_iff {p : Item → Prop} {ms : List (List Item × Tree)} :
    AllItemsMembers p ms ↔ ∀ m ∈ ms, (∀ i ∈ m.1, p i) ∧ m.2.AllItems p := by
  induction ms with
  | nil => simp [AllItemsMembers]
  | cons m ms ih => rw [AllItemsMembers, ih, List.forall_mem_cons, and_assoc]

end Tree

/-- Every element of every string literal of the phrase has the property. -/
def Phrase.AllItems (p : Item → Prop) : Phrase → Prop
  | .value t => t.AllItems p
  | .elements ts => Tree.AllItemsElements p ts
  | .members ms => Tree.AllItemsMembers p ms

section Derivations

/-- What makes the elements of a literal have a property: raw ones stand in the text. -/
structure ItemRule (q : Nat → Prop) (p : Item → Prop) : Prop where
  raw : ∀ c, q c → p (.raw c)
  escape : ∀ e c, escapeOf e = some c → p (.escape c)
  unicode : ∀ u, u < 0x10000 → p (.unicode u)

variable {q : Nat → Prop} {p : Item → Prop}

theorem Items.allItems (hp : ItemRule q p) {is : List Item} {s r : Text} (h : Items is s r)
    (hs : ∀ c ∈ s, q c) : (∀ i ∈ is, p i) ∧ ∀ c ∈ r, q c := by
  induction h with
  | close => exact ⟨by simp, fun c hc => hs c (List.mem_cons_of_mem _ hc)⟩
  | @raw c is s r _ _ _ _ ih =>
    obtain ⟨hi, hr⟩ := ih fun c hc => hs c (List.mem_cons_of_mem _ hc)
    exact ⟨List.forall_mem_cons.mpr ⟨hp.raw c (hs c List.mem_cons_self), hi⟩, hr⟩
  | escape he _ ih =>
    obtain ⟨hi, hr⟩ := ih fun c hc => hs c (by simp [hc])
    exact ⟨List.forall_mem_cons.mpr ⟨hp.escape _ _ he, hi⟩, hr⟩
  | unicode hu _ ih =>
    obtain ⟨hi, hr⟩ := ih fun c hc => hs c (by simp [hc])
    exact ⟨List.forall_mem_cons.mpr ⟨hp.unicode _ (hex4_lt hu), hi⟩, hr⟩

theorem Derives.allItems (hp : ItemRule q p) {ph : Phrase} {s r : Text} (h : Derives ph s r)
    (hs : ∀ c ∈ s, q c) : ph.AllItems p ∧ ∀ c ∈ r, q c := by
  induction h with
  | @literal lit t r h =>
    refine ⟨?_, fun c hc => hs c (List.mem_append_right _ hc)⟩
    simp only [literals, List.mem_cons, Prod.mk.injEq, List.not_mem_nil, or_false] at h
    rcases h with ⟨-, rfl⟩ | ⟨-, rfl⟩ | ⟨-, rfl⟩ | ⟨-, rfl⟩ | ⟨-, rfl⟩ | ⟨-, rfl⟩ <;> trivial
  | int _ | float _ => exact ⟨trivial, fun c hc => hs c (List.mem_append_right _ hc)⟩
  | str h => exact h.allItems hp fun c hc => hs c (List.mem_cons_of_mem _ hc)
  | emptyArr h | emptyObj h =>
    have := h.forall fun c hc => hs c (List.mem_cons_of_mem _ hc)
    exact ⟨trivial, fun c hc => this c (List.mem_cons_of_mem _ hc)⟩
  | arr _ ih | obj _ ih => exact ih fun c hc => hs c (List.mem_cons_of_mem _ hc)
  | lastElement h₁ _ h₂ ih =>
    obtain ⟨ht, hr⟩ := ih (h₁.forall hs)
    exact ⟨⟨ht, trivial⟩, fun c hc => h₂.forall hr c (List.mem_cons_of_mem _ hc)⟩
  | element h₁ _ h₂ _ ih ih' =>
    obtain ⟨ht, hr⟩ := ih (h₁.forall hs)
    obtain ⟨hts, hr⟩ := ih' fun c hc => h₂.forall hr c (List.mem_cons_of_mem _ hc)
    exact ⟨⟨ht, hts⟩, hr⟩
  | lastMember h₁ h₂ h₃ h₄ _ h₅ ih =>
    obtain ⟨hi, hr⟩ := h₂.allItems hp fun c hc => h₁.forall hs c (List.mem_cons_of_mem _ hc)
    obtain ⟨ht, hr⟩ := ih (h₄.forall fun c hc => h₃.forall hr c (List.mem_cons_of_mem _ hc))
    exact ⟨⟨hi, ht, trivial⟩, fun c hc => h₅.forall hr c (List.mem_cons_of_mem _ hc)⟩
  | member h₁ h₂ h₃ h₄ _ h₅ _ ih ih' =>
    obtain ⟨hi, hr⟩ := h₂.allItems hp fun c hc => h₁.forall hs c (List.mem_cons_of_mem _ hc)
    obtain ⟨ht, hr⟩ := ih (h₄.forall fun c hc => h₃.forall hr c (List.mem_cons_of_mem _ hc))
    obtain ⟨hms, hr⟩ := ih' fun c hc => h₅.forall hr c (List.mem_cons_of_mem _ hc)
    exact ⟨⟨hi, ht, hms⟩, hr⟩

theorem Document.allItems (hp : ItemRule q p) {t : Tree} {s : Text} (h : Document t s)
    (hs : ∀ c ∈ s, q c) : t.AllItems p := by
  obtain ⟨s₁, s₂, hb, hd, -⟩ := h
  exact (hd.allItems hp (hb.forall hs)).1

end Derivations

end Json
