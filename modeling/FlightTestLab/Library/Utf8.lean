import Mathlib.Data.List.Basic
import Mathlib.Data.List.DropRight
import Mathlib.Data.List.Lex
import Mathlib.Tactic.Tauto

/-!
# UTF-8 with replacement

Bytes and code points are natural numbers. `encode` is generalized UTF-8: it also
encodes surrogates, so it is total on the code points a string may hold.
`decodeReplace` reads the table of well-formed sequences and answers one
replacement character for each maximal ill-formed subpart.
-/

namespace Utf8

/-- The bytes of one code point. -/
def encode (c : Nat) : List Nat :=
  if c < 0x80 then [c]
  else if c < 0x800 then [0xC0 + c / 64, 0x80 + c % 64]
  else if c < 0x10000 then [0xE0 + c / 4096, 0x80 + c / 64 % 64, 0x80 + c % 64]
  else [0xF0 + c / 262144, 0x80 + c / 4096 % 64, 0x80 + c / 64 % 64, 0x80 + c % 64]

def encodeAll (cs : List Nat) : List Nat := cs.flatMap encode

/-- The code points that well-formed UTF-8 encodes. -/
def IsScalar (c : Nat) : Prop := c < 0xD800 ∨ 0xE000 ≤ c ∧ c < 0x110000

instance (c : Nat) : Decidable (IsScalar c) := inferInstanceAs (Decidable (_ ∨ _))

/-- The range of an unrestricted trailing byte. -/
abbrev tail : Nat × Nat := (0x80, 0xBF)

/-- Unicode table 3-7: the ranges of the trailing bytes after a lead byte. -/
def trailing (lead : Nat) : Option (List (Nat × Nat)) :=
  if lead ≤ 0x7F then some []
  else if 0xC2 ≤ lead ∧ lead ≤ 0xDF then some [tail]
  else if lead = 0xE0 then some [(0xA0, 0xBF), tail]
  else if 0xE1 ≤ lead ∧ lead ≤ 0xEC then some [tail, tail]
  else if lead = 0xED then some [(0x80, 0x9F), tail]
  else if 0xEE ≤ lead ∧ lead ≤ 0xEF then some [tail, tail]
  else if lead = 0xF0 then some [(0x90, 0xBF), tail, tail]
  else if 0xF1 ≤ lead ∧ lead ≤ 0xF3 then some [tail, tail, tail]
  else if lead = 0xF4 then some [(0x80, 0x8F), tail, tail]
  else none

/-- How many leading ranges of a row the bytes fall in. -/
def matched : List (Nat × Nat) → List Nat → Nat
  | (lo, hi) :: row, b :: bs => if lo ≤ b ∧ b ≤ hi then matched row bs + 1 else 0
  | _, _ => 0

/-- The lead byte's marker in a sequence with the given number of trailing bytes. -/
def marker : Nat → Nat
  | 0 => 0
  | 1 => 0xC0
  | 2 => 0xE0
  | _ => 0xF0

/-- The code point of a well-formed sequence: six bits from each trailing byte. -/
def scalarOf (lead : Nat) (tails : List Nat) : Nat :=
  tails.foldl (fun c b => c * 64 + (b - 0x80)) (lead - marker tails.length)

/-- The code point read at a lead byte, if a well-formed sequence starts there,
and the number of trailing bytes that belong to it or to the ill-formed subpart. -/
def decodeHead (lead : Nat) (rest : List Nat) : Option Nat × Nat :=
  match trailing lead with
  | none => (none, 0)
  | some row =>
    let k := matched row rest
    (if k = row.length then some (scalarOf lead (rest.take k)) else none, k)

/-- `decodeReplace` with a number of bytes still to skip. -/
def decodeFrom : Nat → List Nat → List Nat
  | _, [] => []
  | skip + 1, _ :: bs => decodeFrom skip bs
  | 0, b :: bs => (decodeHead b bs).1.getD 0xFFFD :: decodeFrom (decodeHead b bs).2 bs

/-- Decode, with U+FFFD for each maximal subpart of an ill-formed sequence. -/
def decodeReplace (bs : List Nat) : List Nat := decodeFrom 0 bs

/-- `decodeStrict` with a number of bytes still to skip. -/
def decodeStrictFrom : Nat → List Nat → Option (List Nat)
  | _, [] => some []
  | skip + 1, _ :: bs => decodeStrictFrom skip bs
  | 0, b :: bs => do
    let c ← (decodeHead b bs).1
    let cs ← decodeStrictFrom (decodeHead b bs).2 bs
    some (c :: cs)

/-- Decode well-formed bytes only. -/
def decodeStrict (bs : List Nat) : Option (List Nat) := decodeStrictFrom 0 bs

section Encode

@[simp] theorem encodeAll_nil : encodeAll [] = [] := rfl

@[simp] theorem encodeAll_cons (c : Nat) (cs : List Nat) :
    encodeAll (c :: cs) = encode c ++ encodeAll cs := rfl

@[simp] theorem encodeAll_append (cs ds : List Nat) :
    encodeAll (cs ++ ds) = encodeAll cs ++ encodeAll ds := List.flatMap_append

theorem encode_ascii {c : Nat} (h : c < 0x80) : encode c = [c] := if_pos h

theorem encodeAll_ascii {cs : List Nat} (h : ∀ c ∈ cs, c < 0x80) : encodeAll cs = cs := by
  induction cs with
  | nil => rfl
  | cons c cs ih =>
    rw [encodeAll_cons, encode_ascii (h c (by simp)), ih (fun d hd => h d (by simp [hd]))]
    rfl

theorem encode_ne_nil (c : Nat) : encode c ≠ [] := by
  unfold encode
  split_ifs <;> simp

/-- Every byte of a non-ASCII code point has its high bit set. -/
theorem le_of_mem_encode {c b : Nat} (h : 0x80 ≤ c) (hb : b ∈ encode c) : 0x80 ≤ b := by
  unfold encode at hb
  split_ifs at hb
  · omega
  all_goals
    simp only [List.mem_cons, List.not_mem_nil, or_false] at hb
    omega

theorem length_le_encodeAll (cs : List Nat) : cs.length ≤ (encodeAll cs).length := by
  induction cs with
  | nil => simp
  | cons c cs ih =>
    have := List.length_pos_of_ne_nil (encode_ne_nil c)
    simp only [List.length_cons, encodeAll_cons, List.length_append]
    omega

theorem encode_two {c : Nat} (h : 0x80 ≤ c) (h' : c < 0x800) :
    encode c = [0xC0 + c / 64, 0x80 + c % 64] := by
  rw [encode, if_neg (by omega), if_pos h']

theorem encode_three {c : Nat} (h : 0x800 ≤ c) (h' : c < 0x10000) :
    encode c = [0xE0 + c / 4096, 0x80 + c / 64 % 64, 0x80 + c % 64] := by
  rw [encode, if_neg (by omega), if_neg (by omega), if_pos h']

theorem encode_four {c : Nat} (h : 0x10000 ≤ c) :
    encode c = [0xF0 + c / 262144, 0x80 + c / 4096 % 64, 0x80 + c / 64 % 64, 0x80 + c % 64] := by
  rw [encode, if_neg (by omega), if_neg (by omega), if_neg (by omega)]

/-- The four encoded lengths. -/
theorem length_cases (c : Nat) :
    c < 0x80 ∨ (0x80 ≤ c ∧ c < 0x800) ∨ (0x800 ≤ c ∧ c < 0x10000) ∨ 0x10000 ≤ c := by omega

private theorem lt_of_lead_lt {x y : Nat} (h : x < y) (u v : List Nat) : x :: u < y :: v :=
  List.cons_lt_cons_iff.mpr (.inl h)

/-- The encodings of two code points differ, in their order, before either ends. -/
theorem encode_append_lt {a b : Nat} (h : a < b) (hb : b < 0x110000) (u v : List Nat) :
    encode a ++ u < encode b ++ v := by
  obtain ha | ⟨ha, ha'⟩ | ⟨ha, ha'⟩ | ha := length_cases a
  · rw [encode_ascii ha]
    obtain hb | ⟨hb, hb'⟩ | ⟨hb, hb'⟩ | hb := length_cases b
    · rw [encode_ascii hb]
      exact lt_of_lead_lt h _ _
    · rw [encode_two hb hb']
      exact lt_of_lead_lt (by omega) _ _
    · rw [encode_three hb hb']
      exact lt_of_lead_lt (by omega) _ _
    · rw [encode_four hb]
      exact lt_of_lead_lt (by omega) _ _
  · rw [encode_two ha ha']
    obtain hb | ⟨hb, hb'⟩ | ⟨hb, hb'⟩ | hb := length_cases b
    · omega
    · rw [encode_two hb hb']
      simp only [List.cons_append, List.cons_lt_cons_iff]
      have hd : a / 64 < b / 64 ∨ a / 64 = b / 64 ∧ a % 64 < b % 64 := by omega
      obtain hd | ⟨hd, hr⟩ := hd
      · exact .inl (by omega)
      · exact .inr ⟨by omega, .inl (by omega)⟩
    · rw [encode_three hb hb']
      exact lt_of_lead_lt (by omega) _ _
    · rw [encode_four hb]
      exact lt_of_lead_lt (by omega) _ _
  · rw [encode_three ha ha']
    obtain hb | ⟨hb, hb'⟩ | ⟨hb, hb'⟩ | hb := length_cases b
    · omega
    · omega
    · rw [encode_three hb hb']
      simp only [List.cons_append, List.cons_lt_cons_iff]
      have hd : a / 4096 < b / 4096 ∨ a / 4096 = b / 4096 ∧
          (a / 64 % 64 < b / 64 % 64 ∨ a / 64 % 64 = b / 64 % 64 ∧ a % 64 < b % 64) := by omega
      obtain hd | ⟨hd, hr | ⟨hr, hs⟩⟩ := hd
      · exact .inl (by omega)
      · exact .inr ⟨by omega, .inl (by omega)⟩
      · exact .inr ⟨by omega, .inr ⟨by omega, .inl (by omega)⟩⟩
    · rw [encode_four hb]
      exact lt_of_lead_lt (by omega) _ _
  · rw [encode_four ha, encode_four (by omega)]
    simp only [List.cons_append, List.cons_lt_cons_iff]
    have hd : a / 262144 < b / 262144 ∨ a / 262144 = b / 262144 ∧
        (a / 4096 % 64 < b / 4096 % 64 ∨ a / 4096 % 64 = b / 4096 % 64 ∧
          (a / 64 % 64 < b / 64 % 64 ∨ a / 64 % 64 = b / 64 % 64 ∧ a % 64 < b % 64)) := by omega
    obtain hd | ⟨hd, hr | ⟨hr, hs | ⟨hs, ht⟩⟩⟩ := hd
    · exact .inl (by omega)
    · exact .inr ⟨by omega, .inl (by omega)⟩
    · exact .inr ⟨by omega, .inr ⟨by omega, .inl (by omega)⟩⟩
    · exact .inr ⟨by omega, .inr ⟨by omega, .inr ⟨by omega, .inl (by omega)⟩⟩⟩

private theorem append_lt_append_iff (p u v : List Nat) : p ++ u < p ++ v ↔ u < v := by
  induction p with
  | nil => rfl
  | cons x p ih => simp [ih]

theorem encodeAll_lt_iff {as bs : List Nat} (ha : ∀ c ∈ as, c < 0x110000)
    (hb : ∀ c ∈ bs, c < 0x110000) : encodeAll as < encodeAll bs ↔ as < bs := by
  induction as generalizing bs with
  | nil =>
    cases bs with
    | nil => simp
    | cons b bs =>
      obtain ⟨x, xs, hx⟩ := List.exists_cons_of_ne_nil (encode_ne_nil b)
      simp [hx]
  | cons a as ih =>
    cases bs with
    | nil => simp
    | cons b bs =>
      rw [encodeAll_cons, encodeAll_cons, List.cons_lt_cons_iff]
      obtain h | rfl | h := Nat.lt_trichotomy a b
      · simp [h, encode_append_lt h (hb b (by simp))]
      · have hi : encodeAll as < encodeAll bs ↔ as < bs :=
          ih (fun c hc => ha c (by simp [hc])) (fun c hc => hb c (by simp [hc]))
        rw [append_lt_append_iff, hi]
        simp
      · have hlt := encode_append_lt h (ha a (by simp)) (encodeAll bs) (encodeAll as)
        have hge : ¬ encode a ++ encodeAll as < encode b ++ encodeAll bs :=
          List.not_lt.mpr (List.le_of_lt hlt)
        have hne : ¬ (a < b ∨ a = b ∧ as < bs) := by omega
        exact iff_of_false hge hne

theorem encodeAll_injective {as bs : List Nat} (ha : ∀ c ∈ as, c < 0x110000)
    (hb : ∀ c ∈ bs, c < 0x110000) (h : encodeAll as = encodeAll bs) : as = bs := by
  have h1 : ¬ as < bs := by
    rw [← encodeAll_lt_iff ha hb, h]
    exact List.lt_irrefl _
  have h2 : ¬ bs < as := by
    rw [← encodeAll_lt_iff hb ha, h]
    exact List.lt_irrefl _
  exact List.le_antisymm (List.not_lt.mp h2) (List.not_lt.mp h1)

theorem encodeAll_cons_ascii {c : Nat} (h : c < 0x80) (s : List Nat) :
    encodeAll (c :: s) = c :: encodeAll s := by
  rw [encodeAll_cons, encode_ascii h, List.singleton_append]

/-- The encoding of a text starts with its first code point or with no ASCII byte. -/
theorem encodeAll_cons_cases (c : Nat) (s : List Nat) :
    (c < 0x80 ∧ encodeAll (c :: s) = c :: encodeAll s) ∨
      ∃ b bs, 0x80 ≤ c ∧ 0x80 ≤ b ∧ encodeAll (c :: s) = b :: bs := by
  by_cases h : c < 0x80
  · exact .inl ⟨h, encodeAll_cons_ascii h s⟩
  · have h : 0x80 ≤ c := Nat.le_of_not_lt h
    obtain ⟨b, bs, hb⟩ := List.exists_cons_of_ne_nil (encode_ne_nil c)
    exact .inr ⟨b, bs ++ encodeAll s, h, le_of_mem_encode h (by simp [hb]),
      by rw [encodeAll_cons, hb, List.cons_append]⟩

theorem encodeAll_eq_cons_iff {c : Nat} (hc : c < 0x80) {s bs : List Nat} :
    encodeAll s = c :: bs ↔ ∃ s', s = c :: s' ∧ encodeAll s' = bs := by
  constructor
  · intro h
    cases s with
    | nil => cases h
    | cons c' s' =>
      obtain ⟨-, he⟩ | ⟨b, bs', -, hb, he⟩ := encodeAll_cons_cases c' s'
      · rw [he, List.cons.injEq] at h
        exact ⟨s', by rw [h.1], h.2⟩
      · rw [he, List.cons.injEq] at h
        omega
  · rintro ⟨s', rfl, rfl⟩
    exact encodeAll_cons_ascii hc s'

end Encode

section Decode

theorem matched_le (row : List (Nat × Nat)) (bs : List Nat) : matched row bs ≤ row.length := by
  induction row generalizing bs with
  | nil => cases bs <;> simp [matched]
  | cons r row ih =>
    cases bs with
    | nil => simp [matched]
    | cons b bs =>
      simp only [matched, List.length_cons]
      split
      · exact Nat.add_le_add_right (ih bs) 1
      · omega

/-- A row matches in full exactly when each byte falls in its range. -/
theorem matched_cons_full {lo hi : Nat} {row : List (Nat × Nat)} {bs : List Nat}
    (h : matched ((lo, hi) :: row) bs = row.length + 1) :
    ∃ b r, bs = b :: r ∧ lo ≤ b ∧ b ≤ hi ∧ matched row r = row.length := by
  cases bs with
  | nil => simp [matched] at h
  | cons b r =>
    simp only [matched] at h
    split at h
    · next hr => exact ⟨b, r, rfl, hr.1, hr.2, by omega⟩
    · omega

private theorem encode_three_tails {lead b c : Nat} (h : 0xE0 ≤ lead ∧ lead ≤ 0xEF)
    (hb : 0x80 ≤ b ∧ b ≤ 0xBF) (hc : 0x80 ≤ c ∧ c ≤ 0xBF) (hlow : lead = 0xE0 → 0xA0 ≤ b)
    (hhigh : lead = 0xED → b ≤ 0x9F) :
    IsScalar (scalarOf lead [b, c]) ∧ encode (scalarOf lead [b, c]) = [lead, b, c] := by
  simp only [scalarOf, marker, List.length_cons, List.length_nil, List.foldl_cons, List.foldl_nil,
    IsScalar]
  refine ⟨by omega, ?_⟩
  rw [encode_three (by omega) (by omega)]
  simp only [List.cons.injEq, and_true]
  omega

private theorem encode_four_tails {lead b c d : Nat} (h : 0xF0 ≤ lead ∧ lead ≤ 0xF4)
    (hb : 0x80 ≤ b ∧ b ≤ 0xBF) (hc : 0x80 ≤ c ∧ c ≤ 0xBF) (hd : 0x80 ≤ d ∧ d ≤ 0xBF)
    (hlow : lead = 0xF0 → 0x90 ≤ b) (hhigh : lead = 0xF4 → b ≤ 0x8F) :
    IsScalar (scalarOf lead [b, c, d]) ∧ encode (scalarOf lead [b, c, d]) = [lead, b, c, d] := by
  simp only [scalarOf, marker, List.length_cons, List.length_nil, List.foldl_cons, List.foldl_nil,
    IsScalar]
  refine ⟨by omega, ?_⟩
  rw [encode_four (by omega)]
  simp only [List.cons.injEq, and_true]
  omega

/-- A well-formed sequence is the encoding of the scalar it stands for. -/
theorem encode_scalarOf {lead : Nat} {row : List (Nat × Nat)} {rest : List Nat}
    (ht : trailing lead = some row) (hm : matched row rest = row.length) :
    IsScalar (scalarOf lead (rest.take row.length)) ∧
      encode (scalarOf lead (rest.take row.length)) = lead :: rest.take row.length := by
  have three : ∀ {lo hi : Nat}, row = [(lo, hi), tail] → 0xE0 ≤ lead ∧ lead ≤ 0xEF →
      0x80 ≤ lo → hi ≤ 0xBF → (lead = 0xE0 → 0xA0 ≤ lo) → (lead = 0xED → hi ≤ 0x9F) →
      IsScalar (scalarOf lead (rest.take row.length)) ∧
        encode (scalarOf lead (rest.take row.length)) = lead :: rest.take row.length := by
    rintro lo hi rfl hl hlo hhi h1 h2
    obtain ⟨b, r, rfl, hb, hb', hm⟩ := matched_cons_full hm
    obtain ⟨c, r, rfl, hc, hc', -⟩ := matched_cons_full hm
    exact encode_three_tails hl ⟨by omega, by omega⟩ ⟨hc, hc'⟩ (by omega) (by omega)
  have four : ∀ {lo hi : Nat}, row = [(lo, hi), tail, tail] → 0xF0 ≤ lead ∧ lead ≤ 0xF4 →
      0x80 ≤ lo → hi ≤ 0xBF → (lead = 0xF0 → 0x90 ≤ lo) → (lead = 0xF4 → hi ≤ 0x8F) →
      IsScalar (scalarOf lead (rest.take row.length)) ∧
        encode (scalarOf lead (rest.take row.length)) = lead :: rest.take row.length := by
    rintro lo hi rfl hl hlo hhi h1 h2
    obtain ⟨b, r, rfl, hb, hb', hm⟩ := matched_cons_full hm
    obtain ⟨c, r, rfl, hc, hc', hm⟩ := matched_cons_full hm
    obtain ⟨d, r, rfl, hd, hd', -⟩ := matched_cons_full hm
    exact encode_four_tails hl ⟨by omega, by omega⟩ ⟨hc, hc'⟩ ⟨hd, hd'⟩ (by omega) (by omega)
  unfold trailing at ht
  split_ifs at ht <;> have ht := Option.some.inj ht
  · subst ht
    simp only [List.length_nil, List.take_zero, scalarOf, marker, List.foldl_nil, Nat.sub_zero]
    exact ⟨.inl (by omega), encode_ascii (by omega)⟩
  · subst ht
    obtain ⟨b, r, rfl, h1, h2, -⟩ := matched_cons_full hm
    simp only [List.length_cons, List.length_nil, List.take_succ_cons, List.take_zero, scalarOf,
      marker, List.foldl_cons, List.foldl_nil, IsScalar]
    refine ⟨by omega, ?_⟩
    rw [encode_two (by omega) (by omega)]
    simp only [List.cons.injEq, and_true]
    omega
  · exact three ht.symm (by omega) (by omega) (by omega) (by omega) (by omega)
  · exact three ht.symm (by omega) (by omega) (by omega) (by omega) (by omega)
  · exact three ht.symm (by omega) (by omega) (by omega) (by omega) (by omega)
  · exact three ht.symm (by omega) (by omega) (by omega) (by omega) (by omega)
  · exact four ht.symm (by omega) (by omega) (by omega) (by omega) (by omega)
  · exact four ht.symm (by omega) (by omega) (by omega) (by omega) (by omega)
  · exact four ht.symm (by omega) (by omega) (by omega) (by omega) (by omega)

theorem decodeFrom_eq (skip : Nat) (bs : List Nat) :
    decodeFrom skip bs = decodeReplace (bs.drop skip) := by
  induction skip generalizing bs with
  | zero => rfl
  | succ skip ih =>
    cases bs with
    | nil => rfl
    | cons b bs => exact ih bs

@[simp] theorem decodeReplace_nil : decodeReplace [] = [] := rfl

theorem decodeReplace_cons (b : Nat) (bs : List Nat) :
    decodeReplace (b :: bs) =
      (decodeHead b bs).1.getD 0xFFFD :: decodeReplace (bs.drop (decodeHead b bs).2) := by
  rw [← decodeFrom_eq]
  rfl

theorem isScalar_decodeHead (b : Nat) (bs : List Nat) :
    IsScalar ((decodeHead b bs).1.getD 0xFFFD) := by
  unfold decodeHead
  split
  · exact .inr (by simp)
  · next row ht =>
    dsimp only
    split
    · next hm => simpa [hm] using (encode_scalarOf ht hm).1
    · exact .inr (by simp)

/-- Decoding with replacement yields scalars only. -/
theorem isScalar_of_mem_decodeReplace {bs : List Nat} {c : Nat} (h : c ∈ decodeReplace bs) :
    IsScalar c := by
  induction hn : bs.length using Nat.strong_induction_on generalizing bs with
  | _ n ih =>
    cases bs with
    | nil => simp at h
    | cons b bs =>
      rw [decodeReplace_cons, List.mem_cons] at h
      obtain rfl | h := h
      · exact isScalar_decodeHead b bs
      · exact ih _ (by simp only [List.length_drop, ← hn, List.length_cons]; omega) h rfl

theorem decodeReplace_lt (bs : List Nat) : ∀ c ∈ decodeReplace bs, c < 0x110000 := by
  intro c hc
  rcases isScalar_of_mem_decodeReplace hc with h | ⟨-, h⟩ <;> omega

/-- What decodes at all has nothing to replace. -/
theorem decodeFrom_of_decodeStrictFrom {skip : Nat} {bs cs : List Nat}
    (h : decodeStrictFrom skip bs = some cs) : decodeFrom skip bs = cs := by
  induction skip, bs using decodeStrictFrom.induct generalizing cs with
  | case1 skip =>
    cases h
    rw [decodeFrom]
  | case2 skip b bs ih =>
    rw [decodeFrom]
    exact ih h
  | case3 b bs ih =>
    rw [decodeStrictFrom, Option.bind_eq_bind, Option.bind_eq_some_iff] at h
    obtain ⟨c, hc, h⟩ := h
    rw [Option.bind_eq_bind, Option.bind_eq_some_iff] at h
    obtain ⟨rest, hrest, h⟩ := h
    cases h
    rw [decodeFrom, hc, ih hrest, Option.getD_some]

theorem decodeStrict_lt {bs cs : List Nat} (h : decodeStrict bs = some cs) :
    ∀ c ∈ cs, c < 0x110000 := by
  have hreplace : decodeReplace bs = cs := decodeFrom_of_decodeStrictFrom h
  rw [← hreplace]
  exact decodeReplace_lt bs

theorem decodeHead_ascii {b : Nat} (h : b < 0x80) (bs : List Nat) :
    decodeHead b bs = (some b, 0) := by
  have htrailing : trailing b = some [] := if_pos (Nat.le_of_lt_succ h)
  simp only [decodeHead, htrailing, matched, List.length_nil, if_true, List.take_zero, scalarOf,
    marker, List.foldl_nil, Nat.sub_zero]

theorem decodeStrict_ascii {bs : List Nat} (h : ∀ b ∈ bs, b < 0x80) : decodeStrict bs = some bs := by
  induction bs with
  | nil => rfl
  | cons b bs ih =>
    rw [List.forall_mem_cons] at h
    have hrest : decodeStrictFrom 0 bs = some bs := ih h.2
    rw [decodeStrict, decodeStrictFrom, decodeHead_ascii h.1, hrest]
    rfl

theorem decodeReplace_ascii {bs : List Nat} (h : ∀ b ∈ bs, b < 0x80) : decodeReplace bs = bs := by
  induction bs with
  | nil => rfl
  | cons b bs ih =>
    rw [List.forall_mem_cons] at h
    rw [decodeReplace_cons, decodeHead_ascii h.1]
    dsimp only
    rw [List.drop_zero, ih h.2]
    rfl

theorem matched_le_length (row : List (Nat × Nat)) (bs : List Nat) :
    matched row bs ≤ bs.length := by
  induction row generalizing bs with
  | nil => simp [matched]
  | cons r row ih =>
    cases bs with
    | nil => simp [matched]
    | cons b bs =>
      simp only [matched, List.length_cons]
      split
      · exact Nat.add_le_add_right (ih bs) 1
      · omega

/-- No trailing byte is an ASCII byte. -/
theorem le_of_mem_trailing {lead : Nat} {row : List (Nat × Nat)} (h : trailing lead = some row) :
    ∀ r ∈ row, 0x80 ≤ r.1 := by
  unfold trailing at h
  split_ifs at h <;> cases h <;> simp

theorem matched_append_ascii {row : List (Nat × Nat)} (h : ∀ r ∈ row, 0x80 ≤ r.1)
    (bs : List Nat) {t : List Nat} (ht : ∀ c ∈ t, c < 0x80) :
    matched row (bs ++ t) = matched row bs := by
  induction row generalizing bs with
  | nil => simp [matched]
  | cons r row ih =>
    have hr := h r List.mem_cons_self
    cases bs with
    | nil =>
      cases t with
      | nil => rfl
      | cons c t =>
        have hc := ht c List.mem_cons_self
        simp only [List.nil_append, matched]
        rw [if_neg (by omega)]
    | cons b bs =>
      simp only [List.cons_append, matched]
      rw [ih (fun r hr => h r (List.mem_cons_of_mem _ hr))]

theorem decodeHead_le_length (b : Nat) (bs : List Nat) : (decodeHead b bs).2 ≤ bs.length := by
  unfold decodeHead
  split
  · exact Nat.zero_le _
  · exact matched_le_length _ bs

theorem decodeHead_append_ascii (b : Nat) (bs : List Nat) {t : List Nat}
    (ht : ∀ c ∈ t, c < 0x80) : decodeHead b (bs ++ t) = decodeHead b bs := by
  unfold decodeHead
  split
  · rfl
  · next row hrow =>
    have hle := matched_le_length row bs
    simp only [matched_append_ascii (le_of_mem_trailing hrow) bs ht,
      List.take_append_of_le_length hle]

/-- ASCII bytes end whatever sequence is pending and stand for themselves. -/
theorem decodeReplace_append_ascii (bs : List Nat) {t : List Nat} (ht : ∀ c ∈ t, c < 0x80) :
    decodeReplace (bs ++ t) = decodeReplace bs ++ t := by
  induction hn : bs.length using Nat.strongRecOn generalizing bs with
  | ind n ih =>
    cases bs with
    | nil => rw [List.nil_append, decodeReplace_ascii ht, decodeReplace_nil, List.nil_append]
    | cons b bs =>
      have hle := decodeHead_le_length b bs
      rw [List.cons_append, decodeReplace_cons, decodeReplace_cons, decodeHead_append_ascii b bs ht,
        List.drop_append_of_le_length hle, List.cons_append, ih _ _ _ rfl]
      simp only [List.length_drop, ← hn, List.length_cons]
      omega

/-- A decoded ASCII code point is its own byte and takes no other. -/
theorem decodeHead_of_lt {b : Nat} {bs : List Nat} (h : (decodeHead b bs).1.getD 0xFFFD < 0x80) :
    (decodeHead b bs).1.getD 0xFFFD = b ∧ (decodeHead b bs).2 = 0 := by
  unfold decodeHead at h ⊢
  split at h
  · exact absurd h (by decide)
  · next row hrow =>
    dsimp only at h ⊢
    split at h
    · next hm =>
      obtain ⟨-, henc⟩ := encode_scalarOf hrow hm
      rw [Option.getD_some, hm] at h
      rw [encode_ascii h] at henc
      obtain ⟨hb, hk⟩ := List.cons_eq_cons.mp henc
      have hlen := congrArg List.length hk.symm
      have hle := matched_le_length row bs
      rw [List.length_take, List.length_nil] at hlen
      rw [if_pos hm, Option.getD_some, hm]
      exact ⟨hb, by omega⟩
    · exact absurd h (by decide)

/-- The last byte of a text that ends in an ASCII code point. -/
theorem getLast?_of_decodeReplace {bs : List Nat} {c : Nat} (hc : c < 0x80)
    (h : (decodeReplace bs).getLast? = some c) : bs.getLast? = some c := by
  induction hn : bs.length using Nat.strongRecOn generalizing bs with
  | ind n ih =>
    cases bs with
    | nil => simp at h
    | cons b bs =>
      have hle := decodeHead_le_length b bs
      rw [decodeReplace_cons] at h
      by_cases hrest : decodeReplace (bs.drop (decodeHead b bs).2) = []
      · rw [hrest, List.getLast?_singleton, Option.some.injEq] at h
        obtain ⟨hb, hk⟩ := decodeHead_of_lt (h ▸ hc)
        rw [hk, List.drop_zero] at hrest
        cases bs with
        | nil => rw [← h, hb]; rfl
        | cons d bs => rw [decodeReplace_cons] at hrest; cases hrest
      · rw [List.getLast?_cons_of_ne_nil hrest] at h
        have hlast := ih _ (by simp only [List.length_drop, ← hn, List.length_cons]; omega) h rfl
        rw [List.getLast?_drop] at hlast
        split at hlast
        · cases hlast
        · next hlt =>
          have hne : bs ≠ [] := by
            rintro rfl
            exact hlt (Nat.zero_le _)
          rwa [List.getLast?_cons_of_ne_nil hne]

/-- Stripping ASCII code points from a decoded text strips their bytes. -/
theorem rdropWhile_decodeReplace {p : Nat → Bool} (hp : ∀ c, p c = true → c < 0x80)
    (bs : List Nat) : (decodeReplace bs).rdropWhile p = decodeReplace (bs.rdropWhile p) := by
  induction bs using List.reverseRecOn with
  | nil => rfl
  | append_singleton bs b ih =>
    by_cases hb : p b = true
    · have hascii : ∀ c ∈ [b], c < 0x80 := by simpa using hp b hb
      rw [decodeReplace_append_ascii bs hascii, List.rdropWhile_concat_pos _ _ _ hb,
        List.rdropWhile_concat_pos _ _ _ hb, ih]
    · rw [List.rdropWhile_concat_neg _ _ _ hb, List.rdropWhile_eq_self_iff]
      intro hne hlast
      have hget := List.getLast?_eq_some_getLast hne
      have hbyte := getLast?_of_decodeReplace (hp _ hlast) hget
      rw [List.getLast?_concat, Option.some.injEq] at hbyte
      exact hb (hbyte ▸ hlast)

end Decode

end Utf8
