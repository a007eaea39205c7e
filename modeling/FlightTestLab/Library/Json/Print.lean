import Mathlib.Data.Nat.Digits.Lemmas
import FlightTestLab.Library.Json.Grammar

/-!
# Pieces of printed JSON

The value of an integer token, the shortest decimal text of an integer, the
hexadecimal text of an escape and the separator of items. On the integer tokens of the grammar
printing undoes reading, but for `-0`.

## Main definitions

- `Json.ofToken`: the integer an integer token spells
- `Json.decimal`: the text that integer formatting writes
- `Json.hexText`: four lower-case hexadecimal digits
- `Json.Printable`: characters from the space to the tilde
-/

namespace Json

/-- The value of a run of decimal digits, most significant first. -/
def ofDigits (ds : Text) : Nat := Nat.ofDigits 10 (ds.reverse.map (· - 0x30))

def ofToken : Text → Int
  | [] => 0
  | c :: ds => if c = 0x2D then -(ofDigits ds : Int) else (ofDigits (c :: ds) : Int)

def decimalNat (n : Nat) : Text :=
  if n = 0 then [0x30] else (Nat.digits 10 n).reverse.map (· + 0x30)

def decimal (i : Int) : Text :=
  if i < 0 then 0x2D :: decimalNat i.natAbs else decimalNat i.natAbs

/-- Texts joined by `", "`. -/
def joinComma : List Text → Text
  | [] => []
  | [x] => x
  | x :: y :: rest => x ++ ascii ", " ++ joinComma (y :: rest)

/-- The number of characters of an integer token but for its sign. -/
def digitCount : Text → Nat
  | [] => 0
  | c :: ds => if c = 0x2D then ds.length else ds.length + 1

def hexChar (d : Nat) : Nat := if d < 10 then 0x30 + d else 0x61 + (d - 10)

/-- `%04x` of a number below `0x10000`. -/
def hexText (n : Nat) : Text :=
  [hexChar (n / 0x1000 % 16), hexChar (n / 0x100 % 16), hexChar (n / 0x10 % 16), hexChar (n % 16)]

/-- `\u` and four hexadecimal digits. -/
def unicodeEscape (n : Nat) : Text := 0x5C :: 0x75 :: hexText n

private theorem isDigit_sub {ds : Text} (h : ∀ c ∈ ds, IsDigit c) :
    (ds.map (· - 0x30)).map (· + 0x30) = ds := by
  rw [List.map_map]
  refine (List.map_congr_left fun c hc => ?_).trans (List.map_id ds)
  obtain ⟨h₁, -⟩ := h c hc
  exact Nat.sub_add_cancel h₁

/-- The integer tokens have at most this many digits. -/
def DigitsFit (limit : Nat) (toks : List Text) : Prop := ∀ tok ∈ toks, digitCount tok ≤ limit

instance (limit : Nat) (toks : List Text) : Decidable (DigitsFit limit toks) :=
  inferInstanceAs (Decidable (∀ _ ∈ _, _))

theorem digitsFit_append {limit : Nat} {toks toks' : List Text} :
    DigitsFit limit (toks ++ toks') ↔ DigitsFit limit toks ∧ DigitsFit limit toks' := by
  simp only [DigitsFit, List.mem_append, or_imp, forall_and]

theorem digits_ofDigits {ds : Text} (h : IsDigits ds) (hz : ds.head? ≠ some 0x30) :
    Nat.digits 10 (ofDigits ds) = ds.reverse.map (· - 0x30) := by
  obtain ⟨hne, hd⟩ := h
  refine Nat.digits_ofDigits 10 (by omega) _ (fun l hl => ?_) (fun hne' => ?_)
  · obtain ⟨c, hc, rfl⟩ := List.mem_map.mp hl
    obtain ⟨h₁, h₂⟩ := hd c (List.mem_reverse.mp hc)
    omega
  · cases ds with
    | nil => exact absurd rfl hne
    | cons c ds =>
      obtain ⟨h₁, h₂⟩ := hd c (by simp)
      have hc : c ≠ 0x30 := by simpa using hz
      simp only [List.reverse_cons, List.map_append, List.map_cons, List.map_nil, ne_eq,
        List.cons_ne_self, not_false_eq_true, List.getLast_append_of_ne_nil, List.getLast_singleton]
      omega

/-- Printing the value of a canonical run of digits gives the digits back. -/
theorem decimalNat_ofDigits {ds : Text} (h : IsInt ds) : decimalNat (ofDigits ds) = ds := by
  obtain rfl | ⟨hd, hz⟩ := h
  · rfl
  · have hdig := digits_ofDigits hd hz
    have hpos : ofDigits ds ≠ 0 := by
      intro h0
      rw [h0, Nat.digits_zero] at hdig
      exact hd.1 (by simpa using hdig.symm)
    rw [decimalNat, if_neg hpos, hdig, ← List.map_reverse, List.reverse_reverse,
      isDigit_sub hd.2]

theorem ofDigits_eq_zero_iff {ds : Text} (h : IsInt ds) : ofDigits ds = 0 ↔ ds = [0x30] := by
  constructor
  · intro h0
    have := decimalNat_ofDigits h
    rwa [h0, decimalNat, if_pos rfl, eq_comm] at this
  · rintro rfl
    rfl

theorem ofToken_digits {ds : Text} (h : IsInt ds) : ofToken ds = (ofDigits ds : Int) := by
  obtain ⟨c, ds', rfl, hc⟩ := h.head
  unfold IsDigit at hc
  rw [ofToken, if_neg (by omega)]

theorem ofToken_minus (ds : Text) : ofToken (0x2D :: ds) = -(ofDigits ds : Int) := by
  rw [ofToken, if_pos rfl]

/-- Printing the value of an integer token gives the token back, but for `-0`. -/
theorem decimal_ofToken {tok : Text} (h : IsIntToken tok) (hz : tok ≠ [0x2D, 0x30]) :
    decimal (ofToken tok) = tok := by
  obtain ⟨sign, int, rfl, hm, hi⟩ := h
  obtain rfl | rfl := hm
  · rw [List.nil_append, ofToken_digits hi, decimal, if_neg (by omega), Int.natAbs_natCast,
      decimalNat_ofDigits hi]
  · have hpos : ofDigits int ≠ 0 := by
      intro h0
      rw [ofDigits_eq_zero_iff hi] at h0
      exact hz (by rw [h0]; rfl)
    rw [List.cons_append, List.nil_append, ofToken_minus, decimal, if_pos (by omega),
      Int.natAbs_neg, Int.natAbs_natCast, decimalNat_ofDigits hi]

theorem digitCount_token {sign int : Text} (hm : IsMinus sign) (hi : IsInt int) :
    digitCount (sign ++ int) = int.length := by
  obtain rfl | rfl := hm
  · obtain ⟨c, ds, rfl, hc⟩ := hi.head
    unfold IsDigit at hc
    rw [List.nil_append, digitCount, if_neg (by omega), List.length_cons]
  · rw [List.singleton_append, digitCount, if_pos rfl]

section Decimal

theorem isInt_decimalNat (n : Nat) : IsInt (decimalNat n) := by
  rw [decimalNat]
  split
  · exact .inl rfl
  · next hn =>
    have hne : Nat.digits 10 n ≠ [] := Nat.digits_ne_nil_iff_ne_zero.mpr hn
    refine .inr ⟨⟨by simpa using hne, fun c hc => ?_⟩, ?_⟩
    · obtain ⟨d, hd, rfl⟩ := List.mem_map.mp hc
      have := Nat.digits_lt_base (b := 10) (by omega) (List.mem_reverse.mp hd)
      unfold IsDigit
      omega
    · have hlast := Nat.getLast_digit_ne_zero 10 hn
      rw [List.head?_map, List.head?_reverse, List.getLast?_eq_some_getLast hne]
      simpa using hlast

theorem ofDigits_decimalNat (n : Nat) : ofDigits (decimalNat n) = n := by
  rw [decimalNat]
  split
  · next hn => rw [hn]; rfl
  · rw [ofDigits, ← List.map_reverse, List.reverse_reverse, List.map_map]
    have hid : ((fun c => c - 0x30) ∘ fun c => c + 0x30) = (id : Nat → Nat) :=
      funext fun c => Nat.add_sub_cancel c 0x30
    rw [hid, List.map_id, Nat.ofDigits_digits]

theorem length_decimalNat {n k : Nat} (hk : 0 < k) (h : n < 10 ^ k) : (decimalNat n).length ≤ k := by
  rw [decimalNat]
  split
  · exact hk
  · rw [List.length_map, List.length_reverse]
    exact (Nat.digits_length_le_iff (by omega) n).mpr h

/-- Integer formatting writes an integer token. -/
theorem isIntToken_decimal (i : Int) : IsIntToken (decimal i) := by
  rw [decimal]
  split
  · exact ⟨[0x2D], _, rfl, .inr rfl, isInt_decimalNat _⟩
  · exact ⟨[], _, rfl, .inl rfl, isInt_decimalNat _⟩

/-- Reading undoes printing. -/
theorem ofToken_decimal (i : Int) : ofToken (decimal i) = i := by
  rw [decimal]
  split
  · rw [ofToken_minus, ofDigits_decimalNat]
    omega
  · rw [ofToken_digits (isInt_decimalNat _), ofDigits_decimalNat]
    omega

theorem digitCount_decimal {i : Int} {k : Nat} (hk : 0 < k) (h : i.natAbs < 10 ^ k) :
    digitCount (decimal i) ≤ k := by
  have hcount {sign : Text} (hs : IsMinus sign) : digitCount (sign ++ decimalNat i.natAbs) ≤ k := by
    rw [digitCount_token hs (isInt_decimalNat _)]
    exact length_decimalNat hk h
  rw [decimal]
  split
  · exact hcount (.inr rfl)
  · exact hcount (.inl rfl)

end Decimal

theorem decimalNat_ascii (n : Nat) : ∀ c ∈ decimalNat n, 0x20 ≤ c ∧ c < 0x7F := by
  intro c hc
  rw [decimalNat] at hc
  split at hc
  · rw [List.mem_singleton] at hc
    omega
  · obtain ⟨d, hd, rfl⟩ := List.mem_map.mp hc
    have := Nat.digits_lt_base (b := 10) (by omega) (List.mem_reverse.mp hd)
    omega

/-- Integer formatting writes printable ASCII. -/
theorem decimal_ascii (i : Int) : ∀ c ∈ decimal i, 0x20 ≤ c ∧ c < 0x7F := by
  intro c hc
  rw [decimal] at hc
  split at hc
  · obtain rfl | hc := List.mem_cons.mp hc
    · omega
    · exact decimalNat_ascii _ c hc
  · exact decimalNat_ascii _ c hc

/-- So does an escape. -/
theorem unicodeEscape_ascii (n : Nat) : ∀ c ∈ unicodeEscape n, 0x20 ≤ c ∧ c < 0x7F := by
  have hchar (d : Nat) (hd : d < 16) : 0x20 ≤ hexChar d ∧ hexChar d < 0x7F := by
    unfold hexChar
    split <;> omega
  intro c hc
  simp only [unicodeEscape, hexText, List.mem_cons, List.not_mem_nil, or_false] at hc
  obtain rfl | rfl | rfl | rfl | rfl | rfl := hc
  · omega
  · omega
  all_goals exact hchar _ (Nat.mod_lt _ (by omega))

section Printable

/-- ASCII without control characters. -/
def Printable (s : Text) : Prop := ∀ c ∈ s, 0x20 ≤ c ∧ c ≤ 0x7E

instance (s : Text) : Decidable (Printable s) := inferInstanceAs (Decidable (∀ _ ∈ _, _))

theorem printable_ascii {s : Text} (h : ∀ c ∈ s, 0x20 ≤ c ∧ c < 0x7F) : Printable s :=
  fun c hc => ⟨(h c hc).1, Nat.le_of_lt_succ (h c hc).2⟩

theorem printable_append {s t : Text} : Printable (s ++ t) ↔ Printable s ∧ Printable t :=
  List.forall_mem_append

theorem printable_cons {c : Nat} {s : Text} :
    Printable (c :: s) ↔ (0x20 ≤ c ∧ c ≤ 0x7E) ∧ Printable s := List.forall_mem_cons

theorem printable_joinComma {texts : List Text} (h : ∀ text ∈ texts, Printable text) :
    Printable (joinComma texts) := by
  induction texts using joinComma.induct with
  | case1 => exact List.forall_mem_nil _
  | case2 x => exact h x List.mem_cons_self
  | case3 x y rest ih =>
    rw [List.forall_mem_cons] at h
    have hsep : Printable (ascii ", ") := by decide
    exact printable_append.mpr ⟨printable_append.mpr ⟨h.1, hsep⟩, ih h.2⟩

theorem IsDigits.printable {ds : Text} (h : IsDigits ds) : Printable ds := by
  intro c hc
  obtain ⟨h1, h2⟩ := h.2 c hc
  omega

theorem IsFrac.printable {s : Text} (h : IsFrac s) : Printable s := by
  obtain rfl | ⟨ds, rfl, hd⟩ := h
  · exact List.forall_mem_nil _
  · exact printable_cons.mpr ⟨by omega, hd.printable⟩

theorem IsExp.printable {s : Text} (h : IsExp s) : Printable s := by
  obtain rfl | ⟨e, sign, ds, rfl, he, hs, hd⟩ := h
  · exact List.forall_mem_nil _
  · refine printable_cons.mpr ⟨by omega, printable_append.mpr ⟨?_, hd.printable⟩⟩
    rcases hs with rfl | rfl | rfl <;> simp [Printable]

theorem IsIntToken.printable {tok : Text} (h : IsIntToken tok) : Printable tok := by
  obtain ⟨sign, int, rfl, hm, hi⟩ := h
  refine printable_append.mpr ⟨?_, ?_⟩
  · rcases hm with rfl | rfl <;> simp [Printable]
  · obtain rfl | ⟨hd, -⟩ := hi
    · simp [Printable]
    · exact hd.printable

theorem IsFloatToken.printable {tok : Text} (h : IsFloatToken tok) : Printable tok := by
  obtain ⟨sign, int, frac, exp, rfl, hm, hi, hf, he, -⟩ := h
  have hint : IsIntToken (sign ++ int) := ⟨sign, int, rfl, hm, hi⟩
  exact printable_append.mpr ⟨printable_append.mpr ⟨hint.printable, hf.printable⟩, he.printable⟩

end Printable

end Json
