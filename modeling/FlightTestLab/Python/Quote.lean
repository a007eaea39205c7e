import FlightTestLab.Library.Utf8.Subpart
import FlightTestLab.Python.Url

/-!
# Percent-encoding

`urllib.parse.unquote`, and what undoes it: an encoder that keeps some characters and writes the
bytes of all others in hexadecimal, such as `encodeURIComponent`.

## Main definitions

- `Python.unquote`: `unquote`
- `Python.quote`: an encoder, given the characters that it keeps

## Main results

- `Python.unquote_quote`: a text is what is left of its encoding
- `Python.urlparse_plain`: a path without delimiters is parsed to itself
-/

namespace Python

open Json (Text ascii)

section Unquote

/-- The value of a hexadecimal digit. -/
def hexValue (c : Nat) : Option Nat :=
  if isAsciiDigit c then some (c - 0x30)
  else if 0x41 ≤ c ∧ c ≤ 0x46 then some (c - 0x37)
  else if 0x61 ≤ c ∧ c ≤ 0x66 then some (c - 0x57)
  else none

/-- `unquote_to_bytes` on ASCII: a percent sign without two digits stays. -/
def unquoteToBytes : Text → List Nat
  | 0x25 :: high :: low :: rest =>
    match hexValue high, hexValue low with
    | some h, some l => (16 * h + l) :: unquoteToBytes rest
    | _, _ => 0x25 :: unquoteToBytes (high :: low :: rest)
  | c :: rest => c :: unquoteToBytes rest
  | [] => []

/-- The parts of `_generate_unquoted_parts`, from an ASCII part that has begun. -/
def unquoteParts : Text → Text → Text
  | part, [] => Utf8.decodeReplace (unquoteToBytes part)
  | part, c :: s =>
    if c < 0x80 then unquoteParts (part ++ [c]) s
    else Utf8.decodeReplace (unquoteToBytes part) ++ c :: unquoteParts [] s

/-- `urllib.parse.unquote` -/
def unquote (text : Text) : Text := unquoteParts [] text

end Unquote

section Quote

/-- A hexadecimal digit in upper case. -/
def hexDigit (n : Nat) : Nat := if n < 10 then 0x30 + n else 0x37 + n

def percent (byte : Nat) : Text := [0x25, hexDigit (byte / 16), hexDigit (byte % 16)]

/-- Percent-encode the bytes of the characters that are not kept. -/
def quote (kept : Nat → Bool) (text : Text) : Text :=
  text.flatMap fun c => if kept c then [c] else (Utf8.encode c).flatMap percent

theorem hexValue_hexDigit {n : Nat} (h : n < 16) : hexValue (hexDigit n) = some n := by
  revert n
  decide

theorem hexDigit_lt {n : Nat} (h : n < 16) : hexDigit n < 0x80 := by
  revert n
  decide

/-- What is kept is ASCII, and not the percent sign. -/
def Safe (kept : Nat → Bool) : Prop := ∀ c, kept c = true → c < 0x80 ∧ c ≠ 0x25

theorem encode_lt {c b : Nat} (h : Utf8.IsScalar c) (hb : b ∈ Utf8.encode c) : b < 0x100 := by
  unfold Utf8.IsScalar at h
  unfold Utf8.encode at hb
  split_ifs at hb <;> simp only [List.mem_cons, List.not_mem_nil, or_false] at hb <;> omega

theorem mem_percent {byte c : Nat} (hbyte : byte < 0x100) (h : c ∈ percent byte) :
    c = 0x25 ∨ ∃ n < 16, c = hexDigit n := by
  simp only [percent, List.mem_cons, List.not_mem_nil, or_false] at h
  obtain h | h | h := h
  · exact .inl h
  · exact .inr ⟨byte / 16, by omega, h⟩
  · exact .inr ⟨byte % 16, Nat.mod_lt _ (by omega), h⟩

/-- The characters of an encoding. -/
theorem mem_quote {kept : Nat → Bool} {text : Text} (htext : ∀ c ∈ text, Utf8.IsScalar c) {c : Nat}
    (h : c ∈ quote kept text) : kept c = true ∨ c = 0x25 ∨ ∃ n < 16, c = hexDigit n := by
  obtain ⟨d, hd, hc⟩ := List.mem_flatMap.mp h
  split_ifs at hc with hkept
  · rw [List.mem_singleton.mp hc]
    exact .inl hkept
  · obtain ⟨byte, hbyte, hc⟩ := List.mem_flatMap.mp hc
    exact .inr (mem_percent (encode_lt (htext d hd) hbyte) hc)

theorem quote_ascii {kept : Nat → Bool} (hkept : Safe kept) {text : Text}
    (htext : ∀ c ∈ text, Utf8.IsScalar c) : ∀ c ∈ quote kept text, c < 0x80 := by
  intro c hc
  obtain h | rfl | ⟨n, hn, rfl⟩ := mem_quote htext hc
  · exact (hkept c h).1
  · decide
  · exact hexDigit_lt hn

theorem unquoteToBytes_cons {c : Nat} (h : c ≠ 0x25) (rest : Text) :
    unquoteToBytes (c :: rest) = c :: unquoteToBytes rest := by
  rw [unquoteToBytes]
  rintro _ _ _ heq
  exact absurd heq h

theorem unquoteToBytes_percent {byte : Nat} (h : byte < 0x100) (rest : Text) :
    unquoteToBytes (percent byte ++ rest) = byte :: unquoteToBytes rest := by
  show unquoteToBytes (0x25 :: hexDigit (byte / 16) :: hexDigit (byte % 16) :: rest) = _
  rw [unquoteToBytes, hexValue_hexDigit (by omega), hexValue_hexDigit (by omega)]
  show (16 * (byte / 16) + byte % 16) :: _ = _
  rw [Nat.div_add_mod]

theorem unquoteToBytes_percents {bytes : List Nat} (h : ∀ b ∈ bytes, b < 0x100) (rest : Text) :
    unquoteToBytes (bytes.flatMap percent ++ rest) = bytes ++ unquoteToBytes rest := by
  induction bytes with
  | nil => rfl
  | cons byte bytes ih =>
    rw [List.forall_mem_cons] at h
    rw [List.flatMap_cons, List.append_assoc, unquoteToBytes_percent h.1, ih h.2]
    rfl

/-- The bytes of an encoding are those of the text. -/
theorem unquoteToBytes_quote {kept : Nat → Bool} (hkept : Safe kept) {text : Text}
    (htext : ∀ c ∈ text, Utf8.IsScalar c) :
    unquoteToBytes (quote kept text) = Utf8.encodeAll text := by
  induction text with
  | nil => rfl
  | cons c text ih =>
    rw [List.forall_mem_cons] at htext
    have hcons : quote kept (c :: text) =
        (if kept c then [c] else (Utf8.encode c).flatMap percent) ++ quote kept text := rfl
    rw [hcons, Utf8.encodeAll_cons, ← ih htext.2]
    split_ifs with h
    · rw [Utf8.encode_ascii (hkept c h).1]
      exact unquoteToBytes_cons (hkept c h).2 _
    · exact unquoteToBytes_percents (fun b hb => encode_lt htext.1 hb) _

theorem unquoteParts_ascii {s : Text} (h : ∀ c ∈ s, c < 0x80) (part : Text) :
    unquoteParts part s = Utf8.decodeReplace (unquoteToBytes (part ++ s)) := by
  induction s generalizing part with
  | nil => rw [unquoteParts, List.append_nil]
  | cons c s ih =>
    rw [List.forall_mem_cons] at h
    rw [unquoteParts, if_pos h.1, ih h.2, List.append_assoc]
    rfl

theorem decodeReplace_encodeAll {text : Text} (h : ∀ c ∈ text, Utf8.IsScalar c) :
    Utf8.decodeReplace (Utf8.encodeAll text) = text := by
  refine Utf8.encodeAll_injective (Utf8.decodeReplace_lt _) (fun c hc => ?_)
    (Utf8.encodeAll_decodeReplace_eq_self_iff.mpr (Utf8.wellFormed_encodeAll h))
  obtain hlow | hhigh := h c hc <;> omega

/-- A text is what is left of its encoding. -/
theorem unquote_quote {kept : Nat → Bool} (hkept : Safe kept) {text : Text}
    (htext : ∀ c ∈ text, Utf8.IsScalar c) : unquote (quote kept text) = text := by
  rw [unquote, unquoteParts_ascii (quote_ascii hkept htext), List.nil_append,
    unquoteToBytes_quote hkept htext, decodeReplace_encodeAll htext]

end Quote

section Plain

/-- A character that no part of `urlparse` looks at, in a path. -/
def isPlain (c : Nat) : Bool := 0x20 < c && !(ascii ":;?#").contains c

theorem partition_of_not_mem {sep : Nat} {text : Text} (h : sep ∉ text) :
    partition sep text = (text, none) := by
  have hall : ∀ c ∈ text, (c != sep) = true := fun c hc => by
    rw [bne_iff_ne]
    rintro rfl
    exact h hc
  rw [partition, List.takeWhile_eq_self_iff.mpr hall, List.dropWhile_eq_nil_iff.mpr hall]
  rfl

theorem partition_spec {sep : Nat} {text before : Text} {rest : Option Text}
    (h : partition sep text = (before, rest)) :
    text = before ++ rest.elim [] fun after => sep :: after := by
  obtain ⟨rfl, rfl⟩ := Prod.mk.inj h
  have happend := List.takeWhile_append_dropWhile (p := (· != sep)) (l := text)
  cases hdrop : text.dropWhile (· != sep) with
  | nil =>
    rw [hdrop] at happend
    exact happend.symm
  | cons c tail =>
    have hhead := List.head?_dropWhile_not (· != sep) text
    rw [hdrop] at hhead happend
    obtain rfl : c = sep := by simpa using hhead
    exact happend.symm

/-- A path without semicolons has no parameters. -/
theorem withoutParams_eq_self {path : Text} (h : 0x3B ∉ path) : withoutParams path = path := by
  rw [withoutParams, rpartition]
  cases hpart : partition 0x2F path.reverse with
  | mk after before =>
    have hspec := congrArg List.reverse (partition_spec hpart)
    rw [List.reverse_reverse, List.reverse_append] at hspec
    have hlast : 0x3B ∉ after.reverse := fun hmem => h (by
      rw [hspec]
      exact List.mem_append_right _ hmem)
    cases before with
    | none =>
      dsimp only [Option.map_none]
      rw [partition_of_not_mem hlast]
      exact hspec.symm
    | some before =>
      dsimp only [Option.map_some]
      rw [partition_of_not_mem hlast, hspec]
      simp

/-- A path that starts with one slash, of plain characters. -/
def isPlainPath : Text → Bool
  | slash :: c :: path => slash == 0x2F && c != 0x2F && (c :: path).all isPlain
  | _ => false

theorem isPlainPath_append {path more : Text} (h : isPlainPath path = true)
    (hmore : ∀ c ∈ more, isPlain c = true) : isPlainPath (path ++ more) = true := by
  match path, h with
  | slash :: c :: path, h =>
    rw [isPlainPath, Bool.and_eq_true] at h
    show (_ && (c :: path ++ more).all isPlain) = true
    rw [List.all_append, h.1, h.2, List.all_eq_true.mpr hmore]
    rfl

/-- A plain path is parsed to itself. -/
theorem urlparse_plain (R : UrlRules) {path : Text} (h : isPlainPath path = true) :
    urlparse R path = .ok ⟨[], [], path⟩ := by
  obtain ⟨c, rest, rfl, hslash, hrest⟩ : ∃ c rest, path = 0x2F :: c :: rest ∧ c ≠ 0x2F ∧
      ∀ d ∈ c :: rest, isPlain d = true := by
    match path, h with
    | slash :: c :: path, h =>
      rw [isPlainPath, Bool.and_eq_true, Bool.and_eq_true, beq_iff_eq, bne_iff_ne,
        List.all_eq_true] at h
      obtain ⟨⟨rfl, hslash⟩, hrest⟩ := h
      exact ⟨c, path, rfl, hslash, hrest⟩
  have hplain : ∀ d ∈ 0x2F :: c :: rest, isPlain d = true :=
    List.forall_mem_cons.mpr ⟨by decide, hrest⟩
  have hnot {d : Nat} (hd : isPlain d = false) : d ∉ 0x2F :: c :: rest := fun hmem => by
    rw [hplain d hmem] at hd
    cases hd
  have hclean : ((0x2F :: c :: rest).dropWhile (· ≤ 0x20)).filter
      (fun d => !(ascii "\t\r\n").contains d) = 0x2F :: c :: rest := by
    rw [List.dropWhile_cons_of_neg (by decide), List.filter_eq_self]
    intro d hd
    have hlt : 0x20 < d := of_decide_eq_true (Bool.and_eq_true_iff.mp (hplain d hd)).1
    rw [Bool.not_eq_true', ← Bool.not_eq_true, List.contains_iff_mem]
    intro hmem
    have hle : ∀ e ∈ ascii "\t\r\n", e ≤ 0x20 := by decide
    exact absurd (hle d hmem) (not_le.mpr hlt)
  have hscheme : splitScheme (0x2F :: c :: rest) = ([], 0x2F :: c :: rest) := by
    rw [splitScheme, partition_of_not_mem (hnot (by decide))]
  have hpath : pathOf (0x2F :: c :: rest) = 0x2F :: c :: rest := by
    rw [pathOf, partition_of_not_mem (hnot (by decide)), partition_of_not_mem (hnot (by decide))]
  have hparams : withoutParams (0x2F :: c :: rest) = 0x2F :: c :: rest :=
    withoutParams_eq_self (hnot (by decide))
  have hsplit : urlsplit R (0x2F :: c :: rest) = .ok ⟨[], [], 0x2F :: c :: rest⟩ := by
    rw [urlsplit, hclean, hscheme]
    dsimp only
    split
    · next heq =>
      cases heq
      exact absurd rfl hslash
    · next heq =>
      rw [hpath]
  rw [urlparse, hsplit]
  dsimp only
  rw [if_pos (by decide), hparams]

end Plain

end Python
