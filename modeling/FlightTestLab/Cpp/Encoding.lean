import FlightTestLab.Library.Utf8.Subpart
import FlightTestLab.Cpp.Parser

/-!
# The byte-level functions of the native DUT against UTF-8

`sanitize_utf8` decodes with replacement and encodes again, `append_utf8` appends an
encoding and `next_code_point` reads one back, surrogates included.

## Main results

- `Cpp.sanitizeUtf8_replaces`: `sanitize_utf8` against the table of well-formed sequences
-/

namespace Cpp

open Utf8 (encode encodeAll decodeHead decodeReplace trailing matched)

section Sanitize

theorem inRange_iff (text : Bytes) (offset low high : Nat) :
    inRange text offset low high = true ↔
      ∃ b r, text.drop offset = b :: r ∧ low ≤ b ∧ b ≤ high := by
  simp only [inRange, decide_eq_true_eq]
  constructor
  · rintro ⟨hlen, hlow, hhigh⟩
    have hb : byteAt text offset = text[offset] := by simp [byteAt, hlen]
    rw [hb] at hlow hhigh
    exact ⟨text[offset], text.drop (offset + 1), List.drop_eq_getElem_cons hlen, hlow, hhigh⟩
  · rintro ⟨b, r, hd, hlow, hhigh⟩
    have hlen : offset < text.length := by
      by_contra hge
      rw [List.drop_eq_nil_of_le (Nat.le_of_not_lt hge)] at hd
      cases hd
    rw [List.drop_eq_getElem_cons hlen, List.cons.injEq] at hd
    simp [byteAt, hlen, hd.1, hlow, hhigh]

theorem extendPrefix_eq (text : Bytes) (left validPrefix : Nat) :
    extendPrefix text left validPrefix =
      validPrefix + matched (List.replicate left Utf8.tail) (text.drop validPrefix) := by
  induction left generalizing validPrefix with
  | zero => simp [extendPrefix, matched]
  | succ left ih =>
    rw [extendPrefix, List.replicate_succ]
    cases hd : text.drop validPrefix with
    | nil =>
      have hno : inRange text validPrefix 0x80 0xBF = false := by
        rw [Bool.eq_false_iff, ne_eq, inRange_iff, hd]
        simp
      simp [hno, matched]
    | cons b r =>
      have hr : text.drop (validPrefix + 1) = r := by
        rw [← List.drop_drop, hd]
        rfl
      by_cases hb : 0x80 ≤ b ∧ b ≤ 0xBF
      · rw [if_pos ((inRange_iff ..).mpr ⟨b, r, hd, hb⟩), ih, hr, matched, if_pos hb]
        omega
      · have hno : inRange text validPrefix 0x80 0xBF = false := by
          rw [Bool.eq_false_iff, ne_eq, inRange_iff, hd]
          rintro ⟨b', r', he, hb'⟩
          cases he
          exact hb hb'
        rw [hno, if_neg (by simp), matched, if_neg hb, Nat.add_zero]

/-- The table of trailing ranges and the code's three numbers say the same. -/
theorem trailing_shape {lead : Nat} (h : 0x80 ≤ lead) :
    (trailing lead = none ∧ (sequenceShape lead).1 = 0) ∨
      ∃ low high left, trailing lead = some ((low, high) :: List.replicate left Utf8.tail) ∧
        sequenceShape lead = (left + 2, low, high) := by
  unfold trailing sequenceShape
  rw [if_neg (by omega)]
  by_cases h2 : 0xC2 ≤ lead ∧ lead ≤ 0xDF
  · rw [if_pos h2, if_pos h2]
    exact .inr ⟨0x80, 0xBF, 0, rfl, rfl⟩
  rw [if_neg h2, if_neg h2]
  by_cases h3 : 0xE0 ≤ lead ∧ lead ≤ 0xEF
  · rw [if_pos h3]
    right
    split_ifs <;> first | omega | exact ⟨_, _, 1, rfl, rfl⟩
  by_cases h4 : 0xF0 ≤ lead ∧ lead ≤ 0xF4
  · rw [if_neg h3, if_pos h4]
    right
    split_ifs <;> first | omega | exact ⟨_, _, 2, rfl, rfl⟩
  · rw [if_neg h3, if_neg h4]
    left
    split_ifs <;> first | omega | exact ⟨rfl, rfl⟩

theorem validPrefix_eq {lead : Nat} (h : 0x80 ≤ lead) (text : Bytes) :
    validPrefix (lead :: text) = 1 + (decodeHead lead text).2 := by
  have hbyte : byteAt (lead :: text) 0 = lead := rfl
  obtain ⟨ht, hs⟩ | ⟨low, high, left, ht, hs⟩ := trailing_shape h
  · simp [validPrefix, hbyte, hs, decodeHead, ht]
  · simp only [validPrefix, hbyte, hs, decodeHead, ht]
    by_cases hr : inRange (lead :: text) 1 low high = true
    · rw [if_pos ⟨by omega, hr⟩, Nat.add_sub_cancel, extendPrefix_eq]
      obtain ⟨b, r, hd, hb⟩ := (inRange_iff ..).mp hr
      have hd : text = b :: r := hd
      rw [hd, matched, if_pos hb]
      simp only [List.drop_succ_cons, List.drop_zero]
      omega
    · rw [if_neg fun hc => hr hc.2]
      rw [inRange_iff] at hr
      cases text with
      | nil => rfl
      | cons b r => rw [matched, if_neg fun hb => hr ⟨b, r, rfl, hb⟩]

theorem sequenceShape_eq {lead : Nat} (h : 0x80 ≤ lead) (text : Bytes) :
    ((sequenceShape lead).1 ≠ 0 ∧ validPrefix (lead :: text) = (sequenceShape lead).1) ↔
      (decodeHead lead text).1.isSome := by
  rw [validPrefix_eq h]
  obtain ⟨ht, hs⟩ | ⟨low, high, left, ht, hs⟩ := trailing_shape h
  · simp [hs, decodeHead, ht]
  · simp only [hs, decodeHead, ht, List.length_cons, List.length_replicate]
    split
    · next hm =>
      simp only [Option.isSome_some, iff_true]
      omega
    · next hm =>
      simp only [Option.isSome_none, Bool.false_eq_true, iff_false]
      omega

theorem sanitizeLoop_eq (skip : Nat) (text : Bytes) :
    sanitizeLoop skip text = sanitizeLoop 0 (text.drop skip) := by
  induction skip generalizing text with
  | zero => rfl
  | succ skip ih =>
    cases text with
    | nil => rfl
    | cons c text => exact ih text

/-- Sanitising is decoding with replacement and encoding again. -/
theorem sanitizeUtf8_eq (text : Bytes) : sanitizeUtf8 text = encodeAll (decodeReplace text) := by
  unfold sanitizeUtf8
  induction hn : text.length using Nat.strong_induction_on generalizing text with
  | _ n ih =>
    cases text with
    | nil => rfl
    | cons lead text =>
      have rest (k : Nat) :
          sanitizeLoop k text = encodeAll (decodeReplace (text.drop k)) := by
        rw [sanitizeLoop_eq]
        refine ih _ ?_ _ rfl
        rw [← hn, List.length_drop, List.length_cons]
        omega
      rw [Utf8.decodeReplace_cons, Utf8.encodeAll_cons, sanitizeLoop]
      by_cases hl : lead < 0x80
      · have ht : trailing lead = some [] := if_pos (by omega)
        have hd : decodeHead lead text = (some lead, 0) := by
          simp [decodeHead, ht, matched, Utf8.scalarOf, Utf8.marker]
        rw [if_pos hl, hd, rest]
        simp [Utf8.encode_ascii hl]
      · have hl : 0x80 ≤ lead := Nat.le_of_not_lt hl
        rw [if_neg (by omega)]
        have hk := validPrefix_eq hl text
        by_cases hok : (decodeHead lead text).1.isSome
        · have hs := (sequenceShape_eq hl text).mpr hok
          have hlen : (sequenceShape lead).1 = 1 + (decodeHead lead text).2 := by omega
          rw [if_pos hs, rest, hlen, Nat.add_sub_cancel_left]
          congr 1
          cases ht : trailing lead with
          | none => simp [decodeHead, ht] at hok
          | some row =>
            by_cases hm : matched row text = row.length
            · have := (Utf8.encode_scalarOf ht hm).2
              simp only [decodeHead, ht, hm, if_true, Option.getD_some, this]
              rw [Nat.add_comm, List.take_succ_cons]
            · simp [decodeHead, ht, hm] at hok
        · rw [if_neg fun hc => hok ((sequenceShape_eq hl text).mp hc), rest, hk,
            Nat.add_sub_cancel_left]
          rw [Option.not_isSome_iff_eq_none.mp hok, Option.getD_none]
          rfl

/-- What one round of the loop appends, and how far it moves `index`. -/
def sanitizeRound (lead : Nat) (text : Bytes) : Bytes × Nat :=
  if lead < 0x80 then ([lead], 1)
  else
    let expected := (sequenceShape lead).1
    if expected ≠ 0 ∧ validPrefix (lead :: text) = expected then
      ((lead :: text).take expected, expected)
    else ([0xEF, 0xBF, 0xBD], validPrefix (lead :: text))

theorem sanitizeUtf8_cons (lead : Nat) (text : Bytes) :
    sanitizeUtf8 (lead :: text) =
      (sanitizeRound lead text).1 ++
        sanitizeUtf8 ((lead :: text).drop (sanitizeRound lead text).2) := by
  have hskip : ∀ k, 0 < k → sanitizeLoop (k - 1) text = sanitizeLoop 0 ((lead :: text).drop k) := by
    intro k hk
    obtain ⟨k, rfl⟩ : ∃ j, k = j + 1 := ⟨k - 1, by omega⟩
    rw [Nat.add_sub_cancel, sanitizeLoop_eq, List.drop_succ_cons]
  unfold sanitizeUtf8 sanitizeRound
  rw [sanitizeLoop]
  by_cases hl : lead < 0x80
  · rw [if_pos hl, if_pos hl]
    rfl
  rw [if_neg hl, if_neg hl]
  dsimp only
  split
  · next hok => rw [hskip _ (Nat.pos_of_ne_zero hok.1)]
  · have hpos : 0 < validPrefix (lead :: text) := by
      rw [validPrefix_eq (Nat.le_of_not_lt hl)]
      omega
    rw [hskip _ hpos]

/-- Every round moves on, and never past the end. -/
theorem sanitizeRound_advances (lead : Nat) (text : Bytes) :
    0 < (sanitizeRound lead text).2 ∧ (sanitizeRound lead text).2 ≤ (lead :: text).length := by
  have hbound : 0x80 ≤ lead → 0 < validPrefix (lead :: text) ∧
      validPrefix (lead :: text) ≤ (lead :: text).length := by
    intro hl
    have := Utf8.decodeHead_le_length lead text
    rw [validPrefix_eq hl, List.length_cons]
    omega
  unfold sanitizeRound
  by_cases hl : lead < 0x80
  · rw [if_pos hl, List.length_cons]
    omega
  have hb := hbound (Nat.le_of_not_lt hl)
  rw [if_neg hl]
  dsimp only
  split
  · next hok =>
    show 0 < (sequenceShape lead).1 ∧ (sequenceShape lead).1 ≤ (lead :: text).length
    rwa [← hok.2]
  · exact hb

/-- `sanitize_utf8` replaces maximal subparts: its output is the one such replacement, it is
well-formed, only well-formed text comes through unchanged, and each round advances. -/
theorem sanitizeUtf8_replaces (text : Bytes) :
    (∀ out, Utf8.Replaced text out ↔ out = sanitizeUtf8 text) ∧
      Utf8.WellFormed (sanitizeUtf8 text) ∧
      (sanitizeUtf8 text = text ↔ Utf8.WellFormed text) ∧
      sanitizeUtf8 (sanitizeUtf8 text) = sanitizeUtf8 text ∧
      ∀ lead rest,
        0 < (sanitizeRound lead rest).2 ∧ (sanitizeRound lead rest).2 ≤ (lead :: rest).length ∧
          sanitizeUtf8 (lead :: rest) = (sanitizeRound lead rest).1 ++
            sanitizeUtf8 ((lead :: rest).drop (sanitizeRound lead rest).2) := by
  have hself (s : Bytes) : sanitizeUtf8 s = s ↔ Utf8.WellFormed s := by
    rw [sanitizeUtf8_eq]
    exact Utf8.encodeAll_decodeReplace_eq_self_iff
  have hwell : Utf8.WellFormed (sanitizeUtf8 text) := by
    rw [sanitizeUtf8_eq]
    exact Utf8.wellFormed_decodeReplace text
  refine ⟨fun out => ?_, hwell, hself text, (hself _).mpr hwell, ?_⟩
  · rw [sanitizeUtf8_eq]
    exact Utf8.replaced_iff
  · intro lead rest
    obtain ⟨hpos, hle⟩ := sanitizeRound_advances lead rest
    exact ⟨hpos, hle, sanitizeUtf8_cons lead rest⟩

-- a sequence cut short by the end of the text is one subpart, bytes that start nothing are one each
example : sanitizeUtf8 [0xE1, 0x80, 0x41, 0xC0, 0xAF] =
    [0xEF, 0xBF, 0xBD, 0x41, 0xEF, 0xBF, 0xBD, 0xEF, 0xBF, 0xBD] := by decide

end Sanitize

section CodePoints

private theorem or_lead2 : ∀ x < 0x20, 0xC0 ||| x = 0xC0 + x := by decide

private theorem or_lead3 : ∀ x < 0x10, 0xE0 ||| x = 0xE0 + x := by decide

private theorem or_lead4 : ∀ x < 0x08, 0xF0 ||| x = 0xF0 + x := by decide

private theorem or_tail : ∀ x < 0x40, 0x80 ||| x = 0x80 + x := by decide

private theorem and_tail (c : Nat) : c &&& 0x3F = c % 64 := Nat.and_two_pow_sub_one_eq_mod c 6

/-- `append_utf8` appends the encoding. -/
theorem appendUtf8_eq (out : Bytes) {c : Nat} (h : c < 0x110000) :
    appendUtf8 out c = out ++ encode c := by
  unfold appendUtf8 encode
  simp only [and_tail, Nat.shiftRight_eq_div_pow]
  split
  · rfl
  split
  · rw [or_lead2 _ (by omega), or_tail _ (by omega)]
  split
  · rw [or_lead3 _ (by omega), or_tail _ (by omega), or_tail _ (by omega)]
  · rw [or_lead4 _ (by omega), or_tail _ (by omega), or_tail _ (by omega), or_tail _ (by omega)]

private theorem tail_masks : ∀ x < 0x40,
    ((0x80 + x) &&& 0xC0 == 0x80) = true ∧ (0x80 + x) &&& 0x3F = x := by decide

private theorem lead2_masks : ∀ x < 0x20,
    (0xC0 + x) &&& 0xE0 = 0xC0 ∧ (0xC0 + x) &&& 0x1F = x := by decide

private theorem lead3_masks : ∀ x < 0x10,
    (0xE0 + x) &&& 0xE0 ≠ 0xC0 ∧ (0xE0 + x) &&& 0xF0 = 0xE0 ∧ (0xE0 + x) &&& 0x0F = x := by decide

private theorem lead4_masks : ∀ x < 0x08,
    (0xF0 + x) &&& 0xE0 ≠ 0xC0 ∧ (0xF0 + x) &&& 0xF0 ≠ 0xE0 ∧ (0xF0 + x) &&& 0xF8 = 0xF0 ∧
      (0xF0 + x) &&& 0x07 = x := by decide

private theorem join {x y k : Nat} (h : y < 2 ^ k) : x <<< k ||| y = x * 2 ^ k + y := by
  rw [← Nat.shiftLeft_add_eq_or_of_lt h, Nat.shiftLeft_eq]

/-- `next_code_point` reads back what `encode` wrote. -/
theorem nextCodePoint_encode {c : Nat} (h : c < 0x110000) (rest : Bytes) :
    nextCodePoint (encode c ++ rest) = (c, (encode c).length) := by
  obtain h1 | ⟨h1, h2⟩ | ⟨h1, h2⟩ | h1 := Utf8.length_cases c
  · simp [Utf8.encode_ascii h1, nextCodePoint, byteAt, h1]
  · obtain ⟨hm, hv⟩ := lead2_masks (c / 64) (by omega)
    obtain ⟨t1, v1⟩ := tail_masks (c % 64) (by omega)
    have hj : (c / 64) <<< 6 ||| c % 64 = c := by
      rw [join (by omega)]
      omega
    simp only [Utf8.encode_two h1 h2, nextCodePoint, byteAt, isContinuation, List.cons_append,
      List.nil_append, List.getD_cons_zero, List.getD_cons_succ, List.length_cons, hm, hv, t1, v1]
    rw [if_neg (by omega), if_pos (by simp), hj, if_pos h1]
    rfl
  · obtain ⟨hn, hm, hv⟩ := lead3_masks (c / 4096) (by omega)
    obtain ⟨t1, v1⟩ := tail_masks (c / 64 % 64) (by omega)
    obtain ⟨t2, v2⟩ := tail_masks (c % 64) (by omega)
    have hj : (c / 4096) <<< 12 ||| (c / 64 % 64) <<< 6 ||| c % 64 = c := by
      rw [Nat.or_assoc, join (k := 6) (by omega), join (by omega)]
      omega
    simp only [Utf8.encode_three h1 h2, nextCodePoint, byteAt, isContinuation, List.cons_append,
      List.nil_append, List.getD_cons_zero, List.getD_cons_succ, List.length_cons, hm, hv, hn, t1,
      v1, t2, v2, false_and, if_false]
    rw [if_neg (by omega), if_pos (by simp), hj, if_pos h1]
    rfl
  · obtain ⟨hn, hn', hm, hv⟩ := lead4_masks (c / 262144) (by omega)
    obtain ⟨t1, v1⟩ := tail_masks (c / 4096 % 64) (by omega)
    obtain ⟨t2, v2⟩ := tail_masks (c / 64 % 64) (by omega)
    obtain ⟨t3, v3⟩ := tail_masks (c % 64) (by omega)
    have hj : (c / 262144) <<< 18 ||| (c / 4096 % 64) <<< 12 ||| (c / 64 % 64) <<< 6 ||| c % 64 =
        c := by
      rw [Nat.or_assoc, join (k := 6) (by omega), Nat.or_assoc, join (k := 12) (by omega),
        join (by omega)]
      omega
    simp only [Utf8.encode_four h1, nextCodePoint, byteAt, isContinuation, List.cons_append,
      List.nil_append, List.getD_cons_zero, List.getD_cons_succ, List.length_cons, hm, hv, hn, hn',
      t1, v1, t2, v2, t3, v3, false_and, if_false]
    rw [if_neg (by omega), if_pos (by simp), hj, if_pos (by omega)]
    rfl

end CodePoints

end Cpp
