import Mathlib.Data.List.Forall2
import FlightTestLab.Library.Utf8

/-!
# Replacement of maximal subparts

The definition of the replacement the decoder performs, in terms of the table alone:
a well-formed sequence is copied, and what stands where none starts is replaced up to
the end of its longest initial part. The decoder is then shown to be the one function
that does this.

## Main definitions

- `Utf8.IsSequence`: a row of the table, with its bytes
- `Utf8.WellFormed`: sequences one after the other
- `Utf8.Subpart`: what one replacement character stands for
- `Utf8.Replaced`: a text with its subparts replaced

## Main results

- `Utf8.replaced_iff`: decoding with replacement and encoding again does just that
- `Utf8.encodeAll_decodeReplace_eq_self_iff`: only well-formed text is left alone
-/

namespace Utf8

/-- The byte falls in the range. -/
def InRange (r : Nat × Nat) (b : Nat) : Prop := r.1 ≤ b ∧ b ≤ r.2

instance (r : Nat × Nat) (b : Nat) : Decidable (InRange r b) := inferInstanceAs (Decidable (_ ∧ _))

/-- A lead byte of the table and one byte of each range of its row. -/
inductive IsSequence : List Nat → Prop
  | row {lead : Nat} {row : List (Nat × Nat)} {tails : List Nat} :
      trailing lead = some row → List.Forall₂ InRange row tails → IsSequence (lead :: tails)

/-- A non-empty part at the start of some well-formed sequence. -/
def IsInitial (p : List Nat) : Prop := p ≠ [] ∧ ∃ seq, IsSequence seq ∧ p <+: seq

/-- Well-formed sequences one after the other. -/
inductive WellFormed : List Nat → Prop
  | nil : WellFormed []
  | append {seq rest : List Nat} : IsSequence seq → WellFormed rest → WellFormed (seq ++ rest)

/-- The longest initial part a text starts with, or its first byte when it starts with none. -/
inductive Subpart : List Nat → List Nat → Prop
  | longest {sub text : List Nat} : sub <+: text → IsInitial sub →
      (∀ p, p <+: text → IsInitial p → p.length ≤ sub.length) → Subpart sub text
  | single {b : Nat} {text : List Nat} : (∀ p, p <+: b :: text → ¬ IsInitial p) →
      Subpart [b] (b :: text)

/-- The second text is the first with U+FFFD for each maximal subpart. -/
inductive Replaced : List Nat → List Nat → Prop
  | nil : Replaced [] []
  | copy {seq rest out : List Nat} : IsSequence seq → Replaced rest out →
      Replaced (seq ++ rest) (seq ++ out)
  | replace {sub rest out : List Nat} : (∀ seq, IsSequence seq → ¬ seq <+: sub ++ rest) →
      Subpart sub (sub ++ rest) → Replaced rest out →
      Replaced (sub ++ rest) ([0xEF, 0xBF, 0xBD] ++ out)

section Rows

theorem forall₂_inRange_iff {row : List (Nat × Nat)} {bs : List Nat} :
    List.Forall₂ InRange row bs ↔ bs.length = row.length ∧ matched row bs = row.length := by
  induction row generalizing bs with
  | nil => cases bs <;> simp [matched]
  | cons r row ih =>
    cases bs with
    | nil => simp
    | cons b bs =>
      rw [List.forall₂_cons, ih]
      simp only [InRange, matched, List.length_cons]
      by_cases hr : r.1 ≤ b ∧ b ≤ r.2
      · rw [if_pos hr]
        simp only [hr, true_and, and_self, Nat.add_right_cancel_iff]
      · rw [if_neg hr]
        exact ⟨fun h => absurd h.1 hr, fun h => absurd h.2 (by omega)⟩

/-- No range of the table is empty. -/
theorem range_nonempty {lead : Nat} {row : List (Nat × Nat)} (h : trailing lead = some row) :
    ∀ r ∈ row, r.1 ≤ r.2 := by
  unfold trailing at h
  split_ifs at h <;> cases h <;> simp

theorem matched_append_le (row : List (Nat × Nat)) (p t : List Nat) :
    matched row p ≤ matched row (p ++ t) := by
  induction row generalizing p with
  | nil => simp [matched]
  | cons r row ih =>
    cases p with
    | nil => simp [matched]
    | cons b p =>
      simp only [List.cons_append, matched]
      split
      · exact Nat.add_le_add_right (ih p) 1
      · exact Nat.le_refl _

/-- The bytes that were matched are matched by themselves. -/
theorem matched_take (row : List (Nat × Nat)) (bs : List Nat) :
    matched row (bs.take (matched row bs)) = matched row bs := by
  induction row generalizing bs with
  | nil => simp [matched]
  | cons r row ih =>
    cases bs with
    | nil => simp [matched]
    | cons b bs =>
      by_cases hr : r.1 ≤ b ∧ b ≤ r.2
      · simp only [matched, if_pos hr, List.take_succ_cons, ih]
      · simp only [matched, if_neg hr, List.take_zero]

/-- Where a row is matched in full, so is every part at its start. -/
theorem matched_of_forall₂ {row : List (Nat × Nat)} {p t : List Nat}
    (h : List.Forall₂ InRange row (p ++ t)) : matched row p = p.length := by
  induction p generalizing row with
  | nil => cases row <;> rfl
  | cons b p ih =>
    cases h with
    | @cons r _ row _ hb hf =>
      have hb : r.1 ≤ b ∧ b ≤ r.2 := hb
      simp only [matched, List.length_cons]
      rw [if_pos hb, ih hf]

/-- A row that is matched so far can be completed. -/
theorem exists_completion {row : List (Nat × Nat)} (hr : ∀ r ∈ row, r.1 ≤ r.2) {p : List Nat}
    (h : matched row p = p.length) : ∃ t, List.Forall₂ InRange row (p ++ t) := by
  induction row generalizing p with
  | nil =>
    cases p with
    | nil => exact ⟨[], .nil⟩
    | cons b p => simp [matched] at h
  | cons r row ih =>
    have hrow : ∀ r ∈ row, r.1 ≤ r.2 := fun r' hr' => hr r' (List.mem_cons_of_mem _ hr')
    cases p with
    | nil =>
      obtain ⟨t, ht⟩ := ih hrow (p := []) (by cases row <;> rfl)
      exact ⟨r.1 :: t, .cons ⟨Nat.le_refl _, hr r List.mem_cons_self⟩ ht⟩
    | cons b p =>
      simp only [matched, List.length_cons] at h
      split at h
      · next hb =>
        obtain ⟨t, ht⟩ := ih hrow (p := p) (by omega)
        exact ⟨t, .cons hb ht⟩
      · omega

theorem isSequence_cons_iff {lead : Nat} {tails : List Nat} :
    IsSequence (lead :: tails) ↔
      ∃ row, trailing lead = some row ∧ tails.length = row.length ∧ matched row tails = row.length := by
  constructor
  · intro h
    cases h with
    | row ht hf => exact ⟨_, ht, forall₂_inRange_iff.mp hf⟩
  · rintro ⟨row, ht, hf⟩
    exact .row ht (forall₂_inRange_iff.mpr hf)

/-- A part is initial when all of it is matched by the row of its first byte. -/
theorem isInitial_cons_iff {lead : Nat} {p : List Nat} :
    IsInitial (lead :: p) ↔ ∃ row, trailing lead = some row ∧ matched row p = p.length := by
  constructor
  · rintro ⟨-, seq, hseq, t, rfl⟩
    rw [List.cons_append] at hseq
    obtain ⟨row, ht, hlen, hm⟩ := isSequence_cons_iff.mp hseq
    exact ⟨row, ht, matched_of_forall₂ (forall₂_inRange_iff.mpr ⟨hlen, hm⟩)⟩
  · rintro ⟨row, ht, hm⟩
    obtain ⟨t, hf⟩ := exists_completion (range_nonempty ht) hm
    exact ⟨List.cons_ne_nil _ _, lead :: (p ++ t), .row ht hf, t, rfl⟩

theorem IsSequence.isInitial {seq : List Nat} (h : IsSequence seq) : IsInitial seq := by
  cases h with
  | row ht hf => exact ⟨List.cons_ne_nil _ _, _, .row ht hf, List.prefix_refl _⟩

/-- Of two sequences at the same place neither is longer. -/
theorem IsSequence.eq_of_prefix {seq seq' text : List Nat} (h : IsSequence seq)
    (h' : IsSequence seq') (hp : seq <+: text) (hp' : seq' <+: text) : seq = seq' := by
  cases h with
  | @row lead row tails ht hf =>
    cases h' with
    | @row lead' row' tails' ht' hf' =>
      obtain ⟨t, rfl⟩ := hp
      obtain ⟨hl, htail⟩ := List.cons_prefix_cons.mp hp'
      rw [hl, ht, Option.some.injEq] at ht'
      subst hl ht'
      have hlen : tails'.length = tails.length := hf'.length_eq.symm.trans hf.length_eq
      have htails : tails' = (tails ++ t).take tails.length := by
        rw [← hlen]
        exact List.prefix_iff_eq_take.mp htail
      rw [htails, List.take_left]

end Rows

section Decoder

/-- Where the decoder finds a code point, its sequence stands. -/
theorem decodeHead_isSome {b : Nat} {bs : List Nat} {c : Nat}
    (h : (decodeHead b bs).1 = some c) :
    IsSequence (b :: bs.take (decodeHead b bs).2) ∧
      encode c = b :: bs.take (decodeHead b bs).2 := by
  unfold decodeHead at h ⊢
  cases ht : trailing b with
  | none => simp [ht] at h
  | some row =>
    simp only [ht] at h ⊢
    split at h
    · next hm =>
      rw [Option.some.injEq] at h
      have hlen : (bs.take (matched row bs)).length = row.length := by
        have := matched_le_length row bs
        rw [List.length_take]
        omega
      refine ⟨isSequence_cons_iff.mpr ⟨row, ht, hlen, ?_⟩, ?_⟩
      · rw [matched_take, hm]
      · rw [← h, hm]
        exact (encode_scalarOf ht hm).2
    · cases h

/-- Where the decoder finds none, no sequence stands, and it passes over the subpart. -/
theorem decodeHead_isNone {b : Nat} {bs : List Nat} (h : (decodeHead b bs).1 = none) :
    (∀ seq, IsSequence seq → ¬ seq <+: b :: bs) ∧
      Subpart (b :: bs.take (decodeHead b bs).2) (b :: bs) := by
  unfold decodeHead at h ⊢
  cases ht : trailing b with
  | none =>
    have hno : ∀ p, p <+: b :: bs → ¬ IsInitial p := by
      intro p hp hi
      cases p with
      | nil => exact hi.1 rfl
      | cons c p =>
        obtain ⟨rfl, -⟩ := List.cons_prefix_cons.mp hp
        obtain ⟨row, hrow, -⟩ := isInitial_cons_iff.mp hi
        rw [ht] at hrow
        cases hrow
    exact ⟨fun seq hseq hp => hno seq hp hseq.isInitial, .single hno⟩
  | some row =>
    simp only [ht] at h ⊢
    split at h
    · cases h
    · next hm =>
      constructor
      · intro seq hseq hp
        cases hseq with
        | @row lead row' tails ht' hf =>
          obtain ⟨rfl, t, rfl⟩ := List.cons_prefix_cons.mp hp
          rw [ht, Option.some.injEq] at ht'
          subst ht'
          have hfull := (forall₂_inRange_iff.mp hf).2
          have hge := matched_append_le row tails t
          have hle := matched_le row (tails ++ t)
          omega
      · refine .longest (List.cons_prefix_cons.mpr ⟨rfl, List.take_prefix _ _⟩) ?_ ?_
        · refine isInitial_cons_iff.mpr ⟨row, ht, ?_⟩
          have := matched_le_length row bs
          rw [matched_take, List.length_take]
          omega
        · intro p hp hi
          cases p with
          | nil => exact absurd rfl hi.1
          | cons c p =>
            obtain ⟨rfl, t, rfl⟩ := List.cons_prefix_cons.mp hp
            obtain ⟨row', ht', hall⟩ := isInitial_cons_iff.mp hi
            rw [ht, Option.some.injEq] at ht'
            subst ht'
            have hge := matched_append_le row p t
            have := matched_le_length row (p ++ t)
            simp only [List.length_cons, List.length_take]
            omega

/-- Decoding and encoding again replaces the maximal subparts. -/
theorem replaced_encodeAll (bs : List Nat) : Replaced bs (encodeAll (decodeReplace bs)) := by
  induction hn : bs.length using Nat.strong_induction_on generalizing bs with
  | _ n ih =>
    cases bs with
    | nil => exact .nil
    | cons b bs =>
      have hrest := ih (bs.drop (decodeHead b bs).2).length (by
        simp only [List.length_drop, ← hn, List.length_cons]
        omega) _ rfl
      have hsplit : b :: bs =
          (b :: bs.take (decodeHead b bs).2) ++ bs.drop (decodeHead b bs).2 := by
        rw [List.cons_append, List.take_append_drop]
      rw [decodeReplace_cons, encodeAll_cons]
      cases hd : (decodeHead b bs).1 with
      | some c =>
        obtain ⟨hseq, henc⟩ := decodeHead_isSome hd
        rw [Option.getD_some, henc]
        conv => arg 1; rw [hsplit]
        exact .copy hseq hrest
      | none =>
        obtain ⟨hno, hsub⟩ := decodeHead_isNone hd
        rw [Option.getD_none]
        rw [hsplit] at hno hsub ⊢
        exact .replace hno hsub hrest

end Decoder

section Uniqueness

theorem Subpart.ne_nil {sub text : List Nat} (h : Subpart sub text) : sub ≠ [] := by
  cases h with
  | longest _ hi _ => exact hi.1
  | single _ => exact List.cons_ne_nil _ _

theorem IsSequence.ne_nil {seq : List Nat} (h : IsSequence seq) : seq ≠ [] := h.isInitial.1

theorem Subpart.length_eq {sub sub' text : List Nat} (h : Subpart sub text)
    (h' : Subpart sub' text) : sub.length = sub'.length := by
  cases h with
  | longest hp hi hmax =>
    cases h' with
    | longest hp' hi' hmax' => exact Nat.le_antisymm (hmax' _ hp hi) (hmax _ hp' hi')
    | single hno => exact absurd hi (hno _ hp)
  | single hno =>
    cases h' with
    | longest hp' hi' _ => exact absurd hi' (hno _ hp')
    | single _ => rfl

/-- The replacement is determined by the text. -/
theorem Replaced.unique {text out out' : List Nat} (h : Replaced text out)
    (h' : Replaced text out') : out = out' := by
  induction h generalizing out' with
  | nil =>
    generalize ht : ([] : List Nat) = text at h'
    cases h' with
    | nil => rfl
    | copy hseq _ => exact absurd (List.append_eq_nil_iff.mp ht.symm).1 hseq.ne_nil
    | replace _ hsub _ => exact absurd (List.append_eq_nil_iff.mp ht.symm).1 hsub.ne_nil
  | @copy seq rest out hseq hrest ih =>
    generalize ht : seq ++ rest = text at h'
    cases h' with
    | nil => exact absurd (List.append_eq_nil_iff.mp ht).1 hseq.ne_nil
    | @copy seq' rest' out' hseq' hrest' =>
      have heq : seq = seq' :=
        hseq.eq_of_prefix hseq' (List.prefix_append seq rest) (ht ▸ List.prefix_append seq' rest')
      subst heq
      rw [List.append_cancel_left_eq] at ht
      rw [ih (ht ▸ hrest')]
    | replace hno _ _ => exact absurd (ht ▸ List.prefix_append seq rest) (hno seq hseq)
  | @replace sub rest out hno hsub hrest ih =>
    generalize ht : sub ++ rest = text at h'
    cases h' with
    | nil => exact absurd (List.append_eq_nil_iff.mp ht).1 hsub.ne_nil
    | copy hseq' _ => exact absurd (ht ▸ List.prefix_append _ _) (hno _ hseq')
    | @replace sub' rest' out' hno' hsub' hrest' =>
      have hlen := hsub.length_eq (ht ▸ hsub')
      obtain ⟨-, hr⟩ := List.append_inj ht hlen
      rw [ih (hr ▸ hrest')]

theorem replaced_iff {text out : List Nat} :
    Replaced text out ↔ out = encodeAll (decodeReplace text) := by
  constructor
  · intro h
    exact h.unique (replaced_encodeAll text)
  · rintro rfl
    exact replaced_encodeAll text

end Uniqueness

section WellFormed

theorem isSequence_encode {c : Nat} (h : IsScalar c) : IsSequence (encode c) := by
  unfold IsScalar at h
  obtain hc | ⟨hc, hc'⟩ | ⟨hc, hc'⟩ | hc := length_cases c
  · rw [encode_ascii hc]
    exact .row (if_pos (by omega)) .nil
  · rw [encode_two hc hc']
    refine isSequence_cons_iff.mpr ⟨[tail], ?_, rfl, ?_⟩
    · rw [trailing, if_neg (by omega), if_pos (by omega)]
    · simp only [matched, List.length_cons, List.length_nil]
      rw [if_pos (by omega)]
  · rw [encode_three hc hc']
    obtain ⟨lo, hi, ht, hr⟩ : ∃ lo hi, trailing (0xE0 + c / 4096) = some [(lo, hi), tail] ∧
        lo ≤ 0x80 + c / 64 % 64 ∧ 0x80 + c / 64 % 64 ≤ hi := by
      unfold trailing
      rw [if_neg (by omega), if_neg (by omega)]
      split_ifs
      all_goals first
        | exact ⟨_, _, rfl, by omega, by omega⟩
        | omega
    refine isSequence_cons_iff.mpr ⟨_, ht, rfl, ?_⟩
    simp only [matched, List.length_cons, List.length_nil]
    rw [if_pos hr, if_pos (by omega)]
  · rw [encode_four hc]
    obtain ⟨lo, hi, ht, hr⟩ : ∃ lo hi, trailing (0xF0 + c / 262144) = some [(lo, hi), tail, tail] ∧
        lo ≤ 0x80 + c / 4096 % 64 ∧ 0x80 + c / 4096 % 64 ≤ hi := by
      unfold trailing
      rw [if_neg (by omega), if_neg (by omega), if_neg (by omega), if_neg (by omega),
        if_neg (by omega), if_neg (by omega)]
      split_ifs
      all_goals first
        | exact ⟨_, _, rfl, by omega, by omega⟩
        | omega
    refine isSequence_cons_iff.mpr ⟨_, ht, rfl, ?_⟩
    simp only [matched, List.length_cons, List.length_nil]
    rw [if_pos hr, if_pos (by omega), if_pos (by omega)]

theorem wellFormed_encodeAll {cs : List Nat} (h : ∀ c ∈ cs, IsScalar c) :
    WellFormed (encodeAll cs) := by
  induction cs with
  | nil => exact .nil
  | cons c cs ih =>
    rw [List.forall_mem_cons] at h
    exact .append (isSequence_encode h.1) (ih h.2)

theorem wellFormed_decodeReplace (bs : List Nat) : WellFormed (encodeAll (decodeReplace bs)) :=
  wellFormed_encodeAll fun _ hc => isScalar_of_mem_decodeReplace hc

theorem WellFormed.replaced_self {bs : List Nat} (h : WellFormed bs) : Replaced bs bs := by
  induction h with
  | nil => exact .nil
  | append hseq _ ih => exact .copy hseq ih

/-- Well-formed text, and no other, comes through unchanged. -/
theorem encodeAll_decodeReplace_eq_self_iff {bs : List Nat} :
    encodeAll (decodeReplace bs) = bs ↔ WellFormed bs := by
  constructor
  · intro h
    rw [← h]
    exact wellFormed_decodeReplace bs
  · intro h
    exact (replaced_iff.mp h.replaced_self).symm

end WellFormed

end Utf8
