import Mathlib.Algebra.Order.BigOperators.Group.List
import Mathlib.Algebra.Order.Field.Rat
import Mathlib.Tactic.Linarith
import Mathlib.Tactic.Positivity
import FlightTestLab.Learning.Ledger

/-!
# How interview answers move the weights

`interview_weights` before and after one `record_interview`, over exact numbers, on any
record whose counters are all there.

## Main definitions

- `Learning.State.Counted`: no counter is missing or null
- `Learning.lack`: what a concept adds to the weight of a question
- `Learning.weight`: the weight of a question as a function of the counters

## Main results

- `Learning.interviewWeights_counted`: the store computes that function
- `Learning.recordInterview_counted`: what an answer does to the counters
-/

namespace Learning

open Json (Text ascii)
open Python (Value Error)

variable {F : Type}

section Lack

/-- One minus the score of a concept, one half while it has none. -/
def lack (correct incorrect : Nat) : Rat :=
  if correct + incorrect = 0 then 1 / 2 else 1 - (correct : Rat) / (correct + incorrect : Nat)

variable (c i k : Nat)

theorem lack_zero : lack 0 0 = 1 / 2 := rfl

theorem lack_of_pos (h : 0 < c + i) : lack c i = i / (c + i : Nat) := by
  have hne : ((c + i : Nat) : Rat) ≠ 0 := Nat.cast_ne_zero.mpr (Nat.ne_of_gt h)
  rw [lack, if_neg (Nat.ne_of_gt h), one_sub_div hne]
  push_cast
  rw [add_sub_cancel_left]

theorem lack_nonneg : 0 ≤ lack c i := by
  by_cases h : 0 < c + i
  · rw [lack_of_pos c i h]
    positivity
  · obtain ⟨rfl, rfl⟩ : c = 0 ∧ i = 0 := by omega
    rw [lack_zero]
    positivity

/-- Correct answers: an unseen concept goes from one half to nothing. -/
theorem lack_correct_le : lack (c + k) i ≤ lack c i := by
  by_cases hk : k = 0
  · rw [hk]
    exact le_refl _
  rw [lack_of_pos (c + k) i (by omega)]
  by_cases h : 0 < c + i
  · rw [lack_of_pos c i h]
    have hle : ((c + i : Nat) : Rat) ≤ (c + k + i : Nat) := Nat.cast_le.mpr (by omega)
    have hpos : (0 : Rat) < (c + i : Nat) := Nat.cast_pos.mpr h
    exact div_le_div_of_nonneg_left (Nat.cast_nonneg i) hpos hle
  · obtain ⟨rfl, rfl⟩ : c = 0 ∧ i = 0 := by omega
    rw [Nat.cast_zero, zero_div]
    exact lack_nonneg 0 0

/-- Misses: an unseen concept goes from one half to one. -/
theorem le_lack_incorrect : lack c i ≤ lack c (i + k) := by
  by_cases hk : k = 0
  · rw [hk]
    exact le_refl _
  rw [lack_of_pos c (i + k) (by omega)]
  have hpos' : (0 : Rat) < (c + (i + k) : Nat) := Nat.cast_pos.mpr (by omega)
  by_cases h : 0 < c + i
  · rw [lack_of_pos c i h]
    have hpos : (0 : Rat) < (c + i : Nat) := Nat.cast_pos.mpr h
    rw [div_le_div_iff₀ hpos hpos']
    -- i (c + i + k) is at most (i + k) (c + i)
    have hmul : i * (c + (i + k)) ≤ (i + k) * (c + i) := by
      have : i * (c + (i + k)) + k * c = (i + k) * (c + i) := by ring
      omega
    exact_mod_cast hmul
  · obtain ⟨rfl, rfl⟩ : c = 0 ∧ i = 0 := by omega
    have hone : (((0 + k : Nat) : Rat)) / (0 + (0 + k) : Nat) = 1 := by
      rw [Nat.zero_add, Nat.zero_add]
      exact div_self (Nat.cast_ne_zero.mpr hk)
    rw [hone, lack_zero]
    norm_num

end Lack

section Counters

/-- No counter of a concept or of an interview question is missing or null. -/
structure State.Counted (s : State F) : Prop where
  concepts : ∀ concept entry, s.concepts.get? concept = some entry →
    ∃ correct incorrect, entry.correct = .val correct ∧ entry.incorrect = .val incorrect
  interview : ∀ questionId entry, s.interview.get? questionId = some entry →
    ∃ correct incorrect streak, entry = ⟨.val correct, .val incorrect, .val streak⟩

theorem Ledger.state_counted (a : Ledger) : (a.state : State F).Counted where
  concepts := by
    intro concept entry he
    rw [state, Dict.get?_map, Option.map_eq_some_iff] at he
    obtain ⟨tally, -, rfl⟩ := he
    exact ⟨tally.correct, tally.incorrect, rfl, rfl⟩
  interview := by
    intro questionId entry he
    rw [state, Dict.get?_map, Option.map_eq_some_iff] at he
    obtain ⟨answers, -, rfl⟩ := he
    exact ⟨answers.correct, answers.incorrect, answers.streak, rfl⟩

/-- The answers counted for a concept. -/
def tallyOf (stored : Dict Text (ConceptEntry F)) (concept : Text) : Nat × Nat :=
  match stored.get? concept with
  | none => (0, 0)
  | some entry => (countOf entry.correct, countOf entry.incorrect)

/-- The answers counted for a question, and its streak. -/
def historyOf (s : State F) (questionId : Text) : Nat × Nat × Nat :=
  match s.interview.get? questionId with
  | none => (0, 0, 0)
  | some entry => (countOf entry.correct, countOf entry.incorrect, countOf entry.streak)

/-- A question that no answer is counted for. -/
def NeverAnswered (s : State F) (questionId : Text) : Prop :=
  (historyOf s questionId).1 = 0 ∧ (historyOf s questionId).2.1 = 0

/-- What the concepts of a question add to its weight. -/
def lacks (stored : Dict Text (ConceptEntry F)) (concepts : List Text) : Rat :=
  (concepts.map fun concept => lack (tallyOf stored concept).1 (tallyOf stored concept).2).sum

/-- The last steps of the weight: misses add to it, a streak halves it, and it has a floor. -/
def weigh (base : Rat) (incorrect streak : Nat) : Rat :=
  max ((base + 2 * incorrect) * (1 / 2) ^ min streak 6) minInterviewWeight

def weight (s : State F) (questionId : Text) (concepts : List Text) : Rat :=
  let (_, incorrect, streak) := historyOf s questionId
  weigh (1 + lacks s.concepts concepts) incorrect streak

variable {s : State F}

/-- The mastery of a concept with so many answers. -/
def masteryFor (tally : Nat × Nat) : Mastery where
  correct := tally.1
  incorrect := tally.2
  score := if tally.1 + tally.2 = 0 then none
    else some ((tally.1 : Rat) / (tally.1 + tally.2 : Nat))
  weak := 0 < tally.1 + tally.2 && (tally.1 : Rat) / (tally.1 + tally.2 : Nat) < 7 / 10

theorem masteryOf_counted (h : s.Counted) (concept : Text) :
    masteryOf s concept = .ok (masteryFor (tallyOf s.concepts concept)) := by
  rw [masteryOf, tallyOf]
  cases he : s.concepts.get? concept with
  | none => rfl
  | some entry =>
    obtain ⟨correct, incorrect, hcorrect, hincorrect⟩ := h.concepts concept entry he
    show _ = Except.ok (masteryFor (countOf entry.correct, countOf entry.incorrect))
    rw [Option.getD_some, hcorrect, hincorrect]
    rfl

theorem add_score (w : Rat) (tally : Nat × Nat) :
    (match (masteryFor tally).score with
      | none => w + 1 / 2
      | some score => w + (1 - score)) = w + lack tally.1 tally.2 := by
  rw [lack, masteryFor]
  split
  · rename_i hnone
    rw [ite_eq_left_iff] at hnone
    split
    · rfl
    · rename_i hpos
      cases hnone hpos
  · rename_i score hsome
    split at hsome
    · cases hsome
    · rename_i hpos
      rw [if_neg hpos, Option.some.inj hsome]

theorem foldl_scores {mastery : List (Text × Mastery)} {concepts : List Text}
    (h : ∀ concept ∈ concepts, Assoc.get? concept mastery =
      some (masteryFor (tallyOf s.concepts concept))) (w : Rat) :
    concepts.foldl (fun weight concept =>
      match (Assoc.get? concept mastery).bind (·.score) with
      | none => weight + 1 / 2
      | some score => weight + (1 - score)) w = w + lacks s.concepts concepts := by
  induction concepts generalizing w with
  | nil => exact (add_zero w).symm
  | cons concept concepts ih =>
    rw [List.forall_mem_cons] at h
    rw [List.foldl_cons, h.1, Option.bind_some, add_score, ih h.2, lacks, lacks, List.map_cons,
      List.sum_cons, add_assoc]

theorem weightOf_counted (h : s.Counted) {mastery : List (Text × Mastery)} (questionId : Text)
    {concepts : List Text}
    (hmastery : ∀ concept ∈ concepts, Assoc.get? concept mastery =
      some (masteryFor (tallyOf s.concepts concept))) :
    weightOf s mastery questionId concepts = .ok (weight s questionId concepts) := by
  have hsum := foldl_scores hmastery 1
  rw [weightOf, weight, historyOf]
  cases he : s.interview.get? questionId with
  | none => exact congrArg (fun base => Except.ok (weigh base 0 0)) hsum
  | some entry =>
    obtain ⟨correct, incorrect, streak, rfl⟩ := h.interview questionId entry he
    exact congrArg (fun base => Except.ok (weigh base incorrect streak)) hsum

theorem conceptMastery_counted (h : s.Counted) (concepts : List Text) :
    conceptMastery s concepts =
      .ok (concepts.map fun concept => (concept, masteryFor (tallyOf s.concepts concept))) := by
  apply Except.mapM_eq_ok
  intro concept _
  rw [masteryOf_counted h]
  rfl

theorem get?_map_pair (g : Text → Mastery) {concept : Text} {concepts : List Text}
    (h : concept ∈ concepts) :
    Assoc.get? concept (concepts.map fun c => (c, g c)) = some (g concept) := by
  induction concepts with
  | nil => cases h
  | cons c concepts ih =>
    rw [List.map_cons, Assoc.get?]
    split
    · rename_i heq
      rw [heq]
    · rename_i hne
      obtain rfl | h := List.mem_cons.mp h
      · exact absurd rfl hne
      · exact ih h

/-- The weights of a record with all its counters. -/
theorem interviewWeights_counted (h : s.Counted) (questions : List (Text × List Text)) :
    interviewWeights s questions =
      .ok (questions.map fun question => (question.1, weight s question.1 question.2)) := by
  rw [interviewWeights, conceptMastery_counted h, Except.ok_bind]
  apply Except.mapM_eq_ok
  intro question hq
  have hmastery : ∀ concept ∈ question.2,
      Assoc.get? concept ((questions.flatMap Prod.snd).dedup.map fun concept =>
        (concept, masteryFor (tallyOf s.concepts concept))) =
      some (masteryFor (tallyOf s.concepts concept)) := by
    intro concept hc
    exact get?_map_pair (fun c => masteryFor (tallyOf s.concepts c))
      (List.mem_dedup.mpr (List.mem_flatMap.mpr ⟨question, hq, hc⟩))
  rw [weightOf_counted h question.1 hmastery]
  rfl

end Counters

section Answers

variable {s : State F}

/-- The entry of each concept has both counters. -/
def Tallied (stored : Dict Text (ConceptEntry F)) : Prop :=
  ∀ concept entry, stored.get? concept = some entry →
    ∃ correct incorrect, entry.correct = .val correct ∧ entry.incorrect = .val incorrect

/-- So many answers more, correct or not. -/
def raise (correct : Bool) (n : Nat) (tally : Nat × Nat) : Nat × Nat :=
  if correct then (tally.1 + n, tally.2) else (tally.1, tally.2 + n)

theorem raise_raise (correct : Bool) (m n : Nat) (tally : Nat × Nat) :
    raise correct m (raise correct n tally) = raise correct (n + m) tally := by
  cases correct with
  | true => simp only [raise, if_true, Nat.add_assoc]
  | false => simp only [raise, Bool.false_eq_true, if_false, Nat.add_assoc]

theorem tallyOf_insert (stored : Dict Text (ConceptEntry F)) (concept concept' : Text)
    (entry : ConceptEntry F) :
    tallyOf (stored.insert concept entry) concept' =
      if concept = concept' then (countOf entry.correct, countOf entry.incorrect)
      else tallyOf stored concept' := by
  by_cases heq : concept = concept'
  · rw [tallyOf, Dict.get?_insert, if_pos heq, if_pos heq]
  · rw [tallyOf, Dict.get?_insert, if_neg heq, if_neg heq, tallyOf]

theorem Tallied.insert {stored : Dict Text (ConceptEntry F)} (h : Tallied stored)
    (concept : Text) {entry : ConceptEntry F} {correct incorrect : Nat}
    (hcorrect : entry.correct = .val correct) (hincorrect : entry.incorrect = .val incorrect) :
    Tallied (stored.insert concept entry) := by
  intro concept' entry' he
  rw [Dict.get?_insert] at he
  split at he
  · obtain rfl := Option.some.inj he
    exact ⟨correct, incorrect, hcorrect, hincorrect⟩
  · exact h concept' entry' he

/-- The entry that one answer for a concept reads, with what it counts. -/
theorem Tallied.entry {stored : Dict Text (ConceptEntry F)} (h : Tallied stored)
    (concept : Text) : ∃ correct incorrect lastSeen,
      (stored.get? concept).getD { correct := .val 0, incorrect := .val 0, lastSeen := .null } =
        { correct := .val correct, incorrect := .val incorrect, lastSeen := lastSeen } ∧
      tallyOf stored concept = (correct, incorrect) := by
  rw [tallyOf]
  cases he : stored.get? concept with
  | none => exact ⟨0, 0, .null, rfl, rfl⟩
  | some entry =>
    obtain ⟨correct, incorrect, hcorrect, hincorrect⟩ := h concept entry he
    obtain ⟨c, i, lastSeen⟩ := entry
    obtain rfl : c = .val correct := hcorrect
    obtain rfl : i = .val incorrect := hincorrect
    exact ⟨correct, incorrect, lastSeen, rfl, rfl⟩

/-- An answer counts for a concept as often as the question names it. -/
theorem bumpConcepts_counted (clock : Clock) (correct : Bool)
    {stored : Dict Text (ConceptEntry F)} (h : Tallied stored) (concepts : List Text) :
    ∃ bumped, bumpConcepts clock correct stored concepts = .ok bumped ∧ Tallied bumped ∧
      ∀ concept, tallyOf bumped concept =
        raise correct (concepts.count concept) (tallyOf stored concept) := by
  induction concepts generalizing clock stored with
  | nil =>
    refine ⟨stored, rfl, h, ?_⟩
    intro concept
    cases correct <;> rfl
  | cons concept concepts ih =>
    obtain ⟨c, i, lastSeen, hentry, htally⟩ := h.entry concept
    -- the first concept gets its answer, the others follow on what is stored then
    have hstep : ∃ entry : ConceptEntry F,
        bumpConcepts clock correct stored (concept :: concepts) =
          bumpConcepts (fun n => clock (n + 1)) correct (stored.insert concept entry) concepts ∧
        entry.correct = .val (raise correct 1 (c, i)).1 ∧
        entry.incorrect = .val (raise correct 1 (c, i)).2 := by
      rw [bumpConcepts, hentry]
      cases correct with
      | true => exact ⟨_, rfl, rfl, rfl⟩
      | false => exact ⟨_, rfl, rfl, rfl⟩
    obtain ⟨entry, hbump, hcorrect, hincorrect⟩ := hstep
    obtain ⟨bumped, hrest, htallied, hcount⟩ :=
      ih (fun n => clock (n + 1)) (h.insert concept hcorrect hincorrect)
    refine ⟨bumped, hbump.trans hrest, htallied, ?_⟩
    intro concept'
    rw [hcount, tallyOf_insert, List.count_cons]
    by_cases heq : concept = concept'
    · subst heq
      rw [if_pos rfl, hcorrect, hincorrect, htally, beq_self_eq_true, if_pos rfl,
        ← Nat.add_comm 1, ← raise_raise]
      rfl
    · rw [if_neg heq, beq_false_of_ne heq]
      rfl

/-- The entry that an answer to a question reads, with what it counts. -/
theorem State.Counted.entry (h : s.Counted) (questionId : Text) :
    ∃ correct incorrect streak,
      (s.interview.get? questionId).getD
        { correct := .val 0, incorrect := .val 0, streak := .val 0 } =
          ⟨.val correct, .val incorrect, .val streak⟩ ∧
      historyOf s questionId = (correct, incorrect, streak) := by
  rw [historyOf]
  cases he : s.interview.get? questionId with
  | none => exact ⟨0, 0, 0, rfl, rfl⟩
  | some entry =>
    obtain ⟨correct, incorrect, streak, rfl⟩ := h.interview questionId entry he
    exact ⟨correct, incorrect, streak, rfl, rfl⟩

/-- One answer more in the history of a question. -/
def answer (correct : Bool) (history : Nat × Nat × Nat) : Nat × Nat × Nat :=
  if correct then (history.1 + 1, history.2.1, history.2.2 + 1)
  else (history.1, history.2.1 + 1, 0)

/-- What an answer does to the counters of a record that has them all. -/
theorem recordInterview_counted (clock : Clock) (h : s.Counted) (questionId : Text)
    (correct : Bool) (concepts : List Text) :
    ∃ after, recordInterview clock s questionId correct concepts = .ok after ∧ after.Counted ∧
      (∀ concept, tallyOf after.concepts concept =
        raise correct (concepts.count concept) (tallyOf s.concepts concept)) ∧
      (∀ other ≠ questionId, historyOf after other = historyOf s other) ∧
      historyOf after questionId = answer correct (historyOf s questionId) := by
  obtain ⟨c, i, streak, hentry, hhistory⟩ := h.entry questionId
  obtain ⟨bumped, hbump, htallied, hcount⟩ :=
    bumpConcepts_counted clock correct h.concepts concepts
  have hrecord : ∃ entry : InterviewEntry,
      recordInterview clock s questionId correct concepts =
        .ok { s with concepts := bumped, interview := s.interview.insert questionId entry } ∧
      entry = ⟨.val (answer correct (c, i, streak)).1, .val (answer correct (c, i, streak)).2.1,
        .val (answer correct (c, i, streak)).2.2⟩ := by
    refine ⟨_, ?_, rfl⟩
    rw [recordInterview, hentry]
    -- without concepts the code skips the counting
    cases concepts with
    | nil =>
      obtain rfl := Except.ok.inj hbump
      cases correct <;> rfl
    | cons concept concepts =>
      cases correct with
      | true => simp [hbump, answer]
      | false => simp [hbump, answer]
  obtain ⟨entry, hafter, rfl⟩ := hrecord
  refine ⟨_, hafter, ⟨htallied, ?_⟩, hcount, ?_, ?_⟩
  · intro other entry he
    rw [Dict.get?_insert] at he
    split at he
    · exact ⟨_, _, _, (Option.some.inj he).symm⟩
    · exact h.interview other entry he
  · intro other hne
    rw [historyOf, historyOf, Dict.get?_insert_of_ne _ hne]
  · rw [hhistory, historyOf, Dict.get?_insert_self]
    rfl

end Answers

section Moves

variable {s : State F}

theorem lacks_le_lacks {stored stored' : Dict Text (ConceptEntry F)} {concepts : List Text}
    (h : ∀ concept ∈ concepts, lack (tallyOf stored concept).1 (tallyOf stored concept).2 ≤
      lack (tallyOf stored' concept).1 (tallyOf stored' concept).2) :
    lacks stored concepts ≤ lacks stored' concepts :=
  List.sum_le_sum h

theorem lacks_nonneg (stored : Dict Text (ConceptEntry F)) (concepts : List Text) :
    0 ≤ lacks stored concepts := by
  apply List.sum_nonneg
  intro x hx
  obtain ⟨concept, -, rfl⟩ := List.mem_map.mp hx
  exact lack_nonneg _ _

theorem half_pow_le {m n : Nat} (h : m ≤ n) : ((1 : Rat) / 2) ^ n ≤ (1 / 2) ^ m :=
  pow_le_pow_of_le_one (by norm_num) (by norm_num) h

/-- The weight follows the base and the misses, and goes down with the streak. -/
theorem weigh_le_weigh {base base' : Rat} {wrong wrong' streak streak' : Nat} (h0 : 0 ≤ base)
    (hbase : base ≤ base') (hwrong : wrong ≤ wrong') (hstreak : streak' ≤ streak) :
    weigh base wrong streak ≤ weigh base' wrong' streak' := by
  have hcast : (wrong : Rat) ≤ wrong' := Nat.cast_le.mpr hwrong
  have hwrong0 : (0 : Rat) ≤ wrong := Nat.cast_nonneg wrong
  have hpow : ((1 : Rat) / 2) ^ min streak 6 ≤ (1 / 2) ^ min streak' 6 :=
    half_pow_le (min_le_min_right 6 hstreak)
  apply max_le_max_right
  apply mul_le_mul
  · linarith
  · exact hpow
  · positivity
  · linarith

/-- A miss outweighs any streak of a question with the same base. -/
theorem weigh_lt_weigh {base : Rat} (h0 : 0 ≤ base) (wrong streak : Nat) :
    weigh base 0 streak < weigh base (wrong + 1) 0 := by
  have hwrong : (0 : Rat) ≤ wrong := Nat.cast_nonneg wrong
  have hle : weigh base 0 streak ≤ weigh base 0 0 :=
    weigh_le_weigh h0 (le_refl _) (le_refl _) (Nat.zero_le _)
  have hlow : weigh base 0 0 < base + 2 * (wrong + 1 : Nat) := by
    apply max_lt
    · push_cast
      norm_num
      linarith
    · rw [minInterviewWeight]
      push_cast
      linarith
  have hhigh : base + 2 * (wrong + 1 : Nat) ≤ weigh base (wrong + 1) 0 := by
    refine le_trans (le_of_eq ?_) (le_max_left _ _)
    rw [Nat.zero_min, pow_zero, mul_one]
  exact lt_of_le_of_lt hle (lt_of_lt_of_le hlow hhigh)

theorem lacks_perm (stored : Dict Text (ConceptEntry F)) {concepts concepts' : List Text}
    (h : concepts.Perm concepts') : lacks stored concepts = lacks stored concepts' :=
  (h.map _).sum_eq

theorem raise_lack_le (n : Nat) (tally : Nat × Nat) :
    lack (raise true n tally).1 (raise true n tally).2 ≤ lack tally.1 tally.2 :=
  lack_correct_le tally.1 tally.2 n

theorem le_raise_lack (n : Nat) (tally : Nat × Nat) :
    lack tally.1 tally.2 ≤ lack (raise false n tally).1 (raise false n tally).2 :=
  le_lack_incorrect tally.1 tally.2 n

variable {after : State F} {questionId : Text} {asked : List Text}

/-- After a correct answer no question weighs more. -/
theorem weight_correct_le
    (hconcepts : ∀ concept, tallyOf after.concepts concept =
      raise true (asked.count concept) (tallyOf s.concepts concept))
    (hothers : ∀ other ≠ questionId, historyOf after other = historyOf s other)
    (hself : historyOf after questionId = answer true (historyOf s questionId))
    (other : Text) (concepts : List Text) :
    weight after other concepts ≤ weight s other concepts := by
  have hlacks : lacks after.concepts concepts ≤ lacks s.concepts concepts := by
    apply lacks_le_lacks
    intro concept _
    rw [hconcepts]
    exact raise_lack_le _ _
  have hnonneg := lacks_nonneg after.concepts concepts
  have hbase : 1 + lacks after.concepts concepts ≤ 1 + lacks s.concepts concepts := by linarith
  rw [weight, weight]
  by_cases hother : other = questionId
  · rw [hother, hself]
    exact weigh_le_weigh (by linarith) hbase (le_refl _) (Nat.le_succ _)
  · rw [hothers other hother]
    exact weigh_le_weigh (by linarith) hbase (le_refl _) (le_refl _)

/-- After a miss no question weighs less. -/
theorem le_weight_incorrect
    (hconcepts : ∀ concept, tallyOf after.concepts concept =
      raise false (asked.count concept) (tallyOf s.concepts concept))
    (hothers : ∀ other ≠ questionId, historyOf after other = historyOf s other)
    (hself : historyOf after questionId = answer false (historyOf s questionId))
    (other : Text) (concepts : List Text) :
    weight s other concepts ≤ weight after other concepts := by
  have hlacks : lacks s.concepts concepts ≤ lacks after.concepts concepts := by
    apply lacks_le_lacks
    intro concept _
    rw [hconcepts]
    exact le_raise_lack _ _
  have hnonneg := lacks_nonneg s.concepts concepts
  have hbase : 1 + lacks s.concepts concepts ≤ 1 + lacks after.concepts concepts := by linarith
  rw [weight, weight]
  by_cases hother : other = questionId
  · rw [hother, hself]
    exact weigh_le_weigh (by linarith) hbase (Nat.le_succ _) (Nat.zero_le _)
  · rw [hothers other hother]
    exact weigh_le_weigh (by linarith) hbase (le_refl _) (le_refl _)

/-- Right after a miss the question outweighs a fresh one with the same concepts. -/
theorem weight_fresh_lt (hself : historyOf after questionId = answer false (historyOf s questionId))
    {other : Text} (hother : NeverAnswered after other) {concepts : List Text}
    (hsame : concepts.Perm asked) :
    weight after other concepts < weight after questionId asked := by
  have hnonneg := lacks_nonneg after.concepts asked
  rw [weight, weight, hself, lacks_perm after.concepts hsame]
  obtain ⟨-, hwrong⟩ := hother
  dsimp only
  rw [hwrong]
  exact weigh_lt_weigh (by linarith) _ _

end Moves

/-- The weights of a table of questions, before an answer and after it. -/
theorem interview_weights_move (clock : Clock) {s : State F} (h : s.Counted)
    (questions : Dict Text (List Text)) {q : Text} {concepts : List Text}
    (hq : questions.get? q = some concepts) :
    ∃ right missed before afterRight afterMiss,
      recordInterview clock s q true concepts = .ok right ∧
      recordInterview clock s q false concepts = .ok missed ∧
      interviewWeights s questions.entries = .ok before ∧
      interviewWeights right questions.entries = .ok afterRight ∧
      interviewWeights missed questions.entries = .ok afterMiss ∧
      (∀ table ∈ [before, afterRight, afterMiss],
        table.map Prod.fst = questions.entries.map Prod.fst) ∧
      List.Forall₂ (fun w w' => w'.1 = w.1 ∧ w'.2 ≤ w.2) before afterRight ∧
      List.Forall₂ (fun w w' => w'.1 = w.1 ∧ w.2 ≤ w'.2) before afterMiss ∧
      (∀ other same x y, questions.get? other = some same → same.Perm concepts →
        NeverAnswered missed other → (other, x) ∈ afterMiss → (q, y) ∈ afterMiss → x < y) ∧
      ∀ w ∈ before ++ afterRight ++ afterMiss, 1 / 20 ≤ w.2 := by
  obtain ⟨right, hright, hrightCounted, hconcepts, hothers, hself⟩ :=
    recordInterview_counted clock h q true concepts
  obtain ⟨missed, hmissed, hmissedCounted, hconcepts', hothers', hself'⟩ :=
    recordInterview_counted clock h q false concepts
  refine ⟨right, missed, _, _, _, hright, hmissed, interviewWeights_counted h _,
    interviewWeights_counted hrightCounted _, interviewWeights_counted hmissedCounted _,
    ?_, ?_, ?_, ?_, ?_⟩
  -- the three lists run over the same questions
  · simp only [List.forall_mem_cons, List.map_map]
    exact ⟨rfl, rfl, rfl, List.forall_mem_nil _⟩
  · rw [List.forall₂_map_left_iff, List.forall₂_map_right_iff, List.forall₂_same]
    intro question _
    exact ⟨rfl, weight_correct_le hconcepts hothers hself _ _⟩
  · rw [List.forall₂_map_left_iff, List.forall₂_map_right_iff, List.forall₂_same]
    intro question _
    exact ⟨rfl, le_weight_incorrect hconcepts' hothers' hself' _ _⟩
  -- ids occur once, so the entries are those of the two questions
  · intro other same x y hother hsame hnever hx hy
    obtain ⟨⟨id, cs⟩, hmem, heq⟩ := List.mem_map.mp hx
    obtain ⟨rfl, rfl⟩ := Prod.mk.inj heq
    obtain ⟨⟨id', cs'⟩, hmem', heq'⟩ := List.mem_map.mp hy
    obtain ⟨rfl, rfl⟩ := Prod.mk.inj heq'
    rw [Dict.mem_entries_iff] at hmem hmem'
    obtain rfl := Option.some.inj (hother.symm.trans hmem)
    obtain rfl := Option.some.inj (hq.symm.trans hmem')
    exact weight_fresh_lt hself' hnever hsame
  · intro w hw
    have hfloor (s : State F) (q : Text) (cs : List Text) : 1 / 20 ≤ weight s q cs :=
      le_max_right _ _
    simp only [List.mem_append, List.mem_map] at hw
    obtain (⟨question, -, rfl⟩ | ⟨question, -, rfl⟩) | ⟨question, -, rfl⟩ := hw
    · exact hfloor _ _ _
    · exact hfloor _ _ _
    · exact hfloor _ _ _

/-- Three questions that share a concept; the first was answered right, the second wrong, and the
third never. -/
def sampleTable : Dict Text (List Text) :=
  .ofPairs [(ascii "q1", [ascii "sockets"]), (ascii "q2", [ascii "json", ascii "sockets"]),
    (ascii "q3", [ascii "sockets"])]

def sampleAnswered : Ledger :=
  (Ledger.empty.recordInterview (fun _ => []) (ascii "q1") true [ascii "sockets"]).recordInterview
    (fun _ => []) (ascii "q2") false [ascii "json", ascii "sockets"]

theorem interview_weights_move_sample :
    ∃ right missed before afterRight afterMiss,
      recordInterview (fun _ => []) (sampleAnswered.state : State Empty) (ascii "q1") true
        [ascii "sockets"] = .ok right ∧
      recordInterview (fun _ => []) (sampleAnswered.state : State Empty) (ascii "q1") false
        [ascii "sockets"] = .ok missed ∧
      interviewWeights (sampleAnswered.state : State Empty) sampleTable.entries = .ok before ∧
      interviewWeights right sampleTable.entries = .ok afterRight ∧
      interviewWeights missed sampleTable.entries = .ok afterMiss ∧
      (∀ table ∈ [before, afterRight, afterMiss],
        table.map Prod.fst = [ascii "q1", ascii "q2", ascii "q3"]) ∧
      List.Forall₂ (fun w w' => w'.1 = w.1 ∧ w'.2 ≤ w.2) before afterRight ∧
      List.Forall₂ (fun w w' => w'.1 = w.1 ∧ w.2 ≤ w'.2) before afterMiss ∧
      (∀ x y, (ascii "q3", x) ∈ afterMiss → (ascii "q1", y) ∈ afterMiss → x < y) ∧
      ∀ w ∈ before ++ afterRight ++ afterMiss, 1 / 20 ≤ w.2 := by
  have hq : sampleTable.get? (ascii "q1") = some [ascii "sockets"] := by decide
  have hfresh : sampleTable.get? (ascii "q3") = some [ascii "sockets"] := by decide
  obtain ⟨right, missed, before, afterRight, afterMiss, hright, hmissed, hbefore, hafterRight,
      hafterMiss, hkeys, hfall, hrise, hstrict, hfloor⟩ :=
    interview_weights_move (fun _ => []) (sampleAnswered.state_counted (F := Empty)) sampleTable hq
  have hnever : NeverAnswered missed (ascii "q3") := by
    have hhistory : (recordInterview (fun _ => []) (sampleAnswered.state : State Empty)
        (ascii "q1") false [ascii "sockets"]).map (historyOf · (ascii "q3")) = .ok (0, 0, 0) := by
      decide +kernel
    rw [hmissed] at hhistory
    have hzero : historyOf missed (ascii "q3") = (0, 0, 0) := Except.ok.inj hhistory
    rw [NeverAnswered, hzero]
    exact ⟨rfl, rfl⟩
  exact ⟨right, missed, before, afterRight, afterMiss, hright, hmissed, hbefore, hafterRight,
    hafterMiss, hkeys, hfall, hrise,
    fun x y hx hy => hstrict _ _ x y hfresh (.refl _) hnever hx hy, hfloor⟩

end Learning
