import FlightTestLab.Parity.Doubles

/-!
# Which request lines the two DUTs accept

Both sides repair the line, read the same grammar and apply the same digit bound. The
native parser counts every level it enters; the Python side measures the decoded
value, which no longer has the members that a later one of the same name overwrote.

## Main results

- `Parity.acceptance_agrees_iff`: the lines on which the two verdicts agree
- `Parity.overwritten_nesting_disagrees`: a line on which they differ
-/

namespace Parity

open Json (Text Tree Document DigitsFit ascii)
open Cpp (NativeDouble StrtodReads)
open Simulator (Interpreter decodeRequest)
open Utf8 (decodeReplace decodeReplace_lt)

variable {D F : Type}

/-- The scanner of `json` gives up only on documents that nest past the protocol limit. -/
def OverflowsDeep (I : Interpreter F) : Prop :=
  ∀ t, I.overflows t = true → Simulator.maxNestingDepth < t.depth

theorem decodeRequest_accepts_iff (I : Interpreter F) (line : List Nat) :
    (decodeRequest I (decodeReplace line)).2 = true ↔
      ∃ t, Document t (decodeReplace line) ∧ I.overflows t = false ∧
        DigitsFit Simulator.maxIntDigits t.intTokens ∧
        t.liveDepth ≤ Simulator.maxNestingDepth := by
  have hiff := Simulator.decodeRequest_eq_iff I (decodeReplace_lt line)
  constructor
  · intro h
    obtain ⟨t, hdoc, hov, hd, hl, -⟩ :=
      (hiff (decodeRequest I (decodeReplace line)).1).mp (Prod.ext rfl h)
    exact ⟨t, hdoc, hov, hd, hl⟩
  · rintro ⟨t, hdoc, hov, hd, hl⟩
    rw [(hiff (Simulator.valueOf I.floats t)).mpr ⟨t, hdoc, hov, hd, hl, rfl⟩]

theorem parse_accepts_iff {N : NativeDouble D} (hN : StrtodReads N) (line : List Nat) :
    (Cpp.parse N line).isSome ↔
      ∃ t, Document t (decodeReplace line) ∧ DigitsFit Cpp.kMaxIntDigits t.intTokens ∧
        t.depth ≤ Cpp.kMaxDepth := by
  rw [Option.isSome_iff_exists]
  constructor
  · rintro ⟨v, h⟩
    obtain ⟨t, hdoc, ⟨hle, hd⟩, -⟩ := (Cpp.parse_eq_some_iff hN line v).mp h
    exact ⟨t, hdoc, hd, by omega⟩
  · rintro ⟨t, hdoc, hd, hle⟩
    exact ⟨_, (Cpp.parse_eq_some_iff hN line _).mpr ⟨t, hdoc, ⟨by omega, hd⟩, rfl⟩⟩

/-- A document that only the Python side accepts: the limit is passed inside members that
later ones overwrite, and nothing else speaks against it. -/
def HidesNesting (I : Interpreter F) (t : Tree) : Prop :=
  I.overflows t = false ∧ DigitsFit Simulator.maxIntDigits t.intTokens ∧
    t.liveDepth ≤ Simulator.maxNestingDepth ∧ Simulator.maxNestingDepth < t.depth

/-- The verdicts agree on every line but those whose document hides nesting. -/
theorem acceptance_agrees_iff {N : NativeDouble D} (hN : StrtodReads N) {I : Interpreter F}
    (hI : OverflowsDeep I) (line : List Nat) :
    ((decodeRequest I (decodeReplace line)).2 = true ↔ (Cpp.parse N line).isSome) ↔
      ¬ ∃ t, Document t (decodeReplace line) ∧ HidesNesting I t := by
  rw [decodeRequest_accepts_iff, parse_accepts_iff hN]
  constructor
  · rintro h ⟨t, hdoc, hov, hd, hl, hdeep⟩
    obtain ⟨t', hdoc', -, hle⟩ := h.mp ⟨t, hdoc, hov, hd, hl⟩
    obtain rfl := hdoc.unique hdoc'
    exact absurd hle (Nat.not_le.mpr hdeep)
  · intro hno
    constructor
    · rintro ⟨t, hdoc, hov, hd, hl⟩
      refine ⟨t, hdoc, hd, ?_⟩
      by_contra hgt
      exact hno ⟨t, hdoc, hov, hd, hl, Nat.lt_of_not_le hgt⟩
    · rintro ⟨t, hdoc, hd, hle⟩
      have hov : I.overflows t = false := by
        rw [Bool.eq_false_iff]
        exact fun ho => absurd hle (Nat.not_le.mpr (hI t ho))
      exact ⟨t, hdoc, hov, hd, Nat.le_trans t.liveDepth_le_depth hle⟩

/-- An interpreter with the sample doubles whose scanner gives up at level 1000. -/
def sampleInterpreter : Interpreter Cpp.Sample where
  floats := Sample.floats
  overflows t := 1000 < t.depth

theorem sampleInterpreter_overflows_iff (t : Tree) :
    sampleInterpreter.overflows t = true ↔ 1000 < t.depth := decide_eq_true_iff

theorem sampleInterpreter_overflows : OverflowsDeep sampleInterpreter := by
  intro t ht
  exact Nat.lt_trans (by decide) ((sampleInterpreter_overflows_iff t).mp ht)

theorem acceptance_agrees_iff_sample :
    ((decodeRequest sampleInterpreter (decodeReplace (ascii "[1.5e3]"))).2 = true ↔
        (Cpp.parse Cpp.Sample.native (ascii "[1.5e3]")).isSome) ↔
      ¬ ∃ t, Document t (decodeReplace (ascii "[1.5e3]")) ∧ HidesNesting sampleInterpreter t :=
  acceptance_agrees_iff Sample.agree.strtodReads sampleInterpreter_overflows _

section Failing

/-- An array nested to the given level, around an empty one. -/
def nest : Nat → Tree
  | 0 => .arr []
  | n + 1 => .arr [nest n]

/-- The spelling of `nest`, before some rest. -/
def nestText : Nat → Text → Text
  | 0, r => 0x5B :: 0x5D :: r
  | n + 1, r => 0x5B :: nestText n (0x5D :: r)

theorem derives_nest (n : Nat) (r : Text) : Json.Derives (.value (nest n)) (nestText n r) r := by
  induction n generalizing r with
  | zero => exact .emptyArr .nil
  | succ n ih => exact .arr (.lastElement .nil (ih _) .nil)

theorem nest_limits (n : Nat) :
    (nest n).depth = n + 1 ∧ (nest n).intTokens = [] := by
  induction n with
  | zero => exact ⟨rfl, rfl⟩
  | succ n ih =>
    refine ⟨?_, ?_⟩
    · rw [nest, Tree.depth, Tree.depthElements, Tree.depthElements, ih.1]
      omega
    · rw [nest, Tree.intTokens, Tree.intTokensElements, ih.2]
      rfl

theorem nestText_bytes (n : Nat) (r : Text) :
    (nestText n r).length = 2 * (n + 1) + r.length ∧
      ∀ b ∈ nestText n r, b = 0x5B ∨ b = 0x5D ∨ b ∈ r := by
  induction n generalizing r with
  | zero => simp only [nestText, List.length_cons, List.mem_cons]; exact ⟨by omega, fun _ h => h⟩
  | succ n ih =>
    obtain ⟨hl, hb⟩ := ih (0x5D :: r)
    simp only [nestText, List.length_cons, List.mem_cons] at hl hb ⊢
    refine ⟨by omega, ?_⟩
    rintro b (rfl | h)
    · exact .inl rfl
    · have := hb b h
      tauto

/-- `{"a":[[...]],"a":1}` with the array nested past the limit. -/
def hiddenLine : List Nat := ascii "\x7b\"a\":" ++ nestText 100 (ascii ",\"a\":1\x7d")

def hiddenTree : Tree := .obj [([.raw 0x61], nest 100), ([.raw 0x61], .int [0x31])]

theorem document_hidden : Document hiddenTree hiddenLine := by
  refine ⟨hiddenLine, [], .nil, ?_, .nil⟩
  have hkey {r : Text} : Json.Items [.raw 0x61] (0x61 :: 0x22 :: r) r :=
    .raw (by omega) (by omega) (by omega) .close
  have htok : Json.IsIntToken [0x31] :=
    ⟨[], [0x31], rfl, .inl rfl, .inr ⟨⟨by simp, by decide⟩, by decide⟩⟩
  have hone : Json.Derives (.value (.int [0x31])) [0x31, 0x7D] [0x7D] := .int htok
  exact .obj (.member .nil hkey .nil .nil (derives_nest 100 _) .nil
    (.lastMember .nil hkey .nil .nil hone .nil))

theorem hiddenLine_bytes :
    (∀ b ∈ hiddenLine, b < 0x80 ∧ b ≠ 0x0A) ∧ hiddenLine.length ≤ 1048576 := by
  obtain ⟨hl, hb⟩ := nestText_bytes 100 (ascii ",\"a\":1\x7d")
  have hhead : ∀ b ∈ ascii "\x7b\"a\":", b < 0x80 ∧ b ≠ 0x0A := by decide
  have htail : ∀ b ∈ ascii ",\"a\":1\x7d", b < 0x80 ∧ b ≠ 0x0A := by decide
  have hlen : (ascii "\x7b\"a\":").length = 5 ∧ (ascii ",\"a\":1\x7d").length = 7 := by decide
  constructor
  · intro b h
    obtain h | h := List.mem_append.mp h
    · exact hhead b h
    · obtain rfl | rfl | h := hb b h
      · omega
      · omega
      · exact htail b h
  · rw [hiddenLine, List.length_append, hl]
    omega

theorem hiddenTree_depths : hiddenTree.depth = 102 ∧ hiddenTree.liveDepth = 2 := by
  constructor
  · rw [hiddenTree, Tree.depth, Tree.depthMembers, Tree.depthMembers, Tree.depthMembers,
      (nest_limits 100).1]
    rfl
  · rw [hiddenTree, Tree.liveDepth, Tree.liveDepthMembers, if_pos (by simp [Json.keys])]
    rfl

theorem hiddenTree_digits : DigitsFit 4300 hiddenTree.intTokens := by
  rw [hiddenTree, Tree.intTokens, Tree.intTokensMembers, (nest_limits 100).2]
  decide

/-- The line with the overwritten deep member is accepted by one side only. -/
theorem overwritten_nesting_disagrees :
    ¬ ∀ line : List Nat, (∀ b ∈ line, b < 0x100 ∧ b ≠ 0x0A) → line.length ≤ 1048576 →
      ((decodeRequest sampleInterpreter (decodeReplace line)).2 = true ↔
        (Cpp.parse Cpp.Sample.native line).isSome) := by
  intro h
  have hbytes := hiddenLine_bytes
  have hline : decodeReplace hiddenLine = hiddenLine :=
    Utf8.decodeReplace_ascii fun b hb => (hbytes.1 b hb).1
  obtain ⟨hdepth, hlive⟩ := hiddenTree_depths
  have hpython : (decodeRequest sampleInterpreter (decodeReplace hiddenLine)).2 = true := by
    rw [decodeRequest_accepts_iff, hline]
    refine ⟨hiddenTree, document_hidden, ?_, hiddenTree_digits, ?_⟩
    · rw [Bool.eq_false_iff, ne_eq, sampleInterpreter_overflows_iff, hdepth]
      decide
    · rw [hlive]
      decide
  have hcpp := (h hiddenLine (fun b hb => ⟨by have := (hbytes.1 b hb).1; omega, (hbytes.1 b hb).2⟩)
    hbytes.2).mp hpython
  obtain ⟨t, hdoc, -, hle⟩ := (parse_accepts_iff Sample.agree.strtodReads _).mp hcpp
  rw [hline] at hdoc
  obtain rfl := document_hidden.unique hdoc
  rw [hdepth] at hle
  exact absurd hle (by decide)

end Failing

end Parity
