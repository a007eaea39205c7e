import FlightTestLab.Python.Syntax

/-!
# The requirement marker of a test

The `must_mark_function` part of `source_check`: the test functions that match a pattern,
the names of the functions that carry the marker, and the decorators of each.

## Main definitions

- `Checks.Function`: a function definition as the check sees it
- `Checks.markedFunctions`: the names of the functions that carry the marker
- `Checks.mustMarkFunction`: the failures this part adds

## Main results

- `Checks.mustMarkFunction_eq_nil_iff`: when it adds none
-/

namespace Checks

open Json (Text ascii)
open Python.Syntax (Node Inside walk)

/-- A `FunctionDef` or `AsyncFunctionDef`, as far as the marks go. -/
structure Function where
  name : Text
  decoratorList : List Node

def function? : Node → Option Function
  | .functionDef _ name _ _ _ _ decoratorList _ => some ⟨name, decoratorList⟩
  | _ => none

/-- `_decorator_names` -/
def decoratorNames (function : Function) : List Text :=
  function.decoratorList.flatMap fun decorator => (walk decorator).filterMap Node.identifier?

def isRequirementCall (requirement : Text) : Node → Bool
  | .call (.attribute (.attribute _ mark) attr) args _ =>
    attr = ascii "requirement" && mark = ascii "mark" && args.any fun argument =>
      match argument with
      | .constant (.str value) => value = requirement
      | _ => false
  | _ => false

/-- The functions of a module, nested ones included. -/
def functions (tree : Node) : List Function := (walk tree).filterMap function?

/-- `_marked_functions` -/
def markedFunctions (tree : Node) (requirement : Text) : List Text :=
  ((functions tree).filter fun function =>
    function.decoratorList.any fun decorator =>
      (walk decorator).any (isRequirementCall requirement)).map Function.name

/-- The argument of `must_mark_function`; the pattern is what `re.search` makes of it. -/
structure MarkerSpec where
  requirement : Text
  search : Text → Bool
  alsoDecoratedWith : List Text

inductive MarkFailure
  | doesNotParse
  | definesNone
  /-- No single function has it all; the names are printed in order. -/
  | onNoSingleFunction (found marked : List Text)
  deriving DecidableEq, Repr

def MarkerSpec.candidate (spec : MarkerSpec) (function : Function) : Bool :=
  (ascii "test_").isPrefixOf function.name && spec.search function.name

def candidates (spec : MarkerSpec) (tree : Node) : List Function :=
  (functions tree).filter spec.candidate

def satisfied (spec : MarkerSpec) (tree : Node) : List Function :=
  let marked := markedFunctions tree spec.requirement
  (candidates spec tree).filter fun function =>
    marked.contains function.name &&
      spec.alsoDecoratedWith.all fun mark => (decoratorNames function).contains mark

/-- The failures of a module that parses. -/
def markFailures (spec : MarkerSpec) (tree : Node) : List MarkFailure :=
  if (satisfied spec tree).isEmpty then
    if (candidates spec tree).isEmpty then [.definesNone]
    else [.onNoSingleFunction ((candidates spec tree).map Function.name)
      (markedFunctions tree spec.requirement)]
  else []

/-- The failures that `must_mark_function` adds, given what `ast.parse` makes of the text. -/
def mustMarkFunction (parse : Text → Option Node) (spec : MarkerSpec) (text : Text) :
    List MarkFailure :=
  if text.isEmpty then []
  else
    match parse text with
    | none => [.doesNotParse]
    | some tree => markFailures spec tree

section Spec

variable {spec : MarkerSpec} {tree : Node} {function : Function}

/-- A function definition of a module, at any depth. -/
def Defines (tree : Node) (function : Function) : Prop :=
  ∃ node, Inside tree node ∧ function? node = some function

/-- A test whose name matches. -/
def Matches (spec : MarkerSpec) (function : Function) : Prop :=
  ascii "test_" <+: function.name ∧ spec.search function.name = true

/-- A call `X.mark.requirement(...)` with the requirement among its positional arguments. -/
def IsRequirementCall (requirement : Text) (node : Node) : Prop :=
  ∃ value args keywords,
    node = .call (.attribute (.attribute value (ascii "mark")) (ascii "requirement")) args keywords ∧
    .constant (.str requirement) ∈ args

/-- Its own decorators contain the marker. -/
def Carries (requirement : Text) (function : Function) : Prop :=
  ∃ decorator ∈ function.decoratorList, ∃ node, Inside decorator node ∧
    IsRequirementCall requirement node

/-- Its own decorators mention a name. -/
def Mentions (mark : Text) (function : Function) : Prop :=
  ∃ decorator ∈ function.decoratorList, ∃ node, Inside decorator node ∧
    node.identifier? = some mark

/-- A test that matches and mentions the extra names. -/
def Fits (spec : MarkerSpec) (function : Function) : Prop :=
  Matches spec function ∧ ∀ mark ∈ spec.alsoDecoratedWith, Mentions mark function

/-- One definition meets every condition. -/
def Single (spec : MarkerSpec) (tree : Node) : Prop :=
  ∃ function, Defines tree function ∧ Fits spec function ∧ Carries spec.requirement function

theorem mem_functions_iff : function ∈ functions tree ↔ Defines tree function := by
  rw [functions, List.mem_filterMap]
  simp only [Python.Syntax.mem_walk_iff]
  rfl

theorem isRequirementCall_iff {requirement : Text} {node : Node} :
    isRequirementCall requirement node = true ↔ IsRequirementCall requirement node := by
  constructor
  · intro h
    rw [isRequirementCall.eq_def] at h
    split at h
    · rename_i value mark attr args keywords
      simp only [Bool.and_eq_true, decide_eq_true_eq, List.any_eq_true] at h
      obtain ⟨⟨rfl, rfl⟩, argument, hmem, harg⟩ := h
      split at harg
      · obtain rfl := of_decide_eq_true harg
        exact ⟨value, args, keywords, rfl, hmem⟩
      · cases harg
    · cases h
  · rintro ⟨value, args, keywords, rfl, hmem⟩
    have hany : (args.any fun argument =>
        match argument with
        | .constant (.str value) => value = requirement
        | _ => false) = true :=
      List.any_eq_true.mpr ⟨_, hmem, decide_eq_true rfl⟩
    simp only [isRequirementCall, decide_true, Bool.true_and]
    exact hany

theorem mem_decoratorNames_iff {mark : Text} :
    mark ∈ decoratorNames function ↔ Mentions mark function := by
  rw [decoratorNames, List.mem_flatMap]
  simp only [List.mem_filterMap, Python.Syntax.mem_walk_iff]
  rfl

theorem mem_markedFunctions_iff {requirement name : Text} :
    name ∈ markedFunctions tree requirement ↔
      ∃ function, Defines tree function ∧ Carries requirement function ∧
        function.name = name := by
  rw [markedFunctions, List.mem_map]
  simp only [List.mem_filter, mem_functions_iff, List.any_eq_true, Python.Syntax.mem_walk_iff,
    isRequirementCall_iff, and_assoc]
  rfl

theorem candidate_iff : spec.candidate function = true ↔ Matches spec function := by
  rw [MarkerSpec.candidate, Bool.and_eq_true, List.isPrefixOf_iff_prefix]
  rfl

theorem mem_satisfied_iff :
    function ∈ satisfied spec tree ↔
      Defines tree function ∧ Fits spec function ∧
        ∃ other, Defines tree other ∧ Carries spec.requirement other ∧
          other.name = function.name := by
  rw [satisfied, candidates]
  simp only [List.mem_filter, mem_functions_iff, candidate_iff, Bool.and_eq_true,
    List.contains_iff_mem, List.all_eq_true, mem_markedFunctions_iff, mem_decoratorNames_iff,
    Fits]
  constructor
  · rintro ⟨⟨hdef, hmatch⟩, hmarked, hmentions⟩
    exact ⟨hdef, ⟨hmatch, hmentions⟩, hmarked⟩
  · rintro ⟨hdef, ⟨hmatch, hmentions⟩, hmarked⟩
    exact ⟨⟨hdef, hmatch⟩, hmarked, hmentions⟩

/-- The part adds no failure when a definition that fits has the name of one that carries
the marker. -/
theorem markFailures_eq_nil_iff :
    markFailures spec tree = [] ↔
      ∃ function, Defines tree function ∧ Fits spec function ∧
        ∃ other, Defines tree other ∧ Carries spec.requirement other ∧
          other.name = function.name := by
  simp only [← mem_satisfied_iff]
  rw [markFailures]
  cases hs : satisfied spec tree with
  | nil =>
    have hno : ¬ ∃ function : Function, function ∈ ([] : List Function) := by simp
    rw [List.isEmpty_nil, if_pos rfl, iff_false_right hno]
    split
    · exact List.cons_ne_nil _ _
    · exact List.cons_ne_nil _ _
  | cons function rest =>
    rw [List.isEmpty_cons]
    exact iff_of_true rfl ⟨function, List.mem_cons_self⟩

/-- An empty module defines nothing. -/
theorem not_single_empty : ¬ Single spec (.other []) := by
  rintro ⟨function, ⟨node, hinside, hfunction⟩, -⟩
  obtain rfl | ⟨child, hchild, -⟩ := Python.Syntax.inside_iff.mp hinside
  · cases hfunction
  · cases hchild

theorem Single.markFailures (h : Single spec tree) : markFailures spec tree = [] := by
  obtain ⟨function, hdef, hfits, hcarries⟩ := h
  exact markFailures_eq_nil_iff.mpr ⟨function, hdef, hfits, function, hdef, hcarries, rfl⟩

/-- No definition lends its marker to another of the same name: where one that fits shares
its name with one that carries the marker, one definition meets every condition. -/
def LendsNothing (spec : MarkerSpec) (tree : Node) : Prop :=
  ∀ function other, Defines tree function → Fits spec function → Defines tree other →
    Carries spec.requirement other → other.name = function.name → Single spec tree

theorem LendsNothing.of_distinct
    (h : ∀ function other, Defines tree function → Defines tree other →
      other.name = function.name → other = function) : LendsNothing spec tree := by
  intro function other hfunction hfits hother hcarries hname
  obtain rfl := h function other hfunction hother hname
  exact ⟨other, hother, hfits, hcarries⟩

end Spec

/-- On a text that parses, the part adds no failure for exactly the modules with a single
function that meets every condition, unless the text is empty or a definition lends its
marker to another of its name. -/
theorem mustMarkFunction_iff {parse : Text → Option Node}
    (hempty : ∀ tree, parse [] = some tree → tree = .other []) (spec : MarkerSpec)
    {text : Text} {tree : Node} (hparse : parse text = some tree) :
    (mustMarkFunction parse spec text = [] ↔ Single spec tree) ↔
      text ≠ [] ∧ LendsNothing spec tree := by
  rw [mustMarkFunction]
  cases text with
  | nil =>
    obtain rfl := hempty tree hparse
    rw [List.isEmpty_nil, if_pos rfl, eq_self, true_iff]
    exact iff_of_false not_single_empty fun h => h.1 rfl
  | cons c text =>
    rw [List.isEmpty_cons, hparse]
    show (markFailures spec tree = [] ↔ Single spec tree) ↔ _
    constructor
    · intro h
      refine ⟨List.cons_ne_nil _ _, ?_⟩
      intro function other hfunction hfits hother hcarries hname
      apply h.mp
      exact markFailures_eq_nil_iff.mpr ⟨function, hfunction, hfits, other, hother, hcarries, hname⟩
    · rintro ⟨-, hlends⟩
      constructor
      · intro hnil
        obtain ⟨function, hfunction, hfits, other, hother, hcarries, hname⟩ :=
          markFailures_eq_nil_iff.mp hnil
        exact hlends function other hfunction hfits hother hcarries hname
      · exact Single.markFailures

section Sample

open Python.Syntax (branching)
open Walk (Branching)

/-- `pytest.mark.<attr>(...)` -/
def sampleMark (attr : Text) (argument : Text) : Node :=
  .call (.attribute (.attribute (.name (ascii "pytest") 1) (ascii "mark")) attr)
    [.constant (.str argument)] []

/-- A definition of `test_a`. -/
def sampleTest (decorators : List Node) : Node :=
  .functionDef false (ascii "test_a") [] [] [] [] decorators []

def sampleSpec : MarkerSpec where
  requirement := ascii "REQ-1"
  search := fun _ => true
  alsoDecoratedWith := [ascii "parametrize"]

def lenderText : Text := ascii "@pytest.mark." ++ ascii "requirement('REQ-1')\n"

def borrowerText : Text := ascii "@pytest.mark." ++ ascii "parametrize('x')\n"

def testText : Text := ascii "def test_a(): pass\n"

def sampleText : Text := lenderText ++ testText ++ borrowerText ++ testText

/-- The same decorators on one function. -/
def singleText : Text := lenderText ++ borrowerText ++ testText

def lender : Node := sampleMark (ascii "requirement") (ascii "REQ-1")

def borrower : Node := sampleMark (ascii "parametrize") (ascii "x")

/-- The module of the sample text. -/
def sampleModule : Node := .other [sampleTest [lender], sampleTest [borrower]]

def singleModule : Node := .other [sampleTest [lender, borrower]]

/-- `ast.parse` on the sample texts and on the empty one. -/
def sampleParse (text : Text) : Option Node :=
  if text = sampleText then some sampleModule
  else if text = singleText then some singleModule
  else if text = [] then some (.other []) else none

theorem sampleParse_nil (tree : Node) (h : sampleParse [] = some tree) : tree = .other [] := by
  rw [sampleParse, if_neg (by decide), if_neg (by decide), if_pos rfl] at h
  exact (Option.some.inj h).symm

theorem sampleParse_text : sampleParse sampleText = some sampleModule := if_pos rfl

theorem sampleParse_single : sampleParse singleText = some singleModule := by
  rw [sampleParse, if_neg (by decide), if_pos rfl]

theorem walk_sampleMark (attr argument : Text) :
    walk (sampleMark attr argument) =
      [sampleMark attr argument,
        .attribute (.attribute (.name (ascii "pytest") 1) (ascii "mark")) attr,
        .constant (.str argument), .attribute (.name (ascii "pytest") 1) (ascii "mark"),
        .name (ascii "pytest") 1] := by
  simp [walk, Branching.walk, branching, Node.iterChildNodes, sampleMark]

theorem functions_sampleModule :
    functions sampleModule = [⟨ascii "test_a", [lender]⟩, ⟨ascii "test_a", [borrower]⟩] := by
  simp [functions, walk, Branching.walk, branching, sampleModule, sampleTest,
    Node.iterChildNodes, lender, borrower, sampleMark, function?, List.filterMap_cons]

theorem carries_lender {decorators : List Node} (h : lender ∈ decorators) :
    Carries (ascii "REQ-1") ⟨ascii "test_a", decorators⟩ :=
  ⟨lender, h, lender, Python.Syntax.inside_iff.mpr (Or.inl rfl),
    _, _, _, rfl, List.mem_cons_self⟩

theorem fits_borrower {decorators : List Node} (h : borrower ∈ decorators) :
    Fits sampleSpec ⟨ascii "test_a", decorators⟩ := by
  have hmatches : ascii "test_" <+: ascii "test_a" := by decide
  refine ⟨⟨hmatches, rfl⟩, fun mark hmark => ?_⟩
  obtain rfl := List.mem_singleton.mp hmark
  rw [← mem_decoratorNames_iff, decoratorNames, List.mem_flatMap]
  refine ⟨borrower, h, ?_⟩
  rw [borrower, walk_sampleMark]
  decide

/-- The two definitions differ; the one function of the other module meets every condition. -/
theorem mustMarkFunction_iff_sample :
    ((mustMarkFunction sampleParse sampleSpec sampleText = [] ↔ Single sampleSpec sampleModule) ↔
      sampleText ≠ [] ∧ LendsNothing sampleSpec sampleModule) ∧
    mustMarkFunction sampleParse sampleSpec singleText = [] := by
  refine ⟨mustMarkFunction_iff sampleParse_nil sampleSpec sampleParse_text, ?_⟩
  have hfunctions : functions singleModule = [⟨ascii "test_a", [lender, borrower]⟩] := by
    simp [functions, walk, Branching.walk, branching, singleModule, sampleTest,
      Node.iterChildNodes, lender, borrower, sampleMark, function?, List.filterMap_cons]
  have hdefines (function : Function) : Defines singleModule function ↔
      function = ⟨ascii "test_a", [lender, borrower]⟩ := by
    rw [← mem_functions_iff, hfunctions, List.mem_singleton]
  have hdistinct : LendsNothing sampleSpec singleModule :=
    .of_distinct fun function other hfunction hother _ =>
      ((hdefines other).mp hother).trans ((hdefines function).mp hfunction).symm
  refine ((mustMarkFunction_iff sampleParse_nil sampleSpec sampleParse_single).mpr
    ⟨by decide, hdistinct⟩).mpr ?_
  exact ⟨_, (hdefines _).mpr rfl, fits_borrower (List.mem_cons_of_mem _ List.mem_cons_self),
    carries_lender List.mem_cons_self⟩

theorem not_carries_borrower : ¬ Carries (ascii "REQ-1") ⟨ascii "test_a", [borrower]⟩ := by
  rintro ⟨decorator, hmem, node, hinside, hcall⟩
  obtain rfl := List.mem_singleton.mp hmem
  rw [← Python.Syntax.mem_walk_iff, borrower, walk_sampleMark] at hinside
  rw [← isRequirementCall_iff] at hcall
  have hnone : [sampleMark (ascii "parametrize") (ascii "x"),
      .attribute (.attribute (.name (ascii "pytest") 1) (ascii "mark")) (ascii "parametrize"),
      .constant (.str (ascii "x")), .attribute (.name (ascii "pytest") 1) (ascii "mark"),
      .name (ascii "pytest") 1].any (isRequirementCall (ascii "REQ-1")) = false := by decide
  rw [List.any_eq_false] at hnone
  exact hnone node hinside hcall

theorem mentions_iff (attr argument : Text) (mark : Text) :
    Mentions mark ⟨ascii "test_a", [sampleMark attr argument]⟩ ↔
      mark ∈ [attr, ascii "mark", ascii "pytest"] := by
  rw [← mem_decoratorNames_iff, decoratorNames, List.flatMap_singleton, walk_sampleMark]
  rfl

/-- One `test_a` carries the marker and another is parametrized. -/
theorem marker_lent :
    ¬ (mustMarkFunction sampleParse sampleSpec sampleText = [] ↔
      Single sampleSpec sampleModule) := by
  have hdefines (function : Function) : Defines sampleModule function ↔
      function = ⟨ascii "test_a", [lender]⟩ ∨ function = ⟨ascii "test_a", [borrower]⟩ := by
    rw [← mem_functions_iff, functions_sampleModule, List.mem_pair]
  have hfits : Fits sampleSpec ⟨ascii "test_a", [borrower]⟩ := fits_borrower List.mem_cons_self
  have hnil : mustMarkFunction sampleParse sampleSpec sampleText = [] := by
    show markFailures sampleSpec sampleModule = []
    exact markFailures_eq_nil_iff.mpr ⟨_, (hdefines _).mpr (Or.inr rfl), hfits,
      _, (hdefines _).mpr (Or.inl rfl), carries_lender List.mem_cons_self, rfl⟩
  intro hiff
  obtain ⟨function, hdef, ⟨-, hmentions⟩, hcarries⟩ := hiff.mp hnil
  obtain rfl | rfl := (hdefines function).mp hdef
  · have hmem := (mentions_iff _ _ _).mp (hmentions (ascii "parametrize") List.mem_cons_self)
    revert hmem
    decide
  · exact not_carries_borrower hcarries

end Sample

end Checks
