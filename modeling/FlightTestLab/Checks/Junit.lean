import Mathlib.Data.Finset.Basic
import Mathlib.Data.List.Infix
import FlightTestLab.Library.Json.Strings
import FlightTestLab.Library.Walk

/-!
# The JUnit evidence of a test run

What `pytest_check` makes of the report: `_junit_test_names` reduces the test cases to
three sets of names, and the run is judged by those.

## Main definitions

- `Checks.Junit.Element`: an element of the report
- `Checks.Junit.testNames`: the names of all, of the skipped and of the failed test cases
- `Checks.Junit.judge`: what is reported for one expected name
- `Checks.Junit.failures`: all failures of a run

## Main results

- `Checks.Junit.judge_eq_none_iff`, `Checks.Junit.judge_skipped_iff`: when it reports what
-/

namespace Checks.Junit

open Json (Text ascii)

/-- An element of an XML document; its text is not looked at. -/
inductive Element
  | mk (tag : Text) (attrib : List (Text × Text)) (children : List Element)

namespace Element

def tag : Element → Text
  | .mk tag _ _ => tag

def attrib : Element → List (Text × Text)
  | .mk _ attrib _ => attrib

def children : Element → List Element
  | .mk _ _ children => children

/-- `element.get(key)` -/
def get (key : Text) (e : Element) : Option Text := e.attrib.lookup key

/-- `element.find(tag) is not None` -/
def has (tag : Text) (e : Element) : Bool := e.children.any (·.tag = tag)

theorem sum_sizeOf_lt (e : Element) : (e.children.map sizeOf).sum < sizeOf e := by
  have hle (l : List Element) : (l.map sizeOf).sum ≤ sizeOf l := by
    induction l with
    | nil => exact Nat.zero_le _
    | cons a l ih =>
      rw [List.map_cons, List.sum_cons, List.cons.sizeOf_spec]
      omega
  obtain ⟨tag, attrib, children⟩ := e
  have hchildren := hle children
  rw [mk.sizeOf_spec]
  show (children.map sizeOf).sum < _
  omega

def branching : Walk.Branching Element where
  children := children
  sized := ⟨sizeOf, sum_sizeOf_lt⟩

/-- `element.iter(tag)` -/
def iter (tag : Text) (e : Element) : List Element := (branching.iter e).filter (·.tag = tag)

end Element

structure Names where
  all : Finset Text
  skipped : Finset Text
  failed : Finset Text

/-- One round of the loop over the test cases. -/
def Names.add (names : Names) (testcase : Element) : Names :=
  match testcase.get (ascii "name") with
  | none | some [] => names
  | some name =>
    { all := insert name names.all
      skipped := if testcase.has (ascii "skipped") then insert name names.skipped else names.skipped
      failed := if testcase.has (ascii "failure") then insert name names.failed else names.failed }

/-- `_junit_test_names`, on the root of a report that exists and parses. -/
def testNames (report : Option Element) : Names :=
  match report with
  | none => ⟨∅, ∅, ∅⟩
  | some root => (root.iter (ascii "testcase")).foldl Names.add ⟨∅, ∅, ∅⟩

inductive Verdict
  /-- No test case matches. -/
  | missing
  | everySkipped
  /-- It errored and did not fail. -/
  | errored
  deriving DecidableEq, Repr

/-- The round of the `junit_contains` loop for one expected name. -/
def judge (names : Names) (requireFailureNotError : Bool) (expectedName : Text) :
    Option Verdict :=
  let matching := names.all.filter (expectedName <:+: ·)
  if matching = ∅ then some .missing
  else if ∀ name ∈ matching, name ∈ names.skipped then some .everySkipped
  else if requireFailureNotError ∧ ¬ ∃ name ∈ matching, name ∈ names.failed then some .errored
  else none

structure Args where
  expectFail : Bool
  /-- `junit_contains`; what is not a string is skipped. -/
  junitContains : List (Option Text)
  stdoutPatterns : List Text
  requireFailureNotError : Bool

inductive Failure
  | notFinished
  | expectedPass (exitStatus : Int)
  | expectedFail
  | evidence (expectedName : Text) (verdict : Verdict)
  | stdout (pattern : Text)
  deriving DecidableEq, Repr

/-- The failures of a run of pytest, given what `re.search` makes of a pattern. -/
def failures (search : Text → Text → Bool) (args : Args) (exitStatus : Int) (stdout : Text)
    (timedOut : Bool) (report : Option Element) : List Failure :=
  (if timedOut then [.notFinished]
    else if !args.expectFail && exitStatus != 0 then [.expectedPass exitStatus]
    else if args.expectFail && exitStatus == 0 then [.expectedFail]
    else []) ++
  (args.junitContains.filterMap fun expectedName? => do
    let expectedName ← expectedName?
    let verdict ← judge (testNames report) args.requireFailureNotError expectedName
    pure (.evidence expectedName verdict)) ++
  (args.stdoutPatterns.filter fun pattern => !search pattern stdout).map .stdout

/-- Whatever else fails, each expected name is judged by the report. -/
theorem evidence_mem_failures_iff {search : Text → Text → Bool} {args : Args} {exitStatus : Int}
    {stdout : Text} {timedOut : Bool} {report : Option Element} {expectedName : Text}
    {verdict : Verdict} :
    .evidence expectedName verdict ∈ failures search args exitStatus stdout timedOut report ↔
      some expectedName ∈ args.junitContains ∧
        judge (testNames report) args.requireFailureNotError expectedName = some verdict := by
  -- the first two lists hold failures of other kinds
  have hexit : Failure.evidence expectedName verdict ∉
      (if timedOut then [.notFinished]
        else if !args.expectFail && exitStatus != 0 then [.expectedPass exitStatus]
        else if args.expectFail && exitStatus == 0 then [.expectedFail]
        else []) := by
    split
    · simp
    · split
      · simp
      · split <;> simp
  have hstdout : Failure.evidence expectedName verdict ∉
      (args.stdoutPatterns.filter fun pattern => !search pattern stdout).map .stdout := by
    rw [List.mem_map]
    rintro ⟨pattern, -, heq⟩
    cases heq
  rw [failures, List.mem_append, List.mem_append, or_iff_right hexit, or_iff_left hstdout,
    List.mem_filterMap]
  constructor
  · rintro ⟨expectedName?, hmem, hevidence⟩
    cases expectedName? with
    | none => cases hevidence
    | some given =>
      cases hjudge : judge (testNames report) args.requireFailureNotError given with
      | none =>
        rw [Option.bind_eq_bind, Option.bind_some, hjudge] at hevidence
        cases hevidence
      | some found =>
        rw [Option.bind_eq_bind, Option.bind_some, hjudge] at hevidence
        cases hevidence
        exact ⟨hmem, hjudge⟩
  · rintro ⟨hmem, hjudge⟩
    refine ⟨some expectedName, hmem, ?_⟩
    rw [Option.bind_eq_bind, Option.bind_some, hjudge]
    rfl

section Sets

variable {report : Option Element} {name : Text}

/-- The test cases of a report. -/
def testcases (report : Option Element) : List Element :=
  report.elim [] (Element.iter (ascii "testcase"))

theorem testNames_eq (report : Option Element) :
    testNames report = (testcases report).foldl Names.add ⟨∅, ∅, ∅⟩ := by
  cases report with
  | none => rfl
  | some root => rfl

/-- A test case goes by a name that is not empty. -/
def Named (name : Text) (testcase : Element) : Prop :=
  name ≠ [] ∧ testcase.get (ascii "name") = some name

theorem mem_add_iff (name : Text) (names : Names) (testcase : Element) :
    (name ∈ (names.add testcase).all ↔ name ∈ names.all ∨ Named name testcase) ∧
    (name ∈ (names.add testcase).skipped ↔
      name ∈ names.skipped ∨ Named name testcase ∧ testcase.has (ascii "skipped") = true) ∧
    (name ∈ (names.add testcase).failed ↔
      name ∈ names.failed ∨ Named name testcase ∧ testcase.has (ascii "failure") = true) := by
  rw [Names.add, Named]
  cases hget : testcase.get (ascii "name") with
  | none => simp
  | some given =>
    cases given with
    | nil => simp
    | cons c given =>
      have hnamed : name ≠ [] ∧ some (c :: given) = some name ↔ name = c :: given := by
        rw [Option.some.injEq, eq_comm (a := c :: given)]
        refine and_iff_right_of_imp ?_
        rintro rfl
        exact List.cons_ne_nil c given
      rw [hnamed]
      dsimp only
      refine ⟨?_, ?_, ?_⟩
      · rw [Finset.mem_insert, or_comm]
      · cases testcase.has (ascii "skipped") with
        | true => rw [if_pos rfl, Finset.mem_insert, or_comm, and_iff_left rfl]
        | false => simp
      · cases testcase.has (ascii "failure") with
        | true => rw [if_pos rfl, Finset.mem_insert, or_comm, and_iff_left rfl]
        | false => simp

theorem mem_foldl_iff (names : Names) (testcases : List Element) :
    (name ∈ (testcases.foldl Names.add names).all ↔
      name ∈ names.all ∨ ∃ t ∈ testcases, Named name t) ∧
    (name ∈ (testcases.foldl Names.add names).skipped ↔
      name ∈ names.skipped ∨ ∃ t ∈ testcases, Named name t ∧ t.has (ascii "skipped") = true) ∧
    (name ∈ (testcases.foldl Names.add names).failed ↔
      name ∈ names.failed ∨ ∃ t ∈ testcases, Named name t ∧ t.has (ascii "failure") = true) := by
  induction testcases generalizing names with
  | nil => simp
  | cons t testcases ih =>
    obtain ⟨hall, hskipped, hfailed⟩ := ih (names.add t)
    obtain ⟨hall', hskipped', hfailed'⟩ := mem_add_iff name names t
    rw [List.foldl_cons, hall, hskipped, hfailed, hall', hskipped', hfailed']
    simp only [List.mem_cons, exists_eq_or_imp, or_assoc, and_self]

theorem mem_all_iff : name ∈ (testNames report).all ↔ ∃ t ∈ testcases report, Named name t := by
  rw [testNames_eq, (mem_foldl_iff _ _).1]
  simp

theorem mem_skipped_iff : name ∈ (testNames report).skipped ↔
    ∃ t ∈ testcases report, Named name t ∧ t.has (ascii "skipped") = true := by
  rw [testNames_eq, (mem_foldl_iff _ _).2.1]
  simp

theorem mem_failed_iff : name ∈ (testNames report).failed ↔
    ∃ t ∈ testcases report, Named name t ∧ t.has (ascii "failure") = true := by
  rw [testNames_eq, (mem_foldl_iff _ _).2.2]
  simp

end Sets

section Verdicts

variable {report : Option Element} {require : Bool} {expectedName : Text}

/-- The name of a test case contains the expected one. -/
def Matches (expectedName : Text) (testcase : Element) : Prop :=
  ∃ name, testcase.get (ascii "name") = some name ∧ expectedName <:+: name

/-- A matching test case has no `<skipped>` child. -/
def Ran (report : Option Element) (expectedName : Text) : Prop :=
  ∃ t ∈ testcases report, Matches expectedName t ∧ t.has (ascii "skipped") = false

/-- A matching test case has a `<failure>` child. -/
def Failed (report : Option Element) (expectedName : Text) : Prop :=
  ∃ t ∈ testcases report, Matches expectedName t ∧ t.has (ascii "failure") = true

/-- The verdict goes by the test cases, not by their names. -/
def PerCase (report : Option Element) (require : Bool) (expectedName : Text) : Prop :=
  (judge (testNames report) require expectedName = none ↔
    Ran report expectedName ∧ (require = true → Failed report expectedName)) ∧
  (judge (testNames report) require expectedName = some .everySkipped →
    ∀ t ∈ testcases report, Matches expectedName t → t.has (ascii "skipped") = true)

/-- Some test case with a name that is not empty matches. -/
def NamedMatch (report : Option Element) (expectedName : Text) : Prop :=
  ∃ name, expectedName <:+: name ∧ ∃ t ∈ testcases report, Named name t

/-- A name that is not empty matches, and no test case of that name was skipped. -/
def NamedRan (report : Option Element) (expectedName : Text) : Prop :=
  ∃ name, expectedName <:+: name ∧ (∃ t ∈ testcases report, Named name t) ∧
    ∀ t ∈ testcases report, Named name t → t.has (ascii "skipped") = false

/-- A test case with a name that is not empty matches and failed. -/
def NamedFailed (report : Option Element) (expectedName : Text) : Prop :=
  ∃ name, expectedName <:+: name ∧
    ∃ t ∈ testcases report, Named name t ∧ t.has (ascii "failure") = true

/-- The names that match the expected one. -/
def matching (report : Option Element) (expectedName : Text) : Finset Text :=
  (testNames report).all.filter (expectedName <:+: ·)

theorem mem_matching_iff {name : Text} :
    name ∈ matching report expectedName ↔
      (∃ t ∈ testcases report, Named name t) ∧ expectedName <:+: name := by
  rw [matching, Finset.mem_filter, mem_all_iff]

theorem matching_eq_empty_iff :
    matching report expectedName = ∅ ↔ ¬ NamedMatch report expectedName := by
  rw [Finset.eq_empty_iff_forall_notMem, NamedMatch]
  push Not
  refine forall_congr' fun name => ?_
  rw [mem_matching_iff]
  constructor
  · intro h hin t ht hnamed
    exact h ⟨⟨t, ht, hnamed⟩, hin⟩
  · rintro h ⟨⟨t, ht, hnamed⟩, hin⟩
    exact h hin t ht hnamed

theorem forall_skipped_iff :
    (∀ name ∈ matching report expectedName, name ∈ (testNames report).skipped) ↔
      ¬ NamedRan report expectedName := by
  rw [NamedRan, not_exists]
  refine forall_congr' fun name => ?_
  rw [mem_matching_iff, mem_skipped_iff]
  constructor
  · rintro h ⟨hin, hnamed, hran⟩
    obtain ⟨t, ht, ht', hskipped⟩ := h ⟨hnamed, hin⟩
    rw [hran t ht ht'] at hskipped
    cases hskipped
  · rintro h ⟨hnamed, hin⟩
    by_contra hno
    apply h
    refine ⟨hin, hnamed, ?_⟩
    intro t ht ht'
    rw [Bool.eq_false_iff]
    exact fun hskipped => hno ⟨t, ht, ht', hskipped⟩

theorem exists_failed_iff :
    (∃ name ∈ matching report expectedName, name ∈ (testNames report).failed) ↔
      NamedFailed report expectedName := by
  refine exists_congr fun name => ?_
  rw [mem_matching_iff, mem_failed_iff]
  constructor
  · rintro ⟨⟨-, hin⟩, hfailed⟩
    exact ⟨hin, hfailed⟩
  · rintro ⟨hin, t, ht, hnamed, hfailed⟩
    exact ⟨⟨⟨t, ht, hnamed⟩, hin⟩, t, ht, hnamed, hfailed⟩

theorem judge_eq (report : Option Element) (require : Bool) (expectedName : Text) :
    judge (testNames report) require expectedName =
      if matching report expectedName = ∅ then some .missing
      else if ∀ name ∈ matching report expectedName, name ∈ (testNames report).skipped then
        some .everySkipped
      else if require ∧ ¬ ∃ name ∈ matching report expectedName,
          name ∈ (testNames report).failed then some .errored
      else none := rfl

theorem NamedRan.namedMatch (h : NamedRan report expectedName) :
    NamedMatch report expectedName := by
  obtain ⟨name, hin, hnamed, -⟩ := h
  exact ⟨name, hin, hnamed⟩

theorem judge_eq_none_iff :
    judge (testNames report) require expectedName = none ↔
      NamedRan report expectedName ∧ (require = true → NamedFailed report expectedName) := by
  rw [judge_eq]
  by_cases hran : NamedRan report expectedName
  · rw [if_neg (mt matching_eq_empty_iff.mp (not_not.mpr hran.namedMatch)),
      if_neg (mt forall_skipped_iff.mp (not_not.mpr hran)), and_iff_right hran,
      ← exists_failed_iff, ite_eq_right_iff]
    simp
  · rw [if_pos (forall_skipped_iff.mpr hran)]
    split
    · simp [hran]
    · simp [hran]

theorem judge_skipped_iff :
    judge (testNames report) require expectedName = some .everySkipped ↔
      NamedMatch report expectedName ∧ ¬ NamedRan report expectedName := by
  rw [judge_eq]
  by_cases hmatch : NamedMatch report expectedName
  · rw [if_neg (mt matching_eq_empty_iff.mp (not_not.mpr hmatch))]
    by_cases hran : NamedRan report expectedName
    · rw [if_neg (mt forall_skipped_iff.mp (not_not.mpr hran))]
      split <;> simp [hran]
    · rw [if_pos (forall_skipped_iff.mpr hran)]
      simp [hmatch, hran]
  · rw [if_pos (matching_eq_empty_iff.mpr hmatch)]
    simp [hmatch]

theorem Named.matches {name : Text} {testcase : Element} (h : Named name testcase)
    (hin : expectedName <:+: name) : Matches expectedName testcase :=
  ⟨name, h.2, hin⟩

theorem NamedRan.ran (h : NamedRan report expectedName) : Ran report expectedName := by
  obtain ⟨name, hin, ⟨t, ht, hnamed⟩, hran⟩ := h
  exact ⟨t, ht, hnamed.matches hin, hran t ht hnamed⟩

theorem NamedFailed.failed (h : NamedFailed report expectedName) :
    Failed report expectedName := by
  obtain ⟨name, hin, t, ht, hnamed, hfailed⟩ := h
  exact ⟨t, ht, hnamed.matches hin, hfailed⟩

/-- A test case that matches a nonempty expected name has a name. -/
theorem Matches.named {testcase : Element} (h : Matches expectedName testcase)
    (hne : expectedName ≠ []) : ∃ name, expectedName <:+: name ∧ Named name testcase := by
  obtain ⟨name, hget, hin⟩ := h
  refine ⟨name, hin, ?_, hget⟩
  rintro rfl
  exact hne (List.infix_nil.mp hin)

theorem Failed.namedFailed (h : Failed report expectedName) (hne : expectedName ≠ []) :
    NamedFailed report expectedName := by
  obtain ⟨t, ht, hmatches, hfailed⟩ := h
  obtain ⟨name, hin, hnamed⟩ := hmatches.named hne
  exact ⟨name, hin, t, ht, hnamed, hfailed⟩

theorem Ran.namedMatch (h : Ran report expectedName) (hne : expectedName ≠ []) :
    NamedMatch report expectedName := by
  obtain ⟨t, ht, hmatches, -⟩ := h
  obtain ⟨name, hin, hnamed⟩ := hmatches.named hne
  exact ⟨name, hin, t, ht, hnamed⟩

end Verdicts

/-- When the names say what the test cases do: where a matching test case ran, some matching
name was never skipped and, if need be, some matching failure has a name; or all that
matches is without a name and lacks the failure asked for. -/
def Told (report : Option Element) (require : Bool) (expectedName : Text) : Prop :=
  Ran report expectedName →
    NamedRan report expectedName ∧
        (require = true → Failed report expectedName → NamedFailed report expectedName) ∨
      ¬ NamedMatch report expectedName ∧ require = true ∧ ¬ Failed report expectedName

/-- The verdict goes by the test cases exactly where the names say what these do; for an
expected name that is not empty, where none ran or a matching name was never skipped. -/
theorem perCase_iff (report : Option Element) (require : Bool) (expectedName : Text) :
    (PerCase report require expectedName ↔ Told report require expectedName) ∧
    (expectedName ≠ [] → (PerCase report require expectedName ↔
      (Ran report expectedName → NamedRan report expectedName))) := by
  have htold : PerCase report require expectedName ↔ Told report require expectedName := by
    rw [PerCase, Told, judge_eq_none_iff, judge_skipped_iff]
    constructor
    -- the verdict on skipped cases settles whether one that matches by name ran
    · rintro ⟨hnone, hskipped⟩ hran
      by_cases hmatch : NamedMatch report expectedName
      · have hnamed : NamedRan report expectedName := by
          by_contra hno
          obtain ⟨t, ht, hmatches, hrun⟩ := hran
          rw [hskipped ⟨hmatch, hno⟩ t ht hmatches] at hrun
          cases hrun
        refine Or.inl ⟨hnamed, ?_⟩
        intro hrequire hfailed
        exact (hnone.mpr ⟨hran, fun _ => hfailed⟩).2 hrequire
      · refine Or.inr ⟨hmatch, ?_⟩
        have hno : ¬ (require = true → Failed report expectedName) :=
          fun h => hmatch (hnone.mpr ⟨hran, h⟩).1.namedMatch
        rwa [Classical.not_imp] at hno
    · intro htold
      constructor
      · constructor
        · rintro ⟨hran, hfailed⟩
          exact ⟨hran.ran, fun hrequire => (hfailed hrequire).failed⟩
        · rintro ⟨hran, hfailed⟩
          obtain ⟨hnamed, hsame⟩ | ⟨-, hrequire, hno⟩ := htold hran
          · exact ⟨hnamed, fun hrequire => hsame hrequire (hfailed hrequire)⟩
          · exact absurd (hfailed hrequire) hno
      · rintro ⟨hmatch, hno⟩ t ht hmatches
        by_contra hrun
        have hran : Ran report expectedName := ⟨t, ht, hmatches, Bool.eq_false_iff.mpr hrun⟩
        obtain ⟨hnamed, -⟩ | ⟨hnomatch, -⟩ := htold hran
        · exact hno hnamed
        · exact hnomatch hmatch
  -- with a name that is not empty, who ran has a name to match
  refine ⟨htold, fun hne => ?_⟩
  rw [htold, Told]
  refine forall_congr' fun hran => ?_
  have hmatch := hran.namedMatch hne
  constructor
  · rintro (⟨hnamed, -⟩ | ⟨hno, -⟩)
    · exact hnamed
    · exact absurd hmatch hno
  · exact fun hnamed => Or.inl ⟨hnamed, fun _ hfailed => hfailed.namedFailed hne⟩

section Sample

def skippedCase : Element :=
  .mk (ascii "testcase") [(ascii "classname", ascii "test_one"), (ascii "name", ascii "test_a")]
    [.mk (ascii "skipped") [] []]

def passedCase : Element :=
  .mk (ascii "testcase") [(ascii "classname", ascii "test_two"), (ascii "name", ascii "test_a")] []

/-- Two files with a `test_a`: one was skipped, the other passed. -/
def sampleReport : Element := .mk (ascii "testsuite") [] [skippedCase, passedCase]

theorem testcases_sampleReport :
    testcases (some sampleReport) = [skippedCase, passedCase] := by
  have hiter : Element.branching.iter sampleReport =
      [sampleReport, skippedCase, .mk (ascii "skipped") [] [], passedCase] := by
    simp [Walk.Branching.iter_eq, Element.branching, sampleReport, Element.children, skippedCase,
      passedCase]
  show (Element.branching.iter sampleReport).filter _ = _
  rw [hiter]
  rfl

theorem ran_sampleReport : Ran (some sampleReport) (ascii "test_a") := by
  refine ⟨passedCase, ?_, ⟨ascii "test_a", rfl, List.infix_refl _⟩, rfl⟩
  rw [testcases_sampleReport]
  exact List.mem_cons_of_mem _ List.mem_cons_self

theorem not_namedRan_sampleReport : ¬ NamedRan (some sampleReport) (ascii "test_a") := by
  rintro ⟨name, -, ⟨t, ht, hnamed⟩, hran⟩
  rw [testcases_sampleReport] at ht hran
  have hname : name = ascii "test_a" := by
    obtain rfl | rfl := List.mem_pair.mp ht
    · exact (Option.some.inj hnamed.2).symm
    · exact (Option.some.inj hnamed.2).symm
  have hskipped := hran skippedCase List.mem_cons_self ⟨by rw [hname]; decide, by rw [hname]; rfl⟩
  cases hskipped

/-- The test that ran is reported as skipped. -/
theorem shared_name_skipped : ¬ PerCase (some sampleReport) false (ascii "test_a") := by
  intro h
  have hskipped : judge (testNames (some sampleReport)) false (ascii "test_a") =
      some .everySkipped :=
    judge_skipped_iff.mpr ⟨ran_sampleReport.namedMatch (by decide), not_namedRan_sampleReport⟩
  obtain ⟨t, ht, hmatches, hran⟩ := ran_sampleReport
  rw [h.2 hskipped t ht hmatches] at hran
  cases hran

end Sample

end Checks.Junit
