import FlightTestLab.Checks.Locks

/-!
# Exclusive creation of the lock file

The `must_create_exclusively` part of `source_check`: the names that stand for the lock
file, and the calls that the check takes for its exclusive creation, beside the calls
that its documentation names.

## Main definitions

- `Checks.lockPathNames`: the names of the lock file
- `Checks.createsExclusively`: the test of one node
- `Checks.mustCreateExclusively`: the failures this part adds
- `Checks.Documented`: the documented forms
- `Checks.Overlooked`, `Checks.Mistaken`: where the test and the documentation part

## Main results

- `Checks.createsExclusively_iff`: the test accepts what it does not overlook
- `Checks.mustCreateExclusively_iff`: when the check decides by the documented forms
-/

namespace Checks

open Json (Text ascii)
open Python.Syntax (Node Inside walk)

section Names

/-- `_is_module_reference` -/
def isModuleReference : Node → Bool
  | .name id _ => id = ascii "os" || id = ascii "pathlib" || id = ascii "shutil"
  | _ => false

def isName : Node → Bool
  | .name .. => true
  | _ => false

/-- `_names_lock_path` -/
def namesLockPath (lockPaths : List Text) : Option Node → Bool
  | some (.attribute value attr) => lockPaths.contains attr && isName value
  | some (.name id _) => lockPaths.contains id
  | _ => false

/-- `"path" in text.lower()` -/
def mentionsPath (text : Text) : Bool := decide (ascii "path" <:+: text.map lowerChar)

/-- The `parameters` of an `__init__`. -/
def pathParameters (args : List (Text × Option Node)) : List Text :=
  (args.map Prod.fst).filter mentionsPath

def isNameAmong (names : List Text) : Node → Bool
  | .name id _ => names.contains id
  | _ => false

/-- The names that an assignment from a parameter adds. -/
def parameterTargets (parameters : List Text) : Node → List Text
  | .assign targets value =>
    if (walk value).any (isNameAmong parameters) then targets.filterMap Node.identifier? else []
  | _ => []

/-- The names that one node of the module adds. -/
def initNames (node : Node) : List Text :=
  match node with
  | .functionDef false name _ args _ _ _ _ =>
    if name = ascii "__init__" then
      let parameters := pathParameters args
      if parameters.isEmpty then []
      else parameters ++ (walk node).flatMap (parameterTargets parameters)
    else []
  | _ => []

def nameId? : Node → Option Text
  | .name id _ => some id
  | _ => none

/-- The locals that one node of the function adds. -/
def addAliases (names : List Text) : Node → List Text
  | .assign targets value =>
    if namesLockPath names (some value) then names ++ targets.filterMap nameId? else names
  | _ => names

/-- `_lock_path_names` -/
def lockPathNames (tree function : Node) : List Text :=
  (walk function).foldl addAliases ((walk tree).flatMap initNames)

end Names

section Calls

/-- The expression that has to name the lock: the receiver of a method, or the first argument. -/
def subject (func : Node) (args : List Node) : Option Node :=
  match func with
  | .attribute receiver attr =>
    if (attr = ascii "touch" || attr = ascii "mkdir" || attr = ascii "open") &&
        !isModuleReference receiver then some receiver
    else args.head?
  | _ => args.head?

def candidateKeyword? : Option Text × Node → Option Node
  | (some key, value) => if key = ascii "mode" || key = ascii "flags" then some value else none
  | (none, _) => none

/-- Where `O_EXCL` and the mode are looked for. -/
def candidateArguments (args : List Node) (keywords : List (Option Text × Node)) : List Node :=
  -- past the first argument, also when the path is the receiver
  args.drop 1 ++ keywords.filterMap candidateKeyword?

def mentionsExcl (argument : Node) : Bool :=
  (walk argument).any fun inner => inner.identifier? = some (ascii "O_EXCL")

def isExclusiveMode : Node → Bool
  | .constant (.str mode) => mode.contains 0x78
  | _ => false

/-- `exist_ok=True` or `exist_ok=False` -/
def isExistOk (value : Bool) : Option Text × Node → Bool
  | (some key, .constant (.bool b)) => key = ascii "exist_ok" && b == value
  | _ => false

/-- `_creates_exclusively` -/
def createsExclusively (lockPaths : List Text) : Node → Bool
  | .call func args keywords =>
    let name := func.identifier?.getD []
    -- never so for an empty set of names
    if namesLockPath lockPaths (subject func args) then
      if name = ascii "open" then
        (candidateArguments args keywords).any mentionsExcl ||
          (candidateArguments args keywords).any isExclusiveMode
      else if name = ascii "touch" then keywords.any (isExistOk false)
      else if name = ascii "mkdir" then !keywords.any (isExistOk true)
      else name = ascii "link" || name = ascii "symlink"
    else false
  | _ => false

def isFunctionNamed (name : Text) : Node → Bool
  | .functionDef _ name' _ _ _ _ _ _ => name' = name
  | _ => false

/-- `_function_named` -/
def functionNamed (tree : Node) (name : Text) : Option Node :=
  (walk tree).find? (isFunctionNamed name)

inductive CreateFailure
  | doesNotParse
  | doesNotDefine (name : Text)
  | neverCreates (name : Text)
  deriving DecidableEq, Repr

/-- The failures of a module that parses. -/
def createFailures (tree : Node) (name : Text) : List CreateFailure :=
  match functionNamed tree name with
  | none => [.doesNotDefine name]
  | some function =>
    if (walk function).any (createsExclusively (lockPathNames tree function)) then []
    else [.neverCreates name]

/-- The failures that `must_create_exclusively` adds, given what `ast.parse` makes of the text. -/
def mustCreateExclusively (parse : Text → Option Node) (name text : Text) : List CreateFailure :=
  if text.isEmpty then []
  else
    match parse text with
    | none => [.doesNotParse]
    | some tree => createFailures tree name

end Calls

section Spec

/-- An expression that the names of the lock file identify. -/
inductive NamesLock (names : List Text) : Node → Prop
  | ofAttribute {id attr : Text} {lineno : Nat} : attr ∈ names →
      NamesLock names (.attribute (.name id lineno) attr)
  | ofName {id : Text} {lineno : Nat} : id ∈ names → NamesLock names (.name id lineno)

/-- The lock file; any expression when nothing identifies it. -/
def IsLock (names : List Text) (lock : Node) : Prop := names = [] ∨ NamesLock names lock

/-- An argument that is given at a position or by keyword. -/
def Passed (position : Nat) (key : Text) (args : List Node) (keywords : List (Option Text × Node))
    (argument : Node) : Prop :=
  args[position]? = some argument ∨ (some key, argument) ∈ keywords

def MentionsExcl (argument : Node) : Prop :=
  ∃ inner, Inside argument inner ∧ inner.identifier? = some (ascii "O_EXCL")

def IsExclusiveMode (argument : Node) : Prop :=
  ∃ mode, argument = .constant (.str mode) ∧ 0x78 ∈ mode

/-- `exist_ok` is given as this constant. -/
def ExistOk (value : Bool) (keywords : List (Option Text × Node)) : Prop :=
  (some (ascii "exist_ok"), .constant (.bool value)) ∈ keywords

/-- The calls that create the lock file exclusively. -/
inductive Documented (names : List Text) : Node → Prop
  /-- `os.open(lock, flags)` -/
  | osOpen {lineno : Nat} {lock flags : Node} {args : List Node}
      {keywords : List (Option Text × Node)} : args[0]? = some lock → IsLock names lock →
      Passed 1 (ascii "flags") args keywords flags → MentionsExcl flags →
      Documented names (.call (.attribute (.name (ascii "os") lineno) (ascii "open")) args keywords)
  /-- `open(lock, mode)` -/
  | openMode {lineno : Nat} {lock mode : Node} {args : List Node}
      {keywords : List (Option Text × Node)} : args[0]? = some lock → IsLock names lock →
      Passed 1 (ascii "mode") args keywords mode → IsExclusiveMode mode →
      Documented names (.call (.name (ascii "open") lineno) args keywords)
  /-- `lock.open(mode)` -/
  | lockOpen {lock mode : Node} {args : List Node} {keywords : List (Option Text × Node)} :
      IsLock names lock → Passed 0 (ascii "mode") args keywords mode → IsExclusiveMode mode →
      Documented names (.call (.attribute lock (ascii "open")) args keywords)
  /-- `lock.touch(exist_ok=False)` -/
  | lockTouch {lock : Node} {args : List Node} {keywords : List (Option Text × Node)} :
      IsLock names lock → ExistOk false keywords →
      Documented names (.call (.attribute lock (ascii "touch")) args keywords)
  /-- `lock.mkdir()` -/
  | lockMkdir {lock : Node} {args : List Node} {keywords : List (Option Text × Node)} :
      IsLock names lock → ¬ ExistOk true keywords →
      Documented names (.call (.attribute lock (ascii "mkdir")) args keywords)
  /-- `os.mkdir(lock)` -/
  | osMkdir {lineno : Nat} {lock : Node} {args : List Node}
      {keywords : List (Option Text × Node)} : args[0]? = some lock → IsLock names lock →
      ¬ ExistOk true keywords →
      Documented names (.call (.attribute (.name (ascii "os") lineno) (ascii "mkdir")) args keywords)
  /-- `os.link(other, lock)` and `os.symlink(other, lock)` -/
  | osLink {lineno : Nat} {attr : Text} {lock : Node} {args : List Node}
      {keywords : List (Option Text × Node)} : attr ∈ [ascii "link", ascii "symlink"] →
      Passed 1 (ascii "dst") args keywords lock → IsLock names lock →
      Documented names (.call (.attribute (.name (ascii "os") lineno) attr) args keywords)

/-- A name of one of the modules. -/
def ModuleNamed (modules : List Text) (node : Node) : Prop :=
  ∃ id lineno, node = .name id lineno ∧ id ∈ modules

/-- The modules that are no paths. -/
def pathModules : List Text := [ascii "os", ascii "pathlib", ascii "shutil"]

/-- The first argument names the lock. -/
def FirstNamesLock (names : List Text) (args : List Node) : Prop :=
  ∃ first, args[0]? = some first ∧ NamesLock names first

/-- An argument that the test takes for an exclusive mode or flag. -/
def Exclusive (argument : Node) : Prop := MentionsExcl argument ∨ IsExclusiveMode argument

/-- The forms of a documented call that the test does not see. -/
inductive Overlooked (names : List Text) : Node → Prop
  /-- Nothing identifies the lock. -/
  | unidentified {call : Node} : names = [] → Overlooked names call
  /-- The mode of `lock.open(mode)` is the first argument. -/
  | firstMode {receiver : Node} {args : List Node} {keywords : List (Option Text × Node)} :
      ¬ ModuleNamed pathModules receiver →
      (∀ argument ∈ candidateArguments args keywords, ¬ Exclusive argument) →
      Overlooked names (.call (.attribute receiver (ascii "open")) args keywords)
  /-- The lock of `os.link(other, lock)` is not the first argument. -/
  | linked {receiver : Node} {attr : Text} {args : List Node}
      {keywords : List (Option Text × Node)} : attr ∈ [ascii "link", ascii "symlink"] →
      ¬ FirstNamesLock names args → Overlooked names (.call (.attribute receiver attr) args keywords)
  /-- The lock has the name of a module. -/
  | moduleName {receiver : Node} {attr : Text} {args : List Node}
      {keywords : List (Option Text × Node)} :
      attr ∈ [ascii "touch", ascii "mkdir", ascii "open"] → ModuleNamed pathModules receiver →
      ¬ FirstNamesLock names args → Overlooked names (.call (.attribute receiver attr) args keywords)

/-- A documented call that the test sees. -/
def Seen (names : List Text) (call : Node) : Prop := Documented names call ∧ ¬ Overlooked names call

/-- An argument that makes an opening call exclusive where it stands. -/
inductive Placed (args : List Node) (keywords : List (Option Text × Node)) (argument : Node) :
    Node → Prop
  | osOpen {lineno : Nat} : Passed 1 (ascii "flags") args keywords argument →
      MentionsExcl argument →
      Placed args keywords argument (.attribute (.name (ascii "os") lineno) (ascii "open"))
  | openMode {lineno : Nat} : Passed 1 (ascii "mode") args keywords argument →
      IsExclusiveMode argument → Placed args keywords argument (.name (ascii "open") lineno)
  | lockOpen {receiver : Node} : ¬ ModuleNamed pathModules receiver →
      Passed 0 (ascii "mode") args keywords argument → IsExclusiveMode argument →
      Placed args keywords argument (.attribute receiver (ascii "open"))

/-- A function, by itself or of one of the modules. -/
inductive Loose (modules : List Text) (name : Text) : Node → Prop
  | bare {lineno : Nat} : Loose modules name (.name name lineno)
  | ofModule {receiver : Node} : ModuleNamed modules receiver →
      Loose modules name (.attribute receiver name)

/-- The calls that the test takes for an exclusive creation by an argument out of place, or by
the name of the function alone. -/
inductive Mistaken (names : List Text) : Node → Prop
  /-- An exclusive mode or flag is not where the function takes it. -/
  | misplaced {func lock argument : Node} {args : List Node}
      {keywords : List (Option Text × Node)} : func.identifier? = some (ascii "open") →
      subject func args = some lock → NamesLock names lock →
      argument ∈ candidateArguments args keywords → Exclusive argument →
      ¬ Placed args keywords argument func → Mistaken names (.call func args keywords)
  /-- Some `touch(lock, exist_ok=False)` -/
  | touched {func : Node} {args : List Node} {keywords : List (Option Text × Node)} :
      Loose pathModules (ascii "touch") func → FirstNamesLock names args →
      ExistOk false keywords → Mistaken names (.call func args keywords)
  /-- Some `mkdir(lock)` -/
  | made {func : Node} {args : List Node} {keywords : List (Option Text × Node)} :
      Loose [ascii "pathlib", ascii "shutil"] (ascii "mkdir") func → FirstNamesLock names args →
      ¬ ExistOk true keywords → Mistaken names (.call func args keywords)
  /-- A link to or from the lock, or any function of that name -/
  | linked {func : Node} {name : Text} {args : List Node}
      {keywords : List (Option Text × Node)} : func.identifier? = some name →
      name ∈ [ascii "link", ascii "symlink"] → FirstNamesLock names args →
      Mistaken names (.call func args keywords)

/-- The first function of the name contains such a call, for the names of the lock file. -/
def Contains (tree : Node) (name : Text) (p : List Text → Node → Prop) : Prop :=
  ∃ function, functionNamed tree name = some function ∧
    ∃ call, Inside function call ∧ p (lockPathNames tree function) call

end Spec

section Tests

variable {names : List Text} {node : Node}

theorem namesLockPath_iff {expression : Option Node} :
    namesLockPath names expression = true ↔
      ∃ lock, expression = some lock ∧ NamesLock names lock := by
  constructor
  · intro h
    rw [namesLockPath.eq_def] at h
    split at h
    · next value attr =>
      rw [Bool.and_eq_true, List.contains_iff_mem] at h
      obtain ⟨hattr, hvalue⟩ := h
      cases value with
      | name id lineno => exact ⟨_, rfl, .ofAttribute hattr⟩
      | _ => cases hvalue
    · next id lineno => exact ⟨_, rfl, .ofName (List.contains_iff_mem.mp h)⟩
    · cases h
  · rintro ⟨lock, rfl, hlock⟩
    cases hlock with
    | ofAttribute hattr =>
      rw [namesLockPath, Bool.and_eq_true]
      exact ⟨List.contains_iff_mem.mpr hattr, rfl⟩
    | ofName hid => exact List.contains_iff_mem.mpr hid

theorem namesLockPath_head?_iff {args : List Node} :
    namesLockPath names args.head? = true ↔ FirstNamesLock names args := by
  rw [namesLockPath_iff, List.head?_eq_getElem?]
  rfl

theorem not_namesLock_nil : ¬ NamesLock [] node := by
  intro h
  cases h <;> simp_all

theorem isModuleReference_iff : isModuleReference node = true ↔ ModuleNamed pathModules node := by
  unfold ModuleNamed
  cases node with
  | name id lineno =>
    simp only [isModuleReference, pathModules, Bool.or_eq_true, decide_eq_true_eq, List.mem_cons,
      List.not_mem_nil, or_false, Node.name.injEq, or_assoc]
    constructor
    · intro h
      exact ⟨id, lineno, ⟨rfl, rfl⟩, h⟩
    · rintro ⟨_, _, ⟨rfl, rfl⟩, h⟩
      exact h
  | _ => simp [isModuleReference]

theorem moduleNamed_os (lineno : Nat) : ModuleNamed pathModules (.name (ascii "os") lineno) :=
  ⟨_, _, rfl, List.mem_cons_self⟩

theorem mentionsExcl_iff : mentionsExcl node = true ↔ MentionsExcl node := by
  rw [mentionsExcl, List.any_eq_true]
  simp only [Python.Syntax.mem_walk_iff, decide_eq_true_eq]
  rfl

theorem isExclusiveMode_iff : isExclusiveMode node = true ↔ IsExclusiveMode node := by
  constructor
  · intro h
    rw [isExclusiveMode.eq_def] at h
    split at h
    · next mode => exact ⟨mode, rfl, List.contains_iff_mem.mp h⟩
    · cases h
  · rintro ⟨mode, rfl, hmode⟩
    exact List.contains_iff_mem.mpr hmode

theorem any_isExistOk_iff {value : Bool} {keywords : List (Option Text × Node)} :
    keywords.any (isExistOk value) = true ↔ ExistOk value keywords := by
  have htest (keyword : Option Text × Node) : isExistOk value keyword = true ↔
      keyword = (some (ascii "exist_ok"), .constant (.bool value)) := by
    constructor
    · intro h
      rw [isExistOk.eq_def] at h
      split at h
      · next key b =>
        rw [Bool.and_eq_true, decide_eq_true_eq, beq_iff_eq] at h
        rw [h.1, h.2]
      · cases h
    · rintro rfl
      simp [isExistOk]
  rw [List.any_eq_true, ExistOk]
  simp only [htest, exists_eq_right]

theorem mem_candidateArguments {position : Nat} {key : Text} {args : List Node}
    {keywords : List (Option Text × Node)} {argument : Node}
    (h : Passed position key args keywords argument) (hposition : 1 ≤ position)
    (hkey : key ∈ [ascii "mode", ascii "flags"]) :
    argument ∈ candidateArguments args keywords := by
  rw [candidateArguments, List.mem_append]
  obtain h | h := h
  · left
    have hdrop : (args.drop 1)[position - 1]? = some argument := by
      rw [List.getElem?_drop, Nat.add_sub_cancel' hposition, h]
    exact List.mem_of_getElem? hdrop
  · right
    rw [List.mem_filterMap]
    refine ⟨_, h, if_pos ?_⟩
    simpa using hkey

end Tests

section Subjects

variable {receiver : Node} {attr : Text} {args : List Node}

theorem subject_of_module (h : ModuleNamed pathModules receiver) :
    subject (.attribute receiver attr) args = args.head? := by
  rw [subject, isModuleReference_iff.mpr h, Bool.not_true, Bool.and_false]
  rfl

theorem subject_method (hattr : attr ∈ [ascii "touch", ascii "mkdir", ascii "open"])
    (h : ¬ ModuleNamed pathModules receiver) :
    subject (.attribute receiver attr) args = some receiver := by
  have hmodule : isModuleReference receiver = false := by
    rw [← Bool.not_eq_true, isModuleReference_iff]
    exact h
  have hname : (attr = ascii "touch" || attr = ascii "mkdir" || attr = ascii "open") = true := by
    simpa [or_assoc] using hattr
  rw [subject, hmodule, hname]
  rfl

theorem subject_link {func : Node} {name : Text} (hname : func.identifier? = some name)
    (hlink : name ∈ [ascii "link", ascii "symlink"]) : subject func args = args.head? := by
  rw [subject.eq_def]
  split
  · next receiver attr =>
    obtain rfl : attr = name := Option.some.inj hname
    simp only [List.mem_cons, List.not_mem_nil, or_false] at hlink
    obtain rfl | rfl := hlink
    · rfl
    · rfl
  · rfl

end Subjects

section Creation

variable {names : List Text} {func : Node} {args : List Node}
  {keywords : List (Option Text × Node)}

theorem createsExclusively_open (hname : func.identifier? = some (ascii "open")) :
    createsExclusively names (.call func args keywords) = true ↔
      namesLockPath names (subject func args) = true ∧
        ∃ argument ∈ candidateArguments args keywords, Exclusive argument := by
  rw [createsExclusively, hname]
  dsimp only [Option.getD_some]
  rw [Bool.if_false_right, Bool.and_eq_true, decide_eq_true_eq, if_pos rfl, Bool.or_eq_true,
    List.any_eq_true, List.any_eq_true]
  simp only [mentionsExcl_iff, isExclusiveMode_iff, Exclusive, and_or_left, exists_or]

theorem createsExclusively_touch (hname : func.identifier? = some (ascii "touch")) :
    createsExclusively names (.call func args keywords) = true ↔
      namesLockPath names (subject func args) = true ∧ ExistOk false keywords := by
  rw [createsExclusively, hname]
  dsimp only [Option.getD_some]
  rw [Bool.if_false_right, Bool.and_eq_true, decide_eq_true_eq, if_neg (by decide), if_pos rfl,
    any_isExistOk_iff]

theorem createsExclusively_mkdir (hname : func.identifier? = some (ascii "mkdir")) :
    createsExclusively names (.call func args keywords) = true ↔
      namesLockPath names (subject func args) = true ∧ ¬ ExistOk true keywords := by
  rw [createsExclusively, hname]
  dsimp only [Option.getD_some]
  rw [Bool.if_false_right, Bool.and_eq_true, decide_eq_true_eq, if_neg (by decide),
    if_neg (by decide), if_pos rfl, Bool.not_eq_true', ← Bool.not_eq_true, any_isExistOk_iff]

theorem createsExclusively_link {name : Text} (hname : func.identifier? = some name)
    (hlink : name ∈ [ascii "link", ascii "symlink"]) :
    createsExclusively names (.call func args keywords) = true ↔
      namesLockPath names (subject func args) = true := by
  have hlast : (name = ascii "link" || name = ascii "symlink") = true := by simpa using hlink
  have hother : name ≠ ascii "open" ∧ name ≠ ascii "touch" ∧ name ≠ ascii "mkdir" := by
    simp only [List.mem_cons, List.not_mem_nil, or_false] at hlink
    obtain rfl | rfl := hlink
    · decide
    · decide
  rw [createsExclusively, hname]
  dsimp only [Option.getD_some]
  rw [Bool.if_false_right, Bool.and_eq_true, decide_eq_true_eq, if_neg hother.1,
    if_neg hother.2.1, if_neg hother.2.2, hlast, and_iff_left rfl]

/-- The test accepts nothing but calls of functions of these names. -/
theorem createsExclusively_name {call : Node} (h : createsExclusively names call = true) :
    ∃ func args keywords name, call = .call func args keywords ∧ func.identifier? = some name ∧
      name ∈ [ascii "open", ascii "touch", ascii "mkdir", ascii "link", ascii "symlink"] := by
  rw [createsExclusively.eq_def] at h
  split at h
  · next func args keywords =>
    dsimp only at h
    rw [Bool.if_false_right, Bool.and_eq_true] at h
    obtain ⟨-, h⟩ := h
    have hname : func.identifier?.getD [] ∈
        [ascii "open", ascii "touch", ascii "mkdir", ascii "link", ascii "symlink"] := by
      simp only [List.mem_cons, List.not_mem_nil, or_false]
      split_ifs at h with hopen htouch hmkdir
      · exact .inl hopen
      · exact .inr (.inl htouch)
      · exact .inr (.inr (.inl hmkdir))
      · rw [Bool.or_eq_true, decide_eq_true_eq, decide_eq_true_eq] at h
        exact .inr (.inr (.inr h))
    cases hid : func.identifier? with
    | none =>
      have hempty : ¬ ([] : Text) ∈
          [ascii "open", ascii "touch", ascii "mkdir", ascii "link", ascii "symlink"] := by decide
      rw [hid] at hname
      exact absurd hname hempty
    | some name =>
      rw [hid] at hname
      exact ⟨func, args, keywords, name, rfl, hid, hname⟩
  · cases h

/-- What is overlooked is not accepted. -/
theorem Overlooked.not_creates {call : Node} (h : Overlooked names call) :
    ¬ createsExclusively names call = true := by
  cases h with
  | unidentified hnames =>
    subst hnames
    intro hcreates
    obtain ⟨func, args, keywords, name, rfl, hid, hname⟩ := createsExclusively_name hcreates
    rw [createsExclusively] at hcreates
    split at hcreates
    · next hlock =>
      obtain ⟨lock, -, hlock⟩ := namesLockPath_iff.mp hlock
      exact not_namesLock_nil hlock
    · cases hcreates
  | firstMode hmodule hnone =>
    rw [createsExclusively_open rfl]
    rintro ⟨-, argument, hmem, hexclusive⟩
    exact hnone argument hmem hexclusive
  | linked hattr hfirst =>
    rw [createsExclusively_link rfl hattr, subject_link rfl hattr, namesLockPath_head?_iff]
    exact hfirst
  | @moduleName receiver attr args keywords hattr hmodule hfirst =>
    have hsubject : ¬ namesLockPath names (subject (.attribute receiver attr) args) = true := by
      rw [subject_of_module hmodule, namesLockPath_head?_iff]
      exact hfirst
    rw [createsExclusively, if_neg hsubject]
    exact Bool.false_ne_true

theorem IsLock.namesLock {lock : Node} (h : IsLock names lock) (hnames : names ≠ []) :
    NamesLock names lock := h.resolve_left hnames

/-- A method of a lock that is no module is aimed at the lock. -/
theorem aimed_method {lock : Node} {attr : Text}
    (hattr : attr ∈ [ascii "touch", ascii "mkdir", ascii "open"]) (hlock : NamesLock names lock)
    (hseen : ¬ Overlooked names (.call (.attribute lock attr) args keywords)) :
    namesLockPath names (subject (.attribute lock attr) args) = true := by
  by_cases hmodule : ModuleNamed pathModules lock
  · rw [subject_of_module hmodule, namesLockPath_head?_iff]
    by_contra hfirst
    exact hseen (.moduleName hattr hmodule hfirst)
  · rw [subject_method hattr hmodule]
    exact namesLockPath_iff.mpr ⟨lock, rfl, hlock⟩

/-- A documented form that is not overlooked is accepted. -/
theorem Documented.creates {call : Node} (h : Documented names call)
    (hseen : ¬ Overlooked names call) : createsExclusively names call = true := by
  have hnames : names ≠ [] := fun hnames => hseen (.unidentified hnames)
  cases h with
  | @osOpen lineno lock flags args keywords hfirst hlock hflags hexcl =>
    rw [createsExclusively_open rfl, subject_of_module (moduleNamed_os lineno),
      namesLockPath_head?_iff]
    have hmem : flags ∈ candidateArguments args keywords :=
      mem_candidateArguments hflags (Nat.le_refl 1) (by decide)
    exact ⟨⟨lock, hfirst, hlock.namesLock hnames⟩, flags, hmem, .inl hexcl⟩
  | @openMode lineno lock mode args keywords hfirst hlock hmode hx =>
    rw [createsExclusively_open rfl]
    have hmem : mode ∈ candidateArguments args keywords :=
      mem_candidateArguments hmode (Nat.le_refl 1) (by decide)
    have hsubject : namesLockPath names args.head? = true :=
      namesLockPath_head?_iff.mpr ⟨lock, hfirst, hlock.namesLock hnames⟩
    exact ⟨hsubject, mode, hmem, .inr hx⟩
  | @lockOpen lock mode args keywords hlock hmode hx =>
    have haimed := aimed_method (by decide) (hlock.namesLock hnames) hseen
    rw [createsExclusively_open rfl]
    refine ⟨haimed, ?_⟩
    by_cases hmodule : ModuleNamed pathModules lock
    · -- the first argument names the lock, so that it is no mode
      obtain hfirst | hkeyword := hmode
      · rw [subject_of_module hmodule, namesLockPath_head?_iff] at haimed
        obtain ⟨first, hfirst', hlock'⟩ := haimed
        obtain rfl : mode = first := Option.some.inj (hfirst.symm.trans hfirst')
        obtain ⟨value, rfl, -⟩ := hx
        cases hlock'
      · have hsecond : Passed 1 (ascii "mode") args keywords mode := .inr hkeyword
        have hmem : mode ∈ candidateArguments args keywords :=
          mem_candidateArguments hsecond (Nat.le_refl 1) (by decide)
        exact ⟨mode, hmem, .inr hx⟩
    · by_contra hnone
      refine hseen (.firstMode hmodule fun argument hmem hexclusive => ?_)
      exact hnone ⟨argument, hmem, hexclusive⟩
  | lockTouch hlock hok =>
    rw [createsExclusively_touch rfl]
    exact ⟨aimed_method (by decide) (hlock.namesLock hnames) hseen, hok⟩
  | lockMkdir hlock hok =>
    rw [createsExclusively_mkdir rfl]
    exact ⟨aimed_method (by decide) (hlock.namesLock hnames) hseen, hok⟩
  | @osMkdir lineno lock args keywords hfirst hlock hok =>
    rw [createsExclusively_mkdir rfl, subject_of_module (moduleNamed_os lineno),
      namesLockPath_head?_iff]
    exact ⟨⟨lock, hfirst, hlock.namesLock hnames⟩, hok⟩
  | osLink hattr hdst hlock =>
    rw [createsExclusively_link rfl hattr, subject_link rfl hattr, namesLockPath_head?_iff]
    by_contra hfirst
    exact hseen (.linked hattr hfirst)

/-- Of the documented forms, the test accepts those that it does not overlook. -/
theorem createsExclusively_iff {call : Node} (h : Documented names call) :
    createsExclusively names call = true ↔ ¬ Overlooked names call :=
  ⟨fun hcreates hover => hover.not_creates hcreates, h.creates⟩

theorem Loose.identifier {modules : List Text} {name : Text} (h : Loose modules name func) :
    func.identifier? = some name := by
  cases h <;> rfl

theorem Loose.subject {modules : List Text} {name : Text} (h : Loose modules name func)
    (hmodules : ∀ id ∈ modules, id ∈ pathModules) : subject func args = args.head? := by
  cases h with
  | bare => rfl
  | ofModule hmodule =>
    obtain ⟨id, lineno, rfl, hid⟩ := hmodule
    exact subject_of_module ⟨id, lineno, rfl, hmodules id hid⟩

/-- What is mistaken is accepted. -/
theorem Mistaken.creates {call : Node} (h : Mistaken names call) :
    createsExclusively names call = true := by
  cases h with
  | misplaced hname hsubject hlock hmem hexclusive _ =>
    rw [createsExclusively_open hname]
    exact ⟨namesLockPath_iff.mpr ⟨_, hsubject, hlock⟩, _, hmem, hexclusive⟩
  | touched hloose hfirst hok =>
    rw [createsExclusively_touch hloose.identifier, hloose.subject (fun _ h => h),
      namesLockPath_head?_iff]
    exact ⟨hfirst, hok⟩
  | made hloose hfirst hok =>
    rw [createsExclusively_mkdir hloose.identifier,
      hloose.subject (fun _ h => List.mem_cons_of_mem _ h), namesLockPath_head?_iff]
    exact ⟨hfirst, hok⟩
  | linked hname hlink hfirst =>
    rw [createsExclusively_link hname hlink, subject_link hname hlink, namesLockPath_head?_iff]
    exact hfirst

theorem identifier?_eq_some_iff {name : Text} :
    func.identifier? = some name ↔
      (∃ lineno, func = .name name lineno) ∨ ∃ receiver, func = .attribute receiver name := by
  cases func <;> simp [Node.identifier?]

/-- The receiver is the lock, or the function is one of a module and its first argument is. -/
theorem aimed_cases {receiver : Node} {attr : Text}
    (hattr : attr ∈ [ascii "touch", ascii "mkdir", ascii "open"])
    (h : namesLockPath names (subject (.attribute receiver attr) args) = true) :
    NamesLock names receiver ∨ ModuleNamed pathModules receiver ∧ FirstNamesLock names args := by
  by_cases hmodule : ModuleNamed pathModules receiver
  · rw [subject_of_module hmodule, namesLockPath_head?_iff] at h
    exact .inr ⟨hmodule, h⟩
  · rw [subject_method hattr hmodule] at h
    obtain ⟨lock, heq, hlock⟩ := namesLockPath_iff.mp h
    cases heq
    exact .inl hlock

/-- The test accepts documented forms and mistaken ones. -/
theorem documented_or_mistaken {call : Node} (h : createsExclusively names call = true) :
    Documented names call ∨ Mistaken names call := by
  obtain ⟨func, args, keywords, name, rfl, hid, hname⟩ := createsExclusively_name h
  have hfirst {lineno : Nat} (h : namesLockPath names (subject (.name name lineno) args) = true) :
      FirstNamesLock names args := namesLockPath_head?_iff.mp h
  simp only [List.mem_cons, List.not_mem_nil, or_false] at hname
  obtain rfl | rfl | rfl | hlink := hname
  · obtain ⟨haimed, argument, hmem, hexclusive⟩ := (createsExclusively_open hid).mp h
    obtain ⟨lock, hsubject, hlock⟩ := namesLockPath_iff.mp haimed
    by_cases hplaced : Placed args keywords argument func
    -- the argument is where the documentation has it, and the subject is the lock
    · left
      cases hplaced with
      | @osOpen lineno hflags hexcl =>
        rw [subject_of_module (moduleNamed_os lineno), List.head?_eq_getElem?] at hsubject
        exact .osOpen hsubject (.inr hlock) hflags hexcl
      | openMode hmode hx =>
        have hargs : args[0]? = some lock := by
          rw [← List.head?_eq_getElem?]
          exact hsubject
        exact .openMode hargs (.inr hlock) hmode hx
      | lockOpen hmodule hmode hx =>
        rw [subject_method (by decide) hmodule] at hsubject
        cases hsubject
        exact .lockOpen (.inr hlock) hmode hx
    · exact .inr (.misplaced hid hsubject hlock hmem hexclusive hplaced)
  · obtain ⟨haimed, hok⟩ := (createsExclusively_touch hid).mp h
    obtain ⟨lineno, rfl⟩ | ⟨receiver, rfl⟩ := identifier?_eq_some_iff.mp hid
    · exact .inr (.touched .bare (hfirst haimed) hok)
    · obtain hlock | ⟨hmodule, hargs⟩ := aimed_cases (by decide) haimed
      · exact .inl (.lockTouch (.inr hlock) hok)
      · exact .inr (.touched (.ofModule hmodule) hargs hok)
  · obtain ⟨haimed, hok⟩ := (createsExclusively_mkdir hid).mp h
    obtain ⟨lineno, rfl⟩ | ⟨receiver, rfl⟩ := identifier?_eq_some_iff.mp hid
    · exact .inr (.made .bare (hfirst haimed) hok)
    · obtain hlock | ⟨⟨id, lineno, rfl, hmodule⟩, first, hargs, hlock⟩ :=
        aimed_cases (by decide) haimed
      · exact .inl (.lockMkdir (.inr hlock) hok)
      -- of the modules only `os` has the function
      · obtain rfl | hmodule := List.mem_cons.mp hmodule
        · exact .inl (.osMkdir hargs (.inr hlock) hok)
        · exact .inr (.made (.ofModule ⟨id, lineno, rfl, hmodule⟩) ⟨first, hargs, hlock⟩ hok)
  · have hname : name ∈ [ascii "link", ascii "symlink"] := by simpa using hlink
    have haimed := (createsExclusively_link hid hname).mp h
    rw [subject_link hid hname, namesLockPath_head?_iff] at haimed
    exact .inr (.linked hid hname haimed)

end Creation

section Gate

variable {tree : Node} {name : Text}

theorem createFailures_eq_nil_iff :
    createFailures tree name = [] ↔ Contains tree name Mistaken ∨ Contains tree name Seen := by
  have haccept (names : List Text) (call : Node) : createsExclusively names call = true ↔
      Mistaken names call ∨ Seen names call := by
    constructor
    · intro h
      obtain hdocumented | hmistaken := documented_or_mistaken h
      · exact .inr ⟨hdocumented, (createsExclusively_iff hdocumented).mp h⟩
      · exact .inl hmistaken
    · rintro (hmistaken | ⟨hdocumented, hseen⟩)
      · exact hmistaken.creates
      · exact hdocumented.creates hseen
  unfold createFailures Contains
  cases functionNamed tree name with
  | none => simp
  | some function =>
    simp only [Option.some.injEq, exists_eq_left', ← exists_or, ← and_or_left, ← haccept,
      ← Python.Syntax.mem_walk_iff, ← List.any_eq_true]
    split
    · next h => simp [h]
    · next h => simp [h]

theorem not_contains_empty (p : List Text → Node → Prop) : ¬ Contains (.other []) name p := by
  rintro ⟨function, hfunction, -⟩
  have hmem := List.mem_of_find?_eq_some hfunction
  rw [Python.Syntax.mem_walk_iff, Python.Syntax.inside_iff] at hmem
  obtain rfl | ⟨child, hchild, -⟩ := hmem
  · have htest := List.find?_some hfunction
    cases htest
  · cases hchild

end Gate

/-- On a text that parses, the part adds no failure for exactly the functions with a documented
call, unless the text is empty, a function without one has a mistaken call, or one whose
documented calls are all overlooked has none. -/
theorem mustCreateExclusively_iff {parse : Text → Option Node}
    (hempty : ∀ tree, parse [] = some tree → tree = .other []) (name : Text)
    {text : Text} {tree : Node} (hparse : parse text = some tree) :
    (mustCreateExclusively parse name text = [] ↔ Contains tree name Documented) ↔
      text ≠ [] ∧
      (Contains tree name Mistaken → Contains tree name Documented) ∧
      (Contains tree name Documented →
        Contains tree name Mistaken ∨ Contains tree name Seen) := by
  rw [mustCreateExclusively]
  cases text with
  | nil =>
    obtain rfl := hempty tree hparse
    rw [List.isEmpty_nil, if_pos rfl, eq_self, true_iff]
    exact iff_of_false (not_contains_empty Documented) fun h => h.1 rfl
  | cons c text =>
    have hseen : Contains tree name Seen → Contains tree name Documented := by
      rintro ⟨function, hfunction, call, hinside, hcall⟩
      exact ⟨function, hfunction, call, hinside, hcall.1⟩
    rw [List.isEmpty_cons, hparse]
    show (createFailures tree name = [] ↔ Contains tree name Documented) ↔ _
    rw [createFailures_eq_nil_iff]
    constructor
    · intro h
      exact ⟨List.cons_ne_nil _ _, fun hmistaken => h.mp (.inl hmistaken), h.mpr⟩
    · rintro ⟨-, hmistaken, hdocumented⟩
      exact ⟨fun h => h.elim hmistaken hseen, hdocumented⟩

section LockSample

open Python.Syntax (branching)
open Walk (Branching)

/-- `self.path` -/
def selfPath (lineno : Nat) : Node := .attribute (.name (ascii "self") lineno) (ascii "path")

/-- `self.path = path` -/
def sampleAssign : Node := .assign [selfPath 2] (.name (ascii "path") 2)

/-- `def __init__(self, path): self.path = path` -/
def sampleInit : Node :=
  .functionDef false (ascii "__init__") [] [(ascii "self", none), (ascii "path", none)] []
    [sampleAssign] [] []

/-- `self.path.open("x")` -/
def sampleCall : Node :=
  .call (.attribute (selfPath 3) (ascii "open")) [.constant (.str (ascii "x"))] []

/-- `def acquire(self): self.path.open("x")` -/
def sampleAcquire : Node :=
  .functionDef false (ascii "acquire") [] [(ascii "self", none)] [] [.other [sampleCall]] [] []

/-- The text up to the body of `acquire`. -/
def classText : Text :=
  ascii "class L:\n def __init__(self, path):" ++ ascii " self.path = path\n" ++
    ascii " def acquire(self): "

def lockText : Text := classText ++ ascii "self.path.open('x')\n"

/-- The module of the lock text. -/
def lockModule : Node := .other [.other [sampleInit, sampleAcquire]]

/-- `open(self.path, "x")` -/
def modeCall : Node :=
  .call (.name (ascii "open") 3) [selfPath 3, .constant (.str (ascii "x"))] []

/-- `def acquire(self): open(self.path, "x")` -/
def modeAcquire : Node :=
  .functionDef false (ascii "acquire") [] [(ascii "self", none)] [] [.other [modeCall]] [] []

def modeText : Text := classText ++ ascii "open(self.path, 'x')\n"

def modeModule : Node := .other [.other [sampleInit, modeAcquire]]

/-- `ast.parse` on these texts and on the empty one. -/
def lockParse (text : Text) : Option Node :=
  if text = lockText then some lockModule
  else if text = modeText then some modeModule
  else if text = [] then some (.other []) else none

theorem lockParse_nil (tree : Node) (h : lockParse [] = some tree) : tree = .other [] := by
  rw [lockParse, if_neg (by decide), if_neg (by decide), if_pos rfl] at h
  exact (Option.some.inj h).symm

theorem lockParse_text : lockParse lockText = some lockModule := if_pos rfl

theorem lockParse_mode : lockParse modeText = some modeModule := by
  rw [lockParse, if_neg (by decide), if_pos rfl]

theorem walk_lockModule : walk lockModule =
    [lockModule, .other [sampleInit, sampleAcquire], sampleInit, sampleAcquire,
      .arguments [] [(ascii "self", none), (ascii "path", none)] [], sampleAssign,
      .arguments [] [(ascii "self", none)] [], .other [sampleCall], .arg (ascii "self") none,
      .arg (ascii "path") none, selfPath 2, .name (ascii "path") 2, .arg (ascii "self") none,
      sampleCall, .name (ascii "self") 2, .attribute (selfPath 3) (ascii "open"),
      .constant (.str (ascii "x")), selfPath 3, .name (ascii "self") 3] := by
  simp [walk, Branching.walk, branching, Node.iterChildNodes, lockModule, sampleInit,
    sampleAcquire, sampleAssign, sampleCall, selfPath]

theorem walk_sampleInit : walk sampleInit =
    [sampleInit, .arguments [] [(ascii "self", none), (ascii "path", none)] [], sampleAssign,
      .arg (ascii "self") none, .arg (ascii "path") none, selfPath 2, .name (ascii "path") 2,
      .name (ascii "self") 2] := by
  simp [walk, Branching.walk, branching, Node.iterChildNodes, sampleInit, sampleAssign, selfPath]

theorem walk_sampleAcquire : walk sampleAcquire =
    [sampleAcquire, .arguments [] [(ascii "self", none)] [], .other [sampleCall],
      .arg (ascii "self") none, sampleCall, .attribute (selfPath 3) (ascii "open"),
      .constant (.str (ascii "x")), selfPath 3, .name (ascii "self") 3] := by
  simp [walk, Branching.walk, branching, Node.iterChildNodes, sampleAcquire, sampleCall, selfPath]

theorem functionNamed_lockModule :
    functionNamed lockModule (ascii "acquire") = some sampleAcquire := by
  rw [functionNamed, walk_lockModule]
  rfl

theorem initNames_sampleInit : initNames sampleInit = [ascii "path", ascii "path"] := by
  have hvalue : walk (.name (ascii "path") 2) = [.name (ascii "path") 2] := by
    simp [walk, Branching.walk, branching, Node.iterChildNodes]
  have hassign : parameterTargets [ascii "path"] sampleAssign = [ascii "path"] := by
    rw [sampleAssign, parameterTargets, hvalue]
    rfl
  have htargets : (walk sampleInit).flatMap (parameterTargets [ascii "path"]) = [ascii "path"] := by
    rw [walk_sampleInit]
    simp only [List.flatMap_cons, hassign]
    rfl
  have hparameters : pathParameters [(ascii "self", none), (ascii "path", none)] = [ascii "path"] := by
    decide +kernel
  show (if (ascii "__init__") = ascii "__init__" then
    if (pathParameters [(ascii "self", none), (ascii "path", none)]).isEmpty then []
    else pathParameters [(ascii "self", none), (ascii "path", none)] ++ (walk sampleInit).flatMap
      (parameterTargets (pathParameters [(ascii "self", none), (ascii "path", none)])) else []) = _
  rw [if_pos rfl, hparameters, htargets]
  rfl

theorem walk_modeModule : walk modeModule =
    [modeModule, .other [sampleInit, modeAcquire], sampleInit, modeAcquire,
      .arguments [] [(ascii "self", none), (ascii "path", none)] [], sampleAssign,
      .arguments [] [(ascii "self", none)] [], .other [modeCall], .arg (ascii "self") none,
      .arg (ascii "path") none, selfPath 2, .name (ascii "path") 2, .arg (ascii "self") none,
      modeCall, .name (ascii "self") 2, .name (ascii "open") 3, selfPath 3,
      .constant (.str (ascii "x")), .name (ascii "self") 3] := by
  simp [walk, Branching.walk, branching, Node.iterChildNodes, modeModule, sampleInit,
    modeAcquire, sampleAssign, modeCall, selfPath]

theorem walk_modeAcquire : walk modeAcquire =
    [modeAcquire, .arguments [] [(ascii "self", none)] [], .other [modeCall],
      .arg (ascii "self") none, modeCall, .name (ascii "open") 3, selfPath 3,
      .constant (.str (ascii "x")), .name (ascii "self") 3] := by
  simp [walk, Branching.walk, branching, Node.iterChildNodes, modeAcquire, modeCall, selfPath]

theorem lockPathNames_modeModule :
    lockPathNames modeModule modeAcquire = [ascii "path", ascii "path"] := by
  have hinit : (walk modeModule).flatMap initNames = [ascii "path", ascii "path"] := by
    rw [walk_modeModule]
    simp only [List.flatMap_cons, initNames_sampleInit]
    rfl
  rw [lockPathNames, hinit, walk_modeAcquire]
  rfl

theorem contains_modeModule : Contains modeModule (ascii "acquire") Seen := by
  have hfunction : functionNamed modeModule (ascii "acquire") = some modeAcquire := by
    rw [functionNamed, walk_modeModule]
    rfl
  refine ⟨modeAcquire, hfunction, modeCall, ?_, ?_⟩
  · rw [← Python.Syntax.mem_walk_iff, walk_modeAcquire]
    simp
  · rw [lockPathNames_modeModule]
    refine ⟨.openMode rfl (.inr (.ofAttribute List.mem_cons_self)) (.inl rfl)
      ⟨ascii "x", rfl, List.mem_cons_self⟩, fun hoverlooked => ?_⟩
    cases hoverlooked with
    | unidentified hnil => cases hnil

/-- The mode is overlooked as the first argument and seen as the second one. -/
theorem mustCreateExclusively_iff_sample :
    ((mustCreateExclusively lockParse (ascii "acquire") lockText = [] ↔
      Contains lockModule (ascii "acquire") Documented) ↔
      lockText ≠ [] ∧
      (Contains lockModule (ascii "acquire") Mistaken →
        Contains lockModule (ascii "acquire") Documented) ∧
      (Contains lockModule (ascii "acquire") Documented →
        Contains lockModule (ascii "acquire") Mistaken ∨
          Contains lockModule (ascii "acquire") Seen)) ∧
    mustCreateExclusively lockParse (ascii "acquire") modeText = [] := by
  refine ⟨mustCreateExclusively_iff lockParse_nil (ascii "acquire") lockParse_text, ?_⟩
  obtain ⟨function, hfunction, call, hinside, hseen⟩ := contains_modeModule
  have hdocumented : Contains modeModule (ascii "acquire") Documented :=
    ⟨function, hfunction, call, hinside, hseen.1⟩
  exact ((mustCreateExclusively_iff lockParse_nil (ascii "acquire") lockParse_mode).mpr
    ⟨by decide, fun _ => hdocumented, fun _ => .inr contains_modeModule⟩).mpr hdocumented

theorem lockPathNames_lockModule :
    lockPathNames lockModule sampleAcquire = [ascii "path", ascii "path"] := by
  have hinit : (walk lockModule).flatMap initNames = [ascii "path", ascii "path"] := by
    rw [walk_lockModule]
    simp only [List.flatMap_cons, initNames_sampleInit]
    rfl
  rw [lockPathNames, hinit, walk_sampleAcquire]
  rfl

/-- `acquire` opens the lock file with the mode `x`, given as the first argument. -/
theorem first_mode_overlooked :
    ¬ (mustCreateExclusively lockParse (ascii "acquire") lockText = [] ↔
      Contains lockModule (ascii "acquire") Documented) := by
  have hlock : NamesLock (lockPathNames lockModule sampleAcquire) (selfPath 3) := by
    rw [lockPathNames_lockModule]
    exact .ofAttribute List.mem_cons_self
  have hdocumented : Contains lockModule (ascii "acquire") Documented := by
    refine ⟨sampleAcquire, functionNamed_lockModule, sampleCall, ?_, ?_⟩
    · rw [← Python.Syntax.mem_walk_iff, walk_sampleAcquire]
      simp
    · exact .lockOpen (.inr hlock) (.inl rfl) ⟨ascii "x", rfl, List.mem_cons_self⟩
  have hfails : mustCreateExclusively lockParse (ascii "acquire") lockText =
      [.neverCreates (ascii "acquire")] := by
    have hnone : (walk sampleAcquire).any
        (createsExclusively (lockPathNames lockModule sampleAcquire)) = false := by
      rw [lockPathNames_lockModule, walk_sampleAcquire]
      rfl
    show createFailures lockModule (ascii "acquire") = _
    rw [createFailures, functionNamed_lockModule]
    dsimp only
    rw [hnone]
    rfl
  intro hiff
  have hnil := hiff.mpr hdocumented
  rw [hfails] at hnil
  cases hnil

end LockSample

end Checks
