import FlightTestLab.Learning.Storage
import FlightTestLab.Library.Except
import FlightTestLab.Simulator.Decoding

/-!
# The fault manifest of the Python DUT

`load_fault_config` from the bytes of the file to the configuration, or to the text of
the `SystemExit`.

## Main definitions

- `Simulator.Faults.loadFaultConfig`: the loader
- `Simulator.Faults.Unambiguous`: no object repeats a key
- `Simulator.Faults.Describes`: the configuration that the members of the manifest describe

## Main results

- `Simulator.Faults.loadFaultConfig_eq_ok_iff`: what is loaded
- `Simulator.Faults.exits_loadFaultConfig`: what is not, ends the program with a message
-/

namespace Simulator.Faults

open Json (Text Tree Item ascii decodeItems DigitsFit)
open Python (Value Error Decoder)

variable {F : Type}

section Loading

/-- `MAX_DELAY_MS` -/
def maxDelayMs : Int := 86400000

structure FaultConfig where
  responseDelayMs : Int := 0
  dropConnection : Bool := false
  malformedResponse : Bool := false
  startupDelayMs : Int := 0
  exitAfterRequests : Option Int := none
  deriving DecidableEq, Repr

/-- `_FAULT_CONFIG_KEYS` -/
def faultConfigKeys : List Text :=
  [ascii "response_delay_ms", ascii "drop_connection", ascii "malformed_response",
    ascii "startup_delay_ms", ascii "exit_after_requests"]

/-- The file named by `--fault-config`; one that cannot be read has no content. -/
structure ConfigFile where
  path : Text
  content : Option (List Nat)

/-- What the program uses of the interpreter. -/
structure Host (F : Type) extends Interpreter F where
  /-- `repr(value)`; none where it exceeds the recursion limit. -/
  repr : Value F → Option Text
  /-- `repr(text)` -/
  reprStr : Text → Text
  /-- `str(exc)` of what was raised on the file. -/
  explain : ConfigFile → Error → Text

/-- What the program raises. -/
inductive Raised
  | systemExit (message : Text)
  | python (e : Error)
  deriving DecidableEq, Repr

def refuse {α : Type} (message : Text) : Except Raised α := .error (.systemExit message)

/-- `reject_duplicate_keys`, with what it has seen. -/
def rejectDuplicateKeys (seen : List (Text × Value F)) :
    List (Text × Value F) → Except Error (Value F)
  | [] => .ok (.dict seen)
  | (key, value) :: pairs =>
    if (Assoc.get? key seen).isSome then .error .valueError
    else rejectDuplicateKeys (seen ++ [(key, value)]) pairs

variable (H : Host F)

/-- How the manifest is decoded; `int` stops at the digits that `_parse_int` stops at. -/
def Host.configDecoder : Decoder F where
  floats := H.floats
  overflows := H.overflows
  parseInt := parseInt
  objectPairs := rejectDuplicateKeys []

/-- `json.loads(path.read_text(encoding="utf-8"), object_pairs_hook=reject_duplicate_keys)` -/
def readConfig (file : ConfigFile) : Except Error (Value F) :=
  match file.content with
  | none => .error .osError
  | some bytes => Learning.readJson (Python.loads H.configDecoder) bytes

/-- `except (OSError, ValueError, RecursionError)` -/
def caught : Error → Bool
  | .osError | .valueError | .recursionError => true
  | _ => false

/-- `sorted(set(data) - _FAULT_CONFIG_KEYS)` -/
def unknownKeys (data : List (Text × Value F)) : List Text :=
  ((data.filter fun item => faultConfigKeys.all (· != item.1)).insertionSort Python.keyLe).map
    Prod.fst

/-- The message about a field, with the value found there. -/
def refuseValue {α : Type} (key message : Text) (value : Value F) : Except Raised α :=
  match H.repr value with
  | none => .error (.python .recursionError)
  | some rendered =>
    refuse (ascii "--fault-config: " ++ key ++ (message ++ ascii ", got " ++ rendered))

/-- `_bool` -/
def boolField (data : List (Text × Value F)) (key : Text) : Except Raised Bool :=
  match (Assoc.get? key data).getD (.bool false) with
  | .bool b => .ok b
  -- null is there, and is no boolean
  | value => refuseValue H key (ascii " must be true or false") value

/-- `_int` -/
def intField (data : List (Text × Value F)) (key : Text) (allowNone : Bool) :
    Except Raised (Option Int) :=
  match Value.get key data with
  -- absent or null
  | .none => .ok (if allowNone then none else some 0)
  | .int i =>
    if i < 0 then refuse (ascii "--fault-config: " ++ key ++ ascii " must not be negative")
    else if ascii "_ms" <:+ key ∧ i > maxDelayMs then
      refuse (ascii "--fault-config: " ++ key ++
        (ascii " must be at most " ++ Json.decimal maxDelayMs ++
          ascii " ms (24 hours); larger values overflow time.sleep()"))
    else .ok (some i)
  -- also a `bool`, which is an `int` to `isinstance`
  | value => refuseValue H key (ascii " must be an integer") value

/-- The end of `load_fault_config`, on the object read. -/
def configOf (data : List (Text × Value F)) : Except Raised FaultConfig := do
  let exitAfter ← intField H data (ascii "exit_after_requests") true
  if exitAfter.any (· < 1) then
    refuse (ascii ("--fault-config: exit_after_requests must be 1 or more " ++
      "(omit it, or use null, to disable the fault)"))
  else
    let responseDelayMs ← intField H data (ascii "response_delay_ms") false
    let dropConnection ← boolField H data (ascii "drop_connection")
    let malformedResponse ← boolField H data (ascii "malformed_response")
    let startupDelayMs ← intField H data (ascii "startup_delay_ms") false
    .ok {
      responseDelayMs := responseDelayMs.getD 0
      dropConnection
      malformedResponse
      startupDelayMs := startupDelayMs.getD 0
      exitAfterRequests := exitAfter }

def loadFaultConfig (file : ConfigFile) : Except Raised FaultConfig :=
  match readConfig H file with
  | .error e =>
    if caught e then
      refuse (ascii "--fault-config: cannot read " ++ file.path ++ ascii ": " ++ H.explain file e)
    else .error (.python e)
  | .ok (.dict data) =>
    if unknownKeys data = [] then configOf H data
    else
      refuse (ascii "--fault-config: unknown keys: [" ++
        Json.joinComma ((unknownKeys data).map H.reprStr) ++ ascii "]")
  | .ok _ => refuse (ascii "--fault-config must contain a JSON object")

end Loading

section Manifests

mutual
/-- No object of the tree repeats a key. -/
def Unambiguous : Tree → Prop
  | .arr ts => UnambiguousElements ts
  | .obj ms => (Json.keys ms).Nodup ∧ UnambiguousMembers ms
  | _ => True
/-- No object of an element repeats a key. -/
def UnambiguousElements : List Tree → Prop
  | [] => True
  | t :: ts => Unambiguous t ∧ UnambiguousElements ts
/-- No object of a member repeats a key. -/
def UnambiguousMembers : List (List Item × Tree) → Prop
  | [] => True
  | (_, t) :: ms => Unambiguous t ∧ UnambiguousMembers ms
end

/-- What stands under a key. -/
def member? (key : Text) (ms : List (List Item × Tree)) : Option Tree :=
  Assoc.get? key (ms.map fun m => (decodeItems m.1, m.2))

/-- A switch is absent or a real boolean. -/
inductive IsSwitch : Option Tree → Bool → Prop
  | absent : IsSwitch none false
  | bool (b : Bool) : IsSwitch (some (.bool b)) b

/-- A delay is absent, null or an integer in range. -/
inductive IsDelay : Option Tree → Int → Prop
  | absent : IsDelay none 0
  | null : IsDelay (some .null) 0
  | int {tok : Text} : 0 ≤ Json.ofToken tok → Json.ofToken tok ≤ maxDelayMs →
      IsDelay (some (.int tok)) (Json.ofToken tok)

/-- A count is absent, null or a positive integer. -/
inductive IsCount : Option Tree → Option Int → Prop
  | absent : IsCount none none
  | null : IsCount (some .null) none
  | int {tok : Text} : 1 ≤ Json.ofToken tok → IsCount (some (.int tok)) (some (Json.ofToken tok))

/-- The members of a manifest, and the configuration that they describe. -/
structure Describes (ms : List (List Item × Tree)) (config : FaultConfig) : Prop where
  known : ∀ key ∈ Json.keys ms, key ∈ faultConfigKeys
  responseDelayMs : IsDelay (member? (ascii "response_delay_ms") ms) config.responseDelayMs
  dropConnection : IsSwitch (member? (ascii "drop_connection") ms) config.dropConnection
  malformedResponse : IsSwitch (member? (ascii "malformed_response") ms) config.malformedResponse
  startupDelayMs : IsDelay (member? (ascii "startup_delay_ms") ms) config.startupDelayMs
  exitAfterRequests : IsCount (member? (ascii "exit_after_requests") ms) config.exitAfterRequests

/-- The text of the file. -/
def ConfigFile.Reads (file : ConfigFile) (text : Text) : Prop :=
  ∃ bytes decoded, file.content = some bytes ∧ Utf8.decodeStrict bytes = some decoded ∧
    text = Learning.translateNewlines decoded

/-- The file is a document for the tree. -/
def ConfigFile.Holds (file : ConfigFile) (t : Tree) : Prop :=
  ∃ text, file.Reads text ∧ Json.Document t text

end Manifests

section Building

variable (H : Host F)

/-- The hook returns the pairs as they stand, when no key comes twice. -/
theorem rejectDuplicateKeys_eq_ok_iff {seen pairs : List (Text × Value F)}
    (hseen : (seen.map Prod.fst).Nodup) {v : Value F} :
    rejectDuplicateKeys seen pairs = .ok v ↔
      ((seen ++ pairs).map Prod.fst).Nodup ∧ v = .dict (seen ++ pairs) := by
  induction pairs generalizing seen with
  | nil =>
    rw [rejectDuplicateKeys, List.append_nil, Except.ok.injEq, and_iff_right hseen, eq_comm]
  | cons item pairs ih =>
    have hsplit : seen ++ item :: pairs = seen ++ [item] ++ pairs := by simp
    rw [rejectDuplicateKeys, hsplit]
    by_cases hkey : item.1 ∈ seen.map Prod.fst
    -- the hook stops at a key that it has seen
    · have hsome : (Assoc.get? item.1 seen).isSome = true := by
        rw [Option.isSome_iff_ne_none, ne_eq, Assoc.get?_eq_none_iff, not_not]
        exact hkey
      have hrepeated : ¬ ((seen ++ [item] ++ pairs).map Prod.fst).Nodup := by
        intro h
        rw [List.map_append, List.map_append, List.nodup_append] at h
        have happend := (List.nodup_append.mp h.1).2.2
        exact happend item.1 hkey item.1 (by simp) rfl
      rw [if_pos hsome]
      exact iff_of_false (fun h => by cases h) fun h => hrepeated h.1
    · have hnone : Assoc.get? item.1 seen = none := Assoc.get?_eq_none_iff.mpr hkey
      have hnew : ((seen ++ [item]).map Prod.fst).Nodup := by
        rw [List.map_append, List.nodup_append]
        refine ⟨hseen, by simp, ?_⟩
        rintro key hmem _ hlast rfl
        obtain rfl : key = item.1 := by simpa using hlast
        exact hkey hmem
      rw [hnone, if_neg (by simp)]
      exact ih hnew

theorem rejectDuplicateKeys_error {seen pairs : List (Text × Value F)} {e : Error}
    (h : rejectDuplicateKeys seen pairs = .error e) : e = .valueError := by
  induction pairs generalizing seen with
  | nil => cases h
  | cons item pairs ih =>
    rw [rejectDuplicateKeys] at h
    split at h
    · cases h
      rfl
    · exact ih h

theorem objectPairs_eq_ok_iff {pairs : List (Text × Value F)} {v : Value F} :
    H.configDecoder.objectPairs pairs = .ok v ↔ (pairs.map Prod.fst).Nodup ∧ v = .dict pairs := by
  have hempty : (([] : List (Text × Value F)).map Prod.fst).Nodup := List.nodup_nil
  exact rejectDuplicateKeys_eq_ok_iff hempty

theorem Unambiguous.nodup {ms : List (List Item × Tree)} (h : Unambiguous (.obj ms)) :
    (Json.keys ms).Nodup := by
  rw [Unambiguous] at h
  exact h.1

/-- Without repeated keys a `dict` has the members as they stand. -/
theorem valueOf_obj (fl : Python.FloatOps F) {ms : List (List Item × Tree)}
    (h : (Json.keys ms).Nodup) : valueOf fl (.obj ms) = .dict (membersOf fl ms) := by
  rw [valueOf, Assoc.ofPairs_of_nodup (by rwa [keys_membersOf])]

mutual
/-- The value of a manifest is built when its integers fit and no object repeats a key. -/
theorem build_eq_ok_iff : ∀ (t : Tree) (v : Value F), t.Proper →
    (Python.build H.configDecoder t = .ok v ↔
      DigitsFit maxIntDigits t.intTokens ∧ Unambiguous t ∧ v = valueOf H.floats t)
  | .int tok, v, h => by
    have hp : H.configDecoder.parseInt tok = parseInt tok := rfl
    rw [Python.build, hp, parseInt_token h, Tree.intTokens, DigitsFit, List.forall_mem_singleton]
    by_cases hd : Json.digitCount tok ≤ maxIntDigits
    · simp [hd, Unambiguous, valueOf, eq_comm]
    · simp [hd]
  | .arr ts, v, h => by
    have hts (vs : List (Value F)) := buildElements_eq_ok_iff ts vs h
    rw [Python.build_arr_eq_ok_iff, Tree.intTokens, Unambiguous, valueOf]
    simp only [hts, and_assoc, exists_and_left, exists_eq_left]
  | .obj ms, v, h => by
    have hms (pairs : List (Text × Value F)) := buildMembers_eq_ok_iff ms pairs h
    have hkeys := keys_membersOf H.floats ms
    rw [Python.build_obj_eq_ok_iff, Tree.intTokens, Unambiguous]
    simp only [hms, objectPairs_eq_ok_iff, and_assoc, exists_and_left, exists_eq_left, hkeys]
    refine and_congr_right fun _ => ?_
    constructor
    · rintro ⟨hmembers, hnodup, rfl⟩
      exact ⟨hnodup, hmembers, (valueOf_obj H.floats hnodup).symm⟩
    · rintro ⟨hnodup, hmembers, rfl⟩
      exact ⟨hmembers, hnodup, valueOf_obj H.floats hnodup⟩
  | .null, v, _ | .bool _, v, _ | .nan, v, _ | .inf _, v, _ | .float _, v, _ | .str _, v, _ => by
    simp [Python.build, Tree.intTokens, DigitsFit, Unambiguous, valueOf, Host.configDecoder, eq_comm]
theorem buildElements_eq_ok_iff : ∀ (ts : List Tree) (vs : List (Value F)),
    Tree.ProperElements ts →
    (Python.buildElements H.configDecoder ts = .ok vs ↔
      DigitsFit maxIntDigits (Tree.intTokensElements ts) ∧ UnambiguousElements ts ∧
        vs = elementsOf H.floats ts)
  | [], vs, _ => by
    simp [Python.buildElements, Tree.intTokensElements, DigitsFit, UnambiguousElements, elementsOf,
      eq_comm]
  | t :: ts, vs, h => by
    have ht (v : Value F) := build_eq_ok_iff t v h.1
    have hts (vs : List (Value F)) := buildElements_eq_ok_iff ts vs h.2
    rw [Python.buildElements_cons_eq_ok_iff, Tree.intTokensElements, Json.digitsFit_append,
      UnambiguousElements, elementsOf]
    simp only [ht, hts]
    constructor
    · rintro ⟨v, rest, ⟨hd, hu, rfl⟩, ⟨hds, hus, rfl⟩, rfl⟩
      exact ⟨⟨hd, hds⟩, ⟨hu, hus⟩, rfl⟩
    · rintro ⟨⟨hd, hds⟩, ⟨hu, hus⟩, rfl⟩
      exact ⟨_, _, ⟨hd, hu, rfl⟩, ⟨hds, hus, rfl⟩, rfl⟩
theorem buildMembers_eq_ok_iff :
    ∀ (ms : List (List Item × Tree)) (pairs : List (Text × Value F)),
    Tree.ProperMembers ms →
    (Python.buildMembers H.configDecoder ms = .ok pairs ↔
      DigitsFit maxIntDigits (Tree.intTokensMembers ms) ∧ UnambiguousMembers ms ∧
        pairs = membersOf H.floats ms)
  | [], pairs, _ => by
    simp [Python.buildMembers, Tree.intTokensMembers, DigitsFit, UnambiguousMembers, membersOf,
      eq_comm]
  | (is, t) :: ms, pairs, h => by
    have ht (v : Value F) := build_eq_ok_iff t v h.2.1
    have hms (rest : List (Text × Value F)) :=
      buildMembers_eq_ok_iff ms rest h.2.2
    rw [Python.buildMembers_cons_eq_ok_iff, Tree.intTokensMembers, Json.digitsFit_append,
      UnambiguousMembers, membersOf]
    simp only [ht, hms]
    constructor
    · rintro ⟨v, rest, ⟨hd, hu, rfl⟩, ⟨hds, hus, rfl⟩, rfl⟩
      exact ⟨⟨hd, hds⟩, ⟨hu, hus⟩, rfl⟩
    · rintro ⟨⟨hd, hds⟩, ⟨hu, hus⟩, rfl⟩
      exact ⟨_, _, ⟨hd, hu, rfl⟩, ⟨hds, hus, rfl⟩, rfl⟩
end

end Building

section Values

variable {fl : Python.FloatOps F} {t : Tree}

theorem valueOf_eq_none_iff : valueOf fl t = .none ↔ t = .null := by
  cases t <;> simp [valueOf]

theorem valueOf_eq_bool_iff {b : Bool} : valueOf fl t = .bool b ↔ t = .bool b := by
  cases t <;> simp [valueOf]

theorem valueOf_eq_int_iff {i : Int} :
    valueOf fl t = .int i ↔ ∃ tok, t = .int tok ∧ i = Json.ofToken tok := by
  cases t <;> simp [valueOf, eq_comm]

theorem get?_membersOf (key : Text) (ms : List (List Item × Tree)) :
    Assoc.get? key (membersOf fl ms) = (member? key ms).map (valueOf fl) := by
  have hmap : membersOf fl ms =
      (ms.map fun m => (decodeItems m.1, m.2)).map (Prod.map id (valueOf fl)) := by
    induction ms with
    | nil => rfl
    | cons m ms ih => simp [membersOf, ih]
  rw [hmap, member?]
  exact Assoc.get?_map (f := id) key _ fun _ _ h => h

theorem member?_of_mem {ms : List (List Item × Tree)} (hnodup : (Json.keys ms).Nodup)
    {m : List Item × Tree} (hm : m ∈ ms) : member? (decodeItems m.1) ms = some m.2 := by
  refine Assoc.get?_of_mem ?_ (List.mem_map_of_mem hm)
  rw [List.map_map]
  exact hnodup

end Values

section Fields

variable (H : Host F)

theorem refuseValue_ne_ok {α : Type} (key message : Text) (value : Value F) (a : α) :
    refuseValue H key message value ≠ .ok a := by
  unfold refuseValue
  split <;> exact fun h => by cases h

/-- Such a refusal names the field, when there is a text for the value. -/
theorem refuseValue_error {α : Type} {key message : Text} {value : Value F}
    (hprints : (H.repr value).isSome) {e : Raised}
    (h : refuseValue (α := α) H key message value = .error e) :
    ∃ reason, e = .systemExit (ascii "--fault-config: " ++ key ++ reason) := by
  obtain ⟨rendered, hrendered⟩ := Option.isSome_iff_exists.mp hprints
  rw [refuseValue, hrendered] at h
  cases h
  exact ⟨message ++ ascii ", got " ++ rendered, rfl⟩

variable {H} {data : List (Text × Value F)} {key : Text}

theorem boolField_eq_ok_iff {b : Bool} :
    boolField H data key = .ok b ↔ (Assoc.get? key data).getD (.bool false) = .bool b := by
  unfold boolField
  split
  · next b' hget => rw [hget, Except.ok.injEq, Value.bool.injEq]
  · next value hbool =>
    refine iff_of_false (refuseValue_ne_ok H _ _ _ _) fun h => hbool b h

theorem boolField_error (hprints : ∀ item ∈ data, (H.repr item.2).isSome) {e : Raised}
    (h : boolField H data key = .error e) :
    ∃ reason, e = .systemExit (ascii "--fault-config: " ++ key ++ reason) := by
  unfold boolField at h
  split at h
  · cases h
  · next value hbool =>
    refine refuseValue_error H ?_ h
    cases hget : Assoc.get? key data with
    | none => exact absurd (by rw [hget, Option.getD_none]) (hbool false)
    | some found => exact hprints _ (Assoc.mem_of_get? hget)

theorem intField_eq_ok_iff {allowNone : Bool} {found : Option Int} :
    intField H data key allowNone = .ok found ↔
      (Value.get key data = .none ∧ found = if allowNone then none else some 0) ∨
        ∃ i, Value.get key data = .int i ∧ 0 ≤ i ∧ (ascii "_ms" <:+ key → i ≤ maxDelayMs) ∧
          found = some i := by
  unfold intField
  split
  · next hget => simp [hget, eq_comm]
  · next i hget =>
    simp only [hget, reduceCtorEq, false_and, false_or, Value.int.injEq, exists_eq_left']
    split_ifs with hneg hlarge
    · refine iff_of_false (fun h => by cases h) ?_
      rintro ⟨hpos, -, -⟩
      omega
    · refine iff_of_false (fun h => by cases h) ?_
      rintro ⟨-, hle, -⟩
      have := hle hlarge.1
      omega
    · have hle : ascii "_ms" <:+ key → i ≤ maxDelayMs := by
        intro hms
        by_contra hlt
        exact hlarge ⟨hms, by omega⟩
      rw [Except.ok.injEq, and_iff_right (by omega), and_iff_right hle, eq_comm]
  · next value hnone hint =>
    refine iff_of_false (refuseValue_ne_ok H _ _ _ _) ?_
    rintro (⟨h, -⟩ | ⟨i, h, -⟩)
    · exact hnone h
    · exact hint i h

theorem intField_error (hprints : ∀ item ∈ data, (H.repr item.2).isSome) {allowNone : Bool}
    {e : Raised} (h : intField H data key allowNone = .error e) :
    ∃ reason, e = .systemExit (ascii "--fault-config: " ++ key ++ reason) := by
  unfold intField at h
  split at h
  · cases h
  · split_ifs at h
    · cases h
      exact ⟨_, rfl⟩
    · cases h
      exact ⟨_, rfl⟩
  · next value hnone _ =>
    refine refuseValue_error H ?_ h
    cases hget : Assoc.get? key data with
    | none => exact absurd (by rw [Value.get, hget, Option.getD_none]) hnone
    | some found =>
      rw [Value.get, hget]
      exact hprints _ (Assoc.mem_of_get? hget)

variable {ms : List (List Item × Tree)}

theorem boolField_iff {b : Bool} :
    boolField H (membersOf H.floats ms) key = .ok b ↔ IsSwitch (member? key ms) b := by
  rw [boolField_eq_ok_iff, get?_membersOf]
  cases member? key ms with
  | none =>
    constructor
    · intro h
      cases h
      exact .absent
    · rintro ⟨⟩
      rfl
  | some t =>
    rw [Option.map_some, Option.getD_some, valueOf_eq_bool_iff]
    constructor
    · rintro rfl
      exact .bool b
    · rintro ⟨⟩
      rfl

theorem delayField_iff (hkey : ascii "_ms" <:+ key) {delay : Int} :
    (∃ found, intField H (membersOf H.floats ms) key false = .ok found ∧ found.getD 0 = delay) ↔
      IsDelay (member? key ms) delay := by
  simp only [intField_eq_ok_iff, Value.get, get?_membersOf]
  cases member? key ms with
  | none =>
    constructor
    · rintro ⟨found, ⟨-, rfl⟩ | ⟨i, h, -⟩, rfl⟩
      · exact .absent
      · cases h
    · rintro ⟨⟩
      exact ⟨some 0, .inl ⟨rfl, rfl⟩, rfl⟩
  | some t =>
    rw [Option.map_some, Option.getD_some, valueOf_eq_none_iff]
    simp only [valueOf_eq_int_iff]
    constructor
    · rintro ⟨found, ⟨rfl, rfl⟩ | ⟨i, ⟨tok, rfl, rfl⟩, hpos, hle, rfl⟩, rfl⟩
      · exact .null
      · exact .int hpos (hle hkey)
    · intro h
      cases h with
      | null => exact ⟨some 0, .inl ⟨rfl, rfl⟩, rfl⟩
      | int hpos hle => exact ⟨some _, .inr ⟨_, ⟨_, rfl, rfl⟩, hpos, fun _ => hle, rfl⟩, rfl⟩

theorem countField_iff (hkey : ¬ ascii "_ms" <:+ key) {count : Option Int} :
    intField H (membersOf H.floats ms) key true = .ok count ∧ count.any (· < 1) = false ↔
      IsCount (member? key ms) count := by
  rw [intField_eq_ok_iff, Value.get, get?_membersOf]
  cases member? key ms with
  | none =>
    constructor
    · rintro ⟨⟨-, rfl⟩ | ⟨i, h, -⟩, -⟩
      · exact .absent
      · cases h
    · rintro ⟨⟩
      exact ⟨.inl ⟨rfl, rfl⟩, rfl⟩
  | some t =>
    rw [Option.map_some, Option.getD_some, valueOf_eq_none_iff]
    simp only [valueOf_eq_int_iff]
    constructor
    · rintro ⟨⟨rfl, rfl⟩ | ⟨i, ⟨tok, rfl, rfl⟩, -, -, rfl⟩, hany⟩
      · exact .null
      · exact .int (by simpa using hany)
    · intro h
      cases h with
      | null => exact ⟨.inl ⟨rfl, rfl⟩, rfl⟩
      | int hpos =>
        refine ⟨.inr ⟨_, ⟨_, rfl, rfl⟩, by omega, fun h => absurd h hkey, rfl⟩, ?_⟩
        simpa using hpos

end Fields

section Results

variable {H : Host F} {ms : List (List Item × Tree)} {config : FaultConfig}

theorem unknownKeys_eq_nil_iff {data : List (Text × Value F)} :
    unknownKeys data = [] ↔ ∀ item ∈ data, item.1 ∈ faultConfigKeys := by
  have hsorted (items : List (Text × Value F)) :
      items.insertionSort Python.keyLe = [] ↔ items = [] := by
    rw [← List.length_eq_zero_iff, List.length_insertionSort, List.length_eq_zero_iff]
  rw [unknownKeys, List.map_eq_nil_iff, hsorted, List.filter_eq_nil_iff]
  refine forall₂_congr fun item _ => ?_
  simp only [List.all_eq_true, bne_iff_ne, ne_eq, not_forall, not_not]
  exact ⟨fun ⟨key, hkey, heq⟩ => heq ▸ hkey, fun h => ⟨_, h, rfl⟩⟩

theorem unknownKeys_membersOf_iff :
    unknownKeys (membersOf H.floats ms) = [] ↔ ∀ key ∈ Json.keys ms, key ∈ faultConfigKeys := by
  rw [unknownKeys_eq_nil_iff, ← keys_membersOf H.floats ms, List.forall_mem_map]

theorem configOf_eq_ok_iff :
    configOf H (membersOf H.floats ms) = .ok config ↔
      IsCount (member? (ascii "exit_after_requests") ms) config.exitAfterRequests ∧
      IsDelay (member? (ascii "response_delay_ms") ms) config.responseDelayMs ∧
      IsSwitch (member? (ascii "drop_connection") ms) config.dropConnection ∧
      IsSwitch (member? (ascii "malformed_response") ms) config.malformedResponse ∧
      IsDelay (member? (ascii "startup_delay_ms") ms) config.startupDelayMs := by
  simp only [configOf, Except.bind_eq_ok]
  rw [← countField_iff (H := H) (by decide), ← delayField_iff (H := H) (by decide),
    ← delayField_iff (H := H) (by decide)]
  constructor
  · rintro ⟨count, hcount, h⟩
    split at h
    · cases h
    · next hany =>
      obtain ⟨response, hresponse, h⟩ := Except.bind_eq_ok.mp h
      obtain ⟨drop, hdrop, h⟩ := Except.bind_eq_ok.mp h
      obtain ⟨malformed, hmalformed, h⟩ := Except.bind_eq_ok.mp h
      obtain ⟨startup, hstartup, h⟩ := Except.bind_eq_ok.mp h
      cases h
      exact ⟨⟨hcount, Bool.eq_false_iff.mpr hany⟩, ⟨response, hresponse, rfl⟩,
        boolField_iff.mp hdrop, boolField_iff.mp hmalformed, ⟨startup, hstartup, rfl⟩⟩
  · rintro ⟨⟨hcount, hany⟩, ⟨response, hresponse, hr⟩, hdrop, hmalformed, ⟨startup, hstartup, hs⟩⟩
    refine ⟨_, hcount, ?_⟩
    rw [if_neg (by rw [hany]; exact Bool.false_ne_true), hresponse, Except.ok_bind,
      boolField_iff.mpr hdrop, Except.ok_bind, boolField_iff.mpr hmalformed, Except.ok_bind,
      hstartup, Except.ok_bind, hr, hs]

/-- Nothing is raised but `SystemExit`. -/
def Exits {α : Type} (result : Except Raised α) : Prop :=
  result.RaisesOnly fun e => ∃ message, e = .systemExit message

theorem exits_refuse {α : Type} (message : Text) : Exits (refuse (α := α) message) :=
  Except.raisesOnly_error ⟨message, rfl⟩

theorem exits_configOf {data : List (Text × Value F)}
    (hprints : ∀ item ∈ data, (H.repr item.2).isSome) : Exits (configOf H data) := by
  have hint (key : Text) (allowNone : Bool) : Exits (intField H data key allowNone) := by
    intro e h
    obtain ⟨reason, rfl⟩ := intField_error hprints h
    exact ⟨_, rfl⟩
  have hbool (key : Text) : Exits (boolField H data key) := by
    intro e h
    obtain ⟨reason, rfl⟩ := boolField_error hprints h
    exact ⟨_, rfl⟩
  refine (hint _ true).bind fun exitAfter => ?_
  split
  · exact exits_refuse _
  refine (hint _ false).bind fun responseDelayMs => ?_
  refine (hbool _).bind fun dropConnection => ?_
  refine (hbool _).bind fun malformedResponse => ?_
  refine (hint _ false).bind fun startupDelayMs => ?_
  exact Except.raisesOnly_ok _ _

/-- What a manifest may hold is flat. -/
theorem Describes.depth_le (h : Describes ms config) (hnodup : (Json.keys ms).Nodup) :
    (Tree.obj ms).depth ≤ 2 := by
  have hswitch {found : Option Tree} {b : Bool} (h : IsSwitch found b) : ∀ t ∈ found, t.depth = 1 := by
    cases h <;> rintro t ⟨⟩
    rfl
  have hdelay {found : Option Tree} {i : Int} (h : IsDelay found i) : ∀ t ∈ found, t.depth = 1 := by
    cases h <;> rintro t ⟨⟩ <;> rfl
  have hcount {found : Option Tree} {n : Option Int} (h : IsCount found n) :
      ∀ t ∈ found, t.depth = 1 := by
    cases h <;> rintro t ⟨⟩ <;> rfl
  have hscalar : ∀ key ∈ faultConfigKeys, ∀ t ∈ member? key ms, t.depth = 1 := by
    simp only [faultConfigKeys, List.forall_mem_cons]
    exact ⟨hdelay h.responseDelayMs, hswitch h.dropConnection, hswitch h.malformedResponse,
      hdelay h.startupDelayMs, hcount h.exitAfterRequests, by simp⟩
  -- each member stands under a known key, and is the one that is found there
  have hmembers : ∀ m ∈ ms, m.2.depth = 1 := by
    intro m hm
    have hkey : decodeItems m.1 ∈ faultConfigKeys := h.known _ (List.mem_map_of_mem hm)
    exact hscalar _ hkey _ (member?_of_mem hnodup hm)
  have hle : ∀ members : List (List Item × Tree), (∀ m ∈ members, m.2.depth = 1) →
      Tree.depthMembers members ≤ 1 := by
    intro members hall
    induction members with
    | nil => exact Nat.zero_le 1
    | cons m members ih =>
      rw [List.forall_mem_cons] at hall
      exact Nat.max_le.mpr ⟨hall.1.le, ih hall.2⟩
  have := hle ms hmembers
  rw [Tree.depth]
  omega

theorem mem_translateNewlines {c : Nat} {s : Text} (h : c ∈ Learning.translateNewlines s) :
    c = 0x0A ∨ c ∈ s := by
  induction s using Learning.translateNewlines.induct with
  | case1 rest ih =>
    rw [Learning.translateNewlines, List.mem_cons] at h
    obtain rfl | h := h
    · exact .inl rfl
    · exact (ih h).imp_right fun h => List.mem_cons_of_mem _ (List.mem_cons_of_mem _ h)
  | case2 rest hcrlf ih =>
    rw [Learning.translateNewlines, List.mem_cons] at h
    · obtain rfl | h := h
      · exact .inl rfl
      · exact (ih h).imp_right (List.mem_cons_of_mem _)
    · exact hcrlf
  | case3 d rest hcrlf hcr ih =>
    rw [Learning.translateNewlines, List.mem_cons] at h
    · obtain rfl | h := h
      · exact .inr List.mem_cons_self
      · exact (ih h).imp_right (List.mem_cons_of_mem _)
    · exact hcrlf
    · exact hcr
  | case4 => exact .inr h

theorem ConfigFile.Reads.lt {file : ConfigFile} {text : Text} (h : file.Reads text) :
    ∀ c ∈ text, c < 0x110000 := by
  obtain ⟨bytes, decoded, -, hdecoded, rfl⟩ := h
  intro c hc
  obtain rfl | hc := mem_translateNewlines hc
  · decide
  · exact Utf8.decodeStrict_lt hdecoded c hc

theorem readConfig_loads_iff {file : ConfigFile} {v : Value F} :
    readConfig H file = .ok v ↔
      ∃ text, file.Reads text ∧ Python.loads H.configDecoder text = .ok v := by
  unfold readConfig ConfigFile.Reads Learning.readJson
  cases file.content with
  | none => simp
  | some bytes =>
    simp only [Option.some.injEq, exists_and_left, exists_eq_left']
    cases Utf8.decodeStrict bytes with
    | none => simp
    | some decoded => simp

theorem readConfig_eq_ok_iff {file : ConfigFile} {v : Value F} :
    readConfig H file = .ok v ↔
      ∃ t, file.Holds t ∧ H.overflows t = false ∧ DigitsFit maxIntDigits t.intTokens ∧
        Unambiguous t ∧ v = valueOf H.floats t := by
  rw [readConfig_loads_iff]
  constructor
  · rintro ⟨text, htext, h⟩
    obtain ⟨t, hdoc, hov, hbuild⟩ := (Python.loads_eq_ok_iff _).mp h
    exact ⟨t, ⟨text, htext, hdoc⟩, hov, (build_eq_ok_iff H t v (hdoc.proper htext.lt)).mp hbuild⟩
  · rintro ⟨t, ⟨text, htext, hdoc⟩, hov, hbuild⟩
    refine ⟨text, htext, (Python.loads_eq_ok_iff _).mpr ⟨t, hdoc, hov, ?_⟩⟩
    exact (build_eq_ok_iff H t v (hdoc.proper htext.lt)).mpr hbuild

theorem configDecoder_raises (H : Host F) : H.configDecoder.RaisesValueError where
  parseInt := by
    intro token e h
    have hparse : parseInt token = .error e := h
    rw [parseInt] at hparse
    split at hparse <;> cases hparse
    rfl
  objectPairs := fun _ _ h => rejectDuplicateKeys_error h

/-- The `except` clause names whatever reading the file can raise. -/
theorem readConfig_error {file : ConfigFile} {e : Error} (h : readConfig H file = .error e) :
    caught e = true := by
  unfold readConfig Learning.readJson at h
  split at h
  · cases h
    rfl
  · split at h
    · cases h
      rfl
    · obtain rfl | rfl := Python.loads_error (configDecoder_raises H) h
      · rfl
      · rfl

/-- A manifest is loaded when it is one unambiguous object whose members describe a
configuration, and then as that configuration. -/
theorem loadFaultConfig_eq_ok_iff (hflat : ∀ t, t.depth ≤ 2 → H.overflows t = false)
    (file : ConfigFile) :
    loadFaultConfig H file = .ok config ↔
      ∃ ms, file.Holds (.obj ms) ∧ Unambiguous (.obj ms) ∧
        DigitsFit maxIntDigits (Tree.obj ms).intTokens ∧ Describes ms config := by
  constructor
  · intro h
    unfold loadFaultConfig at h
    split at h
    · split at h <;> cases h
    · next data hread =>
      obtain ⟨t, hholds, -, hdigits, hunambiguous, hdata⟩ := readConfig_eq_ok_iff.mp hread
      -- only an object of the document is a `dict`
      obtain ⟨ms, rfl⟩ : ∃ ms, t = .obj ms := by
        cases t <;> simp [valueOf] at hdata
        exact ⟨_, rfl⟩
      rw [valueOf_obj H.floats hunambiguous.nodup, Value.dict.injEq] at hdata
      subst hdata
      split at h
      · next hkeys =>
        obtain ⟨hcount, hresponse, hdrop, hmalformed, hstartup⟩ := configOf_eq_ok_iff.mp h
        exact ⟨ms, hholds, hunambiguous, hdigits, unknownKeys_membersOf_iff.mp hkeys, hresponse, hdrop,
          hmalformed, hstartup, hcount⟩
      · cases h
    · cases h
  · rintro ⟨ms, hholds, hunambiguous, hdigits, hdescribes⟩
    have hread : readConfig H file = .ok (.dict (membersOf H.floats ms)) := by
      refine readConfig_eq_ok_iff.mpr ⟨.obj ms, hholds, ?_, hdigits, hunambiguous, ?_⟩
      · exact hflat _ (hdescribes.depth_le hunambiguous.nodup)
      · exact (valueOf_obj H.floats hunambiguous.nodup).symm
    rw [loadFaultConfig, hread]
    dsimp only
    rw [if_pos (unknownKeys_membersOf_iff.mpr hdescribes.known)]
    exact configOf_eq_ok_iff.mpr ⟨hdescribes.exitAfterRequests, hdescribes.responseDelayMs,
      hdescribes.dropConnection, hdescribes.malformedResponse, hdescribes.startupDelayMs⟩

/-- What `json.loads` gets through within the recursion limit, `repr` gets through as well. -/
def Host.Prints (H : Host F) : Prop :=
  ∀ text data, Python.loads H.configDecoder text = .ok (.dict data) →
    ∀ item ∈ data, (H.repr item.2).isSome

theorem exits_loadFaultConfig (hprints : H.Prints) (file : ConfigFile) :
    Exits (loadFaultConfig H file) := by
  unfold loadFaultConfig
  split
  · next e hread =>
    rw [if_pos (readConfig_error hread)]
    exact exits_refuse _
  · next data hread =>
    split
    · obtain ⟨text, -, hloads⟩ := readConfig_loads_iff.mp hread
      exact exits_configOf (hprints text data hloads)
    · exact exits_refuse _
  · exact exits_refuse _

end Results

end Simulator.Faults
