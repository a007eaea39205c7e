import FlightTestLab.Python.RoundTrip

/-!
# Equality of decoded values

`==` on what `json` decodes. Inside a container an object is equal to itself before it is compared,
and every NaN that `json` decodes is one object.

## Main definitions

- `Python.Value.equal`: `v == w`

## Main results

- `Python.equal_sorted`: the order of the keys does not matter
-/

namespace Python

open Json (Text)

variable {F : Type}

section Equality

variable (fl : FloatOps F) (eqFloat : F → F → Bool)

namespace Value

/-- `x == w` for a `float`. -/
def equalFloat (x : F) : Value F → Bool
  | .float y => eqFloat x y
  | w => w.asInt?.any (fl.eqInt x)

def isNan : Value F → Bool
  | .float x => fl.isNan x
  | _ => false

def elements? : Value F → Option (List (Value F))
  | .list vs => some vs
  | _ => Option.none

def items? : Value F → Option (List (Text × Value F))
  | .dict items => some items
  | _ => Option.none

mutual
def equal : Value F → Value F → Bool
  | .none, w => w.isNone
  | .bool b, w => w.eqInt fl (if b then 1 else 0)
  | .int i, w => w.eqInt fl i
  | .float x, w => w.equalFloat fl eqFloat x
  | .str s, w => w.eqStr s
  | .list vs, w => w.elements?.any (equalElements vs)
  | .dict items, w => w.items?.any fun others =>
      items.length == others.length && equalItems items others
/-- Equality of lists, element by element. -/
def equalElements : List (Value F) → List (Value F) → Bool
  | [], ws => ws.isEmpty
  | _ :: _, [] => false
  | v :: vs, w :: ws => ((v.isNan fl && w.isNan fl) || v.equal w) && equalElements vs ws
/-- Every item of the first `dict` is one of the second. -/
def equalItems : List (Text × Value F) → List (Text × Value F) → Bool
  | [], _ => true
  | (key, v) :: items, others =>
    ((Assoc.get? key others).any fun w => (v.isNan fl && w.isNan fl) || v.equal w) &&
      equalItems items others
end

end Value

open Value

variable {fl eqFloat}

theorem isNan_sorted (v : Value F) : v.sorted.isNan fl = v.isNan fl := by
  cases v <;> rw [Value.sorted] <;> rfl

theorem equalItems_eq (items others : List (Text × Value F)) :
    equalItems fl eqFloat items others = items.all fun item =>
      (Assoc.get? item.1 others).any fun w =>
        (item.2.isNan fl && w.isNan fl) || item.2.equal fl eqFloat w := by
  induction items with
  | nil => rfl
  | cons item items ih => rw [equalItems, ih, List.all_cons]

/-- Whether the items of a `dict` are those of another one does not depend on their order. -/
theorem equalItems_sort (items others : List (Text × Value F)) :
    equalItems fl eqFloat (items.insertionSort keyLe) others =
      equalItems fl eqFloat items others := by
  rw [equalItems_eq, equalItems_eq]
  exact (List.perm_insertionSort keyLe items).all_eq

mutual
theorem equal_sorted : ∀ v w : Value F, v.sorted.equal fl eqFloat w = v.equal fl eqFloat w
  | .none, w | .bool _, w | .int _, w | .float _, w | .str _, w => by rw [Value.sorted]
  | .list vs, w => by
    rw [Value.sorted, equal, equal]
    exact congrArg w.elements?.any (funext (equalElements_sorted vs))
  | .dict items, w => by
    rw [Value.sorted, equal, equal]
    refine congrArg w.items?.any (funext fun others => ?_)
    rw [equalItems_sort, equalItems_sorted items others, List.length_insertionSort,
      sortedItems_eq, List.length_map]
theorem equalElements_sorted : ∀ vs ws : List (Value F),
    equalElements fl eqFloat (sortedElements vs) ws = equalElements fl eqFloat vs ws
  | [], _ => by rw [sortedElements]
  | _ :: _, [] => rfl
  | v :: vs, w :: ws => by
    rw [sortedElements, equalElements, equalElements, isNan_sorted, equal_sorted v w,
      equalElements_sorted vs ws]
theorem equalItems_sorted : ∀ items others : List (Text × Value F),
    equalItems fl eqFloat (sortedItems items) others = equalItems fl eqFloat items others
  | [], _ => by rw [sortedItems]
  | (key, v) :: items, others => by
    rw [sortedItems, equalItems, equalItems, equalItems_sorted items others]
    have hfound (w : Value F) : ((v.sorted.isNan fl && w.isNan fl) || v.sorted.equal fl eqFloat w) =
        ((v.isNan fl && w.isNan fl) || v.equal fl eqFloat w) := by
      rw [isNan_sorted, equal_sorted v w]
    rw [funext hfound]
end

end Equality

end Python
