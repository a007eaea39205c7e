import Mathlib.Data.List.Basic
import Mathlib.Data.List.Induction
import Mathlib.Data.List.Nodup

/-!
# Insertion-ordered association lists

A finite map kept as a list of pairs with one entry per key. Writing a key that
is present replaces its value where it stands; writing a new key appends it.
-/

namespace Assoc

variable {κ ν μ ι : Type*} [DecidableEq κ] [DecidableEq ι]

/-- Write `v` under `k`, in place when the key is present. -/
def upsert (k : κ) (v : ν) : List (κ × ν) → List (κ × ν)
  | [] => [(k, v)]
  | (k', v') :: kvs => if k' = k then (k', v) :: kvs else (k', v') :: upsert k v kvs

/-- The value stored under `k`. -/
def get? (k : κ) : List (κ × ν) → Option ν
  | [] => none
  | (k', v) :: kvs => if k' = k then some v else get? k kvs

/-- Write a sequence of pairs from left to right into an empty map. -/
def ofPairs (kvs : List (κ × ν)) : List (κ × ν) :=
  kvs.foldl (fun d kv => upsert kv.1 kv.2 d) []

/-- The value of the last pair with key `k`. -/
def last? (k : κ) : List (κ × ν) → Option ν
  | [] => none
  | (k', v) :: kvs => (last? k kvs).or (if k' = k then some v else none)

@[simp] theorem get?_nil (k : κ) : get? k ([] : List (κ × ν)) = none := rfl

@[simp] theorem get?_upsert_self (k : κ) (v : ν) (d : List (κ × ν)) :
    get? k (upsert k v d) = some v := by
  induction d with
  | nil => simp [upsert, get?]
  | cons kv d ih =>
    by_cases hk : kv.1 = k
    · simp [upsert, get?, hk]
    · simp [upsert, get?, hk, ih]

theorem get?_upsert_of_ne {k k' : κ} (h : k' ≠ k) (v : ν) (d : List (κ × ν)) :
    get? k' (upsert k v d) = get? k' d := by
  induction d with
  | nil => simp [upsert, get?, Ne.symm h]
  | cons kv d ih =>
    by_cases hk : kv.1 = k
    · simp [upsert, get?, hk, Ne.symm h]
    · simp only [upsert, if_neg hk, get?, ih]

theorem get?_upsert (k k' : κ) (v : ν) (d : List (κ × ν)) :
    get? k' (upsert k v d) = if k' = k then some v else get? k' d := by
  by_cases h : k' = k
  · subst h
    simp
  · rw [if_neg h, get?_upsert_of_ne h]

theorem mem_of_get? {k : κ} {v : ν} {d : List (κ × ν)} (h : get? k d = some v) :
    (k, v) ∈ d := by
  induction d with
  | nil => simp at h
  | cons kv d ih =>
    by_cases hk : kv.1 = k
    · simp only [get?, if_pos hk, Option.some.injEq] at h
      subst h hk
      simp
    · simp only [get?, if_neg hk] at h
      exact List.mem_cons_of_mem _ (ih h)

theorem get?_eq_none_iff {k : κ} {d : List (κ × ν)} : get? k d = none ↔ k ∉ d.map Prod.fst := by
  induction d with
  | nil => simp
  | cons kv d ih =>
    by_cases hk : kv.1 = k
    · simp [get?, hk]
    · simp [get?, hk, ih, Ne.symm hk]

theorem get?_of_mem {k : κ} {v : ν} {d : List (κ × ν)} (hn : (d.map Prod.fst).Nodup)
    (h : (k, v) ∈ d) : get? k d = some v := by
  induction d with
  | nil => simp at h
  | cons kv d ih =>
    rw [List.map_cons, List.nodup_cons] at hn
    obtain rfl | h := List.mem_cons.mp h
    · simp [get?]
    · have hk : kv.1 ≠ k := by
        rintro rfl
        exact hn.1 (List.mem_map.mpr ⟨_, h, rfl⟩)
      simp only [get?, if_neg hk]
      exact ih hn.2 h

/-- Lookup in a map with renamed keys. -/
theorem get?_map {f : κ → ι} {g : ν → μ} (k : κ) (d : List (κ × ν))
    (hf : ∀ a ∈ d.map Prod.fst, f a = f k → a = k) :
    get? (f k) (d.map (Prod.map f g)) = (get? k d).map g := by
  induction d with
  | nil => rfl
  | cons kv d ih =>
    obtain ⟨k', v⟩ := kv
    rw [List.map_cons, List.forall_mem_cons] at hf
    rw [List.map_cons, Prod.map_apply, get?, get?]
    by_cases hk : k' = k
    · rw [if_pos hk, if_pos (congrArg f hk)]
      rfl
    · rw [if_neg hk, if_neg fun he => hk (hf.1 he), ih hf.2]

theorem keys_upsert (k : κ) (v : ν) (d : List (κ × ν)) :
    (upsert k v d).map Prod.fst =
      if k ∈ d.map Prod.fst then d.map Prod.fst else d.map Prod.fst ++ [k] := by
  induction d with
  | nil => simp [upsert]
  | cons kv d ih =>
    by_cases hk : kv.1 = k
    · simp [upsert, hk]
    · simp only [upsert, if_neg hk, List.map_cons, ih, List.mem_cons, Ne.symm hk, false_or]
      split <;> simp

theorem nodup_upsert {d : List (κ × ν)} (hn : (d.map Prod.fst).Nodup) (k : κ) (v : ν) :
    ((upsert k v d).map Prod.fst).Nodup := by
  rw [keys_upsert]
  split
  · exact hn
  · next hk => exact List.nodup_append.mpr ⟨hn, by simp, by
      rintro a ha b hb rfl
      exact hk (List.mem_singleton.mp hb ▸ ha)⟩

/-- Renaming keys injectively and mapping values commutes with a write. -/
theorem map_upsert {f : κ → ι} {g : ν → μ} (k : κ) (v : ν) (d : List (κ × ν))
    (hf : ∀ a ∈ d.map Prod.fst, f a = f k → a = k) :
    (upsert k v d).map (Prod.map f g) = upsert (f k) (g v) (d.map (Prod.map f g)) := by
  induction d with
  | nil => rfl
  | cons kv d ih =>
    simp only [List.map_cons, List.mem_cons, forall_eq_or_imp] at hf
    by_cases hk : kv.1 = k
    · simp [upsert, hk]
    · have hne : f kv.1 ≠ f k := fun h => hk (hf.1 h)
      simp only [upsert, if_neg hk, List.map_cons, Prod.map_fst, ih hf.2]
      exact (if_neg hne).symm

section Pairs

theorem foldl_upsert_nodup (kvs : List (κ × ν)) (d : List (κ × ν))
    (hn : (d.map Prod.fst).Nodup) :
    ((kvs.foldl (fun d kv => upsert kv.1 kv.2 d) d).map Prod.fst).Nodup := by
  induction kvs generalizing d with
  | nil => exact hn
  | cons kv kvs ih => exact ih _ (nodup_upsert hn kv.1 kv.2)

theorem nodup_ofPairs (kvs : List (κ × ν)) : ((ofPairs kvs).map Prod.fst).Nodup :=
  foldl_upsert_nodup kvs [] (by simp)

theorem get?_foldl_upsert (k : κ) (kvs : List (κ × ν)) (d : List (κ × ν)) :
    get? k (kvs.foldl (fun d kv => upsert kv.1 kv.2 d) d) = (last? k kvs).or (get? k d) := by
  induction kvs generalizing d with
  | nil => simp [last?]
  | cons kv kvs ih =>
    rw [List.foldl_cons, ih, get?_upsert, last?, Option.or_assoc]
    by_cases hk : k = kv.1
    · simp [hk]
    · simp [hk, Ne.symm hk]

/-- Writing pairs from left to right keeps the last one of each key. -/
theorem get?_ofPairs (k : κ) (kvs : List (κ × ν)) : get? k (ofPairs kvs) = last? k kvs := by
  rw [ofPairs, get?_foldl_upsert]
  simp

theorem mem_ofPairs {k : κ} {v : ν} {kvs : List (κ × ν)} :
    (k, v) ∈ ofPairs kvs ↔ last? k kvs = some v := by
  rw [← get?_ofPairs]
  exact ⟨get?_of_mem (nodup_ofPairs kvs), mem_of_get?⟩

theorem upsert_of_not_mem {k : κ} {d : List (κ × ν)} (h : k ∉ d.map Prod.fst) (v : ν) :
    upsert k v d = d ++ [(k, v)] := by
  induction d with
  | nil => rfl
  | cons kv d ih =>
    rw [List.map_cons, List.mem_cons, not_or] at h
    rw [upsert, if_neg (Ne.symm h.1), ih h.2, List.cons_append]

/-- Pairs with distinct keys are the map they write. -/
theorem ofPairs_of_nodup {kvs : List (κ × ν)} (h : (kvs.map Prod.fst).Nodup) :
    ofPairs kvs = kvs := by
  induction kvs using List.reverseRecOn with
  | nil => rfl
  | append_singleton kvs kv ih =>
    rw [List.map_append, List.nodup_append] at h
    obtain ⟨hkvs, -, hdisjoint⟩ := h
    have hnew : kv.1 ∉ kvs.map Prod.fst := fun hmem => hdisjoint kv.1 hmem kv.1 (by simp) rfl
    have hfold : ofPairs (kvs ++ [kv]) = upsert kv.1 kv.2 (ofPairs kvs) := by
      rw [ofPairs, List.foldl_append]
      rfl
    rw [hfold, ih hkvs, upsert_of_not_mem hnew]

theorem last?_eq_none_iff {k : κ} {kvs : List (κ × ν)} :
    last? k kvs = none ↔ k ∉ kvs.map Prod.fst := by
  induction kvs with
  | nil => simp [last?]
  | cons kv kvs ih =>
    simp only [last?, Option.or_eq_none_iff, ih, List.map_cons, List.mem_cons, not_or,
      eq_comm (a := k)]
    constructor
    · rintro ⟨h, h'⟩
      exact ⟨fun he => by simp [he] at h', h⟩
    · rintro ⟨h, h'⟩
      exact ⟨h', if_neg h⟩

theorem mem_of_last? {k : κ} {v : ν} {kvs : List (κ × ν)} (h : last? k kvs = some v) :
    (k, v) ∈ kvs := by
  induction kvs with
  | nil => simp [last?] at h
  | cons kv kvs ih =>
    simp only [last?, Option.or_eq_some_iff] at h
    obtain h | ⟨-, h⟩ := h
    · exact List.mem_cons_of_mem _ (ih h)
    · split at h
      · next hk =>
        cases h
        subst hk
        simp
      · cases h

theorem last?_map (g : ν → μ) (k : κ) (kvs : List (κ × ν)) :
    last? k (kvs.map (Prod.map id g)) = (last? k kvs).map g := by
  induction kvs with
  | nil => rfl
  | cons kv kvs ih =>
    rw [List.map_cons, last?, last?, ih]
    cases last? k kvs with
    | some v => rfl
    | none =>
      by_cases hk : kv.1 = k
      · simp [Prod.map, hk]
      · simp [Prod.map, hk]

theorem map_foldl_upsert {f : κ → ι} {g : ν → μ} (kvs : List (κ × ν)) (d : List (κ × ν))
    (hf : ∀ a ∈ d.map Prod.fst ++ kvs.map Prod.fst, ∀ b ∈ kvs.map Prod.fst, f a = f b → a = b) :
    (kvs.foldl (fun d kv => upsert kv.1 kv.2 d) d).map (Prod.map f g) =
      (kvs.map (Prod.map f g)).foldl (fun d kv => upsert kv.1 kv.2 d) (d.map (Prod.map f g)) := by
  induction kvs generalizing d with
  | nil => rfl
  | cons kv kvs ih =>
    simp only [List.foldl_cons, List.map_cons]
    rw [ih, map_upsert]
    · rfl
    · intro a ha
      exact hf a (by simp [ha]) kv.1 (by simp)
    · intro a ha b hb
      refine hf a ?_ b (by simp only [List.map_cons, List.mem_cons]; exact .inr hb)
      rw [keys_upsert] at ha
      simp only [List.map_cons, List.mem_append, List.mem_cons] at ha ⊢
      split at ha
      · tauto
      · simp only [List.mem_append, List.mem_singleton] at ha
        tauto

/-- Renaming the keys of the pairs injectively renames the keys of the map. -/
theorem map_ofPairs {f : κ → ι} {g : ν → μ} (kvs : List (κ × ν))
    (hf : ∀ a ∈ kvs.map Prod.fst, ∀ b ∈ kvs.map Prod.fst, f a = f b → a = b) :
    (ofPairs kvs).map (Prod.map f g) = ofPairs (kvs.map (Prod.map f g)) :=
  map_foldl_upsert kvs [] (by simpa using hf)

end Pairs

end Assoc
