import Mathlib.Algebra.GroupWithZero.Nat
import Mathlib.Data.List.Pairwise
import Mathlib.Order.Lattice
import FlightTestLab.Library.Assoc

/-!
# Finite maps up to the order of their items

A finite map whose items are kept in the order of their keys, so that two maps with
the same values are equal. It stands for a mapping whose insertion order nothing
depends on.

## Main definitions

- `Dict`: a finite map
- `Dict.get?`, `Dict.insert`: reading and writing one key
- `Dict.ofPairs`: writing a sequence of pairs
- `Dict.map`, `Dict.sum`: a function over the values

## Main results

- `Dict.ext_get?`: maps with the same values are equal
- `Dict.ofPairs_entries`: a map is what its items write
-/

/-- A finite map; its items are in strictly increasing order of their keys. -/
structure Dict (κ ν : Type*) [LinearOrder κ] where
  entries : List (κ × ν)
  sorted : (entries.map Prod.fst).Pairwise (· < ·)

namespace Dict

variable {κ ν μ : Type*} [LinearOrder κ]

instance [DecidableEq ν] : DecidableEq (Dict κ ν) := fun d e =>
  decidable_of_iff (d.entries = e.entries)
    ⟨fun h => by cases d; cases e; congr, fun h => h ▸ rfl⟩

def empty : Dict κ ν := ⟨[], List.Pairwise.nil⟩

/-- The value under a key. -/
def get? (d : Dict κ ν) (k : κ) : Option ν := Assoc.get? k d.entries

section Insert

/-- Write one pair into a list of items in order. -/
def insertEntry (k : κ) (v : ν) : List (κ × ν) → List (κ × ν)
  | [] => [(k, v)]
  | (k', v') :: items =>
    if k < k' then (k, v) :: (k', v') :: items
    else if k = k' then (k, v) :: items
    else (k', v') :: insertEntry k v items

theorem mem_insertEntry {k a : κ} {v b : ν} {items : List (κ × ν)}
    (h : (a, b) ∈ insertEntry k v items) : a = k ∧ b = v ∨ (a, b) ∈ items := by
  induction items with
  | nil =>
    rw [insertEntry, List.mem_singleton] at h
    exact .inl (Prod.mk.inj h)
  | cons item items ih =>
    rw [insertEntry] at h
    split_ifs at h
    · obtain h | h := List.mem_cons.mp h
      · exact .inl (Prod.mk.inj h)
      · exact .inr h
    · obtain h | h := List.mem_cons.mp h
      · exact .inl (Prod.mk.inj h)
      · exact .inr (List.mem_cons_of_mem _ h)
    · obtain h | h := List.mem_cons.mp h
      · exact .inr (h ▸ List.mem_cons_self)
      · exact (ih h).imp id (List.mem_cons_of_mem _)

theorem sorted_insertEntry (k : κ) (v : ν) {items : List (κ × ν)}
    (h : (items.map Prod.fst).Pairwise (· < ·)) :
    ((insertEntry k v items).map Prod.fst).Pairwise (· < ·) := by
  induction items with
  | nil => simp [insertEntry]
  | cons item items ih =>
    obtain ⟨k', v'⟩ := item
    rw [List.map_cons, List.pairwise_cons] at h
    obtain ⟨hlt, hrest⟩ := h
    rw [insertEntry]
    split_ifs with hk he
    · rw [List.map_cons, List.map_cons, List.pairwise_cons, List.pairwise_cons]
      refine ⟨?_, hlt, hrest⟩
      intro a ha
      obtain rfl | ha := List.mem_cons.mp ha
      · exact hk
      · exact lt_trans hk (hlt a ha)
    · subst he
      exact List.pairwise_cons.mpr ⟨hlt, hrest⟩
    · rw [List.map_cons, List.pairwise_cons]
      refine ⟨?_, ih hrest⟩
      intro a ha
      obtain ⟨⟨b, w⟩, hmem, rfl⟩ := List.mem_map.mp ha
      obtain ⟨rfl, -⟩ | hmem := mem_insertEntry hmem
      · exact lt_of_le_of_ne (not_lt.mp hk) (Ne.symm he)
      · exact hlt b (List.mem_map_of_mem hmem)

theorem get?_insertEntry (k k' : κ) (v : ν) (items : List (κ × ν)) :
    Assoc.get? k' (insertEntry k v items) = if k = k' then some v else Assoc.get? k' items := by
  induction items with
  | nil => rfl
  | cons item items ih =>
    obtain ⟨a, b⟩ := item
    rw [insertEntry]
    by_cases hlt : k < a
    · rw [if_pos hlt]
      rfl
    by_cases heq : k = a
    · subst heq
      rw [if_neg hlt, if_pos rfl]
      show (if k = k' then some v else Assoc.get? k' items) =
        if k = k' then some v else if k = k' then some b else Assoc.get? k' items
      by_cases hk : k = k'
      · rw [if_pos hk, if_pos hk]
      · rw [if_neg hk, if_neg hk, if_neg hk]
    · rw [if_neg hlt, if_neg heq]
      show (if a = k' then some b else Assoc.get? k' (insertEntry k v items)) =
        if k = k' then some v else if a = k' then some b else Assoc.get? k' items
      rw [ih]
      by_cases hk : k = k'
      · rw [if_pos hk, if_pos hk, if_neg fun h => heq (hk.trans h.symm)]
      · rw [if_neg hk, if_neg hk]

end Insert

/-- Write a value under a key. -/
def insert (d : Dict κ ν) (k : κ) (v : ν) : Dict κ ν :=
  ⟨insertEntry k v d.entries, sorted_insertEntry k v d.sorted⟩

/-- Write pairs from left to right into an empty map. -/
def ofPairs (kvs : List (κ × ν)) : Dict κ ν := kvs.foldl (fun d kv => d.insert kv.1 kv.2) empty

@[simp] theorem get?_empty (k : κ) : (empty : Dict κ ν).get? k = none := rfl

theorem get?_insert (d : Dict κ ν) (k k' : κ) (v : ν) :
    (d.insert k v).get? k' = if k = k' then some v else d.get? k' :=
  get?_insertEntry k k' v d.entries

@[simp] theorem get?_insert_self (d : Dict κ ν) (k : κ) (v : ν) :
    (d.insert k v).get? k = some v := by
  rw [get?_insert, if_pos rfl]

theorem get?_insert_of_ne (d : Dict κ ν) {k k' : κ} (h : k' ≠ k) (v : ν) :
    (d.insert k v).get? k' = d.get? k' := by
  rw [get?_insert, if_neg (Ne.symm h)]

theorem nodup_keys (d : Dict κ ν) : (d.entries.map Prod.fst).Nodup :=
  d.sorted.imp ne_of_lt

theorem mem_entries_iff {d : Dict κ ν} {k : κ} {v : ν} :
    (k, v) ∈ d.entries ↔ d.get? k = some v :=
  ⟨Assoc.get?_of_mem d.nodup_keys, Assoc.mem_of_get?⟩

section Ext

private theorem head_eq {k a : κ} {v b : ν} {items rest : List (κ × ν)}
    (hi : (((k, v) :: items).map Prod.fst).Pairwise (· < ·))
    (hr : (((a, b) :: rest).map Prod.fst).Pairwise (· < ·))
    (h : ∀ x, Assoc.get? x ((k, v) :: items) = Assoc.get? x ((a, b) :: rest)) : k = a := by
  have hka : (k, v) ∈ (a, b) :: rest := by
    apply Assoc.mem_of_get?
    rw [← h k, Assoc.get?, if_pos rfl]
  have hak : (a, b) ∈ (k, v) :: items := by
    apply Assoc.mem_of_get?
    rw [h a, Assoc.get?, if_pos rfl]
  obtain he | hka := List.mem_cons.mp hka
  · exact (Prod.mk.inj he).1
  obtain he | hak := List.mem_cons.mp hak
  · exact (Prod.mk.inj he).1.symm
  -- each head would lie strictly below the other
  have hlt := (List.pairwise_cons.mp hr).1 k (List.mem_map_of_mem hka)
  have hgt := (List.pairwise_cons.mp hi).1 a (List.mem_map_of_mem hak)
  exact absurd (lt_trans hlt hgt) (lt_irrefl _)

private theorem entries_eq {items rest : List (κ × ν)}
    (hi : (items.map Prod.fst).Pairwise (· < ·)) (hr : (rest.map Prod.fst).Pairwise (· < ·))
    (h : ∀ k, Assoc.get? k items = Assoc.get? k rest) : items = rest := by
  induction items generalizing rest with
  | nil =>
    cases rest with
    | nil => rfl
    | cons item rest => simpa [Assoc.get?] using h item.1
  | cons item items ih =>
    obtain ⟨k, v⟩ := item
    cases rest with
    | nil => simpa [Assoc.get?] using h k
    | cons other rest =>
      obtain ⟨a, b⟩ := other
      obtain rfl := head_eq hi hr h
      have hv := h k
      rw [Assoc.get?, Assoc.get?, if_pos rfl, if_pos rfl, Option.some.injEq] at hv
      rw [List.map_cons, List.pairwise_cons] at hi hr
      rw [hv, ih hi.2 hr.2]
      intro x
      by_cases hx : k = x
      · subst hx
        have hnot (l : List (κ × ν)) (hl : ∀ y ∈ l.map Prod.fst, k < y) :
            Assoc.get? k l = none :=
          Assoc.get?_eq_none_iff.mpr fun hmem => lt_irrefl _ (hl k hmem)
        rw [hnot items hi.1, hnot rest hr.1]
      · have hx' := h x
        rwa [Assoc.get?, Assoc.get?, if_neg hx, if_neg hx] at hx'

/-- Maps with the same values are equal. -/
theorem ext_get? {d e : Dict κ ν} (h : ∀ k, d.get? k = e.get? k) : d = e := by
  obtain ⟨items, hi⟩ := d
  obtain ⟨rest, hr⟩ := e
  obtain rfl := entries_eq hi hr h
  rfl

end Ext

section OfPairs

private theorem get?_foldl_insert (k : κ) (kvs : List (κ × ν)) (d : Dict κ ν) :
    (kvs.foldl (fun d kv => d.insert kv.1 kv.2) d).get? k = (Assoc.last? k kvs).or (d.get? k) := by
  induction kvs generalizing d with
  | nil => rfl
  | cons kv kvs ih =>
    rw [List.foldl_cons, ih, get?_insert, Assoc.last?, Option.or_assoc]
    by_cases hk : kv.1 = k
    · rw [if_pos hk, if_pos hk, Option.some_or]
    · rw [if_neg hk, if_neg hk, Option.none_or]

theorem get?_ofPairs (k : κ) (kvs : List (κ × ν)) : (ofPairs kvs).get? k = Assoc.last? k kvs := by
  rw [ofPairs, get?_foldl_insert, get?_empty, Option.or_none]

theorem get?_ofPairs_of_nodup (k : κ) {kvs : List (κ × ν)} (h : (kvs.map Prod.fst).Nodup) :
    (ofPairs kvs).get? k = Assoc.get? k kvs := by
  rw [get?_ofPairs]
  induction kvs with
  | nil => rfl
  | cons kv kvs ih =>
    rw [List.map_cons, List.nodup_cons] at h
    rw [Assoc.last?, Assoc.get?, ih h.2]
    by_cases hk : kv.1 = k
    · have hnone : Assoc.get? k kvs = none := by
        apply Assoc.get?_eq_none_iff.mpr
        exact hk ▸ h.1
      rw [if_pos hk, if_pos hk, hnone, Option.none_or]
    · rw [if_neg hk, if_neg hk, Option.or_none]

theorem mem_of_get?_ofPairs {k : κ} {v : ν} {kvs : List (κ × ν)}
    (h : (ofPairs kvs).get? k = some v) : (k, v) ∈ kvs := by
  rw [get?_ofPairs] at h
  exact Assoc.mem_of_last? h

/-- A map is what its items write. -/
theorem ofPairs_entries (d : Dict κ ν) : ofPairs d.entries = d :=
  ext_get? fun k => get?_ofPairs_of_nodup k d.nodup_keys

end OfPairs

theorem insert_get? {d : Dict κ ν} {k : κ} {v : ν} (h : d.get? k = some v) : d.insert k v = d := by
  apply ext_get?
  intro k'
  rw [get?_insert]
  split_ifs with hk
  · rw [← hk, h]
  · rfl

section Map

/-- Apply a function to the values. -/
def map (f : ν → μ) (d : Dict κ ν) : Dict κ μ where
  entries := d.entries.map fun item => (item.1, f item.2)
  sorted := by
    rw [List.map_map]
    exact d.sorted

@[simp] theorem map_empty (f : ν → μ) : (empty : Dict κ ν).map f = empty := rfl

@[simp] theorem get?_map (f : ν → μ) (d : Dict κ ν) (k : κ) :
    (d.map f).get? k = (d.get? k).map f := by
  obtain ⟨items, h⟩ := d
  show Assoc.get? k (items.map fun item => (item.1, f item.2)) = (Assoc.get? k items).map f
  clear h
  induction items with
  | nil => rfl
  | cons item items ih =>
    rw [List.map_cons, Assoc.get?, Assoc.get?]
    split_ifs
    · rfl
    · exact ih

theorem map_insert (f : ν → μ) (d : Dict κ ν) (k : κ) (v : ν) :
    (d.insert k v).map f = (d.map f).insert k (f v) := by
  apply ext_get?
  intro k'
  rw [get?_map, get?_insert, get?_insert, get?_map]
  split_ifs <;> rfl

end Map

section Sum

/-- The sum of a function over the values. -/
def sum (f : ν → Nat) (d : Dict κ ν) : Nat := (d.entries.map fun item => f item.2).sum

@[simp] theorem sum_empty (f : ν → Nat) : sum f (empty : Dict κ ν) = 0 := rfl

theorem sum_map (f : μ → Nat) (g : ν → μ) (d : Dict κ ν) :
    (d.map g).sum f = d.sum fun v => f (g v) := by
  rw [sum, map, List.map_map]
  rfl

private theorem sum_insertEntry (f : ν → Nat) (k : κ) (v : ν) {items : List (κ × ν)}
    (h : (items.map Prod.fst).Pairwise (· < ·)) :
    ((insertEntry k v items).map fun item => f item.2).sum + ((Assoc.get? k items).map f).getD 0 =
      (items.map fun item => f item.2).sum + f v := by
  induction items with
  | nil => simp [insertEntry]
  | cons item items ih =>
    obtain ⟨a, b⟩ := item
    rw [List.map_cons, List.pairwise_cons] at h
    rw [insertEntry, Assoc.get?]
    by_cases hlt : k < a
    · have hnone : Assoc.get? k items = none := by
        rw [Assoc.get?_eq_none_iff]
        intro hmem
        exact absurd (h.1 k hmem) (lt_asymm hlt)
      rw [if_pos hlt, if_neg (ne_of_gt hlt), hnone, List.map_cons, List.sum_cons, List.map_cons,
        List.sum_cons]
      simp only [Option.map_none, Option.getD_none]
      omega
    by_cases heq : k = a
    · rw [if_neg hlt, if_pos heq, if_pos heq.symm, List.map_cons, List.sum_cons, List.map_cons,
        List.sum_cons]
      simp only [Option.map_some, Option.getD_some]
      omega
    · have hrest := ih h.2
      rw [if_neg hlt, if_neg heq, if_neg (Ne.symm heq), List.map_cons, List.sum_cons,
        List.map_cons, List.sum_cons]
      omega

/-- Writing a key trades its old value for the new one. -/
theorem sum_insert (f : ν → Nat) (d : Dict κ ν) (k : κ) (v : ν) :
    (d.insert k v).sum f + ((d.get? k).map f).getD 0 = d.sum f + f v :=
  sum_insertEntry f k v d.sorted

end Sum

end Dict
