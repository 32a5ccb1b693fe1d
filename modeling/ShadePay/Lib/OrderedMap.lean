import Mathlib.Data.List.Nodup
import Mathlib.Data.List.NodupEquivFin
import Mathlib.Tactic.Common

/-!
# Maps in insertion order

The keyed collection of JavaScript. `set` overwrites the value of a key where it stands and appends a
new key at the end, so that `entries` lists the pairs in the order in which their keys first arrived.
The keys are distinct, which the type carries.
-/

/-- A map with its entries in insertion order. -/
structure OrderedMap (K V : Type) where
  entries : List (K × V)
  nodup : (entries.map Prod.fst).Nodup

namespace OrderedMap

variable {K V : Type}

/-- No entries. -/
def empty : OrderedMap K V := ⟨[], List.nodup_nil⟩

/-- The keys, in order. -/
def keys (m : OrderedMap K V) : List K := m.entries.map Prod.fst

/-- The values, in order. -/
def values (m : OrderedMap K V) : List V := m.entries.map Prod.snd

/-- The number of entries. -/
def size (m : OrderedMap K V) : ℕ := m.entries.length

section
variable [DecidableEq K]

/-- Overwrite where the key stands, or append. -/
def setEntries (k : K) (v : V) : List (K × V) → List (K × V)
  | [] => [(k, v)]
  | e :: es => if e.1 = k then (k, v) :: es else e :: setEntries k v es

/-- A key that is set keeps its place, and a new one comes last. -/
theorem keys_setEntries (k : K) (v : V) (es : List (K × V)) :
    (setEntries k v es).map Prod.fst =
      if k ∈ es.map Prod.fst then es.map Prod.fst else es.map Prod.fst ++ [k] := by
  induction es with
  | nil => simp [setEntries]
  | cons e es ih =>
      by_cases he : e.1 = k
      · simp [setEntries, he]
      · have he' : k ≠ e.1 := fun h => he h.symm
        simp only [setEntries, he, if_false, List.map_cons, ih, List.mem_cons, he', false_or]
        split <;> simp

/-- `set`. -/
def set (k : K) (v : V) (m : OrderedMap K V) : OrderedMap K V where
  entries := setEntries k v m.entries
  nodup := by
    rw [keys_setEntries]
    split
    · exact m.nodup
    · rename_i hk
      exact List.nodup_append.2 ⟨m.nodup, List.nodup_singleton k, fun a ha b hb hab => by
        rw [List.mem_singleton] at hb
        exact hk (hb ▸ hab ▸ ha)⟩

/-- `get`. -/
def get? (k : K) (m : OrderedMap K V) : Option V := (m.entries.find? (·.1 = k)).map Prod.snd

/-- `has`. -/
def has (k : K) (m : OrderedMap K V) : Bool := decide (k ∈ m.keys)

/-- What is found after a key is set. -/
theorem find?_setEntries (k j : K) (v : V) (es : List (K × V)) :
    ((setEntries k v es).find? (·.1 = j)).map Prod.snd =
      if j = k then some v else (es.find? (·.1 = j)).map Prod.snd := by
  induction es with
  | nil =>
      by_cases hj : j = k
      · simp [setEntries, hj]
      · simp [setEntries, hj, Ne.symm hj]
  | cons e es ih =>
      by_cases he : e.1 = k
      · by_cases hj : j = k
        · simp [setEntries, he, hj]
        · simp [setEntries, he, hj, Ne.symm hj]
      · by_cases hej : e.1 = j
        · have hj : j ≠ k := fun h => he (hej.trans h)
          simp [setEntries, hej, hj]
        · simpa [setEntries, he, hej] using ih

theorem get?_set (k j : K) (v : V) (m : OrderedMap K V) :
    (m.set k v).get? j = if j = k then some v else m.get? j := find?_setEntries k j v m.entries

@[simp] theorem get?_set_self (k : K) (v : V) (m : OrderedMap K V) : (m.set k v).get? k = some v := by
  simp [get?_set]

/-- Every other key. -/
theorem get?_set_of_ne {k j : K} (h : j ≠ k) (v : V) (m : OrderedMap K V) :
    (m.set k v).get? j = m.get? j := by
  simp [get?_set, h]

/-- The keys after one is set. -/
theorem mem_keys_set {k j : K} {v : V} {m : OrderedMap K V} :
    j ∈ (m.set k v).keys ↔ j = k ∨ j ∈ m.keys := by
  rw [keys, set, keys_setEntries]
  split
  · rename_i hk
    exact ⟨.inr, fun h => h.elim (fun h => h ▸ hk) id⟩
  · simp [keys, or_comm]

/-- A new entry comes last. -/
theorem setEntries_of_not_mem {k : K} {v : V} {es : List (K × V)} (hk : k ∉ es.map Prod.fst) :
    setEntries k v es = es ++ [(k, v)] := by
  induction es with
  | nil => rfl
  | cons e es ih =>
      simp only [List.map_cons, List.mem_cons, not_or] at hk
      rw [setEntries, if_neg (Ne.symm hk.1), ih hk.2, List.cons_append]

/-- Values under new and distinct keys are appended in order. -/
theorem values_foldl_set (key : V → K) (vs : List V) {m : OrderedMap K V}
    (h : (m.keys ++ vs.map key).Nodup) :
    (vs.foldl (fun m v => m.set (key v) v) m).values = m.values ++ vs := by
  induction vs generalizing m with
  | nil => simp
  | cons v vs ih =>
      rw [List.map_cons, List.append_cons] at h
      have hk : key v ∉ m.keys := fun hmem =>
        List.disjoint_of_nodup_append (List.nodup_append.1 h).1 hmem (List.mem_singleton_self _)
      have hset : (m.set (key v) v).entries = m.entries ++ [(key v, v)] := setEntries_of_not_mem hk
      rw [List.foldl_cons, ih (by simpa [keys, hset] using h)]
      simp [values, hset]

/-- An entry is read at its key. -/
theorem get?_of_mem {m : OrderedMap K V} {e : K × V} (h : e ∈ m.entries) : m.get? e.1 = some e.2 := by
  obtain ⟨es, hnodup⟩ := m
  simp only [get?] at h ⊢
  induction es with
  | nil => simp at h
  | cons a es ih =>
      simp only [List.map_cons, List.nodup_cons] at hnodup
      rcases List.mem_cons.1 h with rfl | h
      · simp
      · have hne : a.1 ≠ e.1 := fun he => hnodup.1 (he ▸ List.mem_map_of_mem h)
        simpa [hne] using ih hnodup.2 h

/-- What is read is an entry. -/
theorem mem_of_get? {m : OrderedMap K V} {k : K} {v : V} (h : m.get? k = some v) :
    (k, v) ∈ m.entries := by
  obtain ⟨e, he, rfl⟩ := Option.map_eq_some_iff.1 h
  have hk := List.find?_some he
  simp only [decide_eq_true_eq] at hk
  exact hk ▸ List.mem_of_find?_eq_some he

/-- The values are what can be read. -/
theorem mem_values_iff {m : OrderedMap K V} {v : V} : v ∈ m.values ↔ ∃ k, m.get? k = some v := by
  simp only [values, List.mem_map, Prod.exists, exists_eq_right]
  constructor
  · rintro ⟨k, hk⟩
    exact ⟨k, get?_of_mem hk⟩
  · rintro ⟨k, hk⟩
    exact ⟨k, mem_of_get? hk⟩

/-- A map that gives no value to two keys lists each value once. -/
theorem nodup_values {m : OrderedMap K V}
    (h : ∀ j k v, m.get? j = some v → m.get? k = some v → j = k) : m.values.Nodup := by
  have hentries : m.entries.Nodup := List.Nodup.of_map Prod.fst m.nodup
  refine List.Nodup.map_on (fun a ha b hb hab => ?_) hentries
  have hb' := get?_of_mem hb
  rw [← hab] at hb'
  exact Prod.ext (h _ _ _ (get?_of_mem ha) hb') hab

end

@[simp] theorem keys_empty : (empty : OrderedMap K V).keys = [] := rfl

end OrderedMap
