import Mathlib.Tactic

/-!
# Tables as lists of rows

What `UPDATE … WHERE`, `INSERT … ON CONFLICT` and `DELETE … WHERE` do to a table, and when they leave
the rows of a part of it as they are. `update_filter_iff` is the frame rule, with its converse for a
table whose rows have distinct keys.
-/

namespace Table

section
variable {α κ : Type*}

/-- `UPDATE`: the rows that meet `p` become `f` of them. -/
def update (p : α → Bool) (f : α → α) (rows : List α) : List α :=
  rows.map fun r => if p r then f r else r

/-- `INSERT … ON CONFLICT DO UPDATE`: the rows in conflict are updated, or the new one is added. -/
def upsert (p : α → Bool) (f : α → α) (new : α) (rows : List α) : List α :=
  if rows.any p then update p f rows else rows ++ [new]

/-- `INSERT … ON CONFLICT DO NOTHING`. -/
def insertNew (p : α → Bool) (new : α) (rows : List α) : List α :=
  if rows.any p then rows else rows ++ [new]

/-- `DELETE`: the rows that meet `p` go. -/
def delete (p : α → Bool) (rows : List α) : List α := rows.filter fun r => !p r

variable {p q : α → Bool} {f : α → α} {new : α} {rows : List α}

theorem mem_update {r : α} : r ∈ update p f rows ↔ ∃ s ∈ rows, (if p s then f s else s) = r :=
  List.mem_map

theorem mem_delete {r : α} : r ∈ delete p rows ↔ r ∈ rows ∧ p r = false := by
  simp [delete]

/-- The rows after an insertion that may conflict. -/
theorem mem_insertNew {r : α} :
    r ∈ insertNew p new rows ↔ r ∈ rows ∨ rows.any p = false ∧ r = new := by
  unfold insertNew
  split
  · next h => simp [h]
  · next h => simp [Bool.eq_false_iff.2 h]

/-- An insertion keeps the rows in their order. -/
theorem prefix_insertNew : rows <+: insertNew p new rows := by
  unfold insertNew
  split
  · exact List.prefix_refl _
  · exact List.prefix_append _ _

/-- An update that keeps a column keeps the column. -/
theorem map_update {key : α → κ} (hkey : ∀ r ∈ rows, p r → key (f r) = key r) :
    (update p f rows).map key = rows.map key := by
  rw [update, List.map_map]
  refine List.map_congr_left fun r hr => ?_
  rw [Function.comp_apply]
  split
  · next hp => exact hkey r hr hp
  · rfl

/-- Rows with one key are one row. -/
theorem eq_of_key {key : α → κ} (hn : (rows.map key).Nodup) {r s : α} (hr : r ∈ rows)
    (hs : s ∈ rows) (h : key r = key s) : r = s := List.inj_on_of_nodup_map hn hr hs h

/-- **Frame.** A part of the table stays as it is when its rows do and no other row joins it. -/
theorem filter_update (h : ∀ r ∈ rows, p r → (q r → f r = r) ∧ (q r = false → q (f r) = false)) :
    (update p f rows).filter q = rows.filter q := by
  induction rows with
  | nil => rfl
  | cons r rows ih =>
      have ih := ih fun s hs => h s (List.mem_cons_of_mem _ hs)
      have hr := h r List.mem_cons_self
      rw [update, List.map_cons, List.filter_cons, List.filter_cons]
      rw [update] at ih
      cases hp : p r with
      | false => simp only [Bool.false_eq_true, if_false, ih]
      | true =>
          cases hq : q r with
          | true => simp only [if_true, (hr hp).1 hq, hq, ih]
          | false => simp only [if_true, (hr hp).2 hq, Bool.false_eq_true, if_false, ih]

/-- A part of the table that stays as it is has no row that an update changes. -/
theorem eq_of_filter_update {key : α → κ} (hn : (rows.map key).Nodup)
    (hkey : ∀ r, key (f r) = key r) (h : (update p f rows).filter q = rows.filter q) {r : α}
    (hr : r ∈ rows) (hp : p r) (hq : q r) : f r = r := by
  -- the row is still there, and only itself can have become it
  have hmem : r ∈ (update p f rows).filter q := h ▸ List.mem_filter.2 ⟨hr, hq⟩
  obtain ⟨s, hs, hsr⟩ := mem_update.1 (List.mem_filter.1 hmem).1
  have hks : key s = key r := by
    rw [← hsr]
    split
    · exact (hkey s).symm
    · rfl
  obtain rfl := eq_of_key hn hs hr hks
  rwa [if_pos hp] at hsr

/-- The frame rule and its converse. -/
theorem update_filter_iff {key : α → κ} (hn : (rows.map key).Nodup)
    (hkey : ∀ r, key (f r) = key r) (hjoin : ∀ r, q r = false → q (f r) = false) :
    (update p f rows).filter q = rows.filter q ↔ ∀ r ∈ rows, p r → q r → f r = r :=
  ⟨fun h _ hr hp hq => eq_of_filter_update hn hkey h hr hp hq,
    fun h => filter_update fun r hr hp => ⟨h r hr hp, hjoin r⟩⟩

/-- The same for an upsert whose new row is not of that part. -/
theorem upsert_filter_iff {key : α → κ} (hn : (rows.map key).Nodup)
    (hkey : ∀ r, key (f r) = key r) (hjoin : ∀ r, q r = false → q (f r) = false)
    (hnew : q new = false) :
    (upsert p f new rows).filter q = rows.filter q ↔ ∀ r ∈ rows, p r → q r → f r = r := by
  unfold upsert
  split
  · exact update_filter_iff hn hkey hjoin
  · next hany =>
    have hnone : ∀ r ∈ rows, p r = false := by simpa using hany
    rw [List.filter_append, List.filter_cons_of_neg (by simp [hnew])]
    simp only [List.filter_nil, List.append_nil, true_iff]
    intro r hr hp
    rw [hnone r hr] at hp
    cases hp

/-- An update that takes the rows it changes out of a part of the table. -/
theorem filter_update_of_leaves (hleave : ∀ r, q (f r) = false) :
    (update p f rows).filter q = rows.filter fun r => q r && !p r := by
  induction rows with
  | nil => rfl
  | cons r rows ih =>
      rw [update] at ih
      rw [update, List.map_cons, List.filter_cons, List.filter_cons, ih]
      cases hp : p r with
      | true => simp [hleave]
      | false => simp

/-- The same for an upsert whose new row is not of that part. -/
theorem filter_upsert_of_leaves (hleave : ∀ r, q (f r) = false) (hnew : q new = false) :
    (upsert p f new rows).filter q = rows.filter fun r => q r && !p r := by
  unfold upsert
  split
  · exact filter_update_of_leaves hleave
  · next hany =>
    have hnone : ∀ r ∈ rows, p r = false := by simpa using hany
    rw [List.filter_append, List.filter_cons_of_neg (by simp [hnew]), List.filter_nil,
      List.append_nil]
    refine List.filter_congr fun r hr => ?_
    rw [hnone r hr, Bool.not_false, Bool.and_true]

/-- The part without some rows is the whole part when none of them is in it. -/
theorem filter_and_not_iff :
    (rows.filter fun r => q r && !p r) = rows.filter q ↔ ∀ r ∈ rows, p r → q r = false := by
  constructor
  · intro h r hr hp
    by_contra hq
    have hmem : r ∈ rows.filter fun r => q r && !p r :=
      h ▸ List.mem_filter.2 ⟨hr, by simpa using hq⟩
    simp [hp] at hmem
  · intro h
    refine List.filter_congr fun r hr => ?_
    cases hp : p r with
    | true => rw [h r hr hp]; rfl
    | false => simp

/-- A delete of rows outside a part of the table. -/
theorem filter_delete (h : ∀ r ∈ rows, p r → q r = false) :
    (delete p rows).filter q = rows.filter q := by
  rw [delete, List.filter_filter]
  refine List.filter_congr fun r hr => ?_
  cases hp : p r with
  | true => rw [h r hr hp]; rfl
  | false => simp

/-! ## Lookups -/

/-- A lookup by a condition that an update keeps finds the row, updated. -/
theorem find?_update (h : ∀ r, p r → q (f r) = q r) :
    (update p f rows).find? q = (rows.find? q).map fun r => if p r then f r else r := by
  rw [update, List.find?_map]
  congr 2
  funext r
  rw [Function.comp_apply]
  split
  · next hp => exact h r hp
  · rfl

/-! ## Keys -/

/-- A property of rows that updates keep and new rows have. -/
theorem forall_upsert {P : α → Prop} (h : ∀ r ∈ rows, P r) (hf : ∀ r, P r → P (f r))
    (hnew : P new) : ∀ r ∈ upsert p f new rows, P r := by
  unfold upsert
  split
  · intro r hr
    obtain ⟨s, hs, rfl⟩ := mem_update.1 hr
    split
    · exact hf s (h s hs)
    · exact h s hs
  · intro r hr
    rcases List.mem_append.1 hr with hr | hr
    · exact h r hr
    · exact List.mem_singleton.1 hr ▸ hnew

/-- An upsert that keeps a column keeps its entries. -/
theorem mem_map_upsert {key : α → κ} (hkey : ∀ r, p r → key (f r) = key r) {k : κ}
    (hk : k ∈ rows.map key) : k ∈ (upsert p f new rows).map key := by
  unfold upsert
  split
  · rwa [map_update fun r _ => hkey r]
  · rw [List.map_append]
    exact List.mem_append_left _ hk

/-- Keys stay distinct when the new row has one of its own. -/
theorem nodup_upsert {key : α → κ} (hn : (rows.map key).Nodup)
    (hkey : ∀ r, p r → key (f r) = key r) (hnew : rows.any p = false → key new ∉ rows.map key) :
    ((upsert p f new rows).map key).Nodup := by
  unfold upsert
  split
  · rwa [map_update fun r _ => hkey r]
  · next hany =>
    rw [List.map_append, List.map_singleton]
    exact List.Nodup.append hn (List.nodup_singleton _)
      (List.disjoint_singleton.2 (hnew (Bool.eq_false_iff.2 hany)))

/-- The same for a row that goes in when none is in conflict. -/
theorem nodup_insertNew {key : α → κ} (hn : (rows.map key).Nodup)
    (hnew : rows.any p = false → ∀ r ∈ rows, key r ≠ key new) :
    ((insertNew p new rows).map key).Nodup := by
  unfold insertNew
  split
  · exact hn
  · next h =>
    rw [List.map_append]
    refine List.Nodup.append hn (List.nodup_singleton _) (List.disjoint_singleton.2 fun hmem => ?_)
    obtain ⟨r, hr, hkey⟩ := List.mem_map.1 hmem
    exact hnew (Bool.eq_false_iff.2 h) r hr hkey

theorem nodup_delete {key : α → κ} (hn : (rows.map key).Nodup) :
    ((delete p rows).map key).Nodup := hn.sublist (List.filter_sublist.map key)

/-- Where the rows of other owners stay as they are, no row changes its owner. -/
theorem owner_eq {ω : Type*} [DecidableEq ω] {rows' : List α} {key : α → κ} {owner : α → ω} {u : ω}
    (hn : (rows.map key).Nodup) (hn' : (rows'.map key).Nodup)
    (h : rows'.filter (fun r => owner r ≠ u) = rows.filter fun r => owner r ≠ u) {r r' : α}
    (hr : r ∈ rows) (hr' : r' ∈ rows') (hkey : key r' = key r) : owner r' = owner r := by
  rcases eq_or_ne (owner r) u with hu | hu
  · by_contra hne
    have hmem : r' ∈ rows.filter fun r => owner r ≠ u :=
      h ▸ List.mem_filter.2 ⟨hr', by simpa [hu] using hne⟩
    exact hne (congrArg owner (eq_of_key hn (List.mem_filter.1 hmem).1 hr hkey))
  · have hmem : r ∈ rows'.filter fun r => owner r ≠ u :=
      h ▸ List.mem_filter.2 ⟨hr, by simpa using hu⟩
    exact congrArg owner (eq_of_key hn' hr' (List.mem_filter.1 hmem).1 hkey)

end

end Table
