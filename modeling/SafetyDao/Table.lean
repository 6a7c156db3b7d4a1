import Mathlib.Data.List.Nodup
import Mathlib.Data.List.Count
import Mathlib.Tactic.Common

/-!
# Tables with a unique key

A table is a list of rows in which no two rows share the key, so a violated
uniqueness constraint cannot be represented. The operations are the ones SQL
statements are made of: look a key up, select rows by a condition, insert a row
unless its key is taken, and change the rows that meet a condition without
touching their keys.
-/
namespace SafetyDao

structure Table {ρ κ : Type} (key : ρ → κ) where
  rows : List ρ
  nodup : (rows.map key).Nodup

namespace Table

variable {ρ κ : Type} {key : ρ → κ}

def empty : Table key := ⟨[], List.nodup_nil⟩

/-- Rows with equal keys are equal. -/
theorem eq_of_key_eq (t : Table key) {r s : ρ} (hr : r ∈ t.rows) (hs : s ∈ t.rows)
    (h : key r = key s) : r = s := List.inj_on_of_nodup_map t.nodup hr hs h

/-- A row splits its table into rows with other keys. -/
theorem exists_split {t : Table key} {r : ρ} (h : r ∈ t.rows) :
    ∃ xs ys, t.rows = xs ++ r :: ys ∧ (∀ s ∈ xs, key s ≠ key r) ∧ ∀ s ∈ ys, key s ≠ key r := by
  obtain ⟨xs, ys, hsplit⟩ := List.append_of_mem h
  have hn := t.nodup
  rw [hsplit, List.map_append, List.map_cons, List.nodup_append, List.nodup_cons] at hn
  refine ⟨xs, ys, hsplit, fun s hs he => ?_, fun s hs he => ?_⟩
  · exact hn.2.2 (key s) (List.mem_map_of_mem hs) (key r) (by simp) he
  · exact hn.2.1.1 (he ▸ List.mem_map_of_mem hs)

/-- `UPDATE ... WHERE`: apply `f` to the rows that satisfy `p`. -/
def updateWhere (t : Table key) (p : ρ → Bool) (f : ρ → ρ) (hf : ∀ r, key (f r) = key r) :
    Table key :=
  ⟨t.rows.map (fun r => if p r then f r else r), by
    have he : (t.rows.map (fun r => if p r then f r else r)).map key = t.rows.map key := by
      rw [List.map_map]
      refine List.map_congr_left fun r _ => ?_
      simp only [Function.comp_apply]
      split
      · exact hf r
      · rfl
    rw [he]
    exact t.nodup⟩

theorem mem_updateWhere {t : Table key} {p : ρ → Bool} {f : ρ → ρ}
    {hf : ∀ r, key (f r) = key r} {s : ρ} :
    s ∈ (t.updateWhere p f hf).rows ↔ ∃ r ∈ t.rows, (if p r then f r else r) = s := by
  simp [updateWhere]

variable [DecidableEq κ]

def find? (t : Table key) (k : κ) : Option ρ := t.rows.find? (fun r => key r = k)

theorem mem_of_find? {t : Table key} {k : κ} {r : ρ} (h : t.find? k = some r) : r ∈ t.rows :=
  List.mem_of_find?_eq_some h

theorem key_of_find? {t : Table key} {k : κ} {r : ρ} (h : t.find? k = some r) : key r = k :=
  by simpa using List.find?_some h

theorem find?_of_mem {t : Table key} {r : ρ} (h : r ∈ t.rows) : t.find? (key r) = some r := by
  cases hf : t.find? (key r) with
  | none => simpa using List.find?_eq_none.mp hf r h
  | some s => rw [t.eq_of_key_eq (mem_of_find? hf) h (key_of_find? hf)]

theorem find?_eq_some {t : Table key} {k : κ} {r : ρ} :
    t.find? k = some r ↔ r ∈ t.rows ∧ key r = k :=
  ⟨fun h => ⟨mem_of_find? h, key_of_find? h⟩, fun ⟨hr, hk⟩ => hk ▸ find?_of_mem hr⟩

theorem find?_eq_none {t : Table key} {k : κ} :
    t.find? k = none ↔ ∀ r ∈ t.rows, key r ≠ k := by simp [find?]

/-- `INSERT`: rejected when the key is taken. -/
def insert (t : Table key) (r : ρ) : Option (Table key) :=
  if h : key r ∈ t.rows.map key then none
  else some ⟨t.rows ++ [r], by
    rw [List.map_append, List.nodup_append]
    refine ⟨t.nodup, List.nodup_singleton _, fun a ha b hb he => h ?_⟩
    rw [List.map_singleton, List.mem_singleton] at hb
    rwa [← hb, ← he]⟩

theorem insert_eq_some {t t' : Table key} {r : ρ} :
    t.insert r = some t' ↔ t.find? (key r) = none ∧ t'.rows = t.rows ++ [r] := by
  unfold insert
  split
  · rename_i h
    obtain ⟨s, hs, hk⟩ := List.mem_map.mp h
    simp only [reduceCtorEq, false_iff, not_and]
    exact fun hn => absurd hk (find?_eq_none.mp hn s hs)
  · rename_i h
    have hn : t.find? (key r) = none :=
      find?_eq_none.mpr fun s hs hk => h (List.mem_map.mpr ⟨s, hs, hk⟩)
    cases t'
    simp [hn, eq_comm]

theorem insert_eq_none {t : Table key} {r : ρ} :
    t.insert r = none ↔ ∃ s, t.find? (key r) = some s := by
  unfold insert
  split
  · rename_i h
    obtain ⟨s, hs, hk⟩ := List.mem_map.mp h
    simp only [true_iff]
    exact ⟨s, find?_eq_some.mpr ⟨hs, hk⟩⟩
  · rename_i h
    simp only [reduceCtorEq, false_iff, not_exists]
    exact fun s hs => h (List.mem_map.mpr ⟨s, mem_of_find? hs, key_of_find? hs⟩)

theorem mem_insert {t t' : Table key} {r : ρ} (h : t.insert r = some t') {s : ρ} :
    s ∈ t'.rows ↔ s ∈ t.rows ∨ s = r := by
  rw [(insert_eq_some.mp h).2, List.mem_append, List.mem_singleton]

theorem find?_insert {t t' : Table key} {r : ρ} (h : t.insert r = some t') (k : κ) :
    t'.find? k = if key r = k then some r else t.find? k := by
  obtain ⟨hn, hrows⟩ := insert_eq_some.mp h
  simp only [find?, hrows, List.find?_append] at hn ⊢
  by_cases hk : key r = k
  · subst hk
    simp [hn]
  · simp [hk]

/-- Put a row in the place of the one that has its key, if there is one. -/
def upsert (t : Table key) (r : ρ) : Table key :=
  ⟨t.rows.filter (fun s => key s ≠ key r) ++ [r], by
    rw [List.map_append, List.nodup_append]
    refine ⟨t.nodup.sublist (List.filter_sublist.map _), List.nodup_singleton _,
      fun a ha b hb he => ?_⟩
    obtain ⟨s, hs, rfl⟩ := List.mem_map.mp ha
    rw [List.map_singleton, List.mem_singleton] at hb
    exact of_decide_eq_true (List.mem_filter.mp hs).2 (he.trans hb)⟩

theorem find?_upsert (t : Table key) (r : ρ) (k : κ) :
    (t.upsert r).find? k = if key r = k then some r else t.find? k := by
  split
  · rename_i hk
    exact find?_eq_some.mpr ⟨List.mem_append_right _ List.mem_cons_self, hk⟩
  · rename_i hk
    have hrest : ∀ s : ρ, (key s ≠ key r ∧ key s = k) ↔ key s = k :=
      fun s => ⟨And.right, fun hs => ⟨fun he => hk (he.symm.trans hs), hs⟩⟩
    simp only [find?, upsert, List.find?_append, List.find?_filter, decide_eq_true_eq, hrest,
      List.find?_cons_of_neg, hk, decide_false, Bool.false_eq_true, not_false_eq_true,
      List.find?_nil, Option.or_none]

theorem find?_updateWhere (t : Table key) (p : ρ → Bool) (f : ρ → ρ)
    (hf : ∀ r, key (f r) = key r) (k : κ) :
    (t.updateWhere p f hf).find? k = (t.find? k).map (fun r => if p r then f r else r) := by
  simp only [find?, updateWhere, List.find?_map]
  congr 2
  funext r
  simp only [Function.comp_apply]
  split
  · rw [hf]
  · rfl

/-- `UPDATE ... WHERE key = k`. -/
def update (t : Table key) (k : κ) (f : ρ → ρ) (hf : ∀ r, key (f r) = key r) : Table key :=
  t.updateWhere (fun r => key r = k) f hf

theorem find?_update (t : Table key) (k : κ) (f : ρ → ρ) (hf : ∀ r, key (f r) = key r) (k' : κ) :
    (t.update k f hf).find? k' = if k' = k then (t.find? k').map f else t.find? k' := by
  rw [update, find?_updateWhere]
  cases h : t.find? k' with
  | none => simp
  | some r =>
    have hk := key_of_find? h
    by_cases he : k' = k <;> simp [hk, he]

theorem mem_update {t : Table key} {k : κ} {f : ρ → ρ} {hf : ∀ r, key (f r) = key r} {s : ρ} :
    s ∈ (t.update k f hf).rows ↔ ∃ r ∈ t.rows, (if key r = k then f r else r) = s := by
  simp [update, mem_updateWhere]

/-- After an update a row is the changed one, or one with another key. -/
theorem mem_update_of_find? {t : Table key} {k : κ} {f : ρ → ρ} {hf : ∀ r, key (f r) = key r}
    {r s : ρ} (hr : t.find? k = some r) (hs : s ∈ (t.update k f hf).rows) :
    s = f r ∨ s ∈ t.rows ∧ key s ≠ k := by
  obtain ⟨x, hx, rfl⟩ := mem_update.mp hs
  by_cases hk : key x = k
  · have hsame : x = r := eq_of_key_eq t hx (mem_of_find? hr) (hk.trans (key_of_find? hr).symm)
    exact .inl (by rw [if_pos hk, hsame])
  · rw [if_neg hk]
    exact .inr ⟨hx, hk⟩

/-- Updating one row changes a count by what happens to that row. -/
theorem countP_update {t : Table key} {r : ρ} (h : r ∈ t.rows) (f : ρ → ρ)
    (hf : ∀ r, key (f r) = key r) (p : ρ → Bool) :
    (t.update (key r) f hf).rows.countP p + (if p r then 1 else 0) =
      t.rows.countP p + (if p (f r) then 1 else 0) := by
  obtain ⟨xs, ys, hsplit, hxs, hys⟩ := exists_split h
  have hkeep : ∀ l : List ρ, (∀ s ∈ l, key s ≠ key r) →
      l.map (fun s => if decide (key s = key r) then f s else s) = l := by
    intro l hl
    conv_rhs => rw [← List.map_id l]
    exact List.map_congr_left fun s hs => by simp [hl s hs]
  simp only [update, updateWhere, hsplit, List.map_append, List.map_cons, hkeep xs hxs,
    hkeep ys hys, List.countP_append, List.countP_cons, decide_true, if_true]
  omega

end Table

end SafetyDao
