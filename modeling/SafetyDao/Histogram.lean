import Mathlib.Algebra.BigOperators.Group.List.Lemmas
import Mathlib.Algebra.Ring.Nat
import Mathlib.Data.List.AList

/-!
# Histograms

A dictionary from keys to how often each occurs in a list. It can be filled key by key, with a
count of the whole list for each, or element by element; either way it has the same entries, in
one order or another, and its values add up to the length of the list.
-/
namespace SafetyDao

/-- Numbers under keys, each key once. -/
abbrev Histogram (κ : Type) : Type := AList fun _ : κ => ℕ

namespace Histogram

variable {κ : Type} [DecidableEq κ]

/-- How often a key occurs. -/
def occurrences (xs : List κ) (k : κ) : ℕ := xs.countP fun x => x = k

/-- A count of the whole list for each key in it. -/
def recount (xs : List κ) : Histogram κ :=
  xs.eraseDups.foldl (fun h k => h.insert k (occurrences xs k)) ∅

/-- One more for the key of each element in turn. -/
def tally (xs : List κ) : Histogram κ :=
  xs.foldl (fun h k => h.insert k ((h.lookup k).getD 0 + 1)) ∅

def values (h : Histogram κ) : List ℕ := h.entries.map Sigma.snd

/-- The keys are those of the list, each with the number of its occurrences. -/
def Counts (h : Histogram κ) (xs : List κ) : Prop :=
  ∀ k, h.lookup k = if k ∈ xs then some (occurrences xs k) else none

theorem occurrences_cons_self (k : κ) (xs : List κ) :
    occurrences (k :: xs) k = occurrences xs k + 1 :=
  List.countP_cons_of_pos (decide_eq_true rfl)

theorem occurrences_cons_of_ne {a k : κ} (h : a ≠ k) (xs : List κ) :
    occurrences (a :: xs) k = occurrences xs k :=
  List.countP_cons_of_neg (by simpa using h)

/-- Inserted values that depend on their key alone are found under it. -/
theorem lookup_foldl_insert (f : κ → ℕ) (ks : List κ) (h : Histogram κ) (k : κ) :
    (ks.foldl (fun h k => h.insert k (f k)) h).lookup k =
      if k ∈ ks then some (f k) else h.lookup k := by
  induction ks generalizing h with
  | nil => simp
  | cons a ks ih =>
    rw [List.foldl_cons, ih]
    by_cases hks : k ∈ ks
    · rw [if_pos hks, if_pos (List.mem_cons_of_mem a hks)]
    · rw [if_neg hks]
      by_cases ha : k = a
      · subst ha
        rw [AList.lookup_insert, if_pos List.mem_cons_self]
      · rw [AList.lookup_insert_ne ha, if_neg (List.not_mem_cons_of_ne_of_not_mem ha hks)]

theorem counts_recount (xs : List κ) : Counts (recount xs) xs := by
  intro k
  rw [recount, lookup_foldl_insert, AList.lookup_empty]
  simp only [List.mem_eraseDups]

/-- Each element adds one to the value of its key. -/
theorem getD_lookup_foldl (xs : List κ) (h : Histogram κ) (k : κ) :
    (((xs.foldl (fun h k => h.insert k ((h.lookup k).getD 0 + 1)) h).lookup k).getD 0 =
        (h.lookup k).getD 0 + occurrences xs k) ∧
      (k ∈ xs.foldl (fun h k => h.insert k ((h.lookup k).getD 0 + 1)) h ↔ k ∈ h ∨ k ∈ xs) := by
  induction xs generalizing h with
  | nil => simp [occurrences]
  | cons a xs ih =>
    obtain ⟨hvalue, hmem⟩ := ih (h.insert a ((h.lookup a).getD 0 + 1))
    rw [List.foldl_cons]
    refine ⟨hvalue.trans ?_, hmem.trans ?_⟩
    · by_cases ha : k = a
      · subst ha
        rw [AList.lookup_insert, Option.getD_some, occurrences_cons_self]
        omega
      · rw [AList.lookup_insert_ne ha, occurrences_cons_of_ne (Ne.symm ha)]
    · rw [AList.mem_insert, List.mem_cons]
      tauto

theorem counts_tally (xs : List κ) : Counts (tally xs) xs := by
  intro k
  obtain ⟨hvalue, hmem⟩ := getD_lookup_foldl xs (∅ : Histogram κ) k
  rw [AList.lookup_empty, Option.getD_none, Nat.zero_add] at hvalue
  have hmem' : k ∈ tally xs ↔ k ∈ xs := hmem.trans (or_iff_right (AList.notMem_empty k))
  by_cases hk : k ∈ xs
  · obtain ⟨n, hn⟩ := Option.isSome_iff_exists.mp (AList.lookup_isSome.mpr (hmem'.mpr hk))
    have hcount : n = occurrences xs k := by
      rw [← hvalue]
      exact (congrArg (fun o => o.getD 0) hn).symm
    rw [if_pos hk, hn, hcount]
  · rw [if_neg hk]
    exact AList.lookup_eq_none.mpr fun hin => hk (hmem'.mp hin)

section Entries

variable {h : Histogram κ} {xs : List κ}

/-- The entries, in some order. -/
theorem Counts.entries_perm (hcounts : Counts h xs) :
    h.entries.Perm (xs.dedup.map fun k => ⟨k, occurrences xs k⟩) := by
  have hnodup : (xs.dedup.map fun k => (⟨k, occurrences xs k⟩ : Σ _ : κ, ℕ)).Nodup :=
    xs.nodup_dedup.map fun _ _ heq => congrArg Sigma.fst heq
  refine (List.perm_ext_iff_of_nodup h.nodupKeys.nodup hnodup).mpr ?_
  rintro ⟨k, n⟩
  have hentry : (⟨k, n⟩ : Σ _ : κ, ℕ) ∈ h.entries ↔ h.lookup k = some n :=
    AList.mem_lookup_iff.symm
  rw [hentry, hcounts k]
  simp only [List.mem_map, List.mem_dedup, Sigma.mk.injEq, heq_eq_eq]
  constructor
  · intro hlookup
    split at hlookup
    · exact ⟨k, ‹_›, rfl, Option.some.inj hlookup⟩
    · cases hlookup
  · rintro ⟨k', hk', rfl, rfl⟩
    exact if_pos hk'

/-- No element is lost or counted twice. -/
theorem Counts.sum_values (hcounts : Counts h xs) : (values h).sum = xs.length := by
  have hperm := (hcounts.entries_perm.map Sigma.snd).sum_eq
  rw [List.map_map] at hperm
  have hsum : (xs.dedup.map (occurrences xs)).sum = xs.length := xs.sum_map_count_dedup_eq_length
  exact hperm.trans hsum

end Entries

end Histogram

end SafetyDao
