import SafetyDao.CosineSimilarity
import SafetyDao.Similarity
import Mathlib.Analysis.Real.Sqrt

/-!
# The confidence in a report

`compute_confidence` weighs the average score of the similar reports against their number. In
exact arithmetic it only grows with either, and its clamp at one is needed at the top only, since
vectors of texts have no negative components.
-/
namespace SafetyDao.ReportConfidence
open CosineSimilarity (dot)
open Similarity (JuliaLibs addWord broadcastMul computeEmbedding words)

section Confidence

variable {K : Type} [Field K]

def mean (xs : List K) : K := xs.sum / xs.length

/-- `Float32(get(r, "score", 0.0))`, for a report given by its score. -/
def readScore (r : Option K) : K := r.getD 0

theorem mean_perm {xs ys : List K} (h : xs.Perm ys) : mean xs = mean ys := by
  rw [mean, mean, h.sum_eq, h.length_eq]

variable [LinearOrder K]

def computeConfidence (similarReports : List (Option K)) : K :=
  if similarReports = [] then 0
  else
    let scores := similarReports.map readScore
    let avgScore := mean scores
    let countFactor := min ((scores.length : K) / 5) 1
    let confidence := avgScore * 0.7 + countFactor * 0.3
    min confidence 1

variable {rs rs' : List (Option K)}

theorem computeConfidence_perm (h : rs.Perm rs') :
    computeConfidence rs = computeConfidence rs' := by
  have hnil : rs = [] ↔ rs' = [] := by
    rw [← List.length_eq_zero_iff, h.length_eq, List.length_eq_zero_iff]
  simp only [computeConfidence, hnil, mean_perm (h.map readScore), List.length_map, h.length_eq]

variable [IsStrictOrderedRing K]

section Mean

variable {xs : List K}

theorem length_pos (h : xs ≠ []) : (0 : K) < xs.length :=
  Nat.cast_pos.mpr (List.length_pos_iff.mpr h)

theorem mean_nonneg (h : ∀ x ∈ xs, 0 ≤ x) : 0 ≤ mean xs :=
  div_nonneg (List.sum_nonneg h) (Nat.cast_nonneg _)

/-- Raising one of the numbers raises the average. -/
theorem mean_le_of_le {x y : K} (h : x ≤ y) (ys : List K) :
    mean (xs ++ x :: ys) ≤ mean (xs ++ y :: ys) := by
  have hlength : (xs ++ x :: ys).length = (xs ++ y :: ys).length := by simp
  have hsum : (xs ++ x :: ys).sum ≤ (xs ++ y :: ys).sum := by
    simp only [List.sum_append, List.sum_cons]
    linarith
  rw [mean, mean, hlength]
  exact div_le_div_of_nonneg_right hsum (Nat.cast_nonneg _)

/-- A number that is not below the average does not lower it. -/
theorem mean_le_cons (hne : xs ≠ []) {x : K} (h : mean xs ≤ x) : mean xs ≤ mean (x :: xs) := by
  have hsum : xs.sum = mean xs * xs.length := (div_mul_cancel₀ _ (length_pos hne).ne').symm
  have hlength : (0 : K) < (x :: xs).length := length_pos (List.cons_ne_nil x xs)
  refine (le_div_iff₀ hlength).mpr ?_
  rw [List.sum_cons, hsum, List.length_cons, Nat.cast_succ]
  linarith

end Mean

/-- More reports with no smaller average have no smaller confidence. -/
theorem computeConfidence_mono (hne : rs ≠ [])
    (hmean : mean (rs.map readScore) ≤ mean (rs'.map readScore))
    (hlength : rs.length ≤ rs'.length) :
    computeConfidence rs ≤ computeConfidence rs' := by
  have hne' : rs' ≠ [] := by
    rw [← List.length_pos_iff] at hne ⊢
    omega
  have hcount : (rs.length : K) / 5 ≤ rs'.length / 5 := by
    gcongr
  have hfactor : min ((rs.length : K) / 5) 1 ≤ min ((rs'.length : K) / 5) 1 :=
    min_le_min_right 1 hcount
  rw [computeConfidence, computeConfidence, if_neg hne, if_neg hne']
  simp only [List.length_map]
  refine min_le_min_right 1 (add_le_add ?_ ?_)
  · exact mul_le_mul_of_nonneg_right hmean (by norm_num)
  · exact mul_le_mul_of_nonneg_right hfactor (by norm_num)

theorem computeConfidence_le_one (rs : List (Option K)) : computeConfidence rs ≤ 1 := by
  rw [computeConfidence]
  split_ifs
  · exact zero_le_one
  · exact min_le_right _ _

theorem computeConfidence_nonneg (h : ∀ r ∈ rs, ∀ x ∈ r, 0 ≤ x) : 0 ≤ computeConfidence rs := by
  have hscores : ∀ x ∈ rs.map readScore, 0 ≤ x := by
    intro x hx
    obtain ⟨r, hr, rfl⟩ := List.mem_map.mp hx
    cases r with
    | none => exact le_rfl
    | some y => exact h _ hr y rfl
  have hmean := mean_nonneg hscores
  rw [computeConfidence]
  split_ifs
  · exact le_rfl
  · positivity

/-- Raising one score. -/
theorem computeConfidence_raise {r r' : Option K} (h : readScore r ≤ readScore r')
    (xs ys : List (Option K)) :
    computeConfidence (xs ++ r :: ys) ≤ computeConfidence (xs ++ r' :: ys) := by
  refine computeConfidence_mono (by simp) ?_ (by simp)
  simp only [List.map_append, List.map_cons]
  exact mean_le_of_le h _

/-- Adding a report that scores no less than the average. -/
theorem computeConfidence_add {xs ys : List (Option K)} (hne : xs ++ ys ≠ []) {r : Option K}
    (h : mean ((xs ++ ys).map readScore) ≤ readScore r) :
    computeConfidence (xs ++ ys) ≤ computeConfidence (xs ++ r :: ys) := by
  have hscores : (xs ++ ys).map readScore ≠ [] := mt List.map_eq_nil_iff.mp hne
  rw [computeConfidence_perm List.perm_middle]
  exact computeConfidence_mono hne (mean_le_cons hscores h) (Nat.le_succ _)

end Confidence

section Embedding

variable {K : Type} [Field K] [LinearOrder K] [IsStrictOrderedRing K] {libs : JuliaLibs K}

theorem modify_add_nonneg {v : List K} (hv : ∀ x ∈ v, 0 ≤ x) {c : K} (hc : 0 ≤ c) (i : ℕ) :
    ∀ x ∈ v.modify i (· + c), 0 ≤ x := by
  intro x hx
  obtain ⟨j, hj, rfl⟩ := List.mem_iff_getElem.mp hx
  rw [List.length_modify] at hj
  have hat : 0 ≤ v[j] := hv _ (List.getElem_mem hj)
  rw [List.getElem_modify]
  split_ifs
  · exact add_nonneg hat hc
  · exact hat

theorem foldl_addWord_nonneg (libs : JuliaLibs K) (ws : List Text) {v : List K}
    (hv : ∀ x ∈ v, 0 ≤ x) : ∀ x ∈ ws.foldl (addWord libs) v, 0 ≤ x := by
  induction ws generalizing v with
  | nil => exact hv
  | cons w ws ih =>
    have hfirst := modify_add_nonneg hv zero_le_one (libs.hash w % 128).toNat
    exact ih (modify_add_nonneg hfirst (by norm_num) _)

theorem computeEmbedding_nonneg (text : Text) : ∀ x ∈ computeEmbedding libs text, 0 ≤ x := by
  have hzeros : ∀ x ∈ List.replicate 128 (0 : K), 0 ≤ x := by
    intro x hx
    rw [List.eq_of_mem_replicate hx]
  have hsums := foldl_addWord_nonneg libs (words libs (libs.lowercase text)) hzeros
  unfold computeEmbedding
  dsimp only
  split_ifs with hnorm
  · intro x hx
    obtain ⟨y, hy, rfl⟩ := List.mem_map.mp hx
    exact div_nonneg (hsums y hy) hnorm.le
  · exact hsums

end Embedding

section Cosine

variable {K : Type} [Field K] {libs : JuliaLibs K} {a b : List K}

theorem broadcastMul_of_length_eq (h : a.length = b.length) :
    broadcastMul a b = some (List.zipWith (· * ·) a b) := by
  unfold broadcastMul
  split
  · obtain ⟨y, rfl⟩ := List.length_eq_one_iff.mp h.symm
    rfl
  · obtain ⟨x, rfl⟩ := List.length_eq_one_iff.mp h
    rfl
  · exact if_pos h

variable [LinearOrder K]

theorem cosineSimilarity_of_length_eq (h : a.length = b.length) :
    Similarity.cosineSimilarity libs a b = some
      (if libs.sqrt (dot a a) = 0 ∨ libs.sqrt (dot b b) = 0 then 0
        else dot a b / (libs.sqrt (dot a a) * libs.sqrt (dot b b))) := by
  have hsquares : ∀ v : List K, (v.map fun x => x * x).foldl (· + ·) 0 = dot v v := by
    intro v
    rw [dot, List.zipWith_self, List.sum_eq_foldl]
  rw [Similarity.cosineSimilarity, broadcastMul_of_length_eq h, Option.map_some]
  simp only [hsquares, Bool.or_eq_true, beq_iff_eq, ← List.sum_eq_foldl]
  rfl

/-- A root without rounding. -/
structure ExactRoot (sqrt : K → K) : Prop where
  nonneg (x : K) : 0 ≤ sqrt x
  sq {x : K} : 0 ≤ x → sqrt x ^ 2 = x

/-- The score of a text against another. -/
def textScore (libs : JuliaLibs K) (s t : Text) : Option K :=
  Similarity.cosineSimilarity libs (computeEmbedding libs s) (computeEmbedding libs t)

def IsScore (libs : JuliaLibs K) (x : K) : Prop := ∃ s t, textScore libs s t = some x

variable [IsStrictOrderedRing K]

/-- Without negative components the value is neither negative nor above one. -/
theorem cosineSimilarity_mem (hroot : ExactRoot libs.sqrt) (h : a.length = b.length)
    (ha : ∀ x ∈ a, 0 ≤ x) (hb : ∀ x ∈ b, 0 ≤ x) :
    ∃ x, Similarity.cosineSimilarity libs a b = some x ∧ 0 ≤ x ∧ x ≤ 1 := by
  have hnormA := hroot.nonneg (dot a a)
  have hnormB := hroot.nonneg (dot b b)
  refine ⟨_, cosineSimilarity_of_length_eq h, ?_⟩
  split_ifs
  · exact ⟨le_rfl, zero_le_one⟩
  · have hproduct : |dot a b| ≤ libs.sqrt (dot a a) * libs.sqrt (dot b b) :=
      CosineSimilarity.abs_dot_le_mul h hnormA hnormB
        (hroot.sq (CosineSimilarity.dot_self_nonneg a)).ge
        (hroot.sq (CosineSimilarity.dot_self_nonneg b)).ge
    constructor
    · exact div_nonneg (CosineSimilarity.dot_nonneg ha hb) (mul_nonneg hnormA hnormB)
    · exact div_le_one_of_le₀ (le_of_abs_le hproduct) (mul_nonneg hnormA hnormB)

theorem textScore_mem (hroot : ExactRoot libs.sqrt) (s t : Text) :
    ∃ x, textScore libs s t = some x ∧ 0 ≤ x ∧ x ≤ 1 := by
  refine cosineSimilarity_mem hroot ?_ (computeEmbedding_nonneg s) (computeEmbedding_nonneg t)
  rw [Similarity.length_computeEmbedding, Similarity.length_computeEmbedding]

theorem IsScore.mem (hroot : ExactRoot libs.sqrt) {x : K} (h : IsScore libs x) :
    0 ≤ x ∧ x ≤ 1 := by
  obtain ⟨s, t, hscore⟩ := h
  obtain ⟨y, hy, hmem⟩ := textScore_mem hroot s t
  have hsame : y = x := Option.some.inj (hy.symm.trans hscore)
  exact hsame ▸ hmem

end Cosine

theorem exactRoot_sqrt : ExactRoot Real.sqrt where
  nonneg := Real.sqrt_nonneg
  sq := Real.sq_sqrt

/-- Scores of texts lie between zero and one, and so does the confidence in them; it does not
depend on their order, and grows with each score and with each report that is not below the
average. -/
theorem computeConfidence_bounded (libs : JuliaLibs ℝ) (hsqrt : libs.sqrt = Real.sqrt) :
    (∀ s t, ∃ x, textScore libs s t = some x ∧ 0 ≤ x ∧ x ≤ 1) ∧
      (∀ rs : List (Option ℝ), rs ≠ [] → (∀ r ∈ rs, ∀ x ∈ r, IsScore libs x) →
        0 ≤ computeConfidence rs ∧ computeConfidence rs ≤ 1) ∧
      (∀ rs rs' : List (Option ℝ), rs.Perm rs' →
        computeConfidence rs = computeConfidence rs') ∧
      (∀ (xs ys : List (Option ℝ)) (r r' : Option ℝ), readScore r ≤ readScore r' →
        computeConfidence (xs ++ r :: ys) ≤ computeConfidence (xs ++ r' :: ys)) ∧
      (∀ (xs ys : List (Option ℝ)) (r : Option ℝ), xs ++ ys ≠ [] →
        mean ((xs ++ ys).map readScore) ≤ readScore r →
        computeConfidence (xs ++ ys) ≤ computeConfidence (xs ++ r :: ys)) := by
  have hroot : ExactRoot libs.sqrt := hsqrt ▸ exactRoot_sqrt
  refine ⟨textScore_mem hroot, ?_, fun _ _ => computeConfidence_perm,
    fun xs ys _ _ h => computeConfidence_raise h xs ys,
    fun _ _ _ hne h => computeConfidence_add hne h⟩
  intro rs _ hscores
  have hnonneg : ∀ r ∈ rs, ∀ x ∈ r, 0 ≤ x := fun r hr x hx => ((hscores r hr x hx).mem hroot).1
  exact ⟨computeConfidence_nonneg hnonneg, computeConfidence_le_one rs⟩

/-- One hash for every word, and roots without rounding. -/
noncomputable def exactLibs : JuliaLibs ℝ := ⟨id, (· = ' '), fun _ => 7, Real.sqrt⟩

/-- A text found again, one score raised, and one report added. -/
theorem computeConfidence_bounded_samples :
    (∃ x, textScore exactLibs "no show".toList "no show".toList = some x ∧
        0 ≤ computeConfidence [some x] ∧ computeConfidence [some x] ≤ 1) ∧
      computeConfidence [some (1 / 2 : ℝ), none] = computeConfidence [none, some (1 / 2)] ∧
      computeConfidence [none, some (1 / 2 : ℝ)] ≤ computeConfidence [none, some 1] ∧
      computeConfidence [some (1 / 2 : ℝ)] ≤ computeConfidence [some (1 / 2), some 1] := by
  obtain ⟨hscore, hrange, hperm, hraise, hadd⟩ := computeConfidence_bounded exactLibs rfl
  obtain ⟨x, hx, -⟩ := hscore "no show".toList "no show".toList
  refine ⟨⟨x, hx, hrange [some x] (List.cons_ne_nil _ _) ?_⟩, ?_, ?_, ?_⟩
  · intro r hr y hy
    rw [List.mem_singleton] at hr
    subst hr
    obtain rfl := Option.some.inj hy
    exact ⟨_, _, hx⟩
  · exact hperm _ _ (.swap _ _ _)
  · exact hraise [none] [] (some (1 / 2)) (some 1) (by norm_num [readScore])
  · exact hadd [some (1 / 2)] [] (some 1) (by simp) (by norm_num [mean, readScore])

end SafetyDao.ReportConfidence
