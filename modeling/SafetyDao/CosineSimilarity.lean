import SafetyDao.HashVector
import Mathlib.Algebra.Order.BigOperators.Group.List
import Mathlib.Algebra.Order.BigOperators.Ring.Finset

/-!
# The similarity of two vectors

`cosineSimilarity` in exact arithmetic. Its quotient stays within one, because the roots in
the divisor are never below the true ones, and no division of the code meets a zero: with
divisions that would fail there it computes the same.
-/
namespace SafetyDao.CosineSimilarity
open HashVector (exactVector)

def exactSimilarity (a b : List ℚ) : ℚ := cosineSimilarity (id : ℚ → ℚ) a b

section Checked

/-- A division that fails where the divisor is zero. -/
def divide (a b : ℚ) : Option ℚ := if b = 0 then none else some (a / b)

/-- `sqrt` with such divisions. -/
def checkedSqrt (x : ℚ) : Option ℚ :=
  (fun guess : Option ℚ => guess.bind fun z =>
    (divide (z * z - x) (2 * z)).map fun d => z - d)^[10] (divide x 2)

/-- `cosineSimilarity` with such divisions. -/
def checkedSimilarity (a b : List ℚ) : Option ℚ :=
  if a.length ≠ b.length then some 0
  else
    let sum (xs : List ℚ) : ℚ := xs.foldl (fun acc x => acc + x) 0
    let dot := sum (List.zipWith (· * ·) a b)
    let normA := sum (List.zipWith (· * ·) a a)
    let normB := sum (List.zipWith (· * ·) b b)
    if normA == 0 || normB == 0 then some 0
    else (checkedSqrt normA).bind fun rootA => (checkedSqrt normB).bind fun rootB =>
      divide dot (rootA * rootB)

theorem divide_of_ne {b : ℚ} (h : b ≠ 0) (a : ℚ) : divide a b = some (a / b) := if_neg h

/-- From a positive number no Newton step divides by zero. -/
theorem checkedSqrt_eq {x : ℚ} (hx : 0 < x) : checkedSqrt x = some (sqrt x) := by
  have hiterates : ∀ n, (fun guess : Option ℚ => guess.bind fun z =>
      (divide (z * z - x) (2 * z)).map fun d => z - d)^[n] (some (x / 2)) =
        some ((NewtonRoot.step x)^[n] (x / 2)) := by
    intro n
    induction n with
    | zero => rfl
    | succ n ih =>
      have hpos := NewtonRoot.iterate_pos hx (half_pos hx) n
      rw [Function.iterate_succ_apply', Function.iterate_succ_apply', ih, Option.bind_some,
        divide_of_ne (mul_pos two_pos hpos).ne']
      rfl
  rw [checkedSqrt, divide_of_ne two_ne_zero, HashVector.sqrt_eq_iterate]
  exact hiterates 10

end Checked

section Products

variable {K : Type} [CommRing K]

/-- The sum of the products of two vectors. -/
def dot (a b : List K) : K := (List.zipWith (· * ·) a b).sum

theorem dot_cons (x y : K) (a b : List K) : dot (x :: a) (y :: b) = x * y + dot a b := by
  rw [dot, List.zipWith_cons_cons, List.sum_cons, dot]

theorem dot_comm (a b : List K) : dot a b = dot b a := by
  rw [dot, List.zipWith_comm]
  simp only [mul_comm, dot]

theorem dot_eq_sum {a b : List K} (h : a.length = b.length) :
    dot a b = ∑ i ∈ Finset.range a.length, a.getD i 0 * b.getD i 0 := by
  induction a generalizing b with
  | nil => rfl
  | cons x a ih =>
    cases b with
    | nil => cases h
    | cons y b =>
      rw [dot_cons, ih (Nat.succ.inj h), List.length_cons, Finset.sum_range_succ', add_comm]
      rfl

variable [LinearOrder K] [IsStrictOrderedRing K]

theorem dot_nonneg {a b : List K} (ha : ∀ x ∈ a, 0 ≤ x) (hb : ∀ x ∈ b, 0 ≤ x) : 0 ≤ dot a b := by
  induction a generalizing b with
  | nil => exact le_rfl
  | cons x a ih =>
    cases b with
    | nil => exact le_rfl
    | cons y b =>
      rw [List.forall_mem_cons] at ha hb
      rw [dot_cons]
      exact add_nonneg (mul_nonneg ha.1 hb.1) (ih ha.2 hb.2)

theorem dot_self_nonneg (a : List K) : 0 ≤ dot a a := by
  rw [dot_eq_sum rfl]
  exact Finset.sum_nonneg fun i _ => mul_self_nonneg _

/-- The inequality of Cauchy and Schwarz. -/
theorem dot_sq_le {a b : List K} (h : a.length = b.length) : dot a b ^ 2 ≤ dot a a * dot b b := by
  rw [dot_eq_sum h, dot_eq_sum rfl, dot_eq_sum rfl, ← h]
  simp only [← sq]
  exact Finset.sum_mul_sq_le_sq_mul_sq _ _ _

/-- Numbers that are at least the norms bound the product. -/
theorem abs_dot_le_mul {a b : List K} (h : a.length = b.length) {r s : K} (hr : 0 ≤ r) (hs : 0 ≤ s)
    (hA : dot a a ≤ r ^ 2) (hB : dot b b ≤ s ^ 2) : |dot a b| ≤ r * s := by
  refine abs_le_of_sq_le_sq ?_ (mul_nonneg hr hs)
  calc dot a b ^ 2 ≤ dot a a * dot b b := dot_sq_le h
    _ ≤ r ^ 2 * s ^ 2 := mul_le_mul hA hB (dot_self_nonneg b) (sq_nonneg r)
    _ = (r * s) ^ 2 := (mul_pow r s 2).symm

end Products

section Similarity

variable {a b : List ℚ}

theorem foldl_sum (xs : List ℚ) : xs.foldl (fun acc x => acc + x) 0 = xs.sum :=
  List.sum_eq_foldl.symm

theorem exactSimilarity_of_ne (h : a.length ≠ b.length) : exactSimilarity a b = 0 := if_pos h

theorem exactSimilarity_of_eq (h : a.length = b.length) : exactSimilarity a b =
    if dot a a = 0 ∨ dot b b = 0 then 0
    else dot a b / (sqrt (dot a a) * sqrt (dot b b)) := by
  rw [exactSimilarity, cosineSimilarity, if_neg (not_not.mpr h)]
  simp only [id_eq, foldl_sum, Bool.or_eq_true, beq_iff_eq]
  rfl

/-- Both norms are positive where the code divides. -/
theorem norms_pos (h : ¬ (dot a a = 0 ∨ dot b b = 0)) : 0 < dot a a ∧ 0 < dot b b := by
  rw [not_or] at h
  exact ⟨(dot_self_nonneg a).lt_of_ne' h.1, (dot_self_nonneg b).lt_of_ne' h.2⟩

/-- The value is zero, or the quotient of two vectors that have norms. -/
theorem exactSimilarity_cases (a b : List ℚ) : exactSimilarity a b = 0 ∨
    (a.length = b.length ∧ 0 < dot a a ∧ 0 < dot b b ∧
      exactSimilarity a b = dot a b / (sqrt (dot a a) * sqrt (dot b b))) := by
  by_cases hlength : a.length = b.length
  · rw [exactSimilarity_of_eq hlength]
    by_cases hnorms : dot a a = 0 ∨ dot b b = 0
    · exact .inl (if_pos hnorms)
    · obtain ⟨ha, hb⟩ := norms_pos hnorms
      exact .inr ⟨hlength, ha, hb, if_neg hnorms⟩
  · exact .inl (exactSimilarity_of_ne hlength)

theorem checkedSimilarity_eq (a b : List ℚ) :
    checkedSimilarity a b = some (exactSimilarity a b) := by
  by_cases hlength : a.length = b.length
  · rw [exactSimilarity_of_eq hlength, checkedSimilarity, if_neg (not_not.mpr hlength)]
    simp only [foldl_sum, Bool.or_eq_true, beq_iff_eq]
    change (if dot a a = 0 ∨ dot b b = 0 then some 0
      else (checkedSqrt (dot a a)).bind fun rootA => (checkedSqrt (dot b b)).bind fun rootB =>
        divide (dot a b) (rootA * rootB)) = _
    by_cases hnorms : dot a a = 0 ∨ dot b b = 0
    · rw [if_pos hnorms, if_pos hnorms]
    · obtain ⟨ha, hb⟩ := norms_pos hnorms
      have hroots := mul_pos (HashVector.sqrt_pos ha) (HashVector.sqrt_pos hb)
      rw [if_neg hnorms, if_neg hnorms, checkedSqrt_eq ha, checkedSqrt_eq hb, Option.bind_some,
        Option.bind_some, divide_of_ne hroots.ne']
  · rw [exactSimilarity_of_ne hlength]
    exact if_pos hlength

theorem exactSimilarity_comm (a b : List ℚ) : exactSimilarity a b = exactSimilarity b a := by
  by_cases hlength : a.length = b.length
  · rw [exactSimilarity_of_eq hlength, exactSimilarity_of_eq hlength.symm, dot_comm a b]
    simp only [or_comm, mul_comm]
  · rw [exactSimilarity_of_ne hlength, exactSimilarity_of_ne (Ne.symm hlength)]

/-- The roots of the code are at least the true ones, so their product bounds the dot product. -/
theorem abs_dot_le (h : a.length = b.length) (ha : 0 < dot a a) (hb : 0 < dot b b) :
    |dot a b| ≤ sqrt (dot a a) * sqrt (dot b b) := by
  have hA : dot a a ≤ sqrt (dot a a) ^ 2 := NewtonRoot.le_iterate_sq ha (half_pos ha) 9
  have hB : dot b b ≤ sqrt (dot b b) ^ 2 := NewtonRoot.le_iterate_sq hb (half_pos hb) 9
  exact abs_dot_le_mul h (HashVector.sqrt_pos ha).le (HashVector.sqrt_pos hb).le hA hB

theorem abs_exactSimilarity_le (a b : List ℚ) : |exactSimilarity a b| ≤ 1 := by
  obtain hzero | ⟨hlength, ha, hb, hquotient⟩ := exactSimilarity_cases a b
  · rw [hzero, abs_zero]
    exact zero_le_one
  · have hroots := mul_pos (HashVector.sqrt_pos ha) (HashVector.sqrt_pos hb)
    rw [hquotient, abs_div, abs_of_pos hroots, div_le_one hroots]
    exact abs_dot_le hlength ha hb

theorem exactSimilarity_nonneg (ha : ∀ x ∈ a, 0 ≤ x) (hb : ∀ x ∈ b, 0 ≤ x) :
    0 ≤ exactSimilarity a b := by
  obtain hzero | ⟨-, hA, hB, hquotient⟩ := exactSimilarity_cases a b
  · rw [hzero]
  · have hroots := mul_pos (HashVector.sqrt_pos hA) (HashVector.sqrt_pos hB)
    rw [hquotient]
    exact div_nonneg (dot_nonneg ha hb) hroots.le

/-- The components of the vector of a text are sums of bytes over a positive norm. -/
theorem exactVector_nonneg (input : List UInt8) : ∀ x ∈ exactVector input, 0 ≤ x := by
  have hsums : ∀ x ∈ input.zipIdx.foldl (addByte fun b => (b.toNat : ℚ)) (List.replicate 128 0),
      0 ≤ x := by
    rw [HashVector.foldl_addByte]
    intro x hx
    simp only [List.map_map, List.mem_map, Function.comp_apply] at hx
    obtain ⟨k, -, rfl⟩ := hx
    positivity
  rw [exactVector, hashToVector]
  split
  · rename_i hnorm
    intro x hx
    obtain ⟨y, hy, rfl⟩ := List.mem_map.mp hx
    exact div_nonneg (hsums y hy) (le_of_lt hnorm)
  · exact hsums

end Similarity

/-- In exact arithmetic no division of `cosineSimilarity` is by zero, and its value is
symmetric, within one, and not negative if no component is. -/
theorem exactSimilarity_bounded (a b : List ℚ) :
    checkedSimilarity a b = some (exactSimilarity a b) ∧
      exactSimilarity a b = exactSimilarity b a ∧
      -1 ≤ exactSimilarity a b ∧ exactSimilarity a b ≤ 1 ∧
      ((∀ x ∈ a, 0 ≤ x) → (∀ x ∈ b, 0 ≤ x) → 0 ≤ exactSimilarity a b) ∧
      ∀ s t : List UInt8, 0 ≤ exactSimilarity (exactVector s) (exactVector t) := by
  obtain ⟨hlower, hupper⟩ := abs_le.mp (abs_exactSimilarity_le a b)
  exact ⟨checkedSimilarity_eq a b, exactSimilarity_comm a b, hlower, hupper,
    exactSimilarity_nonneg, fun s t =>
      exactSimilarity_nonneg (exactVector_nonneg s) (exactVector_nonneg t)⟩

/-- Of two vectors without negative components. -/
theorem exactSimilarity_bounded_pair : 0 ≤ exactSimilarity [1, 2] [2, 1] :=
  (exactSimilarity_bounded [1, 2] [2, 1]).2.2.2.2.1 (by simp) (by simp)

end SafetyDao.CosineSimilarity
