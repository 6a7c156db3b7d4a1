import Mathlib.Algebra.Order.Field.Basic
import Mathlib.Logic.Function.Iterate
import Mathlib.Tactic.FieldSimp
import Mathlib.Tactic.Linarith
import Mathlib.Tactic.Positivity
import Mathlib.Tactic.Ring

/-!
# Newton's method for square roots

Over an ordered field, in exact arithmetic. From a positive guess the guesses stay positive
and from the first step on never fall below the root. How far the square of a guess is from
the number, as a ratio, is followed exactly: each step replaces the ratio `r` by
`(r + 1)² / (4 r)`, the same for every number.
-/
namespace SafetyDao.NewtonRoot

variable {K : Type*} [Field K]

/-- The next guess for the root of `x`. -/
def step (x z : K) : K := z - (z * z - x) / (2 * z)

/-- The next ratio of the square of a guess to the number. -/
def damp (r : K) : K := (r + 1) ^ 2 / (4 * r)

variable [LinearOrder K] [IsStrictOrderedRing K]

theorem step_eq {z : K} (hz : z ≠ 0) (x : K) : step x z = (z * z + x) / (2 * z) := by
  rw [step]
  field_simp
  ring

theorem step_pos {x z : K} (hx : 0 < x) (hz : 0 < z) : 0 < step x z := by
  rw [step_eq hz.ne']
  positivity

theorem le_step_sq {z : K} (hz : z ≠ 0) (x : K) : x ≤ step x z ^ 2 := by
  have hsq : step x z ^ 2 - x = ((z * z - x) / (2 * z)) ^ 2 := by
    rw [step_eq hz]
    field_simp
    ring
  have hnonneg := sq_nonneg ((z * z - x) / (2 * z))
  rw [← hsq] at hnonneg
  exact sub_nonneg.mp hnonneg

theorem step_sq_div {x z : K} (hx : x ≠ 0) (hz : z ≠ 0) :
    step x z ^ 2 / x = damp (z ^ 2 / x) := by
  rw [step_eq hz, damp]
  field_simp
  ring

section Iterates

variable {x z : K}

theorem iterate_pos (hx : 0 < x) (hz : 0 < z) (n : ℕ) : 0 < (step x)^[n] z := by
  induction n with
  | zero => exact hz
  | succ n ih =>
    rw [Function.iterate_succ_apply']
    exact step_pos hx ih

theorem le_iterate_sq (hx : 0 < x) (hz : 0 < z) (n : ℕ) : x ≤ ((step x)^[n + 1] z) ^ 2 := by
  rw [Function.iterate_succ_apply']
  exact le_step_sq (iterate_pos hx hz n).ne' x

theorem iterate_sq_div (hx : 0 < x) (hz : 0 < z) (n : ℕ) :
    ((step x)^[n] z) ^ 2 / x = damp^[n] (z ^ 2 / x) := by
  induction n with
  | zero => rfl
  | succ n ih =>
    rw [Function.iterate_succ_apply', Function.iterate_succ_apply', ← ih,
      step_sq_div hx.ne' (iterate_pos hx hz n).ne']

end Iterates

section Damping

variable {r s : K}

theorem one_le_damp (hr : 0 < r) : 1 ≤ damp r := by
  rw [damp, one_le_div (by positivity)]
  have hsq := sq_nonneg (r - 1)
  linarith [show (r + 1) ^ 2 = (r - 1) ^ 2 + 4 * r by ring]

/-- Too small a guess is as good as one too large by the same factor. -/
theorem damp_inv (hr : r ≠ 0) : damp r⁻¹ = damp r := by
  rw [damp, damp]
  field_simp
  ring

theorem damp_le_damp (hr : 1 ≤ r) (hrs : r ≤ s) : damp r ≤ damp s := by
  have hr₀ : 0 < r := one_pos.trans_le hr
  have hs₀ : 0 < s := hr₀.trans_le hrs
  rw [damp, damp, div_le_div_iff₀ (by positivity) (by positivity)]
  have hrs₁ : 1 ≤ r * s := one_le_mul_of_one_le_of_one_le hr (hr.trans hrs)
  have hprod := mul_nonneg (sub_nonneg.mpr hrs) (sub_nonneg.mpr hrs₁)
  linarith [show (s + 1) ^ 2 * (4 * r) - (r + 1) ^ 2 * (4 * s) = 4 * ((s - r) * (r * s - 1)) by
    ring]

theorem one_le_iterate (hr : 1 ≤ r) (n : ℕ) : 1 ≤ damp^[n] r := by
  induction n with
  | zero => exact hr
  | succ n ih =>
    rw [Function.iterate_succ_apply']
    exact one_le_damp (one_pos.trans_le ih)

theorem iterate_le_iterate (hr : 1 ≤ r) (hrs : r ≤ s) (n : ℕ) : damp^[n] r ≤ damp^[n] s := by
  induction n with
  | zero => exact hrs
  | succ n ih =>
    rw [Function.iterate_succ_apply', Function.iterate_succ_apply']
    exact damp_le_damp (one_le_iterate hr n) ih

theorem one_le_iterate_succ (hr : 0 < r) (n : ℕ) : 1 ≤ damp^[n + 1] r := by
  rw [Function.iterate_succ_apply]
  exact one_le_iterate (one_le_damp hr) n

theorem iterate_inv (hr : r ≠ 0) (n : ℕ) : damp^[n + 1] r⁻¹ = damp^[n + 1] r := by
  rw [Function.iterate_succ_apply, Function.iterate_succ_apply, damp_inv hr]

end Damping

section Fractions

/-- `damp` on a numerator and a denominator, without cancelling. -/
def dampFraction (p : ℕ × ℕ) : ℕ × ℕ := ((p.1 + p.2) ^ 2, 4 * (p.1 * p.2))

theorem dampFraction_pos {p : ℕ × ℕ} (h : 0 < p.1 ∧ 0 < p.2) :
    0 < (dampFraction p).1 ∧ 0 < (dampFraction p).2 :=
  ⟨Nat.pow_pos (Nat.add_pos_left h.1 _), Nat.mul_pos (by decide) (Nat.mul_pos h.1 h.2)⟩

theorem damp_fraction {p : ℕ × ℕ} (h : 0 < p.1 ∧ 0 < p.2) :
    damp ((p.1 : K) / p.2) = ((dampFraction p).1 : K) / (dampFraction p).2 := by
  have h₁ : (p.1 : K) ≠ 0 := Nat.cast_ne_zero.mpr h.1.ne'
  have h₂ : (p.2 : K) ≠ 0 := Nat.cast_ne_zero.mpr h.2.ne'
  simp only [damp, dampFraction, Nat.cast_pow, Nat.cast_add, Nat.cast_mul, Nat.cast_ofNat]
  field_simp

theorem iterate_fraction {p : ℕ × ℕ} (h : 0 < p.1 ∧ 0 < p.2) (n : ℕ) :
    damp^[n] ((p.1 : K) / p.2) = ((dampFraction^[n] p).1 : K) / (dampFraction^[n] p).2 := by
  induction n generalizing p with
  | zero => rfl
  | succ n ih =>
    rw [Function.iterate_succ_apply, Function.iterate_succ_apply, damp_fraction h,
      ih (dampFraction_pos h)]

/-- Whether a ratio is at most a fraction after `n` steps is a comparison of whole numbers. -/
theorem iterate_le_iff {p : ℕ × ℕ} (h : 0 < p.1 ∧ 0 < p.2) (n a : ℕ) {b : ℕ} (hb : 0 < b) :
    damp^[n] ((p.1 : K) / p.2) ≤ a / b ↔
      b * (dampFraction^[n] p).1 ≤ a * (dampFraction^[n] p).2 := by
  have hpos : 0 < (dampFraction^[n] p).1 ∧ 0 < (dampFraction^[n] p).2 := by
    induction n with
    | zero => exact h
    | succ n ih =>
      rw [Function.iterate_succ_apply']
      exact dampFraction_pos ih
  rw [iterate_fraction h, div_le_div_iff₀ (Nat.cast_pos.mpr hpos.2) (Nat.cast_pos.mpr hb),
    mul_comm (b : ℕ)]
  exact_mod_cast Iff.rfl

end Fractions

end SafetyDao.NewtonRoot
