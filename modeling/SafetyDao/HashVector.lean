import SafetyDao.NewtonRoot
import SafetyDao.QdrantClient
import Mathlib.Algebra.BigOperators.Group.List.Basic
import Mathlib.Algebra.Order.Ring.Rat
import Mathlib.Data.List.GetD

/-!
# The vector of a text

`hashToVector` adds up the bytes of a text by their position modulo 128 and divides by the
norm, whose root is found by ten Newton steps from half the number. In exact arithmetic the
ten steps reach the root closely enough for most texts, but not for the least one nor for
very long ones.
-/
namespace SafetyDao

section Hash

variable {F32 F64 : Type} [OfNat F32 0] [OfNat F32 255] [Add F32] [Mul F32] [Div F32]
  [OfNat F64 0] [OfNat F64 2] [Add F64] [Sub F64] [Mul F64] [Div F64] [LT F64] [DecidableLT F64]

/-- `v[i%128] += float32(b) / 255.0`. -/
def addByte (ofByte : UInt8 → F32) (v : List F32) (p : UInt8 × ℕ) : List F32 :=
  v.modify (p.2 % 128) fun x => x + ofByte p.1 / 255

def hashToVector (ofByte : UInt8 → F32) (float64 : F32 → F64) (float32 : F64 → F32)
    (input : List UInt8) : List F32 :=
  let v := input.zipIdx.foldl (addByte ofByte) (List.replicate 128 0)
  let norm := sqrt (v.foldl (fun acc val => acc + float64 (val * val)) 0)
  if 0 < norm then v.map fun val => float32 (float64 val / norm) else v

end Hash

namespace HashVector

/-- The vector in exact arithmetic. -/
def exactVector (input : List UInt8) : List ℚ := hashToVector (fun b => (b.toNat : ℚ)) id id input

def sumSquares (v : List ℚ) : ℚ := (v.map fun x => x ^ 2).sum

/-- The sum of the bytes whose index has residue `k`. -/
def sumAt (ps : List (UInt8 × ℕ)) (k : ℕ) : ℕ :=
  ((ps.filter fun p => p.2 % 128 = k).map fun p => p.1.toNat).sum

def residueSum (input : List UInt8) (k : ℕ) : ℕ := sumAt input.zipIdx k

/-- The squared norm of the sums of bytes. -/
def weight (input : List UInt8) : ℕ := ((List.range 128).map fun k => residueSum input k ^ 2).sum

section Sums

theorem getElem?_foldl_addByte (ps : List (UInt8 × ℕ)) (v : List ℚ) (k : ℕ) :
    (ps.foldl (addByte fun b => (b.toNat : ℚ)) v)[k]? =
      v[k]?.map fun x => x + (sumAt ps k : ℚ) / 255 := by
  induction ps generalizing v with
  | nil => simp [sumAt]
  | cons p ps ih =>
    rw [List.foldl_cons, ih, addByte, List.getElem?_modify]
    have hsum : sumAt (p :: ps) k = (if p.2 % 128 = k then p.1.toNat else 0) + sumAt ps k := by
      unfold sumAt
      by_cases hk : p.2 % 128 = k <;> simp [hk]
    rw [hsum]
    by_cases hk : p.2 % 128 = k
    · simp only [hk, if_true, Option.map_map, Function.comp_def, Option.map_eq_map, Nat.cast_add]
      refine congrArg (fun f => v[k]?.map f) (funext fun x => ?_)
      ring
    · simp only [hk, if_false, Option.map_eq_map, Nat.zero_add, Option.map_id']

/-- Before the division by the norm each component is its sum of bytes in units of 255. -/
theorem foldl_addByte (input : List UInt8) :
    input.zipIdx.foldl (addByte fun b => (b.toNat : ℚ)) (List.replicate 128 0) =
      ((List.range 128).map fun k => (residueSum input k : ℚ)).map fun x => x / 255 := by
  rw [List.map_map]
  refine List.ext_getElem? fun k => ?_
  rw [getElem?_foldl_addByte, List.getElem?_replicate, List.getElem?_map]
  by_cases hk : k < 128
  · rw [if_pos hk, List.getElem?_range hk]
    simp [residueSum]
  · rw [if_neg hk, List.getElem?_eq_none (by simpa using hk)]
    rfl

theorem foldl_squares (v : List ℚ) :
    v.foldl (fun acc val => acc + id (val * val)) 0 = sumSquares v := by
  rw [sumSquares, List.sum_eq_foldl, List.foldl_map]
  simp only [id_eq, sq]

theorem sumSquares_div (v : List ℚ) (c : ℚ) :
    sumSquares (v.map fun x => x / c) = sumSquares v / c ^ 2 := by
  induction v with
  | nil => simp [sumSquares]
  | cons x v ih =>
    simp only [sumSquares, List.map_cons, List.sum_cons] at ih ⊢
    rw [ih]
    ring

theorem sumSquares_cast (ks : List ℕ) (f : ℕ → ℕ) :
    sumSquares (ks.map fun k => (f k : ℚ)) = ((ks.map fun k => f k ^ 2).sum : ℕ) := by
  induction ks with
  | nil => rfl
  | cons k ks ih =>
    simp only [sumSquares, List.map_cons, List.sum_cons] at ih ⊢
    rw [ih]
    push_cast
    rfl

/-- The squared norm of the sums is the weight, in units of 255². -/
theorem sumSquares_foldl (input : List UInt8) :
    sumSquares (input.zipIdx.foldl (addByte fun b => (b.toNat : ℚ)) (List.replicate 128 0)) =
      weight input / 65025 := by
  have hunit : (255 : ℚ) ^ 2 = 65025 := by norm_num
  rw [foldl_addByte, sumSquares_div, sumSquares_cast, hunit, weight]

end Sums

section Norm

/-- The divisor of the components. -/
theorem sqrt_eq_iterate (x : ℚ) : sqrt x = (NewtonRoot.step x)^[10] (x / 2) := rfl

theorem sqrt_pos {x : ℚ} (hx : 0 < x) : 0 < sqrt x := by
  rw [sqrt_eq_iterate]
  exact NewtonRoot.iterate_pos hx (half_pos hx) 10

theorem sqrt_sq_div {x : ℚ} (hx : 0 < x) : sqrt x ^ 2 / x = NewtonRoot.damp^[10] (x / 4) := by
  have hstart : (x / 2) ^ 2 / x = x / 4 := by
    field_simp
    norm_num
  rw [sqrt_eq_iterate, NewtonRoot.iterate_sq_div hx (half_pos hx), hstart]

variable {input : List UInt8}

theorem exactVector_eq (h : 0 < weight input) : exactVector input =
    (input.zipIdx.foldl (addByte fun b => (b.toNat : ℚ)) (List.replicate 128 0)).map
      fun x => x / sqrt (weight input / 65025 : ℚ) := by
  have hnorm : 0 < sqrt (weight input / 65025 : ℚ) := sqrt_pos (by positivity)
  rw [exactVector, hashToVector, foldl_squares, sumSquares_foldl]
  exact if_pos hnorm

theorem length_exactVector : (exactVector input).length = 128 := by
  rw [exactVector, hashToVector, foldl_addByte]
  split <;> simp

/-- The squared length of the vector is what ten steps leave of a ratio. -/
theorem sumSquares_exactVector (h : 0 < weight input) :
    sumSquares (exactVector input) = (NewtonRoot.damp^[10] (weight input / 260100 : ℚ))⁻¹ := by
  have hpos : (0 : ℚ) < weight input / 65025 := by positivity
  have hquarter : (weight input / 65025 : ℚ) / 4 = weight input / 260100 := by ring
  rw [exactVector_eq h, sumSquares_div, sumSquares_foldl, ← hquarter, ← sqrt_sq_div hpos, inv_div]

end Norm

section Thresholds

open NewtonRoot (damp dampFraction iterate_le_iff iterate_le_iterate iterate_inv)

theorem damp_ten_le {r : ℚ} (hr : 1 ≤ r) (h : r ≤ 39010329948 / 260100) :
    damp^[10] r ≤ 50 / 49 := by
  have hend := (iterate_le_iff (K := ℚ) (p := (39010329948, 260100)) (by decide) 10 50
    (b := 49) (by decide)).mpr (by decide +kernel)
  exact (iterate_le_iterate hr h 10).trans (by exact_mod_cast hend)

theorem lt_damp_ten {r : ℚ} (h : 39010329949 / 260100 ≤ r) : 50 / 49 < damp^[10] r := by
  have hend := (iterate_le_iff (K := ℚ) (p := (39010329949, 260100)) (by decide) 10 50
    (b := 49) (by decide)).not.mpr (by decide +kernel)
  refine lt_of_lt_of_le ?_ (iterate_le_iterate (by norm_num) h 10)
  exact_mod_cast not_le.mp hend

/-- Ten steps are enough exactly between two ends. -/
theorem damp_ten_le_iff {n : ℕ} (hn : 1 ≤ n) :
    damp^[10] (n / 260100 : ℚ) ≤ 50 / 49 ↔ 2 ≤ n ∧ n ≤ 39010329948 := by
  by_cases hlarge : 260100 ≤ n
  · -- too large a guess, or the right one
    constructor
    · intro h
      refine ⟨by omega, ?_⟩
      by_contra hn'
      refine absurd h (not_le.mpr (lt_damp_ten (div_le_div_of_nonneg_right ?_ (by norm_num))))
      exact_mod_cast not_le.mp hn'
    · rintro ⟨-, hn'⟩
      refine damp_ten_le ?_ (div_le_div_of_nonneg_right ?_ (by norm_num))
      · rw [one_le_div (by norm_num)]
        exact_mod_cast hlarge
      · exact_mod_cast hn'
  · -- too small a guess, as good as one too large by the inverse factor
    have hpos : (0 : ℚ) < n := by exact_mod_cast hn
    rw [← inv_div, iterate_inv (by positivity)]
    constructor
    · intro h
      refine ⟨?_, by omega⟩
      by_contra hn'
      obtain rfl : n = 1 := by omega
      exact absurd h (not_le.mpr (lt_damp_ten (by norm_num)))
    · rintro ⟨hn', -⟩
      have htwo : (2 : ℚ) ≤ n := by exact_mod_cast hn'
      refine damp_ten_le ?_ ?_
      · rw [one_le_div hpos]
        exact_mod_cast (not_le.mp hlarge).le
      · rw [div_le_div_iff₀ hpos (by norm_num)]
        linarith

end Thresholds

/-- A vector of 128 components, of length one up to one percent. -/
structure UnitLength (v : List ℚ) : Prop where
  length : v.length = 128
  lower : 98 / 100 ≤ sumSquares v
  upper : sumSquares v ≤ 102 / 100

theorem weight_pos {input : List UInt8} (h : ∃ b ∈ input, b ≠ 0) : 0 < weight input := by
  rw [Nat.pos_iff_ne_zero]
  intro hzero
  obtain ⟨b, hb, hne⟩ := h
  obtain ⟨i, hi⟩ := List.mem_iff_getElem?.mp hb
  have hsum : residueSum input (i % 128) = 0 := by
    have hsq := List.sum_eq_zero_iff_forall_eq_nat.mp hzero _ (List.mem_map_of_mem
      (List.mem_range.mpr (Nat.mod_lt i (by decide))))
    exact pow_eq_zero_iff (by decide) |>.mp hsq
  have hbyte := List.sum_eq_zero_iff_forall_eq_nat.mp hsum b.toNat (List.mem_map_of_mem
    (List.mem_filter.mpr ⟨List.mk_mem_zipIdx_iff_getElem?.mpr hi, by simp⟩))
  exact hne (UInt8.toNat_inj.mp hbyte)

/-- The squared length never exceeds one, so only its lower bound can fail. -/
theorem unitLength_iff_damp {input : List UInt8} (h : 0 < weight input) :
    UnitLength (exactVector input) ↔
      NewtonRoot.damp^[10] (weight input / 260100 : ℚ) ≤ 50 / 49 := by
  have hone : 1 ≤ NewtonRoot.damp^[10] (weight input / 260100 : ℚ) :=
    NewtonRoot.one_le_iterate_succ (by positivity) 9
  have hpos := one_pos.trans_le hone
  constructor
  · intro hunit
    have hlower := hunit.lower
    rw [sumSquares_exactVector h, le_inv_comm₀ (by norm_num) hpos] at hlower
    exact hlower.trans (by norm_num)
  · intro hle
    refine ⟨length_exactVector, ?_, ?_⟩
    · rw [sumSquares_exactVector h, le_inv_comm₀ (by norm_num) hpos]
      exact hle.trans (by norm_num)
    · rw [sumSquares_exactVector h]
      exact (inv_le_one_of_one_le₀ hone).trans (by norm_num)

/-- In exact arithmetic the vector of a text with a byte that is not zero has length one, up
to one percent, exactly if the weight of the text is between the two ends. -/
theorem unitLength_exactVector_iff {input : List UInt8} (h : ∃ b ∈ input, b ≠ 0) :
    UnitLength (exactVector input) ↔ 2 ≤ weight input ∧ weight input ≤ 39010329948 := by
  rw [unitLength_iff_damp (weight_pos h)]
  exact damp_ten_le_iff (weight_pos h)

/-- The vector of `hi`. -/
theorem unitLength_exactVector_hi : UnitLength (exactVector [104, 105]) :=
  (unitLength_exactVector_iff ⟨104, by decide, by decide⟩).mpr (by decide +kernel)

/-- The vector of a single byte 1 is too short. -/
theorem exactVector_too_short :
    ¬ ∀ input : List UInt8, (∃ b ∈ input, b ≠ 0) → UnitLength (exactVector input) := by
  intro h
  have hweight : weight [1] = 1 := by decide +kernel
  have hunit := h [1] ⟨1, by decide, by decide⟩
  rw [unitLength_iff_damp (by rw [hweight]; decide), hweight, damp_ten_le_iff le_rfl] at hunit
  exact absurd hunit.1 (by decide)

end HashVector

end SafetyDao
