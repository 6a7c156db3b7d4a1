import Mathlib.Algebra.Order.Floor.Semiring
import Mathlib.Tactic.Linarith
import Mathlib.Tactic.Ring

/-!
# Token buckets over an ordered field

A bucket of capacity `burst` gains `rate` tokens per unit of time and gives one to
each request it admits. In any interval it admits at most a full bucket and what
flows in meanwhile; conversely, arrivals that never exceed this amount, counted
from any one of them on, are all admitted. The last section turns a bound on every
window into a bound on every interval.
-/
namespace SafetyDao

structure TokenBucket (K : Type) [Field K] [LinearOrder K] where
  rate : K
  burst : K
  rate_pos : 0 < rate
  one_le_burst : 1 ≤ burst

namespace TokenBucket

section Instants

variable {K : Type} [LinearOrder K]

/-- How many of some instants lie in the closed interval from `x` to `y`. -/
def countIn (x y : K) (ts : List K) : ℕ := ts.countP (fun t => x ≤ t ∧ t ≤ y)

theorem countIn_cons (x y t : K) (ts : List K) :
    countIn x y (t :: ts) = countIn x y ts + if x ≤ t ∧ t ≤ y then 1 else 0 := by
  simp [countIn, List.countP_cons]

theorem countIn_eq_zero {x y : K} {ts : List K} (h : ∀ t ∈ ts, y < t) : countIn x y ts = 0 := by
  refine List.countP_eq_zero.mpr fun t ht => ?_
  simp [not_le.mpr (h t ht)]

end Instants

section Levels

variable {K : Type} [Field K] [LinearOrder K]

/-- The tokens a bucket held when it was last asked. -/
structure Level (K : Type) where
  tokens : K
  time : K

variable (q : TokenBucket K)

def full (t : K) : Level K := ⟨q.burst, t⟩

/-- The tokens there are at time `t`. -/
def refill (s : Level K) (t : K) : K := min q.burst (s.tokens + q.rate * (t - s.time))

/-- A request takes a token if there is one. -/
def check (s : Level K) (t : K) : Level K × Bool :=
  if 1 ≤ q.refill s t then (⟨q.refill s t - 1, t⟩, true) else (⟨q.refill s t, t⟩, false)

/-- The requests that are admitted, by the time of each. -/
def admitted (s : Level K) : List K → List K
  | [] => []
  | t :: ts =>
    let out := q.check s t
    if out.2 then t :: admitted out.1 ts else admitted out.1 ts

/-- The requests admitted by a bucket that is full when the first one arrives,
unless it has a level already. -/
def admittedFrom (s : Option (Level K)) (ts : List K) : List K :=
  match s, ts with
  | some s, ts => q.admitted s ts
  | none, [] => []
  | none, t :: ts => q.admitted (q.full t) (t :: ts)

theorem admittedFrom_cons (s : Option (Level K)) (t : K) (ts : List K) :
    q.admittedFrom s (t :: ts) = q.admitted (s.getD (q.full t)) (t :: ts) := by
  cases s <;> rfl

/-- The answers to requests at some times. -/
def answers (s : Level K) : List K → List Bool
  | [] => []
  | t :: ts => (q.check s t).2 :: answers (q.check s t).1 ts

/-- The answers of a bucket that is full when the first request arrives, unless it has a
level already. -/
def answersFrom (s : Option (Level K)) : List K → List Bool
  | [] => []
  | t :: ts => q.answers (s.getD (q.full t)) (t :: ts)

@[simp] theorem answersFrom_some (s : Level K) (ts : List K) :
    q.answersFrom (some s) ts = q.answers s ts := by cases ts <;> rfl

theorem check_full (t : K) : (q.check (q.full t) t).2 = true := by
  have hone := q.one_le_burst
  simp [check, refill, full, hone]

/-- A request at the time of the last one finds what that one left. -/
theorem check_same_time {s : Level K} {t : K} (hs : s.time = t) (hle : s.tokens ≤ q.burst) :
    q.check s t = if 1 ≤ s.tokens then (⟨s.tokens - 1, t⟩, true) else (⟨s.tokens, t⟩, false) := by
  have hrefill : q.refill s t = s.tokens := by simp [refill, hs, hle]
  rw [check, hrefill]

theorem admitted_sublist (s : Level K) (ts : List K) : (q.admitted s ts).Sublist ts := by
  induction ts generalizing s with
  | nil => exact List.Sublist.refl _
  | cons t ts ih =>
    rw [admitted]
    split
    · exact (ih _).cons_cons t
    · exact (ih _).cons t

/-- Requests that come later than `y` do not count up to `y`. -/
theorem countIn_admitted_late (s : Level K) {t : K} {ts : List K} (x : K) {y : K} (hty : y < t)
    (hts : (t :: ts).Pairwise (· ≤ ·)) : countIn x y (q.admitted s (t :: ts)) = 0 := by
  refine countIn_eq_zero fun u hu => ?_
  have hmem := (q.admitted_sublist s (t :: ts)).mem hu
  rcases List.mem_cons.mp hmem with rfl | hmem
  · exact hty
  · exact lt_of_lt_of_le hty ((List.pairwise_cons.mp hts).1 u hmem)

theorem check_tokens (s : Level K) (t : K) : (q.check s t).1.tokens =
    q.refill s t - if (q.check s t).2 then 1 else 0 := by
  unfold check
  split <;> simp

@[simp] theorem check_time (s : Level K) (t : K) : (q.check s t).1.time = t := by
  unfold check
  split <;> rfl

theorem countIn_admitted_cons (s : Level K) (x y t : K) (ts : List K) :
    countIn x y (q.admitted s (t :: ts)) = countIn x y (q.admitted (q.check s t).1 ts) +
      if (q.check s t).2 ∧ x ≤ t ∧ t ≤ y then 1 else 0 := by
  rw [admitted]
  split
  · rename_i hadm
    simp [countIn_cons, hadm]
  · rename_i hadm
    simp [hadm]

variable [IsStrictOrderedRing K]

theorem check_nonneg {s : Level K} {t : K} (h : 0 ≤ s.tokens) (ht : s.time ≤ t) :
    0 ≤ (q.check s t).1.tokens := by
  have hrefill : 0 ≤ q.refill s t := by
    refine le_min (le_trans zero_le_one q.one_le_burst) (add_nonneg h ?_)
    exact mul_nonneg q.rate_pos.le (sub_nonneg.mpr ht)
  unfold check
  split
  · rename_i hone
    exact sub_nonneg.mpr hone
  · exact hrefill

/-- Up to `y`, a bucket gives out what it holds and what flows in until then. -/
theorem countIn_admitted_le_tokens {s : Level K} {ts : List K} (x : K) {y : K} (h : 0 ≤ s.tokens)
    (hs : ∀ t ∈ ts, s.time ≤ t) (hts : ts.Pairwise (· ≤ ·)) (hy : s.time ≤ y) :
    (countIn x y (q.admitted s ts) : K) ≤ s.tokens + q.rate * (y - s.time) := by
  induction ts generalizing s with
  | nil =>
    have hflow := mul_nonneg q.rate_pos.le (sub_nonneg.mpr hy)
    simpa [admitted, countIn] using add_nonneg h hflow
  | cons t ts ih =>
    obtain ⟨hhead, htail⟩ := List.pairwise_cons.mp hts
    have hst := hs t (by simp)
    by_cases hty : t ≤ y
    · have hrest := ih (q.check_nonneg h hst) (by simpa using hhead) htail (by simpa using hty)
      rw [check_tokens, check_time] at hrest
      have hrefill : q.refill s t ≤ s.tokens + q.rate * (t - s.time) := min_le_right _ _
      have hhead : ((if (q.check s t).2 ∧ x ≤ t ∧ t ≤ y then 1 else 0 : ℕ) : K) ≤
          if (q.check s t).2 then 1 else 0 := by
        split_ifs <;> simp_all
      have hflow : q.rate * (y - s.time) = q.rate * (t - s.time) + q.rate * (y - t) := by ring
      rw [countIn_admitted_cons, Nat.cast_add]
      linarith
    · rw [q.countIn_admitted_late s x (not_le.mp hty) hts, Nat.cast_zero]
      exact add_nonneg h (mul_nonneg q.rate_pos.le (sub_nonneg.mpr hy))

/-- In any interval a bucket admits at most its capacity and what flows in. -/
theorem countIn_admitted_le {s : Level K} {ts : List K} {x y : K} (h : 0 ≤ s.tokens)
    (hs : ∀ t ∈ ts, s.time ≤ t) (hts : ts.Pairwise (· ≤ ·)) (hxy : x ≤ y) :
    (countIn x y (q.admitted s ts) : K) ≤ q.burst + q.rate * (y - x) := by
  have hcap : 0 ≤ q.burst + q.rate * (y - x) :=
    add_nonneg (le_trans zero_le_one q.one_le_burst)
      (mul_nonneg q.rate_pos.le (sub_nonneg.mpr hxy))
  induction ts generalizing s with
  | nil => simpa [admitted, countIn] using hcap
  | cons t ts ih =>
    obtain ⟨hhead, htail⟩ := List.pairwise_cons.mp hts
    have hst := hs t (by simp)
    have hnonneg : 0 ≤ (q.check s t).1.tokens := q.check_nonneg h hst
    by_cases hty : t ≤ y
    · rw [countIn_admitted_cons]
      by_cases hxt : x ≤ t
      · have hrest := q.countIn_admitted_le_tokens x hnonneg
          (by simpa using hhead) htail (show (q.check s t).1.time ≤ y by simpa using hty)
        rw [check_tokens, check_time] at hrest
        have hrefill : q.refill s t ≤ q.burst := min_le_left _ _
        have hflow : q.rate * (y - t) ≤ q.rate * (y - x) :=
          mul_le_mul_of_nonneg_left (by linarith) q.rate_pos.le
        have hsame : ((if (q.check s t).2 ∧ x ≤ t ∧ t ≤ y then 1 else 0 : ℕ) : K) =
            if (q.check s t).2 then 1 else 0 := by simp [hxt, hty]
        rw [Nat.cast_add, hsame]
        linarith
      · rw [if_neg fun hin => hxt hin.2.1, Nat.add_zero]
        exact ih hnonneg (by simpa using hhead) htail
    · rw [q.countIn_admitted_late s x (not_le.mp hty) hts, Nat.cast_zero]
      exact hcap

theorem countIn_admittedFrom_none_le {ts : List K} (hts : ts.Pairwise (· ≤ ·)) {x y : K}
    (hxy : x ≤ y) : (countIn x y (q.admittedFrom none ts) : K) ≤ q.burst + q.rate * (y - x) := by
  have hburst := le_trans zero_le_one q.one_le_burst
  cases ts with
  | nil =>
    have hflow := mul_nonneg q.rate_pos.le (sub_nonneg.mpr hxy)
    simpa [admittedFrom, countIn] using add_nonneg hburst hflow
  | cons t ts =>
    refine q.countIn_admitted_le hburst ?_ hts hxy
    simpa [full] using (List.pairwise_cons.mp hts).1

end Levels

section Conforming

variable {K : Type} [Field K] [LinearOrder K] {q : TokenBucket K}

/-- Counted from `s`, the arrivals stay within `c` and what flows in. -/
def Within (q : TokenBucket K) (c s : K) (ts : List K) : Prop :=
  ∀ ys t, ys ++ [t] <+: ts → (ys.length : K) + 1 ≤ c + q.rate * (t - s)

/-- Counted from any arrival on, the arrivals stay within a full bucket and what
flows in. -/
def Conforms (q : TokenBucket K) (ts : List K) : Prop :=
  ∀ t rest, t :: rest <:+ ts → q.Within q.burst t (t :: rest)

theorem Conforms.tail {t : K} {ts : List K} (h : q.Conforms (t :: ts)) : q.Conforms ts :=
  fun u rest hsuf => h u rest (hsuf.trans (List.suffix_cons t ts))

variable [IsStrictOrderedRing K]

/-- Conforming arrivals are all admitted: what is left in the bucket covers the
arrivals still to come, be it that it was full just now or that it was not. -/
theorem admitted_eq_of_conforms {s : Level K} {ts : List K} (hs : q.Within s.tokens s.time ts)
    (hc : q.Conforms ts) : q.admitted s ts = ts := by
  induction ts generalizing s with
  | nil => rfl
  | cons t ts ih =>
    have hone : 1 ≤ q.refill s t := by
      have hfirst := hs [] t (by simp)
      rw [List.length_nil, Nat.cast_zero, zero_add] at hfirst
      exact le_min q.one_le_burst hfirst
    have hcheck : q.check s t = (⟨q.refill s t - 1, t⟩, true) := if_pos hone
    rw [admitted, hcheck]
    dsimp only
    rw [if_pos rfl, ih _ hc.tail]
    intro ys u hpre
    have hlong : (t :: ys) ++ [u] <+: t :: ts := by simpa using hpre
    have hburst := hc t ts (List.suffix_refl _) (t :: ys) u hlong
    have hstock := hs (t :: ys) u hlong
    rw [List.length_cons, Nat.cast_add, Nat.cast_one] at hburst hstock
    have hsum : q.rate * (u - s.time) = q.rate * (t - s.time) + q.rate * (u - t) := by ring
    have hle : (ys.length : K) + 1 + 1 - q.rate * (u - t) ≤ q.refill s t :=
      le_min (by linarith) (by linarith)
    dsimp only
    linarith

theorem admittedFrom_none_of_conforms {ts : List K} (hc : q.Conforms ts) :
    q.admittedFrom none ts = ts := by
  cases ts with
  | nil => rfl
  | cons t ts => exact admitted_eq_of_conforms (hc t ts (List.suffix_refl _)) hc

end Conforming

section Windows

variable {K : Type} [Field K] [LinearOrder K] {q : TokenBucket K}

/-- How many of some instants lie in the half-open window of length `W` from `x`. -/
def countWindow (W x : K) (ts : List K) : ℕ := ts.countP (fun t => x ≤ t ∧ t < x + W)

/-- `m` windows in a row hold at most `m` times what each may hold. -/
theorem countWindow_mul_le {W : K} {n : ℕ} {ts : List K} (h : ∀ x, countWindow W x ts ≤ n)
    (x : K) (m : ℕ) : countWindow (m * W) x ts ≤ m * n := by
  induction m with
  | zero =>
    simp only [countWindow, Nat.cast_zero, zero_mul, add_zero, Nat.le_zero, List.countP_eq_zero]
    intro t _
    simp
  | succ m ih =>
    have hsplit : countWindow ((m + 1 : ℕ) * W) x ts ≤
        countWindow (m * W) x ts + countWindow W (x + m * W) ts := by
      unfold countWindow
      clear ih h
      induction ts with
      | nil => simp
      | cons t ts ih =>
        simp only [List.countP_cons, decide_eq_true_eq]
        have hcover : x ≤ t ∧ t < x + (m + 1 : ℕ) * W →
            (x ≤ t ∧ t < x + m * W) ∨ (x + m * W ≤ t ∧ t < x + m * W + W) := by
          rintro ⟨hx, ht⟩
          rcases lt_or_ge t (x + m * W) with hlt | hge
          · exact .inl ⟨hx, hlt⟩
          · refine .inr ⟨hge, ?_⟩
            rw [Nat.cast_add, Nat.cast_one, add_mul, one_mul, ← add_assoc] at ht
            exact ht
        split_ifs with h₁ h₂ h₃ h₃ h₂ h₃ h₃ <;> first | omega | exact absurd (hcover h₁) (by tauto)
    calc countWindow ((m + 1 : ℕ) * W) x ts
        ≤ countWindow (m * W) x ts + countWindow W (x + m * W) ts := hsplit
      _ ≤ m * n + n := Nat.add_le_add ih (h _)
      _ = (m + 1) * n := by ring

variable [IsStrictOrderedRing K]

/-- Arrivals of which every window of length `W` holds at most a full bucket
conform, if the rate refills a bucket in such a window. -/
theorem conforms_of_windows [FloorSemiring K] {W : K} (hW : 0 < W) {n : ℕ} {ts : List K}
    (hts : ts.Pairwise (· ≤ ·)) (h : ∀ x, countWindow W x ts ≤ n) (hn : (n : K) ≤ q.burst)
    (hrate : (n : K) ≤ q.rate * W) : q.Conforms ts := by
  intro t rest hsuf ys u hpre
  have hsorted : (t :: rest).Pairwise (· ≤ ·) := hts.sublist hsuf.sublist
  have hwithin : ∀ v ∈ ys ++ [u], t ≤ v ∧ v ≤ u := by
    have hpair := hsorted.sublist hpre.sublist
    intro v hv
    constructor
    · rcases List.mem_cons.mp (hpre.sublist.mem hv) with rfl | hmem
      · exact le_refl _
      · exact (List.pairwise_cons.mp hsorted).1 v hmem
    · rcases List.mem_append.mp hv with hv | hv
      · exact (List.pairwise_append.mp hpair).2.2 v hv u (by simp)
      · exact (List.mem_singleton.mp hv).le
  have htu : t ≤ u := (hwithin u (by simp)).1
  let m := ⌊(u - t) / W⌋₊
  have hm : (m : K) * W ≤ u - t := by
    have := Nat.floor_le (div_nonneg (sub_nonneg.mpr htu) hW.le)
    exact (le_div_iff₀ hW).mp this
  have hlast : u < t + (m + 1 : ℕ) * W := by
    have := (div_lt_iff₀ hW).mp (Nat.lt_floor_add_one ((u - t) / W))
    rw [Nat.cast_add, Nat.cast_one]
    linarith
  have hcount : ys.length + 1 ≤ (m + 1) * n := by
    have hall : countWindow ((m + 1 : ℕ) * W) t (ys ++ [u]) = ys.length + 1 := by
      rw [countWindow, List.countP_eq_length.mpr, List.length_append, List.length_singleton]
      intro v hv
      exact decide_eq_true ⟨(hwithin v hv).1, lt_of_le_of_lt (hwithin v hv).2 hlast⟩
    rw [← hall]
    refine le_trans (List.Sublist.countP_le (hpre.sublist.trans hsuf.sublist)) ?_
    exact countWindow_mul_le h t (m + 1)
  have hcast : (ys.length : K) + 1 ≤ (m + 1) * n := by exact_mod_cast hcount
  calc (ys.length : K) + 1 ≤ (m + 1) * n := hcast
    _ = n + m * n := by ring
    _ ≤ q.burst + m * (q.rate * W) :=
        add_le_add hn (mul_le_mul_of_nonneg_left hrate (Nat.cast_nonneg m))
    _ = q.burst + q.rate * (m * W) := by ring
    _ ≤ q.burst + q.rate * (u - t) := by
        have := mul_le_mul_of_nonneg_left hm q.rate_pos.le
        linarith

end Windows

section Saturating

variable {K : Type} [Field K] [LinearOrder K] (q : TokenBucket K)

/-- `n` requests at once, then `m` more as fast as tokens flow in. -/
def saturating (n m : ℕ) : List K :=
  (List.range (n + m)).map (fun i => ((i + 1 - n : ℕ) : K) / q.rate)

variable [IsStrictOrderedRing K] {q}

theorem saturating_sorted (n m : ℕ) : (q.saturating n m).Pairwise (· ≤ ·) := by
  rw [saturating, List.pairwise_map]
  refine List.pairwise_lt_range.imp fun hij => ?_
  refine div_le_div_of_nonneg_right ?_ q.rate_pos.le
  exact_mod_cast (by omega)

theorem saturating_conforms {n : ℕ} (hn : q.burst = n) (m : ℕ) : q.Conforms (q.saturating n m) := by
  rintro t rest ⟨before, hbefore⟩ ys u ⟨after, hafter⟩
  have hat : ∀ i v, (q.saturating n m)[i]? = some v → q.rate * v = ((i + 1 - n : ℕ) : K) := by
    intro i v hv
    simp only [saturating, List.getElem?_map, Option.map_eq_some_iff] at hv
    obtain ⟨j, hj, rfl⟩ := hv
    obtain ⟨-, rfl⟩ := List.getElem?_eq_some_iff.mp hj
    rw [List.getElem_range]
    exact mul_div_cancel₀ _ q.rate_pos.ne'
  have ht := hat before.length t (by rw [← hbefore]; simp)
  have hu := hat (before.length + ys.length) u (by rw [← hbefore, ← hafter]; simp)
  have hone : 1 ≤ n := by exact_mod_cast hn ▸ q.one_le_burst
  have hnat : ys.length + 1 + (before.length + 1 - n) ≤
      n + (before.length + ys.length + 1 - n) := by omega
  have hcast : (ys.length : K) + 1 + ((before.length + 1 - n : ℕ) : K) ≤
      n + ((before.length + ys.length + 1 - n : ℕ) : K) := by exact_mod_cast hnat
  rw [hn, mul_sub, ht, hu]
  linarith

/-- All of them come while `m` tokens flow in. -/
theorem countIn_saturating (n m : ℕ) :
    countIn 0 ((m : K) / q.rate) (q.saturating n m) = n + m := by
  have hall : countIn 0 ((m : K) / q.rate) (q.saturating n m) = (q.saturating n m).length := by
    refine List.countP_eq_length.mpr fun v hv => ?_
    obtain ⟨i, hi, rfl⟩ := List.mem_map.mp hv
    rw [List.mem_range] at hi
    refine decide_eq_true ⟨div_nonneg (Nat.cast_nonneg _) q.rate_pos.le, ?_⟩
    refine div_le_div_of_nonneg_right ?_ q.rate_pos.le
    exact_mod_cast (by omega)
  rw [hall, saturating, List.length_map, List.length_range]

end Saturating

end TokenBucket

end SafetyDao
