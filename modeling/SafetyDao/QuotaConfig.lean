import SafetyDao.RateLimiter

/-!
# The quota of a configuration

The configuration admits any two 64-bit numbers, while `RateLimiter::new` adds them in 64
bits and casts to 32. This module says for which of them the quota is the configured one.
-/
namespace SafetyDao.RateLimiter

variable {K : Type}

/-- The rate is the least one that gives the requests in a window. -/
theorem pred_perSecond_mul_lt {n w : ℕ} (hn : 1 ≤ n) (hw : 1 ≤ w) :
    (perSecond n w - 1) * w < n := by
  have hle : perSecond n w * w ≤ n + w - 1 := Nat.div_mul_le_self _ _
  rw [Nat.sub_mul]
  omega

/-- A window of no seconds counts as one second. -/
theorem new_max (overflowChecks : Bool) (requests windowSecs : UInt64) :
    new K overflowChecks requests (max 1 windowSecs) =
      new K overflowChecks requests windowSecs := by
  have hmax : max 1 (max 1 windowSecs) = max 1 windowSecs := by
    rw [← UInt64.toNat_inj]
    simp only [UInt64.toNat_max]
    omega
  unfold new
  rw [hmax]

/-- A limiter lets the configured requests through at once, and as many in each window at the
least rate in whole requests for each second. -/
structure AsConfigured (limiter : RateLimiter K) (requests windowSecs : UInt64) : Prop where
  burst : limiter.quota.burst.get.toNat = requests.toNat
  enough : requests.toNat ≤ limiter.quota.rate.get.toNat * (max 1 windowSecs).toNat
  noMore : (limiter.quota.rate.get.toNat - 1) * (max 1 windowSecs).toNat < requests.toNat

/-- The burst is a 32-bit number. -/
theorem AsConfigured.requests_lt {limiter : RateLimiter K} {requests windowSecs : UInt64}
    (h : AsConfigured limiter requests windowSecs) : requests.toNat < 2 ^ 32 := by
  rw [← h.burst]
  exact limiter.quota.burst.get.toNat_lt

/-- A build with overflow checks returns only if the sum does not wrap around. -/
theorem fits_of_new {requests windowSecs : UInt64} {limiter : RateLimiter K}
    (h : new K true requests windowSecs = some limiter) :
    requests.toNat + (max 1 windowSecs).toNat < 2 ^ 64 := by
  simp only [new, Option.bind_eq_bind, Option.bind_eq_some_iff] at h
  obtain ⟨sum, hsum, -⟩ := h
  rw [addU64, Option.ite_none_left_eq_some] at hsum
  have hfits := hsum.1
  simp only [true_and, not_le] at hfits
  exact hfits

/-- With and without overflow checks `new` returns, so that nothing wraps around, and the
quota is the configured one, exactly if the requests fit 32 bits and the sum fits 64. -/
theorem new_asConfigured_iff {requests windowSecs : UInt64} (hn : 1 ≤ requests.toNat) :
    (∀ overflowChecks, ∃ limiter, new K overflowChecks requests windowSecs = some limiter ∧
      AsConfigured limiter requests windowSecs) ↔
    requests.toNat < 2 ^ 32 ∧ requests.toNat + (max 1 windowSecs).toNat < 2 ^ 64 := by
  constructor
  · intro h
    obtain ⟨limiter, hnew, hquota⟩ := h true
    exact ⟨hquota.requests_lt, fits_of_new hnew⟩
  · rintro ⟨hn', hfits⟩ overflowChecks
    have hw : 1 ≤ (max 1 windowSecs).toNat := by
      rw [UInt64.toNat_max]
      exact le_max_left 1 _
    obtain ⟨limiter, hnew⟩ := new_isSome K overflowChecks hn hn' hw hfits
    obtain ⟨-, hburst, hrate⟩ := new_quota hn hn' hw hnew
    rw [new_max] at hnew
    refine ⟨limiter, hnew, hburst, ?_, ?_⟩
    · rw [hrate]
      exact le_perSecond_mul hw
    · rw [hrate]
      exact pred_perSecond_mul_lt hn hw

/-- The configured defaults. -/
theorem new_asConfigured_defaults : ∃ limiter : RateLimiter ℚ,
    new ℚ true 100 60 = some limiter ∧ AsConfigured limiter 100 60 :=
  (new_asConfigured_iff (by decide)).mpr (by decide) true

/-- A burst of 2^32 requests is cast to zero. -/
theorem new_panics : ¬ ∀ requests windowSecs : UInt64, 1 ≤ requests.toNat →
    ∀ overflowChecks, ∃ limiter : RateLimiter ℚ,
      new ℚ overflowChecks requests windowSecs = some limiter ∧
        AsConfigured limiter requests windowSecs := by
  intro h
  obtain ⟨limiter, hnew, -⟩ := h 4294967296 60 (by decide) true
  have hpanic : new ℚ true 4294967296 60 = none := rfl
  rw [hpanic] at hnew
  cases hnew

end SafetyDao.RateLimiter
