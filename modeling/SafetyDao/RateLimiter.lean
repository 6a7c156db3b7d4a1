import SafetyDao.TokenBucket
import Mathlib.Algebra.Order.Ring.Rat
import Mathlib.Data.Rat.Floor
import Mathlib.Logic.Function.Basic

/-!
# The gateway's rate limiter

`RateLimiter::new` turns a number of requests and a window into a quota by 64-bit
arithmetic, and `check_rate_limit` keeps one bucket per key, made full when the
key is first seen. A quota is read as an ideal token bucket.
-/
namespace SafetyDao

/-- `a + b`. A build with overflow checks panics where the others wrap around. -/
def addU64 (overflowChecks : Bool) (a b : UInt64) : Option UInt64 :=
  if overflowChecks ∧ 2 ^ 64 ≤ a.toNat + b.toNat then none else some (a + b)

/-- `a - b`, likewise. -/
def subU64 (overflowChecks : Bool) (a b : UInt64) : Option UInt64 :=
  if overflowChecks ∧ a.toNat < b.toNat then none else some (a - b)

structure NonZeroU32 where
  get : UInt32
  pos : 0 < get.toNat

/-- `NonZeroU32::new(n)`. -/
def NonZeroU32.new (n : UInt32) : Option NonZeroU32 :=
  if h : 0 < n.toNat then some ⟨n, h⟩ else none

theorem NonZeroU32.new_of_pos {n : UInt32} (h : 0 < n.toNat) : NonZeroU32.new n = some ⟨n, h⟩ :=
  dif_pos h

/-- `Quota::per_second(rate).allow_burst(burst)`. -/
structure Quota where
  rate : NonZeroU32
  burst : NonZeroU32

section Bucket

variable (K : Type) [Field K] [LinearOrder K] [IsStrictOrderedRing K]

def Quota.bucket (quota : Quota) : TokenBucket K where
  rate := quota.rate.get.toNat
  burst := quota.burst.get.toNat
  rate_pos := Nat.cast_pos.mpr quota.rate.pos
  one_le_burst := Nat.one_le_cast.mpr quota.burst.pos

end Bucket

structure RateLimiter (K : Type) where
  limiters : String → Option (TokenBucket.Level K)
  quota : Quota

namespace RateLimiter

open TokenBucket (Level countIn countWindow)

/-- `None` is a panic. -/
def new (K : Type) (overflowChecks : Bool) (requests windowSecs : UInt64) :
    Option (RateLimiter K) := do
  let window := max 1 windowSecs
  let sum ← addU64 overflowChecks requests window
  let dividend ← subU64 overflowChecks sum 1
  let perSec := (max 1 (dividend / window)).toUInt32
  let burst ← NonZeroU32.new requests.toUInt32
  let rate ← NonZeroU32.new perSec
  return ⟨fun _ => none, ⟨rate, burst⟩⟩

/-- The rate of a quota for `n` requests in `w` seconds: the quotient, rounded up. -/
def perSecond (n w : ℕ) : ℕ := (n + w - 1) / w

theorem le_perSecond_mul {n w : ℕ} (hw : 1 ≤ w) : n ≤ perSecond n w * w := by
  have hdiv := Nat.div_add_mod (n + w - 1) w
  have hmod := Nat.mod_lt (n + w - 1) hw
  rw [perSecond, Nat.mul_comm]
  omega

theorem perSecond_pos {n w : ℕ} (hn : 1 ≤ n) (hw : 1 ≤ w) : 1 ≤ perSecond n w :=
  (Nat.one_le_div_iff hw).mpr (by omega)

theorem perSecond_le {n w : ℕ} (hn : 1 ≤ n) (hw : 1 ≤ w) : perSecond n w ≤ n := by
  obtain ⟨a, rfl⟩ := Nat.exists_eq_add_of_le hn
  obtain ⟨b, rfl⟩ := Nat.exists_eq_add_of_le hw
  refine Nat.div_le_of_le_mul ?_
  have hprod : (1 + b) * (1 + a) = 1 + a + b + b * a := by ring
  omega

theorem perSecond_of_le {n w : ℕ} (hn : 1 ≤ n) (h : n ≤ w) : perSecond n w = 1 := by
  refine Nat.div_eq_of_lt_le ?_ ?_ <;> omega

/-- Also where the sum wraps around, which it only does for a window longer than the
number of requests, the rate is the quotient rounded up. -/
theorem perSec_toNat {requests window : UInt64} (hn : 1 ≤ requests.toNat)
    (hn' : requests.toNat < 2 ^ 32) (hw : 1 ≤ window.toNat) :
    (max 1 ((requests + window - 1) / window)).toUInt32.toNat =
      perSecond requests.toNat window.toNat := by
  have hle := perSecond_le hn hw
  have hpos := perSecond_pos hn hw
  have hmax : (max 1 ((requests + window - 1) / window)).toNat =
      perSecond requests.toNat window.toNat := by
    have hw64 := window.toNat_lt
    rw [UInt64.toNat_max, UInt64.toNat_div, UInt64.toNat_sub, UInt64.toNat_add]
    simp only [UInt64.toNat_one]
    by_cases hfits : requests.toNat + window.toNat ≤ 2 ^ 64
    · have hsum : (2 ^ 64 - 1 + (requests.toNat + window.toNat) % 2 ^ 64) % 2 ^ 64 =
          requests.toNat + window.toNat - 1 := by omega
      rw [hsum]
      exact max_eq_right hpos
    · have hsum : (2 ^ 64 - 1 + (requests.toNat + window.toNat) % 2 ^ 64) % 2 ^ 64 <
          window.toNat := by omega
      rw [Nat.div_eq_of_lt hsum, perSecond_of_le hn (by omega)]
      rfl
  rw [UInt64.toNat_toUInt32, hmax, Nat.mod_eq_of_lt (by omega)]

variable {K : Type}

/-- The quota that `new` builds, whatever its build. -/
theorem new_quota {overflowChecks : Bool} {requests windowSecs : UInt64}
    (hn : 1 ≤ requests.toNat) (hn' : requests.toNat < 2 ^ 32) (hw : 1 ≤ windowSecs.toNat)
    {limiter : RateLimiter K} (h : new K overflowChecks requests windowSecs = some limiter) :
    (∀ ip, limiter.limiters ip = none) ∧ limiter.quota.burst.get.toNat = requests.toNat ∧
      limiter.quota.rate.get.toNat = perSecond requests.toNat windowSecs.toNat := by
  have hwindow : max 1 windowSecs = windowSecs :=
    UInt64.toNat_inj.mp ((UInt64.toNat_max 1 windowSecs).trans (max_eq_right hw))
  simp only [new, hwindow, addU64, subU64, NonZeroU32.new, Option.bind_eq_bind,
    Option.bind_eq_some_iff, Option.ite_none_left_eq_some, Option.some.injEq,
    Option.dite_none_right_eq_some, Option.pure_def] at h
  obtain ⟨sum, ⟨-, rfl⟩, dividend, ⟨-, rfl⟩, burst, ⟨hburst, rfl⟩, rate, ⟨hrate, rfl⟩, rfl⟩ := h
  refine ⟨fun _ => rfl, ?_, perSec_toNat hn hn' hw⟩
  rw [UInt64.toNat_toUInt32]
  exact Nat.mod_eq_of_lt hn'

/-- `new` returns whenever its sum fits. -/
theorem new_isSome (K : Type) (overflowChecks : Bool) {requests windowSecs : UInt64}
    (hn : 1 ≤ requests.toNat) (hn' : requests.toNat < 2 ^ 32) (hw : 1 ≤ windowSecs.toNat)
    (hfits : requests.toNat + windowSecs.toNat < 2 ^ 64) :
    ∃ limiter, new K overflowChecks requests windowSecs = some limiter := by
  have hwindow : max 1 windowSecs = windowSecs :=
    UInt64.toNat_inj.mp ((UInt64.toNat_max 1 windowSecs).trans (max_eq_right hw))
  have hadd : addU64 overflowChecks requests windowSecs = some (requests + windowSecs) :=
    if_neg (by omega)
  have hsub : subU64 overflowChecks (requests + windowSecs) 1 =
      some (requests + windowSecs - 1) := by
    refine if_neg fun hlt => ?_
    have hsum := hlt.2
    rw [UInt64.toNat_add, Nat.mod_eq_of_lt hfits] at hsum
    simp only [UInt64.toNat_one] at hsum
    omega
  have hburst : 0 < requests.toUInt32.toNat := by
    rw [UInt64.toNat_toUInt32, Nat.mod_eq_of_lt hn']
    exact hn
  have hrate : 0 < (max 1 ((requests + windowSecs - 1) / windowSecs)).toUInt32.toNat := by
    rw [perSec_toNat hn hn' hw]
    exact perSecond_pos hn hw
  refine ⟨⟨fun _ => none, ⟨⟨_, hrate⟩, ⟨_, hburst⟩⟩⟩, ?_⟩
  simp only [new, hwindow, hadd, hsub, NonZeroU32.new_of_pos hburst, Option.bind_eq_bind,
    Option.bind_some, NonZeroU32.new_of_pos hrate]
  rfl

section Requests

variable [Field K] [LinearOrder K] [IsStrictOrderedRing K]

/-- The bucket of a key answers for it, and is made full when there is none. -/
def checkRateLimit (limiter : RateLimiter K) (ip : String) (now : K) : RateLimiter K × Bool :=
  let bucket := limiter.quota.bucket K
  let out := bucket.check ((limiter.limiters ip).getD (bucket.full now)) now
  ({ limiter with limiters := Function.update limiter.limiters ip (some out.1) }, out.2)

/-- The requests that are let through, of a sequence of keys and times. -/
def letThrough (limiter : RateLimiter K) : List (String × K) → List (String × K)
  | [] => []
  | (ip, now) :: rest =>
    let out := limiter.checkRateLimit ip now
    if out.2 then (ip, now) :: out.1.letThrough rest else out.1.letThrough rest

/-- The times of the requests of one key. -/
def timesOf (ip : String) (reqs : List (String × K)) : List K :=
  (reqs.filter (fun req => req.1 = ip)).map Prod.snd

/-- Each key has its own bucket: what others ask does not matter to it. -/
theorem timesOf_letThrough (limiter : RateLimiter K) (ip : String) (reqs : List (String × K)) :
    timesOf ip (limiter.letThrough reqs) =
      (limiter.quota.bucket K).admittedFrom (limiter.limiters ip) (timesOf ip reqs) := by
  induction reqs generalizing limiter with
  | nil => cases h : limiter.limiters ip <;> rfl
  | cons req rest ih =>
    obtain ⟨key, now⟩ := req
    have hrest := ih (limiter.checkRateLimit key now).1
    rw [letThrough]
    by_cases hkey : key = ip
    · subst hkey
      have hcons : ∀ l, timesOf key ((key, now) :: l) = now :: timesOf key l := by simp [timesOf]
      have hlevel : (limiter.checkRateLimit key now).1.limiters key =
          some ((limiter.quota.bucket K).check
            ((limiter.limiters key).getD ((limiter.quota.bucket K).full now)) now).1 :=
        Function.update_self ..
      rw [hlevel] at hrest
      rw [hcons, TokenBucket.admittedFrom_cons, TokenBucket.admitted]
      have hanswer : (limiter.checkRateLimit key now).2 = ((limiter.quota.bucket K).check
          ((limiter.limiters key).getD ((limiter.quota.bucket K).full now)) now).2 := rfl
      rw [hanswer]
      split
      · rw [hcons, hrest]
        rfl
      · exact hrest
    · have hcons : ∀ l, timesOf ip ((key, now) :: l) = timesOf ip l := by simp [timesOf, hkey]
      have hlevel : (limiter.checkRateLimit key now).1.limiters ip = limiter.limiters ip :=
        Function.update_of_ne (Ne.symm hkey) ..
      rw [hlevel] at hrest
      split
      · rw [hcons, hcons, hrest]
        rfl
      · rw [hcons, hrest]
        rfl

/-- In every closed window of `W` seconds at most `N` requests of a key and what the
rate gives in such a window are let through, and no smaller bound holds. -/
theorem letThrough_window_le (overflowChecks : Bool) (requests windowSecs : UInt64)
    (hn : 1 ≤ requests.toNat) (hn' : requests.toNat < 2 ^ 32) (hw : 1 ≤ windowSecs.toNat)
    (limiter : RateLimiter K) (hnew : new K overflowChecks requests windowSecs = some limiter)
    (ip : String) :
    (∀ reqs : List (String × K), (timesOf ip reqs).Pairwise (· ≤ ·) → ∀ x : K,
      countIn x (x + windowSecs.toNat) (timesOf ip (limiter.letThrough reqs)) ≤
        requests.toNat + perSecond requests.toNat windowSecs.toNat * windowSecs.toNat) ∧
    ∃ reqs : List (String × K), (timesOf ip reqs).Pairwise (· ≤ ·) ∧
      countIn (0 : K) windowSecs.toNat (timesOf ip (limiter.letThrough reqs)) =
        requests.toNat + perSecond requests.toNat windowSecs.toNat * windowSecs.toNat := by
  obtain ⟨hfresh, hburst, hrate⟩ := new_quota hn hn' hw hnew
  have hbucket : (limiter.quota.bucket K).burst = requests.toNat ∧
      (limiter.quota.bucket K).rate = perSecond requests.toNat windowSecs.toNat := by
    simp only [Quota.bucket, hburst, hrate, and_self]
  constructor
  · intro reqs hsorted x
    rw [timesOf_letThrough, hfresh]
    have hle := (limiter.quota.bucket K).countIn_admittedFrom_none_le hsorted
      (show x ≤ x + (windowSecs.toNat : K) by simp)
    rw [hbucket.1, hbucket.2, add_sub_cancel_left] at hle
    exact_mod_cast hle
  · let m := perSecond requests.toNat windowSecs.toNat * windowSecs.toNat
    let times := (limiter.quota.bucket K).saturating requests.toNat m
    have htimes : timesOf ip (times.map (fun t => (ip, t))) = times := by
      simp [timesOf, List.filter_map, Function.comp_def]
    refine ⟨times.map (fun t => (ip, t)), ?_, ?_⟩
    · rw [htimes]
      exact TokenBucket.saturating_sorted requests.toNat m
    · have hall : (limiter.quota.bucket K).admittedFrom none times = times :=
        TokenBucket.admittedFrom_none_of_conforms (TokenBucket.saturating_conforms hbucket.1 m)
      have hend : (windowSecs.toNat : K) = (m : K) / (limiter.quota.bucket K).rate := by
        have hpos := (limiter.quota.bucket K).rate_pos
        rw [eq_div_iff hpos.ne', hbucket.2]
        push_cast [m]
        ring
      rw [timesOf_letThrough, hfresh, htimes, hall, hend]
      exact TokenBucket.countIn_saturating requests.toNat m

/-- A client of which no half-open window of `W` seconds holds more than `N`
requests has all of them let through. -/
theorem letThrough_of_windows [FloorSemiring K] (overflowChecks : Bool)
    (requests windowSecs : UInt64) (hn : 1 ≤ requests.toNat) (hn' : requests.toNat < 2 ^ 32)
    (hw : 1 ≤ windowSecs.toNat) (hfits : requests.toNat + windowSecs.toNat < 2 ^ 64) :
    ∃ limiter, new K overflowChecks requests windowSecs = some limiter ∧
      ∀ (ip : String) (reqs : List (String × K)), (timesOf ip reqs).Pairwise (· ≤ ·) →
        (∀ x, countWindow (windowSecs.toNat : K) x (timesOf ip reqs) ≤ requests.toNat) →
        timesOf ip (limiter.letThrough reqs) = timesOf ip reqs := by
  obtain ⟨limiter, hnew⟩ := new_isSome K overflowChecks hn hn' hw hfits
  refine ⟨limiter, hnew, fun ip reqs hsorted hwindows => ?_⟩
  obtain ⟨hfresh, hburst, hrate⟩ := new_quota hn hn' hw hnew
  rw [timesOf_letThrough, hfresh]
  refine TokenBucket.admittedFrom_none_of_conforms (TokenBucket.conforms_of_windows
    (Nat.cast_pos.mpr hw) hsorted hwindows ?_ ?_)
  · simp only [Quota.bucket, hburst, le_refl]
  · simp only [Quota.bucket, hrate]
    exact_mod_cast le_perSecond_mul hw

end Requests

/-- Two requests in a window of one second. -/
def twoPerSecond : RateLimiter ℚ := ⟨fun _ => none, ⟨⟨2, by decide⟩, ⟨2, by decide⟩⟩⟩

theorem new_two_one : new ℚ true 2 1 = some twoPerSecond := rfl

/-- Three requests of a client within the first second. -/
def burstAndOne : List (String × ℚ) := [("10.0.0.1", 0), ("10.0.0.1", 0), ("10.0.0.1", 1 / 2)]

theorem burstAndOne_window_le :
    countIn (0 : ℚ) (0 + 1) (timesOf "10.0.0.1" (twoPerSecond.letThrough burstAndOne)) ≤ 4 := by
  have h := (letThrough_window_le true 2 1 (by decide) (by decide) (by decide) twoPerSecond
    new_two_one "10.0.0.1").1 burstAndOne (by decide +kernel) 0
  exact_mod_cast h

/-- All three are let through: the third meets a token that has just flowed in. -/
theorem burst_and_refill_exceed_requests :
    ¬ ∀ (overflowChecks : Bool) (requests windowSecs : UInt64), 1 ≤ requests.toNat →
      requests.toNat < 2 ^ 32 → 1 ≤ windowSecs.toNat → ∀ limiter : RateLimiter ℚ,
      new ℚ overflowChecks requests windowSecs = some limiter → ∀ (ip : String)
      (reqs : List (String × ℚ)), (timesOf ip reqs).Pairwise (· ≤ ·) → ∀ x : ℚ,
      countWindow (windowSecs.toNat : ℚ) x (timesOf ip (limiter.letThrough reqs)) ≤
        requests.toNat := by
  intro h
  have hle := h true 2 1 (by decide) (by decide) (by decide) twoPerSecond new_two_one "10.0.0.1"
    burstAndOne (by decide +kernel) 0
  revert hle
  decide +kernel

/-- Two requests at once and one a second later stay within every window. -/
theorem two_per_window_let_through :
    ∃ limiter, new ℚ true 2 1 = some limiter ∧
      timesOf "10.0.0.1" (limiter.letThrough
        [("10.0.0.1", 0), ("10.0.0.1", 0), ("10.0.0.1", 1)]) = [0, 0, 1] := by
  obtain ⟨limiter, hnew, hall⟩ : ∃ limiter, new ℚ true 2 1 = some limiter ∧ _ :=
    letThrough_of_windows true 2 1 (by decide) (by decide) (by decide) (by decide)
  refine ⟨limiter, hnew, hall "10.0.0.1" _ (by decide +kernel) fun x => ?_⟩
  have htimes : timesOf "10.0.0.1" [("10.0.0.1", (0 : ℚ)), ("10.0.0.1", 0), ("10.0.0.1", 1)] =
      [0, 0, 1] := by decide +kernel
  have hapart : ¬ ((x ≤ 0 ∧ 0 < x + 1) ∧ x ≤ 1 ∧ 1 < x + 1) := by
    rintro ⟨⟨h0, -⟩, -, h1⟩
    linarith
  rw [htimes]
  simp only [countWindow, List.countP_cons, List.countP_nil, UInt64.reduceToNat, Nat.cast_one,
    decide_eq_true_eq]
  split_ifs <;> first | omega | exact absurd ⟨‹_›, ‹_›⟩ hapart

end RateLimiter

end SafetyDao
