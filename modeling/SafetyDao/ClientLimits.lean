import SafetyDao.Gateway
import Mathlib.Data.Set.Basic

/-!
# Rate limits and clients

The limiter keeps a bucket for each key, and the key is what X-Forwarded-For says. So
the decisions on one client's requests depend on nothing but their times exactly if each
client has one key and shares it with nobody.
-/
namespace SafetyDao.ClientLimits
open GatewayProxy
open TokenBucket (Level)

/-- A request of a client, which is the peer that opened the connection. The health check
is answered before the limiter and is no request here. -/
structure Request (C K : Type) where
  client : C
  time : K
  headers : HeaderMap

/-- The key of the bucket that decides on a request. -/
def key (headers : HeaderMap) : String := String.ofList (clientIP headers)

variable {C K : Type} [Field K] [LinearOrder K] [IsStrictOrderedRing K]

/-- The filter answers 429 exactly if the limiter says no, and keeps what it says. -/
theorem requestFilter_limiter (validateToken : Text → Except Text Claims)
    (limiter : RateLimiter K) (now : K) {path : Text} (headers : HeaderMap)
    (hpath : path ≠ "/health".toList) :
    (requestFilter validateToken limiter now path headers).1 =
      (limiter.checkRateLimit (key headers) now).1 ∧
    ((∃ body, (requestFilter validateToken limiter now path headers).2 = .answered 429 body) ↔
      (limiter.checkRateLimit (key headers) now).2 = false) := by
  have hauthorize : ∀ body, authorize validateToken headers ≠ .answered 429 body := by
    intro body
    unfold authorize
    cases (headers.get "authorization".toList).bind HeaderValue.toStr with
    | none => simp
    | some headerValue =>
      dsimp only
      cases Text.stripPrefix "Bearer ".toList headerValue with
      | none => simp
      | some token =>
        dsimp only
        cases validateToken token with
        | error e => simp
        | ok claims =>
          dsimp only
          cases HeaderValue.fromStr claims.sub with
          | none => simp
          | some sub => cases HeaderValue.fromStr claims.role <;> simp
  unfold requestFilter
  rw [if_neg hpath, key]
  dsimp only
  cases (limiter.checkRateLimit (String.ofList (clientIP headers)) now).2 with
  | false => simp
  | true =>
    rw [Bool.not_true, if_neg (by simp)]
    split
    · refine ⟨rfl, iff_of_false ?_ (by simp)⟩
      rintro ⟨body, h⟩
      exact hauthorize body h
    · refine ⟨rfl, iff_of_false ?_ (by simp)⟩
      rintro ⟨body, h⟩
      cases h

/-- The limiter before the first request. -/
def fresh (quota : Quota) : RateLimiter K := ⟨fun _ => none, quota⟩

/-- The limiter after some requests. -/
def after (limiter : RateLimiter K) : List (Request C K) → RateLimiter K
  | [] => limiter
  | r :: rest => after (limiter.checkRateLimit (key r.headers) r.time).1 rest

variable [DecidableEq C]

/-- The decisions on the requests of one client. -/
def decisionsOf (c : C) (limiter : RateLimiter K) : List (Request C K) → List Bool
  | [] => []
  | r :: rest =>
    let out := limiter.checkRateLimit (key r.headers) r.time
    if r.client = c then out.2 :: decisionsOf c out.1 rest else decisionsOf c out.1 rest

/-- The times of the requests of one client. -/
def timesOf (c : C) (reqs : List (Request C K)) : List K :=
  (reqs.filter fun r => r.client = c).map Request.time

/-- Clients send the headers they are said to send. -/
def Obeys (sends : C → Set HeaderMap) (reqs : List (Request C K)) : Prop :=
  ∀ r ∈ reqs, r.headers ∈ sends r.client

/-- What a client is told depends on when it asks, and neither on the requests of the others
nor on the headers of its own. -/
def PerClient (K : Type) [Field K] [LinearOrder K] [IsStrictOrderedRing K] (quota : Quota)
    (sends : C → Set HeaderMap) : Prop :=
  ∀ R R' : List (Request C K), Obeys sends R → Obeys sends R' →
    (R.map Request.time).Pairwise (· ≤ ·) → (R'.map Request.time).Pairwise (· ≤ ·) →
    ∀ c, timesOf c R = timesOf c R' →
      decisionsOf c (fresh quota) R = decisionsOf c (fresh quota) R'

/-- Each client has one key, and no other client has it. -/
def Separates (sends : C → Set HeaderMap) : Prop :=
  ∀ c c', ∀ h ∈ sends c, ∀ h' ∈ sends c', key h = key h' ↔ c = c'

section Alone

/-- The bucket of a key that one client alone has sees this client's requests. -/
theorem decisionsOf_eq_answers {c : C} {k : String} {reqs : List (Request C K)}
    (hkey : ∀ r ∈ reqs, key r.headers = k ↔ r.client = c) (limiter : RateLimiter K) :
    decisionsOf c limiter reqs =
      (limiter.quota.bucket K).answersFrom (limiter.limiters k) (timesOf c reqs) := by
  induction reqs generalizing limiter with
  | nil => rfl
  | cons r rest ih =>
    have hr := hkey r List.mem_cons_self
    have hrest := ih (fun r' hr' => hkey r' (List.mem_cons_of_mem r hr'))
      (limiter.checkRateLimit (key r.headers) r.time).1
    rw [decisionsOf, timesOf]
    by_cases hc : r.client = c
    · have hk : key r.headers = k := hr.mpr hc
      have hlevel : (limiter.checkRateLimit (key r.headers) r.time).1.limiters k =
          some ((limiter.quota.bucket K).check
            ((limiter.limiters k).getD ((limiter.quota.bucket K).full r.time)) r.time).1 := by
        rw [← hk]
        exact Function.update_self ..
      rw [hlevel, TokenBucket.answersFrom_some] at hrest
      simp only [hc, if_true, hrest, decide_true, List.filter_cons_of_pos, List.map_cons,
        TokenBucket.answersFrom, TokenBucket.answers]
      rw [hk]
      rfl
    · have hk : key r.headers ≠ k := fun h => hc (hr.mp h)
      have hlevel : (limiter.checkRateLimit (key r.headers) r.time).1.limiters k =
          limiter.limiters k := Function.update_of_ne (Ne.symm hk) ..
      rw [hlevel] at hrest
      simp only [hc, if_false, decide_false, Bool.false_eq_true, not_false_eq_true,
        List.filter_cons_of_neg]
      exact hrest

theorem decisionsOf_of_no_requests {c : C} {reqs : List (Request C K)}
    (h : ∀ r ∈ reqs, r.client ≠ c) (limiter : RateLimiter K) : decisionsOf c limiter reqs = [] := by
  induction reqs generalizing limiter with
  | nil => rfl
  | cons r rest ih =>
    rw [decisionsOf, if_neg (h r List.mem_cons_self)]
    exact ih (fun r' hr' => h r' (List.mem_cons_of_mem r hr')) _

omit [Field K] [LinearOrder K] [IsStrictOrderedRing K] in
theorem timesOf_eq_nil {c : C} {reqs : List (Request C K)} :
    timesOf c reqs = [] ↔ ∀ r ∈ reqs, r.client ≠ c := by
  simp [timesOf, List.filter_eq_nil_iff]

theorem perClient_of_separates {sends : C → Set HeaderMap} (h : Separates sends) (quota : Quota) :
    PerClient K quota sends := by
  intro R R' hR hR' _ _ c htimes
  by_cases hnone : ∀ r ∈ R, r.client ≠ c
  · have hnone' : ∀ r ∈ R', r.client ≠ c := by
      rw [← timesOf_eq_nil, ← htimes]
      exact timesOf_eq_nil.mpr hnone
    rw [decisionsOf_of_no_requests hnone, decisionsOf_of_no_requests hnone']
  · simp only [not_forall, not_not] at hnone
    obtain ⟨r₀, hr₀, hc⟩ := hnone
    have hmem₀ : r₀.headers ∈ sends c := hc ▸ hR r₀ hr₀
    have hkey : ∀ reqs : List (Request C K), Obeys sends reqs →
        ∀ r ∈ reqs, key r.headers = key r₀.headers ↔ r.client = c :=
      fun reqs hobeys r hr => h r.client c _ (hobeys r hr) _ hmem₀
    rw [decisionsOf_eq_answers (hkey R hR), decisionsOf_eq_answers (hkey R' hR'), htimes]

end Alone

section Shared

variable (quota : Quota)

omit [DecidableEq C] in
theorem after_append (limiter : RateLimiter K) (xs ys : List (Request C K)) :
    after limiter (xs ++ ys) = after (after limiter xs) ys := by
  induction xs generalizing limiter with
  | nil => rfl
  | cons x xs ih => exact ih _

theorem decisionsOf_append (c : C) (limiter : RateLimiter K) (xs ys : List (Request C K)) :
    decisionsOf c limiter (xs ++ ys) =
      decisionsOf c limiter xs ++ decisionsOf c (after limiter xs) ys := by
  induction xs generalizing limiter with
  | nil => rfl
  | cons x xs ih =>
    simp only [List.cons_append, decisionsOf, after, ih]
    split <;> rfl

omit [DecidableEq C] in
/-- What is left for a key after `n` requests at time 0, and that the others have not been
asked. -/
theorem after_replicate {r : Request C K} (hr : r.time = 0) {n : ℕ}
    (hn : n ≤ quota.burst.get.toNat) :
    (after (fresh quota) (List.replicate n r)).quota = quota ∧
    ((after (fresh quota) (List.replicate n r)).limiters (key r.headers)).getD
      ((quota.bucket K).full 0) = ⟨quota.burst.get.toNat - n, 0⟩ ∧
    ∀ k, k ≠ key r.headers → (after (fresh quota) (List.replicate n r)).limiters k = none := by
  induction n with
  | zero => exact ⟨rfl, by simp [after, fresh, Quota.bucket, TokenBucket.full], fun _ _ => rfl⟩
  | succ n ih =>
    obtain ⟨hquota, hlevel, hothers⟩ := ih (Nat.le_of_succ_le hn)
    rw [List.replicate_succ', after_append]
    refine ⟨hquota, ?_, fun k hk => ?_⟩
    · have hone : (1 : K) ≤ quota.burst.get.toNat - n := by
        rw [le_sub_iff_add_le]
        exact_mod_cast (by omega : 1 + n ≤ quota.burst.get.toNat)
      have hcheck : (quota.bucket K).check ⟨quota.burst.get.toNat - n, 0⟩ 0 =
          (⟨quota.burst.get.toNat - n - 1, 0⟩, true) := by
        rw [TokenBucket.check_same_time _ rfl (by simp [Quota.bucket]), if_pos hone]
      simp only [after, RateLimiter.checkRateLimit, Function.update_self, Option.getD_some, hquota,
        hr, hlevel, hcheck, Nat.cast_add, Nat.cast_one, sub_sub]
    · simp only [after, RateLimiter.checkRateLimit]
      rw [Function.update_of_ne hk]
      exact hothers k hk

omit [DecidableEq C] in
/-- As many requests as the burst at time 0 leave nothing for the key, and all for the
others. -/
theorem checkRateLimit_after_burst {r : Request C K} (hr : r.time = 0) (k : String) :
    ((after (fresh quota) (List.replicate quota.burst.get.toNat r)).checkRateLimit k 0).2 =
      decide (k ≠ key r.headers) := by
  obtain ⟨hquota, hlevel, hothers⟩ := after_replicate quota hr le_rfl
  unfold RateLimiter.checkRateLimit
  rw [hquota]
  dsimp only
  by_cases hk : k = key r.headers
  · have hcheck : (quota.bucket K).check ⟨0, 0⟩ 0 = (⟨0, 0⟩, false) := by
      rw [TokenBucket.check_same_time _ rfl (by simp [Quota.bucket]), if_neg (by simp)]
    rw [hk, hlevel, sub_self, hcheck]
    simp
  · rw [hothers k hk]
    simpa [hk] using (quota.bucket K).check_full 0

omit [IsStrictOrderedRing K] [DecidableEq C] in
theorem sorted_at_zero {reqs : List (Request C K)} (h : ∀ r ∈ reqs, r.time = 0) :
    (reqs.map Request.time).Pairwise (· ≤ ·) := by
  refine List.pairwise_of_forall_mem_list fun t ht u hu => ?_
  obtain ⟨r, hr, rfl⟩ := List.mem_map.mp ht
  obtain ⟨r', hr', rfl⟩ := List.mem_map.mp hu
  rw [h r hr, h r' hr']

/-- The decision on one more request, after a burst of another one. -/
theorem decisionsOf_after_burst {c : C} {r last : Request C K} (hc : last.client = c)
    (hr : r.time = 0) (hlast : last.time = 0) :
    decisionsOf c (fresh quota) (List.replicate quota.burst.get.toNat r ++ [last]) =
      decisionsOf c (fresh quota) (List.replicate quota.burst.get.toNat r) ++
        [decide (key last.headers ≠ key r.headers)] := by
  rw [decisionsOf_append]
  simp only [decisionsOf, hc, hlast, if_true, checkRateLimit_after_burst quota hr]

/-- What holds of both kinds of requests holds of all. -/
theorem forall_mem_burst {α : Type*} {P : α → Prop} {r last : α} (n : ℕ) (hr : P r)
    (hlast : P last) : ∀ x ∈ List.replicate n r ++ [last], P x := by
  intro x hx
  rcases List.mem_append.mp hx with hx | hx
  · rw [List.eq_of_mem_replicate hx]
    exact hr
  · rw [List.mem_singleton.mp hx]
    exact hlast

section PerClient

variable {quota} {sends : C → Set HeaderMap} {c c' : C} {headers headers' : HeaderMap}

/-- Clients that share a key are seen to share it: a burst of one uses up what the other has. -/
theorem PerClient.client_eq (h : PerClient K quota sends) (hmem : headers ∈ sends c)
    (hmem' : headers' ∈ sends c') (hkey : key headers = key headers') : c = c' := by
  by_contra hne
  let other : Request C K := ⟨c', 0, headers'⟩
  let last : Request C K := ⟨c, 0, headers⟩
  have hothers : ∀ r ∈ List.replicate quota.burst.get.toNat other, r.client ≠ c := by
    intro r hr
    rw [List.eq_of_mem_replicate hr]
    exact Ne.symm hne
  have hobeys : Obeys sends (List.replicate quota.burst.get.toNat other ++ [last]) :=
    forall_mem_burst _ hmem' hmem
  have hsorted := sorted_at_zero (forall_mem_burst quota.burst.get.toNat
    (show other.time = 0 from rfl) (show last.time = 0 from rfl))
  have htimes : timesOf c (List.replicate quota.burst.get.toNat other ++ [last]) =
      timesOf c [last] := by
    rw [timesOf, List.filter_append, List.map_append, ← timesOf, timesOf_eq_nil.mpr hothers]
    rfl
  have hsame := h _ [last] hobeys (by simpa [Obeys] using hmem) hsorted (by simp) c htimes
  have hfirst : decisionsOf c (fresh quota) [last] = [true] := by
    rw [decisionsOf, if_pos rfl]
    exact congrArg (fun b => [b]) ((quota.bucket K).check_full 0)
  have hlast := decisionsOf_after_burst quota (show last.client = c from rfl)
    (show other.time = 0 from rfl) (show last.time = 0 from rfl)
  rw [hlast, decisionsOf_of_no_requests hothers, hfirst] at hsame
  simp [last, other, hkey] at hsame

/-- A client with two keys is seen to have them: after a burst under one the other is full. -/
theorem PerClient.key_eq (h : PerClient K quota sends) (hmem : headers ∈ sends c)
    (hmem' : headers' ∈ sends c) : key headers = key headers' := by
  by_contra hne
  let first : Request C K := ⟨c, 0, headers⟩
  let other : Request C K := ⟨c, 0, headers'⟩
  have hobeys : ∀ last : Request C K, last.headers ∈ sends last.client →
      Obeys sends (List.replicate quota.burst.get.toNat first ++ [last]) :=
    fun _ hlast => forall_mem_burst _ hmem hlast
  have hsorted : ∀ last : Request C K, last.time = 0 →
      ((List.replicate quota.burst.get.toNat first ++ [last]).map Request.time).Pairwise (· ≤ ·) :=
    fun _ hlast => sorted_at_zero (forall_mem_burst _ (show first.time = 0 from rfl) hlast)
  have hsame := h _ _ (hobeys first hmem) (hobeys other hmem') (hsorted first rfl)
    (hsorted other rfl) c (by simp [timesOf, first, other])
  have hfirst := decisionsOf_after_burst quota (show first.client = c from rfl)
    (show first.time = 0 from rfl) (show first.time = 0 from rfl)
  have hother := decisionsOf_after_burst quota (show other.client = c from rfl)
    (show first.time = 0 from rfl) (show other.time = 0 from rfl)
  rw [hfirst, hother] at hsame
  simp [first, other, Ne.symm hne] at hsame

/-- Limits per client need one key for each client. -/
theorem separates_of_perClient (h : PerClient K quota sends) : Separates sends := by
  intro c c' headers hmem headers' hmem'
  constructor
  · exact h.client_eq hmem hmem'
  · rintro rfl
    exact h.key_eq hmem hmem'

end PerClient

end Shared

/-- The limits are per client exactly if each client has one key of its own. -/
theorem perClient_iff_separates (K : Type) [Field K] [LinearOrder K] [IsStrictOrderedRing K]
    (quota : Quota) (sends : C → Set HeaderMap) :
    PerClient K quota sends ↔ Separates sends :=
  ⟨separates_of_perClient, fun h => perClient_of_separates h quota⟩

/-- Two clients behind a proxy that puts their addresses into the header. -/
def addressed (c : Bool) : Set HeaderMap :=
  {[("x-forwarded-for".toList, (if c then "10.0.0.1" else "10.0.0.2").toUTF8.toList)]}

theorem addressed_perClient : PerClient ℚ RateLimiter.twoPerSecond.quota addressed := by
  refine (perClient_iff_separates ℚ RateLimiter.twoPerSecond.quota addressed).mpr ?_
  rintro c c' _ rfl _ rfl
  cases c <;> cases c' <;> decide +kernel

/-- Without the header, what one client uses up is missing for the other. -/
theorem limit_shared_without_header : ¬ ∀ (C : Type) [DecidableEq C] (quota : Quota),
    PerClient ℚ quota (fun _ : C => Set.univ) := by
  intro h
  have hsame := h Bool RateLimiter.twoPerSecond.quota
    [⟨true, 0, []⟩, ⟨true, 0, []⟩, ⟨false, 0, []⟩] [⟨false, 0, []⟩]
    (fun _ _ => trivial) (fun _ _ => trivial) (by decide +kernel) (by decide +kernel) false
    (by decide +kernel)
  revert hsame
  decide +kernel

end SafetyDao.ClientLimits
