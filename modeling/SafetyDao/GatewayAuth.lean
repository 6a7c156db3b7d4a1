import SafetyDao.Gateway

/-!
# Requests without a token at the gateway

A request that carries no accepted token may only go on into the public auth
namespace; every other one is for the gateway to answer. The filter decides by two
prefixes, which also let through paths that merely begin like a public one.
-/
namespace SafetyDao.GatewayAuth
open GatewayProxy

variable {K : Type} [Field K] [LinearOrder K] [IsStrictOrderedRing K]

/-- The Authorization header carries a bearer token that is accepted. -/
def BearerAccepted (validateToken : Text → Except Text Claims) (headers : HeaderMap) : Prop :=
  ∃ v headerValue token claims, headers.get "authorization".toList = some v ∧
    v.toStr = some headerValue ∧ Text.stripPrefix "Bearer ".toList headerValue = some token ∧
    validateToken token = .ok claims

/-- The public namespace: `/api/v1/auth` and everything below it. -/
def InAuthNamespace (path : Text) : Prop :=
  path = "/api/v1/auth".toList ∨ "/api/v1/auth/".toList <+: path

/-- A path that the prefixes exempt although it is neither public nor the health check. -/
def LooksPublic (path : Text) : Prop :=
  ("/api/v1/auth".toList <+: path ∨ "/health".toList <+: path) ∧ path ≠ "/health".toList ∧
    ¬ InAuthNamespace path

/-- The client's bucket holds less than a token when the request comes in. -/
def Limited (rateLimiter : RateLimiter K) (now : K) (headers : HeaderMap) : Prop :=
  let bucket := rateLimiter.quota.bucket K
  bucket.refill ((rateLimiter.limiters (String.ofList (clientIP headers))).getD
    (bucket.full now)) now < 1

theorem checkRateLimit_eq_false {rateLimiter : RateLimiter K} {now : K} {headers : HeaderMap} :
    (rateLimiter.checkRateLimit (String.ofList (clientIP headers)) now).2 = false ↔
      Limited rateLimiter now headers := by
  rw [RateLimiter.checkRateLimit, Limited]
  dsimp only
  rw [TokenBucket.check]
  split
  · exact iff_of_false (by simp) (not_lt.mpr ‹_›)
  · exact iff_of_true rfl (not_le.mp ‹_›)

/-- What is asked of the filter on one request. -/
structure KeepsOut (validateToken : Text → Except Text Claims) (rateLimiter : RateLimiter K)
    (now : K) (path : Text) (headers : HeaderMap) : Prop where
  passed : ∀ headers', (requestFilter validateToken rateLimiter now path headers).2 =
    .passed headers' → BearerAccepted validateToken headers ∨ InAuthNamespace path
  answered : ¬ BearerAccepted validateToken headers →
    (∀ headers', (requestFilter validateToken rateLimiter now path headers).2 ≠ .passed headers') →
    ∃ status body, (requestFilter validateToken rateLimiter now path headers).2 =
      .answered status body ∧
      if path = "/health".toList then status = 200 else status = 401 ∨ status = 429

variable {validateToken : Text → Except Text Claims}

/-- Without an accepted token the header check answers 401. -/
theorem authorize_of_not_accepted {headers : HeaderMap}
    (h : ¬ BearerAccepted validateToken headers) :
    ∃ body, authorize validateToken headers = .answered 401 body := by
  unfold authorize
  cases hv : headers.get "authorization".toList with
  | none => exact ⟨_, rfl⟩
  | some v =>
  cases hs : v.toStr with
  | none => exact ⟨_, by rw [Option.bind_some, hs]⟩
  | some headerValue =>
  rw [Option.bind_some, hs]
  dsimp only
  cases ht : Text.stripPrefix "Bearer ".toList headerValue with
  | none => exact ⟨_, rfl⟩
  | some token =>
  dsimp only
  cases hc : validateToken token with
  | error e => exact ⟨_, rfl⟩
  | ok claims => exact absurd ⟨v, headerValue, token, claims, hv, hs, ht, hc⟩ h

/-- The filter on a request without an accepted token, case by case. -/
theorem requestFilter_of_not_accepted (rateLimiter : RateLimiter K) (now : K) (path : Text)
    {headers : HeaderMap} (h : ¬ BearerAccepted validateToken headers) :
    (path = "/health".toList ∧ ∃ body,
      (requestFilter validateToken rateLimiter now path headers).2 = .answered 200 body) ∨
    (path ≠ "/health".toList ∧ Limited rateLimiter now headers ∧ ∃ body,
      (requestFilter validateToken rateLimiter now path headers).2 = .answered 429 body) ∨
    (¬ "/api/v1/auth".toList <+: path ∧ ¬ "/health".toList <+: path ∧ ∃ body,
      (requestFilter validateToken rateLimiter now path headers).2 = .answered 401 body) ∨
    (path ≠ "/health".toList ∧ ¬ Limited rateLimiter now headers ∧
      ("/api/v1/auth".toList <+: path ∨ "/health".toList <+: path) ∧
      (requestFilter validateToken rateLimiter now path headers).2 = .passed headers) := by
  rw [← checkRateLimit_eq_false]
  unfold requestFilter
  by_cases hhealth : path = "/health".toList
  · exact .inl ⟨hhealth, _, by rw [if_pos hhealth]⟩
  · rw [if_neg hhealth]
    dsimp only
    cases hlimit : (rateLimiter.checkRateLimit (String.ofList (clientIP headers)) now).2 with
    | false => exact .inr (.inl ⟨hhealth, rfl, _, rfl⟩)
    | true =>
      by_cases hexempt : ¬ "/api/v1/auth".toList <+: path ∧ ¬ "/health".toList <+: path
      · obtain ⟨body, hbody⟩ := authorize_of_not_accepted h
        refine .inr (.inr (.inl ⟨hexempt.1, hexempt.2, body, ?_⟩))
        rw [Bool.not_true, if_neg (by simp), if_pos hexempt]
        exact hbody
      · refine .inr (.inr (.inr ⟨hhealth, by simp, ?_, ?_⟩))
        · by_contra hnone
          exact hexempt (not_or.mp hnone)
        · rw [Bool.not_true, if_neg (by simp), if_neg hexempt]

/-- A request that the gateway answers itself is kept out, if the status is right. -/
theorem KeepsOut.of_answered {rateLimiter : RateLimiter K} {now : K} {path : Text}
    {headers : HeaderMap} {status : ℕ} {body : Text}
    (hout : (requestFilter validateToken rateLimiter now path headers).2 = .answered status body)
    (hstatus : if path = "/health".toList then status = 200 else status = 401 ∨ status = 429) :
    KeepsOut validateToken rateLimiter now path headers where
  passed headers' h := by
    rw [hout] at h
    cases h
  answered _ _ := ⟨status, body, hout, hstatus⟩

/-- The filter is right on a request exactly if it is authorized, limited or its path
does not just look public. -/
theorem keepsOut_iff (validateToken : Text → Except Text Claims) (rateLimiter : RateLimiter K)
    (now : K) (path : Text) (headers : HeaderMap) :
    KeepsOut validateToken rateLimiter now path headers ↔
      BearerAccepted validateToken headers ∨ Limited rateLimiter now headers ∨
        ¬ LooksPublic path := by
  by_cases haccepted : BearerAccepted validateToken headers
  · simp only [haccepted, true_or, iff_true]
    exact ⟨fun _ _ => .inl haccepted, fun h => absurd haccepted h⟩
  have hcases := requestFilter_of_not_accepted rateLimiter now path haccepted
  constructor
  · intro hkeeps
    refine .inr (or_iff_not_imp_left.mpr fun hlimited hlooks => ?_)
    obtain ⟨hexempt, hhealth, houtside⟩ := hlooks
    rcases hcases with ⟨hp, -⟩ | ⟨-, hl, -⟩ | ⟨hauth, hh, -⟩ | ⟨-, -, -, hpassed⟩
    · exact hhealth hp
    · exact hlimited hl
    · exact hexempt.elim hauth hh
    · exact (hkeeps.passed headers hpassed).elim haccepted houtside
  · intro hcond
    rcases hcases with ⟨hp, body, hout⟩ | ⟨hp, -, body, hout⟩ | ⟨-, hh, body, hout⟩ |
      ⟨hp, hl, hexempt, hout⟩
    · refine .of_answered hout ?_
      rw [if_pos hp]
    · refine .of_answered hout ?_
      rw [if_neg hp]
      exact .inr rfl
    · refine .of_answered hout ?_
      rw [if_neg]
      · exact .inl rfl
      · rintro rfl
        exact hh (List.prefix_refl _)
    · refine ⟨fun _ _ => .inr ?_, fun _ h => absurd hout (h headers)⟩
      by_contra houtside
      rcases hcond with ha | hlim | hlooks
      · exact haccepted ha
      · exact hl hlim
      · exact hlooks ⟨hexempt, hp, houtside⟩

/-- No token is accepted. -/
def rejectAll (_ : Text) : Except Text Claims := .error "invalid token".toList

/-- Without a header, the list of check-ins is kept from the caller. -/
theorem keepsOut_checkins :
    KeepsOut rejectAll RateLimiter.twoPerSecond 0 "/api/v1/checkins".toList [] :=
  (keepsOut_iff rejectAll RateLimiter.twoPerSecond 0 "/api/v1/checkins".toList []).mpr
    (.inr (.inr fun hlooks => absurd hlooks.1 (by decide)))

/-- `/healthz` only begins like the health check, and goes on to the check-in service. -/
theorem healthz_let_through :
    ¬ ∀ (validateToken : Text → Except Text Claims) (rateLimiter : RateLimiter ℚ) (now : ℚ)
      (path : Text) (headers : HeaderMap),
      KeepsOut validateToken rateLimiter now path headers := by
  intro h
  rcases (h rejectAll RateLimiter.twoPerSecond 0 "/healthz".toList []).passed []
    (by decide +kernel) with ⟨v, -, -, -, hv, -⟩ | hpublic
  · cases hv
  · exact absurd hpublic (by unfold InAuthNamespace; decide)

end SafetyDao.GatewayAuth
