import SafetyDao.GatewayAuth

/-!
# Who a request says it comes from

The upstreams take the user from two headers that the filter sets from the token. It
replaces whatever the client sent there, but only on the branch that looks at a token:
on the exempt paths the headers of the client go through.
-/
namespace SafetyDao.IdentityHeaders
open GatewayProxy
open GatewayAuth (Limited checkRateLimit_eq_false)

variable {K : Type} [Field K] [LinearOrder K] [IsStrictOrderedRing K]

/-- The filter asks for no token. -/
def Exempt (path : Text) : Prop :=
  "/api/v1/auth".toList <+: path ∨ "/health".toList <+: path

instance (path : Text) : Decidable (Exempt path) := inferInstanceAs (Decidable (_ ∨ _))

/-- The token of the Authorization header. -/
def bearerToken (headers : HeaderMap) : Option Text :=
  ((headers.get "authorization".toList).bind HeaderValue.toStr).bind
    (Text.stripPrefix "Bearer ".toList)

/-- The claims that `validate_token` gives the filter for a request, where it is asked. -/
def validatedClaims (validateToken : Text → Except Text Claims) (path : Text)
    (headers : HeaderMap) : Option Claims :=
  if Exempt path then none
  else (bearerToken headers).bind fun token => (validateToken token).toOption

/-- What the upstream gets of a request that is forwarded. -/
def forwarded (validateToken : Text → Except Text Claims) (parseUri : Text → Option Text)
    (requestID : HeaderValue) (rateLimiter : RateLimiter K) (now : K) (path : Text)
    (headers : HeaderMap) : Option (Text × HeaderMap) :=
  match (requestFilter validateToken rateLimiter now path headers).2 with
  | .passed headers' => (upstreamRequestFilter parseUri path).map fun path' =>
      (path', upstreamHeaders requestID headers')
  | _ => none

/-- Every identity header is the claim of an accepted token. -/
structure Identified (claims : Option Claims) (headers : HeaderMap) : Prop where
  userID : ∀ v ∈ headers.values "x-user-id".toList, ∃ c ∈ claims, HeaderValue.fromStr c.sub = some v
  userRole : ∀ v ∈ headers.values "x-user-role".toList,
    ∃ c ∈ claims, HeaderValue.fromStr c.role = some v

/-- The client names a user or a role itself. -/
def ClaimsIdentity (headers : HeaderMap) : Prop :=
  headers.values "x-user-id".toList ≠ [] ∨ headers.values "x-user-role".toList ≠ []

/-- The request is forwarded without a look at a token. -/
structure PassesExempt (parseUri : Text → Option Text) (rateLimiter : RateLimiter K) (now : K)
    (path : Text) (headers : HeaderMap) : Prop where
  exempt : Exempt path
  not_health : path ≠ "/health".toList
  not_limited : ¬ Limited rateLimiter now headers
  parses : (upstreamRequestFilter parseUri path).isSome

variable {validateToken : Text → Except Text Claims} {rateLimiter : RateLimiter K} {now : K}
  {path : Text} {headers headers' : HeaderMap}

/-- On an accepted token the two headers are its claims, and nothing else. -/
theorem authorize_passed (h : authorize validateToken headers = .passed headers') :
    ∃ token claims sub role, bearerToken headers = some token ∧
      validateToken token = .ok claims ∧ HeaderValue.fromStr claims.sub = some sub ∧
      HeaderValue.fromStr claims.role = some role ∧
      headers' = (headers.insert "x-user-id".toList sub).insert "x-user-role".toList role := by
  unfold authorize at h
  split at h
  · cases h
  · rename_i headerValue hv
    split at h
    · cases h
    · rename_i token htoken
      split at h
      · cases h
      · rename_i claims hclaims
        split at h
        · cases h
        · rename_i sub hsub
          split at h
          · cases h
          · rename_i role hrole
            refine ⟨token, claims, sub, role, ?_, hclaims, hsub, hrole, ?_⟩
            · rw [bearerToken, hv]
              exact htoken
            · exact (Filtered.passed.inj h).symm

theorem requestFilter_passed
    (h : (requestFilter validateToken rateLimiter now path headers).2 = .passed headers') :
    path ≠ "/health".toList ∧ ¬ Limited rateLimiter now headers ∧
      (Exempt path ∧ headers' = headers ∨
        ¬ Exempt path ∧ authorize validateToken headers = .passed headers') := by
  rw [← checkRateLimit_eq_false]
  unfold requestFilter at h
  split at h
  · cases h
  · rename_i hhealth
    dsimp only at h
    split at h
    · cases h
    · rename_i hlimit
      refine ⟨hhealth, fun hfalse => hlimit (by rw [hfalse]; rfl), ?_⟩
      split at h
      · rename_i hexempt
        exact .inr ⟨fun he => he.elim hexempt.1 hexempt.2, h⟩
      · rename_i hexempt
        refine .inl ⟨?_, (Filtered.passed.inj h).symm⟩
        by_contra hnone
        exact hexempt (not_or.mp hnone)

theorem requestFilter_exempt (hexempt : Exempt path) (hhealth : path ≠ "/health".toList)
    (hlimit : ¬ Limited rateLimiter now headers) :
    (requestFilter validateToken rateLimiter now path headers).2 = .passed headers := by
  rw [← checkRateLimit_eq_false, Bool.not_eq_false] at hlimit
  have hneither : ¬ (¬ "/api/v1/auth".toList <+: path ∧ ¬ "/health".toList <+: path) :=
    fun h => hexempt.elim h.1 h.2
  unfold requestFilter
  rw [if_neg hhealth]
  dsimp only
  rw [hlimit, if_neg (by simp), if_neg hneither]

/-- The request identifier is none of the two headers. -/
theorem identified_upstreamHeaders {claims : Option Claims} (requestID : HeaderValue) :
    Identified claims (upstreamHeaders requestID headers) ↔ Identified claims headers := by
  have huser := headers.values_insert "x-request-id".toList "x-user-id".toList requestID
  have hrole := headers.values_insert "x-request-id".toList "x-user-role".toList requestID
  rw [if_neg (by decide)] at huser hrole
  constructor
  · intro h
    exact ⟨fun v hv => h.userID v (by rwa [upstreamHeaders, huser]),
      fun v hv => h.userRole v (by rwa [upstreamHeaders, hrole])⟩
  · intro h
    exact ⟨fun v hv => h.userID v (by rwa [upstreamHeaders, huser] at hv),
      fun v hv => h.userRole v (by rwa [upstreamHeaders, hrole] at hv)⟩

theorem identified_authorize (hexempt : ¬ Exempt path)
    (h : authorize validateToken headers = .passed headers') :
    Identified (validatedClaims validateToken path headers) headers' := by
  obtain ⟨token, claims, sub, role, htoken, hclaims, hsub, hrole, rfl⟩ := authorize_passed h
  have hvalidated : validatedClaims validateToken path headers = some claims := by
    rw [validatedClaims, if_neg hexempt, htoken, Option.bind_some, hclaims]
    rfl
  rw [hvalidated]
  refine ⟨fun v hv => ⟨claims, rfl, ?_⟩, fun v hv => ⟨claims, rfl, ?_⟩⟩
  · rw [HeaderMap.values_insert, if_neg (by decide), HeaderMap.values_insert, if_pos rfl,
      List.mem_singleton] at hv
    rw [hv, hsub]
  · rw [HeaderMap.values_insert, if_pos rfl, List.mem_singleton] at hv
    rw [hv, hrole]

/-- Without a token nothing may be said about the user. -/
theorem identified_none : Identified none headers ↔ ¬ ClaimsIdentity headers := by
  constructor
  · intro h hclaims
    rcases hclaims with hne | hne
    · obtain ⟨v, hv⟩ := List.exists_mem_of_ne_nil _ hne
      obtain ⟨c, hc, -⟩ := h.userID v hv
      cases hc
    · obtain ⟨v, hv⟩ := List.exists_mem_of_ne_nil _ hne
      obtain ⟨c, hc, -⟩ := h.userRole v hv
      cases hc
  · intro h
    obtain ⟨huser, hrole⟩ := not_or.mp h
    rw [ne_eq, not_not] at huser hrole
    refine ⟨fun v hv => ?_, fun v hv => ?_⟩
    · rw [huser] at hv
      cases hv
    · rw [hrole] at hv
      cases hv

theorem forwarded_exempt {parseUri : Text → Option Text} (validateToken : Text → Except Text Claims)
    (requestID : HeaderValue) (h : PassesExempt parseUri rateLimiter now path headers) :
    ∃ path', forwarded validateToken parseUri requestID rateLimiter now path headers =
      some (path', upstreamHeaders requestID headers) := by
  obtain ⟨path', hpath⟩ := Option.isSome_iff_exists.mp h.parses
  refine ⟨path', ?_⟩
  rw [forwarded, requestFilter_exempt h.exempt h.not_health h.not_limited]
  simp [hpath]

/-- What a client says about itself on an exempt path is not the claim of any token. -/
theorem not_identified_exempt (h : Exempt path) (requestID : HeaderValue)
    (hclaims : ClaimsIdentity headers) : ¬ Identified (validatedClaims validateToken path headers)
      (upstreamHeaders requestID headers) := by
  rw [validatedClaims, if_pos h, identified_upstreamHeaders, identified_none, not_not]
  exact hclaims

/-- What is forwarded names its user truly unless the client names one on an exempt path. -/
theorem forwarded_identified_iff (validateToken : Text → Except Text Claims)
    (parseUri : Text → Option Text) (requestID : HeaderValue) (rateLimiter : RateLimiter K)
    (now : K) (path : Text) (headers : HeaderMap) :
    (∀ out, forwarded validateToken parseUri requestID rateLimiter now path headers = some out →
      Identified (validatedClaims validateToken path headers) out.2) ↔
    ¬ (PassesExempt parseUri rateLimiter now path headers ∧ ClaimsIdentity headers) := by
  constructor
  · rintro h ⟨hpasses, hclaims⟩
    obtain ⟨path', hout⟩ := forwarded_exempt validateToken requestID hpasses
    exact not_identified_exempt hpasses.exempt requestID hclaims (h _ hout)
  · intro h out hout
    unfold forwarded at hout
    split at hout
    · rename_i headers' hpassed
      obtain ⟨path', hpath, rfl⟩ := Option.map_eq_some_iff.mp hout
      obtain ⟨hhealth, hlimit, hcase⟩ := requestFilter_passed hpassed
      rw [identified_upstreamHeaders]
      rcases hcase with ⟨hexempt, rfl⟩ | ⟨hexempt, hauthorize⟩
      · rw [validatedClaims, if_pos hexempt, identified_none]
        exact fun hclaims => h ⟨⟨hexempt, hhealth, hlimit, by rw [hpath]; rfl⟩, hclaims⟩
      · exact identified_authorize hexempt hauthorize
    · cases hout

/-- One token is accepted, that of user 7. -/
def acceptOne (token : Text) : Except Text Claims :=
  if token = "t".toList then .ok ⟨"7".toList, 10, "user".toList, 0⟩ else .error "".toList

/-- The bearer of the token calls itself the administrator. -/
def boastful : HeaderMap :=
  [("authorization".toList, "Bearer t".toUTF8.toList),
    ("x-user-role".toList, "admin".toUTF8.toList)]

/-- Where the token is looked at, the boast is replaced. -/
theorem boastful_identified : ∃ out, forwarded acceptOne some [] RateLimiter.twoPerSecond (0 : ℚ)
    "/api/v1/checkins".toList boastful = some out ∧
      Identified (validatedClaims acceptOne "/api/v1/checkins".toList boastful) out.2 := by
  have hsome : (forwarded acceptOne some [] RateLimiter.twoPerSecond (0 : ℚ)
      "/api/v1/checkins".toList boastful).isSome = true := by decide +kernel
  obtain ⟨out, hout⟩ := Option.isSome_iff_exists.mp hsome
  refine ⟨out, hout, (forwarded_identified_iff acceptOne some [] RateLimiter.twoPerSecond (0 : ℚ)
    "/api/v1/checkins".toList boastful).mpr ?_ out hout⟩
  exact fun h => absurd h.1.exempt (by decide)

/-- On the registration path a client passes as the administrator. -/
theorem identity_forged : ¬ ∀ (validateToken : Text → Except Text Claims)
    (parseUri : Text → Option Text) (requestID : HeaderValue) (rateLimiter : RateLimiter ℚ)
    (now : ℚ) (path : Text) (headers : HeaderMap) (out : Text × HeaderMap),
    forwarded validateToken parseUri requestID rateLimiter now path headers = some out →
      Identified (validatedClaims validateToken path headers) out.2 := by
  intro h
  have hpasses : PassesExempt some RateLimiter.twoPerSecond (0 : ℚ) "/api/v1/auth/register".toList
      [("x-user-role".toList, "admin".toUTF8.toList)] := by
    refine ⟨by decide, by decide, ?_, by decide⟩
    rw [← checkRateLimit_eq_false]
    decide +kernel
  obtain ⟨path', hout⟩ := forwarded_exempt GatewayAuth.rejectAll [] hpasses
  exact not_identified_exempt hpasses.exempt [] (.inr (by decide)) (h _ _ _ _ _ _ _ _ hout)

end SafetyDao.IdentityHeaders
