import SafetyDao.IdentityHeaders
import SafetyDao.UriRewrite

/-!
# What can be reached through the gateway

The filter, the choice of the upstream, the rewriting and the routers of the backends
together. A request gets to an endpoint of the check-in service only, under a path that has
the version twice, and with a token that the gateway accepts. Two of these endpoints are
where tokens come from, so whoever has none never gets one.
-/
namespace SafetyDao.GatewayReach
open GatewayProxy GatewayRouting
open GatewayAuth (BearerAccepted Limited checkRateLimit_eq_false)
open IdentityHeaders (Exempt authorize_passed bearerToken requestFilter_passed)

section Routing

variable {config : ProxyConfig} {lib : UriLib} {method path rest : Text}

/-- The backends have upstreams of their own. -/
structure Apart (config : ProxyConfig) : Prop where
  attestation_checkin : config.attestationUpstream ≠ config.checkinUpstream
  analytics_checkin : config.analyticsUpstream ≠ config.checkinUpstream
  attestation_analytics : config.attestationUpstream ≠ config.analyticsUpstream

theorem route_unversioned (config : ProxyConfig) (hhealth : path ≠ "/health".toList)
    (hversion : ¬ "/api/v1".toList <+: path) : (config.route path).1 = config.checkinUpstream := by
  rw [ProxyConfig.route, if_neg hhealth, Text.stripPrefix_eq_none.mpr hversion]

theorem version_append_ne_health : "/api/v1".toList ++ rest ≠ "/health".toList := by
  intro h
  have hversion : "/api/v1".toList <+: "/health".toList := ⟨rest, h⟩
  exact absurd hversion (by decide)

/-- The upstream of a path with the version is that of the name after it. -/
theorem route_versioned (config : ProxyConfig) (rest : Text) :
    (config.route ("/api/v1".toList ++ rest)).1 =
      if "/attestations".toList <+: rest then config.attestationUpstream
      else if "/checkins".toList <+: rest ∨ "/emergency".toList <+: rest ∨ "/dao".toList <+: rest ∨
        "/registry".toList <+: rest then config.checkinUpstream
      else if "/analytics".toList <+: rest then config.analyticsUpstream
      else config.checkinUpstream := by
  rw [ProxyConfig.route, if_neg version_append_ne_health, Text.stripPrefix_append]
  dsimp only
  split_ifs <;> rfl

/-- Only the names of the attestation and the analytics service lead to their upstreams. -/
theorem name_of_route (hapart : Apart config) {b : Backend} (hb : b ≠ .checkin)
    (hhealth : path ≠ "/health".toList) (hroute : (config.route path).1 = b.upstream config) :
    ∃ rest, path = "/api/v1".toList ++ rest ∧ ∃ name ∈ b.names, name <+: rest := by
  have hcheckin : config.checkinUpstream ≠ b.upstream config := by
    cases b with
    | attestation => exact hapart.attestation_checkin.symm
    | checkin => exact absurd rfl hb
    | analytics => exact hapart.analytics_checkin.symm
  by_cases hversion : "/api/v1".toList <+: path
  · obtain ⟨rest, rfl⟩ := hversion
    refine ⟨rest, rfl, ?_⟩
    rw [route_versioned] at hroute
    split at hroute
    · rename_i hattestations
      cases b with
      | attestation => exact ⟨_, List.mem_singleton_self _, hattestations⟩
      | checkin => exact absurd rfl hb
      | analytics => exact absurd hroute hapart.attestation_analytics
    split at hroute
    · exact absurd hroute hcheckin
    split at hroute
    · rename_i hanalytics
      cases b with
      | attestation => exact absurd hroute.symm hapart.attestation_analytics
      | checkin => exact absurd rfl hb
      | analytics => exact ⟨_, List.mem_singleton_self _, hanalytics⟩
    · exact absurd hroute hcheckin
  · exact absurd ((route_unversioned config hhealth hversion).symm.trans hroute) hcheckin

/-- Nothing of the attestation and the analytics service is delivered. -/
theorem not_delivered (hlib : lib.Documented) (hapart : Apart config) {b : Backend}
    (hb : b ≠ .checkin) (hhealth : path ≠ "/health".toList) (e : b.Endpoint)
    (ids : List (Text × Text)) : ¬ Delivered config lib.parsePath b method path e ids := by
  rintro ⟨hroute, path', hfilter, hserves⟩
  obtain ⟨rest, rfl, name, hname, hrest⟩ := name_of_route hapart hb hhealth hroute
  have hpart : path' <+: rest := upstream_path_prefix hlib.origin_path
    ((slash_prefix_name name hname).trans hrest) hfilter
  obtain ⟨head, hhead, hstarts⟩ := serves_heads hserves
  obtain ⟨hname', hhead'⟩ := head_name_apart head hhead name hname
  exact Text.not_prefix_of_prefix hrest hname' hhead' (hstarts.trans hpart)

/-- A path that the check-in service serves has the version in front. -/
theorem version_of_endpoint {e : Checkin.Endpoint} {ids : List (Text × Text)}
    (h : Checkin.setupRoutes.endpoint method path = some (e, ids)) : "/api/v1".toList <+: path := by
  obtain ⟨head, hhead, hstarts⟩ := Routes.endpoint_heads h
  rwa [List.mem_singleton.mp hhead] at hstarts

/-- What comes after the first version, if it is a path at all, has the version again. -/
theorem not_prefix_of_twice (hlib : lib.Documented)
    (hchars : lib.PathChars ("/api/v1".toList ++ rest)) {uri : Uri lib.pathChar}
    (hparse : lib.parse rest = some uri) (htwice : "/api/v1".toList <+: uri.path) {name : Text}
    (hslash : ['/'] <+: name) (hname : ¬ "/api/v1".toList <+: name)
    (hversion : ¬ name <+: "/api/v1".toList) : ¬ name <+: rest := by
  intro hrest
  have hpath : uri.path = rest := hlib.path_eq (hslash.trans hrest)
    (fun c hc => hchars c (List.mem_append_right _ hc)) hparse
  rw [hpath] at htwice
  exact Text.not_prefix_of_prefix hrest hversion hname htwice

/-- What the check-in service is delivered is what it serves under a second version. -/
theorem delivered_checkin_iff (hlib : lib.Documented) (hchars : lib.PathChars path)
    {e : Checkin.Endpoint} {ids : List (Text × Text)} :
    Delivered config lib.parsePath .checkin method path e ids ↔
      ∃ rest uri, path = "/api/v1".toList ++ rest ∧ lib.parse rest = some uri ∧
        Checkin.setupRoutes.endpoint method uri.path = some (e, ids) := by
  constructor
  · rintro ⟨-, path', hfilter, hserves⟩
    have hserved : Checkin.setupRoutes.endpoint method path' = some (e, ids) := hserves
    unfold upstreamRequestFilter at hfilter
    cases hstrip : Text.stripPrefix "/api/v1".toList path with
    | none =>
      rw [hstrip, Option.some.injEq] at hfilter
      subst hfilter
      exact absurd (version_of_endpoint hserved) (Text.stripPrefix_eq_none.mp hstrip)
    | some rest =>
      rw [hstrip] at hfilter
      obtain ⟨uri, hparse, rfl⟩ := Option.map_eq_some_iff.mp hfilter
      exact ⟨rest, uri, Text.stripPrefix_eq_some.mp hstrip, hparse, hserved⟩
  · rintro ⟨rest, uri, rfl, hparse, hserved⟩
    have hnot : ∀ name : Text, ['/'] <+: name → ¬ "/api/v1".toList <+: name →
        ¬ name <+: "/api/v1".toList → ¬ name <+: rest := fun _ =>
      not_prefix_of_twice hlib hchars hparse (version_of_endpoint hserved)
    refine ⟨?_, uri.path, ?_, hserved⟩
    · rw [route_versioned, if_neg (hnot _ (by decide) (by decide) (by decide))]
      split
      · rfl
      · rw [if_neg (hnot _ (by decide) (by decide) (by decide))]
        rfl
    · rw [upstreamRequestFilter, Text.stripPrefix_append]
      exact congrArg (Option.map Uri.path) hparse

end Routing

section Filter

variable {K : Type} [Field K] [LinearOrder K] [IsStrictOrderedRing K]

/-- The filter lets the request pass, and a backend finds an endpoint for it. -/
structure Reaches (config : ProxyConfig) (lib : UriLib) (validateToken : Text → Except Text Claims)
    (rateLimiter : RateLimiter K) (now : K) (b : Backend) (method path : Text)
    (headers : HeaderMap) (e : b.Endpoint) (ids : List (Text × Text)) : Prop where
  passed : ∃ headers', (requestFilter validateToken rateLimiter now path headers).2 =
    .passed headers'
  delivered : Delivered config lib.parsePath b method path e ids

variable {lib : UriLib} {validateToken : Text → Except Text Claims} {rateLimiter : RateLimiter K}
  {now : K} {path : Text} {headers headers' : HeaderMap}

theorem requestFilter_not_exempt (hexempt : ¬ Exempt path) (hhealth : path ≠ "/health".toList)
    (hlimit : ¬ Limited rateLimiter now headers) :
    (requestFilter validateToken rateLimiter now path headers).2 =
      authorize validateToken headers := by
  rw [← checkRateLimit_eq_false, Bool.not_eq_false] at hlimit
  rw [requestFilter, if_neg hhealth]
  dsimp only
  rw [hlimit, if_neg (by simp), if_pos (not_or.mp hexempt)]

/-- The filter lets a request outside the exempt paths pass exactly if its client is not limited
and its token is good. -/
theorem requestFilter_passed_iff (hexempt : ¬ Exempt path) (hhealth : path ≠ "/health".toList) :
    (∃ headers', (requestFilter validateToken rateLimiter now path headers).2 = .passed headers') ↔
      ¬ Limited rateLimiter now headers ∧
        ∃ headers', authorize validateToken headers = .passed headers' := by
  constructor
  · rintro ⟨headers', hpassed⟩
    obtain ⟨-, hlimit, ⟨hexempt', -⟩ | ⟨-, hauthorize⟩⟩ := requestFilter_passed hpassed
    · exact absurd hexempt' hexempt
    · exact ⟨hlimit, headers', hauthorize⟩
  · rintro ⟨hlimit, headers', hauthorize⟩
    exact ⟨headers', (requestFilter_not_exempt hexempt hhealth hlimit).trans hauthorize⟩

/-- A path that is served has nothing of an exempt one. -/
theorem not_exempt_of_twice (hlib : lib.Documented) {rest : Text}
    (hchars : lib.PathChars ("/api/v1".toList ++ rest)) {uri : Uri lib.pathChar}
    (hparse : lib.parse rest = some uri) (htwice : "/api/v1".toList <+: uri.path) :
    ¬ Exempt ("/api/v1".toList ++ rest) := by
  have hversion : "/api/v1".toList <+: "/api/v1".toList ++ rest := List.prefix_append _ _
  rintro (hauth | hhealth)
  · have hname : "/auth".toList <+: rest := by
      have hsplit : "/api/v1/auth".toList = "/api/v1".toList ++ "/auth".toList := rfl
      rwa [hsplit, List.prefix_append_right_inj] at hauth
    exact not_prefix_of_twice hlib hchars hparse htwice (by decide) (by decide) (by decide) hname
  · exact Text.not_prefix_of_prefix hversion (by decide) (by decide) hhealth

/-- A request gets to an endpoint through the gateway exactly if it names the version twice, its
token is accepted and its client is not limited, and the endpoint is the check-in service's; this
is so for the endpoints that ask for no token themselves as well. -/
theorem reaches_iff (config : ProxyConfig) (hapart : Apart config) (lib : UriLib)
    (hlib : lib.Documented) (validateToken : Text → Except Text Claims)
    (rateLimiter : RateLimiter K) (now : K) (method path : Text) (hchars : lib.PathChars path)
    (headers : HeaderMap) :
    (∀ (e : Checkin.Endpoint) (ids : List (Text × Text)),
      Reaches config lib validateToken rateLimiter now .checkin method path headers e ids ↔
        ¬ Limited rateLimiter now headers ∧
        (∃ headers', authorize validateToken headers = .passed headers') ∧
        ∃ rest uri, path = "/api/v1".toList ++ rest ∧ lib.parse rest = some uri ∧
          Checkin.setupRoutes.endpoint method uri.path = some (e, ids)) ∧
    ∀ b, b ≠ .checkin → ∀ (e : b.Endpoint) (ids : List (Text × Text)),
      ¬ Reaches config lib validateToken rateLimiter now b method path headers e ids := by
  refine ⟨fun e ids => ?_, fun b hb e ids h => ?_⟩
  · have htoken : (∃ rest uri, path = "/api/v1".toList ++ rest ∧ lib.parse rest = some uri ∧
        Checkin.setupRoutes.endpoint method uri.path = some (e, ids)) →
        ((∃ headers', (requestFilter validateToken rateLimiter now path headers).2 =
          .passed headers') ↔ ¬ Limited rateLimiter now headers ∧
            ∃ headers', authorize validateToken headers = .passed headers') := by
      rintro ⟨rest, uri, rfl, hparse, hserved⟩
      exact requestFilter_passed_iff
        (not_exempt_of_twice hlib hchars hparse (version_of_endpoint hserved))
        version_append_ne_health
    constructor
    · rintro ⟨hpassed, hdelivered⟩
      have htwice := (delivered_checkin_iff hlib hchars).mp hdelivered
      obtain ⟨hlimit, hauthorize⟩ := (htoken htwice).mp hpassed
      exact ⟨hlimit, hauthorize, htwice⟩
    · rintro ⟨hlimit, hauthorize, htwice⟩
      exact ⟨(htoken htwice).mpr ⟨hlimit, hauthorize⟩,
        (delivered_checkin_iff hlib hchars).mpr htwice⟩
  · obtain ⟨headers', hpassed⟩ := h.passed
    exact not_delivered hlib hapart hb (requestFilter_passed hpassed).1 e ids h.delivered

/-- Who gets to an endpoint bears a token that is accepted. -/
theorem Reaches.bearer (hlib : lib.Documented) {config : ProxyConfig} (hapart : Apart config)
    {b : Backend} {method : Text} (hchars : lib.PathChars path) {e : b.Endpoint}
    {ids : List (Text × Text)}
    (h : Reaches config lib validateToken rateLimiter now b method path headers e ids) :
    ∃ token claims, bearerToken headers = some token ∧ validateToken token = .ok claims := by
  obtain ⟨hcheckin, hothers⟩ := reaches_iff config hapart lib hlib validateToken rateLimiter now
    method path hchars headers
  cases b with
  | checkin =>
    obtain ⟨-, ⟨headers', hauthorize⟩, -⟩ := (hcheckin e ids).mp h
    obtain ⟨token, claims, -, -, htoken, hclaims, -⟩ := authorize_passed hauthorize
    exact ⟨token, claims, htoken, hclaims⟩
  | attestation => exact absurd h (hothers .attestation (by simp) e ids)
  | analytics => exact absurd h (hothers .analytics (by simp) e ids)

end Filter

section Visits

variable {K : Type} [Field K] [LinearOrder K] [IsStrictOrderedRing K]

/-- A request of some client, and the token that it is given if it registers or logs in. -/
structure Visit (lib : UriLib) (K : Type) where
  now : K
  method : Text
  path : Text
  valid : lib.PathChars path
  headers : HeaderMap
  token : Text

/-- What the gateway keeps, and the tokens that have been given out. -/
structure Front (K : Type) where
  rateLimiter : RateLimiter K
  issued : List Text

/-- The endpoint of the check-in service that a request is delivered to. -/
def deliveredTo (config : ProxyConfig) (lib : UriLib) (method path : Text) :
    Option Checkin.Endpoint :=
  match upstreamRequestFilter lib.parsePath path with
  | some path' =>
    if (config.route path).1 = config.checkinUpstream then
      (Checkin.setupRoutes.endpoint method path').map Prod.fst
    else none
  | none => none

variable (config : ProxyConfig) (lib : UriLib)
  (validate : (issued : List Text) → Text → Except Text Claims)

/-- Registering and logging in give out tokens. -/
def visit (s : Front K) (v : Visit lib K) : Front K :=
  let out := requestFilter (validate s.issued) s.rateLimiter v.now v.path v.headers
  let issued := match out.2, deliveredTo config lib v.method v.path with
    | .passed _, some .register => v.token :: s.issued
    | .passed _, some .login => v.token :: s.issued
    | _, _ => s.issued
  ⟨out.1, issued⟩

variable {config lib validate}

theorem delivered_of_deliveredTo {method path : Text} {e : Checkin.Endpoint}
    (h : deliveredTo config lib method path = some e) :
    ∃ ids, Delivered config lib.parsePath .checkin method path e ids := by
  unfold deliveredTo at h
  split at h
  · rename_i path' hfilter
    split at h
    · rename_i hroute
      obtain ⟨⟨e', ids⟩, hend, rfl⟩ := Option.map_eq_some_iff.mp h
      exact ⟨ids, hroute, path', hfilter, hend⟩
    · cases h
  · cases h

/-- A visit gives out a token only if it gets to an endpoint. -/
theorem visit_issued (s : Front K) (v : Visit lib K) :
    (visit config lib validate s v).issued = s.issued ∨
      ∃ (e : Checkin.Endpoint) (ids : List (Text × Text)), Reaches config lib (validate s.issued)
        s.rateLimiter v.now .checkin v.method v.path v.headers e ids := by
  have hreaches : ∀ e headers', (requestFilter (validate s.issued) s.rateLimiter v.now v.path
      v.headers).2 = .passed headers' → deliveredTo config lib v.method v.path = some e →
      ∃ (e : Checkin.Endpoint) (ids : List (Text × Text)), Reaches config lib (validate s.issued)
        s.rateLimiter v.now .checkin v.method v.path v.headers e ids := by
    intro e headers' hpassed hto
    obtain ⟨ids, hdelivered⟩ := delivered_of_deliveredTo hto
    exact ⟨e, ids, ⟨headers', hpassed⟩, hdelivered⟩
  unfold visit
  dsimp only
  split
  · exact .inr (hreaches _ _ ‹_› ‹_›)
  · exact .inr (hreaches _ _ ‹_› ‹_›)
  · exact .inl rfl

/-- Whatever requests come in, who gets to an endpoint bears a token that has been given out; so
where none has been at first, none is ever given out and nobody gets to any endpoint. -/
theorem nobody_without_token (config : ProxyConfig) (hapart : Apart config) (lib : UriLib)
    (hlib : lib.Documented) (validate : (issued : List Text) → Text → Except Text Claims)
    (hvalidate : ∀ issued token claims, validate issued token = .ok claims → token ∈ issued)
    (s₀ : Front K) (visits : List (Visit lib K)) (v : Visit lib K) (s : Front K)
    (hs : s = visits.foldl (visit config lib validate) s₀) :
    (∀ (b : Backend) (e : b.Endpoint) (ids : List (Text × Text)),
      Reaches config lib (validate s.issued) s.rateLimiter v.now b v.method v.path v.headers e ids →
      ∃ token ∈ s.issued, bearerToken v.headers = some token) ∧
    (s₀.issued = [] → s.issued = []) := by
  have hbearer : ∀ (s : Front K) (v : Visit lib K) (b : Backend) (e : b.Endpoint)
      (ids : List (Text × Text)),
      Reaches config lib (validate s.issued) s.rateLimiter v.now b v.method v.path v.headers e ids →
      ∃ token ∈ s.issued, bearerToken v.headers = some token := by
    intro s v b e ids h
    obtain ⟨token, claims, htoken, hclaims⟩ := h.bearer hlib hapart v.valid
    exact ⟨token, hvalidate s.issued token claims hclaims, htoken⟩
  refine ⟨hbearer s v, fun hnone => ?_⟩
  subst hs
  induction visits generalizing s₀ with
  | nil => exact hnone
  | cons u visits ih =>
    refine ih (visit config lib validate s₀ u) ?_
    rcases visit_issued s₀ u with hkept | ⟨e, ids, hreaches⟩
    · exact hkept.trans hnone
    · obtain ⟨token, htoken, -⟩ := hbearer s₀ u .checkin e ids hreaches
      rw [hnone] at htoken
      cases htoken

end Visits

theorem localConfig_apart : Apart localConfig := ⟨by decide, by decide, by decide⟩

def bearerOne : HeaderMap := [("authorization".toList, "Bearer t".toUTF8.toList)]

/-- With a token, and the version twice, one can log in. -/
theorem login_reached : Reaches localConfig UriRewrite.slashForm IdentityHeaders.acceptOne
    RateLimiter.twoPerSecond (0 : ℚ) .checkin "POST".toList "/api/v1/api/v1/auth/login".toList
    bearerOne Checkin.Endpoint.login [] := by
  have hchars : UriRewrite.slashForm.PathChars "/api/v1/api/v1/auth/login".toList :=
    List.all_eq_true.mp (by decide)
  have hvalid : ∀ c ∈ "/api/v1/auth/login".toList, UriRewrite.pathChar c :=
    List.all_eq_true.mp (by decide)
  have hfits : (Text.utf8 "/api/v1/auth/login".toList).length ≤ 65534 := by decide +kernel
  have hlimit : ¬ Limited RateLimiter.twoPerSecond (0 : ℚ) bearerOne := by
    rw [← checkRateLimit_eq_false]
    decide +kernel
  have hauthorize : authorize IdentityHeaders.acceptOne bearerOne = .passed
      ((bearerOne.insert "x-user-id".toList "7".toUTF8.toList).insert "x-user-role".toList
        "user".toUTF8.toList) := by decide +kernel
  have hserved : Checkin.setupRoutes.endpoint "POST".toList "/api/v1/auth/login".toList =
    some (.login, []) := by decide +kernel
  refine ((reaches_iff localConfig localConfig_apart UriRewrite.slashForm
    UriRewrite.slashForm_documented IdentityHeaders.acceptOne RateLimiter.twoPerSecond (0 : ℚ)
    "POST".toList "/api/v1/api/v1/auth/login".toList hchars bearerOne).1 .login []).mpr
      ⟨hlimit, ⟨_, hauthorize⟩, "/api/v1/auth/login".toList, ⟨_, none, hvalid⟩, rfl, ?_, hserved⟩
  exact UriRewrite.slashForm_eq_some.mpr ⟨by decide, hfits, rfl, rfl⟩

/-- The tokens that have been given out are good. -/
def acceptIssued (issued : List Text) (token : Text) : Except Text Claims :=
  if token ∈ issued then .ok ⟨"7".toList, 10, "user".toList, 0⟩ else .error "".toList

/-- Somebody tries to register, first where it is documented and then with the version twice. -/
def attempts : List (Visit UriRewrite.slashForm ℚ) :=
  [⟨0, "POST".toList, "/api/v1/auth/register".toList, List.all_eq_true.mp (by decide), [],
      "t".toList⟩,
    ⟨1, "POST".toList, "/api/v1/api/v1/auth/register".toList, List.all_eq_true.mp (by decide),
      bearerOne, "t".toList⟩]

theorem attempts_in_vain : (attempts.foldl (visit localConfig UriRewrite.slashForm acceptIssued)
    ⟨RateLimiter.twoPerSecond, []⟩).issued = [] :=
  (nobody_without_token localConfig localConfig_apart UriRewrite.slashForm
    UriRewrite.slashForm_documented acceptIssued
    (fun issued token claims h => by
      unfold acceptIssued at h
      split at h
      · assumption
      · cases h)
    ⟨RateLimiter.twoPerSecond, []⟩ attempts
    ⟨2, "GET".toList, "/health".toList, List.all_eq_true.mp (by decide), [], []⟩ _ rfl).2 rfl

end SafetyDao.GatewayReach
