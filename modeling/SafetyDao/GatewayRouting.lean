import SafetyDao.CheckinRoutes
import SafetyDao.Gateway

/-!
# What the gateway delivers

The gateway chooses the upstream by the path below `/api/v1` and sends it that part
of the path. The check-in and the analytics service expect the whole path and the
attestation service one below `/api`, so what the gateway sends matches no route.
-/
namespace SafetyDao

inductive AnalyticsEndpoint where
  | health | dedup | trends | dao | embed
deriving DecidableEq

inductive AttestationEndpoint where
  | health | createAttestation | getAttestation | verifyAttestation | listCircuits
deriving DecidableEq

def analyticsRoutes : Routes Empty AnalyticsEndpoint :=
  let analytics (s : String) : List Segment :=
    [.static "api".toList, .static "v1".toList, .static "analytics".toList, .static s.toList]
  .handle "GET".toList [.static "health".toList] .health <|
  .handle "POST".toList (analytics "dedup") .dedup <|
  .handle "GET".toList (analytics "trends") .trends <|
  .handle "GET".toList (analytics "dao") .dao <|
  .handle "POST".toList (analytics "embed") .embed .nil

/-- The attestation service's version of its router writes a parameter with a colon,
so the braces in its routes are ordinary characters. -/
def attestationRoutes : Routes Empty AttestationEndpoint :=
  let attestations (segments : List Segment) : List Segment :=
    .static "api".toList :: .static "attestations".toList :: segments
  .handle "GET".toList [.static "health".toList] .health <|
  .handle "POST".toList (attestations []) .createAttestation <|
  .handle "GET".toList (attestations [.static "\x7bid\x7d".toList]) .getAttestation <|
  .handle "POST".toList (attestations [.static "\x7bid\x7d".toList, .static "verify".toList])
    .verifyAttestation <|
  .handle "GET".toList [.static "api".toList, .static "circuits".toList] .listCircuits .nil

/-- What the client asks of the gateway to reach the attestation service. -/
def attestationClientRoutes : Routes Empty AttestationEndpoint :=
  .mount "/api/v1".toList
    (.handle "POST".toList [.static "attestations".toList] .createAttestation <|
     .handle "GET".toList [.static "attestations".toList, .param "id".toList] .getAttestation <|
     .handle "POST".toList [.static "attestations".toList, .param "id".toList,
       .static "verify".toList] .verifyAttestation .nil) .nil

namespace GatewayRouting

inductive Backend where
  | attestation | checkin | analytics

namespace Backend

abbrev Endpoint : Backend → Type
  | .attestation => AttestationEndpoint
  | .checkin => Checkin.Endpoint
  | .analytics => AnalyticsEndpoint

/-- The upstream as the configuration writes it. Which host and port `extract_addr` takes from
that text is left out. -/
def upstream (config : ProxyConfig) : Backend → Text
  | .attestation => config.attestationUpstream
  | .checkin => config.checkinUpstream
  | .analytics => config.analyticsUpstream

/-- The endpoint that the backend's own router finds for a request. The path is taken as it is
written: that Go's server decodes percent signs in it first is left out. -/
def serves : (b : Backend) → (method path : Text) → Option (b.Endpoint × List (Text × Text))
  | .attestation => attestationRoutes.endpoint
  | .checkin => Checkin.setupRoutes.endpoint
  | .analytics => analyticsRoutes.endpoint

/-- The endpoint that a request of the documented API is for. -/
def documents : (b : Backend) → (method path : Text) → Option (b.Endpoint × List (Text × Text))
  | .attestation => attestationClientRoutes.endpoint
  | .checkin => Checkin.setupRoutes.endpoint
  | .analytics => fun method path =>
    if "/api/v1/analytics".toList <+: path then analyticsRoutes.endpoint method path else none

/-- How the documented paths of a backend go on below `/api/v1`. -/
def names : Backend → List Text
  | .attestation => ["/attestations".toList]
  | .checkin => ["/auth", "/checkins", "/emergency", "/registry", "/dao"].map String.toList
  | .analytics => ["/analytics".toList]

/-- How the routes of a backend start. -/
def heads : Backend → List Text
  | .attestation => attestationRoutes.heads
  | .checkin => Checkin.setupRoutes.heads
  | .analytics => analyticsRoutes.heads

end Backend

/-- The gateway takes the request to the backend that the endpoint belongs to, under a
path by which the backend finds it with the same parameters. Two upstreams are the same if
the configuration writes them alike. -/
structure Delivered (config : ProxyConfig) (parseUri : Text → Option Text) (b : Backend)
    (method path : Text) (e : b.Endpoint) (ids : List (Text × Text)) : Prop where
  upstream : (config.route path).1 = b.upstream config
  endpoint : ∃ path', GatewayProxy.upstreamRequestFilter parseUri path = some path' ∧
    b.serves method path' = some (e, ids)

/-- Of a text that starts with a slash, a URI's path is what comes before a query or
fragment. -/
def ParsesPaths (parseUri : Text → Option Text) : Prop :=
  ∀ t path, parseUri ('/' :: t) = some path →
    path = ('/' :: t).takeWhile (fun c => c ≠ '?' ∧ c ≠ '#')

/-- A path that reaches what is mounted at `/api/v1` goes on like one of its routes. -/
theorem endpoint_below_version {M E : Type} {sub : Routes M E} {method path : Text} {e : E}
    {ids : List (Text × Text)} {names : List Text}
    (hend : (Routes.mount "/api/v1".toList sub .nil).endpoint method path = some (e, ids))
    (hheads : ∀ head ∈ sub.heads, head ∈ names ∧ ¬ head <+: ['/']) :
    ∃ rest, path = "/api/v1".toList ++ rest ∧ ∃ name ∈ names, name <+: rest := by
  obtain ⟨rest, hbelow, head, hhead, hrest⟩ := Routes.endpoint_mount hend
  obtain ⟨hname, hroot⟩ := hheads head hhead
  rcases below_eq_some hbelow with hpath | hslash
  · exact ⟨rest, hpath, head, hname, hrest⟩
  · rw [hslash] at hrest
    exact absurd hrest hroot

/-- A documented path is the version and the name of what it is about. -/
theorem documents_names {b : Backend} {method path : Text} {e : b.Endpoint}
    {ids : List (Text × Text)} (hdoc : b.documents method path = some (e, ids)) :
    ∃ rest, path = "/api/v1".toList ++ rest ∧ ∃ name ∈ b.names, name <+: rest := by
  cases b with
  | attestation => exact endpoint_below_version hdoc (by decide)
  | checkin => exact endpoint_below_version hdoc (by decide)
  | analytics =>
    obtain ⟨⟨rest, hrest⟩, -⟩ := Option.ite_none_right_eq_some.mp hdoc
    exact ⟨"/analytics".toList ++ rest, hrest.symm, "/analytics".toList, List.mem_singleton_self _,
      List.prefix_append _ _⟩

theorem route_below_version (config : ProxyConfig) {b : Backend} {name rest : Text}
    (hname : name ∈ b.names) (hrest : name <+: rest) :
    (config.route ("/api/v1".toList ++ rest)).1 = b.upstream config := by
  have hhealth : "/api/v1".toList ++ rest ≠ "/health".toList := by
    intro h
    have hversion : "/api/v1".toList <+: "/health".toList := by
      rw [← h]
      exact List.prefix_append _ _
    exact absurd hversion (by decide)
  have hother : ∀ other : Text, ¬ name <+: other → ¬ other <+: name → ¬ other <+: rest :=
    fun other h h' => Text.not_prefix_of_prefix hrest h h'
  unfold ProxyConfig.route
  rw [if_neg hhealth, Text.stripPrefix_append]
  dsimp only
  cases b with
  | attestation =>
    obtain rfl := List.mem_singleton.mp hname
    rw [if_pos hrest]
    rfl
  | checkin =>
    have hattestations := hother "/attestations".toList
    have hanalytics := hother "/analytics".toList
    simp only [Backend.names, List.map_cons, List.map_nil, List.mem_cons, List.not_mem_nil,
      or_false] at hname
    rcases hname with rfl | hname
    · rw [if_neg (hattestations (by decide) (by decide)), if_neg,
        if_neg (hanalytics (by decide) (by decide))]
      · rfl
      · rintro (h | h | h | h) <;> exact hother _ (by decide) (by decide) h
    · have hnot : ¬ "/attestations".toList <+: rest := by
        rcases hname with rfl | rfl | rfl | rfl <;> exact hattestations (by decide) (by decide)
      rw [if_neg hnot, if_pos]
      · rfl
      · rcases hname with rfl | rfl | rfl | rfl
        · exact .inl hrest
        · exact .inr (.inl hrest)
        · exact .inr (.inr (.inr hrest))
        · exact .inr (.inr (.inl hrest))
  | analytics =>
    obtain rfl := List.mem_singleton.mp hname
    rw [if_neg (hother _ (by decide) (by decide)), if_neg, if_pos hrest]
    · rfl
    · rintro (h | h | h | h) <;> exact hother _ (by decide) (by decide) h

/-- The choice of the upstream is right for every documented request. -/
theorem route_upstream (config : ProxyConfig) {b : Backend} {method path : Text} {e : b.Endpoint}
    {ids : List (Text × Text)} (hdoc : b.documents method path = some (e, ids)) :
    (config.route path).1 = b.upstream config := by
  obtain ⟨rest, rfl, name, hname, hrest⟩ := documents_names hdoc
  exact route_below_version config hname hrest

theorem serves_heads {b : Backend} {method path : Text} {e : b.Endpoint}
    {ids : List (Text × Text)} (hserves : b.serves method path = some (e, ids)) :
    ∃ head ∈ b.heads, head <+: path := by
  cases b with
  | attestation => exact Routes.endpoint_heads hserves
  | checkin => exact Routes.endpoint_heads hserves
  | analytics => exact Routes.endpoint_heads hserves

/-- The upstream gets a part of what follows the version. -/
theorem upstream_path_prefix {parseUri : Text → Option Text} (hparse : ParsesPaths parseUri)
    {rest path' : Text} (hslash : ['/'] <+: rest)
    (hfilter : GatewayProxy.upstreamRequestFilter parseUri ("/api/v1".toList ++ rest) =
      some path') : path' <+: rest := by
  obtain ⟨t, rfl⟩ := hslash
  unfold GatewayProxy.upstreamRequestFilter at hfilter
  rw [Text.stripPrefix_append] at hfilter
  rw [hparse t path' hfilter]
  exact List.takeWhile_prefix _

theorem slash_prefix_name {b : Backend} : ∀ name ∈ b.names, ['/'] <+: name := by
  cases b <;> decide

/-- No backend has a route that starts like a documented path below the version. -/
theorem head_name_apart {b : Backend} :
    ∀ head ∈ b.heads, ∀ name ∈ b.names, ¬ name <+: head ∧ ¬ head <+: name := by
  cases b <;> decide

theorem documented_not_delivered (config : ProxyConfig) (parseUri : Text → Option Text)
    (hparse : ParsesPaths parseUri) (b : Backend) (method path : Text) (e : b.Endpoint)
    (ids : List (Text × Text)) (hdoc : b.documents method path = some (e, ids)) :
    ¬ Delivered config parseUri b method path e ids := by
  rintro ⟨-, path', hfilter, hserves⟩
  obtain ⟨rest, rfl, name, hname, hrest⟩ := documents_names hdoc
  have hpart : path' <+: rest :=
    upstream_path_prefix hparse ((slash_prefix_name name hname).trans hrest) hfilter
  obtain ⟨head, hhead, hstarts⟩ := serves_heads hserves
  obtain ⟨hname', hhead'⟩ := head_name_apart head hhead name hname
  exact Text.not_prefix_of_prefix hrest hname' hhead' (hstarts.trans hpart)

/-- The upstreams that the gateway takes when none are set. -/
def localConfig : ProxyConfig where
  attestationUpstream := "http://localhost:3001".toList
  checkinUpstream := "http://localhost:3002".toList
  analyticsUpstream := "http://localhost:3003".toList

def beforeQuery (t : Text) : Option Text := some (t.takeWhile (fun c => c ≠ '?' ∧ c ≠ '#'))

theorem beforeQuery_parsesPaths : ParsesPaths beforeQuery :=
  fun _ _ h => (Option.some.inj h).symm

theorem login_documented :
    Backend.documents .checkin "POST".toList "/api/v1/auth/login".toList =
      some (Checkin.Endpoint.login, []) := by
  have hserved : Checkin.setupRoutes.endpoint "POST".toList "/api/v1/auth/login".toList =
    some (Checkin.Endpoint.login, []) := by decide +kernel
  exact hserved

theorem login_not_delivered :
    ¬ Delivered localConfig beforeQuery .checkin "POST".toList "/api/v1/auth/login".toList
      Checkin.Endpoint.login [] :=
  documented_not_delivered localConfig beforeQuery beforeQuery_parsesPaths .checkin _ _ _ _
    login_documented

/-- The check-in service is asked for `/auth/login`, which it does not have. -/
theorem login_lost :
    ¬ ∀ (config : ProxyConfig) (parseUri : Text → Option Text), ParsesPaths parseUri →
      ∀ (b : Backend) (method path : Text) (e : b.Endpoint) (ids : List (Text × Text)),
      b.documents method path = some (e, ids) →
      Delivered config parseUri b method path e ids := by
  intro h
  obtain ⟨-, path', hfilter, hserves⟩ :=
    h localConfig beforeQuery beforeQuery_parsesPaths .checkin _ _ _ _ login_documented
  have hpath : GatewayProxy.upstreamRequestFilter beforeQuery "/api/v1/auth/login".toList =
      some "/auth/login".toList := by decide +kernel
  have hnone : Checkin.setupRoutes.endpoint "POST".toList "/auth/login".toList = none := by
    decide +kernel
  obtain rfl := Option.some.inj (hpath.symm.trans hfilter)
  have hsome : Checkin.setupRoutes.endpoint "POST".toList "/auth/login".toList =
    some (Checkin.Endpoint.login, []) := hserves
  rw [hnone] at hsome
  cases hsome

end GatewayRouting

end SafetyDao
