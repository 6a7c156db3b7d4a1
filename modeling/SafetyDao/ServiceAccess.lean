import SafetyDao.CheckinHandlers
import SafetyDao.RouteGates

/-!
# Who gets to which endpoint

The middleware of the check-in service are gates, so who gets to an endpoint can be read off
the tree of routes: anyone to registration and login, a moderator or administrator to the
decisions on reports, and whoever has a good token to the rest.
-/
namespace SafetyDao.Checkin

deriving instance DecidableEq for MiddlewareName

variable {E : Type} (jwtParse : (secret token : Text) → Option MapClaims) (cfg : Config)

/-- The check of the token looks at nothing of the request but its headers. -/
theorem authenticate_congr {r r' : HttpRequest} (h : r.headers = r'.headers) :
    authenticate jwtParse cfg r = authenticate jwtParse cfg r' := by
  have hheader : r.header "Authorization".toList = r'.header "Authorization".toList := by
    rw [Request.header, Request.header, h]
  rw [authenticate, authenticate, hheader]

/-- The claims of a request with these headers. -/
def claimsOf (headers : List (Text × Text)) : Option MapClaims :=
  (authenticate jwtParse cfg (newRequest [] [] headers [] [])).toOption

theorem claimsOf_eq_some {r : HttpRequest} {claims : MapClaims} :
    claimsOf jwtParse cfg r.headers = some claims ↔ authenticate jwtParse cfg r = .ok claims := by
  have hsame : authenticate jwtParse cfg (newRequest [] [] r.headers [] []) =
      authenticate jwtParse cfg r := authenticate_congr jwtParse cfg rfl
  rw [claimsOf, hsame]
  cases authenticate jwtParse cfg r <;> simp [Except.toOption]

/-- The context with the identity in it. -/
def signIn (claims : MapClaims) (ctx : Context GoValue GoValue) : Context GoValue GoValue :=
  (ctx.withValue userIDKey (.string (GoValue.stringOrEmpty (claims "sub".toList)))).withValue
    roleKey (.string (GoValue.stringOrEmpty (claims "role".toList)))

theorem signIn_role (claims : MapClaims) (ctx : Context GoValue GoValue) :
    GoValue.stringOrEmpty ((signIn claims ctx).value roleKey) =
      GoValue.stringOrEmpty (claims "role".toList) := by
  rw [signIn, Context.value_withValue_self]
  rfl

theorem jwtAuth_error {next : Handler GoValue GoValue E} {r : HttpRequest} {e : ℕ × Text}
    (h : authenticate jwtParse cfg r = .error e) :
    jwtAuth jwtParse cfg next r = .answered e.1 e.2 := by
  unfold jwtAuth
  rw [h]

theorem jwtAuth_ok {next : Handler GoValue GoValue E} {r : HttpRequest} {claims : MapClaims}
    (h : authenticate jwtParse cfg r = .ok claims) :
    jwtAuth jwtParse cfg next r = next { r with context := signIn claims r.context } := by
  unfold jwtAuth
  rw [h]
  rfl

/-- When the middleware opens. -/
def gates : Gates (middleware jwtParse cfg : MiddlewareName → Middleware GoValue GoValue E) where
  opens m method headers ctx := match m with
    | .corsMiddleware => method ≠ "OPTIONS".toList
    | .jwtAuth => (claimsOf jwtParse cfg headers).isSome
    | .roleAuth roles => GoValue.stringOrEmpty (ctx.value roleKey) ∈ roles
    | _ => True
  enter m headers ctx := match m with
    | .jwtAuth => (claimsOf jwtParse cfg headers).elim ctx fun claims => signIn claims ctx
    | _ => ctx
  arrival_open m next r h := by
    cases m with
    | realIP => rfl
    | requestLogging => rfl
    | recoverer =>
      simp only [middleware, recoverer]
      cases next r <;> rfl
    | corsMiddleware => rw [middleware, corsMiddleware, if_neg h]
    | roleAuth roles =>
      rw [middleware, roleAuth, if_neg]
      simpa using h
    | jwtAuth =>
      obtain ⟨claims, hclaims⟩ := Option.isSome_iff_exists.mp h
      rw [middleware, jwtAuth_ok jwtParse cfg ((claimsOf_eq_some jwtParse cfg).mp hclaims), hclaims]
      rfl
  arrival_shut m next r h := by
    cases m with
    | realIP => exact absurd trivial h
    | requestLogging => exact absurd trivial h
    | recoverer => exact absurd trivial h
    | corsMiddleware =>
      rw [middleware, corsMiddleware, if_pos (not_not.mp h)]
      rfl
    | roleAuth roles =>
      rw [middleware, roleAuth, if_pos]
      · rfl
      · simpa using h
    | jwtAuth =>
      cases hauth : authenticate jwtParse cfg r with
      | error e =>
        rw [middleware, jwtAuth_error jwtParse cfg hauth]
        rfl
      | ok claims =>
        refine absurd ?_ h
        rw [(claimsOf_eq_some jwtParse cfg).mpr hauth]
        rfl

/-- The middleware before an endpoint. -/
def needs : Endpoint → List MiddlewareName
  | .register | .login => []
  | .updateReportStatus => [.jwtAuth, .roleAuth ["moderator".toList, "admin".toList]]
  | _ => [.jwtAuth]

theorem needs_setupRoutes : ∀ entry ∈ setupRoutes.table, entry.1 = needs entry.2 := by decide

/-- Who may get to an endpoint. -/
def Allowed (e : Endpoint) (r : HttpRequest) : Prop :=
  e = .register ∨ e = .login ∨ ∃ claims, authenticate jwtParse cfg r = .ok claims ∧
    (e = .updateReportStatus →
      GoValue.stringOrEmpty (claims "role".toList) ∈ ["moderator".toList, "admin".toList])

theorem admit_jwtAuth (r : HttpRequest) (ms : List MiddlewareName) :
    (gates jwtParse cfg (E := E)).Admit r.method r.headers (.jwtAuth :: ms) r.context ↔
      ∃ claims, authenticate jwtParse cfg r = .ok claims ∧
        (gates jwtParse cfg (E := E)).Admit r.method r.headers ms (signIn claims r.context) := by
  simp only [Gates.Admit, gates, Option.isSome_iff_exists]
  constructor
  · rintro ⟨⟨claims, hclaims⟩, hrest⟩
    rw [hclaims] at hrest
    exact ⟨claims, (claimsOf_eq_some jwtParse cfg).mp hclaims, hrest⟩
  · rintro ⟨claims, hclaims, hrest⟩
    rw [(claimsOf_eq_some jwtParse cfg).mpr hclaims]
    exact ⟨⟨claims, rfl⟩, hrest⟩

theorem admit_needs (e : Endpoint) (r : HttpRequest) :
    (gates jwtParse cfg (E := Endpoint)).Admit r.method r.headers (needs e) r.context ↔
      Allowed jwtParse cfg e r := by
  cases e with
  | register => exact iff_of_true trivial (.inl rfl)
  | login => exact iff_of_true trivial (.inr (.inl rfl))
  | updateReportStatus =>
    rw [needs, admit_jwtAuth]
    simp only [Gates.Admit, gates, signIn_role, Allowed, and_true]
    simp
  | createCheckIn | listCheckIns | getCheckIn | completeCheckIn | triggerAlert | listAlerts
  | resolveAlert | submitReport | searchReports | getReport | createProposal | listProposals
  | getProposal | castVote | getResults =>
    change (gates jwtParse cfg).Admit r.method r.headers [.jwtAuth] r.context ↔ _
    rw [admit_jwtAuth]
    simp [Gates.Admit, Allowed]

/-- A request with the context that the router has given it. -/
def routed (r : HttpRequest) : HttpRequest :=
  { r with
    context := r.context.withValue routeCtxKey (.pointer "chi.Context".toList "rctx".toList) }

/-- The middleware of the router itself answers OPTIONS and lets all else pass. -/
theorem arrival_serveHTTP (r : HttpRequest) (e : Endpoint) (params : List (Text × Text)) :
    (serveHTTP jwtParse cfg r).arrival = some (e, params) ↔ r.method ≠ "OPTIONS".toList ∧
      (setupRoutes.serve (middleware jwtParse cfg) (routed r)).arrival = some (e, params) := by
  have hrecovers : ∀ (next : Handler GoValue GoValue Endpoint) (r : HttpRequest),
      (recoverer next r).arrival = (next r).arrival := by
    intro next r
    unfold recoverer
    cases next r <;> rfl
  have hchain : (serveHTTP jwtParse cfg r).arrival = (corsMiddleware
      (setupRoutes.serve (middleware jwtParse cfg)) (routed r)).arrival := hrecovers _ _
  have hmethod : (routed r).method = r.method := rfl
  rw [hchain, corsMiddleware, hmethod]
  split
  · rename_i hoptions
    exact iff_of_false (fun h => by cases h) fun h => h.1 hoptions
  · rename_i hoptions
    exact (and_iff_right hoptions).symm

/-- A request gets to an endpoint exactly if the routes have it for the method and the path and
its bearer may get there. -/
theorem reached_iff (r : HttpRequest) (e : Endpoint) (params : List (Text × Text)) :
    (serveHTTP jwtParse cfg r).arrival = some (e, params) ↔
      r.method ≠ "OPTIONS".toList ∧ Allowed jwtParse cfg e r ∧
        ∃ own, setupRoutes.endpoint r.method r.routePath = some (e, own) ∧
          params = r.urlParams ++ own := by
  have hneeds : ∀ entry ∈ setupRoutes.table, entry.2 = e → entry.1 = needs e :=
    fun entry hentry he => he ▸ needs_setupRoutes entry hentry
  have hallowed : Allowed jwtParse cfg e (routed r) ↔ Allowed jwtParse cfg e r := by
    unfold Allowed
    rw [authenticate_congr jwtParse cfg (show (routed r).headers = r.headers from rfl)]
  rw [arrival_serveHTTP, (gates jwtParse cfg).arrival_serve_iff hneeds, admit_needs, hallowed]
  constructor
  · rintro ⟨hoptions, own, hend, hparams, hadmits⟩
    exact ⟨hoptions, hadmits, own, hend, hparams⟩
  · rintro ⟨hoptions, hadmits, own, hend, hparams⟩
    exact ⟨hoptions, own, hend, hparams, hadmits⟩

end SafetyDao.Checkin
