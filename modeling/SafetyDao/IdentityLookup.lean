import SafetyDao.CheckinHandlers

/-!
# Whom the handlers serve

`JWTAuth` stores the caller's identity under a key of the middleware's own type, and
eleven handlers ask the context for a plain string. Nothing on the way of a request
stores anything under a plain string, so each of the eleven panics.
-/
namespace SafetyDao.IdentityLookup
open Checkin

variable {jwtParse : (secret token : Text) → Option MapClaims} {cfg : Config} {u role : Text}

/-- The bearer token of the request is accepted, with these string claims. -/
def Accepted (jwtParse : (secret token : Text) → Option MapClaims) (cfg : Config) (u role : Text)
    (r : HttpRequest) : Prop :=
  ∃ claims, authenticate jwtParse cfg r = .ok claims ∧
    claims "sub".toList = some (.string u) ∧ claims "role".toList = some (.string role)

/-- The handler does not panic, and what it asks of a service it asks for the user `u`. -/
def ServesUser (u : Text) : HandlerRun → Prop
  | .panicked _ => False
  | .respondError .. => True
  | .called call _ _ => call.userID = some u

/-- The key that the handlers look up. -/
def plainKey : GoValue := .string "user_id".toList

structure Incoming (jwtParse : (secret token : Text) → Option MapClaims) (cfg : Config)
    (u role : Text) (r : HttpRequest) : Prop where
  plain : r.context.value plainKey = none
  accepted : Accepted jwtParse cfg u role r

/-- The identity is in the context, under the keys of the middleware only. -/
structure SignedIn (u role : Text) (r : HttpRequest) : Prop where
  plain : r.context.value plainKey = none
  userID : r.context.value userIDKey = some (.string u)
  role : r.context.value roleKey = some (.string role)

theorem jwtAuth_takes {E : Type} :
    (jwtAuth jwtParse cfg : Middleware GoValue GoValue E).Takes (Incoming jwtParse cfg u role)
      (SignedIn u role) := by
  intro post next hnext r hr
  obtain ⟨claims, hclaims, hsub, hrole⟩ := hr.accepted
  unfold jwtAuth
  rw [hclaims]
  dsimp only
  rw [hsub, hrole]
  refine hnext _ ⟨?_, ?_, ?_⟩
  · rw [Context.value_withValue_of_ne _ _ (by decide),
      Context.value_withValue_of_ne _ _ (by decide)]
    exact hr.plain
  · rw [Context.value_withValue_of_ne _ _ (by decide)]
    exact Context.value_withValue_self ..
  · exact Context.value_withValue_self ..

theorem roleAuth_takes {E : Type} (roles : List Text) (pre : HttpRequest → Prop) :
    (roleAuth roles : Middleware GoValue GoValue E).Takes pre pre := by
  intro post next hnext r hr
  unfold roleAuth
  dsimp only
  split
  · trivial
  · exact hnext r hr

/-- The router's own middleware lets requests pass as they are. -/
theorem middleware_takes {E : Type} (pre : HttpRequest → Prop) {m : MiddlewareName}
    (hm : m ∈ routerUse) :
    (middleware jwtParse cfg m : Middleware GoValue GoValue E).Takes pre pre := by
  intro post next hnext r hr
  simp only [routerUse, List.mem_cons, List.not_mem_nil, or_false] at hm
  rcases hm with rfl | rfl | rfl | rfl
  · exact hnext r hr
  · have hout := hnext r hr
    rw [middleware, recoverer]
    cases hd : next r with
    | answered status body => trivial
    | reached e r' recovers =>
      rw [hd] at hout
      exact hout
  · exact hnext r hr
  · rw [middleware, corsMiddleware]
    split
    · trivial
    · exact hnext r hr

theorem authenticatedRoutes_meets :
    authenticatedRoutes.Meets (middleware jwtParse cfg) (SignedIn u role)
      (fun _ => SignedIn u role) := by
  refine Routes.meets_of_keeps (fun r path h => ⟨h.plain, h.userID, h.role⟩)
    (fun r params h => ⟨h.plain, h.userID, h.role⟩) ?_
  intro m hm
  have hroleAuth : m = .roleAuth ["moderator".toList, "admin".toList] := List.mem_singleton.mp hm
  rw [hroleAuth]
  exact roleAuth_takes _ _

/-- Behind `JWTAuth` the identity is in the context; the two routes before it do not
read it. -/
theorem setupRoutes_meets :
    setupRoutes.Meets (middleware jwtParse cfg) (Incoming jwtParse cfg u role)
      (fun e r => e.readsIdentity = true → SignedIn u role r) := by
  have hpath : ∀ (r : HttpRequest) path, Incoming jwtParse cfg u role r →
      Incoming jwtParse cfg u role { r with routePath := path } :=
    fun r path h => ⟨h.plain, h.accepted⟩
  have hauth : authRoutes.Meets (middleware jwtParse cfg) (Incoming jwtParse cfg u role)
      (fun e r => e.readsIdentity = true → SignedIn u role r) :=
    .handle (fun r params h => nofun) (.handle (fun r params h => nofun) .nil)
  refine .mount hpath (.mount hpath hauth (.group (fun h hmeets => ?_)
    (authenticatedRoutes_meets.mono fun e r h _ => h) .nil)) .nil
  exact jwtAuth_takes.chain_cons hmeets

theorem serveHTTP_meets :
    Handler.Meets (Incoming jwtParse cfg u role)
      (fun e r => e.readsIdentity = true → SignedIn u role r) (serveHTTP jwtParse cfg) := by
  intro r hr
  refine chain_meets ?_ setupRoutes_meets.serve _ ⟨?_, hr.accepted⟩
  · intro mw hmw
    obtain ⟨m, hm, rfl⟩ := List.mem_map.mp hmw
    exact middleware_takes _ hm
  · rw [Context.value_withValue_of_ne _ _ (by decide)]
    exact hr.plain

/-- What the handlers' lookup panics with. -/
def noIdentity : Text := "interface conversion: interface \x7b\x7d is nil, not string".toList

theorem withUserID_of_none {r : HttpRequest} (h : r.context.value plainKey = none)
    (next : Text → HandlerRun) : withUserID r next = .panicked noIdentity := by
  unfold withUserID
  rw [show GoValue.string "user_id".toList = plainKey from rfl, h]
  rfl

/-- Each of the eleven looks the identity up before anything else. -/
theorem handle_panicked (json : Decoder) {e : Endpoint} {r : HttpRequest}
    (h : r.context.value plainKey = none) (hreads : e.readsIdentity = true) :
    handle json e r = .panicked noIdentity := by
  cases e with
  | register | login | searchReports | getReport | listProposals | getProposal | getResults =>
    cases hreads
  | createCheckIn | listCheckIns | getCheckIn | completeCheckIn | triggerAlert | listAlerts
  | resolveAlert | submitReport | updateReportStatus | createProposal | castVote =>
    exact withUserID_of_none h _

/-- At the handler the identity is there, under the middleware's key, and the handler
panics. -/
theorem identity_lookup_panics (json : Decoder) {method path : Text}
    {headers query : List (Text × Text)} {body : Text}
    (haccepted : Accepted jwtParse cfg u role (newRequest method path headers query body))
    {e : Endpoint} {r : HttpRequest} {recovers : Bool}
    (hreached : serveHTTP jwtParse cfg (newRequest method path headers query body) =
      .reached e r recovers) (hreads : e.readsIdentity = true) :
    r.context.value userIDKey = some (.string u) ∧ handle json e r = .panicked noIdentity := by
  have hmeets := serveHTTP_meets (newRequest method path headers query body) ⟨rfl, haccepted⟩
  rw [hreached] at hmeets
  have hsigned : SignedIn u role r := hmeets hreads
  exact ⟨hsigned.userID, handle_panicked json hsigned.plain hreads⟩

theorem identity_never_served (jwtParse : (secret token : Text) → Option MapClaims) (cfg : Config)
    (json : Decoder) (method path : Text) (headers query : List (Text × Text)) (body u role : Text)
    (haccepted : Accepted jwtParse cfg u role (newRequest method path headers query body))
    (e : Endpoint) (r : HttpRequest) (recovers : Bool)
    (hreached : serveHTTP jwtParse cfg (newRequest method path headers query body) =
      .reached e r recovers) (hreads : e.readsIdentity = true) :
    ¬ ServesUser u (handle json e r) := by
  rw [(identity_lookup_panics json haccepted hreached hreads).2]
  exact id

def aliceClaims : MapClaims := fun name =>
  if name = "sub".toList then some (.string "alice".toList)
  else if name = "role".toList then some (.string "user".toList)
  else none

/-- Alice's token is the only good one. -/
def parseAlice : (secret token : Text) → Option MapClaims := fun _ token =>
  if token = "alice-token".toList then some aliceClaims else none

def secretConfig : Config := ⟨"secret".toList⟩

/-- A decoder of no input at all. -/
def noInput : Decoder where
  registerRequest _ := none
  loginRequest _ := none
  newCheckIn _ := none
  newEmergencyAlert _ := none
  newReport _ := none
  reportStatus _ := none
  newProposal _ := none
  castVoteRequest _ := none

/-- Alice lists her check-ins. -/
def listRequest : HttpRequest :=
  newRequest "GET".toList "/api/v1/checkins".toList
    [("Authorization".toList, "Bearer alice-token".toList)] [] []

theorem listRequest_accepted :
    Accepted parseAlice secretConfig "alice".toList "user".toList listRequest := by
  have hclaims : (authenticate parseAlice secretConfig listRequest).toOption.map
      (fun claims => (claims "sub".toList, claims "role".toList)) =
      some (some (.string "alice".toList), some (.string "user".toList)) := by decide +kernel
  unfold Accepted
  cases hauth : authenticate parseAlice secretConfig listRequest with
  | error e =>
    rw [hauth] at hclaims
    cases hclaims
  | ok claims =>
    rw [hauth] at hclaims
    obtain ⟨hsub, hrole⟩ := Prod.mk.inj (Option.some.inj hclaims)
    exact ⟨claims, rfl, hsub, hrole⟩

theorem listRequest_reached :
    ∃ r recovers, serveHTTP parseAlice secretConfig listRequest =
      .reached .listCheckIns r recovers := by
  have harrival : (serveHTTP parseAlice secretConfig listRequest).arrival =
      some (.listCheckIns, []) := by decide +kernel
  obtain ⟨r, recovers, hreached, -⟩ := Dispatched.arrival_eq_some.mp harrival
  exact ⟨r, recovers, hreached⟩

theorem listRequest_not_served :
    ∃ r recovers, serveHTTP parseAlice secretConfig listRequest =
      .reached .listCheckIns r recovers ∧
      ¬ ServesUser "alice".toList (handle noInput .listCheckIns r) := by
  obtain ⟨r, recovers, hreached⟩ := listRequest_reached
  exact ⟨r, recovers, hreached, identity_never_served parseAlice secretConfig noInput
    "GET".toList "/api/v1/checkins".toList _ [] [] _ _ listRequest_accepted .listCheckIns r
    recovers hreached rfl⟩

/-- Alice cannot even list her check-ins. -/
theorem listing_panics :
    ¬ ∀ (jwtParse : (secret token : Text) → Option MapClaims) (cfg : Config) (json : Decoder)
      (method path : Text) (headers query : List (Text × Text)) (body u role : Text),
      Accepted jwtParse cfg u role (newRequest method path headers query body) →
      ∀ e r recovers, serveHTTP jwtParse cfg (newRequest method path headers query body) =
        .reached e r recovers → e.readsIdentity = true → ServesUser u (handle json e r) := by
  intro h
  obtain ⟨r, recovers, hreached⟩ := listRequest_reached
  have hserved := h parseAlice secretConfig noInput "GET".toList "/api/v1/checkins".toList
    [("Authorization".toList, "Bearer alice-token".toList)] [] [] "alice".toList "user".toList
    listRequest_accepted .listCheckIns r recovers hreached rfl
  have hpanics := identity_lookup_panics noInput listRequest_accepted hreached rfl
  rw [hpanics.2] at hserved
  exact hserved

end SafetyDao.IdentityLookup
