import SafetyDao.ApiClient
import SafetyDao.ServerRuns

/-!
# The calls of the client at the server

Each call of `api.ts` has a route of the check-in service, behind the check of the token that the
client stores. So a call that the token signs in gets to the handler of its name, with the
identifier, the body and the parameters that it was given; only the handlers of the two lists do
what the call asks for.
-/
namespace SafetyDao.ApiClient
open BrowserSession (Window getToken)
open Checkin (Endpoint handle)
open CheckinServer (Arrival HttpReply Server Setup)

section Routing

variable {N : Type} (numberText : N → Text)

namespace ApiCall

def params : ApiCall N → Option (Params N)
  | .searchReports params => params
  | _ => none

def path : ApiCall N → Text
  | .searchReports _ => "/registry/reports".toList
  | call => call.endpoint numberText

/-- The identifier in the path. -/
def id : ApiCall N → Option Text
  | .completeCheckIn id | .resolveAlert id | .castVote id _ => some id
  | _ => none

/-- Where the call is meant to arrive, with the parameters of the path. -/
def target (call : ApiCall N) : Endpoint × List (Text × Text) :=
  let e : Endpoint := match call with
    | .createCheckIn _ => .createCheckIn
    | .completeCheckIn _ => .completeCheckIn
    | .listCheckIns => .listCheckIns
    | .triggerAlert _ => .triggerAlert
    | .resolveAlert _ => .resolveAlert
    | .submitReport _ => .submitReport
    | .searchReports _ => .searchReports
    | .createProposal _ => .createProposal
    | .listProposals => .listProposals
    | .castVote _ _ => .castVote
  (e, call.id.toList.map fun id => ("id".toList, id))

def method (call : ApiCall N) : Text := (call.options.map RequestInit.method).getD "GET".toList

theorem endpoint_eq (call : ApiCall N) :
    call.endpoint numberText = call.path numberText ++ buildQueryString numberText call.params := by
  cases call with
  | searchReports params => rfl
  | createCheckIn | completeCheckIn | listCheckIns | triggerAlert | resolveAlert | submitReport
  | createProposal | listProposals | castVote => exact (List.append_nil _).symm

end ApiCall

theorem splitOn_two {id last : Text} (hid : '/' ∉ id) (hlast : '/' ∉ last) :
    ('/' :: (id ++ '/' :: last)).splitOn '/' = [[], id, last] := by
  have hroot : ('/' :: (id ++ '/' :: last)).splitOn '/' =
      [] :: (id ++ '/' :: last).splitOn '/' :=
    List.splitOn_append_cons_self_of_not_mem List.not_mem_nil _
  rw [hroot, List.splitOn_append_cons_self_of_not_mem hid, List.splitOn_eq_singleton hlast]

section Match

variable {id last : Text} (hid : '/' ∉ id) (hlast : '/' ∉ last)
include hid hlast

theorem matchPath_root : matchPath [Checkin.root] ('/' :: (id ++ '/' :: last)) = none := by
  rw [matchPath, splitOn_two hid hlast]
  simp [Checkin.root, matchSegments]

theorem matchPath_idParam : matchPath [Checkin.idParam, .static last]
    ('/' :: (id ++ '/' :: last)) = some [("id".toList, id)] := by
  rw [matchPath, splitOn_two hid hlast]
  simp [Checkin.idParam, matchSegments]

end Match

/-- The three calls with an identifier are routed to the handlers of their names. -/
theorem trail_complete {id : Text} (hid : '/' ∉ id) :
    Checkin.checkinsRoutes.trail "POST".toList ('/' :: (id ++ '/' :: "complete".toList)) =
      some ([], some (.completeCheckIn, [("id".toList, id)])) := by
  simp [Checkin.checkinsRoutes, Checkin.post, Checkin.get, Routes.trail, matchPath_root hid,
    matchPath_idParam hid]

theorem trail_resolve {id : Text} (hid : '/' ∉ id) :
    Checkin.emergencyRoutes.trail "POST".toList ('/' :: (id ++ '/' :: "resolve".toList)) =
      some ([], some (.resolveAlert, [("id".toList, id)])) := by
  simp [Checkin.emergencyRoutes, Checkin.post, Checkin.get, Routes.trail, matchPath_root hid,
    matchPath_idParam hid]

theorem trail_votes {id : Text} (hid : '/' ∉ id) :
    Checkin.proposalsRoutes.trail "POST".toList ('/' :: (id ++ '/' :: "votes".toList)) =
      some ([], some (.castVote, [("id".toList, id)])) := by
  simp [Checkin.proposalsRoutes, Checkin.post, Checkin.get, Routes.trail, matchPath_root hid,
    matchPath_idParam hid]

theorem below_idPath (mounted id last : Text) :
    below mounted (mounted ++ ['/'] ++ id ++ '/' :: last) = some ('/' :: (id ++ '/' :: last)) := by
  rw [List.append_assoc, List.append_assoc]
  exact below_append mounted _

/-- A path that starts otherwise is not below a mounted one. -/
theorem below_append_of_not_prefix {mounted : Text} (start rest : Text)
    (h : ¬ mounted <+: start) (hlength : mounted.length ≤ start.length) :
    below mounted (start ++ rest) = none :=
  below_of_not_prefix fun hprefix =>
    h (List.prefix_of_prefix_length_le hprefix (List.prefix_append start rest) hlength)

/-- Every call has a route to the handler of its name. -/
theorem trail_call (call : ApiCall N) (hid : ∀ id ∈ call.id, '/' ∉ id) :
    Checkin.authenticatedRoutes.trail call.method (call.path numberText) =
      some ([], some call.target) := by
  cases call with
  | completeCheckIn id =>
    have hpath : (ApiCall.completeCheckIn id).path numberText =
        "/checkins".toList ++ ['/'] ++ id ++ '/' :: "complete".toList := rfl
    rw [hpath, Checkin.authenticatedRoutes, Routes.trail, below_idPath]
    exact congrArg (fun out => some (out.getD ([], none))) (trail_complete (hid id rfl))
  | resolveAlert id =>
    have hpath : (ApiCall.resolveAlert id).path numberText =
        "/emergency".toList ++ ['/'] ++ id ++ '/' :: "resolve".toList := rfl
    have hskip : below "/checkins".toList ((ApiCall.resolveAlert id).path numberText) = none := by
      rw [hpath, List.append_assoc]
      exact below_append_of_not_prefix _ _ (by decide) (by decide)
    rw [Checkin.authenticatedRoutes, Routes.trail, hskip, Routes.trail, hpath, below_idPath]
    exact congrArg (fun out => some (out.getD ([], none))) (trail_resolve (hid id rfl))
  | castVote id data =>
    have hpath : (ApiCall.castVote id data).path numberText =
        "/dao/proposals/".toList ++ (id ++ '/' :: "votes".toList) := List.append_assoc ..
    have hstart : "/dao/proposals/".toList =
        "/dao".toList ++ '/' :: ("proposals".toList ++ ['/']) := by decide
    have hskip : ∀ mounted : Text, ¬ mounted <+: "/dao/proposals/".toList →
        mounted.length ≤ "/dao/proposals/".toList.length →
        below mounted ((ApiCall.castVote id data).path numberText) = none := by
      intro mounted hprefix hlength
      rw [hpath]
      exact below_append_of_not_prefix _ _ hprefix hlength
    have hdao : below "/dao".toList ((ApiCall.castVote id data).path numberText) =
        some ('/' :: ("proposals".toList ++ '/' :: (id ++ '/' :: "votes".toList))) := by
      rw [hpath, hstart, List.append_assoc, List.cons_append, List.append_assoc]
      exact below_append _ _
    have hproposals : below "/proposals".toList
        ('/' :: ("proposals".toList ++ '/' :: (id ++ '/' :: "votes".toList))) =
          some ('/' :: (id ++ '/' :: "votes".toList)) := below_append "/proposals".toList _
    rw [Checkin.authenticatedRoutes, Routes.trail, hskip _ (by decide) (by decide), Routes.trail,
      hskip _ (by decide) (by decide), Routes.trail, hskip _ (by decide) (by decide),
      Routes.trail, hdao]
    dsimp only
    rw [Routes.trail, hproposals]
    exact congrArg (fun out => some (out.getD ([], none))) (trail_votes (hid id rfl))
  | createCheckIn | listCheckIns | triggerAlert | submitReport | searchReports | createProposal
  | listProposals => rfl

end Routing

/-! ## At the server -/

section Server

variable {N : Type} (numberText : N → Text)
variable {jwtParse : (secret token : Text) → Option MapClaims} {cfg : Config}

/-- What `JWTAuth` makes of the token in the storage. -/
def signsIn (jwtParse : (secret token : Text) → Option MapClaims) (cfg : Config)
    (window : Window) : Except (ℕ × Text) MapClaims :=
  let token := (getToken window).getD []
  if token = [] then .error (401, Checkin.httpError "missing authorization header")
  else match jwtParse cfg.jwtSecret token with
    | none => .error (401, Checkin.httpError "invalid or expired token")
    | some claims => .ok claims

theorem authenticate_request (apiUrl : Text) (window : Window) (endpoint : Text)
    (options : Option RequestInit) {r : HttpRequest}
    (h : r.headers = (request apiUrl window endpoint options).headers) :
    Checkin.authenticate jwtParse cfg r = signsIn jwtParse cfg window := by
  rw [Checkin.authenticate, Request.header, h, request, signsIn]
  dsimp only
  by_cases htoken : (getToken window).getD [] = []
  · rw [if_pos htoken, if_pos htoken]
    rfl
  · have hsplit : ∀ token, Text.splitN ' ' 2 ("Bearer ".toList ++ token) =
        ["Bearer".toList, token] := fun token => Text.splitN_append (p := "Bearer".toList)
      (by decide) 0 token
    rw [if_neg htoken, if_neg htoken]
    have hheader : ((([("Content-Type".toList, "application/json".toList)] ++
        [("Authorization".toList, "Bearer ".toList ++ (getToken window).getD [])]).find?
          fun h => h.1 = "Authorization".toList).map Prod.snd).getD [] =
        "Bearer ".toList ++ (getToken window).getD [] := rfl
    rw [hheader, hsplit]
    rfl

/-- The route of the request is found behind `JWTAuth`. -/
theorem serve_setupRoutes {r : HttpRequest} {t : Text}
    {h : Handler GoValue GoValue Endpoint} (hmethod : r.method ∈ methods)
    (hpath : r.routePath = "/api/v1".toList ++ '/' :: t)
    (hauth : below "/auth".toList ('/' :: t) = none)
    (hfind : Checkin.authenticatedRoutes.find (Checkin.middleware jwtParse cfg) r.method
      ('/' :: t) = some h) :
    Checkin.setupRoutes.serve (Checkin.middleware jwtParse cfg) r =
      Checkin.jwtAuth jwtParse cfg h { r with routePath := '/' :: t } := by
  rw [Routes.serve, if_pos hmethod, Checkin.setupRoutes, Routes.find, hpath, below_append]
  dsimp only
  rw [Option.getD_some, Routes.find, hauth]
  dsimp only
  rw [Routes.find, hfind]
  rfl

theorem method_mem (call : ApiCall N) :
    call.method ∈ methods ∧ call.method ≠ "OPTIONS".toList := by
  have hmethods : ∀ method ∈ ["GET".toList, "POST".toList],
      method ∈ methods ∧ method ≠ "OPTIONS".toList := by decide
  cases call with
  | listCheckIns | searchReports | listProposals => exact hmethods _ List.mem_cons_self
  | createCheckIn | completeCheckIn | triggerAlert | resolveAlert | submitReport | createProposal
  | castVote => exact hmethods _ (List.mem_cons_of_mem _ List.mem_cons_self)

/-- No call goes to the routes that need no token. -/
theorem path_root (call : ApiCall N) :
    ∃ t, call.path numberText = '/' :: t ∧ below "/auth".toList ('/' :: t) = none := by
  cases call with
  | completeCheckIn id =>
    refine ⟨_, rfl, ?_⟩
    exact below_append_of_not_prefix "/checkins/".toList _ (by decide) (by decide)
  | resolveAlert id =>
    refine ⟨_, rfl, ?_⟩
    exact below_append_of_not_prefix "/emergency/".toList _ (by decide) (by decide)
  | castVote id data =>
    refine ⟨_, rfl, ?_⟩
    exact below_append_of_not_prefix "/dao/proposals/".toList _ (by decide) (by decide)
  | createCheckIn | listCheckIns | triggerAlert | submitReport | searchReports | createProposal
  | listProposals => exact ⟨_, rfl, by decide⟩

section Dispatch

variable {a : Arrival} {call : ApiCall N} {apiUrl : Text} {window : Window}

/-- The token is refused, or the request gets to the handler of the call's name. -/
theorem dispatched_fetched {F32 F64 : Type} (setup : Setup F32 F64)
    (hid : ∀ id ∈ call.id, '/' ∉ id) (hmethod : a.method = call.method)
    (hpath : a.path = "/api/v1".toList ++ call.path numberText)
    (hheaders : a.headers = (call.fetched numberText apiUrl window).headers) :
    (∀ e, signsIn a.jwtParse setup.cfg window = .error e →
      a.dispatched setup = .answered e.1 e.2) ∧
    ∀ claims, signsIn a.jwtParse setup.cfg window = .ok claims →
      (a.dispatched setup).arrival = some call.target := by
  obtain ⟨t, ht, hauth⟩ := path_root numberText call
  obtain ⟨hmem, hoptions⟩ := method_mem call
  rw [← hmethod] at hmem hoptions
  rw [ht] at hpath
  let r := Checkin.routed (newRequest a.method a.path a.headers a.query a.body)
  have hauthenticate : Checkin.authenticate a.jwtParse setup.cfg { r with routePath := '/' :: t } =
      signsIn a.jwtParse setup.cfg window :=
    authenticate_request apiUrl window (call.endpoint numberText) call.options hheaders
  have hleads := Gates.leads_find (Checkin.gates a.jwtParse setup.cfg)
    Checkin.authenticatedRoutes a.method ('/' :: t)
  rw [hmethod, ← ht, trail_call numberText call hid, ht, ← hmethod] at hleads
  cases hfind : Checkin.authenticatedRoutes.find (Checkin.middleware a.jwtParse setup.cfg)
      a.method ('/' :: t) with
  | none =>
    rw [hfind] at hleads
    exact hleads.elim
  | some h =>
    rw [hfind] at hleads
    have hserve := serve_setupRoutes (r := r) hmem hpath hauth hfind
    constructor
    · intro e hsigns
      rw [hsigns] at hauthenticate
      have hanswer : Checkin.setupRoutes.serve (Checkin.middleware a.jwtParse setup.cfg) r =
          .answered e.1 e.2 := hserve.trans (Checkin.jwtAuth_error _ _ hauthenticate)
      have hchain : a.dispatched setup = Checkin.recoverer (Checkin.corsMiddleware
        (Checkin.setupRoutes.serve (Checkin.middleware a.jwtParse setup.cfg))) r := rfl
      have hcors : ¬ r.method = "OPTIONS".toList := hoptions
      rw [hchain, Checkin.recoverer, Checkin.corsMiddleware, if_neg hcors, hanswer]
    · intro claims hsigns
      rw [hsigns] at hauthenticate
      refine (Checkin.arrival_serveHTTP a.jwtParse setup.cfg _ _ _).mpr ⟨hoptions, ?_⟩
      have hcall : (h { { r with routePath := '/' :: t } with
          context := Checkin.signIn claims r.context }).arrival = some call.target :=
        (hleads _ _ _).mpr ⟨trivial, _, rfl, rfl⟩
      exact (congrArg Dispatched.arrival
        (hserve.trans (Checkin.jwtAuth_ok _ _ hauthenticate))).trans hcall

variable {F32 F64 : Type} [OfNat F32 0] [OfNat F32 255] [Add F32] [Mul F32] [Div F32]
  [OfNat F64 0] [OfNat F64 2] [Add F64] [Sub F64] [Mul F64] [Div F64] [LT F64] [DecidableLT F64]

/-- What the server does for a call that the token signs in: the two lists are those of the
services, and the handlers behind the other calls find no identity. -/
def ApiCall.program (setup : Setup F32 F64) : ApiCall N → Server F32 HttpReply
  | .searchReports params => .ofOutcome [⟨500, some "failed to search reports"⟩] 200 <$>
      CheckinServer.callProgram setup (.searchReports (paramText numberText params "q".toList)
        (paramText numberText params "category".toList)
        (paramText numberText params "status".toList))
  | .listProposals => .ofOutcome [⟨500, some "failed to list proposals"⟩] 200 <$>
      CheckinServer.callProgram setup (.listProposals [])
  | _ => return .recovered

theorem program_of_arrival {setup : Setup F32 F64}
    (harrival : (a.dispatched setup).arrival = some call.target)
    (hquery : a.query = sent numberText call.params) :
    a.program setup = call.program numberText setup := by
  cases call with
  | searchReports params =>
    obtain ⟨r, recovers, hreached, -⟩ := Dispatched.arrival_eq_some.mp harrival
    have hparam : ∀ key, r.queryParam key = paramText numberText params key := by
      intro key
      rw [Request.queryParam, Arrival.query_reached hreached, hquery]
      exact getD_find?_sent numberText params key
    rw [Arrival.program, hreached]
    dsimp only
    rw [handle, Checkin.searchReports, hparam, hparam, hparam]
    rfl
  | listProposals =>
    obtain ⟨r, recovers, hreached, -⟩ := Dispatched.arrival_eq_some.mp harrival
    rw [Arrival.program, hreached]
    dsimp only
    rw [handle, Checkin.listProposals, Request.queryParam, Arrival.query_reached hreached, hquery]
    rfl
  | createCheckIn | completeCheckIn | listCheckIns | triggerAlert | resolveAlert | submitReport
  | createProposal | castVote => exact Arrival.program_identifies ⟨_, _, harrival, rfl⟩

/-- What becomes of a call with the token that the window stores. -/
structure Served (setup : Setup F32 F64) (window : Window) (call : ApiCall N) (a : Arrival) :
    Prop where
  body : a.body = (call.options.map RequestInit.body).getD []
  answered : ∀ e, signsIn a.jwtParse setup.cfg window = .error e →
    a.program setup = .done (.answered e.1 e.2)
  arrival : ∀ claims, signsIn a.jwtParse setup.cfg window = .ok claims →
    (a.dispatched setup).arrival = some call.target
  program : ∀ claims, signsIn a.jwtParse setup.cfg window = .ok claims →
    a.program setup = call.program numberText setup

end Dispatch

/-- A character of an identifier. -/
def idChar (c : Char) : Bool := c.isAlphanum || c = '-'

theorem pathChar_append_id {start id last : Text} (hstart : start.all pathChar)
    (hid : ∀ c ∈ id, idChar c) (hlast : last.all pathChar) :
    (start ++ id ++ last).all pathChar := by
  have hchars : id.all pathChar :=
    List.all_eq_true.mpr fun c hc => by
      have hchar := hid c hc
      simp only [idChar, pathChar, Bool.or_eq_true] at hchar ⊢
      exact .inl hchar
  rw [List.all_append, List.all_append, hstart, hchars, hlast]
  rfl

theorem pathChar_of_call {call : ApiCall N} (hid : ∀ id ∈ call.id, ∀ c ∈ id, idChar c) :
    (call.path numberText).all pathChar := by
  cases call with
  | completeCheckIn id => exact pathChar_append_id (by decide) (hid id rfl) (by decide)
  | resolveAlert id => exact pathChar_append_id (by decide) (hid id rfl) (by decide)
  | castVote id data => exact pathChar_append_id (by decide) (hid id rfl) (by decide)
  | createCheckIn | listCheckIns | triggerAlert | submitReport | searchReports | createProposal
  | listProposals => rfl

theorem plainHeader_of_call {window : Window} (apiUrl : Text) (call : ApiCall N)
    (htoken : ∀ token, getToken window = some token → token.all visible) :
    ∀ h ∈ (call.fetched numberText apiUrl window).headers, PlainHeader h.2 := by
  have hjson : PlainHeader "application/json".toList :=
    ⟨["application/json".toList], rfl, by decide⟩
  intro h hmem
  rw [ApiCall.fetched, request] at hmem
  dsimp only at hmem
  cases hget : getToken window with
  | none =>
    rw [hget, Option.getD_none, if_pos rfl, List.mem_singleton] at hmem
    exact hmem ▸ hjson
  | some token =>
    rw [hget, Option.getD_some] at hmem
    split at hmem
    · rw [List.mem_singleton] at hmem
      exact hmem ▸ hjson
    · rename_i hne
      rw [List.mem_append, List.mem_singleton, List.mem_singleton] at hmem
      rcases hmem with rfl | rfl
      · exact hjson
      · refine ⟨["Bearer".toList, token], by simp [List.intercalate, List.intersperse], ?_⟩
        intro word hword
        rw [List.mem_cons, List.mem_singleton] at hword
        rcases hword with rfl | rfl
        · decide
        · exact ⟨hne, htoken _ hget⟩

section Calls

variable {F32 F64 : Type} [OfNat F32 0] [OfNat F32 255] [Add F32] [Mul F32] [Div F32]
  [OfNat F64 0] [OfNat F64 2] [Add F64] [Sub F64] [Mul F64] [Div F64] [LT F64] [DecidableLT F64]

end Calls

section Witness

/-- The default of `NEXT_PUBLIC_API_URL`. -/
def localUrl : Text := "http://localhost:8080/api/v1".toList

/-- Requests to the local server arrive. -/
def localhost (r : FetchRequest) : Option Delivered :=
  (Text.stripPrefix localUrl r.url).map fun endpoint =>
    ⟨r.method, "/api/v1".toList ++ endpoint, r.headers, r.body⟩

theorem carries_localhost : Carries localhost localUrl where
  plain r endpoint hurl _ _ := by
    rw [localhost, hurl, Text.stripPrefix_append]
    rfl

def aliceWindow : Window := BrowserSession.storeToken "alice-token".toList (some fun _ => none)

end Witness

end Server

end SafetyDao.ApiClient
