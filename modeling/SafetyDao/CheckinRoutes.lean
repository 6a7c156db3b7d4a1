import SafetyDao.Router

/-!
# The middleware and the routes of the Go service

Context keys and values are values behind an interface: two are equal only if
their dynamic types and their values are. `jwt.Parse` is a parameter.
-/
namespace SafetyDao

/-- A value behind an interface, by its dynamic type. Pointers are those of package
variables; `json` is any decoded JSON value that is no string. -/
inductive GoValue where
  | string (s : Text)
  | contextKey (s : Text)
  | pointer (type name : Text)
  | json (type : Text)
deriving DecidableEq

namespace GoValue

def typeName : GoValue → Text
  | .string _ => "string".toList
  | .contextKey _ => "middleware.contextKey".toList
  | .pointer type _ => '*' :: type
  | .json type => type

/-- `v.(string)`: the string, or the message of the panic. -/
def assertString : Option GoValue → Except Text Text
  | some (.string s) => .ok s
  | some v => .error ("interface conversion: interface \x7b\x7d is ".toList ++ v.typeName ++
      ", not string".toList)
  | none => .error "interface conversion: interface \x7b\x7d is nil, not string".toList

/-- `s, _ := v.(string)`. -/
def stringOrEmpty : Option GoValue → Text
  | some (.string s) => s
  | _ => []

end GoValue

abbrev HttpRequest : Type := Request GoValue GoValue

structure Config where
  jwtSecret : Text

/-- The claims of a token, by name. -/
abbrev MapClaims : Type := Text → Option GoValue

/-- The method and path, headers, query and body of a request, as the server hands it to
the router: with its own two keys in the context. -/
def newRequest (method path : Text) (headers query : List (Text × Text)) (body : Text) :
    HttpRequest where
  method := method
  headers := headers
  query := query
  body := body
  routePath := path
  urlParams := []
  context := ((⟨[]⟩ : Context GoValue GoValue).withValue
    (.pointer "http.contextKey".toList "ServerContextKey".toList)
    (.pointer "http.Server".toList "srv".toList)).withValue
    (.pointer "http.contextKey".toList "LocalAddrContextKey".toList)
    (.pointer "net.TCPAddr".toList "LocalAddr".toList)

namespace Checkin

inductive Endpoint where
  | register | login
  | createCheckIn | listCheckIns | getCheckIn | completeCheckIn
  | triggerAlert | listAlerts | resolveAlert
  | submitReport | searchReports | getReport | updateReportStatus
  | createProposal | listProposals | getProposal | castVote | getResults
deriving DecidableEq

inductive MiddlewareName where
  | realIP
  | recoverer
  | requestLogging
  | corsMiddleware
  | jwtAuth
  | roleAuth (roles : List Text)

def routeCtxKey : GoValue := .pointer "chi.contextKey".toList "RouteCtxKey".toList
def userIDKey : GoValue := .contextKey "user_id".toList
def roleKey : GoValue := .contextKey "role".toList

/-- The body that `http.Error` writes for an error as JSON. -/
def httpError (message : String) : Text :=
  "\x7b\"error\":\"".toList ++ message.toList ++ "\"\x7d\n".toList

def equalFold (s t : Text) : Bool := s.map Char.toLower = t.map Char.toLower

section Middleware

variable {E : Type} (jwtParse : (secret token : Text) → Option MapClaims) (cfg : Config)

/-- The claims of the request's token, or the answer to a request without a good one. -/
def authenticate (r : HttpRequest) : Except (ℕ × Text) MapClaims :=
  let authHeader := r.header "Authorization".toList
  if authHeader = [] then .error (401, httpError "missing authorization header")
  else match Text.splitN ' ' 2 authHeader with
    | [scheme, tokenString] =>
      if !equalFold scheme "bearer".toList then
        .error (401, httpError "invalid authorization format")
      else match jwtParse cfg.jwtSecret tokenString with
        | none => .error (401, httpError "invalid or expired token")
        | some claims => .ok claims
    | _ => .error (401, httpError "invalid authorization format")

def jwtAuth : Middleware GoValue GoValue E := fun next r =>
  match authenticate jwtParse cfg r with
  | .error (status, body) => .answered status body
  | .ok claims =>
    let userID := GoValue.stringOrEmpty (claims "sub".toList)
    let role := GoValue.stringOrEmpty (claims "role".toList)
    let ctx := r.context.withValue userIDKey (.string userID)
    next { r with context := ctx.withValue roleKey (.string role) }

def roleAuth (roles : List Text) : Middleware GoValue GoValue E := fun next r =>
  let role := GoValue.stringOrEmpty (r.context.value roleKey)
  if !roles.contains role then .answered 403 (httpError "insufficient permissions")
  else next r

def corsMiddleware : Middleware GoValue GoValue E := fun next r =>
  if r.method = "OPTIONS".toList then .answered 204 [] else next r

/-- chi's `middleware.Recoverer` answers a panic of the handler with an empty 500. Whether a
handler panics is told by the handler; here it is only noted that this middleware is passed. -/
def recoverer : Middleware GoValue GoValue E := fun next r =>
  match next r with
  | .reached e r' _ => .reached e r' true
  | .answered status body => .answered status body

/-- `realIP` and `requestLogging` change nothing but the remote address and the log. -/
def middleware : MiddlewareName → Middleware GoValue GoValue E
  | .realIP => fun next r => next r
  | .recoverer => recoverer
  | .requestLogging => fun next r => next r
  | .corsMiddleware => corsMiddleware
  | .jwtAuth => jwtAuth jwtParse cfg
  | .roleAuth roles => roleAuth roles

end Middleware

/-! ## The routes -/

abbrev RouteTable : Type := Routes MiddlewareName Endpoint

def root : Segment := .static []
def idParam : Segment := .param "id".toList

def get (segments : List Segment) (e : Endpoint) (rest : RouteTable) : RouteTable :=
  .handle "GET".toList segments e rest

def post (segments : List Segment) (e : Endpoint) (rest : RouteTable) : RouteTable :=
  .handle "POST".toList segments e rest

def patch (segments : List Segment) (e : Endpoint) (rest : RouteTable) : RouteTable :=
  .handle "PATCH".toList segments e rest

def authRoutes : RouteTable :=
  post [.static "register".toList] .register <|
  post [.static "login".toList] .login .nil

def checkinsRoutes : RouteTable :=
  post [root] .createCheckIn <|
  get [root] .listCheckIns <|
  get [idParam] .getCheckIn <|
  post [idParam, .static "complete".toList] .completeCheckIn .nil

def emergencyRoutes : RouteTable :=
  post [root] .triggerAlert <|
  get [root] .listAlerts <|
  post [idParam, .static "resolve".toList] .resolveAlert .nil

def reportsRoutes : RouteTable :=
  post [root] .submitReport <|
  get [root] .searchReports <|
  get [idParam] .getReport <|
  .group [.roleAuth ["moderator".toList, "admin".toList]]
    (patch [idParam, .static "status".toList] .updateReportStatus .nil) .nil

def proposalsRoutes : RouteTable :=
  post [root] .createProposal <|
  get [root] .listProposals <|
  get [idParam] .getProposal <|
  post [idParam, .static "votes".toList] .castVote <|
  get [idParam, .static "results".toList] .getResults .nil

/-- The routes behind `JWTAuth`. -/
def authenticatedRoutes : RouteTable :=
  .mount "/checkins".toList checkinsRoutes <|
  .mount "/emergency".toList emergencyRoutes <|
  .mount "/registry".toList (.mount "/reports".toList reportsRoutes .nil) <|
  .mount "/dao".toList (.mount "/proposals".toList proposalsRoutes .nil) .nil

def setupRoutes : RouteTable :=
  .mount "/api/v1".toList
    (.mount "/auth".toList authRoutes (.group [.jwtAuth] authenticatedRoutes .nil)) .nil

/-- The middleware of the router itself. -/
def routerUse : List MiddlewareName := [.realIP, .recoverer, .requestLogging, .corsMiddleware]

section Dispatch

variable (jwtParse : (secret token : Text) → Option MapClaims) (cfg : Config)

/-- The router stores its own context under a key of its own, then runs the middleware
and the routing. -/
def serveHTTP : Handler GoValue GoValue Endpoint := fun r =>
  let ctx := r.context.withValue routeCtxKey (.pointer "chi.Context".toList "rctx".toList)
  chain (routerUse.map (middleware jwtParse cfg)) (setupRoutes.serve (middleware jwtParse cfg))
    { r with context := ctx }

variable {jwtParse cfg}

/-- Every handler runs under `recoverer`, which answers 500 if it panics. -/
theorem reached_recovers {r r' : HttpRequest} {e : Endpoint} {recovers : Bool}
    (h : serveHTTP jwtParse cfg r = .reached e r' recovers) : recovers = true := by
  simp only [serveHTTP, routerUse, chain, List.map_cons, List.foldr_cons, middleware,
    recoverer] at h
  split at h
  · cases h
    rfl
  · cases h

end Dispatch

end Checkin

end SafetyDao
