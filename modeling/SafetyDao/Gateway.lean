import SafetyDao.RateLimiter
import SafetyDao.Text

/-!
# The gateway's request handling

`ProxyConfig::route`, `request_filter` and `upstream_request_filter` of the proxy.
Token validation and URI parsing come from libraries and are parameters.
-/
namespace SafetyDao

/-- The bytes of a header value. -/
abbrev HeaderValue : Type := List UInt8

namespace HeaderValue

/-- `to_str()`: the value as a text, if it is visible ASCII, blanks and tabs. -/
def toStr (v : HeaderValue) : Option Text :=
  if v.all (fun b => (32 ≤ b.toNat && b.toNat < 127) || b.toNat = 9) then
    some (v.map (fun b => Char.ofNat b.toNat))
  else none

/-- `HeaderValue::from_str`: any bytes but control characters. -/
def fromStr (t : Text) : Option HeaderValue :=
  let bytes := t.flatMap String.utf8EncodeChar
  if bytes.all (fun b => (32 ≤ b.toNat && b.toNat ≠ 127) || b.toNat = 9) then some bytes else none

end HeaderValue

/-- Headers in the order they came in, by name in lower case. -/
abbrev HeaderMap : Type := List (Text × HeaderValue)

namespace HeaderMap

/-- The first value of a header. -/
def get (headers : HeaderMap) (name : Text) : Option HeaderValue :=
  (headers.find? (fun h => h.1 = name)).map Prod.snd

/-- All values of a header. -/
def values (headers : HeaderMap) (name : Text) : List HeaderValue :=
  (headers.filter (fun h => h.1 = name)).map Prod.snd

/-- Replace all values of a header by one. -/
def insert (headers : HeaderMap) (name : Text) (v : HeaderValue) : HeaderMap :=
  headers.filter (fun h => h.1 ≠ name) ++ [(name, v)]

theorem values_insert (headers : HeaderMap) (name other : Text) (v : HeaderValue) :
    (headers.insert name v).values other = if other = name then [v] else headers.values other := by
  by_cases h : other = name
  · subst h
    simp [values, insert, List.filter_append, List.filter_filter]
  · have hkeep : ∀ x : Text × HeaderValue,
        (decide (x.1 = other) && decide (x.1 ≠ name)) = decide (x.1 = other) := by
      intro x
      by_cases hx : x.1 = other <;> simp [hx, h]
    simp only [values, insert, List.filter_append, List.filter_filter, hkeep, if_neg h]
    simp [Ne.symm h]

end HeaderMap

structure ProxyConfig where
  attestationUpstream : Text
  checkinUpstream : Text
  analyticsUpstream : Text

/-- The upstream for a path, and the path without the version. -/
def ProxyConfig.route (config : ProxyConfig) (path : Text) : Text × Option Text :=
  if path = "/health".toList then ([], none)
  else match Text.stripPrefix "/api/v1".toList path with
    | none => (config.checkinUpstream, none)
    | some rest =>
      if "/attestations".toList <+: rest then (config.attestationUpstream, some rest)
      else if "/checkins".toList <+: rest ∨ "/emergency".toList <+: rest ∨ "/dao".toList <+: rest ∨
          "/registry".toList <+: rest then (config.checkinUpstream, some rest)
      else if "/analytics".toList <+: rest then (config.analyticsUpstream, some rest)
      else (config.checkinUpstream, none)

structure Claims where
  sub : Text
  exp : ℕ
  role : Text
  iat : ℕ
deriving DecidableEq

/-- How the filter leaves a request: answered by the gateway itself, let go on to
the upstream with the given headers, or lost in a panic. -/
inductive Filtered where
  | answered (status : ℕ) (body : Text)
  | passed (headers : HeaderMap)
  | panicked
deriving DecidableEq

namespace GatewayProxy

variable (validateToken : Text → Except Text Claims)

/-- The check of the Authorization header, with the identity headers it adds. -/
def authorize (headers : HeaderMap) : Filtered :=
  match (headers.get "authorization".toList).bind HeaderValue.toStr with
  | none => .answered 401 "missing authorization header".toList
  | some headerValue =>
    match Text.stripPrefix "Bearer ".toList headerValue with
    | none => .answered 401 "invalid authorization scheme".toList
    | some token =>
      match validateToken token with
      | .error _ => .answered 401 "unauthorized".toList
      | .ok claims =>
        match HeaderValue.fromStr claims.sub with
        | none => .panicked
        | some sub =>
          match HeaderValue.fromStr claims.role with
          | none => .panicked
          | some role =>
            .passed ((headers.insert "x-user-id".toList sub).insert "x-user-role".toList role)

/-- The key of the client: what X-Forwarded-For says, or "unknown". -/
def clientIP (headers : HeaderMap) : Text :=
  ((headers.get "x-forwarded-for".toList).bind HeaderValue.toStr).getD "unknown".toList

section Filter

variable {K : Type} [Field K] [LinearOrder K] [IsStrictOrderedRing K]

def requestFilter (rateLimiter : RateLimiter K) (now : K) (path : Text) (headers : HeaderMap) :
    RateLimiter K × Filtered :=
  if path = "/health".toList then (rateLimiter, .answered 200 "OK".toList)
  else
    let out := rateLimiter.checkRateLimit (String.ofList (clientIP headers)) now
    if !out.2 then (out.1, .answered 429 "rate limit exceeded".toList)
    else if ¬ "/api/v1/auth".toList <+: path ∧ ¬ "/health".toList <+: path then
      (out.1, authorize validateToken headers)
    else (out.1, .passed headers)

end Filter

/-- The headers the upstream gets: those of the session, and an identifier of the request. -/
def upstreamHeaders (requestID : HeaderValue) (headers : HeaderMap) : HeaderMap :=
  headers.insert "x-request-id".toList requestID

/-- The path the upstream gets: without the version, if it parses as a URI. -/
def upstreamRequestFilter (parseUri : Text → Option Text) (path : Text) : Option Text :=
  match Text.stripPrefix "/api/v1".toList path with
  | none => some path
  | some stripped => parseUri stripped

end GatewayProxy

end SafetyDao
