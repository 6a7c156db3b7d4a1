import SafetyDao.JsonWebToken

/-!
# The two readers of a token at one instant

The gateway judges a token first and `JWTAuth` after it. They differ from the expiry to the
end of the minute that the gateway's library leaves to clocks that differ.
-/
namespace SafetyDao.TokenReaders
open JsonWebToken

variable (hmac : Hmac) (cfg : Config) (now : ℕ)

/-- The subject and the role that `validate_token` extracts, if it takes the token. -/
def gatewayIdentity (token : Text) : Option (Text × Text) :=
  match validateToken hmac now cfg.jwtSecret token with
  | .error _ => none
  | .ok claims => some (claims.sub, claims.role)

/-- Those that `JWTAuth` reads off a request, if it lets the request pass. -/
def serviceIdentity (r : HttpRequest) : Option (Text × Text) :=
  match Checkin.authenticate (parse hmac now) cfg r with
  | .error _ => none
  | .ok claims => some (GoValue.stringOrEmpty (claims "sub".toList),
      GoValue.stringOrEmpty (claims "role".toList))

/-- A request that carries a token. -/
def Bears (r : HttpRequest) (token : Text) : Prop :=
  r.header "Authorization".toList = "Bearer".toList ++ ' ' :: token

/-- The minute that only the gateway allows, with the second in which it ends. -/
def InLeeway (expiry now : ℕ) : Prop :=
  nanosecondsPerSecond * expiry ≤ now ∧ unix now ≤ expiry + 60

theorem unix_lt {instant second : ℕ} (h : instant < nanosecondsPerSecond * second) :
    unix instant < second :=
  Nat.div_lt_of_lt_mul h

theorem authenticate_of_bears {jwtParse : Text → Text → Option MapClaims} {r : HttpRequest}
    {token : Text} (h : Bears r token) : Checkin.authenticate jwtParse cfg r =
      match jwtParse cfg.jwtSecret token with
      | none => .error (401, Checkin.httpError "invalid or expired token")
      | some claims => .ok claims := by
  have hne : r.header "Authorization".toList ≠ [] := by
    rw [h]
    exact List.cons_ne_nil _ _
  have hspace : ' ' ∉ "Bearer".toList := by decide
  have hsplit : Text.splitN ' ' 2 (r.header "Authorization".toList) =
      ["Bearer".toList, token] := by
    rw [h, Text.splitN_append hspace]
    rfl
  have hscheme : (!Checkin.equalFold "Bearer".toList "bearer".toList) = false := rfl
  rw [Checkin.authenticate]
  cases hparse : jwtParse cfg.jwtSecret token with
  | none => simp only [hsplit, if_neg hne, hscheme, Bool.false_eq_true, if_false, hparse]
  | some claims => simp only [hsplit, if_neg hne, hscheme, Bool.false_eq_true, if_false, hparse]

section Issued

variable (userID role : Text) (issuedAt expiresFrom : ℕ)

theorem serviceIdentity_issued {r : HttpRequest}
    (h : Bears r (generateToken hmac cfg.jwtSecret userID role issuedAt expiresFrom)) :
    serviceIdentity hmac cfg now r =
      if now < nanosecondsPerSecond * expiry expiresFrom then some (userID, role) else none := by
  obtain ⟨-, -, hrole, hsub, -⟩ := get?_issuedClaims userID role issuedAt expiresFrom
  rw [serviceIdentity, authenticate_of_bears cfg h, parse_generateToken]
  by_cases hnow : now < nanosecondsPerSecond * expiry expiresFrom
  · rw [if_pos hnow, if_pos hnow]
    simp only [hrole, hsub, Option.map_some, goValue, GoValue.stringOrEmpty]
  · rw [if_neg hnow, if_neg hnow]

theorem gatewayIdentity_issued :
    gatewayIdentity hmac cfg now
        (generateToken hmac cfg.jwtSecret userID role issuedAt expiresFrom) =
      if expiry expiresFrom + 60 < unix now then none else some (userID, role) := by
  rw [gatewayIdentity, validateToken_generateToken]
  by_cases hlate : expiry expiresFrom + 60 < unix now
  · simp only [hlate, if_true]
  · simp only [hlate, if_false]

/-- The readers take the same tokens for the same identity except in the gateway's minute of
leeway, in which the gateway alone takes them; what the service takes, the gateway takes. -/
theorem same_identity_iff {r : HttpRequest}
    (h : Bears r (generateToken hmac cfg.jwtSecret userID role issuedAt expiresFrom)) :
    let atGateway := gatewayIdentity hmac cfg now
      (generateToken hmac cfg.jwtSecret userID role issuedAt expiresFrom)
    let atService := serviceIdentity hmac cfg now r
    (atGateway = atService ↔ ¬ InLeeway (expiry expiresFrom) now) ∧
      (InLeeway (expiry expiresFrom) now → atGateway = some (userID, role) ∧ atService = none) ∧
      ∀ identity, atService = some identity →
        identity = (userID, role) ∧ atGateway = some identity := by
  intro atGateway atService
  have hgateway : atGateway = _ :=
    gatewayIdentity_issued hmac cfg now userID role issuedAt expiresFrom
  have hservice : atService = _ :=
    serviceIdentity_issued hmac cfg now userID role issuedAt expiresFrom h
  rw [hgateway, hservice]
  by_cases hnow : now < nanosecondsPerSecond * expiry expiresFrom
  · have hsecond := unix_lt hnow
    have hlate : ¬ expiry expiresFrom + 60 < unix now := by omega
    have hout : ¬ InLeeway (expiry expiresFrom) now := fun hin => absurd hin.1 (not_le.mpr hnow)
    rw [if_pos hnow, if_neg hlate]
    refine ⟨iff_of_true rfl hout, fun hin => absurd hin hout, ?_⟩
    intro identity hidentity
    exact ⟨(Option.some.inj hidentity).symm, hidentity⟩
  · rw [if_neg hnow]
    by_cases hlate : expiry expiresFrom + 60 < unix now
    · have hout : ¬ InLeeway (expiry expiresFrom) now :=
        fun hin => absurd hin.2 (not_le.mpr hlate)
      rw [if_pos hlate]
      exact ⟨iff_of_true rfl hout, fun hin => absurd hin hout, fun _ hnone => nomatch hnone⟩
    · have hin : InLeeway (expiry expiresFrom) now := ⟨not_lt.mp hnow, not_lt.mp hlate⟩
      rw [if_neg hlate]
      refine ⟨iff_of_false (fun heq => nomatch heq) (not_not_intro hin), ?_, ?_⟩
      · exact fun _ => ⟨rfl, rfl⟩
      · exact fun _ hnone => nomatch hnone

end Issued

/-! ## A token half a minute after its expiry -/

/-- A hash that lists what it is given. -/
def listedHmac : Hmac := fun alg secret message => (alg ++ secret ++ message).utf8

def devCfg : Config := ⟨"dev-secret".toList⟩

def oldToken : Text := generateToken listedHmac devCfg.jwtSecret "alice".toList "user".toList 0 0

def listProposals : HttpRequest :=
  newRequest "GET".toList "/api/v1/dao/proposals".toList
    [("Authorization".toList, "Bearer".toList ++ ' ' :: oldToken)] [] []

/-- Half a minute after the day for which the token was issued. -/
def halfMinuteLate : ℕ := nanosecondsPerSecond * (24 * 3600 + 30)

theorem listProposals_bears : Bears listProposals oldToken := rfl

theorem halfMinuteLate_inLeeway : InLeeway (expiry 0) halfMinuteLate := by
  refine ⟨?_, ?_⟩ <;> decide +kernel

theorem same_identity_iff_half_minute_late :
    Bears listProposals oldToken ∧
      gatewayIdentity listedHmac devCfg halfMinuteLate oldToken =
        some ("alice".toList, "user".toList) ∧
      serviceIdentity listedHmac devCfg halfMinuteLate listProposals = none :=
  ⟨listProposals_bears, (same_identity_iff listedHmac devCfg halfMinuteLate "alice".toList
    "user".toList 0 0 listProposals_bears).2.1 halfMinuteLate_inLeeway⟩

/-- The gateway still takes the token that the service behind it refuses. -/
theorem expired_token_passes_gateway :
    Bears listProposals oldToken ∧
      gatewayIdentity listedHmac devCfg halfMinuteLate oldToken ≠
        serviceIdentity listedHmac devCfg halfMinuteLate listProposals := by
  refine ⟨listProposals_bears, ?_⟩
  have hgateway : gatewayIdentity listedHmac devCfg halfMinuteLate oldToken =
      some ("alice".toList, "user".toList) := by
    rw [oldToken, gatewayIdentity_issued]
    decide +kernel
  have hservice : serviceIdentity listedHmac devCfg halfMinuteLate listProposals = none := by
    rw [serviceIdentity_issued _ _ _ _ _ _ _ listProposals_bears]
    decide +kernel
  rw [hgateway, hservice]
  exact fun heq => nomatch heq

end SafetyDao.TokenReaders
