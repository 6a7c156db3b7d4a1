import SafetyDao.JsonWebToken
import SafetyDao.RateLimiter

/-!
# The tokens of the gateway

`create_token` computes the expiry in 64 bits, from the number of hours that the configuration
admits. What `validate_token` reads is what was computed, wrapped around or not.
-/
namespace SafetyDao.GatewayTokens
open Json (Scalar escapeJs writeObject)
open JsonWebToken (Hmac encodeSegment nanosecondsPerSecond unix validateToken)

section Model

/-- The time since 1970 that `SystemTime::now` gives. -/
structure Duration where
  secs : UInt64
  nanos : Fin 1000000000

def Duration.instant (d : Duration) : ℕ := nanosecondsPerSecond * d.secs.toNat + d.nanos

/-- `a * b`. A build with overflow checks panics where the others wrap around. -/
def mulU64 (overflowChecks : Bool) (a b : UInt64) : Option UInt64 :=
  if overflowChecks ∧ 2 ^ 64 ≤ a.toNat * b.toNat then none else some (a * b)

/-- The header of the library. -/
def header : List (Text × Scalar) :=
  [("typ".toList, .string "JWT".toList), ("alg".toList, .string "HS256".toList)]

/-- The claims, in the order of the fields. -/
def members (claims : Claims) : List (Text × Scalar) :=
  [("sub".toList, .string claims.sub), ("exp".toList, .int claims.exp),
    ("role".toList, .string claims.role), ("iat".toList, .int claims.iat)]

/-- What is signed; serde escapes the characters that `JSON.stringify` does. -/
def message (claims : Claims) : Text :=
  encodeSegment (writeObject escapeJs header) ++
    '.' :: encodeSegment (writeObject escapeJs (members claims))

def encode (hmac : Hmac) (secret : Text) (claims : Claims) : Text :=
  message claims ++ '.' :: Base64.encodeUrl (hmac "HS256".toList secret (message claims))

/-- `exp`, where `usize` has 64 bits. -/
def expiry (overflowChecks : Bool) (now expiryHours : UInt64) : Option UInt64 := do
  let valid ← mulU64 overflowChecks expiryHours 3600
  addU64 overflowChecks now valid

/-- `create_token` at a reading of the clock; nothing is a panic. -/
def createToken (hmac : Hmac) (overflowChecks : Bool) (issued : Duration)
    (userID role secret : Text) (expiryHours : UInt64) : Option Text := do
  let exp ← expiry overflowChecks issued.secs expiryHours
  return encode hmac secret ⟨userID, exp.toNat, role, issued.secs.toNat⟩

/-- The token is created, and at that time the same secret validates it with the claims that it
was asked for. -/
def RoundTrips (hmac : Hmac) (overflowChecks : Bool) (issued : Duration)
    (userID role secret : Text) (expiryHours : UInt64) : Prop :=
  ∃ token claims,
    createToken hmac overflowChecks issued userID role secret expiryHours = some token ∧
    validateToken hmac issued.instant secret token = .ok claims ∧
    claims.sub = userID ∧ claims.role = role ∧
    claims.exp = claims.iat + 3600 * expiryHours.toNat ∧ claims.iat ≤ claims.exp

end Model

section Validation

theorem unix_instant (d : Duration) : unix d.instant = d.secs.toNat := by
  have hnanos : d.nanos.val < nanosecondsPerSecond := d.nanos.isLt
  rw [unix, Duration.instant, Nat.mul_add_div (by decide), Nat.div_eq_of_lt hnanos, Nat.add_zero]

theorem readClaims_members (claims : Claims) :
    JsonWebToken.readClaims (.object ((members claims).map fun m => (m.1, m.2.toJson))) =
      some claims := by
  have hexp : (Json.object ((members claims).map fun m => (m.1, m.2.toJson))).get? "exp".toList =
      some (.number ((claims.exp : ℤ) : ℚ)) := rfl
  have hiat : (Json.object ((members claims).map fun m => (m.1, m.2.toJson))).get? "iat".toList =
      some (.number ((claims.iat : ℤ) : ℚ)) := rfl
  rw [JsonWebToken.readClaims, hexp, hiat]
  simp only [Option.bind_some, JsonWebToken.usize_natCast]
  rfl

/-- Whatever the claims are, the library reads back what it has signed, and then judges the
expiry. -/
theorem validateToken_encode (hmac : Hmac) (now : ℕ) (secret : Text) (claims : Claims) :
    validateToken hmac now secret (encode hmac secret claims) =
      if claims.exp + 60 < unix now then .error "ExpiredSignature".toList else .ok claims := by
  have hheader : header ≠ [] := List.cons_ne_nil _ _
  have hmembers : members claims ≠ [] := List.cons_ne_nil _ _
  have hdecode := JsonWebToken.decode_segments Json.escapeJs_sound hheader hmembers
    (hmac "HS256".toList secret (message claims))
  exact JsonWebToken.validateToken_of_decode hmac secret now hdecode rfl rfl
    (readClaims_members claims)

end Validation

section Expiry

variable {overflowChecks : Bool} {now expiryHours : UInt64}

/-- Where it returns, the expiry is the right one up to a multiple of 2^64. -/
theorem toNat_expiry {exp : UInt64} (h : expiry overflowChecks now expiryHours = some exp) :
    exp.toNat = (now.toNat + 3600 * expiryHours.toNat) % 2 ^ 64 := by
  simp only [expiry, mulU64, addU64, Option.bind_eq_bind, Option.bind_eq_some_iff,
    Option.ite_none_left_eq_some, Option.some.injEq] at h
  obtain ⟨valid, ⟨-, rfl⟩, -, rfl⟩ := h
  have hhour : (3600 : UInt64).toNat = 3600 := rfl
  rw [UInt64.toNat_add, UInt64.toNat_mul, hhour, Nat.add_mod_mod, Nat.mul_comm]

theorem exists_expiry (hfits : now.toNat + 3600 * expiryHours.toNat < 2 ^ 64) :
    ∃ exp, expiry overflowChecks now expiryHours = some exp := by
  have hhour : (3600 : UInt64).toNat = 3600 := rfl
  have hmul : mulU64 overflowChecks expiryHours 3600 = some (expiryHours * 3600) :=
    if_neg (by rw [hhour]; omega)
  have hvalid : (expiryHours * 3600).toNat = 3600 * expiryHours.toNat := by
    rw [UInt64.toNat_mul, hhour, Nat.mul_comm, Nat.mod_eq_of_lt (by omega)]
  have hadd : addU64 overflowChecks now (expiryHours * 3600) =
      some (now + expiryHours * 3600) := if_neg (by rw [hvalid]; omega)
  exact ⟨_, by rw [expiry, hmul, Option.bind_eq_bind, Option.bind_some, hadd]⟩

end Expiry

section Creation

variable {hmac : Hmac} {overflowChecks : Bool} {issued : Duration} {userID role secret : Text}
  {expiryHours : UInt64}

/-- A token that is created is read at the time of issue with the expiry that was computed, or
refused if that has passed. -/
theorem validateToken_createToken {token : Text}
    (h : createToken hmac overflowChecks issued userID role secret expiryHours = some token) :
    validateToken hmac issued.instant secret token =
      let exp := (issued.secs.toNat + 3600 * expiryHours.toNat) % 2 ^ 64
      if exp + 60 < issued.secs.toNat then .error "ExpiredSignature".toList
      else .ok ⟨userID, exp, role, issued.secs.toNat⟩ := by
  obtain ⟨exp, hexp, htoken⟩ := Option.bind_eq_some_iff.mp h
  obtain rfl := Option.some.inj htoken
  rw [validateToken_encode, unix_instant, toNat_expiry hexp]

/-- In every build the token keeps what it was created from exactly if the expiry fits 64 bits. -/
theorem roundTrips_iff (hmac : Hmac) (overflowChecks : Bool) (issued : Duration)
    (userID role secret : Text) (expiryHours : UInt64) :
    RoundTrips hmac overflowChecks issued userID role secret expiryHours ↔
      issued.secs.toNat + 3600 * expiryHours.toNat < 2 ^ 64 := by
  constructor
  · rintro ⟨token, claims, hcreate, hvalid, -, -, hexp, -⟩
    rw [validateToken_createToken hcreate] at hvalid
    dsimp only at hvalid
    split at hvalid
    · cases hvalid
    · obtain rfl := Except.ok.inj hvalid
      have hwrapped : (issued.secs.toNat + 3600 * expiryHours.toNat) % 2 ^ 64 < 2 ^ 64 :=
        Nat.mod_lt _ (by decide)
      exact lt_of_eq_of_lt hexp.symm hwrapped
  · intro hfits
    obtain ⟨exp, hexp⟩ := exists_expiry hfits
    have hcreate : createToken hmac overflowChecks issued userID role secret expiryHours = _ :=
      Option.bind_eq_some_iff.mpr ⟨exp, hexp, rfl⟩
    have hvalid := validateToken_createToken hcreate
    dsimp only at hvalid
    rw [Nat.mod_eq_of_lt hfits, if_neg (by omega)] at hvalid
    exact ⟨_, _, hcreate, hvalid, rfl, rfl, rfl, Nat.le_add_right _ _⟩

end Creation

/-- New Year 2025. -/
def newYear : Duration := ⟨1735689600, 0⟩

/-- The largest number of hours wraps around to one hour before the issue, so that the token is
refused as soon as it is created. -/
theorem most_hours_expired :
    ¬ ∀ (hmac : Hmac) (overflowChecks : Bool) (issued : Duration) (userID role secret : Text)
      (expiryHours : UInt64),
      RoundTrips hmac overflowChecks issued userID role secret expiryHours := by
  intro h
  obtain ⟨token, claims, hcreate, hvalid, -⟩ := h (fun _ _ _ => []) false newYear
    "user123".toList "admin".toList "secret".toList 18446744073709551615
  have hrefused := validateToken_createToken hcreate
  have hexpired : (newYear.secs.toNat + 3600 * (18446744073709551615 : UInt64).toNat) % 2 ^ 64 +
      60 < newYear.secs.toNat := by decide +kernel
  dsimp only at hrefused
  rw [if_pos hexpired, hvalid] at hrefused
  cases hrefused

end SafetyDao.GatewayTokens
