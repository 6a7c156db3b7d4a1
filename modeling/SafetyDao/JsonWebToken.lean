import SafetyDao.Base64
import SafetyDao.CheckinRoutes
import SafetyDao.Gateway
import SafetyDao.Json

/-!
# The tokens of the Go service and their two readers

`generateToken` signs four claims; `jwt.Parse` of the Go service and `validate_token` of the
gateway split the same token, check its signature under the same secret, and judge its expiry
by clocks of their own. The keyed hash is a parameter. Instants are nanoseconds since 1970.
-/
namespace SafetyDao.JsonWebToken
open Json (Scalar escapeGo writeObject)

/-- The keyed hash of an algorithm, for a secret and a message. -/
abbrev Hmac : Type := (alg secret message : Text) → List UInt8

def nanosecondsPerSecond : ℕ := 10 ^ 9

/-- `Unix()`: whole seconds. -/
def unix (instant : ℕ) : ℕ := instant / nanosecondsPerSecond

section Signing

def encodeSegment (t : Text) : Text := Base64.encodeUrl t.utf8

def header : List (Text × Scalar) :=
  [("alg".toList, .string "HS256".toList), ("typ".toList, .string "JWT".toList)]

/-- Header and claims, each as JSON in base64. -/
def signingString (claims : List (Text × Scalar)) : Text :=
  encodeSegment (writeObject escapeGo header) ++
    '.' :: encodeSegment (writeObject escapeGo claims)

def signedString (hmac : Hmac) (secret : Text) (claims : List (Text × Scalar)) : Text :=
  signingString claims ++
    '.' :: Base64.encodeUrl (hmac "HS256".toList secret (signingString claims))

/-- The expiry of a token for which the clock was read at an instant: a day later. -/
def expiry (instant : ℕ) : ℕ := unix (instant + nanosecondsPerSecond * (24 * 3600))

/-- The claims, in the order of their names. -/
def claims (userID role : Text) (issuedAt expiresFrom : ℕ) : List (Text × Scalar) :=
  [("exp".toList, .int (expiry expiresFrom)), ("iat".toList, .int (unix issuedAt)),
    ("role".toList, .string role), ("sub".toList, .string userID)]

/-- `generateToken`, for two readings of the clock. -/
def generateToken (hmac : Hmac) (secret userID role : Text) (issuedAt expiresFrom : ℕ) : Text :=
  signedString hmac secret (claims userID role issuedAt expiresFrom)

end Signing

section Decoding

/-- A token taken apart; what is signed is its text up to the last dot. -/
structure Decoded where
  header : Json
  claims : Json
  message : Text
  signature : List UInt8

def decodeSegment (t : Text) : Option Json :=
  ((Base64.decodeUrl t).bind Text.ofUtf8).bind Json.parse

def decode (token : Text) : Option Decoded :=
  match token.splitOn '.' with
  | [header, claims, signature] => do
    let h ← decodeSegment header
    let c ← decodeSegment claims
    let s ← Base64.decodeUrl signature
    return ⟨h, c, header ++ '.' :: claims, s⟩
  | _ => none

theorem decodeSegment_encodeSegment {escape : Json.Escape} (hsound : escape.Sound)
    {members : List (Text × Scalar)} (h : members ≠ []) :
    decodeSegment (encodeSegment (writeObject escape members)) =
      some (.object (members.map fun m => (m.1, m.2.toJson))) := by
  rw [decodeSegment, encodeSegment, Base64.decodeUrl_encodeUrl, Option.bind_some,
    Text.ofUtf8_utf8, Option.bind_some, Json.parse_writeObject hsound h]

/-- Segments of base64 are told apart by the dots between them. -/
theorem splitOn_segments (first second third : List UInt8) :
    (Base64.encodeUrl first ++ '.' :: Base64.encodeUrl second ++
      '.' :: Base64.encodeUrl third).splitOn '.' =
        [Base64.encodeUrl first, Base64.encodeUrl second, Base64.encodeUrl third] := by
  rw [List.append_assoc, List.cons_append,
    List.splitOn_append_cons_self_of_not_mem (Base64.dot_not_mem_encodeUrl _),
    List.splitOn_append_cons_self_of_not_mem (Base64.dot_not_mem_encodeUrl _),
    List.splitOn_eq_singleton (Base64.dot_not_mem_encodeUrl _)]

theorem splitOn_signedString (hmac : Hmac) (secret : Text) (claims : List (Text × Scalar)) :
    (signedString hmac secret claims).splitOn '.' =
      [encodeSegment (writeObject escapeGo header), encodeSegment (writeObject escapeGo claims),
        Base64.encodeUrl (hmac "HS256".toList secret (signingString claims))] :=
  splitOn_segments _ _ _

/-- A header, claims and a signature are taken apart again, whatever escapes wrote them. -/
theorem decode_segments {escape : Json.Escape} (hsound : escape.Sound)
    {head members : List (Text × Scalar)} (hhead : head ≠ []) (hmembers : members ≠ [])
    (signature : List UInt8) :
    decode (encodeSegment (writeObject escape head) ++
        '.' :: encodeSegment (writeObject escape members) ++ '.' :: Base64.encodeUrl signature) =
      some ⟨.object (head.map fun m => (m.1, m.2.toJson)),
        .object (members.map fun m => (m.1, m.2.toJson)),
        encodeSegment (writeObject escape head) ++
          '.' :: encodeSegment (writeObject escape members), signature⟩ := by
  have hsplit : (encodeSegment (writeObject escape head) ++
      '.' :: encodeSegment (writeObject escape members) ++
        '.' :: Base64.encodeUrl signature).splitOn '.' =
      [encodeSegment (writeObject escape head), encodeSegment (writeObject escape members),
        Base64.encodeUrl signature] := splitOn_segments _ _ _
  rw [decode, hsplit]
  simp only [decodeSegment_encodeSegment hsound hhead, decodeSegment_encodeSegment hsound hmembers,
    Base64.decodeUrl_encodeUrl, Option.bind_eq_bind, Option.bind_some]
  rfl

/-- A signed token is taken apart into what it was made of. -/
theorem decode_signedString (hmac : Hmac) (secret : Text) {claims : List (Text × Scalar)}
    (h : claims ≠ []) : decode (signedString hmac secret claims) =
      some ⟨.object (header.map fun m => (m.1, m.2.toJson)),
        .object (claims.map fun m => (m.1, m.2.toJson)), signingString claims,
        hmac "HS256".toList secret (signingString claims)⟩ :=
  decode_segments Json.escapeGo_sound (List.cons_ne_nil _ _) h _

end Decoding

section Readers

variable (hmac : Hmac)

/-- A JSON value behind an interface. -/
def goValue : Json → GoValue
  | .string s => .string s
  | .number _ => .json "float64".toList
  | .bool _ => .json "bool".toList
  | .null => .json "nil".toList
  | .array _ => .json "[]interface \x7b\x7d".toList
  | .object _ => .json "map[string]interface \x7b\x7d".toList

/-- The second of a numeric date; zero is none. -/
def numericDate (claims : Json) (name : Text) : Except String (Option ℤ) :=
  match claims.get? name with
  | none => .ok none
  | some (.number q) =>
    if q = 0 then .ok none else .ok (some (if 0 ≤ q then q.floor else q.ceil))
  | some _ => .error "is invalid"

/-- Before the expiry, if there is one, and not before the time from which it holds. -/
def inTime (now : ℕ) (claims : Json) : Bool :=
  match numericDate claims "exp".toList, numericDate claims "nbf".toList with
  | .ok exp, .ok nbf =>
    exp.all (fun second => (now : ℤ) < nanosecondsPerSecond * second) &&
      nbf.all (fun second => nanosecondsPerSecond * second ≤ (now : ℤ))
  | _, _ => false

/-- `jwt.Parse` of golang-jwt v5.2.1 with the key function of `JWTAuth`, which takes any keyed
hash: the signature is checked under the algorithm of the header, then `exp` and `nbf` if they
are there, without leeway. -/
def parse (now : ℕ) (secret token : Text) : Option MapClaims :=
  match decode token with
  | none => none
  | some d =>
    match d.header.get? "alg".toList, d.claims with
    | some (.string alg), .object members =>
      if ["HS256", "HS384", "HS512"].all (·.toList ≠ alg) then none
      else if d.signature ≠ hmac alg secret d.message then none
      else if !inTime now d.claims then none
      else some fun name => ((Json.object members).get? name).map goValue
    | _, _ => none

/-- A JSON number that is a `usize`. -/
def usize : Json → Option ℕ
  | .number q => if q.den = 1 ∧ 0 ≤ q.num then some q.num.toNat else none
  | _ => none

def readClaims (claims : Json) : Option Claims := do
  let .string sub ← claims.get? "sub".toList | none
  let exp ← (claims.get? "exp".toList).bind usize
  let .string role ← claims.get? "role".toList | none
  let iat ← (claims.get? "iat".toList).bind usize
  return ⟨sub, exp, role, iat⟩

/-- `validate_token`. By default jsonwebtoken 9 takes HS256 only, needs an `exp` and allows for
clocks that differ by a minute, and does not look at `nbf`. -/
def validateToken (now : ℕ) (secret token : Text) : Except Text Claims :=
  match decode token with
  | none => .error "InvalidToken".toList
  | some d =>
    match d.header.get? "alg".toList with
    | some (.string alg) =>
      if alg ≠ "HS256".toList then .error "InvalidAlgorithm".toList
      else if d.signature ≠ hmac alg secret d.message then .error "InvalidSignature".toList
      else match readClaims d.claims with
        | none => .error "Json".toList
        | some claims =>
          if claims.exp + 60 < unix now then .error "ExpiredSignature".toList else .ok claims
    | _ => .error "InvalidAlgorithm".toList

variable (secret userID role : Text) (issuedAt expiresFrom now : ℕ)

/-- The claims as both services read them. -/
def issuedClaims : Json :=
  .object ((claims userID role issuedAt expiresFrom).map fun m => (m.1, m.2.toJson))

theorem get?_issuedClaims :
    let c := issuedClaims userID role issuedAt expiresFrom
    c.get? "exp".toList = some (.number ((expiry expiresFrom : ℤ) : ℚ)) ∧
      c.get? "iat".toList = some (.number ((unix issuedAt : ℤ) : ℚ)) ∧
      c.get? "role".toList = some (.string role) ∧ c.get? "sub".toList = some (.string userID) ∧
      c.get? "nbf".toList = none := ⟨rfl, rfl, rfl, rfl, rfl⟩

theorem expiry_eq (instant : ℕ) : expiry instant = unix instant + 24 * 3600 := by
  simp only [expiry, unix, nanosecondsPerSecond]
  omega

theorem lt_seconds (instant second : ℕ) :
    (instant : ℤ) < nanosecondsPerSecond * (second : ℤ) ↔
      instant < nanosecondsPerSecond * second := by
  rw [← Int.natCast_mul]
  exact Int.ofNat_lt

/-- A positive expiry and no time from which the token holds leave one comparison. -/
theorem inTime_of_exp {c : Json} {second : ℕ} (hpos : 0 < second)
    (hexp : c.get? "exp".toList = some (.number ((second : ℤ) : ℚ)))
    (hnbf : c.get? "nbf".toList = none) (now : ℕ) :
    inTime now c = decide (now < nanosecondsPerSecond * second) := by
  have hne : ((second : ℤ) : ℚ) ≠ 0 := by
    intro h
    have hint := Rat.intCast_inj.mp (h.trans Rat.intCast_zero.symm)
    omega
  have hfloor : (if (0 : ℚ) ≤ ((second : ℤ) : ℚ) then ((second : ℤ) : ℚ).floor
      else ((second : ℤ) : ℚ).ceil) = second := by
    rw [Rat.floor_intCast, Rat.ceil_intCast, ite_self]
  have hdate : numericDate c "exp".toList = .ok (some (second : ℤ)) := by
    rw [numericDate, hexp]
    dsimp only
    rw [if_neg hne, hfloor]
  have hnone : numericDate c "nbf".toList = .ok none := by rw [numericDate, hnbf]
  rw [inTime, hdate, hnone]
  simp only [Option.all_some, Option.all_none, Bool.and_true]
  exact decide_eq_decide.mpr (lt_seconds now second)

theorem inTime_issuedClaims :
    inTime now (issuedClaims userID role issuedAt expiresFrom) =
      decide (now < nanosecondsPerSecond * expiry expiresFrom) := by
  obtain ⟨hexp, -, -, -, hnbf⟩ := get?_issuedClaims userID role issuedAt expiresFrom
  have hpos : 0 < expiry expiresFrom := by
    rw [expiry_eq]
    omega
  exact inTime_of_exp hpos hexp hnbf now

/-- What an issued token is taken apart into. -/
theorem decode_generateToken :
    ∃ d, decode (generateToken hmac secret userID role issuedAt expiresFrom) = some d ∧
      d.header.get? "alg".toList = some (.string "HS256".toList) ∧
      d.claims = issuedClaims userID role issuedAt expiresFrom ∧
      d.signature = hmac "HS256".toList secret d.message := by
  have hclaims : claims userID role issuedAt expiresFrom ≠ [] := List.cons_ne_nil _ _
  exact ⟨_, decode_signedString hmac secret hclaims, rfl, rfl, rfl⟩

/-- The Go service takes a token until its expiry. -/
theorem parse_generateToken :
    parse hmac now secret (generateToken hmac secret userID role issuedAt expiresFrom) =
      if now < nanosecondsPerSecond * expiry expiresFrom then
        some fun name => ((issuedClaims userID role issuedAt expiresFrom).get? name).map goValue
      else none := by
  obtain ⟨d, hd, halg, hclaims, hsignature⟩ :=
    decode_generateToken hmac secret userID role issuedAt expiresFrom
  have hknown : ["HS256", "HS384", "HS512"].all (·.toList ≠ "HS256".toList) = false := by decide
  have htime := inTime_issuedClaims userID role issuedAt expiresFrom now
  rw [issuedClaims] at hclaims htime ⊢
  rw [parse, hd]
  simp only [halg, hclaims, hsignature, hknown, htime, Bool.false_eq_true, if_false, ne_eq,
    not_true_eq_false]
  by_cases hnow : now < nanosecondsPerSecond * expiry expiresFrom <;> simp [hnow]

theorem usize_natCast (n : ℕ) : usize (.number ((n : ℤ) : ℚ)) = some n := by
  simp [usize]

theorem readClaims_issuedClaims :
    readClaims (issuedClaims userID role issuedAt expiresFrom) =
      some ⟨userID, expiry expiresFrom, role, unix issuedAt⟩ := by
  obtain ⟨hexp, hiat, hrole, hsub, -⟩ := get?_issuedClaims userID role issuedAt expiresFrom
  rw [readClaims, hexp, hiat, hrole, hsub]
  simp only [Option.bind_some, usize_natCast]
  rfl

/-- Of a signed token with readable claims only the expiry is judged. -/
theorem validateToken_of_decode {token : Text} {d : Decoded} {claims : Claims}
    (hd : decode token = some d) (halg : d.header.get? "alg".toList = some (.string "HS256".toList))
    (hsignature : d.signature = hmac "HS256".toList secret d.message)
    (hread : readClaims d.claims = some claims) : validateToken hmac now secret token =
      if claims.exp + 60 < unix now then .error "ExpiredSignature".toList else .ok claims := by
  rw [validateToken, hd]
  simp only [halg, hsignature, hread, ne_eq, not_true_eq_false, if_false]

/-- The gateway takes it for another minute, to the end of that second. -/
theorem validateToken_generateToken :
    validateToken hmac now secret (generateToken hmac secret userID role issuedAt expiresFrom) =
      if expiry expiresFrom + 60 < unix now then .error "ExpiredSignature".toList
      else .ok ⟨userID, expiry expiresFrom, role, unix issuedAt⟩ := by
  obtain ⟨d, hd, halg, hclaims, hsignature⟩ :=
    decode_generateToken hmac secret userID role issuedAt expiresFrom
  have hread := readClaims_issuedClaims userID role issuedAt expiresFrom
  rw [← hclaims] at hread
  exact validateToken_of_decode hmac secret now hd halg hsignature hread

end Readers

end SafetyDao.JsonWebToken
