import Mathlib.Data.Bool.AllAny
import SafetyDao.JsonWebToken
import SafetyDao.UserStore

/-!
# The session of a browser

`auth.ts` keeps the token in the storage of the window and decodes its payload with `atob`,
which knows the standard alphabet of base64 only. No issued token needs another: its claims are
ASCII, and none of their characters ends in the six bits that the alphabets write differently.
-/
namespace SafetyDao.BrowserSession
open Json (Scalar escapeGo writeObject)
open JsonWebToken (Hmac generateToken claims issuedClaims expiry encodeSegment
  nanosecondsPerSecond)

section Model

/-- The storage of the window; on the server there is no window. -/
abbrev Window : Type := Option (Text → Option Text)

def tokenKey : Text := "sws_auth_token".toList

def storeToken (token : Text) : Window → Window
  | none => none
  | some storage => some (Function.update storage tokenKey (some token))

def getToken : Window → Option Text
  | none => none
  | some storage => storage tokenKey

/-- The bytes of a base64 text as characters, or an exception. -/
def atob (t : Text) : Option Text := (Base64.forgivingDecode t).map Text.latin1

/-- `token.split(".")[1]`, as the argument of `atob`. -/
def payloadSegment (token : Text) : Text := (token.splitOn '.')[1]?.getD "undefined".toList

/-- `JSON.parse(atob(token.split(".")[1]))`. -/
def payload (token : Text) : Option Json := (atob (payloadSegment token)).bind Json.parse

/-- `exp * 1000 > now`. How a value that is no number compares is a parameter. -/
def isAfter (other : Json → ℕ → Bool) (now : ℕ) : Json → Bool
  | .number q => (now : ℚ) < q * 1000
  | exp => other exp now

/-- `isAuthenticated` at a reading of `Date.now()`. -/
def isAuthenticated (other : Json → ℕ → Bool) (now : ℕ) (window : Window) : Bool :=
  match getToken window with
  | none => false
  | some token =>
    if token = [] then false
    -- no payload: an exception; no `exp`: a comparison with NaN, or an exception on null
    else match (payload token).bind (Json.get? "exp".toList) with
      | none => false
      | some exp => isAfter other now exp

end Model

section Characters

/-- An ASCII character whose low six bits the alphabets of base64 write alike. -/
def Plain (c : Char) : Prop := c.toNat < 128 ∧ c.toNat % 64 < 62

instance (c : Char) : Decidable (Plain c) := inferInstanceAs (Decidable (_ ∧ _))

/-- Hexadecimal digits of either case in five groups. -/
def IsUuid (t : Text) : Prop :=
  (t.splitOn '-').map List.length = [8, 4, 4, 4, 12] ∧
    ∀ c ∈ t, c = '-' ∨ (Hex.value c).isSome

instance (t : Text) : Decidable (IsUuid t) :=
  decidable_of_iff ((t.splitOn '-').map List.length = [8, 4, 4, 4, 12] ∧
    t.all fun c => decide (c = '-' ∨ (Hex.value c).isSome))
    (and_congr_right' List.all_iff_forall_prop)

theorem toNat_of_hex {c : Char} (h : (Hex.value c).isSome) :
    48 ≤ c.toNat ∧ c.toNat ≤ 57 ∨ 97 ≤ c.toNat ∧ c.toNat ≤ 102 ∨
      65 ≤ c.toNat ∧ c.toNat ≤ 70 := by
  unfold Hex.value at h
  dsimp only at h
  split_ifs at h with h1 h2 h3
  · exact .inl h1
  · exact .inr (.inl h2)
  · exact .inr (.inr h3)
  · cases h

/-- Letters and digits stand for themselves in JSON. -/
theorem escapeGo_eq {c : Char} (hlow : 32 ≤ c.toNat) (hhigh : c.toNat < 128)
    (h : c ∉ ['"', '\\', '<', '>', '&']) : escapeGo c = [c] := by
  simp only [List.mem_cons, List.not_mem_nil, or_false, not_or] at h
  obtain ⟨hquote, hbackslash, hlt, hgt, hamp⟩ := h
  have hcontrol : ∀ d : Char, d.toNat < 32 → c ≠ d := by
    rintro d hd rfl
    omega
  have hjs : Json.escapeJs c = [c] := by
    rw [Json.escapeJs, if_neg hquote, if_neg hbackslash, if_neg (hcontrol _ (by decide)),
      if_neg (hcontrol _ (by decide)), if_neg (hcontrol _ (by decide)),
      if_neg (hcontrol _ (by decide)), if_neg (hcontrol _ (by decide)), if_neg (by omega)]
  rw [Json.escapeGo, if_neg (by simp [hlt, hgt, hamp]), if_neg (by omega), if_neg (by omega), hjs]

theorem plain_of_isUuid {t : Text} (h : IsUuid t) : ∀ c ∈ t.flatMap escapeGo, Plain c := by
  intro c hc
  obtain ⟨d, hd, hcd⟩ := List.mem_flatMap.mp hc
  rcases h.2 d hd with rfl | hhex
  · have hminus : ∀ c ∈ escapeGo '-', Plain c := List.all_iff_forall_prop.mp (by decide)
    exact hminus c hcd
  · have hrange := toNat_of_hex hhex
    have hspecial : ∀ e ∈ ['"', '\\', '<', '>', '&'], Hex.value e = none :=
      List.all_iff_forall_prop.mp (by decide)
    have hmem : d ∉ ['"', '\\', '<', '>', '&'] := by
      intro hmem
      rw [hspecial d hmem] at hhex
      cases hhex
    rw [escapeGo_eq (by omega) (by omega) hmem, List.mem_singleton] at hcd
    subst hcd
    exact ⟨by omega, by omega⟩

theorem plain_of_mem_userRoles {role : Text} (h : role ∈ userRoles) :
    ∀ c ∈ role.flatMap escapeGo, Plain c := by
  have hall : ∀ role ∈ userRoles, (role.flatMap escapeGo).all (fun c => decide (Plain c)) := by
    decide
  exact List.all_iff_forall_prop.mp (hall role h)

theorem plain_of_isDigit {c : Char} (h : c.isDigit) : Plain c := by
  have hval : 48 ≤ c.val ∧ c.val ≤ 57 := by simpa [Char.isDigit] using h
  have hlow : 48 ≤ c.toNat := UInt32.le_iff_toNat_le.mp hval.1
  have hhigh : c.toNat ≤ 57 := UInt32.le_iff_toNat_le.mp hval.2
  exact ⟨by omega, by omega⟩

end Characters

section Issued

def nanosecondsPerMillisecond : ℕ := 10 ^ 6

variable {userID role : Text} (hid : IsUuid userID) (hrole : role ∈ userRoles)
include hid hrole

/-- The claims of an issued token, in JSON, are plain. -/
theorem plain_claims (issuedAt expiresFrom : ℕ) :
    ∀ c ∈ writeObject escapeGo (claims userID role issuedAt expiresFrom), Plain c := by
  have hsign : ∀ c ∈ ['\x7b', '\x7d', '"', ':', ',', '-'], Plain c :=
    List.all_iff_forall_prop.mp (by decide)
  have hnames : ∀ name ∈ ["exp".toList, "iat".toList, "role".toList, "sub".toList],
      (name.flatMap escapeGo).all fun c => decide (Plain c) := by decide
  refine Json.forall_mem_writeObject hsign (fun c hc => plain_of_isDigit hc) ?_ ?_
  · intro m hm
    have hmem : m.1 ∈ (claims userID role issuedAt expiresFrom).map Prod.fst :=
      List.mem_map_of_mem hm
    exact List.all_iff_forall_prop.mp (hnames m.1 hmem)
  · intro m hm s hs
    simp only [claims, List.mem_cons, List.not_mem_nil, or_false] at hm
    rcases hm with rfl | rfl | rfl | rfl
    · cases hs
    · cases hs
    · cases hs
      exact plain_of_mem_userRoles hrole
    · cases hs
      exact plain_of_isUuid hid

/-- `atob` takes the payload of an issued token, and gives its claims. -/
theorem atob_payloadSegment (hmac : Hmac) (secret : Text) (issuedAt expiresFrom : ℕ) :
    atob (payloadSegment (generateToken hmac secret userID role issuedAt expiresFrom)) =
      some (writeObject escapeGo (claims userID role issuedAt expiresFrom)) := by
  have hplain := plain_claims hid hrole issuedAt expiresFrom
  have hascii : ∀ c ∈ writeObject escapeGo (claims userID role issuedAt expiresFrom),
      c.toNat < 128 := fun c hc => (hplain c hc).1
  have hsegment : payloadSegment (generateToken hmac secret userID role issuedAt expiresFrom) =
      encodeSegment (writeObject escapeGo (claims userID role issuedAt expiresFrom)) := by
    rw [payloadSegment, generateToken, JsonWebToken.splitOn_signedString]
    rfl
  have hbytes : ∀ b ∈ Text.utf8 (writeObject escapeGo (claims userID role issuedAt expiresFrom)),
      b.toNat < 128 ∧ b.toNat % 64 < 62 := by
    rw [Text.utf8_of_ascii hascii]
    intro b hb
    obtain ⟨c, hc, rfl⟩ := List.mem_map.mp hb
    have hlt := hascii c hc
    rw [UInt8.toNat_ofNat_of_lt' (show c.toNat < 256 by omega)]
    exact hplain c hc
  rw [hsegment, encodeSegment, atob, Base64.forgivingDecode_encodeUrl (Base64.sextets_lt hbytes),
    Option.map_some, Text.latin1_utf8 hascii]

theorem payload_generateToken (hmac : Hmac) (secret : Text) (issuedAt expiresFrom : ℕ) :
    payload (generateToken hmac secret userID role issuedAt expiresFrom) =
      some (issuedClaims userID role issuedAt expiresFrom) := by
  have hclaims : claims userID role issuedAt expiresFrom ≠ [] := List.cons_ne_nil _ _
  rw [payload, atob_payloadSegment hid hrole, Option.bind_some,
    Json.parse_writeObject Json.escapeGo_sound hclaims, issuedClaims]

theorem isAuthenticated_storeToken (hmac : Hmac) (secret : Text) (issuedAt expiresFrom : ℕ)
    (other : Json → ℕ → Bool) (now : ℕ) (storage : Text → Option Text) :
    isAuthenticated other now
        (storeToken (generateToken hmac secret userID role issuedAt expiresFrom) (some storage)) =
      decide (now < 1000 * expiry expiresFrom) := by
  have hget : ∀ token, getToken (storeToken token (some storage)) = some token := by
    intro token
    rw [storeToken, getToken, Function.update_self]
  have hne : generateToken hmac secret userID role issuedAt expiresFrom ≠ [] :=
    List.append_ne_nil_of_right_ne_nil _ (List.cons_ne_nil _ _)
  obtain ⟨hexp, -⟩ := JsonWebToken.get?_issuedClaims userID role issuedAt expiresFrom
  have hlt : (now : ℚ) < ((expiry expiresFrom : ℤ) : ℚ) * 1000 ↔
      now < 1000 * expiry expiresFrom := by
    rw [mul_comm]
    exact_mod_cast Iff.rfl
  rw [isAuthenticated, hget]
  simp only [if_neg hne, payload_generateToken hid hrole, Option.bind_some, hexp, isAfter]
  exact decide_eq_decide.mpr hlt

/-- The browser and the service hold a stored token to be valid at the same readings of the
clock: those before its expiry. -/
theorem isAuthenticated_iff (hmac : Hmac) (secret : Text) (issuedAt expiresFrom : ℕ)
    (other : Json → ℕ → Bool) (now : ℕ) (storage : Text → Option Text) :
    let token := generateToken hmac secret userID role issuedAt expiresFrom
    (atob (payloadSegment token)).isSome ∧
      (isAuthenticated other now (storeToken token (some storage)) = true ↔
        now < 1000 * expiry expiresFrom) ∧
      (isAuthenticated other now (storeToken token (some storage)) = true ↔
        (JsonWebToken.parse hmac (nanosecondsPerMillisecond * now) secret token).isSome) := by
  intro token
  have hparse : (JsonWebToken.parse hmac (nanosecondsPerMillisecond * now) secret token).isSome ↔
      now < 1000 * expiry expiresFrom := by
    have hunits : nanosecondsPerMillisecond * now < nanosecondsPerSecond * expiry expiresFrom ↔
        now < 1000 * expiry expiresFrom := by
      simp only [nanosecondsPerMillisecond, nanosecondsPerSecond]
      omega
    rw [JsonWebToken.parse_generateToken, ← hunits]
    split
    · exact iff_of_true rfl ‹_›
    · exact iff_of_false Bool.false_ne_true ‹_›
  have hbrowser : isAuthenticated other now (storeToken token (some storage)) = true ↔
      now < 1000 * expiry expiresFrom := by
    rw [isAuthenticated_storeToken hid hrole, decide_eq_true_iff]
  refine ⟨?_, hbrowser, hbrowser.trans hparse.symm⟩
  rw [atob_payloadSegment hid hrole]
  rfl

end Issued

def moderatorID : Text := "3f2504e0-4f89-41d3-9a0c-0305e82c3301".toList

theorem isAuthenticated_iff_moderator :
    IsUuid moderatorID ∧ "moderator".toList ∈ userRoles ∧
      (isAuthenticated (fun _ _ => false) 86399999 (storeToken
        (generateToken (fun _ _ message => message.utf8) "dev-secret".toList moderatorID
          "moderator".toList 0 0) (some fun _ => none)) = true ↔ 86399999 < 1000 * expiry 0) := by
  have hid : IsUuid moderatorID := by decide
  have hrole : "moderator".toList ∈ userRoles := by decide
  exact ⟨hid, hrole, (isAuthenticated_iff hid hrole (fun _ _ message => message.utf8)
    "dev-secret".toList 0 0 (fun _ _ => false) 86399999 fun _ => none).2.1⟩

end SafetyDao.BrowserSession
