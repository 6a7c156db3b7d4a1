import Mathlib.Data.Bool.AllAny
import SafetyDao.Base64
import SafetyDao.FormUrlencoded

/-!
# The SMS of an emergency alert

`sendTwilioSMS` splices its strings into a body that it declares to be a form, without encoding
them. The declared decoding gives the strings back only if none of them has a sign that forms
treat specially; international phone numbers begin with one. Strings are the bytes of Go's.
-/
namespace SafetyDao.TwilioSms
open FormUrlencoded

/-- The bytes of a literal of the source. -/
def lit (s : String) : Bytes := Text.utf8 s.toList

structure Config where
  twilioAccountSID : Bytes
  twilioAuthToken : Bytes
  twilioFromNumber : Bytes

/-- What is read of an alert. -/
structure Alert where
  alertType : Bytes
  userID : Bytes

structure PostRequest where
  url : Bytes
  authorization : Bytes
  contentType : Bytes
  body : Bytes
deriving DecidableEq

def alertMessage (alert : Alert) : Bytes :=
  lit "🚨 EMERGENCY ALERT (" ++ alert.alertType ++ lit ") - User " ++ alert.userID ++
    lit " requires immediate assistance."

/-- `SetBasicAuth`. -/
def basicAuth (user password : Bytes) : Bytes :=
  lit "Basic " ++ Text.utf8 (Base64.encode (user ++ lit ":" ++ password))

/-- The request that `sendTwilioSMS` builds. -/
def newRequest (cfg : Config) (phone : Bytes) (alert : Alert) : PostRequest where
  url := lit "https://api.twilio.com/2010-04-01/Accounts/" ++ cfg.twilioAccountSID ++
    lit "/Messages.json"
  authorization := basicAuth cfg.twilioAccountSID cfg.twilioAuthToken
  contentType := lit "application/x-www-form-urlencoded"
  body := lit "To=" ++ phone ++ lit "&From=" ++ cfg.twilioFromNumber ++ lit "&Body=" ++
    alertMessage alert

/-- What it sends; a URL that does not parse is no request. -/
def sendTwilioSMS (urlParses : Bytes → Bool) (cfg : Config) (phone : Bytes) (alert : Alert) :
    Option PostRequest :=
  let request := newRequest cfg phone alert
  if urlParses request.url then some request else none

/-- The SMS of `dispatchNotifications`, for what `getUserPhone` answers. -/
def dispatchSMS (urlParses : Bytes → Bool) (cfg : Config) (phone : Except String Bytes)
    (alert : Alert) : Option PostRequest :=
  if cfg.twilioAccountSID ≠ [] ∧ cfg.twilioAuthToken ≠ [] ∧ cfg.twilioFromNumber ≠ [] then
    match phone with
    | .error _ => none
    | .ok phone => if phone ≠ [] then sendTwilioSMS urlParses cfg phone alert else none
  else none

/-- What decoding the body should give. -/
def intended (cfg : Config) (phone : Bytes) (alert : Alert) : List (Bytes × Bytes) :=
  [(lit "To", phone), (lit "From", cfg.twilioFromNumber), (lit "Body", alertMessage alert)]

section Message

/-- Signs of the message that no escape reaches over. -/
theorem hasEscape_sign {c : UInt8} (h : c ∈ [(0x28 : UInt8), 0x29, 0x20]) (x y : Bytes) :
    hasEscape (x ++ c :: y) = (hasEscape x || hasEscape y) := by
  have hsigns : ∀ c ∈ [(0x28 : UInt8), 0x29, 0x20], c ≠ 0x25 ∧ hexValue c = none :=
    List.all_iff_forall_prop.mp (by decide)
  exact hasEscape_append_cons (hsigns c h).1 (hsigns c h).2 x y

theorem alertMessage_eq (alert : Alert) :
    alertMessage alert = lit "🚨 EMERGENCY ALERT " ++ 0x28 :: (alert.alertType ++
      0x29 :: (lit " - User" ++ 0x20 :: (alert.userID ++
        0x20 :: lit "requires immediate assistance."))) := by
  have hopen : lit "🚨 EMERGENCY ALERT (" = lit "🚨 EMERGENCY ALERT " ++ [0x28] := by decide
  have hclose : lit ") - User " = 0x29 :: (lit " - User" ++ [0x20]) := by decide
  have hspace : lit " requires immediate assistance." =
      0x20 :: lit "requires immediate assistance." := by decide
  simp only [alertMessage, hopen, hclose, hspace, List.append_assoc, List.cons_append,
    List.nil_append]

/-- Of the message only the type and the user can have a sign of the form. -/
theorem verbatim_alertMessage (alert : Alert) :
    Verbatim (alertMessage alert) ↔ Verbatim alert.alertType ∧ Verbatim alert.userID := by
  have hfixed : ∀ x ∈ [lit "🚨 EMERGENCY ALERT ", lit " - User",
      lit "requires immediate assistance."], 0x26 ∉ x ∧ 0x2b ∉ x ∧ hasEscape x = false := by decide
  simp only [List.forall_mem_cons, List.not_mem_nil, false_implies, implies_true,
    and_true] at hfixed
  obtain ⟨⟨hamp₁, hplus₁, hesc₁⟩, ⟨hamp₂, hplus₂, hesc₂⟩, ⟨hamp₃, hplus₃, hesc₃⟩⟩ := hfixed
  have hescape : hasEscape (alertMessage alert) =
      (hasEscape alert.alertType || hasEscape alert.userID) := by
    rw [alertMessage_eq, hasEscape_sign (by decide), hasEscape_sign (by decide),
      hasEscape_sign (by decide), hasEscape_sign (by decide), hesc₁, hesc₂, hesc₃,
      Bool.false_or, Bool.false_or, Bool.or_false]
  have hmem : ∀ c ∉ [(0x28 : UInt8), 0x29, 0x20], c ∉ lit "🚨 EMERGENCY ALERT " →
      c ∉ lit " - User" → c ∉ lit "requires immediate assistance." →
      (c ∈ alertMessage alert ↔ c ∈ alert.alertType ∨ c ∈ alert.userID) := by
    intro c hc h₁ h₂ h₃
    simp only [List.mem_cons, List.not_mem_nil, or_false, not_or] at hc
    simp only [alertMessage_eq, List.mem_append, List.mem_cons, h₁, h₂, h₃, hc, false_or, or_false]
  have hamp := hmem 0x26 (by decide) hamp₁ hamp₂ hamp₃
  have hplus := hmem 0x2b (by decide) hplus₁ hplus₂ hplus₃
  constructor
  · rintro ⟨ha, hp, he⟩
    rw [hamp, not_or] at ha
    rw [hplus, not_or] at hp
    rw [hescape, Bool.or_eq_false_iff] at he
    exact ⟨⟨ha.1, hp.1, he.1⟩, ⟨ha.2, hp.2, he.2⟩⟩
  · rintro ⟨htype, huser⟩
    refine ⟨?_, ?_, ?_⟩
    · exact fun h => (hamp.mp h).elim htype.noAmpersand huser.noAmpersand
    · exact fun h => (hplus.mp h).elim htype.noPlus huser.noPlus
    · rw [hescape, htype.noEscape, huser.noEscape]
      rfl

end Message

/-- The body decodes to the three fields exactly if no string in it has an ampersand, a plus
or a percent sign before two hexadecimal digits. -/
theorem parse_body_iff (cfg : Config) (phone : Bytes) (alert : Alert) :
    parse (newRequest cfg phone alert).body = intended cfg phone alert ↔
      Verbatim phone ∧ Verbatim cfg.twilioFromNumber ∧
        Verbatim alert.alertType ∧ Verbatim alert.userID := by
  have hbody : (newRequest cfg phone alert).body = lit "To" ++ 0x3d :: (phone ++
      0x26 :: (lit "From" ++ 0x3d :: (cfg.twilioFromNumber ++
        0x26 :: (lit "Body" ++ 0x3d :: alertMessage alert)))) := by
    have hto : lit "To=" = lit "To" ++ [0x3d] := by decide
    have hfrom : lit "&From=" = 0x26 :: (lit "From" ++ [0x3d]) := by decide
    have hmsg : lit "&Body=" = 0x26 :: (lit "Body" ++ [0x3d]) := by decide
    simp only [newRequest, hto, hfrom, hmsg, List.append_assoc, List.cons_append, List.nil_append]
  have hnames : ∀ name ∈ [lit "To", lit "From", lit "Body"],
      0x3d ∉ name ∧ 0x26 ∉ name ∧ decode name = name := by decide
  simp only [List.forall_mem_cons, List.not_mem_nil, false_implies, implies_true,
    and_true] at hnames
  obtain ⟨⟨heq₁, hamp₁, hname₁⟩, ⟨heq₂, hamp₂, hname₂⟩, ⟨heq₃, hamp₃, hname₃⟩⟩ := hnames
  rw [hbody, intended, parse_field_append_iff heq₁ hamp₁ hname₁,
    parse_field_append_iff heq₂ hamp₂ hname₂, parse_field_iff heq₃ hamp₃ hname₃,
    verbatim_alertMessage]

def usCfg : Config := ⟨lit "AC0", lit "key", lit "+15550000000"⟩

def safetyAlert : Alert := ⟨lit "safety", lit "3f2504e0-4f89-41d3-9a0c-0305e82c3301"⟩

/-- An international number loses its plus to a space. -/
theorem international_number_changed :
    dispatchSMS (fun _ => true) usCfg (.ok (lit "+15551234567")) safetyAlert =
        some (newRequest usCfg (lit "+15551234567") safetyAlert) ∧
      parse (newRequest usCfg (lit "+15551234567") safetyAlert).body ≠
        intended usCfg (lit "+15551234567") safetyAlert := by
  refine ⟨rfl, fun h => ?_⟩
  have hto : (parse (newRequest usCfg (lit "+15551234567") safetyAlert).body).head? =
      some (lit "To", lit " 15551234567") := by decide
  rw [h] at hto
  revert hto
  decide

end SafetyDao.TwilioSms
