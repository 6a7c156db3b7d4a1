import SafetyDao.AuthRuns
import SafetyDao.SafetyLifecycle
import SafetyDao.TwilioSms

/-!
# Notifications of emergency alerts

`TriggerAlert` starts a goroutine for each alert that it has stored. The goroutine reads the
phone of the user and posts to Twilio and to the webhook, beside the calls of the services and
beside registrations, which write phones. Goroutines are threads by number; the `n`-th begins
with the `n`-th alert that `go` was given. A post is recorded when it is handed to the client;
how the exchange goes is only logged.
-/
namespace SafetyDao.Notifications
open Checkin (ErrorReply)
open JsonWebToken (Hmac)
open TwilioSms (PostRequest lit)

inductive Message where
  | sms (request : PostRequest)
  | webhook (url contentType body : Bytes)
deriving DecidableEq

inductive Op where
  | safety (op : SafetyOp)
  | users (op : UserOp)
  | go (alert : EmergencyAlert)
  | goroutine (n : ℕ)
  | selectPhone (userID : UUID)
  | post (message : Message)

abbrev Op.Res : Op → Type
  | .safety op => op.Res
  | .users op => op.Res
  | .go _ => Unit
  | .goroutine _ => Option EmergencyAlert
  | .selectPhone _ => Except String String
  | .post _ => Unit

abbrev Notifying (α : Type) : Type := Program Op.Res α

/-- What the goroutines are configured with, the texts of identifiers and times (a year of more
than four digits has none), and which URLs parse. -/
structure Settings where
  twilio : TwilioSms.Config
  emergencyWebhook : Bytes
  uuid : UUID → Text
  timestamp : Time → Option Text
  urlParses : Bytes → Bool

section Dispatch

variable (cfg : Settings) (alert : EmergencyAlert)

def smsAlert : TwilioSms.Alert := ⟨lit alert.alertType, Text.utf8 (cfg.uuid alert.userID)⟩

def smsConfigured : Prop := cfg.twilio.twilioAccountSID ≠ [] ∧ cfg.twilio.twilioAuthToken ≠ [] ∧
  cfg.twilio.twilioFromNumber ≠ []

instance : Decidable (smsConfigured cfg) := inferInstanceAs (Decidable (_ ∧ _))

/-- The map of `sendWebhook`, in the order in which it is marshalled. -/
def payload (timestamp : Text) : List (Text × Json.Scalar) :=
  [("alert_id".toList, .string (cfg.uuid alert.id)),
    ("alert_type".toList, .string alert.alertType.toList),
    ("event".toList, .string "emergency_alert".toList),
    ("status".toList, .string alert.status.text.toList),
    ("timestamp".toList, .string timestamp),
    ("user_id".toList, .string (cfg.uuid alert.userID))]

def sendTwilioSMS (phone : String) : Notifying Unit :=
  match TwilioSms.sendTwilioSMS cfg.urlParses cfg.twilio (Text.utf8 phone.toList)
      (smsAlert cfg alert) with
  | none => return ()
  | some request => Program.call (Op.post (.sms request))

def sendWebhook : Notifying Unit :=
  match cfg.timestamp alert.createdAt with
  | none => return ()
  | some timestamp =>
    if cfg.urlParses cfg.emergencyWebhook then
      Program.call (Op.post (.webhook cfg.emergencyWebhook (lit "application/json")
        (Text.utf8 (Json.writeObject Json.escapeGo (payload cfg alert timestamp)))))
    else return ()

def notifyBySMS : Notifying Unit :=
  if smsConfigured cfg then do
    match ← Program.call (Op.selectPhone alert.userID) with
    | .error _ => return ()
    | .ok phone => if phone ≠ "" then sendTwilioSMS cfg alert phone else return ()
  else return ()

def dispatchNotifications : Notifying Unit := do
  notifyBySMS cfg alert
  if cfg.emergencyWebhook ≠ [] then sendWebhook cfg alert else return ()

/-- The `n`-th goroutine. -/
def goroutine (n : ℕ) : Notifying Unit := do
  match ← Program.call (Op.goroutine n) with
  | none => return ()
  | some alert => dispatchNotifications cfg alert

end Dispatch

def ofSafety {α : Type} (p : Safety α) : Notifying α := p.embed .safety fun _ r => r

def ofUsers {α : Type} (p : Users α) : Notifying α := p.embed .users fun _ r => r

def triggerAlert (userID : UUID) (alertType : String) (lat lng : Option ℚ) :
    Notifying (Except String EmergencyAlert) := do
  match ← ofSafety (EmergencyService.triggerAlert userID alertType lat lng) with
  | .error e => return .error e
  | .ok alert => do
    Program.call (Op.go alert)
    return .ok alert

/-- The loop of the monitor, with the goroutines of its alerts. -/
def processRows (s : CheckInService) : List MissedCheckIn → Notifying Unit
  | [] => pure ()
  | row :: rest => do
    match ← ofSafety Safety.rowsNext with
    | .error _ => return ()
    | .ok _ =>
      match ← ofSafety Safety.rowsScan with
      | .error _ => processRows s rest
      | .ok _ =>
        let now ← ofSafety Safety.timeNow
        match ← ofSafety (Safety.updateMissed now row.id) with
        | .error _ => processRows s rest
        | .ok _ =>
          if s.emergencySvc then
            let _ ← triggerAlert row.userID "safety" none none
            processRows s rest
          else
            processRows s rest

def processMissedCheckIns (s : CheckInService) : Notifying Unit := do
  match ← ofSafety Safety.selectMissedForUpdate with
  | .error _ => return ()
  | .ok rows => processRows s rows

/-- The calls of the two services. Only two of them raise alerts. -/
def callProgram (svc : CheckInService) :
    SafetyLifecycle.Call → Notifying SafetyLifecycle.Reply
  | .triggerAlert userID alertType lat lng => .alert <$> triggerAlert userID alertType lat lng
  | .processMissedCheckIns => (fun _ => .passed) <$> processMissedCheckIns svc
  | call => ofSafety (call.program svc)

/-- Calls of the services, registrations and logins, and goroutines. -/
inductive Thread (ι κ : Type) where
  | call (t : ι)
  | auth (k : κ)
  | goroutine (n : ℕ)
deriving DecidableEq

inductive Reply where
  | call (r : SafetyLifecycle.Reply)
  | auth (r : Except ErrorReply AuthRuns.AuthResponse)
  | notified

structure World where
  safety : SafetyStore
  users : UserTable
  /-- The alerts of the goroutines, in the order in which they were started. -/
  goroutines : List EmergencyAlert

/-- What is sent from a goroutine, and where `users` is read by it. -/
def exec (cfg : Settings) (w : World) (op : Op) (env : UserEnv) : World × op.Res :=
  match op with
  | .safety op =>
    let out := w.safety.exec op env.toEnv
    ({ w with safety := out.1 }, out.2)
  | .users op =>
    let out := w.users.exec op env
    ({ w with users := out.1 }, out.2)
  | .go alert => ({ w with goroutines := w.goroutines ++ [alert] }, ())
  | .goroutine n => (w, w.goroutines[n]?)
  | .selectPhone userID => env.attempt w
    (w, queryRow ((w.users.table.find? (cfg.uuid userID)).map User.phone))
  | .post _ => (w, ())

section Runs

variable {ι κ : Type}

abbrev Shared (ι κ : Type) : Type := Recorded Op.Res World (Thread ι κ)

abbrev History (ι κ : Type) : Type := List (Event Op.Res (Thread ι κ))

variable (cfg : Settings) (hmac : Hmac) (serverCfg : Config) (svc : CheckInService)
  (calls : ι → SafetyLifecycle.Call) (auths : κ → AuthRuns.Call) (safety : SafetyStore)
  (users : UserTable)

def perform : Thread ι κ → Shared ι κ → (op : Op) → UserEnv → Shared ι κ × op.Res :=
  Recorded.perform (exec cfg)

def program : Thread ι κ → Notifying Reply
  | .call t => .call <$> callProgram svc (calls t)
  | .auth k => .auth <$> ofUsers ((auths k).program hmac serverCfg)
  | .goroutine n => (fun _ => .notified) <$> goroutine cfg n

def start : Pool Op.Res (Shared ι κ) (Thread ι κ) Reply :=
  ⟨⟨⟨safety, users, []⟩, []⟩, program cfg hmac serverCfg svc calls auths⟩

/-- A goroutine runs once it has been started. -/
def Started (_ : Thread ι κ) (s : Shared ι κ) (op : Op) (_ : UserEnv) : Prop :=
  ∀ n, op = .goroutine n → n < s.world.goroutines.length

variable [DecidableEq ι] [DecidableEq κ]

def runFrom (schedule : List (Thread ι κ × UserEnv)) :
    Pool Op.Res (Shared ι κ) (Thread ι κ) Reply :=
  (start cfg hmac serverCfg svc calls auths safety users).run (perform cfg) schedule

end Runs

end SafetyDao.Notifications
