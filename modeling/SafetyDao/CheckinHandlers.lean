import SafetyDao.CheckinRoutes
import SafetyDao.CheckInService
import SafetyDao.DaoService

/-!
# The handlers of the Go service

Each handler up to its call of a service, with the replies it has for the outcome of
the call. JSON decoding of a body is a parameter.
-/
namespace SafetyDao

structure NewEmergencyAlert where
  alertType : String
  locationLat : Option ℚ
  locationLng : Option ℚ
deriving DecidableEq

structure NewReport where
  clientIdentifier : String
  category : String
  description : String
deriving DecidableEq

structure RegisterRequest where
  walletAddress : String
  displayName : String
  phone : String
deriving DecidableEq

namespace Checkin

/-- `json.NewDecoder(r.Body).Decode`, for each of the inputs. -/
structure Decoder where
  registerRequest : Text → Option RegisterRequest
  loginRequest : Text → Option String
  newCheckIn : Text → Option NewCheckIn
  newEmergencyAlert : Text → Option NewEmergencyAlert
  newReport : Text → Option NewReport
  reportStatus : Text → Option String
  newProposal : Text → Option NewProposal
  castVoteRequest : Text → Option String

/-- What a handler asks of the services. Register and login talk to the pool themselves. -/
inductive ServiceCall where
  | register (req : RegisterRequest)
  | login (walletAddress : String)
  | scheduleCheckIn (userID : Text) (input : NewCheckIn)
  | completeCheckIn (checkInID userID : Text)
  | listCheckIns (userID status : Text)
  | getCheckIn (checkInID userID : Text)
  | triggerAlert (userID : Text) (alertType : String) (lat lng : Option ℚ)
  | resolveAlert (alertID resolverID : Text)
  | listAlerts (userID status : Text)
  | submitReport (reporterID : Text) (input : NewReport)
  | searchReports (query category status : Text)
  | getReport (reportID : Text)
  | updateReportStatus (reportID moderatorID : Text) (status : String)
  | createProposal (proposerID : Text) (input : NewProposal)
  | listProposals (status : Text)
  | getProposal (proposalID : Text)
  | castVote (proposalID userID : Text) (vote : String)
  | getResults (proposalID : Text)

/-- The user on whose behalf a call is made. -/
def ServiceCall.userID : ServiceCall → Option Text
  | .scheduleCheckIn userID _ => some userID
  | .completeCheckIn _ userID => some userID
  | .listCheckIns userID _ => some userID
  | .getCheckIn _ userID => some userID
  | .triggerAlert userID .. => some userID
  | .resolveAlert _ resolverID => some resolverID
  | .listAlerts userID _ => some userID
  | .submitReport reporterID _ => some reporterID
  | .updateReportStatus _ moderatorID _ => some moderatorID
  | .createProposal proposerID _ => some proposerID
  | .castVote _ userID _ => some userID
  | _ => none

/-- The error reply of a failed call; without a message it is the text of the error. -/
structure ErrorReply where
  status : ℕ
  message : Option String

/-- How a handler runs: into a panic, to a reply of its own, or to a call of a service
with the replies to its failures and the status of success. -/
inductive HandlerRun where
  | panicked (message : Text)
  | respondError (status : ℕ) (message : String)
  | called (call : ServiceCall) (onError : List ErrorReply) (onSuccess : ℕ)

section Handlers

variable (json : Decoder)

/-- `r.Context().Value("user_id").(string)`, and what the handler does with it. -/
def withUserID (r : HttpRequest) (next : Text → HandlerRun) : HandlerRun :=
  match GoValue.assertString (r.context.value (.string "user_id".toList)) with
  | .ok userID => next userID
  | .error message => .panicked message

def decodeBody {α : Type} (decode : Text → Option α) (r : HttpRequest) (next : α → HandlerRun) :
    HandlerRun :=
  match decode r.body with
  | none => .respondError 400 "invalid request body"
  | some input => next input

def register (r : HttpRequest) : HandlerRun :=
  decodeBody json.registerRequest r fun req =>
    if req.walletAddress = "" then .respondError 400 "wallet_address is required"
    else .called (.register req) [⟨500, some "failed to create user"⟩,
      ⟨500, some "registration failed"⟩, ⟨500, some "authentication failed"⟩] 201

def login (r : HttpRequest) : HandlerRun :=
  decodeBody json.loginRequest r fun walletAddress =>
    if walletAddress = "" then .respondError 400 "wallet_address is required"
    else .called (.login walletAddress)
      [⟨401, some "user not found"⟩, ⟨500, some "authentication failed"⟩] 200

def createCheckIn (r : HttpRequest) : HandlerRun :=
  withUserID r fun userID =>
    decodeBody json.newCheckIn r fun input =>
      .called (.scheduleCheckIn userID input) [⟨400, none⟩] 201

def completeCheckIn (r : HttpRequest) : HandlerRun :=
  withUserID r fun userID =>
    .called (.completeCheckIn (r.urlParam "id".toList) userID) [⟨400, none⟩] 200

def listCheckIns (r : HttpRequest) : HandlerRun :=
  withUserID r fun userID =>
    .called (.listCheckIns userID (r.queryParam "status".toList))
      [⟨500, some "failed to list check-ins"⟩] 200

def getCheckIn (r : HttpRequest) : HandlerRun :=
  withUserID r fun userID =>
    .called (.getCheckIn (r.urlParam "id".toList) userID) [⟨404, some "check-in not found"⟩] 200

def triggerAlert (r : HttpRequest) : HandlerRun :=
  withUserID r fun userID =>
    decodeBody json.newEmergencyAlert r fun input =>
      let alertType := if input.alertType = "" then "general" else input.alertType
      .called (.triggerAlert userID alertType input.locationLat input.locationLng)
        [⟨500, some "failed to trigger alert"⟩] 201

def resolveAlert (r : HttpRequest) : HandlerRun :=
  withUserID r fun userID =>
    .called (.resolveAlert (r.urlParam "id".toList) userID) [⟨400, none⟩] 200

def listAlerts (r : HttpRequest) : HandlerRun :=
  withUserID r fun userID =>
    .called (.listAlerts userID (r.queryParam "status".toList))
      [⟨500, some "failed to list alerts"⟩] 200

def submitReport (r : HttpRequest) : HandlerRun :=
  withUserID r fun userID =>
    decodeBody json.newReport r fun input =>
      .called (.submitReport userID input) [⟨400, none⟩] 201

def searchReports (r : HttpRequest) : HandlerRun :=
  .called (.searchReports (r.queryParam "q".toList) (r.queryParam "category".toList)
    (r.queryParam "status".toList)) [⟨500, some "failed to search reports"⟩] 200

def getReport (r : HttpRequest) : HandlerRun :=
  .called (.getReport (r.urlParam "id".toList)) [⟨404, some "report not found"⟩] 200

def updateReportStatus (r : HttpRequest) : HandlerRun :=
  withUserID r fun userID =>
    decodeBody json.reportStatus r fun status =>
      .called (.updateReportStatus (r.urlParam "id".toList) userID status) [⟨400, none⟩] 200

def createProposal (r : HttpRequest) : HandlerRun :=
  withUserID r fun userID =>
    decodeBody json.newProposal r fun input =>
      .called (.createProposal userID input) [⟨400, none⟩] 201

def listProposals (r : HttpRequest) : HandlerRun :=
  .called (.listProposals (r.queryParam "status".toList))
    [⟨500, some "failed to list proposals"⟩] 200

def getProposal (r : HttpRequest) : HandlerRun :=
  .called (.getProposal (r.urlParam "id".toList)) [⟨404, some "proposal not found"⟩] 200

def castVote (r : HttpRequest) : HandlerRun :=
  withUserID r fun userID =>
    decodeBody json.castVoteRequest r fun vote =>
      .called (.castVote (r.urlParam "id".toList) userID vote) [⟨400, none⟩] 200

def getResults (r : HttpRequest) : HandlerRun :=
  .called (.getResults (r.urlParam "id".toList)) [⟨404, none⟩] 200

/-- The handlers that `setupRoutes` registers. -/
def handle (e : Endpoint) : HttpRequest → HandlerRun :=
  match e with
  | .register => register json
  | .login => login json
  | .createCheckIn => createCheckIn json
  | .listCheckIns => listCheckIns
  | .getCheckIn => getCheckIn
  | .completeCheckIn => completeCheckIn
  | .triggerAlert => triggerAlert json
  | .listAlerts => listAlerts
  | .resolveAlert => resolveAlert
  | .submitReport => submitReport json
  | .searchReports => searchReports
  | .getReport => getReport
  | .updateReportStatus => updateReportStatus json
  | .createProposal => createProposal json
  | .listProposals => listProposals
  | .getProposal => getProposal
  | .castVote => castVote json
  | .getResults => getResults

end Handlers

/-- The handlers that read the identity of the caller. -/
def Endpoint.readsIdentity : Endpoint → Bool
  | .createCheckIn | .listCheckIns | .getCheckIn | .completeCheckIn => true
  | .triggerAlert | .listAlerts | .resolveAlert => true
  | .submitReport | .updateReportStatus => true
  | .createProposal | .castVote => true
  | _ => false

end Checkin

end SafetyDao
