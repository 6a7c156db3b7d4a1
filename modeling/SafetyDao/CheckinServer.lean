import SafetyDao.AuthRuns
import SafetyDao.RegistrySystem

/-!
# The Go service as one server

The router, the handlers, the services and the tables together. A request runs the middleware,
the handler and at most one call of a service, statement by statement; a pass of the monitor
runs beside the requests. Identifiers in paths and contexts are texts that PostgreSQL reads as
UUIDs; that a text is none shows as a failure of its statement.
-/
namespace SafetyDao.CheckinServer
open Checkin (Decoder Endpoint ErrorReply HandlerRun ServiceCall handle serveHTTP)
open JsonWebToken (Hmac)
open LikePattern (Folding)
open RegistrySystem (Floats)

/-- The statements and requests of all services. -/
inductive Op (F32 : Type) where
  | users (op : UserOp)
  | safety (op : SafetyOp)
  | dao (op : DaoOp)
  | registry (op : RegistrySystem.Op F32)

abbrev Op.Res {F32 : Type} : Op F32 → Type
  | .users op => op.Res
  | .safety op => op.Res
  | .dao op => op.Res
  | .registry op => op.Res

abbrev Server (F32 α : Type) : Type := Program (@Op.Res F32) α

structure World (F32 : Type) where
  users : UserTable
  safety : SafetyStore
  dao : DaoStore
  registry : RegistrySystem.World F32

/-- What the environment contributes to a request: to the database and to the index. -/
structure ServerEnv where
  env : UserEnv
  fate : ModeSwitch.Fate ReportPoint

variable {F32 F64 : Type} [OfNat F32 0] [OfNat F32 255] [Add F32] [Mul F32] [Div F32]
  [OfNat F64 0] [OfNat F64 2] [OfScientific F64] [Add F64] [Sub F64] [Mul F64] [Div F64]
  [BEq F64] [LT F64] [DecidableLT F64]

def exec (floats : Floats F32 F64) (F : Folding) (w : World F32) (op : Op F32) (c : ServerEnv) :
    World F32 × op.Res :=
  match op with
  | .users op =>
    let out := w.users.exec op c.env
    ({ w with users := out.1 }, out.2)
  | .safety op =>
    let out := w.safety.exec op c.env.toEnv
    ({ w with safety := out.1 }, out.2)
  | .dao op =>
    let out := w.dao.exec op c.env.toEnv
    ({ w with dao := out.1 }, out.2)
  | .registry op =>
    let out := RegistrySystem.exec floats F w.registry op ⟨c.env.toEnv, c.fate⟩
    ({ w with registry := out.1 }, out.2)

def ofUsers {α : Type} (p : Users α) : Server F32 α := p.embed .users fun _ r => r

def ofSafety {α : Type} (p : Safety α) : Server F32 α := p.embed .safety fun _ r => r

def ofDao {α : Type} (p : Dao α) : Server F32 α := p.embed .dao fun _ r => r

def ofRegistry {α : Type} (p : RegistrySystem.Registering F32 α) : Server F32 α :=
  p.embed .registry fun _ r => r

/-- The value that a successful reply writes as JSON. -/
inductive Body where
  | auth (r : AuthRuns.AuthResponse)
  | checkIn (chk : CheckIn)
  | checkIns (chks : List CheckIn)
  | alert (a : EmergencyAlert)
  | alerts (as : List EmergencyAlert)
  | report (r : ModeratedReport)
  | reports (rs : List ModeratedReport)
  | proposal (p : DAOProposal)
  | proposals (ps : List DAOProposal)
  | vote (v : DAOVote)
  | results (r : VoteResults)

/-- How a call of a service ends. Registration and login choose their error reply themselves,
and the report that was submitted went out before the goroutine that stores its embedding. -/
inductive Outcome where
  | returned (body : Body)
  | failed (e : String)
  | refused (e : ErrorReply)
  | submitted

def Outcome.ofResult {α : Type} (body : α → Body) : Except String α → Outcome
  | .ok a => .returned (body a)
  | .error e => .failed e

def Outcome.ofAuth : Except ErrorReply AuthRuns.AuthResponse → Outcome
  | .ok r => .returned (.auth r)
  | .error e => .refused e

/-- The registry answers with reports, one report, or not at all. -/
def Outcome.ofRegistry : RegistrySystem.Reply F32 → Outcome
  | .submitted => .submitted
  | .report r => ofResult .report r
  | .reports r => ofResult .reports r
  | .duplicates _ => .submitted

/-- What the client of a request gets; `recovered` is the empty reply of status 500. -/
inductive HttpReply where
  | answered (status : ℕ) (body : Text)
  | respondJSON (status : ℕ) (body : Body)
  | respondError (status : ℕ) (message : String)
  | recovered
  | aborted
  | submitted

/-- The reply for the outcome of a call. An error reply without a message has the text of the
error; each call that fails with a text has one error reply. -/
def HttpReply.ofOutcome (onError : List ErrorReply) (onSuccess : ℕ) : Outcome → HttpReply
  | .returned body => .respondJSON onSuccess body
  | .failed text =>
    match onError with
    | ⟨status, message⟩ :: _ => .respondError status (message.getD text)
    | [] => .aborted
  | .refused ⟨status, message⟩ => .respondError status (message.getD "")
  | .submitted => .submitted

/-- A service as it is configured: the reading of identifiers, the key of the tokens, and
whether there is a client of the vector database. -/
structure Setup (F32 F64 : Type) where
  uuidOf : Text → UUID
  hmac : Hmac
  cfg : Config
  json : Decoder
  texts : IndexTexts
  floats : Floats F32 F64
  qdrant : Bool

variable (setup : Setup F32 F64)

/-- What each call does. -/
def callProgram : ServiceCall → Server F32 Outcome
  | .register req => .ofAuth <$> ofUsers (AuthRuns.register setup.hmac setup.cfg req)
  | .login walletAddress => .ofAuth <$> ofUsers (AuthRuns.login setup.hmac setup.cfg walletAddress)
  | .scheduleCheckIn userID input =>
    .ofResult .checkIn <$> ofSafety (CheckInService.scheduleCheckIn (setup.uuidOf userID) input)
  | .completeCheckIn checkInID userID => .ofResult .checkIn <$>
    ofSafety (CheckInService.completeCheckIn (setup.uuidOf checkInID) (setup.uuidOf userID))
  | .listCheckIns userID status => .ofResult .checkIns <$>
    ofSafety (CheckInService.listCheckIns (setup.uuidOf userID) (String.ofList status))
  | .getCheckIn checkInID userID => .ofResult .checkIn <$>
    ofSafety (CheckInService.getCheckIn (setup.uuidOf checkInID) (setup.uuidOf userID))
  | .triggerAlert userID alertType lat lng => .ofResult .alert <$>
    ofSafety (EmergencyService.triggerAlert (setup.uuidOf userID) alertType lat lng)
  | .resolveAlert alertID resolverID => .ofResult .alert <$>
    ofSafety (EmergencyService.resolveAlert (setup.uuidOf alertID) (setup.uuidOf resolverID))
  | .listAlerts userID status => .ofResult .alerts <$>
    ofSafety (EmergencyService.listAlerts (setup.uuidOf userID) (String.ofList status))
  | .submitReport reporterID input => registry (.submitReport (setup.uuidOf reporterID) input)
  | .searchReports query category status => registry
    (.searchReports (String.ofList query) (String.ofList category) (String.ofList status))
  | .getReport reportID => registry (.getReport (setup.uuidOf reportID))
  | .updateReportStatus reportID moderatorID status => registry
    (.updateReportStatus (setup.uuidOf reportID) (setup.uuidOf moderatorID) status)
  | .createProposal proposerID input =>
    .ofResult .proposal <$> ofDao (DaoService.createProposal (setup.uuidOf proposerID) input)
  | .listProposals status =>
    .ofResult .proposals <$> ofDao (DaoService.listProposals (String.ofList status))
  | .getProposal proposalID =>
    .ofResult .proposal <$> ofDao (DaoService.getProposal (setup.uuidOf proposalID))
  | .castVote proposalID userID vote => .ofResult .vote <$>
    ofDao (DaoService.castVote (setup.uuidOf proposalID) (setup.uuidOf userID) vote)
  | .getResults proposalID =>
    .ofResult .results <$> ofDao (DaoService.getResults (setup.uuidOf proposalID))
where
  registry (call : RegistrySystem.Call) : Server F32 Outcome :=
    .ofRegistry <$> ofRegistry (call.program setup.texts setup.floats setup.qdrant)

/-- A handler from its first line to its reply. -/
def runHandler (recovers : Bool) : HandlerRun → Server F32 HttpReply
  | .panicked _ => return if recovers then .recovered else .aborted
  | .respondError status message => return .respondError status message
  | .called call onError onSuccess => .ofOutcome onError onSuccess <$> callProgram setup call

/-- A request as it arrives, and what `jwt.Parse` makes of tokens when it does. -/
structure Arrival where
  method : Text
  path : Text
  headers : List (Text × Text)
  query : List (Text × Text)
  body : Text
  jwtParse : (secret token : Text) → Option MapClaims

namespace Arrival

/-- Where the router takes the request. -/
def dispatched (a : Arrival) : Dispatched GoValue GoValue Endpoint :=
  serveHTTP a.jwtParse setup.cfg (newRequest a.method a.path a.headers a.query a.body)

def program (a : Arrival) : Server F32 HttpReply :=
  match a.dispatched setup with
  | .answered status body => return .answered status body
  | .reached e r recovers => runHandler setup recovers (handle setup.json e r)

end Arrival

/-- What runs on the server. -/
inductive Task where
  | request (a : Arrival)
  | pass (s : CheckInService)

/-- A pass replies to nobody. -/
def Task.program : Task → Server F32 (Option HttpReply)
  | .request a => some <$> a.program setup
  | .pass s => (fun _ => none) <$> ofSafety s.processMissedCheckIns

section Runs

variable {ι : Type} [DecidableEq ι] (F : Folding) (w : World F32) (tasks : ι → Task)

def perform (floats : Floats F32 F64) (_ : ι) (w : World F32) (op : Op F32) (c : ServerEnv) :
    World F32 × op.Res :=
  exec floats F w op c

/-- The pool at the start: one program for each task. -/
def start : Pool (@Op.Res F32) (World F32) ι (Option HttpReply) :=
  ⟨w, fun t => (tasks t).program setup⟩

def reached (schedule : List (ι × ServerEnv)) :
    Pool (@Op.Res F32) (World F32) ι (Option HttpReply) :=
  (start setup w tasks).run (perform F setup.floats) schedule

end Runs

end SafetyDao.CheckinServer
