import SafetyDao.SafetyStore

/-!
# The emergency service

`triggerAlert`, `resolveAlert` and `listAlerts` as request programs. The
notification goroutine that `triggerAlert` starts writes no table and its outcome
is only logged; it is a program of its own, in `SafetyDao.Notifications`, and runs
beside these in `SafetyDao.NotificationRuns`.
-/
namespace SafetyDao

namespace EmergencyService

open Safety

/-- The alert as `triggerAlert` builds it: active, and with a location only when
both coordinates are given. -/
def newAlert (id userID : UUID) (alertType : String) (lat lng : Option ℚ)
    (createdAt updatedAt : Time) : EmergencyAlert where
  id := id
  userID := userID
  alertType := alertType
  locationLat := if lat.isSome ∧ lng.isSome then lat else none
  locationLng := if lat.isSome ∧ lng.isSome then lng else none
  status := .active
  resolvedBy := none
  resolvedAt := none
  createdAt := createdAt
  updatedAt := updatedAt

def triggerAlert (userID : UUID) (alertType : String) (lat lng : Option ℚ) :
    Safety (Except String EmergencyAlert) := do
  let id ← newUUID
  let createdAt ← timeNow
  let updatedAt ← timeNow
  let alert := newAlert id userID alertType lat lng createdAt updatedAt
  match ← insertAlert alert with
  | .error e => return .error ("inserting emergency alert: " ++ e)
  | .ok _ => return .ok alert

def resolveAlert (alertID resolverID : UUID) : Safety (Except String EmergencyAlert) := do
  let now ← timeNow
  match ← updateResolved resolverID now now alertID with
  | .error e => return .error ("resolving emergency alert: " ++ e)
  | .ok _ =>
    match ← selectAlert alertID with
    | .error e => return .error ("fetching resolved alert: " ++ e)
    | .ok alert => return .ok alert

def listAlerts (userID : UUID) (status : String) :
    Safety (Except String (List EmergencyAlert)) := do
  match ← selectAlertsOfUser userID status with
  | .error e => return .error ("listing alerts: " ++ e)
  | .ok rows => scanRows rowsNext rowsScan "scanning alert: " [] rows

end EmergencyService

end SafetyDao
