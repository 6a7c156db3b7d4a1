import SafetyDao.EmergencyService

/-!
# The check-in service

The user operations and one pass of the monitor as request programs. Each branch
below is a branch of the source; an error text ends with the text of the error it
wraps.
-/
namespace SafetyDao

structure NewCheckIn where
  scheduledAt : Time
  note : String

/-- `emergencySvc` tells whether the service was built with an emergency service. -/
structure CheckInService where
  emergencySvc : Bool

namespace CheckInService

open Safety

def scheduleCheckIn (userID : UUID) (input : NewCheckIn) : Safety (Except String CheckIn) := do
  let now ← timeNow
  if input.scheduledAt < now then
    return .error "scheduled_at must be in the future"
  else
    let id ← newUUID
    let createdAt ← timeNow
    let updatedAt ← timeNow
    let chk : CheckIn := {
      id := id
      userID := userID
      scheduledAt := input.scheduledAt
      completedAt := none
      status := .pending
      note := input.note
      createdAt := createdAt
      updatedAt := updatedAt }
    match ← insertCheckIn chk with
    | .error e => return .error ("inserting check-in: " ++ e)
    | .ok _ => return .ok chk

def completeCheckIn (checkInID userID : UUID) : Safety (Except String CheckIn) := do
  match ← selectCheckInForUpdate checkInID with
  | .error e => return .error ("check-in not found: " ++ e)
  | .ok chk =>
    if chk.userID ≠ userID then
      return .error "check-in does not belong to user"
    else if chk.status ≠ .pending then
      return .error "check-in is not in pending status"
    else
      let now ← timeNow
      match ← updateCompleted now now checkInID with
      | .error e => return .error ("completing check-in: " ++ e)
      | .ok _ => return .ok (chk.complete now now)

def getCheckIn (checkInID userID : UUID) : Safety (Except String CheckIn) := do
  match ← selectCheckInOfUser checkInID userID with
  | .error e => return .error ("check-in not found: " ++ e)
  | .ok chk => return .ok chk

def listCheckIns (userID : UUID) (status : String) : Safety (Except String (List CheckIn)) := do
  match ← selectCheckInsOfUser userID status with
  | .error e => return .error ("listing check-ins: " ++ e)
  | .ok rows => scanRows rowsNext rowsScan "scanning check-in: " [] rows

/-- The body of the monitor's loop over the selected rows. Every failure is logged
and the loop goes on, except that a broken row stream ends it. -/
def processRows (s : CheckInService) : List MissedCheckIn → Safety Unit
  | [] => pure ()
  | row :: rest => do
    match ← rowsNext with
    | .error _ => return ()
    | .ok _ =>
      match ← rowsScan with
      | .error _ => s.processRows rest
      | .ok _ =>
        let now ← timeNow
        match ← updateMissed now row.id with
        | .error _ => s.processRows rest
        | .ok _ =>
          if s.emergencySvc then
            let _ ← EmergencyService.triggerAlert row.userID "safety" none none
            s.processRows rest
          else
            s.processRows rest

def processMissedCheckIns (s : CheckInService) : Safety Unit := do
  match ← selectMissedForUpdate with
  | .error _ => return ()
  | .ok rows => s.processRows rows

end CheckInService

end SafetyDao
