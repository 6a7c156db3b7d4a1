import SafetyDao.Database
import Mathlib.Data.Rat.Defs

/-!
# Check-ins and emergency alerts in the database

The two tables behind the check-in and the emergency service, and one request for
each SQL statement of the two services. A row lock taken by `FOR UPDATE` is
released when its own statement commits, so between requests no row is locked.
-/
namespace SafetyDao

inductive CheckInStatus where
  | pending | completed | missed | cancelled
deriving DecidableEq, Repr

def CheckInStatus.text : CheckInStatus → String
  | .pending => "pending"
  | .completed => "completed"
  | .missed => "missed"
  | .cancelled => "cancelled"

structure CheckIn where
  id : UUID
  userID : UUID
  scheduledAt : Time
  completedAt : Option Time
  status : CheckInStatus
  note : String
  createdAt : Time
  updatedAt : Time
deriving DecidableEq

inductive AlertStatus where
  | active | resolved | falseAlarm
deriving DecidableEq, Repr

def AlertStatus.text : AlertStatus → String
  | .active => "active"
  | .resolved => "resolved"
  | .falseAlarm => "false_alarm"

/-- The values the CHECK constraint of `emergency_alerts.alert_type` lets in. -/
def alertTypes : List String := ["general", "safety", "medical", "legal"]

structure EmergencyAlert where
  id : UUID
  userID : UUID
  alertType : String
  locationLat : Option ℚ
  locationLng : Option ℚ
  status : AlertStatus
  resolvedBy : Option UUID
  resolvedAt : Option Time
  createdAt : Time
  updatedAt : Time
deriving DecidableEq

structure SafetyStore where
  checkIns : Table CheckIn.id
  alerts : Table EmergencyAlert.id

/-- The columns the monitor selects. -/
structure MissedCheckIn where
  id : UUID
  userID : UUID
  scheduledAt : Time
deriving DecidableEq

inductive SafetyOp where
  | timeNow
  | newUUID
  | insertCheckIn (chk : CheckIn)
  | selectCheckInForUpdate (checkInID : UUID)
  | updateCompleted (completedAt updatedAt : Time) (checkInID : UUID)
  | selectCheckInOfUser (checkInID userID : UUID)
  | selectCheckInsOfUser (userID : UUID) (status : String)
  | selectMissedForUpdate
  | rowsNext
  | rowsScan
  | updateMissed (updatedAt : Time) (checkInID : UUID)
  | insertAlert (alert : EmergencyAlert)
  | updateResolved (resolverID : UUID) (resolvedAt updatedAt : Time) (alertID : UUID)
  | selectAlert (alertID : UUID)
  | selectAlertsOfUser (userID : UUID) (status : String)
deriving DecidableEq

namespace SafetyOp

abbrev Res : SafetyOp → Type
  | .timeNow => Time
  | .newUUID => UUID
  | .insertCheckIn _ => Except String Unit
  | .selectCheckInForUpdate _ => Except String CheckIn
  | .updateCompleted .. => Except String Unit
  | .selectCheckInOfUser .. => Except String CheckIn
  | .selectCheckInsOfUser .. => Except String (List CheckIn)
  | .selectMissedForUpdate => Except String (List MissedCheckIn)
  | .rowsNext => Except String Unit
  | .rowsScan => Except String Unit
  | .updateMissed .. => Except String Unit
  | .insertAlert _ => Except String Unit
  | .updateResolved .. => Except String Unit
  | .selectAlert _ => Except String EmergencyAlert
  | .selectAlertsOfUser .. => Except String (List EmergencyAlert)

end SafetyOp

namespace CheckIn

def complete (completedAt updatedAt : Time) (chk : CheckIn) : CheckIn :=
  { chk with status := .completed, completedAt := some completedAt, updatedAt := updatedAt }

def miss (updatedAt : Time) (chk : CheckIn) : CheckIn :=
  { chk with status := .missed, updatedAt := updatedAt }

/-- `status = 'pending' AND scheduled_at < NOW()`. -/
def Overdue (now : Time) (chk : CheckIn) : Prop := chk.status = .pending ∧ chk.scheduledAt < now

instance (now : Time) (chk : CheckIn) : Decidable (chk.Overdue now) :=
  inferInstanceAs (Decidable (_ ∧ _))

def toMissed (chk : CheckIn) : MissedCheckIn := ⟨chk.id, chk.userID, chk.scheduledAt⟩

@[simp] theorem complete_id (c u : Time) (chk : CheckIn) : (chk.complete c u).id = chk.id := rfl
@[simp] theorem complete_status (c u : Time) (chk : CheckIn) :
    (chk.complete c u).status = .completed := rfl
@[simp] theorem complete_completedAt (c u : Time) (chk : CheckIn) :
    (chk.complete c u).completedAt = some c := rfl
@[simp] theorem miss_id (u : Time) (chk : CheckIn) : (chk.miss u).id = chk.id := rfl
@[simp] theorem miss_userID (u : Time) (chk : CheckIn) : (chk.miss u).userID = chk.userID := rfl
@[simp] theorem miss_status (u : Time) (chk : CheckIn) : (chk.miss u).status = .missed := rfl
@[simp] theorem miss_completedAt (u : Time) (chk : CheckIn) :
    (chk.miss u).completedAt = chk.completedAt := rfl

end CheckIn

def EmergencyAlert.resolve (resolverID : UUID) (resolvedAt updatedAt : Time)
    (alert : EmergencyAlert) : EmergencyAlert :=
  { alert with
    status := .resolved, resolvedBy := some resolverID, resolvedAt := some resolvedAt
    updatedAt := updatedAt }

@[simp] theorem EmergencyAlert.resolve_id (r : UUID) (a u : Time) (alert : EmergencyAlert) :
    (alert.resolve r a u).id = alert.id := rfl

namespace SafetyStore

def insertCheckIn (w : SafetyStore) (chk : CheckIn) : SafetyStore × Except String Unit :=
  match w.checkIns.insert chk with
  | none => (w, .error "duplicate key value violates unique constraint \"check_ins_pkey\"")
  | some t => ({ w with checkIns := t }, .ok ())

def updateCompleted (w : SafetyStore) (completedAt updatedAt : Time) (checkInID : UUID) :
    SafetyStore :=
  { w with
    checkIns := w.checkIns.update checkInID (CheckIn.complete completedAt updatedAt)
      (CheckIn.complete_id _ _) }

def updateMissed (w : SafetyStore) (updatedAt : Time) (checkInID : UUID) : SafetyStore :=
  { w with checkIns := w.checkIns.update checkInID (CheckIn.miss updatedAt) (CheckIn.miss_id _) }

def selectMissed (w : SafetyStore) (env : Env) : List MissedCheckIn :=
  (env.arrange CheckIn.id (w.checkIns.rows.filter (fun chk => chk.Overdue env.now))).map
    CheckIn.toMissed

def insertAlert (w : SafetyStore) (alert : EmergencyAlert) : SafetyStore × Except String Unit :=
  if alert.alertType ∈ alertTypes then
    match w.alerts.insert alert with
    | none => (w, .error "duplicate key value violates unique constraint \"emergency_alerts_pkey\"")
    | some t => ({ w with alerts := t }, .ok ())
  else (w, .error
    "new row for relation \"emergency_alerts\" violates check constraint \"emergency_alerts_alert_type_check\"")

/-- `WHERE id = $4 AND status = 'active'`. -/
def updateResolved (w : SafetyStore) (resolverID : UUID) (resolvedAt updatedAt : Time)
    (alertID : UUID) : SafetyStore :=
  { w with
    alerts := w.alerts.updateWhere (fun a => a.id = alertID ∧ a.status = .active)
      (EmergencyAlert.resolve resolverID resolvedAt updatedAt) (EmergencyAlert.resolve_id _ _ _) }

/-- Newest first, restricted to one status when one is asked for. -/
def checkInsOfUser (w : SafetyStore) (env : Env) (userID : UUID) (status : String) :
    List CheckIn :=
  (env.arrange CheckIn.id (w.checkIns.rows.filter fun chk =>
    chk.userID = userID ∧ (status = "" ∨ chk.status.text = status))).insertionSort
      (fun a b => b.scheduledAt ≤ a.scheduledAt)

def alertsOfUser (w : SafetyStore) (env : Env) (userID : UUID) (status : String) :
    List EmergencyAlert :=
  (env.arrange EmergencyAlert.id (w.alerts.rows.filter fun a =>
    a.userID = userID ∧ (status = "" ∨ a.status.text = status))).insertionSort
      (fun a b => b.createdAt ≤ a.createdAt)

/-- What each request does to the tables and answers. -/
def exec (w : SafetyStore) (op : SafetyOp) (env : Env) : SafetyStore × op.Res :=
  match op with
  | .timeNow => (w, env.now)
  | .newUUID => (w, env.uuid)
  | .insertCheckIn chk => env.attempt w (w.insertCheckIn chk)
  | .selectCheckInForUpdate id => env.attempt w (w, queryRow (w.checkIns.find? id))
  | .updateCompleted completedAt updatedAt id =>
    env.attempt w (w.updateCompleted completedAt updatedAt id, .ok ())
  | .selectCheckInOfUser id userID =>
    env.attempt w (w, queryRow ((w.checkIns.find? id).filter (fun chk => chk.userID = userID)))
  | .selectCheckInsOfUser userID status => env.attempt w
    (w, .ok (w.checkInsOfUser env userID status))
  | .selectMissedForUpdate => env.attempt w (w, .ok (w.selectMissed env))
  | .rowsNext => env.attempt w (w, .ok ())
  | .rowsScan => env.attempt w (w, .ok ())
  | .updateMissed updatedAt id => env.attempt w (w.updateMissed updatedAt id, .ok ())
  | .insertAlert alert => env.attempt w (w.insertAlert alert)
  | .updateResolved resolverID resolvedAt updatedAt id =>
    env.attempt w (w.updateResolved resolverID resolvedAt updatedAt id, .ok ())
  | .selectAlert id => env.attempt w (w, queryRow (w.alerts.find? id))
  | .selectAlertsOfUser userID status => env.attempt w
    (w, .ok (w.alertsOfUser env userID status))

@[simp] theorem exec_timeNow (w : SafetyStore) (env : Env) : w.exec .timeNow env = (w, env.now) :=
  rfl
@[simp] theorem exec_newUUID (w : SafetyStore) (env : Env) : w.exec .newUUID env = (w, env.uuid) :=
  rfl

/-- The requests that leave the tables alone whatever they answer. -/
def readOnly : SafetyOp → Bool
  | .timeNow | .newUUID | .rowsNext | .rowsScan => true
  | .selectCheckInForUpdate _ | .selectCheckInOfUser .. | .selectCheckInsOfUser .. => true
  | .selectMissedForUpdate | .selectAlert _ | .selectAlertsOfUser .. => true
  | _ => false

theorem exec_readOnly {op : SafetyOp} (h : readOnly op = true) (w : SafetyStore) (env : Env) :
    (w.exec op env).1 = w := by
  cases op <;> simp only [readOnly, Bool.false_eq_true] at h <;> simp only [exec] <;>
    (unfold Env.attempt; split <;> rfl)

/-- A SELECT by identifier answers with the row of that identifier. -/
theorem exec_selectCheckInForUpdate {w : SafetyStore} {id : UUID} {env : Env} {chk : CheckIn}
    (h : (w.exec (.selectCheckInForUpdate id) env).2 = .ok chk) :
    w.checkIns.find? id = some chk :=
  queryRow_eq_ok.mp (Env.ok_of_attempt h)

/-- The monitor's SELECT answers with the overdue pending rows. -/
theorem exec_selectMissedForUpdate {w : SafetyStore} {env : Env} {rows : List MissedCheckIn}
    (h : (w.exec .selectMissedForUpdate env).2 = .ok rows) : rows = w.selectMissed env :=
  (Except.ok.inj (Env.ok_of_attempt h)).symm

theorem mem_selectMissed {w : SafetyStore} {env : Env} {row : MissedCheckIn} :
    row ∈ w.selectMissed env ↔
      ∃ chk ∈ w.checkIns.rows, chk.Overdue env.now ∧ chk.toMissed = row := by
  simp [selectMissed, and_assoc]

theorem exec_updateCompleted (w : SafetyStore) (completedAt updatedAt : Time) (id : UUID)
    (env : Env) :
    (∃ e, w.exec (.updateCompleted completedAt updatedAt id) env = (w, .error e)) ∨
      w.exec (.updateCompleted completedAt updatedAt id) env =
        (w.updateCompleted completedAt updatedAt id, .ok ()) :=
  env.attempt_cases w _

theorem exec_updateMissed (w : SafetyStore) (updatedAt : Time) (id : UUID) (env : Env) :
    (∃ e, w.exec (.updateMissed updatedAt id) env = (w, .error e)) ∨
      w.exec (.updateMissed updatedAt id) env = (w.updateMissed updatedAt id, .ok ()) :=
  env.attempt_cases w _

/-- A check-in either is rejected and nothing changes, or it is the new last row. -/
theorem exec_insertCheckIn (w : SafetyStore) (chk : CheckIn) (env : Env) :
    (∃ e, w.exec (.insertCheckIn chk) env = (w, .error e)) ∨
      ∃ t, w.checkIns.insert chk = some t ∧
        w.exec (.insertCheckIn chk) env = ({ w with checkIns := t }, .ok ()) := by
  rcases env.attempt_cases w (w.insertCheckIn chk) with ⟨e, he⟩ | hok
  · exact .inl ⟨e, he⟩
  · have hexec : w.exec (.insertCheckIn chk) env = w.insertCheckIn chk := hok
    rw [hexec, insertCheckIn]
    cases hi : w.checkIns.insert chk with
    | none => exact .inl ⟨_, rfl⟩
    | some t => exact .inr ⟨t, rfl, rfl⟩

theorem exec_selectCheckInOfUser {w : SafetyStore} {id userID : UUID} {env : Env} {chk : CheckIn}
    (h : (w.exec (.selectCheckInOfUser id userID) env).2 = .ok chk) :
    w.checkIns.find? id = some chk ∧ chk.userID = userID := by
  simpa using queryRow_eq_ok.mp (Env.ok_of_attempt h)

theorem exec_selectCheckInsOfUser {w : SafetyStore} {userID : UUID} {status : String} {env : Env}
    {rows : List CheckIn} (h : (w.exec (.selectCheckInsOfUser userID status) env).2 = .ok rows) :
    rows = w.checkInsOfUser env userID status :=
  (Except.ok.inj (Env.ok_of_attempt h)).symm

theorem mem_checkInsOfUser {w : SafetyStore} {env : Env} {userID : UUID} {status : String}
    {chk : CheckIn} : chk ∈ w.checkInsOfUser env userID status ↔
      chk ∈ w.checkIns.rows ∧ chk.userID = userID ∧ (status = "" ∨ chk.status.text = status) := by
  simp [checkInsOfUser, List.mem_insertionSort]

/-- So is an alert. -/
theorem exec_insertAlert (w : SafetyStore) (alert : EmergencyAlert) (env : Env) :
    (∃ e, w.exec (.insertAlert alert) env = (w, .error e)) ∨
      ∃ t, w.alerts.insert alert = some t ∧
        w.exec (.insertAlert alert) env = ({ w with alerts := t }, .ok ()) := by
  rcases env.attempt_cases w (w.insertAlert alert) with ⟨e, he⟩ | hok
  · exact .inl ⟨e, he⟩
  · have hexec : w.exec (.insertAlert alert) env = w.insertAlert alert := hok
    rw [hexec, insertAlert]
    split
    · cases hi : w.alerts.insert alert with
      | none => exact .inl ⟨_, rfl⟩
      | some t => exact .inr ⟨t, rfl, rfl⟩
    · exact .inl ⟨_, rfl⟩

theorem exec_updateResolved (w : SafetyStore) (resolverID : UUID) (resolvedAt updatedAt : Time)
    (id : UUID) (env : Env) :
    (∃ e, w.exec (.updateResolved resolverID resolvedAt updatedAt id) env = (w, .error e)) ∨
      w.exec (.updateResolved resolverID resolvedAt updatedAt id) env =
        (w.updateResolved resolverID resolvedAt updatedAt id, .ok ()) :=
  env.attempt_cases w _

theorem exec_selectAlert {w : SafetyStore} {id : UUID} {env : Env} {alert : EmergencyAlert}
    (h : (w.exec (.selectAlert id) env).2 = .ok alert) : w.alerts.find? id = some alert :=
  queryRow_eq_ok.mp (Env.ok_of_attempt h)

theorem exec_selectAlertsOfUser {w : SafetyStore} {userID : UUID} {status : String} {env : Env}
    {rows : List EmergencyAlert}
    (h : (w.exec (.selectAlertsOfUser userID status) env).2 = .ok rows) :
    rows = w.alertsOfUser env userID status :=
  (Except.ok.inj (Env.ok_of_attempt h)).symm

theorem mem_alertsOfUser {w : SafetyStore} {env : Env} {userID : UUID} {status : String}
    {a : EmergencyAlert} : a ∈ w.alertsOfUser env userID status ↔
      a ∈ w.alerts.rows ∧ a.userID = userID ∧ (status = "" ∨ a.status.text = status) := by
  simp [alertsOfUser, List.mem_insertionSort]

/-- An alert is resolved if it is the one that is named and still active. -/
theorem find?_updateResolved (w : SafetyStore) (resolverID : UUID) (resolvedAt updatedAt : Time)
    (id i : UUID) : (w.updateResolved resolverID resolvedAt updatedAt id).alerts.find? i =
      (w.alerts.find? i).map fun a =>
        if i = id ∧ a.status = .active then a.resolve resolverID resolvedAt updatedAt else a := by
  rw [updateResolved, Table.find?_updateWhere]
  refine Option.map_congr fun a ha => ?_
  simp only [decide_eq_true_eq, Table.key_of_find? ha]

end SafetyStore

/-- Programs of the check-in and the emergency service. -/
abbrev Safety (α : Type) : Type := Program SafetyOp.Res α

namespace Safety

open Program

abbrev timeNow : Safety Time := call SafetyOp.timeNow
abbrev newUUID : Safety UUID := call SafetyOp.newUUID
abbrev insertCheckIn (chk : CheckIn) : Safety (Except String Unit) :=
  call (SafetyOp.insertCheckIn chk)
abbrev selectCheckInForUpdate (checkInID : UUID) : Safety (Except String CheckIn) :=
  call (SafetyOp.selectCheckInForUpdate checkInID)
abbrev updateCompleted (completedAt updatedAt : Time) (checkInID : UUID) :
    Safety (Except String Unit) :=
  call (SafetyOp.updateCompleted completedAt updatedAt checkInID)
abbrev selectCheckInOfUser (checkInID userID : UUID) : Safety (Except String CheckIn) :=
  call (SafetyOp.selectCheckInOfUser checkInID userID)
abbrev selectCheckInsOfUser (userID : UUID) (status : String) :
    Safety (Except String (List CheckIn)) :=
  call (SafetyOp.selectCheckInsOfUser userID status)
abbrev selectMissedForUpdate : Safety (Except String (List MissedCheckIn)) :=
  call SafetyOp.selectMissedForUpdate
abbrev rowsNext : Safety (Except String Unit) := call SafetyOp.rowsNext
abbrev rowsScan : Safety (Except String Unit) := call SafetyOp.rowsScan
abbrev updateMissed (updatedAt : Time) (checkInID : UUID) : Safety (Except String Unit) :=
  call (SafetyOp.updateMissed updatedAt checkInID)
abbrev insertAlert (alert : EmergencyAlert) : Safety (Except String Unit) :=
  call (SafetyOp.insertAlert alert)
abbrev updateResolved (resolverID : UUID) (resolvedAt updatedAt : Time) (alertID : UUID) :
    Safety (Except String Unit) :=
  call (SafetyOp.updateResolved resolverID resolvedAt updatedAt alertID)
abbrev selectAlert (alertID : UUID) : Safety (Except String EmergencyAlert) :=
  call (SafetyOp.selectAlert alertID)
abbrev selectAlertsOfUser (userID : UUID) (status : String) :
    Safety (Except String (List EmergencyAlert)) :=
  call (SafetyOp.selectAlertsOfUser userID status)

/-- Scanning rows issues nothing but the requests of the row stream. -/
theorem issues_scanRows {admissible : SafetyOp → Prop} (hnext : admissible .rowsNext)
    (hscan : admissible .rowsScan) {ρ : Type} (scanning : String) (acc rows : List ρ) :
    (scanRows rowsNext rowsScan scanning acc rows).Issues admissible := by
  induction rows generalizing acc with
  | nil => trivial
  | cons row rest ih =>
    refine .request hnext fun r => ?_
    cases r with
    | error e => trivial
    | ok _ =>
      refine .request hscan fun r => ?_
      cases r with
      | error e => trivial
      | ok _ => exact ih (acc ++ [row])

section Sequential

variable {α : Type} {post : α → SafetyStore → Prop} {w : SafetyStore}

theorem ensures_timeNow {next : Time → Safety α}
    (h : ∀ now, Program.Ensures SafetyStore.exec post (next now) w) :
    Program.Ensures SafetyStore.exec post (.request SafetyOp.timeNow next) w :=
  fun env => h env.now

theorem ensures_newUUID {next : UUID → Safety α}
    (h : ∀ id, Program.Ensures SafetyStore.exec post (next id) w) :
    Program.Ensures SafetyStore.exec post (.request SafetyOp.newUUID next) w :=
  fun env => h env.uuid

/-- Scanning rows touches no table, and gives no others. -/
theorem ensures_scanRows {ρ : Type} (scanning : String) (acc rows : List ρ) (w : SafetyStore) :
    Program.Ensures SafetyStore.exec
      (fun r w' => w' = w ∧ ∀ scanned, r = .ok scanned → scanned = acc ++ rows)
      (scanRows rowsNext rowsScan scanning acc rows) w := by
  have hsame : ∀ op : SafetyOp, SafetyStore.readOnly op = true → ∀ env, (w.exec op env).1 = w :=
    fun op hop env => SafetyStore.exec_readOnly hop w env
  induction rows generalizing acc with
  | nil => exact ⟨rfl, fun scanned h => by rw [← Except.ok.inj h, List.append_nil]⟩
  | cons row rest ih =>
    simp only [scanRows, Program.call_bind, Program.pure_eq]
    intro env
    rw [hsame .rowsNext rfl env]
    cases (w.exec .rowsNext env).2 with
    | error e => exact ⟨rfl, fun scanned h => by cases h⟩
    | ok _ =>
      intro env'
      rw [hsame .rowsScan rfl env']
      cases (w.exec .rowsScan env').2 with
      | error e => exact ⟨rfl, fun scanned h => by cases h⟩
      | ok _ => simpa using ih (acc ++ [row])

end Sequential

section Recorded

variable {ι : Type}

/-- The tables with the requests performed on them so far. -/
abbrev Shared (ι : Type) : Type := Recorded SafetyOp.Res SafetyStore ι

abbrev History (ι : Type) : Type := List (Event SafetyOp.Res ι)

def perform : ι → Shared ι → (op : SafetyOp) → Env → Shared ι × op.Res :=
  Recorded.perform SafetyStore.exec

/-- The state after a request, in terms of the world. -/
theorem perform_eq (t : ι) (s : Shared ι) (op : SafetyOp) (env : Env) :
    perform t s op env = (⟨(s.world.exec op env).1,
      ⟨t, op, (s.world.exec op env).2⟩ :: s.history⟩, (s.world.exec op env).2) := rfl

theorem perform_readOnly_world (t : ι) (s : Shared ι) (op : SafetyOp) (env : Env)
    (h : SafetyStore.readOnly op = true) : (perform t s op env).1.world = s.world :=
  SafetyStore.exec_readOnly h s.world env

end Recorded

end Safety

end SafetyDao
