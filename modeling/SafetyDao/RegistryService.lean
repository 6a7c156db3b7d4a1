import SafetyDao.CheckinHandlers
import SafetyDao.Json

/-!
# Submitting a report to the registry

`RegistryService.SubmitReport` on the table of reports, and what the handler's decoder makes of
the body it gets.
-/
namespace SafetyDao

structure BadClientReport where
  id : UUID
  reporterID : UUID
  clientIdentifier : String
  category : String
  description : String
  status : String
  createdAt : Time
  updatedAt : Time
deriving DecidableEq

abbrev ReportTable : Type := Table BadClientReport.id

inductive RegistryOp where
  | newUUID
  | timeNow
  | insertReport (report : BadClientReport)

abbrev RegistryOp.Res : RegistryOp → Type
  | .newUUID => UUID
  | .timeNow => Time
  | .insertReport _ => Except String Unit

/-- Programs of the registry service. -/
abbrev Registry (α : Type) : Type := Program RegistryOp.Res α

namespace ReportTable

/-- The values the column `category` may have. -/
def reportCategories : List String :=
  ["violent", "harassment", "theft", "stalking", "non_payment", "other"]

def reportStatuses : List String := ["pending", "verified", "dismissed"]

def insertReport (w : ReportTable) (report : BadClientReport) : ReportTable × Except String Unit :=
  if report.category ∉ reportCategories then
    (w, .error ("new row for relation \"bad_client_reports\" violates check constraint " ++
      "\"bad_client_reports_category_check\""))
  else if report.status ∉ reportStatuses then
    (w, .error ("new row for relation \"bad_client_reports\" violates check constraint " ++
      "\"bad_client_reports_status_check\""))
  else match w.insert report with
    | none => (w, .error
        "duplicate key value violates unique constraint \"bad_client_reports_pkey\"")
    | some t => (t, .ok ())

def exec (w : ReportTable) (op : RegistryOp) (env : Env) : ReportTable × op.Res :=
  match op with
  | .newUUID => (w, env.uuid)
  | .timeNow => (w, env.now)
  | .insertReport report => env.attempt w (w.insertReport report)

end ReportTable

namespace RegistryService
open Program

def submitReport (reporterID : UUID) (input : NewReport) :
    Registry (Except String BadClientReport) := do
  if input.clientIdentifier = "" then return .error "client_identifier is required"
  else do
    let id ← call RegistryOp.newUUID
    let createdAt ← call RegistryOp.timeNow
    let updatedAt ← call RegistryOp.timeNow
    let report : BadClientReport := ⟨id, reporterID, input.clientIdentifier, input.category,
      input.description, "pending", createdAt, updatedAt⟩
    match ← call (RegistryOp.insertReport report) with
    | .error e => return .error ("inserting report: " ++ e)
    | .ok _ => return .ok report

end RegistryService

namespace NewReport

inductive Field where
  | clientIdentifier
  | category
  | description

/-- The tags of the fields. -/
def fields : List (Text × Field) :=
  [("client_identifier".toList, .clientIdentifier), ("category".toList, .category),
    ("description".toList, .description)]

/-- The field of a name: one with that very tag, else one whose tag differs in case only. -/
def field (name : Text) : Option Field :=
  ((fields.find? fun f => f.1 = name).or
    (fields.find? fun f => Checkin.equalFold f.1 name)).map Prod.snd

def set (r : NewReport) (s : String) : Field → NewReport
  | .clientIdentifier => { r with clientIdentifier := s }
  | .category => { r with category := s }
  | .description => { r with description := s }

/-- An unknown name is skipped, `null` leaves the field, and all else must be a string. -/
def decodeMember (r : NewReport) (m : Text × Json) : Option NewReport :=
  match field m.1, m.2 with
  | none, _ => some r
  | some _, .null => some r
  | some f, .string s => some (r.set (String.ofList s) f)
  | some _, _ => none

def ofJson : Json → Option NewReport
  | .null => some ⟨"", "", ""⟩
  | .object members => members.foldlM decodeMember ⟨"", "", ""⟩
  | _ => none

/-- `json.NewDecoder(r.Body).Decode(&input)`. -/
def decodeBody (body : Text) : Option NewReport := (Json.decode body).bind ofJson

/-- An object none of whose names is a field leaves all fields empty. -/
theorem ofJson_object {members : List (Text × Json)} (h : ∀ m ∈ members, field m.1 = none) :
    ofJson (.object members) = some ⟨"", "", ""⟩ := by
  change members.foldlM decodeMember ⟨"", "", ""⟩ = _
  generalize (⟨"", "", ""⟩ : NewReport) = r
  induction members with
  | nil => rfl
  | cons m ms ih =>
    have hm : decodeMember r m = some r := by rw [decodeMember, h m List.mem_cons_self]
    rw [List.foldlM_cons, hm]
    exact ih fun m' hm' => h m' (List.mem_cons_of_mem _ hm')

end NewReport

end SafetyDao
