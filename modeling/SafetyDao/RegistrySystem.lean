import SafetyDao.HashVector
import SafetyDao.ModeSwitch
import SafetyDao.ReportSearch

/-!
# The registry with its table and its index

All operations of the registry service run interleaved on the table of reports and on the
client of the vector database. `SubmitReport` answers its caller and leaves the embedding to
a goroutine; the answers are requests of their own, so that what is asked later can be told
from what is still under way. The texts of identifiers and times are parameters, of which no
law is assumed.
-/
namespace SafetyDao

/-- The payload of a point. -/
structure ReportPoint where
  reportID : String
  clientIdentifier : String
  category : String
  status : String
  createdAt : String
deriving DecidableEq

/-- How identifiers and times are written. -/
structure IndexTexts where
  uuid : UUID → String
  time : Time → String

namespace ReportStore

/-- The INSERT names neither the moderator nor the time of a decision. -/
def insertReport (w : ReportStore) (report : BadClientReport) : ReportStore × Except String Unit :=
  if report.category ∉ ReportTable.reportCategories then
    (w, .error ("new row for relation \"bad_client_reports\" violates check constraint " ++
      "\"bad_client_reports_category_check\""))
  else if report.status ∉ ReportTable.reportStatuses then
    (w, .error ("new row for relation \"bad_client_reports\" violates check constraint " ++
      "\"bad_client_reports_status_check\""))
  else match w.insert ⟨report, none, none⟩ with
    | none => (w, .error
        "duplicate key value violates unique constraint \"bad_client_reports_pkey\"")
    | some t => (t, .ok ())

def submitExec (w : ReportStore) (op : RegistryOp) (env : Env) : ReportStore × op.Res :=
  match op with
  | .newUUID => (w, env.uuid)
  | .timeNow => (w, env.now)
  | .insertReport report => env.attempt w (w.insertReport report)

/-- A report either is rejected and nothing changes, or it is the new last row. -/
theorem submitExec_insertReport (w : ReportStore) (report : BadClientReport) (env : Env) :
    (∃ e, w.submitExec (.insertReport report) env = (w, .error e)) ∨
      ∃ t, w.insert ⟨report, none, none⟩ = some t ∧
        w.submitExec (.insertReport report) env = (t, .ok ()) := by
  rcases env.attempt_cases w (w.insertReport report) with ⟨e, he⟩ | hok
  · exact .inl ⟨e, he⟩
  · have hexec : w.submitExec (.insertReport report) env = w.insertReport report := hok
    rw [hexec, insertReport]
    split
    · exact .inl ⟨_, rfl⟩
    split
    · exact .inl ⟨_, rfl⟩
    cases hi : w.insert ⟨report, none, none⟩ with
    | none => exact .inl ⟨_, rfl⟩
    | some t => exact .inr ⟨t, rfl, rfl⟩

end ReportStore

namespace RegistrySystem
open LikePattern (Folding)
open MockSearch (Stored)
open ModeSwitch (ClientOp Fate)

/-- The conversions between the number types. -/
structure Floats (F32 F64 : Type) where
  ofByte : UInt8 → F32
  float64 : F32 → F64
  float32 : F64 → F32

inductive Op (F32 : Type) where
  | submit (op : RegistryOp)
  | table (op : ReportOp)
  | index (op : ClientOp F32 ReportPoint)
  | respond (r : Except String BadClientReport)

abbrev Op.Res {F32 : Type} : Op F32 → Type
  | .submit op => op.Res
  | .table op => op.Res
  | .index op => op.Res
  | .respond _ => Unit

abbrev Registering (F32 α : Type) : Type := Program (@Op.Res F32) α

inductive Call where
  | submitReport (reporterID : UUID) (input : NewReport)
  | getReport (reportID : UUID)
  | searchReports (query category status : String)
  | updateReportStatus (reportID moderatorID : UUID) (status : String)
  | findDuplicates (clientIdentifier description : String)

/-- What a call has returned, and for `submitReport` that its goroutine has ended. -/
inductive Reply (F32 : Type) where
  | submitted
  | report (r : Except String ModeratedReport)
  | reports (r : Except String (List ModeratedReport))
  | duplicates (r : Option (Except String (List (MockPoint F32 ReportPoint))))

structure World (F32 : Type) where
  reports : ReportStore
  vectors : ModeSwitch.World F32 ReportPoint

/-- What the environment contributes to a request: to the database and to the index. -/
structure RegistryEnv where
  env : Env
  fate : Fate ReportPoint

variable {F32 F64 : Type} [OfNat F32 0] [OfNat F32 255] [Add F32] [Mul F32] [Div F32]
  [OfNat F64 0] [OfNat F64 2] [OfScientific F64] [Add F64] [Sub F64] [Mul F64] [Div F64]
  [BEq F64] [LT F64] [DecidableLT F64]

section Programs

variable (texts : IndexTexts) (floats : Floats F32 F64)

/-- The vector of a report's texts. -/
def vectorOf (clientIdentifier description : String) : List F32 :=
  hashToVector floats.ofByte floats.float64 floats.float32
    (clientIdentifier ++ description).toUTF8.toList

/-- What the goroutine stores for a report. -/
def embedding (report : BadClientReport) : Stored F32 ReportPoint where
  collection := "bad_client_reports"
  id := texts.uuid report.id
  vector := vectorOf floats report.clientIdentifier report.description
  payload := {
    reportID := texts.uuid report.id
    clientIdentifier := report.clientIdentifier
    category := report.category
    status := report.status
    createdAt := texts.time report.createdAt }

def ofSubmit {α : Type} (p : Registry α) : Registering F32 α := p.embed .submit fun _ r => r

def ofTable {α : Type} (p : Reporting α) : Registering F32 α := p.embed .table fun _ r => r

def ofIndex {α : Type} (p : ModeSwitch.Shared F32 ReportPoint α) : Registering F32 α :=
  p.embed .index fun _ r => r

/-- `qdrant` tells whether the service was built with a client of the vector database. -/
def Call.program (qdrant : Bool) : Call → Registering F32 (Reply F32)
  | .submitReport reporterID input => do
    match ← ofSubmit (RegistryService.submitReport reporterID input) with
    | .error e => do
      Program.call (Op.respond (.error e))
      return .submitted
    | .ok report => do
      Program.call (Op.respond (.ok report))
      if qdrant then do
        let _ ← ofIndex (ModeSwitch.storeEmbedding (embedding texts floats report))
        return .submitted
      else return .submitted
  | .getReport reportID => .report <$> ofTable (RegistryService.getReport reportID)
  | .searchReports query category status =>
    .reports <$> ofTable (RegistryService.searchReports query category status)
  | .updateReportStatus reportID moderatorID status =>
    .report <$> ofTable (RegistryService.updateReportStatus reportID moderatorID status)
  | .findDuplicates clientIdentifier description =>
    if qdrant then
      .duplicates <$> ofIndex (ModeSwitch.searchSimilar "bad_client_reports"
        (vectorOf floats clientIdentifier description) 5)
    else return .duplicates (some (.ok []))

def exec (F : Folding) (s : World F32) (op : Op F32) (choice : RegistryEnv) : World F32 × op.Res :=
  match op with
  | .submit op =>
    let out := s.reports.submitExec op choice.env
    ({ s with reports := out.1 }, out.2)
  | .table op =>
    let out := s.reports.exec F op choice.env
    ({ s with reports := out.1 }, out.2)
  | .index op =>
    let out := s.vectors.exec floats.float64 op choice.fate
    ({ s with vectors := out.1 }, out.2)
  | .respond _ => (s, ())

end Programs

end RegistrySystem

end SafetyDao
