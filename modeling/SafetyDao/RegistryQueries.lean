import SafetyDao.ReportStore

/-!
# Searching, reading and moderating reports

`SearchReports`, `GetReport` and `UpdateReportStatus` as request programs.
-/
namespace SafetyDao

namespace ReportSql

/-- One more condition, its argument and the next placeholder number. -/
def and (sql : ReportSql) (condition : ℕ → ReportCondition) (arg : String) : ReportSql :=
  ⟨sql.conditions ++ [condition sql.argIdx], sql.args ++ [arg], sql.argIdx + 1⟩

/-- The statement that `SearchReports` puts together. -/
def search (query category status : String) : ReportSql :=
  let sql : ReportSql := ⟨[], [], 1⟩
  let sql := if query ≠ "" then sql.and .textLike ("%" ++ query ++ "%") else sql
  let sql := if category ≠ "" then sql.and .category category else sql
  if status ≠ "" then sql.and .status status else sql

end ReportSql

namespace RegistryService
open Program

def searchReports (query category status : String) :
    Reporting (Except String (List ModeratedReport)) := do
  let sql := ReportSql.search query category status
  match ← call (ReportOp.selectReports sql.conditions sql.args) with
  | .error e => return .error ("searching reports: " ++ e)
  | .ok rows =>
    scanRows (call ReportOp.rowsNext) (call ReportOp.rowsScan) "scanning report: " [] rows

def getReport (reportID : UUID) : Reporting (Except String ModeratedReport) := do
  match ← call (ReportOp.selectReport reportID) with
  | .error e => return .error ("report not found: " ++ e)
  | .ok r => return .ok r

/-- The map `validStatuses`. -/
def validStatuses : List String := ["verified", "dismissed"]

def updateReportStatus (reportID moderatorID : UUID) (status : String) :
    Reporting (Except String ModeratedReport) := do
  if status ∉ validStatuses then
    return .error ("invalid status: " ++ status)
  else
    let now ← call ReportOp.timeNow
    match ← call (ReportOp.updateReport status moderatorID now now reportID) with
    | .error e => return .error ("updating report status: " ++ e)
    | .ok _ => getReport reportID

end RegistryService

end SafetyDao
