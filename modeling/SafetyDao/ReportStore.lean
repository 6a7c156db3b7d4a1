import SafetyDao.LikePattern
import SafetyDao.RegistryService

/-!
# Reports and their moderation in the database

The table `bad_client_reports` with the columns a moderator sets, and one request for each
SQL statement on it that reads reports or decides on one. A search is its list of
conditions, each with the number of its placeholder, and the list of arguments.
-/
namespace SafetyDao

structure ModeratedReport extends BadClientReport where
  moderatorID : Option UUID
  moderatedAt : Option Time
deriving DecidableEq

abbrev ReportStore : Type := Table fun r : ModeratedReport => r.id

/-- A condition of the search, by the number of its placeholder. -/
inductive ReportCondition where
  | textLike (argIdx : ℕ)
  | category (argIdx : ℕ)
  | status (argIdx : ℕ)
deriving DecidableEq

/-- The number behind the dollar sign. -/
def ReportCondition.placeholder : ReportCondition → ℕ
  | .textLike i => i
  | .category i => i
  | .status i => i

/-- The statement of a search while it is put together. -/
structure ReportSql where
  conditions : List ReportCondition
  args : List String
  argIdx : ℕ

inductive ReportOp where
  | timeNow
  | selectReport (reportID : UUID)
  | selectReports (conditions : List ReportCondition) (args : List String)
  | rowsNext
  | rowsScan
  | updateReport (status : String) (moderatorID : UUID) (moderatedAt updatedAt : Time)
      (reportID : UUID)
deriving DecidableEq

abbrev ReportOp.Res : ReportOp → Type
  | .timeNow => Time
  | .selectReport _ => Except String ModeratedReport
  | .selectReports .. => Except String (List ModeratedReport)
  | .rowsNext => Except String Unit
  | .rowsScan => Except String Unit
  | .updateReport .. => Except String Unit

namespace ModeratedReport

/-- `SET status = $1, moderator_id = $2, moderated_at = $3, updated_at = $4`. -/
def moderate (status : String) (moderatorID : UUID) (moderatedAt updatedAt : Time)
    (r : ModeratedReport) : ModeratedReport :=
  { r with
    status := status
    updatedAt := updatedAt
    moderatorID := some moderatorID
    moderatedAt := some moderatedAt }

@[simp] theorem moderate_id (status : String) (moderatorID : UUID) (moderatedAt updatedAt : Time)
    (r : ModeratedReport) : (r.moderate status moderatorID moderatedAt updatedAt).id = r.id := rfl

end ModeratedReport

namespace ReportStore
open LikePattern (Folding)

/-- The bytes of a text value, which PostgreSQL wants without a zero. -/
def storable (s : String) : Bool := s.toList.all (· ≠ '\x00')

/-- Whether a row meets a condition. `ILIKE` stands twice in one of them, for one placeholder. -/
def meets (F : Folding) (args : List String) (r : ModeratedReport) : ReportCondition → Bool
  | .textLike i =>
    let pattern := (args.getD (i - 1) "").toList
    F.ilike pattern r.clientIdentifier.toList = some true ||
      F.ilike pattern r.description.toList = some true
  | .category i => r.category = args.getD (i - 1) ""
  | .status i => r.status = args.getD (i - 1) ""

/-- Whether the argument of a condition is a pattern, if it has to be one. -/
def wellFormed (args : List String) : ReportCondition → Bool
  | .textLike i => (LikePattern.parse (args.getD (i - 1) "").toList).isSome
  | _ => true

/-- `SELECT ... WHERE 1=1 AND ... ORDER BY created_at DESC`. The statement has as many
parameters as its highest placeholder says. -/
def selectReports (F : Folding) (w : ReportStore) (env : Env) (conditions : List ReportCondition)
    (args : List String) : Except String (List ModeratedReport) :=
  if (conditions.map ReportCondition.placeholder).foldr max 0 ≠ args.length then
    .error "mismatched param and argument count"
  else if ¬ args.all storable then
    .error "invalid byte sequence for encoding \"UTF8\": 0x00"
  else if ¬ conditions.all (wellFormed args) then
    .error "LIKE pattern must not end with escape character"
  else .ok ((env.arrange (fun r => r.id)
    (w.rows.filter fun r => conditions.all (meets F args r))).insertionSort
      (fun a b => b.createdAt ≤ a.createdAt))

/-- `UPDATE ... WHERE id = $5`; no row is an error of its own. -/
def updateReport (w : ReportStore) (status : String) (moderatorID : UUID)
    (moderatedAt updatedAt : Time) (reportID : UUID) : ReportStore × Except String Unit :=
  if status ∉ ReportTable.reportStatuses then
    (w, .error ("new row for relation \"bad_client_reports\" violates check constraint " ++
      "\"bad_client_reports_status_check\""))
  else (w.update reportID (.moderate status moderatorID moderatedAt updatedAt)
    (ModeratedReport.moderate_id _ _ _ _), .ok ())

def exec (F : Folding) (w : ReportStore) (op : ReportOp) (env : Env) : ReportStore × op.Res :=
  match op with
  | .timeNow => (w, env.now)
  | .selectReport id => env.attempt w (w, queryRow (w.find? id))
  | .selectReports conditions args =>
    env.attempt w (w, selectReports F w env conditions args)
  | .rowsNext => env.attempt w (w, .ok ())
  | .rowsScan => env.attempt w (w, .ok ())
  | .updateReport status moderatorID moderatedAt updatedAt id =>
    env.attempt w (w.updateReport status moderatorID moderatedAt updatedAt id)

/-- The requests that leave the table alone whatever they answer. -/
def readOnly : ReportOp → Bool
  | .updateReport .. => false
  | _ => true

theorem exec_readOnly {op : ReportOp} (h : readOnly op = true) (F : Folding) (w : ReportStore)
    (env : Env) : (w.exec F op env).1 = w := by
  cases op <;> simp only [readOnly, Bool.false_eq_true] at h <;> simp only [exec] <;>
    (unfold Env.attempt; split <;> rfl)

theorem exec_selectReport {F : Folding} {w : ReportStore} {id : UUID} {env : Env}
    {r : ModeratedReport} (h : (w.exec F (.selectReport id) env).2 = .ok r) :
    w.find? id = some r :=
  queryRow_eq_ok.mp (Env.ok_of_attempt h)

/-- A decision is rejected, or it is in the row of its report and in no other. -/
theorem exec_updateReport (F : Folding) (w : ReportStore) (status : String) (moderatorID : UUID)
    (moderatedAt updatedAt : Time) (id : UUID) (env : Env) :
    (∃ e, w.exec F (.updateReport status moderatorID moderatedAt updatedAt id) env =
      (w, .error e)) ∨
    w.exec F (.updateReport status moderatorID moderatedAt updatedAt id) env =
      (w.update id (.moderate status moderatorID moderatedAt updatedAt)
        (ModeratedReport.moderate_id _ _ _ _), .ok ()) := by
  rcases env.attempt_cases w (w.updateReport status moderatorID moderatedAt updatedAt id) with
    ⟨e, he⟩ | hok
  · exact .inl ⟨e, he⟩
  · have hexec : w.exec F (.updateReport status moderatorID moderatedAt updatedAt id) env =
        w.updateReport status moderatorID moderatedAt updatedAt id := hok
    rw [hexec, updateReport]
    split
    · exact .inl ⟨_, rfl⟩
    · exact .inr rfl

end ReportStore

/-- Programs that read reports or decide on one. -/
abbrev Reporting (α : Type) : Type := Program ReportOp.Res α

end SafetyDao
