import SafetyDao.Base64
import SafetyDao.RegistryService

/-!
# The report form and the registry

The form sends a category, a region and the details in base64, under names of its own. The
registry knows none of these names and asks for a client, which the form has no field for, so no
report of the form gets into the registry.
-/
namespace SafetyDao

/-- What the user has put into the form. -/
structure ReportForm where
  category : Text
  region : Text
  details : Text

namespace ReportForm
open Json (Scalar escapeJs writeObject)

def categories : List String :=
  ["Violence", "Theft", "Harassment", "Non-payment", "Boundary violation", "Other"]

/-- How a submission ends before its request is sent, or the body that is sent. -/
inductive Submission where
  | refused (error : String)
  | thrown (error : String)
  | sent (body : Text)

/-- `btoa`: the base64 of a text of characters below 256. -/
def btoa (t : Text) : Except String Text :=
  if t.all (·.toNat < 256) then .ok (Base64.encode (t.map fun c => UInt8.ofNat c.toNat))
  else .error "The string to be encoded contains characters outside of the Latin1 range."

/-- The members of the object that the form passes on; an undefined one is left out. -/
def members (form : ReportForm) (encryptedDetails : Text) : List (Text × Scalar) :=
  [("reportCategory".toList, .string form.category)] ++
    (if form.region = [] then [] else [("locationRegion".toList, .string form.region)]) ++
    [("encryptedDetails".toList, .string encryptedDetails)]

def handleSubmit (form : ReportForm) : Submission :=
  if form.category = [] ∨ form.details = [] then .refused "Category and details are required"
  else match btoa form.details with
    | .error e => .thrown e
    | .ok encryptedDetails => .sent (writeObject escapeJs (form.members encryptedDetails))

/-- What the form's check lets through: a category of the list, and some details. -/
def Valid (form : ReportForm) : Prop :=
  form.category ∈ categories.map String.toList ∧ form.details ≠ []

/-- The report is accepted and stored as the user has entered it. -/
def Delivered (form : ReportForm) (reporterID : UUID) (w : ReportTable) : Prop :=
  ∃ body input report w', form.handleSubmit = .sent body ∧
    NewReport.decodeBody body = some input ∧
    (RegistryService.submitReport reporterID input).Completes ReportTable.exec w (.ok report) w' ∧
    report ∈ w'.rows ∧ report.category.toList = form.category ∧
    report.description.toList = form.details

theorem field_members {form : ReportForm} {encryptedDetails : Text} {m : Text × Scalar}
    (h : m ∈ form.members encryptedDetails) : NewReport.field m.1 = none := by
  have hname : m.1 = "reportCategory".toList ∨ m.1 = "locationRegion".toList ∨
      m.1 = "encryptedDetails".toList := by
    simp only [members, List.mem_append, List.mem_singleton] at h
    rcases h with (rfl | h) | rfl
    · exact .inl rfl
    · split at h
      · cases h
      · obtain rfl := List.mem_singleton.mp h
        exact .inr (.inl rfl)
    · exact .inr (.inr rfl)
  rcases hname with h | h | h <;> (rw [h]; rfl)

/-- The registry finds none of its fields in what the form sends. -/
theorem decodeBody_handleSubmit {form : ReportForm} {body : Text}
    (h : form.handleSubmit = .sent body) : NewReport.decodeBody body = some ⟨"", "", ""⟩ := by
  unfold handleSubmit at h
  split at h
  · cases h
  · split at h
    · cases h
    · rename_i encryptedDetails _
      obtain rfl := Submission.sent.inj h
      have hne : form.members encryptedDetails ≠ [] :=
        List.append_ne_nil_of_right_ne_nil _ (List.cons_ne_nil _ _)
      have hfields : ∀ m ∈ (form.members encryptedDetails).map (fun m => (m.1, m.2.toJson)),
          NewReport.field m.1 = none := by
        intro m hm
        obtain ⟨m', hm', rfl⟩ := List.mem_map.mp hm
        exact field_members hm'
      rw [NewReport.decodeBody, Json.decode_writeObject Json.escapeJs_sound hne, Option.bind_some]
      exact NewReport.ofJson_object hfields

theorem submitReport_empty (reporterID : UUID) :
    RegistryService.submitReport reporterID ⟨"", "", ""⟩ =
      .done (.error "client_identifier is required") := rfl

theorem not_delivered (form : ReportForm) (reporterID : UUID) (w : ReportTable) :
    ¬ form.Delivered reporterID w := by
  rintro ⟨body, input, report, w', hsent, hdecoded, ⟨envs, hrun⟩, -⟩
  rw [decodeBody_handleSubmit hsent] at hdecoded
  obtain rfl := Option.some.inj hdecoded
  rw [submitReport_empty] at hrun
  cases hrun

/-- Nor would a report under the right names pass: the form's categories are not the column's. -/
theorem insertReport_of_category (w : ReportTable) {report : BadClientReport}
    (h : report.category ∈ categories) : ∃ e, w.insertReport report = (w, .error e) := by
  have hnot : ∀ category ∈ categories, category ∉ ReportTable.reportCategories := by decide
  exact ⟨_, if_pos (hnot _ h)⟩

/-- No report is delivered: each that is sent is turned away for want of a client. -/
theorem no_report_delivered (form : ReportForm) (reporterID : UUID) (w : ReportTable) :
    ¬ form.Delivered reporterID w ∧ ∀ body, form.handleSubmit = .sent body →
      ∃ input, NewReport.decodeBody body = some input ∧
        RegistryService.submitReport reporterID input =
          .done (.error "client_identifier is required") :=
  ⟨not_delivered form reporterID w, fun _ hsent =>
    ⟨_, decodeBody_handleSubmit hsent, submitReport_empty reporterID⟩⟩

theorem theft_report_not_delivered :
    ¬ ∀ (form : ReportForm) (reporterID : UUID) (w : ReportTable),
      form.Valid → form.Delivered reporterID w := by
  intro h
  have hvalid : (ReportForm.mk "Theft".toList [] "Took my phone.".toList).Valid := by
    refine ⟨?_, ?_⟩ <;> decide
  exact not_delivered _ 1 .empty (h _ 1 .empty hvalid)

end ReportForm

end SafetyDao
