import SafetyDao.RegistrySystem

/-!
# What the registry keeps

In every interleaving of the operations a report is never deleted and changes by decisions
only, each decision is one that some moderator has called for, and every point of the index
is that of a report in the table. What callers are told stays true in this sense, and a
search shows the table as it is at one moment of the search.
-/
namespace SafetyDao.RegistryRuns
open LikePattern (Folding)
open RegistryService (validStatuses)
open RegistrySystem
open ModeSwitch (ClientOp)

/-- What becomes of a report: nothing, or it is decided on. -/
def Later (r r' : ModeratedReport) : Prop :=
  r' = r ∨ ∃ status ∈ validStatuses, ∃ moderatorID now,
    r' = r.moderate status moderatorID now now

/-- No moderator has decided on the report. -/
def Undecided (r : ModeratedReport) : Prop :=
  r.status = "pending" ∧ r.moderatorID = none ∧ r.moderatedAt = none

/-- The moderator has decided on the report, and nothing has changed since. -/
def DecidedBy (moderatorID : UUID) (r : ModeratedReport) : Prop :=
  r.status ∈ validStatuses ∧ r.moderatorID = some moderatorID ∧ r.moderatedAt = some r.updatedAt

namespace Later

variable {a b c : ModeratedReport}

theorem refl (a : ModeratedReport) : Later a a := .inl rfl

theorem trans (h₁ : Later a b) (h₂ : Later b c) : Later a c := by
  rcases h₂ with rfl | ⟨status, hstatus, m, now, rfl⟩
  · exact h₁
  · rcases h₁ with rfl | ⟨-, -, -, -, rfl⟩
    · exact .inr ⟨status, hstatus, m, now, rfl⟩
    · exact .inr ⟨status, hstatus, m, now, rfl⟩

/-- All but the status and the time of the last change stays. -/
theorem same (h : Later a b) : b.toBadClientReport =
    { a.toBadClientReport with status := b.status, updatedAt := b.updatedAt } := by
  rcases h with rfl | ⟨status, -, m, now, rfl⟩ <;> rfl

end Later

theorem moderate_decidedBy {status : String} (hstatus : status ∈ validStatuses) (moderatorID : UUID)
    (now : Time) (r : ModeratedReport) :
    DecidedBy moderatorID (r.moderate status moderatorID now now) := ⟨hstatus, rfl, rfl⟩

variable {ι F32 F64 : Type}

abbrev Shared (F32 ι : Type) : Type := Recorded (@Op.Res F32) (World F32) ι

abbrev History (F32 ι : Type) : Type := List (Event (@Op.Res F32) ι)

section Origins

variable (calls : ι → Call) (w : World F32)

/-- Where a report comes from: it was there, or its reporter has submitted it. -/
def Submitted (r : ModeratedReport) : Prop :=
  (∃ r₀ ∈ w.reports.rows, Later r₀ r) ∨
    ∃ t, calls t = .submitReport r.reporterID ⟨r.clientIdentifier, r.category, r.description⟩

/-- Where the decision on a report comes from: there is none, it is as it was, or a moderator
has called for this very status. -/
def Decision (r : ModeratedReport) : Prop :=
  Undecided r ∨ r ∈ w.reports.rows ∨
    ∃ t moderatorID, calls t = .updateReportStatus r.id moderatorID r.status ∧
      DecidedBy moderatorID r

/-- The points of the index, live or not. -/
def points (s : World F32) : List (MockPoint F32 ReportPoint) :=
  s.vectors.client.mockData ++ (s.vectors.server "bad_client_reports").rows

/-- The table has the report, or what has become of it. -/
def Holding (r : ModeratedReport) (s : Shared F32 ι) : Prop :=
  ∃ r', s.world.reports.find? r.id = some r' ∧ Later r r'

/-- Who is answered that a report is submitted has asked for it, and the table has it. -/
def Answers (s : Shared F32 ι) : Event (@Op.Res F32) ι → Prop
  | ⟨t, .respond (.ok r), _⟩ => Holding ⟨r, none, none⟩ s ∧ r.status = "pending" ∧
      calls t = .submitReport r.reporterID ⟨r.clientIdentifier, r.category, r.description⟩
  | _ => True

variable {calls w}

theorem Submitted.later {r r' : ModeratedReport} (h : Submitted calls w r) (hlater : Later r r') :
    Submitted calls w r' := by
  rcases h with ⟨r₀, hmem, h₀⟩ | ⟨t, ht⟩
  · exact .inl ⟨r₀, hmem, h₀.trans hlater⟩
  · refine .inr ⟨t, ?_⟩
    rcases hlater with rfl | ⟨status, -, m, now, rfl⟩
    · exact ht
    · exact ht

end Origins

variable [OfNat F32 0] [OfNat F32 255] [Add F32] [Mul F32] [Div F32] [OfNat F64 0] [OfNat F64 2]
  [Add F64] [Sub F64] [Mul F64] [Div F64] [LT F64] [DecidableLT F64]

section Moves

variable (texts : IndexTexts) (floats : Floats F32 F64) (calls : ι → Call) (w : World F32)

/-- The point is the one the service stores for a report of the table when it is submitted. -/
def Indexed (reports : ReportStore) (p : MockPoint F32 ReportPoint) : Prop :=
  ∃ r ∈ reports.rows,
    p = (embedding texts floats { r.toBadClientReport with status := "pending" }).point

structure Inv (s : World F32) : Prop where
  submitted : ∀ r ∈ s.reports.rows, Submitted calls w r
  decision : ∀ r ∈ s.reports.rows, Decision calls w r
  indexed : ∀ p ∈ points s, Indexed texts floats s.reports p

/-- How the table and the index move. -/
structure Moves (s s' : Shared F32 ι) : Prop where
  history : ∃ es, s'.history = es ++ s.history ∧ ∀ e ∈ es, Answers calls s' e
  reports : ∀ i r, s.world.reports.find? i = some r →
    ∃ r', s'.world.reports.find? i = some r' ∧ Later r r'
  inv : Inv texts floats calls w s.world → Inv texts floats calls w s'.world

variable {texts floats calls w}

theorem Moves.refl (s : Shared F32 ι) : Moves texts floats calls w s s :=
  ⟨⟨[], rfl, by simp⟩, fun _ r h => ⟨r, h, .refl r⟩, id⟩

theorem Holding.moves {r : ModeratedReport} {s s' : Shared F32 ι}
    (hm : Moves texts floats calls w s s') (h : Holding r s) : Holding r s' := by
  obtain ⟨b, hb, hrb⟩ := h
  obtain ⟨c, hc, hbc⟩ := hm.reports r.id b hb
  exact ⟨c, hc, hrb.trans hbc⟩

theorem Answers.moves {e : Event (@Op.Res F32) ι} {s s' : Shared F32 ι}
    (hm : Moves texts floats calls w s s') (h : Answers calls s e) : Answers calls s' e := by
  unfold Answers at h ⊢
  split
  · exact ⟨h.1.moves hm, h.2⟩
  · trivial

theorem Moves.trans {s₁ s₂ s₃ : Shared F32 ι} (h₁ : Moves texts floats calls w s₁ s₂)
    (h₂ : Moves texts floats calls w s₂ s₃) : Moves texts floats calls w s₁ s₃ where
  history := by
    obtain ⟨es, hes, hanswers₁⟩ := h₁.history
    obtain ⟨fs, hfs, hanswers₂⟩ := h₂.history
    refine ⟨fs ++ es, by rw [hfs, hes, List.append_assoc], fun e he => ?_⟩
    rcases List.mem_append.mp he with he | he
    · exact hanswers₂ e he
    · exact (hanswers₁ e he).moves h₂
  reports i r hf := by
    obtain ⟨b, hb, hrb⟩ := h₁.reports i r hf
    obtain ⟨c, hc, hbc⟩ := h₂.reports i b hb
    exact ⟨c, hc, hrb.trans hbc⟩
  inv h := h₂.inv (h₁.inv h)

/-- A point stays that of its report. -/
theorem Indexed.mono {reports reports' : ReportStore} {p : MockPoint F32 ReportPoint}
    (h : Indexed texts floats reports p)
    (hrows : ∀ r ∈ reports.rows, ∃ r' ∈ reports'.rows, Later r r') :
    Indexed texts floats reports' p := by
  obtain ⟨r, hr, rfl⟩ := h
  obtain ⟨r', hr', hlater⟩ := hrows r hr
  exact ⟨r', hr', by rw [hlater.same]; rfl⟩

theorem moves_of_world_eq {s s' : Shared F32 ι} {e : Event (@Op.Res F32) ι}
    (hh : s'.history = e :: s.history) (ha : Answers calls s' e) (hw : s'.world = s.world) :
    Moves texts floats calls w s s' where
  history := ⟨[e], hh, by simpa using ha⟩
  reports i r hf := ⟨r, by rw [hw]; exact hf, .refl r⟩
  inv h := by
    rw [hw]
    exact h

/-- A request to the index that leaves its points alone. -/
theorem moves_of_points_eq {s s' : Shared F32 ι} {e : Event (@Op.Res F32) ι}
    (hh : s'.history = e :: s.history) (ha : Answers calls s' e)
    (hr : s'.world.reports = s.world.reports) (hp : points s'.world = points s.world) :
    Moves texts floats calls w s s' where
  history := ⟨[e], hh, by simpa using ha⟩
  reports i r hf := ⟨r, by rw [hr]; exact hf, .refl r⟩
  inv h := by
    refine ⟨?_, ?_, ?_⟩
    · rw [hr]
      exact h.submitted
    · rw [hr]
      exact h.decision
    · rw [hr, hp]
      exact h.indexed

/-- A point of a report in the table is stored, in one place or the other. -/
theorem moves_of_point {s s' : Shared F32 ι} {p : MockPoint F32 ReportPoint}
    {e : Event (@Op.Res F32) ι} (hh : s'.history = e :: s.history) (ha : Answers calls s' e)
    (hr : s'.world.reports = s.world.reports)
    (hp : ∀ q ∈ points s'.world, q = p ∨ q ∈ points s.world)
    (hindexed : Indexed texts floats s.world.reports p) : Moves texts floats calls w s s' where
  history := ⟨[e], hh, by simpa using ha⟩
  reports i r hf := ⟨r, by rw [hr]; exact hf, .refl r⟩
  inv h := by
    refine ⟨?_, ?_, fun q hq => ?_⟩
    · rw [hr]
      exact h.submitted
    · rw [hr]
      exact h.decision
    · rw [hr]
      rcases hp q hq with rfl | hq
      · exact hindexed
      · exact h.indexed q hq

/-- What every move keeps. -/
abbrev Stable (texts : IndexTexts) (floats : Floats F32 F64) (calls : ι → Call) (w : World F32)
    (P : Shared F32 ι → Prop) : Prop := ∀ s s', Moves texts floats calls w s s' → P s → P s'

theorem stable_answers (e : Event (@Op.Res F32) ι) :
    Stable texts floats calls w fun s => Answers calls s e := fun _ _ hm h => h.moves hm

theorem stable_inv : Stable texts floats calls w
    fun s : Shared F32 ι => Inv texts floats calls w s.world := fun _ _ hm => hm.inv

theorem stable_true : Stable texts floats calls w fun _ => True := fun _ _ _ _ => trivial

end Moves

section Replies

variable (texts : IndexTexts) (floats : Floats F32 F64) (F : Folding)

/-- The duplicates that are returned are reports of the table, as they were submitted. -/
def AreReports (ps : List (MockPoint F32 ReportPoint)) (s : Shared F32 ι) : Prop :=
  ∀ p ∈ ps, ∃ r ∈ s.world.reports.rows, p.id = texts.uuid r.id ∧ p.payload =
    (embedding texts floats { r.toBadClientReport with status := "pending" }).payload

/-- Duplicates that are shown are reports, if the server is to be believed. -/
def ShowsReports (honest : Prop) (r : Option (Except String (List (MockPoint F32 ReportPoint))))
    (s : Shared F32 ι) : Prop :=
  ∀ ps, r = some (.ok ps) → honest → AreReports texts floats ps s

/-- What a finished call has told its caller; of duplicates only if the server is to be
believed. -/
def Told (honest : Prop) (call : Call) (reply : Reply F32) (s : Shared F32 ι) : Prop :=
  match call, reply with
  | .getReport id, .report (.ok r) => r.id = id ∧ Holding r s
  | .searchReports query category status, .reports (.ok rs) =>
    ∀ r ∈ rs, Holding r s ∧ ReportSearch.Found F query category status r
  | .updateReportStatus id _ _, .report (.ok r) => r.id = id ∧ Holding r s
  | .findDuplicates _ _, .duplicates (some (.ok ps)) => honest → AreReports texts floats ps s
  | _, _ => True

variable {texts floats F} {calls : ι → Call} {w : World F32}

theorem rows_moves {s s' : Shared F32 ι} (hm : Moves texts floats calls w s s')
    {r : ModeratedReport} (hr : r ∈ s.world.reports.rows) :
    ∃ r' ∈ s'.world.reports.rows, Later r r' := by
  obtain ⟨r', hf, hlater⟩ := hm.reports r.id r (Table.find?_of_mem hr)
  exact ⟨r', Table.mem_of_find? hf, hlater⟩

theorem holding_of_mem {s s' : Shared F32 ι} (hm : Moves texts floats calls w s s')
    {r : ModeratedReport} (hr : r ∈ s.world.reports.rows) : Holding r s' :=
  hm.reports r.id r (Table.find?_of_mem hr)

theorem AreReports.moves {ps : List (MockPoint F32 ReportPoint)} {s s' : Shared F32 ι}
    (hm : Moves texts floats calls w s s') (h : AreReports texts floats ps s) :
    AreReports texts floats ps s' := by
  intro p hp
  obtain ⟨r, hr, hid, hpayload⟩ := h p hp
  obtain ⟨r', hr', hlater⟩ := rows_moves hm hr
  refine ⟨r', hr', ?_, ?_⟩
  · rw [hid, hlater.same]
  · rw [hpayload, hlater.same]
    rfl

/-- The point of a report whose submission has been acknowledged is one of the table. -/
theorem Answers.indexed {t : ι} {report : BadClientReport} {s : Shared F32 ι}
    (h : Answers calls s ⟨t, .respond (.ok report), ()⟩) :
    Indexed texts floats s.world.reports (embedding texts floats report).point := by
  obtain ⟨⟨r', hf, hlater⟩, hstatus, -⟩ := h
  have hfirst : (embedding texts floats report).point =
      (embedding texts floats { report with status := "pending" }).point := by rw [← hstatus]
  refine ⟨r', Table.mem_of_find? hf, ?_⟩
  rw [hfirst, hlater.same]
  rfl

theorem areReports_of_indexed {ps : List (MockPoint F32 ReportPoint)} {s : Shared F32 ι}
    (h : ∀ p ∈ ps, Indexed texts floats s.world.reports p) : AreReports texts floats ps s := by
  intro p hp
  obtain ⟨r, hr, rfl⟩ := h p hp
  exact ⟨r, hr, rfl, rfl⟩

theorem Told.moves {honest : Prop} {call : Call} {reply : Reply F32} {s s' : Shared F32 ι}
    (hm : Moves texts floats calls w s s') (h : Told texts floats F honest call reply s) :
    Told texts floats F honest call reply s' := by
  unfold Told at h ⊢
  split
  · exact ⟨h.1, h.2.moves hm⟩
  · exact fun r hr => ⟨(h r hr).1.moves hm, (h r hr).2⟩
  · exact ⟨h.1, h.2.moves hm⟩
  · exact fun hhonest => (h hhonest).moves hm
  · trivial

end Replies

variable [OfScientific F64] [BEq F64] (texts : IndexTexts) (floats : Floats F32 F64) (F : Folding)

def perform : ι → Shared F32 ι → (op : Op F32) → RegistryEnv → Shared F32 ι × op.Res :=
  Recorded.perform (exec floats F)

omit [OfNat F32 0] [OfNat F32 255] [Add F32] [Div F32] in
theorem perform_eq (t : ι) (s : Shared F32 ι) (op : Op F32) (choice : RegistryEnv) :
    perform floats F t s op choice = (⟨(exec floats F s.world op choice).1,
      ⟨t, op, (exec floats F s.world op choice).2⟩ :: s.history⟩,
      (exec floats F s.world op choice).2) := rfl

/-- The server answers a search with points that it has. -/
def Honest (s : Shared F32 ι) (op : Op F32) (choice : RegistryEnv) : Prop :=
  match op with
  | .index (.exchange (.search collection _ _)) => ∀ r result,
      choice.fate.search = .response r → r.decoded = .ok result → ∀ sp ∈ result,
        ∃ p ∈ (s.world.vectors.server collection).rows, p.id = sp.id ∧ p.payload = sp.payload
  | _ => True

section Requests

variable {texts floats} {calls : ι → Call} {w : World F32} (t : ι) (s : Shared F32 ι)

theorem moves_readOnly {op : ReportOp} (hop : ReportStore.readOnly op = true)
    (choice : RegistryEnv) :
    Moves texts floats calls w s (perform floats F t s (.table op) choice).1 := by
  refine moves_of_world_eq rfl trivial ?_
  rw [perform_eq]
  simp only [exec, ReportStore.exec_readOnly hop]

theorem moves_respond {r : Except String BadClientReport} {s : Shared F32 ι}
    (h : Answers calls s ⟨t, .respond r, ()⟩) (choice : RegistryEnv) :
    Moves texts floats calls w s (perform floats F t s (.respond r) choice).1 :=
  moves_of_world_eq rfl h rfl

theorem moves_draw {op : RegistryOp} (hop : op = .newUUID ∨ op = .timeNow)
    (choice : RegistryEnv) :
    Moves texts floats calls w s (perform floats F t s (.submit op) choice).1 := by
  rcases hop with rfl | rfl <;> exact moves_of_world_eq rfl trivial rfl

/-- A report is added as its reporter submits it. -/
theorem moves_insertReport {report : BadClientReport} (hstatus : report.status = "pending")
    (hcall : calls t = .submitReport report.reporterID
      ⟨report.clientIdentifier, report.category, report.description⟩) (choice : RegistryEnv) :
    Moves texts floats calls w s
      (perform floats F t s (.submit (.insertReport report)) choice).1 := by
  rcases ReportStore.submitExec_insertReport s.world.reports report choice.env with
    ⟨e, he⟩ | ⟨tbl, ht, he⟩
  · refine moves_of_world_eq rfl trivial ?_
    rw [perform_eq]
    simp only [exec, he]
  · rw [perform_eq]
    simp only [exec, he]
    have hmem : ∀ r, r ∈ tbl.rows ↔ r ∈ s.world.reports.rows ∨ r = ⟨report, none, none⟩ :=
      fun r => Table.mem_insert ht
    refine ⟨⟨[_], rfl, by simp [Answers]⟩, fun i r hf => ⟨r, ?_, .refl r⟩,
      fun h => ⟨fun r hr => ?_, fun r hr => ?_, fun p hp => ?_⟩⟩
    · refine (Table.find?_insert ht i).trans ((if_neg ?_).trans hf)
      rintro rfl
      rw [(Table.insert_eq_some.mp ht).1] at hf
      cases hf
    · rcases (hmem r).mp hr with hr | rfl
      · exact h.submitted r hr
      · exact .inr ⟨t, hcall⟩
    · rcases (hmem r).mp hr with hr | rfl
      · exact h.decision r hr
      · exact .inl ⟨hstatus, rfl, rfl⟩
    · exact (h.indexed p hp).mono fun r hr => ⟨r, (hmem r).mpr (.inl hr), .refl r⟩

/-- A report is decided on as a moderator calls for it. -/
theorem moves_updateReport {status : String} {moderatorID reportID : UUID} {now : Time}
    (hstatus : status ∈ validStatuses)
    (hcall : calls t = .updateReportStatus reportID moderatorID status) (choice : RegistryEnv) :
    Moves texts floats calls w s (perform floats F t s
      (.table (.updateReport status moderatorID now now reportID)) choice).1 := by
  rcases ReportStore.exec_updateReport F s.world.reports status moderatorID now now reportID
    choice.env with ⟨e, he⟩ | he
  · refine moves_of_world_eq rfl trivial ?_
    rw [perform_eq]
    simp only [exec, he]
  · rw [perform_eq]
    simp only [exec, he]
    have hmem : ∀ r', r' ∈ (s.world.reports.update reportID (.moderate status moderatorID now now)
        (ModeratedReport.moderate_id _ _ _ _)).rows ↔ ∃ r ∈ s.world.reports.rows,
          (if r.id = reportID then r.moderate status moderatorID now now else r) = r' :=
      fun r' => Table.mem_update
    have hlater : ∀ r : ModeratedReport,
        Later r (if r.id = reportID then r.moderate status moderatorID now now else r) := by
      intro r
      split
      · exact .inr ⟨status, hstatus, moderatorID, now, rfl⟩
      · exact .refl r
    refine ⟨⟨[_], rfl, by simp [Answers]⟩, fun i r hf => ⟨_, ?_, hlater r⟩,
      fun h => ⟨fun r' hr' => ?_, fun r' hr' => ?_, fun p hp => (h.indexed p hp).mono fun r hr =>
        ⟨_, (hmem _).mpr ⟨r, hr, rfl⟩, hlater r⟩⟩⟩
    · rw [Table.find?_update, hf, Table.key_of_find? hf]
      split <;> rfl
    · obtain ⟨r, hr, rfl⟩ := (hmem r').mp hr'
      exact (h.submitted r hr).later (hlater r)
    · obtain ⟨r, hr, rfl⟩ := (hmem r').mp hr'
      split
      · rename_i hid
        exact .inr (.inr ⟨t, moderatorID, hid ▸ hcall,
          moderate_decidedBy hstatus moderatorID now r⟩)
      · exact h.decision r hr

theorem moves_append {s : Shared F32 ι} {p : MockPoint F32 ReportPoint}
    (hindexed : Indexed texts floats s.world.reports p) (choice : RegistryEnv) :
    Moves texts floats calls w s
      (perform floats F t s (.index (.append "bad_client_reports" p)) choice).1 := by
  refine moves_of_point rfl trivial rfl (fun q hq => ?_) hindexed
  simp only [perform_eq, exec, ModeSwitch.World.exec, points, QdrantClient.storeMock,
    List.mem_append, List.mem_singleton] at hq ⊢
  tauto

theorem moves_upsert {s : Shared F32 ι} {p : MockPoint F32 ReportPoint}
    (hindexed : Indexed texts floats s.world.reports p) (choice : RegistryEnv) :
    Moves texts floats calls w s
      (perform floats F t s (.index (.exchange (.upsert "bad_client_reports" p))) choice).1 := by
  refine moves_of_point rfl trivial rfl (fun q hq => ?_) hindexed
  simp only [perform_eq, exec, ModeSwitch.World.exec, points] at hq ⊢
  split at hq
  · rcases List.mem_append.mp hq with hq | hq
    · exact .inr (List.mem_append_left _ hq)
    · simp only [MockSearch.Server.upsert, Function.update_self, Table.upsert, List.mem_append,
        List.mem_singleton] at hq
      rcases hq with hq | hq
      · exact .inr (List.mem_append_right _ (List.mem_of_mem_filter hq))
      · exact .inl hq
  · exact .inr hq

/-- The other requests to the index leave its points alone. -/
theorem moves_index {op : ClientOp F32 ReportPoint}
    (hop : ∀ collection p, op ≠ .append collection p ∧ op ≠ .exchange (.upsert collection p))
    (choice : RegistryEnv) :
    Moves texts floats calls w s (perform floats F t s (.index op) choice).1 := by
  refine moves_of_points_eq rfl trivial rfl ?_
  cases op with
  | append collection p => exact absurd rfl (hop collection p).1
  | exchange op =>
    cases op with
    | upsert collection p => exact absurd rfl (hop collection p).2
    | search collection vector limit => rfl
  | _ => rfl

end Requests

section Programs

variable {texts floats F} {calls : ι → Call} {w : World F32} {t : ι} {α : Type} {honest : Prop}
  {guard : ι → Shared F32 ι → Op F32 → RegistryEnv → Prop} {post : α → Shared F32 ι → Prop}
  {P : Shared F32 ι → Prop} {s : Shared F32 ι}

abbrev contract (texts : IndexTexts) (floats : Floats F32 F64) (calls : ι → Call) (w : World F32)
    (post : α → Shared F32 ι → Prop) : Contract (Shared F32 ι) α :=
  ⟨Moves texts floats calls w, Moves texts floats calls w, post⟩

theorem holds_request (hP : Stable texts floats calls w P) {op : Op F32}
    {next : op.Res → Registering F32 α} (hs : P s)
    (hnext : ∀ s choice, P s → guard t s op choice →
      Moves texts floats calls w s (perform floats F t s op choice).1 ∧
      (P (perform floats F t s op choice).1 →
        Contract.Holds (perform floats F) guard t (contract texts floats calls w post)
          (next (exec floats F s.world op choice).2) (perform floats F t s op choice).1)) :
    Contract.Holds (perform floats F) guard t (contract texts floats calls w post)
      (.request op next) s := by
  intro s₁ hm choice hg
  have hs₁ := hP s s₁ hm hs
  obtain ⟨hmove, hrest⟩ := hnext s₁ choice hs₁ hg
  exact ⟨hmove, hrest (hP _ _ hmove hs₁)⟩

/-- A request that only reads the table. -/
theorem holds_table (hP : Stable texts floats calls w P) {op : ReportOp}
    (hop : ReportStore.readOnly op = true) {next : op.Res → Registering F32 α} (hs : P s)
    (hnext : ∀ s choice, P s → P (perform floats F t s (.table op) choice).1 →
      Contract.Holds (perform floats F) guard t (contract texts floats calls w post)
        (next (s.world.reports.exec F op choice.env).2)
        (perform floats F t s (.table op) choice).1) :
    Contract.Holds (perform floats F) guard t (contract texts floats calls w post)
      (.request (Op.table op) next) s :=
  holds_request hP hs fun s choice hs _ =>
    ⟨moves_readOnly F t s hop choice, hnext s choice hs⟩

theorem holds_done (hP : Stable texts floats calls w P) {a : α} (hs : P s)
    (hpost : ∀ s, P s → post a s) :
    Contract.Holds (perform floats F) guard t (contract texts floats calls w post)
      (.done a : Registering F32 α) s :=
  fun s' hm => hpost s' (hP s s' hm hs)

theorem holds_told {call : Call} {reply : Reply F32}
    (h : Told texts floats F honest call reply s) :
    Contract.Holds (perform floats F) guard t
      (contract texts floats calls w (Told texts floats F honest call))
      (.done reply : Registering F32 (Reply F32)) s :=
  fun _ hm => h.moves hm

theorem holds_scanTable (hP : Stable texts floats calls w P) {ρ : Type} (scanning : String)
    (acc rows : List ρ) (hs : P s) : Contract.Holds (perform floats F) guard t
      (contract texts floats calls w fun r s =>
        P s ∧ ∀ scanned, r = .ok scanned → scanned = acc ++ rows)
      (ofTable (scanRows (Program.call ReportOp.rowsNext) (Program.call ReportOp.rowsScan) scanning
        acc rows) :
        Registering F32 (Except String (List ρ))) s := by
  rw [ofTable, embed_scanRows]
  refine holds_scanRows Moves.refl hP (fun s hs => ?_) (fun s hs => ?_) scanning acc rows hs
  · exact holds_table hP rfl hs fun _ _ _ hs₁ => holds_done hP hs₁ fun _ h => h
  · exact holds_table hP rfl hs fun _ _ _ hs₁ => holds_done hP hs₁ fun _ h => h

theorem holds_getReport (id : UUID) :
    Contract.Holds (perform floats F) guard t
      (contract texts floats calls w fun r s => ∀ row, r = .ok row → row.id = id ∧ Holding row s)
      (ofTable (RegistryService.getReport id) : Registering F32 (Except String ModeratedReport))
      s := by
  simp only [ofTable, RegistryService.getReport, Program.call_bind, Program.pure_eq,
    Program.embed_request]
  refine holds_table stable_true rfl trivial fun s₁ choice _ _ => ?_
  cases hr : (s₁.world.reports.exec F (.selectReport id) choice.env).2 with
  | error e => exact holds_done stable_true trivial fun _ _ _ h => by cases h
  | ok row =>
    have hf := ReportStore.exec_selectReport hr
    have hid := Table.key_of_find? hf
    have hmove : Moves texts floats calls w s₁
        (perform floats F t s₁ (.table (.selectReport id)) choice).1 :=
      moves_readOnly F t s₁ rfl choice
    have hholding : Holding row (perform floats F t s₁ (.table (.selectReport id)) choice).1 :=
      holding_of_mem hmove (Table.mem_of_find? hf)
    refine holds_done (fun _ _ hm h => h.moves hm) hholding ?_
    rintro s₂ hs₂ row' ⟨⟩
    exact ⟨hid, hs₂⟩

theorem holds_updateReportStatus {id moderatorID : UUID} {status : String}
    (hcall : calls t = .updateReportStatus id moderatorID status) :
    Contract.Holds (perform floats F) guard t
      (contract texts floats calls w fun r s => ∀ row, r = .ok row → row.id = id ∧ Holding row s)
      (ofTable (RegistryService.updateReportStatus id moderatorID status) :
        Registering F32 (Except String ModeratedReport)) s := by
  unfold ofTable RegistryService.updateReportStatus
  split
  · simp only [Program.pure_eq, Program.embed_done]
    exact holds_done stable_true trivial fun _ _ _ h => by cases h
  · rename_i hstatus
    simp only [Program.call_bind, Program.pure_eq, Program.embed_request]
    refine holds_table stable_true rfl trivial fun s₁ now _ _ => ?_
    refine holds_request stable_true trivial fun s₂ choice _ _ =>
      ⟨moves_updateReport F t s₂ (not_not.mp hstatus) hcall choice, fun _ => ?_⟩
    simp only [exec]
    cases (s₂.world.reports.exec F (.updateReport ..) choice.env).2 with
    | error e => exact holds_done stable_true trivial fun _ _ _ h => by cases h
    | ok _ => exact holds_getReport id

/-- What the statement of a search finds is held, and scanning its rows changes nothing. -/
theorem holds_searchReports (query category status : String) :
    Contract.Holds (perform floats F) guard t
      (contract texts floats calls w fun r s => ∀ rs, r = .ok rs →
        ∀ row ∈ rs, Holding row s ∧ ReportSearch.Found F query category status row)
      (ofTable (RegistryService.searchReports query category status) :
        Registering F32 (Except String (List ModeratedReport))) s := by
  simp only [ofTable, RegistryService.searchReports, Program.call_bind, Program.pure_eq,
    Program.embed_request]
  set sql := ReportSql.search query category status with hsql
  refine holds_table stable_true rfl trivial fun s₁ choice _ _ => ?_
  cases hr : (s₁.world.reports.exec F (.selectReports sql.conditions sql.args) choice.env).2 with
  | error e => exact holds_done stable_true trivial fun _ _ _ h => by cases h
  | ok rows =>
    have hmove : Moves texts floats calls w s₁
        (perform floats F t s₁ (.table (.selectReports sql.conditions sql.args)) choice).1 :=
      moves_readOnly F t s₁ rfl choice
    have hrows := ReportSearch.exec_selectReports hr
    have hheld : ∀ row ∈ rows, Holding row (perform floats F t s₁
        (.table (.selectReports sql.conditions sql.args)) choice).1 ∧
          ReportSearch.Found F query category status row := by
      intro row hrow
      obtain ⟨hmem, hfound⟩ := ReportSearch.mem_foundRows.mp (hrows ▸ hrow)
      exact ⟨holding_of_mem hmove hmem, hfound⟩
    have hkeeps : Stable texts floats calls w fun s : Shared F32 ι => ∀ row ∈ rows,
        Holding row s ∧ ReportSearch.Found F query category status row :=
      fun _ _ hm h row hrow => ⟨(h row hrow).1.moves hm, (h row hrow).2⟩
    refine (holds_scanTable hkeeps _ [] rows hheld).imp ?_
    rintro r s₂ ⟨hs₂, hscanned⟩ rs hrs
    rw [hscanned rs hrs]
    exact hs₂

/-- A submitted report is in the table, as its reporter has asked for. -/
theorem holds_submitReport {reporterID : UUID} {input : NewReport}
    (hcall : calls t = .submitReport reporterID input) :
    Contract.Holds (perform floats F) guard t
      (contract texts floats calls w fun r s => ∀ report, r = .ok report →
        Answers calls s ⟨t, .respond (.ok report), ()⟩)
      (ofSubmit (RegistryService.submitReport reporterID input) :
        Registering F32 (Except String BadClientReport)) s := by
  unfold ofSubmit RegistryService.submitReport
  split
  · simp only [Program.pure_eq, Program.embed_done]
    exact holds_done stable_true trivial fun _ _ _ h => by cases h
  · simp only [Program.call_bind, Program.pure_eq, Program.embed_request]
    refine holds_request stable_true trivial fun s₁ id _ _ =>
      ⟨moves_draw F t s₁ (.inl rfl) id, fun _ => ?_⟩
    refine holds_request stable_true trivial fun s₂ createdAt _ _ =>
      ⟨moves_draw F t s₂ (.inr rfl) createdAt, fun _ => ?_⟩
    refine holds_request stable_true trivial fun s₃ updatedAt _ _ =>
      ⟨moves_draw F t s₃ (.inr rfl) updatedAt, fun _ => ?_⟩
    simp only [exec, ReportStore.submitExec]
    set report : BadClientReport := ⟨id.env.uuid, reporterID, input.clientIdentifier,
      input.category, input.description, "pending", createdAt.env.now, updatedAt.env.now⟩
      with hreport
    refine holds_request stable_true trivial fun s₄ choice _ _ =>
      ⟨moves_insertReport F t s₄ rfl hcall choice, fun _ => ?_⟩
    rcases ReportStore.submitExec_insertReport s₄.world.reports report choice.env with
      ⟨e, he⟩ | ⟨tbl, ht, he⟩
    · simp only [exec, he]
      exact holds_done stable_true trivial fun _ _ _ h => by cases h
    · rw [perform_eq]
      simp only [exec, he]
      have hheld : Answers calls (⟨{ s₄.world with reports := tbl },
          ⟨t, .submit (.insertReport report), .ok ()⟩ :: s₄.history⟩ : Shared F32 ι)
          ⟨t, .respond (.ok report), ()⟩ :=
        ⟨⟨_, (Table.find?_insert ht _).trans (if_pos rfl), .refl _⟩, rfl, hcall⟩
      refine holds_done (stable_answers ⟨t, .respond (.ok report), ()⟩) hheld ?_
      rintro s₅ hs₅ report' ⟨⟩
      exact hs₅

/-- The goroutine stores the point of a report that the table has. -/
theorem holds_storeEmbedding {report : BadClientReport}
    (hs : Answers calls s ⟨t, .respond (.ok report), ()⟩) :
    Contract.Holds (perform floats F) guard t (contract texts floats calls w fun _ _ => True)
      (ofIndex (ModeSwitch.storeEmbedding (embedding texts floats report)) :
        Registering F32 (Except String Unit)) s := by
  have hP : Stable texts floats calls w
      fun s : Shared F32 ι => Answers calls s ⟨t, .respond (.ok report), ()⟩ :=
    stable_answers ⟨t, .respond (.ok report), ()⟩
  have hmock : ∀ s : Shared F32 ι, Answers calls s ⟨t, .respond (.ok report), ()⟩ →
      Contract.Holds (perform floats F) guard t (contract texts floats calls w fun _ _ => True)
        (ofIndex (ModeSwitch.storeInMock (embedding texts floats report)) :
          Registering F32 (Except String Unit)) s := fun s hs =>
    holds_request hP hs fun s₁ choice hs₁ _ =>
      ⟨moves_append F t hs₁.indexed choice, fun hs₂ => holds_done hP hs₂ fun _ _ => trivial⟩
  simp only [ofIndex, ModeSwitch.storeEmbedding, Program.call_bind, Program.pure_eq,
    Program.embed_request]
  refine holds_request hP hs fun s₁ choice hs₁ _ =>
    ⟨moves_index F t s₁ (by simp) choice, fun hs₁ => ?_⟩
  cases (exec floats F s₁.world (.index .readMode) choice).2 with
  | true => exact hmock _ hs₁
  | false =>
  refine holds_request hP hs₁ fun s₂ choice hs₂ _ =>
    ⟨moves_upsert F t hs₂.indexed choice, fun hs₂ => ?_⟩
  cases (exec floats F s₂.world (.index (.exchange (.upsert ..))) choice).2 with
  | unmarshaled e => exact holds_done hP hs₂ fun _ _ => trivial
  | uncreated e => exact holds_done hP hs₂ fun _ _ => trivial
  | unavailable e =>
    exact holds_request hP hs₂ fun s₃ choice _ _ =>
      ⟨moves_index F t s₃ (by simp) choice, fun hs₃ => hmock _ hs₃⟩
  | response r =>
    dsimp only
    split <;> exact holds_done hP hs₂ fun _ _ => trivial

/-- What the index shows are points of reports: its own ones, or those of a server that is to be
believed. -/
theorem holds_searchSimilar
    (hguard : ∀ s op choice, guard t s op choice → honest → Honest s op choice)
    (hs : Inv texts floats calls w s.world) (vector : List F32) (limit : ℤ) :
    Contract.Holds (perform floats F) guard t
      (contract texts floats calls w (ShowsReports texts floats honest))
      (ofIndex (ModeSwitch.searchSimilar "bad_client_reports" vector limit) :
        Registering F32 (Option (Except String (List (MockPoint F32 ReportPoint))))) s := by
  have hfail : ∀ (s : Shared F32 ι) (r : Option (Except String (List (MockPoint F32 ReportPoint)))),
      (∀ ps, r ≠ some (.ok ps)) → Contract.Holds (perform floats F) guard t
        (contract texts floats calls w (ShowsReports texts floats honest))
        (.done r : Registering F32 _) s :=
    fun s r hr => holds_done stable_true trivial fun _ _ ps hps => absurd hps (hr ps)
  have hshow : ∀ (s : Shared F32 ι) (ps : List (MockPoint F32 ReportPoint)),
      (honest → AreReports texts floats ps s) → Contract.Holds (perform floats F) guard t
        (contract texts floats calls w (ShowsReports texts floats honest))
        (.done (some (.ok ps)) : Registering F32 _) s := by
    rintro s ps hps s' hm ps' ⟨⟩ hh
    exact (hps hh).moves hm
  have hmock : ∀ s : Shared F32 ι, Inv texts floats calls w s.world →
      Contract.Holds (perform floats F) guard t
        (contract texts floats calls w (ShowsReports texts floats honest))
        (ofIndex (ModeSwitch.searchInMock "bad_client_reports" vector limit) :
          Registering F32 _) s := by
    intro s hs
    simp only [ofIndex, ModeSwitch.searchInMock, Program.call_bind, Program.pure_eq,
      Program.embed_request]
    refine holds_request stable_inv hs fun s₁ choice hs₁ _ =>
      ⟨moves_index F t s₁ (by simp) choice, fun hs₂ => ?_⟩
    simp only [exec, ModeSwitch.World.exec]
    cases hscan : s₁.world.vectors.client.searchMock floats.float64 vector limit with
    | none => exact hfail _ _ (by simp)
    | some ps =>
      exact hshow _ _ fun _ => areReports_of_indexed fun p hp =>
        hs₂.indexed p (List.mem_append_left _ (QdrantClient.mem_of_searchMock hscan hp))
  simp only [ofIndex, ModeSwitch.searchSimilar, Program.call_bind, Program.pure_eq,
    Program.embed_request]
  refine holds_request stable_inv hs fun s₁ choice hs₁ _ =>
    ⟨moves_index F t s₁ (by simp) choice, fun hs₁ => ?_⟩
  cases (exec floats F s₁.world (.index .readMode) choice).2 with
  | true => exact hmock _ hs₁
  | false =>
  refine holds_request stable_inv hs₁ fun s₂ choice hs₂ hg =>
    ⟨moves_index F t s₂ (by simp) choice, fun hs₃ => ?_⟩
  have hhonest := hguard _ _ _ hg
  simp only [exec, ModeSwitch.World.exec]
  cases hfate : choice.fate.search with
  | unmarshaled e => exact hfail _ _ (by simp)
  | uncreated e => exact hfail _ _ (by simp)
  | unavailable e =>
    exact holds_request stable_inv hs₃ fun s₃ choice _ _ =>
      ⟨moves_index F t s₃ (by simp) choice, fun hs₄ => hmock _ hs₄⟩
  | response r =>
    dsimp only
    split
    · exact hfail _ _ (by simp)
    · cases hdecoded : r.decoded with
      | error e => exact hfail _ _ (by simp)
      | ok result =>
        refine hshow _ _ fun hh p hp => ?_
        obtain ⟨sp, hsp, rfl⟩ := List.mem_map.mp hp
        obtain ⟨q, hq, hid, hpayload⟩ := hhonest hh r result hfate hdecoded sp hsp
        obtain ⟨row, hrow, hpoint⟩ := hs₃.indexed q (List.mem_append_right _ hq)
        refine ⟨row, hrow, ?_, ?_⟩
        · rw [← hid, hpoint]
          rfl
        · rw [← hpayload, hpoint]
          rfl

/-- A reply of a program that tells its caller what it has reached. -/
theorem holds_map {β : Type} {mid : β → Shared F32 ι → Prop} {p : Registering F32 β}
    {f : β → Reply F32} {call : Call}
    (h : Contract.Holds (perform floats F) guard t (contract texts floats calls w mid) p s)
    (hmid : ∀ b s, mid b s → Told texts floats F honest call (f b) s) :
    Contract.Holds (perform floats F) guard t
      (contract texts floats calls w (Told texts floats F honest call)) (f <$> p) s := by
  rw [Program.map_eq_bind]
  exact h.bind Moves.refl fun b s hb => holds_told (hmid b s hb)

theorem holds_program (qdrant : Bool)
    (hguard : ∀ s op choice, guard t s op choice → honest → Honest s op choice)
    (hs : Inv texts floats calls w s.world) :
    Contract.Holds (perform floats F) guard t
      (contract texts floats calls w (Told texts floats F honest (calls t)))
      ((calls t).program texts floats qdrant) s := by
  cases hcall : calls t with
  | getReport id =>
    refine holds_map (holds_getReport id) fun r s hr => ?_
    cases r with
    | error e => trivial
    | ok row => exact hr row rfl
  | searchReports query category status =>
    refine holds_map (holds_searchReports query category status) fun r s hr => ?_
    cases r with
    | error e => trivial
    | ok rs => exact hr rs rfl
  | updateReportStatus id moderatorID status =>
    refine holds_map (holds_updateReportStatus hcall) fun r s hr => ?_
    cases r with
    | error e => trivial
    | ok row => exact hr row rfl
  | findDuplicates clientIdentifier description =>
    simp only [Call.program]
    split
    · refine holds_map (holds_searchSimilar hguard hs _ 5) fun r s hr => ?_
      rcases r with _ | e | ps
      · trivial
      · trivial
      · exact hr ps rfl
    · exact holds_told fun _ p hp => by cases hp
  | submitReport reporterID input =>
    simp only [Call.program, Program.call_bind, Program.pure_eq]
    refine (holds_submitReport hcall).bind Moves.refl fun r s hr => ?_
    cases r with
    | error e =>
      exact holds_request stable_true trivial fun s₁ choice _ _ =>
        ⟨moves_respond F t (show Answers calls s₁ ⟨t, .respond (.error e), ()⟩ from trivial) choice,
          fun _ => holds_told trivial⟩
    | ok report =>
      refine holds_request (stable_answers _) (hr report rfl) fun s₁ choice hs₁ _ =>
        ⟨moves_respond F t hs₁ choice, fun hs₂ => ?_⟩
      split
      · exact (holds_storeEmbedding hs₂).bind Moves.refl fun _ _ _ => holds_told trivial
      · exact holds_told trivial

end Programs

section Runs

variable [DecidableEq ι]

def start (qdrant : Bool) (calls : ι → Call) (w : World F32) :
    Pool (@Op.Res F32) (Shared F32 ι) ι (Reply F32) :=
  ⟨⟨w, []⟩, fun t => (calls t).program texts floats qdrant⟩

def runFrom (qdrant : Bool) (calls : ι → Call) (w : World F32) (xs : List (ι × RegistryEnv)) :
    Pool (@Op.Res F32) (Shared F32 ι) ι (Reply F32) :=
  (start texts floats qdrant calls w).run (perform floats F) xs

variable (qdrant : Bool) (calls : ι → Call) (w : World F32)

/-- A server is to be believed, if any is. -/
def Believed (honest : Prop) (_ : ι) (s : Shared F32 ι) (op : Op F32) (choice : RegistryEnv) :
    Prop := honest → Honest s op choice

variable {texts floats F qdrant calls w} in
/-- What every call has told its caller holds, and the state has moved. -/
theorem run_sound (hindex : ∀ p ∈ points w, Indexed texts floats w.reports p) {honest : Prop}
    {xs : List (ι × RegistryEnv)} (hxs : Pool.Guarded (perform floats F) (Believed honest)
      (start texts floats qdrant calls w) xs) :
    (∀ t, Contract.Holds (perform floats F) (Believed honest) t
      (contract texts floats calls w (Told texts floats F honest (calls t)))
      ((runFrom texts floats F qdrant calls w xs).threads t)
      (runFrom texts floats F qdrant calls w xs).state) ∧
    Moves texts floats calls w ⟨w, []⟩ (runFrom texts floats F qdrant calls w xs).state := by
  have hinv : Inv texts floats calls w w :=
    ⟨fun r hr => .inl ⟨r, hr, .refl r⟩, fun r hr => .inr (.inl hr), hindex⟩
  exact Contract.run_shared Moves.refl (fun _ _ _ => Moves.trans) hxs fun t =>
    holds_program qdrant (fun _ _ _ hg => hg) hinv

variable {texts floats F qdrant calls w} in
/-- The state moves on from where a run has brought it. -/
theorem run_moves (hindex : ∀ p ∈ points w, Indexed texts floats w.reports p) {honest : Prop}
    {xs ys : List (ι × RegistryEnv)} (hxs : Pool.Guarded (perform floats F) (Believed honest)
      (start texts floats qdrant calls w) (xs ++ ys)) :
    Moves texts floats calls w (runFrom texts floats F qdrant calls w xs).state
      (runFrom texts floats F qdrant calls w (xs ++ ys)).state := by
  obtain ⟨hfirst, hrest⟩ := Pool.guarded_append.mp hxs
  rw [runFrom, runFrom, Pool.run_append, ← runFrom]
  exact (Contract.run_shared Moves.refl (fun _ _ _ => Moves.trans) hrest
    (run_sound hindex hfirst).1).2

theorem believed_false (xs : List (ι × RegistryEnv)) : Pool.Guarded (perform floats F)
    (Believed False) (start texts floats qdrant calls w) xs :=
  Pool.guarded_of_forall (fun _ _ _ _ => False.elim) _ xs

/-- How the table and the index at one moment follow from those at an earlier one. -/
structure Registered (s s' : Shared F32 ι) : Prop where
  kept : ∀ i r, s.world.reports.find? i = some r →
    ∃ r', s'.world.reports.find? i = some r' ∧ Later r r'
  inv : Inv texts floats calls w s'.world

/-- No report is deleted, and each changes by decisions only, which moderators have called for;
each comes from its reporter, and each point of the index from its report. -/
theorem run_registered (hindex : ∀ p ∈ points w, Indexed texts floats w.reports p)
    (xs ys : List (ι × RegistryEnv)) :
    Registered texts floats calls w (runFrom texts floats F qdrant calls w xs).state
      (runFrom texts floats F qdrant calls w (xs ++ ys)).state := by
  have hsound := run_sound hindex (believed_false texts floats F qdrant calls w (xs ++ ys))
  have hmove := run_moves hindex (believed_false texts floats F qdrant calls w (xs ++ ys))
  exact ⟨hmove.reports, hsound.2.inv ⟨fun r hr => .inl ⟨r, hr, .refl r⟩,
    fun r hr => .inr (.inl hr), hindex⟩⟩

/-- What a finished call has told its caller stays true, and so does what a submission was
answered, wherever its goroutine is. -/
theorem run_told (hindex : ∀ p ∈ points w, Indexed texts floats w.reports p)
    (xs ys : List (ι × RegistryEnv)) :
    (∀ t reply, (runFrom texts floats F qdrant calls w xs).threads t = .done reply →
      Told texts floats F False (calls t) reply
        (runFrom texts floats F qdrant calls w (xs ++ ys)).state) ∧
    ∀ e ∈ (runFrom texts floats F qdrant calls w xs).state.history,
      Answers calls (runFrom texts floats F qdrant calls w (xs ++ ys)).state e := by
  obtain ⟨hholds, hstart⟩ := run_sound hindex (believed_false texts floats F qdrant calls w xs)
  have hmove := run_moves hindex (believed_false texts floats F qdrant calls w (xs ++ ys))
  refine ⟨fun t reply ht => ((hholds t).done ht Moves.refl).moves hmove, fun e he => ?_⟩
  obtain ⟨es, hes, hanswers⟩ := hstart.history
  rw [hes, List.append_nil] at he
  exact (hanswers e he).moves hmove

/-- What a search does with the answer to its statement. -/
def searched (r : Except String (List ModeratedReport)) : Registering F32 (Reply F32) :=
  .reports <$> ofTable (match r with
    | .error e => .done (.error ("searching reports: " ++ e))
    | .ok rows => scanRows (Program.call ReportOp.rowsNext) (Program.call ReportOp.rowsScan)
      "scanning report: " [] rows)

/-- A search that is answered returns these rows. -/
def ReturnsRows (found : List ModeratedReport) (reply : Reply F32) (_ : Shared F32 ι) : Prop :=
  ∀ rs, reply = .reports (.ok rs) → rs = found

omit [DecidableEq ι] [OfNat F32 0] [OfNat F32 255] [Add F32] [Div F32] in
variable {floats F} in
/-- It fails, or returns the rows that were found. -/
theorem holds_searched {r : Except String (List ModeratedReport)} {found : List ModeratedReport}
    (hr : ∀ rows, r = .ok rows → rows = found) (t : ι) (s : Shared F32 ι) :
    Contract.Holds (perform floats F) (fun _ _ _ _ => True) t
      ⟨fun _ _ => True, fun _ _ => True, ReturnsRows found⟩ (searched r) s := by
  cases r with
  | error e => exact fun _ _ _ h => by cases h
  | ok rows =>
    have hrequest : ∀ (op : ReportOp) (s : Shared F32 ι), True →
        Contract.Holds (perform floats F) (fun _ _ _ _ => True) t
          ⟨fun _ _ => True, fun _ _ => True, fun _ _ => True⟩ (ofTable (Program.call op)) s :=
      fun op s _ => Contract.Holds.of_issues (fun _ _ _ _ _ => trivial) (fun _ _ => trivial)
        (Program.issues_any _) s
    simp only [searched, ofTable, embed_scanRows, Program.map_eq_bind]
    refine (holds_scanRows (fun _ => trivial) (fun _ _ _ _ => trivial) (hrequest .rowsNext)
      (hrequest .rowsScan) _ [] rows trivial).bind (fun _ => trivial) ?_
    rintro r s₁ ⟨-, hscanned⟩ _ - rs h
    cases h
    rw [hscanned rs rfl]
    exact hr rows rfl

/-- A search returns what a search of the whole table would have found at one moment while it
ran, the newest first. -/
theorem search_snapshot (xs ys : List (ι × RegistryEnv)) (t : ι)
    (query category status : String) (hcall : calls t = .searchReports query category status)
    (hnew : ∀ slot ∈ xs, slot.1 ≠ t) (rs : List ModeratedReport)
    (hdone : (runFrom texts floats F qdrant calls w (xs ++ ys)).threads t =
      .done (.reports (.ok rs))) :
    ∃ ys₁ ys₂, ys = ys₁ ++ ys₂ ∧
      rs.Perm ((runFrom texts floats F qdrant calls w (xs ++ ys₁)).state.world.reports.rows.filter
        fun r => ReportSearch.Found F query category status r) ∧
      rs.Pairwise fun a b => b.createdAt ≤ a.createdAt := by
  set pool := runFrom texts floats F qdrant calls w xs with hpool
  set sql := ReportSql.search query category status with hsql
  have hrun : ∀ zs, runFrom texts floats F qdrant calls w (xs ++ zs) =
      pool.run (perform floats F) zs := by
    intro zs
    rw [hpool, runFrom, Pool.run_append, ← runFrom]
  have hthread : pool.threads t =
      .request (.table (.selectReports sql.conditions sql.args)) searched := by
    rw [hpool, runFrom, Pool.threads_run_of_forall_ne _ hnew]
    change (calls t).program texts floats qdrant = _
    rw [hcall]
    refine congrArg (Program.request _) (funext fun r => ?_)
    cases r <;> rfl
  rw [hrun] at hdone
  obtain ⟨ys₁, choice, ys₂, rfl, hstep⟩ := Pool.exists_turn hthread hdone
  refine ⟨ys₁, _, rfl, ?_⟩
  rw [Pool.run_append, Pool.run, hstep] at hdone
  rw [hrun]
  set reports := (pool.run (perform floats F) ys₁).state.world.reports with hreports
  set found := ReportSearch.foundRows F query category status reports choice.env with hfound
  have hreturns : rs = found := by
    refine Contract.Holds.returns (ReturnsRows found) ?_ hdone rs rfl
    dsimp only
    rw [Function.update_self]
    exact holds_searched (fun rows hrows => ReportSearch.exec_selectReports hrows) t _
  rw [hreturns]
  exact ⟨ReportSearch.foundRows_perm choice.env, ReportSearch.foundRows_newestFirst choice.env⟩

/-- If the server answers with points that it has, the duplicates of a report are reports of the
table, with what they were submitted with, and remain so. -/
theorem duplicates_reports (hindex : ∀ p ∈ points w, Indexed texts floats w.reports p)
    (xs ys : List (ι × RegistryEnv)) (hhonest : Pool.Guarded (perform floats F)
      (fun _ => Honest) (start texts floats qdrant calls w) (xs ++ ys)) (t : ι)
    (clientIdentifier description : String)
    (hcall : calls t = .findDuplicates clientIdentifier description)
    (ps : List (MockPoint F32 ReportPoint))
    (hdone : (runFrom texts floats F qdrant calls w xs).threads t =
      .done (.duplicates (some (.ok ps)))) :
    AreReports texts floats ps (runFrom texts floats F qdrant calls w (xs ++ ys)).state := by
  have hguard : (Believed True : ι → Shared F32 ι → Op F32 → RegistryEnv → Prop) =
      fun _ => Honest := by
    funext _ s op choice
    simp [Believed]
  rw [← hguard] at hhonest
  have htold := ((run_sound hindex (Pool.guarded_append.mp hhonest).1).1 t).done hdone Moves.refl
  rw [hcall] at htold
  exact (htold trivial).moves (run_moves hindex hhonest)

end Runs

/-- Exact arithmetic in the place of both number types. -/
def exactFloats : Floats ℚ ℚ := ⟨fun b => b.toNat, id, id⟩

def plainTexts : IndexTexts := ⟨toString, toString⟩

/-- No reports yet, and a client that has not failed. -/
def atFirst : World ℚ := ⟨.empty, ⟨⟨false, []⟩, fun _ => .empty, []⟩⟩

def oneOfEach : Fin 4 → Call
  | 0 => .submitReport 7 ⟨"jane", "theft", "gone"⟩
  | 1 => .searchReports "jan" "" ""
  | 2 => .updateReportStatus 100 8 "verified"
  | 3 => .findDuplicates "jane" "gone"

/-- Thread `t` performs `n` requests, and a search of the server finds report 100. -/
def turns (t : Fin 4) (n : ℕ) : List (Fin 4 × RegistryEnv) :=
  List.replicate n (t, ⟨.good 10 100, .response ⟨200, "", .ok ()⟩,
    .response ⟨200, "", .ok [⟨"100", "100", "jane", "theft", "pending", "10"⟩]⟩, true⟩)

theorem atFirst_indexed : ∀ p ∈ points atFirst, Indexed plainTexts exactFloats atFirst.reports p :=
  fun _ hp => by cases hp

/-- A report is submitted, and verified before its point is stored. -/
theorem oneOfEach_registered :
    (runFrom plainTexts exactFloats ReportSearch.asciiFolding true oneOfEach atFirst
      (turns 0 5)).state.world.reports.rows.map (fun r => (r.id, r.status)) = [(100, "pending")] ∧
    (runFrom plainTexts exactFloats ReportSearch.asciiFolding true oneOfEach atFirst
      (turns 0 5 ++ (turns 2 3 ++ turns 0 2))).state.world.reports.rows.map
        (fun r => (r.id, r.status)) = [(100, "verified")] ∧
    Registered plainTexts exactFloats oneOfEach atFirst
      (runFrom plainTexts exactFloats ReportSearch.asciiFolding true oneOfEach atFirst
        (turns 0 5)).state
      (runFrom plainTexts exactFloats ReportSearch.asciiFolding true oneOfEach atFirst
        (turns 0 5 ++ (turns 2 3 ++ turns 0 2))).state :=
  ⟨rfl, rfl, run_registered plainTexts exactFloats ReportSearch.asciiFolding true oneOfEach atFirst
    atFirst_indexed _ _⟩

/-- The search returns the report as pending, which holds of what becomes of it. -/
theorem oneOfEach_told : ∃ reply, Told plainTexts exactFloats ReportSearch.asciiFolding False
    (oneOfEach 1) reply (runFrom plainTexts exactFloats ReportSearch.asciiFolding true oneOfEach
      atFirst (turns 0 5 ++ turns 1 3 ++ turns 2 3)).state :=
  ⟨_, (run_told plainTexts exactFloats ReportSearch.asciiFolding true oneOfEach atFirst
    atFirst_indexed (turns 0 5 ++ turns 1 3) (turns 2 3)).1 1 _ rfl⟩

theorem oneOfEach_snapshot : ∃ (rs : List ModeratedReport) (ys₁ ys₂ : List (Fin 4 × RegistryEnv)),
    turns 1 1 ++ turns 2 3 ++ turns 1 2 = ys₁ ++ ys₂ ∧
    rs.Perm ((runFrom plainTexts exactFloats ReportSearch.asciiFolding true oneOfEach atFirst
      (turns 0 5 ++ ys₁)).state.world.reports.rows.filter fun r =>
        ReportSearch.Found ReportSearch.asciiFolding "jan" "" "" r) ∧
    rs.Pairwise fun a b : ModeratedReport => b.createdAt ≤ a.createdAt :=
  ⟨_, search_snapshot plainTexts exactFloats ReportSearch.asciiFolding true oneOfEach atFirst
    (turns 0 5) (turns 1 1 ++ turns 2 3 ++ turns 1 2) 1 "jan" "" "" rfl (by decide) _ rfl⟩

theorem oneOfEach_duplicates : ∃ ps, AreReports plainTexts exactFloats ps
    (runFrom plainTexts exactFloats ReportSearch.asciiFolding true oneOfEach atFirst
      (turns 0 7 ++ turns 3 2 ++ turns 2 3)).state ∧ ps ≠ [] := by
  have hhonest : Pool.Guarded (perform exactFloats ReportSearch.asciiFolding) (fun _ => Honest)
      (start plainTexts exactFloats true oneOfEach atFirst)
      (turns 0 7 ++ turns 3 2 ++ turns 2 3) := by
    refine ⟨trivial, trivial, trivial, trivial, trivial, trivial, trivial, trivial, ?_,
      trivial, trivial, trivial, trivial⟩
    rintro r result ⟨⟩ ⟨⟩ sp hsp
    obtain rfl := List.mem_singleton.mp hsp
    exact ⟨_, List.mem_singleton.mpr rfl, rfl, rfl⟩
  refine ⟨_, duplicates_reports plainTexts exactFloats ReportSearch.asciiFolding true oneOfEach
    atFirst atFirst_indexed (turns 0 7 ++ turns 3 2) (turns 2 3) hhonest 3 "jane" "gone" rfl _ rfl,
    ?_⟩
  exact List.cons_ne_nil _ _

end SafetyDao.RegistryRuns
