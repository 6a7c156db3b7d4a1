import SafetyDao.RegistryQueries

/-!
# What a moderator is told

Any number of `updateReportStatus` calls run interleaved, statement by statement. The
decision is written by one statement and the answer is read by a later one, so a call is
told its own decision as long as nobody decides on the same report in between.
-/
namespace SafetyDao.Moderation
open LikePattern (Folding)
open ReportStore (exec exec_readOnly exec_selectReport exec_updateReport)

/-- A call of `UpdateReportStatus`. -/
structure Call where
  reportID : UUID
  moderatorID : UUID
  status : String

abbrev Reply : Type := Except String ModeratedReport

def Call.program (call : Call) : Reporting Reply :=
  RegistryService.updateReportStatus call.reportID call.moderatorID call.status

variable {ι : Type} (F : Folding)

abbrev Shared (ι : Type) : Type := Recorded ReportOp.Res ReportStore ι

abbrev History (ι : Type) : Type := List (Event ReportOp.Res ι)

abbrev perform (t : ι) (s : Shared ι) (op : ReportOp) (env : Env) : Shared ι × op.Res :=
  Recorded.perform (exec F) t s op env

theorem perform_eq (t : ι) (s : Shared ι) (op : ReportOp) (env : Env) :
    perform F t s op env = (⟨(s.world.exec F op env).1,
      ⟨t, op, (s.world.exec F op env).2⟩ :: s.history⟩, (s.world.exec F op env).2) := rfl

/-- The report of a committed decision. -/
def decided : Event ReportOp.Res ι → Option UUID
  | ⟨_, .updateReport _ _ _ _ id, .ok _⟩ => some id
  | _ => none

/-- What the call of a thread has decided on and not read back yet. -/
def undisclosed [DecidableEq ι] (t : ι) (h : History ι) : Option UUID :=
  (h.find? fun e => e.thread = t).bind decided

/-- The answer to a call: the report, with the decision of this very call. -/
structure AsDecided (t : ι) (call : Call) (h : History ι) (r : ModeratedReport) : Prop where
  id : r.id = call.reportID
  status : r.status = call.status
  moderatorID : r.moderatorID = some call.moderatorID
  moderatedAt : ∃ now, r.moderatedAt = some now ∧
    ⟨t, .updateReport call.status call.moderatorID now now call.reportID, .ok ()⟩ ∈ h

theorem AsDecided.append {t : ι} {call : Call} {h : History ι} {r : ModeratedReport}
    (hr : AsDecided t call h r) (es : History ι) : AsDecided t call (es ++ h) r where
  id := hr.id
  status := hr.status
  moderatorID := hr.moderatorID
  moderatedAt := by
    obtain ⟨now, hnow, hmem⟩ := hr.moderatedAt
    exact ⟨now, hnow, List.mem_append_right es hmem⟩

section Threads

variable [DecidableEq ι]

/-- The request decides on no report that another call has decided on and not read back. -/
def InTurn (t : ι) (s : Shared ι) (op : ReportOp) (env : Env) : Prop :=
  ∀ id ∈ decided (⟨t, op, (s.world.exec F op env).2⟩ : Event ReportOp.Res ι),
    ∀ e ∈ s.history, e.thread ≠ t → undisclosed e.thread s.history ≠ some id

instance (t : ι) (s : Shared ι) (op : ReportOp) (env : Env) : Decidable (InTurn F t s op env) :=
  inferInstanceAs (Decidable (∀ id ∈ decided _, _))

/-- The pool at the start: some reports, and all calls still to come. -/
def start (calls : ι → Call) (w : ReportStore) : Pool ReportOp.Res (Shared ι) ι Reply :=
  ⟨⟨w, []⟩, fun t => (calls t).program⟩

def runFrom (calls : ι → Call) (w : ReportStore) (schedule : List (ι × Env)) :
    Pool ReportOp.Res (Shared ι) ι Reply :=
  (start calls w).run (perform F) schedule

/-- Requests of other threads, which spare a decision that this thread has not read back. -/
def Rely (t : ι) (s s' : Shared ι) : Prop :=
  ∃ es, s'.history = es ++ s.history ∧ (∀ e ∈ es, e.thread ≠ t) ∧
    ∀ id, undisclosed t s.history = some id → s'.world.find? id = s.world.find? id

/-- A request of this thread, which the other threads can rely on. -/
def Guar (t : ι) (s s' : Shared ι) : Prop :=
  ∃ e, e.thread = t ∧ s'.history = e :: s.history ∧ ∀ u, u ≠ t → Rely u s s'

theorem undisclosed_append_others {t : ι} {es h : History ι} (hes : ∀ e ∈ es, e.thread ≠ t) :
    undisclosed t (es ++ h) = undisclosed t h := by
  have hnone : es.find? (fun e => e.thread = t) = none :=
    List.find?_eq_none.mpr fun e he => by simpa using hes e he
  rw [undisclosed, List.find?_append, hnone, Option.none_or, undisclosed]

theorem undisclosed_cons_self {t : ι} {e : Event ReportOp.Res ι} (h : History ι)
    (he : e.thread = t) : undisclosed t (e :: h) = decided e := by
  rw [undisclosed, List.find?_cons_of_pos (by simpa using he), Option.bind_some]

theorem Rely.refl (t : ι) (s : Shared ι) : Rely t s s := ⟨[], rfl, by simp, fun _ _ => rfl⟩

theorem Rely.trans {t : ι} {s₁ s₂ s₃ : Shared ι} (h₁ : Rely t s₁ s₂) (h₂ : Rely t s₂ s₃) :
    Rely t s₁ s₃ := by
  obtain ⟨es, hes, hothers, hkept⟩ := h₁
  obtain ⟨fs, hfs, hothers', hkept'⟩ := h₂
  refine ⟨fs ++ es, by rw [hfs, hes, List.append_assoc], ?_, fun id hid => ?_⟩
  · intro e he
    rcases List.mem_append.mp he with he | he
    · exact hothers' e he
    · exact hothers e he
  · rw [hkept' id, hkept id hid]
    rw [hes, undisclosed_append_others hothers]
    exact hid

/-- A request that only reads can be relied on. -/
theorem guar_readOnly (t : ι) (s : Shared ι) {op : ReportOp} (hop : ReportStore.readOnly op = true)
    (env : Env) : Guar t s (perform F t s op env).1 := by
  have hworld : (perform F t s op env).1.world = s.world := exec_readOnly hop F s.world env
  refine ⟨_, rfl, rfl, fun u hu => ⟨[_], rfl, by simpa using hu.symm, fun id _ => ?_⟩⟩
  rw [hworld]

/-- So can a decision in turn. -/
theorem guar_updateReport (t : ι) (s : Shared ι) (status : String) (moderatorID : UUID)
    (moderatedAt updatedAt : Time) (reportID : UUID) (env : Env)
    (hturn : InTurn F t s (.updateReport status moderatorID moderatedAt updatedAt reportID) env) :
    Guar t s (perform F t s
      (.updateReport status moderatorID moderatedAt updatedAt reportID) env).1 := by
  refine ⟨_, rfl, rfl, fun u hu => ⟨[_], rfl, by simpa using hu.symm, fun id hid => ?_⟩⟩
  rcases exec_updateReport F s.world status moderatorID moderatedAt updatedAt reportID env with
    ⟨e, he⟩ | he
  · rw [perform_eq, he]
  · rw [perform_eq, he, Table.find?_update, if_neg]
    rintro rfl
    -- the thread that has decided on the report is in the history
    obtain ⟨e, hfind, -⟩ := Option.bind_eq_some_iff.mp hid
    have hthread : e.thread = u := by simpa using List.find?_some hfind
    refine hturn id (by rw [he]; rfl) e (List.mem_of_find?_eq_some hfind) ?_ ?_
    · rw [hthread]
      exact hu
    · rw [hthread]
      exact hid

/-- All threads rely on the decisions of the others being in turn. -/
def contract {α : Type} (t : ι) (post : α → Shared ι → Prop) : Contract (Shared ι) α :=
  ⟨Rely t, Guar t, post⟩

theorem contracts_compatible {α : Type} (post : ι → α → Shared ι → Prop) :
    Contract.Compatible fun t => contract t (post t) where
  refl := Rely.refl
  trans _ _ _ _ := Rely.trans
  guar_rely t u htu s s' h := by
    obtain ⟨e, -, -, hothers⟩ := h
    exact hothers u htu.symm

/-- What a call that returns has to show. -/
def post (t : ι) (call : Call) (reply : Reply) (s : Shared ι) : Prop :=
  ∀ r, reply = .ok r → AsDecided t call s.history r

/-- A call that fails has nothing to show. -/
theorem holds_failed (t : ι) (call : Call) (e : String) (s : Shared ι) :
    Contract.Holds (perform F) (InTurn F) t (contract t (post t call)) (.done (.error e)) s :=
  fun _ _ r hr => by cases hr

theorem holds_getReport (t : ι) (call : Call) (s : Shared ι)
    (hundisclosed : undisclosed t s.history = some call.reportID)
    (hrow : ∀ r, s.world.find? call.reportID = some r → AsDecided t call s.history r) :
    Contract.Holds (perform F) (InTurn F) t (contract t (post t call))
      (RegistryService.getReport call.reportID) s := by
  simp only [RegistryService.getReport, Program.call_bind, Program.pure_eq]
  intro s' hrely env _
  refine ⟨guar_readOnly F t s' rfl env, ?_⟩
  cases hr : (perform F t s' (.selectReport call.reportID) env).2 with
  | error e => exact holds_failed F t call _ _
  | ok r =>
    obtain ⟨es, hes, -, hkept⟩ := hrely
    have hfind := exec_selectReport hr
    rw [hkept _ hundisclosed] at hfind
    intro s'' hrely' r' hr'
    obtain ⟨fs, hfs, -, -⟩ := hrely'
    cases hr'
    rw [hfs, perform_eq]
    refine AsDecided.append ?_ fs
    rw [hes, ← List.cons_append]
    exact (hrow r hfind).append _

theorem holds_program (t : ι) (call : Call) (s : Shared ι) :
    Contract.Holds (perform F) (InTurn F) t (contract t (post t call)) call.program s := by
  unfold Call.program RegistryService.updateReportStatus
  split
  · exact holds_failed F t call _ s
  simp only [Program.call_bind, Program.pure_eq]
  intro s₁ _ env₁ _
  refine ⟨guar_readOnly F t s₁ rfl env₁, ?_⟩
  intro s₂ _ env₂ hturn
  refine ⟨guar_updateReport F t s₂ _ _ _ _ _ env₂ hturn, ?_⟩
  generalize (perform F t s₁ .timeNow env₁).2 = now at hturn ⊢
  rcases exec_updateReport F s₂.world call.status call.moderatorID now now call.reportID env₂ with
    ⟨e, he⟩ | he
  · rw [perform_eq, he]
    exact holds_failed F t call _ _
  · rw [perform_eq, he]
    refine holds_getReport F t call _ ((undisclosed_cons_self _ rfl).trans rfl) fun r hr => ?_
    rw [Table.find?_update, if_pos rfl] at hr
    obtain ⟨row, hrow, rfl⟩ := Option.map_eq_some_iff.mp hr
    have hid := Table.key_of_find? hrow
    exact ⟨hid, rfl, rfl, now, rfl, List.mem_cons_self⟩

/-- In every run in which each decision is in turn, every call that succeeds is told the
report as it decided it. -/
theorem run_asDecided (calls : ι → Call) (w : ReportStore) (schedule : List (ι × Env))
    (hturn : Pool.Guarded (perform F) (InTurn F) (start calls w) schedule) (t : ι)
    (r : ModeratedReport) (hr : (runFrom F calls w schedule).threads t = .done (.ok r)) :
    AsDecided t (calls t) (runFrom F calls w schedule).state.history r := by
  obtain ⟨hholds, -⟩ := Contract.run_sound (contracts_compatible fun t => post t (calls t))
    (fun _ _ => True) (fun _ => trivial) (fun _ _ _ _ _ => trivial) (fun _ _ _ _ => trivial) hturn
    fun t => holds_program F t (calls t) _
  exact (hholds t).done hr (Rely.refl t) r rfl

end Threads

/-- Report 1, still pending. -/
def pendingReport : ReportStore :=
  ⟨[⟨⟨1, 2, "jane.doe@mail.test", "theft", "", "pending", 0, 0⟩, none, none⟩], by decide⟩

/-- Moderator 10 verifies report 1, moderator 20 dismisses it. -/
def twoModerators : Bool → Call
  | false => ⟨1, 10, "verified"⟩
  | true => ⟨1, 20, "dismissed"⟩

/-- `n` requests in a row of one call, at time `now`. -/
def turns (t : Bool) (now : Time) (n : ℕ) : List (Bool × Env) := List.replicate n (t, .good now 0)

/-- A locale without letter case, which no statement of these calls asks for. -/
def caseless : Folding := ⟨id, fun _ _ => rfl, fun _ h => h⟩

/-- One call after the other, each moderator is told the own decision. -/
theorem run_asDecided_in_turn : AsDecided true (twoModerators true)
    (runFrom caseless twoModerators pendingReport (turns false 5 3 ++ turns true 6 3)).state.history
    ⟨⟨1, 2, "jane.doe@mail.test", "theft", "", "dismissed", 0, 6⟩, some 20, some 6⟩ :=
  run_asDecided caseless twoModerators pendingReport (turns false 5 3 ++ turns true 6 3)
    (by decide) true _ rfl

/-- The second decision comes between the first one and its answer: the moderator who
verified the report is told that moderator 20 has dismissed it. -/
theorem decision_overwritten : ¬ ∀ (ι : Type) [DecidableEq ι] (F : Folding) (calls : ι → Call)
    (w : ReportStore) (schedule : List (ι × Env)) (t : ι) (r : ModeratedReport),
    (runFrom F calls w schedule).threads t = .done (.ok r) →
    AsDecided t (calls t) (runFrom F calls w schedule).state.history r := by
  intro h
  have hanswer := h Bool caseless twoModerators pendingReport
    (turns false 5 2 ++ turns true 6 2 ++ turns false 7 1) false
    ⟨⟨1, 2, "jane.doe@mail.test", "theft", "", "dismissed", 0, 6⟩, some 20, some 6⟩ rfl
  exact absurd hanswer.moderatorID (by decide)

end SafetyDao.Moderation
