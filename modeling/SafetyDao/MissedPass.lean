import SafetyDao.CheckInService

/-!
# One pass of the monitor, whatever fails

A pass alone on the database, under any pattern of failures of its rows: scans, UPDATEs and
INSERTs. The loop goes on after each of them, but pgx closes the rows upon a scan that fails,
so there is nothing to go on with: the rows after it wait for another pass.
-/
namespace SafetyDao.MissedPass
open SafetyStore (exec)

/-- What becomes of a row: the failures of its statements, the readings of the clock and the
fresh identifier of its alert. -/
structure Turn where
  scan : Option String
  now : Time
  update : Option String
  alertID : UUID
  createdAt : Time
  updatedAt : Time
  insert : Option String

/-- The scan and the UPDATE of the row succeed. -/
def Turn.marks (t : Turn) : Bool := t.scan.isNone && t.update.isNone

/-- The service as `main` builds it. -/
def checkInSvc : CheckInService := ⟨true⟩

def answer (failure : Option String) : Env := ⟨0, 0, failure, fun _ => 0⟩

/-- The answers to the statements of a row after its scan. -/
def Turn.statements (t : Turn) : List Env :=
  Env.good t.now 0 :: answer t.update ::
    if t.update.isSome then []
    else [Env.good 0 t.alertID, Env.good t.createdAt 0, Env.good t.updatedAt 0, answer t.insert]

variable (turn : UUID → Turn)

/-- The answers to a loop over rows. `Rows is automatically closed upon error` of a scan: the
next row does not come. -/
def answers : List MissedCheckIn → List Env
  | [] => []
  | row :: rest =>
    let t := turn row.id
    answer none :: answer t.scan ::
      if t.scan.isSome then (if rest = [] then [] else [answer (some "rows are closed")])
      else t.statements ++ answers rest

def newAlert (row : MissedCheckIn) : EmergencyAlert :=
  EmergencyService.newAlert (turn row.id).alertID row.userID "safety" none none
    (turn row.id).createdAt (turn row.id).updatedAt

section Effects

/-- What a row does to the tables when its turn comes. -/
def afterRow (w : SafetyStore) (row : MissedCheckIn) : SafetyStore :=
  if (turn row.id).marks then
    let marked := w.updateMissed (turn row.id).now row.id
    if (turn row.id).insert.isNone then (marked.insertAlert (newAlert turn row)).1 else marked
  else w

/-- The rows whose turn comes with an effect: those before the first failed scan. -/
def scanned (rows : List MissedCheckIn) : List MissedCheckIn :=
  rows.takeWhile fun row => (turn row.id).scan.isNone

theorem run_answer {α : Type} {op : SafetyOp} {next : op.Res → Safety α} (w : SafetyStore)
    (env : Env) (envs : List Env) :
    (Program.request op next).run exec w (env :: envs) =
      (next (w.exec op env).2).run exec (w.exec op env).1 envs := rfl

@[simp] theorem attempt_answer_none {β : Type} (w : SafetyStore)
    (out : SafetyStore × Except String β) : (answer none).attempt w out = out := rfl

/-- The alert of a marked row is inserted, or its failure is returned. -/
theorem run_triggerAlert (w : SafetyStore) (row : MissedCheckIn) (envs : List Env) :
    ∃ r, (EmergencyService.triggerAlert row.userID "safety" none none).run exec w
        (Env.good 0 (turn row.id).alertID :: Env.good (turn row.id).createdAt 0 ::
          Env.good (turn row.id).updatedAt 0 :: answer (turn row.id).insert :: envs) =
      some (r, if (turn row.id).insert.isNone then (w.insertAlert (newAlert turn row)).1 else w,
        envs) := by
  have halert : EmergencyService.newAlert (Env.good 0 (turn row.id).alertID).uuid row.userID
      "safety" none none (Env.good (turn row.id).createdAt 0).now
      (Env.good (turn row.id).updatedAt 0).now = newAlert turn row := rfl
  unfold EmergencyService.triggerAlert
  simp only [Program.call_bind, Program.pure_eq, run_answer, SafetyStore.exec, halert]
  cases (turn row.id).insert with
  | some e => exact ⟨_, rfl⟩
  | none =>
    rw [attempt_answer_none]
    cases (w.insertAlert (newAlert turn row)).2 with
    | error e => exact ⟨_, rfl⟩
    | ok _ => exact ⟨_, rfl⟩

/-- A row whose scan succeeds has its effect, and the loop goes on. -/
theorem run_processRows_cons {w : SafetyStore} {row : MissedCheckIn}
    (hscan : (turn row.id).scan = none) (rest : List MissedCheckIn) (envs : List Env) :
    (checkInSvc.processRows (row :: rest)).run exec w
        (answer none :: answer none :: ((turn row.id).statements ++ envs)) =
      (checkInSvc.processRows rest).run exec (afterRow turn w row) envs := by
  rw [CheckInService.processRows, afterRow, Turn.marks, Turn.statements, hscan]
  simp only [Program.call_bind, run_answer, SafetyStore.exec, attempt_answer_none,
    List.cons_append]
  cases hupdate : (turn row.id).update with
  | some e => rfl
  | none =>
    obtain ⟨r, hr⟩ := run_triggerAlert turn (w.updateMissed (turn row.id).now row.id) row envs
    simp only [attempt_answer_none, checkInSvc, if_true, Option.isSome_none, Bool.false_eq_true,
      if_false, List.cons_append, List.nil_append, Program.run_bind]
    exact congrArg (Option.bind · fun out =>
      (checkInSvc.processRows rest).run exec out.2.1 out.2.2) hr

/-- The loop does what the rows before the first failed scan do, one after another. -/
theorem run_processRows (rows : List MissedCheckIn) (w : SafetyStore) :
    (checkInSvc.processRows rows).run exec w (answers turn rows) =
      some ((), (scanned turn rows).foldl (afterRow turn) w, []) := by
  induction rows generalizing w with
  | nil => rfl
  | cons row rest ih =>
    rw [answers, scanned]
    cases hscan : (turn row.id).scan with
    | some e =>
      rw [List.takeWhile_cons_of_neg (by simp [hscan]), List.foldl_nil]
      cases rest with
      | nil => rfl
      | cons next more => rfl
    | none =>
      rw [List.takeWhile_cons_of_pos (by simp [hscan]), List.foldl_cons]
      simp only [Option.isSome_none, Bool.false_eq_true, if_false]
      rw [run_processRows_cons turn hscan]
      exact ih (afterRow turn w row)

/-- The SELECT of a pass: its clock and the order of its rows. -/
def selection (now : Time) (rank : UUID → ℕ) : Env := ⟨now, 0, none, rank⟩

/-- The tables after a pass alone. -/
def afterPass (now : Time) (rank : UUID → ℕ) (w : SafetyStore) : SafetyStore :=
  (scanned turn (w.selectMissed (selection now rank))).foldl (afterRow turn) w

theorem run_processMissedCheckIns (now : Time) (rank : UUID → ℕ) (w : SafetyStore) :
    checkInSvc.processMissedCheckIns.run exec w
        (selection now rank :: answers turn (w.selectMissed (selection now rank))) =
      some ((), afterPass turn now rank w, []) :=
  run_processRows turn (w.selectMissed (selection now rank)) w

end Effects

section Tables

theorem insertAlert_checkIns (w : SafetyStore) (a : EmergencyAlert) :
    (w.insertAlert a).1.checkIns = w.checkIns := by
  unfold SafetyStore.insertAlert
  split
  · cases w.alerts.insert a <;> rfl
  · rfl

/-- A safety alert is the last row, unless its identifier is taken. -/
theorem insertAlert_alerts (w : SafetyStore) {a : EmergencyAlert} (h : a.alertType = "safety") :
    (w.insertAlert a).1.alerts.rows = if a.id ∈ w.alerts.rows.map EmergencyAlert.id
      then w.alerts.rows else w.alerts.rows ++ [a] := by
  have htype : a.alertType ∈ alertTypes := by
    rw [h]
    decide
  rw [SafetyStore.insertAlert, if_pos htype]
  cases hi : w.alerts.insert a with
  | none =>
    obtain ⟨b, hb⟩ := Table.insert_eq_none.mp hi
    have hmem : a.id ∈ w.alerts.rows.map EmergencyAlert.id :=
      List.mem_map.mpr ⟨b, Table.mem_of_find? hb, Table.key_of_find? hb⟩
    rw [if_pos hmem]
  | some t =>
    obtain ⟨hnone, hrows⟩ := Table.insert_eq_some.mp hi
    have hmem : a.id ∉ w.alerts.rows.map EmergencyAlert.id := by
      intro hmem
      obtain ⟨b, hb, hid⟩ := List.mem_map.mp hmem
      exact Table.find?_eq_none.mp hnone b hb hid
    rw [if_neg hmem]
    exact hrows

/-- The alerts of the rows whose INSERT succeeds, for the identifiers that are taken before. -/
def raised (taken : List UUID) : List MissedCheckIn → List EmergencyAlert
  | [] => []
  | row :: rest =>
    let t := turn row.id
    if t.marks ∧ t.insert.isNone ∧ t.alertID ∉ taken then
      newAlert turn row :: raised (taken ++ [t.alertID]) rest
    else raised taken rest

theorem afterRow_alerts (w : SafetyStore) (row : MissedCheckIn) :
    (afterRow turn w row).alerts.rows = w.alerts.rows ++
      if (turn row.id).marks ∧ (turn row.id).insert.isNone ∧
        (turn row.id).alertID ∉ w.alerts.rows.map EmergencyAlert.id then [newAlert turn row]
      else [] := by
  have hsafety : (newAlert turn row).alertType = "safety" := rfl
  rw [afterRow]
  by_cases hmarks : (turn row.id).marks
  · by_cases hinsert : (turn row.id).insert.isNone
    · simp only [hmarks, hinsert, if_true, insertAlert_alerts _ hsafety, true_and]
      by_cases htaken : (turn row.id).alertID ∈ w.alerts.rows.map EmergencyAlert.id
      · rw [if_neg (not_not_intro htaken), List.append_nil]
        exact if_pos htaken
      · rw [if_pos htaken]
        exact if_neg htaken
    · simp [hmarks, hinsert, SafetyStore.updateMissed]
  · simp [hmarks]

theorem foldl_afterRow_alerts (rows : List MissedCheckIn) (w : SafetyStore) :
    (rows.foldl (afterRow turn) w).alerts.rows =
      w.alerts.rows ++ raised turn (w.alerts.rows.map EmergencyAlert.id) rows := by
  induction rows generalizing w with
  | nil => rw [List.foldl_nil, raised, List.append_nil]
  | cons row rest ih =>
    rw [List.foldl_cons, ih, afterRow_alerts, raised]
    split
    · rw [List.map_append, List.append_assoc]
      rfl
    · rw [List.append_nil]

/-- The check-ins of the rows are marked, if their statements succeed. -/
def marked (rows : List MissedCheckIn) (chk : CheckIn) : CheckIn :=
  if chk.id ∈ rows.map MissedCheckIn.id ∧ (turn chk.id).marks then chk.miss (turn chk.id).now
  else chk

theorem afterRow_checkIns (w : SafetyStore) (row : MissedCheckIn) :
    (afterRow turn w row).checkIns.rows = w.checkIns.rows.map (marked turn [row]) := by
  have hupdate : (turn row.id).marks = true →
      (w.updateMissed (turn row.id).now row.id).checkIns.rows =
        w.checkIns.rows.map (marked turn [row]) := by
    intro hmarks
    refine List.map_congr_left fun chk _ => ?_
    by_cases hid : chk.id = row.id
    · simp [marked, hid, hmarks]
    · simp [marked, hid]
  rw [afterRow]
  split
  · rename_i hmarks
    split
    · rw [insertAlert_checkIns, hupdate hmarks]
    · exact hupdate hmarks
  · rename_i hmarks
    refine (List.map_id _).symm.trans (List.map_congr_left fun chk _ => ?_)
    by_cases hid : chk.id = row.id
    · simp [marked, hid, hmarks]
    · simp [marked, hid]

theorem marked_marked (row : MissedCheckIn) (rest : List MissedCheckIn) (chk : CheckIn) :
    marked turn rest (marked turn [row] chk) = marked turn (row :: rest) chk := by
  by_cases hmarks : (turn chk.id).marks
  · by_cases hid : chk.id = row.id
    · have hfirst : marked turn [row] chk = chk.miss (turn chk.id).now := by
        simp [marked, hid, hid ▸ hmarks]
      have hall : marked turn (row :: rest) chk = chk.miss (turn chk.id).now := by
        simp [marked, hid, hid ▸ hmarks]
      rw [hfirst, hall, marked]
      split
      · rfl
      · rfl
    · simp [marked, hid]
  · simp [marked, hmarks]

theorem foldl_afterRow_checkIns (rows : List MissedCheckIn) (w : SafetyStore) :
    (rows.foldl (afterRow turn) w).checkIns.rows = w.checkIns.rows.map (marked turn rows) := by
  induction rows generalizing w with
  | nil =>
    refine (List.map_id _).symm.trans (List.map_congr_left fun chk _ => ?_)
    simp [marked]
  | cons row rest ih =>
    rw [List.foldl_cons, ih, afterRow_checkIns, List.map_map]
    exact List.map_congr_left fun chk _ => marked_marked turn row rest chk

end Tables

section Claimed

variable (now : Time) (rank : UUID → ℕ) (w : SafetyStore)

/-- A row that is overdue, if its scan and UPDATE succeed, is marked; nothing else changes. -/
def missedAlone (chk : CheckIn) : CheckIn :=
  if chk.Overdue now ∧ (turn chk.id).marks then chk.miss (turn chk.id).now else chk

/-- Every row as if it were alone, whatever fails at the others. -/
structure RowsApart (w' : SafetyStore) : Prop where
  checkIns : w'.checkIns.rows = w.checkIns.rows.map (missedAlone turn now)
  alerts : w'.alerts.rows = w.alerts.rows ++ raised turn (w.alerts.rows.map EmergencyAlert.id)
    (w.selectMissed (selection now rank))
  again : ∀ rank' row, row ∈ w'.selectMissed (selection now rank') ↔
    row ∈ w.selectMissed (selection now rank) ∧ (turn row.id).marks = false

/-- No row that could be marked comes after one that fails to scan. -/
def MarksFirst : Prop :=
  ∀ row ∈ w.selectMissed (selection now rank), (turn row.id).marks = true →
    row ∈ scanned turn (w.selectMissed (selection now rank))

/-- The selected rows are those of the overdue check-ins. -/
theorem mem_ids_selectMissed {w : SafetyStore} {chk : CheckIn} (h : chk ∈ w.checkIns.rows) :
    chk.id ∈ (w.selectMissed (selection now rank)).map MissedCheckIn.id ↔ chk.Overdue now := by
  rw [List.mem_map]
  constructor
  · rintro ⟨row, hrow, hid⟩
    obtain ⟨other, hother, hoverdue, rfl⟩ := SafetyStore.mem_selectMissed.mp hrow
    have heq : other = chk := w.checkIns.eq_of_key_eq hother h hid
    exact heq ▸ hoverdue
  · intro hoverdue
    exact ⟨chk.toMissed, SafetyStore.mem_selectMissed.mpr ⟨chk, h, hoverdue, rfl⟩, rfl⟩

theorem nodup_ids_selectMissed :
    ((w.selectMissed (selection now rank)).map MissedCheckIn.id).Nodup := by
  have hids : (w.selectMissed (selection now rank)).map MissedCheckIn.id =
      ((selection now rank).arrange CheckIn.id
        (w.checkIns.rows.filter fun chk => chk.Overdue now)).map CheckIn.id := by
    rw [SafetyStore.selectMissed, List.map_map]
    rfl
  rw [hids, ((Env.arrange_perm _ _ _).map CheckIn.id).nodup_iff]
  exact w.checkIns.nodup.sublist (List.filter_sublist.map _)

/-- A marked check-in is no longer overdue, and any other is as overdue as before. -/
theorem overdue_missedAlone (chk : CheckIn) : (missedAlone turn now chk).Overdue now ↔
    chk.Overdue now ∧ (turn chk.id).marks = false := by
  unfold missedAlone
  split
  · rename_i h
    constructor
    · exact fun hoverdue => nomatch hoverdue.1
    · exact fun hboth => absurd h.2 (by simp [hboth.2])
  · rename_i h
    rw [not_and, Bool.not_eq_true] at h
    exact ⟨fun hoverdue => ⟨hoverdue, h hoverdue⟩, And.left⟩

theorem toMissed_missedAlone (chk : CheckIn) :
    (missedAlone turn now chk).toMissed = chk.toMissed := by
  unfold missedAlone
  split <;> rfl

theorem raised_append {rest : List MissedCheckIn}
    (h : ∀ row ∈ rest, (turn row.id).marks = false) (taken : List UUID)
    (rows : List MissedCheckIn) : raised turn taken (rows ++ rest) = raised turn taken rows := by
  induction rows generalizing taken with
  | nil =>
    induction rest with
    | nil => rfl
    | cons row rest ih =>
      have hrow := h row List.mem_cons_self
      have hrest := ih fun r hr => h r (List.mem_cons_of_mem _ hr)
      simpa [raised, hrow] using hrest
  | cons row rows ih =>
    simp only [List.cons_append, raised, ih]

/-- A row among the selected ones is known by its check-in. -/
theorem eq_of_id_eq {row row' : MissedCheckIn}
    (h : row ∈ w.selectMissed (selection now rank))
    (h' : row' ∈ w.selectMissed (selection now rank)) (hid : row.id = row'.id) : row = row' :=
  List.inj_on_of_nodup_map (nodup_ids_selectMissed now rank w) h h' hid

theorem mem_of_mem_scanned {rows : List MissedCheckIn} {row : MissedCheckIn}
    (h : row ∈ scanned turn rows) : row ∈ rows :=
  (List.takeWhile_prefix _).subset h

/-- If the rows to mark come first, those of them that are overdue have their turn. -/
theorem MarksFirst.mem_ids_scanned (h : MarksFirst turn now rank w) {chk : CheckIn}
    (hchk : chk ∈ w.checkIns.rows) (hmarks : (turn chk.id).marks = true) :
    chk.id ∈ (scanned turn (w.selectMissed (selection now rank))).map MissedCheckIn.id ↔
      chk.Overdue now := by
  rw [← mem_ids_selectMissed now rank hchk]
  constructor
  · intro hmem
    obtain ⟨row, hrow, hid⟩ := List.mem_map.mp hmem
    exact List.mem_map.mpr ⟨row, mem_of_mem_scanned turn hrow, hid⟩
  · intro hmem
    obtain ⟨row, hrow, hid⟩ := List.mem_map.mp hmem
    exact List.mem_map.mpr ⟨row, h row hrow (hid ▸ hmarks), hid⟩

/-- Of the check-ins, the pass marks what it should exactly if the rows to mark come first. -/
theorem checkIns_iff : (afterPass turn now rank w).checkIns.rows =
    w.checkIns.rows.map (missedAlone turn now) ↔ MarksFirst turn now rank w := by
  rw [afterPass, foldl_afterRow_checkIns, List.map_inj_left]
  constructor
  · intro h row hrow hmarks
    obtain ⟨chk, hchk, hoverdue, rfl⟩ := SafetyStore.mem_selectMissed.mp hrow
    have hboth := h chk hchk
    rw [missedAlone, if_pos ⟨hoverdue, hmarks⟩, marked] at hboth
    by_cases hin : chk.id ∈ (scanned turn (w.selectMissed (selection now rank))).map
        MissedCheckIn.id
    · obtain ⟨row, hscanned, hid⟩ := List.mem_map.mp hin
      have heq := eq_of_id_eq now rank w (mem_of_mem_scanned turn hscanned) hrow hid
      exact heq ▸ hscanned
    · rw [if_neg fun hand => hin hand.1] at hboth
      have hstatus : chk.status = .missed := by
        rw [hboth]
        rfl
      rw [hoverdue.1] at hstatus
      cases hstatus
  · intro h chk hchk
    rw [marked, missedAlone]
    by_cases hmarks : (turn chk.id).marks = true
    · simp only [h.mem_ids_scanned turn now rank w hchk hmarks]
    · rw [if_neg fun hand => hmarks hand.2, if_neg fun hand => hmarks hand.2]

theorem MarksFirst.raised_eq (h : MarksFirst turn now rank w) (taken : List UUID) :
    raised turn taken (w.selectMissed (selection now rank)) =
      raised turn taken (scanned turn (w.selectMissed (selection now rank))) := by
  have hsplit := List.takeWhile_append_dropWhile (p := fun row : MissedCheckIn =>
    (turn row.id).scan.isNone) (l := w.selectMissed (selection now rank))
  have hnodup := nodup_ids_selectMissed now rank w
  rw [← hsplit, List.map_append, List.nodup_append] at hnodup
  conv_lhs => rw [← hsplit]
  refine raised_append turn (fun row hrow => ?_) taken _
  by_contra hmarks
  have hselected : row ∈ w.selectMissed (selection now rank) :=
    (List.dropWhile_suffix _).subset hrow
  have hscanned := h row hselected (Bool.not_eq_false _ ▸ hmarks)
  exact hnodup.2.2 _ (List.mem_map_of_mem hscanned) _ (List.mem_map_of_mem hrow) rfl

/-- A pass alone comes to its end, and has treated every row as if it were alone exactly if
none whose scan and UPDATE succeed came after one that failed to scan. -/
theorem rowsApart_iff_marksFirst :
    ∃ w', checkInSvc.processMissedCheckIns.run exec w
        (selection now rank :: answers turn (w.selectMissed (selection now rank))) =
        some ((), w', []) ∧
      (RowsApart turn now rank w w' ↔ MarksFirst turn now rank w) := by
  refine ⟨_, run_processMissedCheckIns turn now rank w, ?_⟩
  constructor
  · exact fun h => (checkIns_iff turn now rank w).mp h.checkIns
  · intro h
    have hcheckIns := (checkIns_iff turn now rank w).mpr h
    refine ⟨hcheckIns, ?_, fun rank' row => ?_⟩
    · rw [afterPass, foldl_afterRow_alerts, h.raised_eq]
    · simp only [SafetyStore.mem_selectMissed, hcheckIns, List.mem_map]
      constructor
      · rintro ⟨_, ⟨chk, hchk, rfl⟩, hoverdue, rfl⟩
        obtain ⟨hoverdue, hmarks⟩ := (overdue_missedAlone turn now chk).mp hoverdue
        rw [toMissed_missedAlone]
        exact ⟨⟨chk, hchk, hoverdue, rfl⟩, hmarks⟩
      · rintro ⟨⟨chk, hchk, hoverdue, rfl⟩, hmarks⟩
        exact ⟨_, ⟨chk, hchk, rfl⟩, (overdue_missedAlone turn now chk).mpr ⟨hoverdue, hmarks⟩,
          toMissed_missedAlone turn now chk⟩

end Claimed

/-! ## Two overdue check-ins, of which the first does not scan -/

def twoOverdue : SafetyStore where
  checkIns := ⟨[⟨1, 7, 10, none, .pending, "", 0, 0⟩, ⟨2, 8, 10, none, .pending, "", 0, 0⟩],
    by decide⟩
  alerts := .empty

def firstUnscanned (id : UUID) : Turn :=
  ⟨if id = 1 then some "cannot scan -infinity into *time.Time" else none, 20, none, 30, 20, 20,
    none⟩

/-- The second stays pending and without an alert, though nothing failed for it. -/
theorem second_waits_for_first :
    checkInSvc.processMissedCheckIns.run exec twoOverdue
        [selection 20 id, answer none, answer (firstUnscanned 1).scan,
          answer (some "rows are closed")] = some ((), twoOverdue, []) ∧
      (firstUnscanned 2).marks = true ∧ ¬ RowsApart firstUnscanned 20 id twoOverdue twoOverdue := by
  refine ⟨rfl, rfl, fun h => ?_⟩
  have hcheckIns := h.checkIns
  revert hcheckIns
  decide

end SafetyDao.MissedPass
