import SafetyDao.CheckInService
import SafetyDao.Unwinding

/-!
# What a user sees of the check-ins of others

Operations and monitor passes run one after another, and no statement fails. A statement
that reads or writes a check-in names its user, or follows one that has compared the user,
or treats every row by that row alone; so what others do leaves the rows of a user, and
what the user is told of them, as they would be without it.
-/
namespace SafetyDao.CheckInPrivacy

inductive Operation where
  | scheduleCheckIn (userID : UUID) (input : NewCheckIn)
  | completeCheckIn (checkInID userID : UUID)
  | getCheckIn (checkInID userID : UUID)
  | listCheckIns (userID : UUID) (status : String)

def Operation.caller : Operation → UUID
  | .scheduleCheckIn userID _ => userID
  | .completeCheckIn _ userID => userID
  | .getCheckIn _ userID => userID
  | .listCheckIns userID _ => userID

inductive Reply where
  | scheduled (r : Except String CheckIn)
  | completed (r : Except String CheckIn)
  | got (r : Except String CheckIn)
  | listed (r : Except String (List CheckIn))

def Operation.program : Operation → Safety Reply
  | .scheduleCheckIn userID input =>
    .scheduled <$> CheckInService.scheduleCheckIn userID input
  | .completeCheckIn checkInID userID =>
    .completed <$> CheckInService.completeCheckIn checkInID userID
  | .getCheckIn checkInID userID => .got <$> CheckInService.getCheckIn checkInID userID
  | .listCheckIns userID status => .listed <$> CheckInService.listCheckIns userID status

/-- An operation with what the environment gives to each of its requests, or a monitor pass
with what it gives to the SELECT and to the requests made for each check-in. -/
inductive Step where
  | call (op : Operation) (envs : List Env)
  | pass (select : Env) (request : UUID → ℕ → Env)

/-- The requests that a pass makes for one of its rows. -/
def requestsPerRow (svc : CheckInService) : ℕ := if svc.emergencySvc then 8 else 4

def rowEnvs (svc : CheckInService) (request : UUID → ℕ → Env) (row : MissedCheckIn) : List Env :=
  (List.range (requestsPerRow svc)).map (request row.id)

/-- One step to its end, with the reply and whom it is for. -/
def step (svc : CheckInService) (w : SafetyStore) :
    Step → Option (List (UUID × Reply) × SafetyStore)
  | .call op envs =>
    match op.program.run SafetyStore.exec w envs with
    | some (reply, w', []) => some ([(op.caller, reply)], w')
    | _ => none
  | .pass select request =>
    match svc.processMissedCheckIns.run SafetyStore.exec w
        (select :: (w.selectMissed select).flatMap (rowEnvs svc request)) with
    | some (_, w', []) => some ([], w')
    | _ => none

/-- No statement of the step fails. -/
def Step.Succeeds : Step → Prop
  | .call _ envs => ∀ env ∈ envs, env.failure = none
  | .pass select request => select.failure = none ∧ ∀ id i, (request id i).failure = none

/-- The identifier that a new check-in is given. -/
def Step.drawn : Step → List UUID
  | .call (.scheduleCheckIn ..) (_ :: env :: _) => [env.uuid]
  | _ => []

/-- The steps that remain when the operations of users other than `u` are removed. -/
def kept (u : UUID) : Step → Bool
  | .call op _ => op.caller = u
  | .pass .. => true

/-- What the user is told when scheduling, getting and listing. -/
def observed (u : UUID) : UUID × Reply → Bool
  | (_, .completed _) => false
  | (caller, _) => caller = u

def ownedBy (u : UUID) (w : SafetyStore) : List CheckIn :=
  w.checkIns.rows.filter fun chk => chk.userID = u

abbrev ids (w : SafetyStore) : List UUID := w.checkIns.rows.map CheckIn.id

/-- The rows of `u` are the same with and without the others, whose check-ins are all that
the other table may lack; and no identifier to come is taken. -/
structure Alike (u : UUID) (steps : List Step) (s r : SafetyStore) : Prop where
  owned : ownedBy u s = ownedBy u r
  subset : ids r ⊆ ids s
  fresh : (ids s ++ steps.flatMap Step.drawn).Nodup
  succeeds : ∀ x ∈ steps, x.Succeeds

section Rows

variable {w w' : SafetyStore} {u : UUID}

/-- The statements that name an identifier and a user find what the user owns. -/
theorem find?_filter_owner (w : SafetyStore) (u id : UUID) :
    (w.checkIns.find? id).filter (fun chk => chk.userID = u) =
      (ownedBy u w).find? (fun chk => chk.id = id) := by
  cases hf : w.checkIns.find? id with
  | none =>
    refine (List.find?_eq_none.mpr fun chk hchk => ?_).symm
    have hne := Table.find?_eq_none.mp hf chk (List.mem_of_mem_filter hchk)
    simpa using hne
  | some chk =>
    have hmem := Table.mem_of_find? hf
    have hid := Table.key_of_find? hf
    by_cases hu : chk.userID = u
    · have hown : chk ∈ ownedBy u w := List.mem_filter.mpr ⟨hmem, by simpa using hu⟩
      cases hg : (ownedBy u w).find? (fun chk => chk.id = id) with
      | none => exact absurd hid (by simpa using List.find?_eq_none.mp hg chk hown)
      | some chk' =>
        have hmem' := (List.mem_filter.mp (List.mem_of_find?_eq_some hg)).1
        have hid' : chk'.id = id := by simpa using List.find?_some hg
        have heq : chk = chk' := w.checkIns.eq_of_key_eq hmem hmem' (hid.trans hid'.symm)
        subst heq
        simp [hu]
    · have hnone : (ownedBy u w).find? (fun chk => chk.id = id) = none := by
        refine List.find?_eq_none.mpr fun chk' hchk' hid' => ?_
        obtain ⟨hmem', hu'⟩ := List.mem_filter.mp hchk'
        have hsame : chk'.id = id := by simpa using hid'
        have heq := w.checkIns.eq_of_key_eq hmem hmem' (hid.trans hsame.symm)
        exact hu (heq ▸ by simpa using hu')
      simp [hu, hnone]

/-- A list of check-ins is made from what the user owns. -/
theorem checkInsOfUser_eq (w : SafetyStore) (env : Env) (u : UUID) (status : String) :
    w.checkInsOfUser env u status =
      (env.arrange CheckIn.id ((ownedBy u w).filter fun chk =>
        status = "" ∨ chk.status.text = status)).insertionSort
          (fun a b => b.scheduledAt ≤ a.scheduledAt) := by
  have hrows : w.checkIns.rows.filter (fun chk =>
      chk.userID = u ∧ (status = "" ∨ chk.status.text = status)) =
      (ownedBy u w).filter fun chk => status = "" ∨ chk.status.text = status := by
    rw [ownedBy, List.filter_filter]
    refine List.filter_congr fun chk _ => ?_
    simp only [Bool.decide_and, Bool.and_comm]
  rw [SafetyStore.checkInsOfUser, hrows]

/-- The rows are changed one by one, each remaining the check-in of its user that it is, and
others are added. -/
structure Changes (f : CheckIn → CheckIn) (added : List CheckIn) (w w' : SafetyStore) : Prop where
  rows : w'.checkIns.rows = w.checkIns.rows.map f ++ added
  id : ∀ chk, (f chk).id = chk.id
  userID : ∀ chk, (f chk).userID = chk.userID

variable {f : CheckIn → CheckIn} {added : List CheckIn}

theorem Changes.refl (w : SafetyStore) : Changes (fun chk => chk) [] w w where
  rows := by simp
  id _ := rfl
  userID _ := rfl

theorem Changes.ids (h : Changes f added w w') : ids w' = ids w ++ added.map CheckIn.id := by
  rw [CheckInPrivacy.ids, h.rows, List.map_append, List.map_map]
  congr 1
  exact List.map_congr_left fun chk _ => h.id chk

theorem Changes.ownedBy (h : Changes f added w w') (u : UUID) :
    ownedBy u w' = (ownedBy u w).map f ++ added.filter fun chk => chk.userID = u := by
  rw [CheckInPrivacy.ownedBy, h.rows, List.filter_append, List.filter_map, CheckInPrivacy.ownedBy]
  congr 2
  refine List.filter_congr fun chk _ => ?_
  simp only [Function.comp_apply, h.userID]

end Rows

section Operations

variable {w w' : SafetyStore} {u v : UUID}

/-- The check-in that scheduling adds. -/
def newCheckIn (userID : UUID) (input : NewCheckIn) (id createdAt updatedAt : Env) : CheckIn :=
  ⟨id.uuid, userID, input.scheduledAt, none, .pending, input.note, createdAt.now, updatedAt.now⟩

/-- Scheduling reads the clock and refuses. -/
theorem run_scheduleCheckIn_past {input : NewCheckIn} {now : Env}
    (hpast : input.scheduledAt < now.now) (w : SafetyStore) (envs : List Env) :
    (CheckInService.scheduleCheckIn v input).run SafetyStore.exec w (now :: envs) =
      some (.error "scheduled_at must be in the future", w, envs) := by
  simp only [CheckInService.scheduleCheckIn, Program.call_bind, Program.pure_eq, Program.run,
    SafetyStore.exec, hpast, if_true]

/-- Or it goes on to one INSERT. -/
theorem run_scheduleCheckIn_future {input : NewCheckIn} {now : Env}
    (hfuture : ¬ input.scheduledAt < now.now) {envs : List Env} {r : Except String CheckIn} :
    (CheckInService.scheduleCheckIn v input).run SafetyStore.exec w (now :: envs) =
        some (r, w', []) ↔
      ∃ id createdAt updatedAt insert, envs = [id, createdAt, updatedAt, insert] ∧
        (w.exec (.insertCheckIn (newCheckIn v input id createdAt updatedAt)) insert).1 = w' ∧
        (match (w.exec (.insertCheckIn (newCheckIn v input id createdAt updatedAt)) insert).2 with
          | .error e => .error ("inserting check-in: " ++ e)
          | .ok _ => .ok (newCheckIn v input id createdAt updatedAt)) = r := by
  simp only [CheckInService.scheduleCheckIn, Program.call_bind, Program.pure_eq]
  simp only [Program.run, SafetyStore.exec, hfuture, if_false]
  constructor
  · intro h
    obtain ⟨id, _, rfl, h₁⟩ := Program.run_request.mp h
    obtain ⟨createdAt, _, rfl, h₂⟩ := Program.run_request.mp h₁
    obtain ⟨updatedAt, _, rfl, h₃⟩ := Program.run_request.mp h₂
    obtain ⟨insert, _, rfl, h₄⟩ := Program.run_request.mp h₃
    refine ⟨id, createdAt, updatedAt, insert, ?_⟩
    simp only [newCheckIn, SafetyStore.exec] at h₄ ⊢
    split at h₄ <;> rename_i hout <;>
      simp only [Program.run, Option.some.injEq, Prod.mk.injEq] at h₄ <;>
      obtain ⟨rfl, rfl, rfl⟩ := h₄ <;> simp only [hout, and_self]
  · rintro ⟨id, createdAt, updatedAt, insert, rfl, rfl, rfl⟩
    simp only [Program.run, newCheckIn, SafetyStore.exec]
    split <;> rename_i hout <;> simp only [Program.run, hout]

/-- A check-in with an identifier that is not taken goes in as the last row. -/
theorem exec_insertCheckIn_fresh {chk : CheckIn} {env : Env} (henv : env.failure = none)
    (hfresh : chk.id ∉ ids w) :
    ∃ t, t.rows = w.checkIns.rows ++ [chk] ∧
      w.exec (.insertCheckIn chk) env = ({ w with checkIns := t }, .ok ()) := by
  cases hins : w.checkIns.insert chk with
  | none =>
    obtain ⟨s, hs⟩ := Table.insert_eq_none.mp hins
    exact absurd (List.mem_map.mpr ⟨s, Table.mem_of_find? hs, Table.key_of_find? hs⟩) hfresh
  | some t =>
    refine ⟨t, (Table.insert_eq_some.mp hins).2, ?_⟩
    simp only [SafetyStore.exec, Env.attempt_good henv, SafetyStore.insertCheckIn, hins]

/-- Unless the user has a pending check-in of the identifier, completing it is refused. -/
theorem run_completeCheckIn_refused {id : UUID} {select : Env} (henv : select.failure = none)
    (h : ∀ chk, (ownedBy v w).find? (fun chk => chk.id = id) = some chk → chk.status ≠ .pending) :
    ∃ e, ∀ envs, (CheckInService.completeCheckIn id v).run SafetyStore.exec w (select :: envs) =
      some (.error e, w, envs) := by
  rw [← find?_filter_owner] at h
  simp only [CheckInService.completeCheckIn, Program.call_bind, Program.pure_eq, Program.run,
    SafetyStore.exec, Env.attempt_good henv]
  cases hf : w.checkIns.find? id with
  | none => exact ⟨_, fun envs => rfl⟩
  | some chk =>
    by_cases huser : chk.userID = v
    · have hst : chk.status ≠ .pending := h chk (by simp [hf, huser])
      simp only [queryRow, huser, ne_eq, not_true, if_false, hst, not_false_eq_true, if_true]
      exact ⟨_, fun envs => rfl⟩
    · simp only [queryRow, ne_eq, huser, not_false_eq_true, if_true]
      exact ⟨_, fun envs => rfl⟩

/-- If there is one, it is completed at the time that is read. -/
theorem run_completeCheckIn_pending {id : UUID} {select : Env} {envs : List Env} {chk : CheckIn}
    (hgood : ∀ env ∈ select :: envs, env.failure = none)
    (hchk : (ownedBy v w).find? (fun chk => chk.id = id) = some chk) (hst : chk.status = .pending)
    {r : Except String CheckIn} :
    (CheckInService.completeCheckIn id v).run SafetyStore.exec w (select :: envs) =
        some (r, w', []) ↔
      ∃ now update, envs = [now, update] ∧ .ok (chk.complete now.now now.now) = r ∧
        w.updateCompleted now.now now.now id = w' := by
  rw [← find?_filter_owner, Option.filter_eq_some_iff, decide_eq_true_eq] at hchk
  obtain ⟨hf, huser⟩ := hchk
  simp only [CheckInService.completeCheckIn, Program.call_bind, Program.pure_eq, Program.run,
    SafetyStore.exec, hf, Env.attempt_good (hgood select List.mem_cons_self), queryRow, huser, hst,
    ne_eq, not_true, if_false]
  constructor
  · intro h
    obtain ⟨now, _, rfl, h₁⟩ := Program.run_request.mp h
    obtain ⟨update, _, rfl, h₂⟩ := Program.run_request.mp h₁
    simp only [SafetyStore.exec, Env.attempt_good (hgood update (by simp)), Program.run,
      Option.some.injEq, Prod.mk.injEq] at h₂
    obtain ⟨hr, hw', rfl⟩ := h₂
    exact ⟨now, update, rfl, hr, hw'⟩
  · rintro ⟨now, update, rfl, rfl, rfl⟩
    simp only [Program.run, SafetyStore.exec, Env.attempt_good (hgood update (by simp))]

/-- The requests that read check-ins of one user. -/
def ReadsOf (v : UUID) : SafetyOp → Prop
  | .rowsNext | .rowsScan => True
  | .selectCheckInOfUser _ userID | .selectCheckInsOfUser userID _ => userID = v
  | _ => False

/-- They change nothing, and answer from what the user owns. -/
theorem exec_readsOf {s r : SafetyStore} (h : ownedBy v s = ownedBy v r) {op : SafetyOp}
    (hop : ReadsOf v op) (env : Env) :
    ((s.exec op env).1 = s ∧ (r.exec op env).1 = r) ∧ (s.exec op env).2 = (r.exec op env).2 := by
  have hread : SafetyStore.readOnly op = true := by
    cases op <;> first | rfl | exact hop.elim
  refine ⟨⟨SafetyStore.exec_readOnly hread s env, SafetyStore.exec_readOnly hread r env⟩, ?_⟩
  have hanswer : ∀ {β : Type} (a : Except String β),
      (env.attempt s (s, a)).2 = (env.attempt r (r, a)).2 := by
    intro β a
    cases hf : env.failure <;> simp only [Env.attempt, hf]
  cases op with
  | rowsNext => exact hanswer _
  | rowsScan => exact hanswer _
  | selectCheckInOfUser id userID =>
    obtain rfl : userID = v := hop
    simp only [SafetyStore.exec, find?_filter_owner, h]
    exact hanswer _
  | selectCheckInsOfUser userID status =>
    obtain rfl : userID = v := hop
    simp only [SafetyStore.exec, checkInsOfUser_eq, h]
    exact hanswer _
  | _ => exact hop.elim

theorem run_readsOf {α : Type} {p : Safety α} (hp : p.Issues (ReadsOf v)) {s r s' : SafetyStore}
    (h : ownedBy v s = ownedBy v r) {envs : List Env} {a : α}
    (hrun : p.run SafetyStore.exec s envs = some (a, s', [])) :
    s' = s ∧ p.run SafetyStore.exec r envs = some (a, r, []) := by
  have hstep : ∀ (x y : SafetyStore) op env, x = s ∧ y = r → ReadsOf v op → True →
      ((x.exec op env).1 = s ∧ (y.exec op env).1 = r) ∧ (x.exec op env).2 = (y.exec op env).2 := by
    rintro x y op env ⟨rfl, rfl⟩ hop -
    exact exec_readsOf h hop env
  obtain ⟨_, hr, hs', rfl⟩ := hp.run_alike hstep (fun _ _ => trivial) ⟨rfl, rfl⟩ hrun
  exact ⟨hs', hr⟩

theorem issues_getCheckIn (id : UUID) :
    (CheckInService.getCheckIn id v).Issues (ReadsOf v) :=
  .request rfl fun r => by cases r <;> trivial

theorem issues_listCheckIns (status : String) :
    (CheckInService.listCheckIns v status).Issues (ReadsOf v) := by
  refine .request rfl fun r => ?_
  cases r with
  | error e => trivial
  | ok rows => exact Safety.issues_scanRows trivial trivial _ [] rows

end Operations

section Pass

variable {w : SafetyStore} {request : UUID → ℕ → Env}

/-- Raising an alert makes four requests and touches no check-in. -/
theorem run_triggerAlert (w : SafetyStore) (userID : UUID) (id createdAt updatedAt insert : Env)
    (envs : List Env) : ∃ r w',
      (EmergencyService.triggerAlert userID "safety" none none).run SafetyStore.exec w
        (id :: createdAt :: updatedAt :: insert :: envs) = some (r, w', envs) ∧
      w'.checkIns = w.checkIns := by
  simp only [EmergencyService.triggerAlert, Program.call_bind, Program.pure_eq, Program.run,
    SafetyStore.exec_newUUID, SafetyStore.exec_timeNow]
  rcases SafetyStore.exec_insertAlert w (EmergencyService.newAlert id.uuid userID "safety" none none
    createdAt.now updatedAt.now) insert with ⟨e, he⟩ | ⟨t, -, he⟩ <;> rw [he]
  · exact ⟨_, w, rfl, rfl⟩
  · exact ⟨_, { w with alerts := t }, rfl, rfl⟩

/-- A row of the loop is marked at the time read for it, and no other check-in changes. -/
theorem run_processRows_cons (svc : CheckInService) (hgood : ∀ id i, (request id i).failure = none)
    (row : MissedCheckIn) (rest : List MissedCheckIn) (w : SafetyStore) (envs : List Env) :
    ∃ w', (svc.processRows (row :: rest)).run SafetyStore.exec w
        (rowEnvs svc request row ++ envs) = (svc.processRows rest).run SafetyStore.exec w' envs ∧
      w'.checkIns = (w.updateMissed (request row.id 2).now row.id).checkIns := by
  have hmark : ∀ i (x : SafetyStore) (out : SafetyStore × Except String Unit),
      (request row.id i).attempt x out = out :=
    fun i x out => Env.attempt_good (hgood row.id i) x out
  obtain ⟨emergencySvc⟩ := svc
  cases emergencySvc with
  | false =>
    refine ⟨w.updateMissed (request row.id 2).now row.id, ?_, rfl⟩
    have henvs : rowEnvs ⟨false⟩ request row =
        [request row.id 0, request row.id 1, request row.id 2, request row.id 3] := rfl
    simp [henvs, CheckInService.processRows, Program.run, SafetyStore.exec, hmark]
  | true =>
    obtain ⟨r, w', hrun, hsame⟩ := run_triggerAlert (w.updateMissed (request row.id 2).now row.id)
      row.userID (request row.id 4) (request row.id 5) (request row.id 6) (request row.id 7) envs
    refine ⟨w', ?_, hsame⟩
    have henvs : rowEnvs ⟨true⟩ request row =
        [request row.id 0, request row.id 1, request row.id 2, request row.id 3,
          request row.id 4, request row.id 5, request row.id 6, request row.id 7] := rfl
    simp [henvs, CheckInService.processRows, Program.run, SafetyStore.exec, hmark,
      Program.run_bind, hrun]

/-- A check-in once the loop has gone through the rows of some identifiers. -/
def afterRows (request : UUID → ℕ → Env) (passed : List UUID) (chk : CheckIn) : CheckIn :=
  if chk.id ∈ passed then chk.miss (request chk.id 2).now else chk

theorem afterRows_cons (id : UUID) (passed : List UUID) (chk : CheckIn) :
    afterRows request (id :: passed) chk =
      afterRows request passed (if chk.id = id then chk.miss (request id 2).now else chk) := by
  by_cases hid : chk.id = id
  · subst hid
    by_cases hmem : chk.id ∈ passed <;> simp [afterRows, hmem, CheckIn.miss]
  · by_cases hmem : chk.id ∈ passed <;> simp [afterRows, hid, hmem]

/-- The loop marks the check-ins of its rows and no others: by induction on the rows. -/
theorem run_processRows (svc : CheckInService) (hgood : ∀ id i, (request id i).failure = none)
    (rows : List MissedCheckIn) (w : SafetyStore) :
    ∃ w', (svc.processRows rows).run SafetyStore.exec w (rows.flatMap (rowEnvs svc request)) =
        some ((), w', []) ∧
      w'.checkIns.rows = w.checkIns.rows.map (afterRows request (rows.map MissedCheckIn.id)) := by
  induction rows generalizing w with
  | nil =>
    have hnone : afterRows request [] = id := by
      funext chk
      simp [afterRows]
    exact ⟨w, rfl, by rw [List.map_nil, hnone, List.map_id]⟩
  | cons row rest ih =>
    obtain ⟨w₁, hrun, hmarked⟩ := run_processRows_cons svc hgood row rest w
      (rest.flatMap (rowEnvs svc request))
    obtain ⟨w', hrest, hrows⟩ := ih w₁
    refine ⟨w', by rw [List.flatMap_cons, hrun, hrest], ?_⟩
    rw [hrows, hmarked, SafetyStore.updateMissed, Table.update, Table.updateWhere, List.map_map]
    refine List.map_congr_left fun chk _ => ?_
    simp only [Function.comp_apply, decide_eq_true_eq, List.map_cons, afterRows_cons]

/-- A check-in after a pass. -/
def afterPass (select : Env) (request : UUID → ℕ → Env) (chk : CheckIn) : CheckIn :=
  if chk.Overdue select.now then chk.miss (request chk.id 2).now else chk

theorem afterPass_id (select : Env) (request : UUID → ℕ → Env) (chk : CheckIn) :
    (afterPass select request chk).id = chk.id := by
  unfold afterPass
  split <;> rfl

theorem afterPass_userID (select : Env) (request : UUID → ℕ → Env) (chk : CheckIn) :
    (afterPass select request chk).userID = chk.userID := by
  unfold afterPass
  split <;> rfl

/-- A pass treats every check-in by itself, whatever others the table has. -/
theorem step_pass (svc : CheckInService) {select : Env} (hselect : select.failure = none)
    (hgood : ∀ id i, (request id i).failure = none) (w : SafetyStore) :
    ∃ w', step svc w (.pass select request) = some ([], w') ∧
      w'.checkIns.rows = w.checkIns.rows.map (afterPass select request) := by
  obtain ⟨w', hrun, hrows⟩ := run_processRows svc hgood (w.selectMissed select) w
  refine ⟨w', ?_, ?_⟩
  · simp only [step, CheckInService.processMissedCheckIns, Program.call_bind, Program.pure_eq,
      Program.run, SafetyStore.exec, Env.attempt_good hselect, hrun]
  · rw [hrows]
    refine List.map_congr_left fun chk hchk => ?_
    have hmem : chk.id ∈ (w.selectMissed select).map MissedCheckIn.id ↔
        chk.Overdue select.now := by
      simp only [List.mem_map, SafetyStore.mem_selectMissed]
      constructor
      · rintro ⟨_, ⟨chk', hchk', hover, rfl⟩, hid⟩
        exact w.checkIns.eq_of_key_eq hchk' hchk hid ▸ hover
      · exact fun hover => ⟨chk.toMissed, ⟨chk, hchk, hover, rfl⟩, rfl⟩
    simp only [afterRows, afterPass, hmem]

end Pass

section Steps

variable {svc : CheckInService} {s r s' r' : SafetyStore} {u v : UUID} {x : Step} {xs : List Step}
  {f : CheckIn → CheckIn} {added : List CheckIn}

theorem step_call {op : Operation} {α : Type} {reply : α → Reply} {p : Safety α}
    (hop : op.program = reply <$> p) {envs : List Env} {out : List (UUID × Reply)} :
    step svc s (.call op envs) = some (out, s') ↔
      ∃ a, p.run SafetyStore.exec s envs = some (a, s', []) ∧ [(op.caller, reply a)] = out := by
  have hmap : (∃ a, p.run SafetyStore.exec s envs = some (a, s', []) ∧
      [(op.caller, reply a)] = out) ↔ ∃ b, op.program.run SafetyStore.exec s envs =
        some (b, s', []) ∧ [(op.caller, b)] = out := by
    simp only [hop, Program.run_map]
    constructor
    · rintro ⟨a, hrun, rfl⟩
      exact ⟨_, ⟨a, hrun, rfl⟩, rfl⟩
    · rintro ⟨_, ⟨a, hrun, rfl⟩, rfl⟩
      exact ⟨a, hrun, rfl⟩
  rw [hmap, step]
  split <;> rename_i hrun
  · simp only [hrun, Option.some.injEq, Prod.mk.injEq]
    constructor
    · rintro ⟨rfl, rfl⟩
      exact ⟨_, ⟨rfl, rfl, trivial⟩, rfl⟩
    · rintro ⟨_, ⟨rfl, rfl, -⟩, rfl⟩
      exact ⟨rfl, rfl⟩
  · simp only [reduceCtorEq, false_iff, not_exists, not_and]
    intro b hsome _
    exact hrun _ _ hsome

/-- Nobody else is told anything. -/
theorem step_call_unobserved {op : Operation} {envs : List Env} {out : List (UUID × Reply)}
    (hother : op.caller ≠ u) (hstep : step svc s (.call op envs) = some (out, s')) :
    out.filter (observed u) = [] := by
  have hunobserved : ∀ reply, observed u (op.caller, reply) = false := by
    intro reply
    cases reply <;> simp [observed, hother]
  simp only [step] at hstep
  split at hstep
  · simp only [Option.some.injEq, Prod.mk.injEq] at hstep
    obtain ⟨rfl, -⟩ := hstep
    simp [hunobserved]
  · cases hstep

/-- A step that adds the check-ins it has drawn an identifier for leaves the others fresh. -/
theorem Alike.fresh_after (h : Alike u (x :: xs) s r) (hs : Changes f added s s')
    (hdrawn : (added.map CheckIn.id).Sublist x.drawn) :
    (ids s' ++ xs.flatMap Step.drawn).Nodup := by
  have hfresh := h.fresh
  rw [List.flatMap_cons] at hfresh
  rw [hs.ids, List.append_assoc]
  exact hfresh.sublist ((hdrawn.append (List.Sublist.refl _)).append_left _)

/-- The same change in both runs. -/
theorem Alike.common (h : Alike u (x :: xs) s r) (hs : Changes f added s s')
    (hr : Changes f added r r') (hdrawn : (added.map CheckIn.id).Sublist x.drawn) :
    Alike u xs s' r' where
  owned := by rw [hs.ownedBy, hr.ownedBy, h.owned]
  subset := by
    intro id hid
    rw [hr.ids, List.mem_append] at hid
    rw [hs.ids, List.mem_append]
    exact hid.imp_left fun hmem => h.subset hmem
  fresh := h.fresh_after hs hdrawn
  succeeds y hy := h.succeeds y (List.mem_cons_of_mem _ hy)

/-- A change of what others own, in one run only. -/
theorem Alike.removed (h : Alike u (x :: xs) s r) (hs : Changes f added s s')
    (hdrawn : (added.map CheckIn.id).Sublist x.drawn) (hkeep : ∀ chk ∈ ownedBy u s, f chk = chk)
    (hadded : ∀ chk ∈ added, chk.userID ≠ u) : Alike u xs s' r where
  owned := by
    have hnone : added.filter (fun chk => chk.userID = u) = [] := by
      simpa [List.filter_eq_nil_iff] using hadded
    rw [hs.ownedBy, hnone, List.append_nil, ← h.owned]
    exact (List.map_congr_left hkeep).trans (List.map_id _)
  subset := by
    rw [hs.ids]
    exact fun id hid => List.mem_append_left _ (h.subset hid)
  fresh := h.fresh_after hs hdrawn
  succeeds y hy := h.succeeds y (List.mem_cons_of_mem _ hy)

/-- In both runs the step changes the check-ins of `v` in the same way, and no others. -/
structure Confined (v : UUID) (x : Step) (f : CheckIn → CheckIn) (added : List CheckIn)
    (s s' r r' : SafetyStore) : Prop where
  left : Changes f added s s'
  right : Changes f added r r'
  drawn : (added.map CheckIn.id).Sublist x.drawn
  others : ∀ chk ∈ s.checkIns.rows, chk.userID ≠ v → f chk = chk
  mine : ∀ chk ∈ added, chk.userID = v

theorem Confined.refl (v : UUID) (x : Step) (s r : SafetyStore) :
    Confined v x (fun chk => chk) [] s s r r :=
  ⟨.refl s, .refl r, List.nil_sublist _, fun _ _ _ => rfl, by simp⟩

/-- A step of `v` in two runs in which `v` owns the same. -/
def Follows (svc : CheckInService) (v : UUID) (x : Step) (out : List (UUID × Reply))
    (s s' r : SafetyStore) : Prop :=
  ∃ out' r' f added, step svc r x = some (out', r') ∧
    out'.filter (observed v) = out.filter (observed v) ∧ Confined v x f added s s' r r'

variable {envs : List Env} {out : List (UUID × Reply)}

theorem follows_scheduleCheckIn {input : NewCheckIn} (hgood : ∀ env ∈ envs, env.failure = none)
    (hs : ∀ id ∈ (Step.call (.scheduleCheckIn v input) envs).drawn, id ∉ ids s)
    (hr : ∀ id ∈ (Step.call (.scheduleCheckIn v input) envs).drawn, id ∉ ids r)
    (hstep : step svc s (.call (.scheduleCheckIn v input) envs) = some (out, s')) :
    Follows svc v (.call (.scheduleCheckIn v input) envs) out s s' r := by
  obtain ⟨a, hrun, rfl⟩ := (step_call rfl).mp hstep
  cases envs with
  | nil => simp [CheckInService.scheduleCheckIn, Program.run] at hrun
  | cons now envs =>
    by_cases hpast : input.scheduledAt < now.now
    · rw [run_scheduleCheckIn_past hpast] at hrun
      simp only [Option.some.injEq, Prod.mk.injEq] at hrun
      obtain ⟨rfl, rfl, rfl⟩ := hrun
      exact ⟨_, r, _, _, (step_call rfl).mpr ⟨_, run_scheduleCheckIn_past hpast r [], rfl⟩, rfl,
        .refl ..⟩
    · obtain ⟨id, createdAt, updatedAt, insert, rfl, hworld, hreply⟩ :=
        (run_scheduleCheckIn_future hpast).mp hrun
      let chk := newCheckIn v input id createdAt updatedAt
      have henv : insert.failure = none := hgood insert (by simp)
      obtain ⟨t, ht, hexec⟩ :=
        exec_insertCheckIn_fresh henv (show chk.id ∉ ids s from hs id.uuid List.mem_cons_self)
      obtain ⟨t', ht', hexec'⟩ :=
        exec_insertCheckIn_fresh henv (show chk.id ∉ ids r from hr id.uuid List.mem_cons_self)
      rw [hexec] at hworld hreply
      obtain rfl := hworld
      obtain rfl := hreply
      refine ⟨_, { r with checkIns := t' }, fun chk => chk, [chk],
        (step_call rfl).mpr ⟨.ok chk, ?_, rfl⟩, rfl, ?_⟩
      · refine (run_scheduleCheckIn_future hpast).mpr ⟨id, createdAt, updatedAt, insert, rfl, ?_⟩
        rw [hexec']
        exact ⟨rfl, rfl⟩
      · exact ⟨⟨by simpa using ht, fun _ => rfl, fun _ => rfl⟩,
          ⟨by simpa using ht', fun _ => rfl, fun _ => rfl⟩, List.Sublist.refl _,
          fun _ _ _ => rfl, by simp [chk, newCheckIn]⟩

/-- The UPDATE completes the check-in that the user owns, wherever it stands. -/
theorem changes_updateCompleted (w : SafetyStore) (now : Time) (id : UUID) :
    Changes (fun chk => if chk.id = id then chk.complete now now else chk) [] w
      (w.updateCompleted now now id) where
  rows := by simp [SafetyStore.updateCompleted, Table.update, Table.updateWhere]
  id chk := by split <;> rfl
  userID chk := by split <;> rfl

theorem follows_completeCheckIn {id : UUID} (hgood : ∀ env ∈ envs, env.failure = none)
    (howned : ownedBy v s = ownedBy v r)
    (hstep : step svc s (.call (.completeCheckIn id v) envs) = some (out, s')) :
    Follows svc v (.call (.completeCheckIn id v) envs) out s s' r := by
  obtain ⟨a, hrun, rfl⟩ := (step_call rfl).mp hstep
  cases envs with
  | nil => simp [CheckInService.completeCheckIn, Program.run] at hrun
  | cons select envs =>
    by_cases hpending : ∃ chk, (ownedBy v s).find? (fun chk => chk.id = id) = some chk ∧
        chk.status = .pending
    · obtain ⟨chk, hchk, hst⟩ := hpending
      obtain ⟨now, update, rfl, rfl, rfl⟩ :=
        (run_completeCheckIn_pending hgood hchk hst).mp hrun
      refine ⟨_, r.updateCompleted now.now now.now id, _, [],
        (step_call rfl).mpr ⟨.ok (chk.complete now.now now.now), ?_, rfl⟩, rfl,
        changes_updateCompleted s now.now id, changes_updateCompleted r now.now id,
        List.nil_sublist _, fun other hother huser => ?_, by simp⟩
      · rw [howned] at hchk
        exact (run_completeCheckIn_pending hgood hchk hst).mpr ⟨now, update, rfl, rfl, rfl⟩
      · -- the row with this identifier is the one that `v` owns
        have hne : other.id ≠ id := by
          rintro rfl
          rw [← find?_filter_owner, Table.find?_of_mem hother] at hchk
          obtain ⟨hsame, hv⟩ := Option.filter_eq_some_iff.mp hchk
          exact huser (Option.some.inj hsame ▸ of_decide_eq_true hv)
        exact if_neg hne
    · have hrefused : ∀ chk, (ownedBy v s).find? (fun chk => chk.id = id) = some chk →
          chk.status ≠ .pending := fun chk hchk hst => hpending ⟨chk, hchk, hst⟩
      have henv := hgood select List.mem_cons_self
      obtain ⟨e, hs⟩ := run_completeCheckIn_refused henv hrefused
      rw [howned] at hrefused
      obtain ⟨e', hr⟩ := run_completeCheckIn_refused henv hrefused
      rw [hs] at hrun
      simp only [Option.some.injEq, Prod.mk.injEq] at hrun
      obtain ⟨rfl, rfl, rfl⟩ := hrun
      exact ⟨_, r, _, _, (step_call rfl).mpr ⟨.error e', hr [], rfl⟩, rfl, .refl ..⟩

/-- Getting and listing answer the same and change nothing. -/
theorem follows_readsOf {op : Operation} {α : Type} {reply : α → Reply} {p : Safety α}
    (hop : op.program = reply <$> p) (hreads : p.Issues (ReadsOf v))
    (howned : ownedBy v s = ownedBy v r)
    (hstep : step svc s (.call op envs) = some (out, s')) :
    Follows svc v (.call op envs) out s s' r := by
  obtain ⟨a, hrun, rfl⟩ := (step_call hop).mp hstep
  obtain ⟨rfl, hr⟩ := run_readsOf hreads howned hrun
  exact ⟨_, r, _, _, (step_call hop).mpr ⟨a, hr, rfl⟩, rfl, .refl ..⟩

/-- The operation of a user does the same in two runs in which the user owns the same. -/
theorem follows_call {op : Operation} (hgood : ∀ env ∈ envs, env.failure = none)
    (howned : ownedBy op.caller s = ownedBy op.caller r)
    (hs : ∀ id ∈ (Step.call op envs).drawn, id ∉ ids s)
    (hr : ∀ id ∈ (Step.call op envs).drawn, id ∉ ids r)
    (hstep : step svc s (.call op envs) = some (out, s')) :
    Follows svc op.caller (.call op envs) out s s' r := by
  cases op with
  | scheduleCheckIn userID input => exact follows_scheduleCheckIn hgood hs hr hstep
  | completeCheckIn checkInID userID => exact follows_completeCheckIn hgood howned hstep
  | getCheckIn checkInID userID =>
    exact follows_readsOf rfl (issues_getCheckIn checkInID) howned hstep
  | listCheckIns userID status =>
    exact follows_readsOf rfl (issues_listCheckIns status) howned hstep

theorem changes_pass {svc : CheckInService} {select : Env} {request : UUID → ℕ → Env}
    (hselect : select.failure = none) (hgood : ∀ id i, (request id i).failure = none)
    (w : SafetyStore) : ∃ w', step svc w (.pass select request) = some ([], w') ∧
      Changes (afterPass select request) [] w w' := by
  obtain ⟨w', hstep, hrows⟩ := step_pass svc hselect hgood w
  exact ⟨w', hstep, by rw [hrows, List.append_nil], afterPass_id select request,
    afterPass_userID select request⟩

/-- The identifier of a step is taken in neither run. -/
theorem Alike.not_mem (h : Alike u (x :: xs) s r) : ∀ id ∈ x.drawn, id ∉ ids s ∧ id ∉ ids r := by
  intro id hid
  have hs : id ∉ ids s := by
    intro hmem
    refine (List.nodup_append.mp h.fresh).2.2 id hmem id ?_ rfl
    rw [List.flatMap_cons]
    exact List.mem_append_left _ hid
  exact ⟨hs, fun hmem => hs (h.subset hmem)⟩

theorem unwinding (svc : CheckInService) (u : UUID) :
    Unwinding (step svc) (kept u) (observed u) (Alike u) where
  common {x xs s r out s'} hkept h hstep := by
    have hsucceeds := h.succeeds x List.mem_cons_self
    cases x with
    | call op envs =>
      obtain rfl : op.caller = u := by simpa [kept] using hkept
      obtain ⟨out', r', f, added, hr, hout, hc⟩ := follows_call hsucceeds h.owned
        (fun id hid => (h.not_mem id hid).1) (fun id hid => (h.not_mem id hid).2) hstep
      exact ⟨out', r', hr, hout, h.common hc.left hc.right hc.drawn⟩
    | pass select request =>
      obtain ⟨w, hs, hchanges⟩ := changes_pass hsucceeds.1 hsucceeds.2 s
      obtain ⟨r', hr, hchanges'⟩ := changes_pass hsucceeds.1 hsucceeds.2 r
      rw [hs, Option.some.injEq, Prod.mk.injEq] at hstep
      obtain ⟨rfl, rfl⟩ := hstep
      exact ⟨[], r', hr, rfl, h.common hchanges hchanges' (List.nil_sublist _)⟩
  removed {x xs s r out s'} hkept h hstep := by
    have hsucceeds := h.succeeds x List.mem_cons_self
    cases x with
    | call op envs =>
      have hother : op.caller ≠ u := by simpa [kept] using hkept
      have hfresh := fun id hid => (h.not_mem id hid).1
      obtain ⟨out', r', f, added, -, -, hc⟩ := follows_call hsucceeds rfl hfresh hfresh hstep
      refine ⟨step_call_unobserved hother hstep, h.removed hc.left hc.drawn (fun chk hchk => ?_)
        fun chk hchk => hc.mine chk hchk ▸ hother⟩
      obtain ⟨hmem, huser⟩ := List.mem_filter.mp hchk
      refine hc.others chk hmem ?_
      rw [of_decide_eq_true huser]
      exact hother.symm
    | pass select request => simp [kept] at hkept

end Steps

/-- Whatever others schedule, complete and look up, a user has the same check-ins at the end
and is told the same when scheduling, getting and listing. -/
theorem unaffected_by_others (svc : CheckInService) (u : UUID) (steps : List Step)
    (w s : SafetyStore) (outs : List (UUID × Reply))
    (hsucceeds : ∀ x ∈ steps, x.Succeeds) (hfresh : (ids w ++ steps.flatMap Step.drawn).Nodup)
    (hrun : runSteps (step svc) w steps = some (outs, s)) :
    ∃ outs' r, runSteps (step svc) w (steps.filter (kept u)) = some (outs', r) ∧
      ownedBy u r = ownedBy u s ∧ outs'.filter (observed u) = outs.filter (observed u) := by
  have hstart : Alike u steps w w := ⟨rfl, List.Subset.refl _, hfresh, hsucceeds⟩
  obtain ⟨outs', r, hrest, hout, hend⟩ := (unwinding svc u).run hstart hrun
  exact ⟨outs', r, hrest, hend.owned.symm, hout⟩

/-- User 7 has one check-in, for time 100. -/
def oneCheckIn : SafetyStore := ⟨⟨[⟨1, 7, 100, none, .pending, "", 0, 0⟩], by decide⟩, .empty⟩

/-- User 8 schedules a check-in and tries to complete that of user 7; a pass finds the first
overdue; user 7 lists. -/
def twoUsers : List Step := [
  .call (.scheduleCheckIn 8 ⟨50, ""⟩) (List.replicate 5 (.good 10 2)),
  .call (.completeCheckIn 1 8) [.good 20 0],
  .pass (.good 60 0) (fun _ _ => .good 60 3),
  .call (.listCheckIns 7 "") (List.replicate 3 (.good 70 0))]

def twoUsersRun : List (UUID × Reply) × SafetyStore :=
  (runSteps (step ⟨true⟩) oneCheckIn twoUsers).getD ([], oneCheckIn)

theorem twoUsers_unaffected :
    ∃ outs' r, runSteps (step ⟨true⟩) oneCheckIn (twoUsers.filter (kept 7)) = some (outs', r) ∧
      ownedBy 7 r = ownedBy 7 twoUsersRun.2 ∧
      outs'.filter (observed 7) = twoUsersRun.1.filter (observed 7) :=
  unaffected_by_others ⟨true⟩ 7 twoUsers oneCheckIn twoUsersRun.2 twoUsersRun.1
    (by simp [twoUsers, Step.Succeeds, Env.good]) (by decide) rfl

end SafetyDao.CheckInPrivacy
