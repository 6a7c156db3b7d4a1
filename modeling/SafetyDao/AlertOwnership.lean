import SafetyDao.EmergencyService

/-!
# Whose alert it is

The service is told who is calling and knows whose an alert is, but only the listing
compares the two. Whoever names an alert resolves it and is shown it, with its location;
the other operations keep to the alerts of their caller.
-/
namespace SafetyDao.AlertOwnership

/-- The operations behind the routes, with the user who calls. -/
inductive Operation where
  | triggerAlert (userID : UUID) (alertType : String) (lat lng : Option ℚ)
  | resolveAlert (alertID resolverID : UUID)
  | listAlerts (userID : UUID) (status : String)
deriving DecidableEq

def Operation.caller : Operation → UUID
  | .triggerAlert userID .. => userID
  | .resolveAlert _ resolverID => resolverID
  | .listAlerts userID _ => userID

/-- The alerts that the caller is given. -/
def Operation.program : Operation → Safety (List EmergencyAlert)
  | .triggerAlert userID alertType lat lng =>
    (fun r => r.toOption.toList) <$> EmergencyService.triggerAlert userID alertType lat lng
  | .resolveAlert alertID resolverID =>
    (fun r => r.toOption.toList) <$> EmergencyService.resolveAlert alertID resolverID
  | .listAlerts userID status =>
    (fun r => r.toOption.getD []) <$> EmergencyService.listAlerts userID status

/-- The alert is as before, and the caller has not been given it. -/
def Spared (a : EmergencyAlert) (returned : List EmergencyAlert) (w : SafetyStore) : Prop :=
  w.alerts.find? a.id = some a ∧ ∀ b ∈ returned, b.id ≠ a.id

variable {w : SafetyStore} {a : EmergencyAlert}

theorem spared_nil (h : w.alerts.find? a.id = some a) : Spared a [] w := ⟨h, by simp⟩

section Operations

/-- A new alert is not the alert. -/
theorem ensures_triggerAlert (h : w.alerts.find? a.id = some a) (userID : UUID)
    (alertType : String) (lat lng : Option ℚ) : Program.Ensures SafetyStore.exec (Spared a)
      (Operation.triggerAlert userID alertType lat lng).program w := by
  simp only [Operation.program, EmergencyService.triggerAlert, Program.map_eq_bind,
    Program.call_bind, Program.request_bind, Program.pure_eq]
  refine Safety.ensures_newUUID fun id => Safety.ensures_timeNow fun createdAt => ?_
  refine Safety.ensures_timeNow fun updatedAt env => ?_
  rcases SafetyStore.exec_insertAlert w _ env with ⟨e, he⟩ | ⟨t, ht, he⟩
  · rw [he]
    exact spared_nil h
  · have hne : id ≠ a.id := by
      rintro rfl
      have hfresh := (Table.insert_eq_some.mp ht).1
      exact absurd (hfresh.symm.trans h) (by simp)
    rw [he]
    refine ⟨(Table.find?_insert ht a.id).trans ((if_neg hne).trans h), fun b hb => ?_⟩
    · rw [List.mem_singleton.mp hb]
      exact hne

/-- Another alert is resolved and shown. -/
theorem ensures_resolveAlert (h : w.alerts.find? a.id = some a) {alertID : UUID}
    (hne : alertID ≠ a.id) (resolverID : UUID) : Program.Ensures SafetyStore.exec (Spared a)
      (Operation.resolveAlert alertID resolverID).program w := by
  simp only [Operation.program, EmergencyService.resolveAlert, Program.map_eq_bind,
    Program.call_bind, Program.request_bind, Program.pure_eq]
  refine Safety.ensures_timeNow fun now env => ?_
  rcases SafetyStore.exec_updateResolved w resolverID now now alertID env with ⟨e, he⟩ | he
  · rw [he]
    exact spared_nil h
  · rw [he]
    have hf : (w.updateResolved resolverID now now alertID).alerts.find? a.id = some a := by
      rw [SafetyStore.find?_updateResolved, h, Option.map_some, if_neg fun hi => hne hi.1.symm]
    intro env'
    rw [SafetyStore.exec_readOnly rfl]
    cases hr : ((w.updateResolved resolverID now now alertID).exec (.selectAlert alertID)
      env').2 with
    | error e => exact spared_nil hf
    | ok b =>
      refine ⟨hf, fun b' hb' => ?_⟩
      rw [List.mem_singleton.mp hb', Table.key_of_find? (SafetyStore.exec_selectAlert hr)]
      exact hne

/-- The listing has the alerts of the caller. -/
theorem ensures_listAlerts (h : w.alerts.find? a.id = some a) {userID : UUID}
    (hne : userID ≠ a.userID) (status : String) : Program.Ensures SafetyStore.exec (Spared a)
      (Operation.listAlerts userID status).program w := by
  simp only [Operation.program, EmergencyService.listAlerts, Program.map_eq_bind,
    Program.call_bind, Program.request_bind, Program.pure_eq]
  intro env
  rw [SafetyStore.exec_readOnly rfl]
  cases hr : (w.exec (.selectAlertsOfUser userID status) env).2 with
  | error e => exact spared_nil h
  | ok rows =>
    refine (Safety.ensures_scanRows _ [] rows w).bind fun r w' hscanned => ?_
    obtain ⟨rfl, hrows⟩ := hscanned
    cases r with
    | error e => exact spared_nil h
    | ok scanned =>
      refine ⟨h, fun b hb heq => ?_⟩
      obtain rfl := hrows scanned rfl
      rw [SafetyStore.exec_selectAlertsOfUser hr] at hb
      obtain ⟨hmem, huser, -⟩ := SafetyStore.mem_alertsOfUser.mp hb
      have hsame : b = a := w'.alerts.eq_of_key_eq hmem (Table.mem_of_find? h) heq
      exact hne (huser ▸ hsame ▸ rfl)

end Operations

/-- Whoever resolves the alert is shown it. -/
theorem resolveAlert_shows (h : w.alerts.find? a.id = some a) (resolverID : UUID) :
    ∃ b w', (Operation.resolveAlert a.id resolverID).program.Completes SafetyStore.exec w [b] w' ∧
      b.id = a.id := by
  have hf : ∃ b, (w.updateResolved resolverID 0 0 a.id).alerts.find? a.id = some b := by
    rw [SafetyStore.find?_updateResolved, h]
    exact ⟨_, rfl⟩
  obtain ⟨b, hb⟩ := hf
  refine ⟨b, w.updateResolved resolverID 0 0 a.id, ⟨List.replicate 3 (.good 0 0), ?_⟩,
    Table.key_of_find? hb⟩
  simp only [Operation.program, EmergencyService.resolveAlert, Program.map_eq_bind,
    Program.call_bind, Program.request_bind, Program.pure_eq, List.replicate, Program.run,
    SafetyStore.exec, Env.attempt, Env.good, hb, queryRow]
  rfl

/-- What is asked for the alert when another user calls. -/
def SparedBy (w : SafetyStore) (a : EmergencyAlert) (op : Operation) : Prop :=
  ∀ returned w', op.program.Completes SafetyStore.exec w returned w' → Spared a returned w'

/-- An operation of someone else leaves an alert alone and does not show it exactly if it is
not the one that resolves it. -/
theorem sparedBy_iff (w : SafetyStore) (a : EmergencyAlert) (op : Operation)
    (ha : a ∈ w.alerts.rows) (hother : op.caller ≠ a.userID) :
    SparedBy w a op ↔ op ≠ .resolveAlert a.id op.caller := by
  have hf := Table.find?_of_mem ha
  constructor
  · rintro hspared hop
    obtain ⟨b, w', hrun, hb⟩ := resolveAlert_shows hf op.caller
    exact (hspared [b] w' (hop ▸ hrun)).2 b List.mem_cons_self hb
  · intro hop returned w' hrun
    cases op with
    | triggerAlert userID alertType lat lng =>
      exact (ensures_triggerAlert hf userID alertType lat lng).completes hrun
    | resolveAlert alertID resolverID =>
      refine (ensures_resolveAlert hf ?_ resolverID).completes hrun
      rintro rfl
      exact hop rfl
    | listAlerts userID status => exact (ensures_listAlerts hf hother status).completes hrun

/-- User 7 has an active alert with a location. -/
def located : EmergencyAlert := ⟨1, 7, "general", some 1, some 2, .active, none, none, 0, 0⟩

def oneAlert : SafetyStore := ⟨.empty, ⟨[located], by decide⟩⟩

theorem located_spared : SparedBy oneAlert located (.listAlerts 8 "") :=
  (sparedBy_iff oneAlert located (.listAlerts 8 "") (by decide) (by decide)).mpr (by decide)

/-- User 8 resolves the alert and is given it back. -/
theorem alert_shown_to_other : ¬ ∀ (w : SafetyStore) (a : EmergencyAlert) (op : Operation),
    a ∈ w.alerts.rows → op.caller ≠ a.userID → SparedBy w a op := by
  intro h
  have hspared := h oneAlert located (.resolveAlert 1 8) (by decide) (by decide)
  obtain ⟨b, w', hrun, hb⟩ := resolveAlert_shows (show oneAlert.alerts.find? located.id =
    some located by decide) 8
  exact (hspared [b] w' hrun).2 b List.mem_cons_self hb

end SafetyDao.AlertOwnership
