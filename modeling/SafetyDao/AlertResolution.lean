import SafetyDao.EmergencyService

/-!
# Who resolves an alert

Any number of `triggerAlert` and `resolveAlert` calls run interleaved. An alert's
resolution is, abstractly, what the first committed UPDATE says that names it once it
exists; this is read off the committed statements alone. The guard of the UPDATE makes
the table agree with it, and whoever reads the alert back after an UPDATE of his own
finds that resolution, be it his or not.
-/
namespace SafetyDao.AlertResolution
open Safety (Shared History perform perform_eq perform_readOnly_world)

inductive Call where
  | trigger (userID : UUID) (alertType : String) (lat lng : Option ℚ)
  | resolve (alertID resolverID : UUID)

inductive Reply where
  | trigger (r : Except String EmergencyAlert)
  | resolve (r : Except String EmergencyAlert)

def Call.program : Call → Safety Reply
  | .trigger userID alertType lat lng =>
    Reply.trigger <$> EmergencyService.triggerAlert userID alertType lat lng
  | .resolve alertID resolverID =>
    Reply.resolve <$> EmergencyService.resolveAlert alertID resolverID

/-- What every row is to satisfy: resolved rows, and only they, name who resolved them and
when, and a location has both coordinates. No statement marks a false alarm. -/
structure AlertLaw (a : EmergencyAlert) : Prop where
  resolvedBy : a.status = .resolved ↔ a.resolvedBy.isSome
  resolvedAt : a.resolvedBy.isSome ↔ a.resolvedAt.isSome
  location : a.locationLat.isSome ↔ a.locationLng.isSome
  status : a.status ≠ .falseAlarm

def Lawful (w : SafetyStore) : Prop := ∀ a ∈ w.alerts.rows, AlertLaw a

/-- Who resolved an alert, and when. -/
def resolutionOf (a : EmergencyAlert) : Option (UUID × Time) :=
  a.resolvedBy.bind fun resolverID => a.resolvedAt.map fun resolvedAt => (resolverID, resolvedAt)

/-- What becomes of an alert: nothing, or an active one is resolved. -/
def Later (a a' : EmergencyAlert) : Prop :=
  a' = a ∨ a.status = .active ∧ ∃ resolverID resolvedAt updatedAt,
    a' = a.resolve resolverID resolvedAt updatedAt

theorem Later.trans {a b c : EmergencyAlert} (h₁ : Later a b) (h₂ : Later b c) : Later a c := by
  rcases h₁ with rfl | ⟨hactive, r, at', u, rfl⟩
  · exact h₂
  · rcases h₂ with rfl | ⟨hagain, -⟩
    · exact .inr ⟨hactive, r, at', u, rfl⟩
    · cases hagain

/-- A resolved alert stays exactly as it is. -/
theorem Later.of_resolved {a a' : EmergencyAlert} (h : Later a a') (ha : a.status = .resolved) :
    a' = a := by
  rcases h with rfl | ⟨hactive, -⟩
  · rfl
  · rw [ha] at hactive
    cases hactive

theorem AlertLaw.resolutionOf_active {a : EmergencyAlert} (h : AlertLaw a)
    (ha : a.status = .active) : resolutionOf a = none := by
  have hby : a.resolvedBy = none := by
    rw [← Option.not_isSome_iff_eq_none, ← h.resolvedBy, ha]
    exact nofun
  rw [resolutionOf, hby]
  rfl

theorem AlertLaw.resolutionOf_resolved {a : EmergencyAlert} (h : AlertLaw a)
    (ha : a.status ≠ .active) : a.status = .resolved ∧ (resolutionOf a).isSome := by
  have hst : a.status = .resolved := by
    cases hs : a.status with
    | active => exact absurd hs ha
    | resolved => rfl
    | falseAlarm => exact absurd hs h.status
  refine ⟨hst, ?_⟩
  obtain ⟨r, hr⟩ := Option.isSome_iff_exists.mp (h.resolvedBy.mp hst)
  obtain ⟨at', hat⟩ := Option.isSome_iff_exists.mp (h.resolvedAt.mp (by simp [hr]))
  simp [resolutionOf, hr, hat]

theorem AlertLaw.resolve {a : EmergencyAlert} (h : AlertLaw a) (r : UUID) (at' u : Time) :
    AlertLaw (a.resolve r at' u) where
  resolvedBy := by simp [EmergencyAlert.resolve]
  resolvedAt := by simp [EmergencyAlert.resolve]
  location := h.location
  status := by simp [EmergencyAlert.resolve]

theorem newAlert_law (id userID : UUID) (alertType : String) (lat lng : Option ℚ)
    (createdAt updatedAt : Time) :
    AlertLaw (EmergencyService.newAlert id userID alertType lat lng createdAt updatedAt) where
  resolvedBy := by simp [EmergencyService.newAlert]
  resolvedAt := by simp [EmergencyService.newAlert]
  location := by
    simp only [EmergencyService.newAlert]
    split
    · rename_i hboth
      exact iff_of_true hboth.1 hboth.2
    · rfl
  status := by simp [EmergencyService.newAlert]

variable {ι : Type}

/-- Whether a request has created alert `i`. -/
def created (i : UUID) : Event SafetyOp.Res ι → Bool
  | ⟨_, .insertAlert alert, .ok _⟩ => alert.id = i
  | _ => false

/-- What a committed UPDATE says about alert `i`. -/
def resolves (i : UUID) : Event SafetyOp.Res ι → Option (UUID × Time)
  | ⟨_, .updateResolved resolverID resolvedAt _ id, .ok _⟩ =>
    if id = i then some (resolverID, resolvedAt) else none
  | _ => none

def existed (w : SafetyStore) (i : UUID) (h : History ι) : Bool :=
  (w.alerts.find? i).isSome || h.any (created i)

/-- The resolution of alert `i`: the one it had at the start, or what the first committed
UPDATE says after the alert was created. -/
def resolution (w : SafetyStore) (i : UUID) : History ι → Option (UUID × Time)
  | [] => (w.alerts.find? i).bind resolutionOf
  | e :: h => (resolution w i h).or (if existed w i h then resolves i e else none)

/-- The table and the committed statements agree. -/
structure Inv (w : SafetyStore) (s : Shared ι) : Prop where
  law : Lawful s.world
  existed : ∀ i, (s.world.alerts.find? i).isSome = existed w i s.history
  resolution : ∀ i, (s.world.alerts.find? i).bind resolutionOf = resolution w i s.history

theorem inv_start {w : SafetyStore} (hw : Lawful w) : Inv w (⟨w, []⟩ : Shared ι) where
  law := hw
  existed i := by simp [AlertResolution.existed]
  resolution _ := rfl

/-- How the shared state moves. -/
structure Moves (w : SafetyStore) (s s' : Shared ι) : Prop where
  history : ∃ es, s'.history = es ++ s.history
  later : ∀ i a, s.world.alerts.find? i = some a →
    ∃ a', s'.world.alerts.find? i = some a' ∧ Later a a'
  inv : Inv w s → Inv w s'

namespace Moves

variable {w : SafetyStore}

theorem refl (s : Shared ι) : Moves w s s := ⟨⟨[], rfl⟩, fun _ a h => ⟨a, h, .inl rfl⟩, id⟩

theorem trans {s₁ s₂ s₃ : Shared ι} (h₁ : Moves w s₁ s₂) (h₂ : Moves w s₂ s₃) :
    Moves w s₁ s₃ where
  history := by
    obtain ⟨es, hes⟩ := h₁.history
    obtain ⟨fs, hfs⟩ := h₂.history
    exact ⟨fs ++ es, by rw [hfs, hes, List.append_assoc]⟩
  later i a hf := by
    obtain ⟨b, hb, hab⟩ := h₁.later i a hf
    obtain ⟨c, hc, hbc⟩ := h₂.later i b hb
    exact ⟨c, hc, hab.trans hbc⟩
  inv h := h₂.inv (h₁.inv h)

end Moves

section Steps

variable {w : SafetyStore} {s s' : Shared ι} {e : Event SafetyOp.Res ι}

/-- A request that commits nothing to the alerts. -/
theorem moves_of_alerts_eq (hh : s'.history = e :: s.history)
    (hw : s'.world.alerts = s.world.alerts) (hc : ∀ i, created i e = false)
    (hr : ∀ i, resolves i e = none) : Moves w s s' where
  history := ⟨[e], hh⟩
  later i a hf := ⟨a, by rw [hw]; exact hf, .inl rfl⟩
  inv h := by
    refine ⟨?_, fun i => ?_, fun i => ?_⟩
    · unfold Lawful
      rw [hw]
      exact h.law
    · rw [hw, h.existed, hh]
      simp [existed, hc]
    · rw [hw, h.resolution, hh, resolution, hr, ite_self, Option.or_none]

theorem moves_readOnly (t : ι) (s : Shared ι) (op : SafetyOp) (env : Env)
    (h : SafetyStore.readOnly op = true) : Moves w s (perform t s op env).1 := by
  refine moves_of_alerts_eq rfl (by rw [perform_readOnly_world t s op env h]) ?_ ?_ <;> intro i <;>
    cases op <;> first | rfl | cases h

/-- A new alert has no resolution. -/
theorem moves_insertAlert (t : ι) (s : Shared ι) {alert : EmergencyAlert} (hlaw : AlertLaw alert)
    (hactive : alert.status = .active) (env : Env) :
    Moves w s (perform t s (.insertAlert alert) env).1 := by
  rcases SafetyStore.exec_insertAlert s.world alert env with ⟨e, he⟩ | ⟨tbl, ht, he⟩
  · rw [perform_eq, he]
    exact moves_of_alerts_eq rfl rfl (fun _ => rfl) (fun _ => rfl)
  · rw [perform_eq, he]
    have hfresh := (Table.insert_eq_some.mp ht).1
    refine ⟨⟨[_], rfl⟩, fun i a hf => ⟨a, ?_, .inl rfl⟩, fun h => ⟨?_, fun i => ?_, fun i => ?_⟩⟩
    · rw [Table.find?_insert ht, if_neg]
      · exact hf
      · rintro rfl
        rw [hfresh] at hf
        cases hf
    · intro a ha
      rcases (Table.mem_insert ht).mp ha with ha | rfl
      · exact h.law a ha
      · exact hlaw
    · have hex := h.existed i
      simp only [existed, List.any_cons, created] at hex ⊢
      rw [Table.find?_insert ht]
      by_cases hi : alert.id = i
      · simp [hi]
      · simp only [hi, if_false, decide_false, Bool.false_or, hex]
    · rw [resolution, ← h.resolution, Table.find?_insert ht]
      simp only [resolves, ite_self, Option.or_none]
      split
      · rename_i hi
        rw [← hi, hfresh]
        exact hlaw.resolutionOf_active hactive
      · rfl

/-- An UPDATE resolves the alert it names if nobody has resolved it before. -/
theorem moves_updateResolved (t : ι) (s : Shared ι) (resolverID : UUID)
    (resolvedAt updatedAt : Time) (id : UUID) (env : Env) :
    Moves w s (perform t s (.updateResolved resolverID resolvedAt updatedAt id) env).1 := by
  rcases SafetyStore.exec_updateResolved s.world resolverID resolvedAt updatedAt id env with
    ⟨e, he⟩ | he
  · rw [perform_eq, he]
    exact moves_of_alerts_eq rfl rfl (fun _ => rfl) (fun _ => rfl)
  · rw [perform_eq, he]
    refine ⟨⟨[_], rfl⟩, fun i a hf => ?_, fun h => ⟨fun a ha => ?_, fun i => ?_, fun i => ?_⟩⟩
    · rw [SafetyStore.find?_updateResolved, hf]
      refine ⟨_, rfl, ?_⟩
      dsimp only
      split
      · rename_i hi
        exact .inr ⟨hi.2, resolverID, resolvedAt, updatedAt, rfl⟩
      · exact .inl rfl
    · rw [SafetyStore.updateResolved, Table.mem_updateWhere] at ha
      obtain ⟨b, hb, rfl⟩ := ha
      split
      · exact (h.law b hb).resolve resolverID resolvedAt updatedAt
      · exact h.law b hb
    · rw [SafetyStore.find?_updateResolved, Option.isSome_map, h.existed]
      simp [existed, created]
    · rw [SafetyStore.find?_updateResolved, resolution, ← h.existed, ← h.resolution]
      cases hf : s.world.alerts.find? i with
      | none => rfl
      | some a =>
        have hlaw := h.law a (Table.mem_of_find? hf)
        simp only [Option.map_some, Option.bind_some, Option.isSome_some, if_true, resolves]
        by_cases hid : i = id
        · subst hid
          by_cases hactive : a.status = .active
          · rw [if_pos ⟨rfl, hactive⟩, if_pos rfl, hlaw.resolutionOf_active hactive]
            rfl
          · obtain ⟨-, hsome⟩ := hlaw.resolutionOf_resolved hactive
            obtain ⟨r, hr⟩ := Option.isSome_iff_exists.mp hsome
            rw [if_neg fun hi => hactive hi.2, hr]
            rfl
        · rw [if_neg fun hi => hid hi.1, if_neg (Ne.symm hid), Option.or_none]

/-- The requests of the two operations: alerts are inserted active and without a resolution. -/
def Admissible : SafetyOp → Prop
  | .insertAlert alert => AlertLaw alert ∧ alert.status = .active
  | .updateResolved .. => True
  | op => SafetyStore.readOnly op = true

theorem moves_of_admissible (t : ι) (s : Shared ι) (op : SafetyOp) (env : Env)
    (h : Admissible op) : Moves w s (perform t s op env).1 := by
  cases op with
  | insertAlert alert => exact moves_insertAlert t s h.1 h.2 env
  | updateResolved r at' u id => exact moves_updateResolved t s r at' u id env
  | _ => exact moves_readOnly t s _ env h

theorem issues_program (call : Call) : call.program.Issues Admissible := by
  cases call with
  | trigger userID alertType lat lng =>
    refine Program.Issues.bind ?_ fun _ => trivial
    refine ⟨rfl, fun id => ⟨rfl, fun createdAt => ⟨rfl, fun updatedAt => ⟨⟨?_, rfl⟩, fun r => ?_⟩⟩⟩⟩
    · exact newAlert_law id userID alertType lat lng createdAt updatedAt
    · cases r <;> trivial
  | resolve alertID resolverID =>
    refine Program.Issues.bind ⟨rfl, fun now => ⟨trivial, fun r => ?_⟩⟩ fun _ => trivial
    cases r with
    | error e => trivial
    | ok _ => exact ⟨rfl, fun r => by cases r <;> trivial⟩

end Steps

section Replies

/-- The alert that an UPDATE has named. -/
def named : Event SafetyOp.Res ι → Option UUID
  | ⟨_, .updateResolved _ _ _ id, _⟩ => some id
  | _ => none

/-- The identifier of a new alert is random: no UPDATE has named it before the alert is there. -/
def Unguessed (_ : ι) (s : Shared ι) (op : SafetyOp) (_ : Env) : Prop :=
  match op with
  | .insertAlert alert => ∀ e ∈ s.history, named e ≠ some alert.id
  | _ => True

instance (t : ι) (s : Shared ι) (op : SafetyOp) (env : Env) : Decidable (Unguessed t s op env) := by
  cases op <;> unfold Unguessed <;> infer_instance

/-- Alerts do not come into being under an identifier that was named before. -/
def NamedStay (s s' : Shared ι) : Prop :=
  ∀ i, (∃ e ∈ s.history, named e = some i) → s.world.alerts.find? i = none →
    s'.world.alerts.find? i = none

variable {w : SafetyStore} {t : ι} {s s' : Shared ι}

def MovesNamed (w : SafetyStore) (s s' : Shared ι) : Prop := Moves w s s' ∧ NamedStay s s'

theorem MovesNamed.refl (s : Shared ι) : MovesNamed w s s := ⟨Moves.refl s, fun _ _ h => h⟩

theorem MovesNamed.trans {s₁ s₂ s₃ : Shared ι} (h₁ : MovesNamed w s₁ s₂)
    (h₂ : MovesNamed w s₂ s₃) : MovesNamed w s₁ s₃ := by
  refine ⟨h₁.1.trans h₂.1, fun i hi hnone => h₂.2 i ?_ (h₁.2 i hi hnone)⟩
  obtain ⟨e, he, hnamed⟩ := hi
  obtain ⟨es, hes⟩ := h₁.1.history
  exact ⟨e, by rw [hes]; exact List.mem_append_right _ he, hnamed⟩

theorem movesNamed_of_admissible (t : ι) (s : Shared ι) (op : SafetyOp) (env : Env)
    (h : Admissible op) (hunguessed : Unguessed t s op env) :
    MovesNamed w s (perform t s op env).1 := by
  refine ⟨moves_of_admissible t s op env h, fun i ⟨e, he, hnamed⟩ hnone => ?_⟩
  cases op with
  | insertAlert alert =>
    rcases SafetyStore.exec_insertAlert s.world alert env with ⟨err, hexec⟩ | ⟨tbl, ht, hexec⟩
    · rw [perform_eq, hexec]
      exact hnone
    · rw [perform_eq, hexec, Table.find?_insert ht, if_neg]
      · exact hnone
      · rintro rfl
        exact hunguessed e he hnamed
  | updateResolved r at' u id =>
    rcases SafetyStore.exec_updateResolved s.world r at' u id env with ⟨err, hexec⟩ | hexec
    · rw [perform_eq, hexec]
      exact hnone
    · rw [perform_eq, hexec, SafetyStore.find?_updateResolved, hnone]
      rfl
  | _ =>
    rw [perform_readOnly_world t s _ env h]
    exact hnone

def contract {α : Type} (w : SafetyStore) (post : α → Shared ι → Prop) : Contract (Shared ι) α :=
  ⟨MovesNamed w, MovesNamed w, post⟩

/-- A reply that reports success has the alert as it stands in the table, resolved. -/
def Reported (alertID : UUID) (r : Except String EmergencyAlert) (s : Shared ι) : Prop :=
  ∀ alert, r = .ok alert → s.world.alerts.find? alertID = some alert ∧ alert.status = .resolved

theorem Reported.moves {alertID : UUID} {r : Except String EmergencyAlert}
    (h : Reported alertID r s) (hm : Moves w s s') : Reported alertID r s' := by
  intro alert hr
  obtain ⟨hf, hst⟩ := h alert hr
  obtain ⟨alert', hf', hlater⟩ := hm.later alertID alert hf
  rw [hlater.of_resolved hst] at hf'
  exact ⟨hf', hst⟩

/-- After its UPDATE a call finds the alert resolved if it finds it at all. -/
structure Updated (w : SafetyStore) (alertID : UUID) (s : Shared ι) : Prop where
  inv : Inv w s
  named : ∃ e ∈ s.history, named e = some alertID
  resolved : ∀ a, s.world.alerts.find? alertID = some a → a.status = .resolved

theorem Updated.moves {alertID : UUID} (h : Updated w alertID s) (hm : MovesNamed w s s') :
    Updated w alertID s' := by
  obtain ⟨e, he, hnamed⟩ := h.named
  obtain ⟨es, hes⟩ := hm.1.history
  refine ⟨hm.1.inv h.inv, ⟨e, by rw [hes]; exact List.mem_append_right _ he, hnamed⟩,
    fun a' hf' => ?_⟩
  cases hf : s.world.alerts.find? alertID with
  | none =>
    rw [hm.2 alertID h.named hf] at hf'
    cases hf'
  | some a =>
    obtain ⟨b, hb, hlater⟩ := hm.1.later alertID a hf
    rw [hf', Option.some.injEq] at hb
    rw [hb, hlater.of_resolved (h.resolved a hf)]
    exact h.resolved a hf

theorem updated_of_update (t : ι) {s : Shared ι} (h : Inv w s) {resolverID id : UUID}
    {resolvedAt updatedAt : Time} {env : Env}
    (hok : (perform t s (.updateResolved resolverID resolvedAt updatedAt id) env).2 = .ok ()) :
    Updated w id (perform t s (.updateResolved resolverID resolvedAt updatedAt id) env).1 := by
  have hinv := (moves_updateResolved t s resolverID resolvedAt updatedAt id env).inv h
  refine ⟨hinv, ⟨_, List.mem_cons_self, rfl⟩, ?_⟩
  rcases SafetyStore.exec_updateResolved s.world resolverID resolvedAt updatedAt id env with
    ⟨e, he⟩ | he
  · rw [perform_eq, he] at hok
    cases hok
  · rw [perform_eq, he, SafetyStore.find?_updateResolved]
    intro a ha
    obtain ⟨b, hb, rfl⟩ := Option.map_eq_some_iff.mp ha
    split
    · rfl
    · rename_i hnot
      have hlaw := h.law b (Table.mem_of_find? hb)
      exact (hlaw.resolutionOf_resolved fun hactive => hnot ⟨rfl, hactive⟩).1

theorem holds_resolveAlert (alertID resolverID : UUID) {s : Shared ι} (hs : Inv w s) :
    Contract.Holds perform Unguessed t (contract w (Reported alertID))
      (EmergencyService.resolveAlert alertID resolverID) s := by
  have hfail : ∀ (e : String) (s : Shared ι),
      Contract.Holds perform Unguessed t (contract w (Reported alertID))
        (.done (.error e) : Safety (Except String EmergencyAlert)) s :=
    fun e s s' _ alert h => by cases h
  simp only [EmergencyService.resolveAlert, Program.call_bind, Program.pure_eq]
  intro s₁ h₁ env hunguessed
  refine ⟨movesNamed_of_admissible t s₁ .timeNow env rfl hunguessed, ?_⟩
  have hinv₁ := (moves_readOnly t s₁ .timeNow env rfl).inv (h₁.1.inv hs)
  intro s₂ h₂ env' hunguessed'
  refine ⟨movesNamed_of_admissible t s₂ (.updateResolved ..) env' trivial hunguessed', ?_⟩
  have hinv₂ := h₂.1.inv hinv₁
  cases hr : (perform t s₂ (.updateResolved resolverID (perform t s₁ .timeNow env).2
      (perform t s₁ .timeNow env).2 alertID) env').2 with
  | error e => exact hfail _ _
  | ok _ =>
    have hupdated := updated_of_update t hinv₂ hr
    intro s₃ h₃ env'' hunguessed''
    refine ⟨movesNamed_of_admissible t s₃ (.selectAlert alertID) env'' rfl hunguessed'', ?_⟩
    have hupdated₃ := hupdated.moves h₃
    have hworld := perform_readOnly_world t s₃ (.selectAlert alertID) env'' rfl
    cases hr' : (perform t s₃ (.selectAlert alertID) env'').2 with
    | error e => exact hfail _ _
    | ok alert =>
      have hf := SafetyStore.exec_selectAlert hr'
      have hreported :
          Reported alertID (.ok alert) (perform t s₃ (.selectAlert alertID) env'').1 := by
        rintro _ ⟨⟩
        rw [hworld]
        exact ⟨hf, hupdated₃.resolved alert hf⟩
      exact fun s₄ h₄ => hreported.moves h₄.1

/-- What a finished `resolveAlert` call has told its caller. -/
def Answered (call : Call) (reply : Reply) (s : Shared ι) : Prop :=
  ∀ alertID resolverID r, call = .resolve alertID resolverID → reply = .resolve r →
    Reported alertID r s

theorem holds_program (call : Call) {s : Shared ι} (hs : Inv w s) :
    Contract.Holds perform Unguessed t (contract w (Answered call)) call.program s := by
  cases call with
  | trigger userID alertType lat lng =>
    refine Contract.Holds.of_issues (fun s op env hop hun =>
      movesNamed_of_admissible t s op env hop hun) ?_ (issues_program _) s
    rintro reply s' alertID resolverID r ⟨⟩
  | resolve alertID resolverID =>
    refine Contract.Holds.bind MovesNamed.refl (holds_resolveAlert alertID resolverID hs) ?_
    rintro r s₁ hreported s₂ hmove _ _ _ ⟨⟩ ⟨⟩
    exact hreported.moves hmove.1

end Replies

section Runs

variable [DecidableEq ι]

def start (w : SafetyStore) (calls : ι → Call) : Pool SafetyOp.Res (Shared ι) ι Reply :=
  ⟨⟨w, []⟩, fun t => (calls t).program⟩

/-- What a schedule of the calls leads to. -/
def runFrom (w : SafetyStore) (calls : ι → Call) (schedule : List (ι × Env)) :
    Pool SafetyOp.Res (Shared ι) ι Reply :=
  (start w calls).run perform schedule

variable {w : SafetyStore} {calls : ι → Call}

theorem moves_run {pool : Pool SafetyOp.Res (Shared ι) ι Reply}
    (h : ∀ t, (pool.threads t).Issues Admissible) (xs : List (ι × Env)) :
    Moves w pool.state (pool.run perform xs).state :=
  Contract.run_along (Moves w) Moves.refl (fun _ _ _ => Moves.trans)
    (fun t s op env hop => moves_of_admissible t s op env hop) h xs

theorem inv_run (hw : Lawful w) (schedule : List (ι × Env)) :
    Inv w (runFrom w calls schedule).state :=
  (moves_run (fun t => issues_program (calls t)) schedule).inv (inv_start hw)

/-- From any point of a run on, an alert only ever is resolved, and that once. -/
theorem later_run (xs ys : List (ι × Env)) {i : UUID} {a : EmergencyAlert}
    (hf : (runFrom w calls xs).state.world.alerts.find? i = some a) :
    ∃ a', (runFrom w calls (xs ++ ys)).state.world.alerts.find? i = some a' ∧ Later a a' := by
  have hissues : ∀ t, ((runFrom w calls xs).threads t).Issues Admissible :=
    Pool.issues_run (fun t => issues_program (calls t)) xs
  have hmoves : Moves w (runFrom w calls xs).state (runFrom w calls (xs ++ ys)).state := by
    rw [runFrom, runFrom, Pool.run_append]
    exact moves_run hissues ys
  exact hmoves.later i a hf

theorem answered_run (hw : Lawful w) {schedule : List (ι × Env)}
    (hun : Pool.Guarded perform Unguessed (start w calls) schedule) {t : ι} {reply : Reply}
    (ht : (runFrom w calls schedule).threads t = .done reply) :
    Answered (calls t) reply (runFrom w calls schedule).state := by
  have hend := (Contract.run_shared MovesNamed.refl (fun _ _ _ => MovesNamed.trans) hun
    fun t => holds_program (calls t) (inv_start hw)).1 t
  exact hend.done ht MovesNamed.refl

/-- What holds after a schedule of calls. -/
structure ResolvedOnce (w : SafetyStore) (calls : ι → Call) (schedule : List (ι × Env)) :
    Prop where
  law : Lawful (runFrom w calls schedule).state.world
  later : ∀ more i a, (runFrom w calls schedule).state.world.alerts.find? i = some a →
    ∃ a', (runFrom w calls (schedule ++ more)).state.world.alerts.find? i = some a' ∧ Later a a'
  winner : ∀ a ∈ (runFrom w calls schedule).state.world.alerts.rows,
    resolutionOf a = resolution w a.id (runFrom w calls schedule).state.history
  replies : Pool.Guarded perform Unguessed (start w calls) schedule →
    ∀ t alertID resolverID alert, calls t = .resolve alertID resolverID →
      (runFrom w calls schedule).threads t = .done (.resolve (.ok alert)) →
      alert.id = alertID ∧ alert.status = .resolved ∧
        resolutionOf alert = resolution w alertID (runFrom w calls schedule).state.history

/-- Whatever the schedule, the first committed resolver of an alert wins, and whoever is told
of success is told of the winner. -/
theorem run_resolvedOnce (w : SafetyStore) (hw : Lawful w) (calls : ι → Call)
    (schedule : List (ι × Env)) : ResolvedOnce w calls schedule := by
  have hinv : Inv w (runFrom w calls schedule).state := inv_run hw schedule
  have hwinner : ∀ i a, (runFrom w calls schedule).state.world.alerts.find? i = some a →
      resolutionOf a = resolution w i (runFrom w calls schedule).state.history := by
    intro i a hf
    have hres := hinv.resolution i
    rwa [hf] at hres
  refine ⟨hinv.law, fun more i a hf => later_run schedule more hf, fun a ha => ?_, ?_⟩
  · exact hwinner a.id a (Table.find?_of_mem ha)
  · intro hun t alertID resolverID alert hcall ht
    obtain ⟨hf, hst⟩ := answered_run hw hun ht alertID resolverID _ hcall rfl alert rfl
    exact ⟨Table.key_of_find? hf, hst, hwinner alertID alert hf⟩

end Runs

/-- User 1 raises an alert, and 5 and 6 resolve it. -/
def race : Fin 3 → Call
  | 0 => .trigger 1 "safety" none none
  | 1 => .resolve 100 5
  | 2 => .resolve 100 6

/-- Both resolvers update before either reads the alert back. -/
def raceSchedule : List (Fin 3 × Env) :=
  ([0, 0, 0, 0, 1, 2, 1, 2, 2, 1] : List (Fin 3)).map fun t => (t, .good 10 100)

/-- The one who lost the race is told of the other. -/
theorem race_lost : ∃ alert,
    (runFrom ⟨.empty, .empty⟩ race raceSchedule).threads 2 = .done (.resolve (.ok alert)) ∧
      alert.status = .resolved ∧ resolutionOf alert = some (5, 10) := by
  have honce := run_resolvedOnce ⟨.empty, .empty⟩ (fun _ h => by cases h) race raceSchedule
  obtain ⟨-, hst, hres⟩ := honce.replies (by decide) 2 100 6 _ rfl rfl
  exact ⟨_, rfl, hst, hres⟩

end SafetyDao.AlertResolution
