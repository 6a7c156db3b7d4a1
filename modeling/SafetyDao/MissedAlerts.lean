import SafetyDao.CheckInService
import Mathlib.Data.List.Perm.Subperm
import Mathlib.Logic.Relation

/-!
# Alerts for missed check-ins over monitor passes

Monitor passes run one after another and nothing else writes. A pass marks an
overdue check-in missed in one statement and inserts its alert in another, so the
account of a user has three sides: check-ins that passes have turned to missed,
alerts that passes have inserted, and alerts whose INSERT failed. The three
balance between any two passes, and a lost alert is never made up for.
-/
namespace SafetyDao.MissedAlerts
open Safety (Shared History perform perform_eq perform_readOnly_world)
open Program (Ensures)

abbrev State : Type := Shared Unit

/-- One monitor pass of the service as it is set up, with an emergency service. -/
def Pass (s s' : State) : Prop :=
  (CheckInService.processMissedCheckIns ⟨true⟩).Completes (perform ()) s () s'

/-- The states between two passes, from a database on which nothing has run yet. -/
def BetweenPasses (w : SafetyStore) (s : State) : Prop := Relation.ReflTransGen Pass ⟨w, []⟩ s

/-- Whether a check-in is missed now and was not at the start. -/
def turned (w : SafetyStore) (chk : CheckIn) : Bool :=
  chk.status = .missed ∧ (w.checkIns.find? chk.id).map CheckIn.status ≠ some .missed

/-- Whether an alert is a safety alert that was not there at the start. -/
def raised (w : SafetyStore) (alert : EmergencyAlert) : Bool :=
  alert.alertType = "safety" ∧ w.alerts.find? alert.id = none

/-- Every check-in turned to missed, unless a pass at time `later` would select it
again, has a new safety alert of its own for its owner: the owners are, each as
often as they own such a check-in, among the users of the new alerts. -/
def AlertKept (w : SafetyStore) (later : Time) (w' : SafetyStore) : Prop :=
  ((w'.checkIns.rows.filter (fun chk => turned w chk ∧ ¬ chk.Overdue later)).map
    CheckIn.userID).Subperm
      ((w'.alerts.rows.filter (raised w)).map EmergencyAlert.userID)

/-- The user for whom the INSERT of an alert has failed. -/
def alertLost : Event SafetyOp.Res Unit → Option UUID
  | ⟨_, .insertAlert alert, .error _⟩ => some alert.userID
  | _ => none

def turnedOf (w : SafetyStore) (u : UUID) (chk : CheckIn) : Bool := turned w chk ∧ chk.userID = u

def raisedFor (w : SafetyStore) (u : UUID) (alert : EmergencyAlert) : Bool :=
  raised w alert ∧ alert.userID = u

def losses (u : UUID) (h : History Unit) : ℕ := h.countP (fun e => alertLost e = some u)

/-- The account of every user balances, save for the one who is owed an alert for
the check-in just marked. -/
structure Balanced (w : SafetyStore) (owed : Option UUID) (s : State) : Prop where
  balance : ∀ u, s.world.checkIns.rows.countP (turnedOf w u) =
    s.world.alerts.rows.countP (raisedFor w u) + losses u s.history + if owed = some u then 1 else 0
  alerts_stay : ∀ a ∈ w.alerts.rows, ∃ b, s.world.alerts.find? a.id = some b
  missed_before : ∀ chk ∈ s.world.checkIns.rows,
    (w.checkIns.find? chk.id).map CheckIn.status = some .missed → chk.status = .missed

/-- Rows that a pass still has to go through: distinct check-ins, pending, each
with its owner. -/
structure Selected (rows : List MissedCheckIn) (s : State) : Prop where
  nodup : (rows.map MissedCheckIn.id).Nodup
  pending : ∀ row ∈ rows, ∃ chk, s.world.checkIns.find? row.id = some chk ∧
    chk.status = .pending ∧ chk.userID = row.userID

theorem Selected.tail {row : MissedCheckIn} {rest : List MissedCheckIn} {s : State}
    (h : Selected (row :: rest) s) : Selected rest s where
  nodup := (List.nodup_cons.mp h.nodup).2
  pending row' hmem := h.pending row' (List.mem_cons_of_mem _ hmem)

theorem Selected.of_checkIns_eq {rows : List MissedCheckIn} {s s' : State} (h : Selected rows s)
    (hw : s'.world.checkIns = s.world.checkIns) : Selected rows s' where
  nodup := h.nodup
  pending row hmem := by
    rw [hw]
    exact h.pending row hmem

theorem balanced_start (w : SafetyStore) : Balanced w none ⟨w, []⟩ where
  balance u := by
    have hturned : w.checkIns.rows.countP (turnedOf w u) = 0 := by
      refine List.countP_eq_zero.mpr fun chk hchk => ?_
      simp only [turnedOf, turned, Table.find?_of_mem hchk, Option.map_some]
      simp
    have hraised : w.alerts.rows.countP (raisedFor w u) = 0 := by
      refine List.countP_eq_zero.mpr fun a ha => ?_
      simp only [raisedFor, raised, Table.find?_of_mem ha]
      simp
    simp [hturned, hraised, losses]
  alerts_stay a ha := ⟨a, Table.find?_of_mem ha⟩
  missed_before chk hchk h := by
    rw [Table.find?_of_mem hchk] at h
    simpa using h

section Requests

variable {w : SafetyStore} {owed : Option UUID} {s : State}

/-- A request that leaves the tables alone and is no failed INSERT. -/
theorem Balanced.quiet (h : Balanced w owed s) {s' : State} {e : Event SafetyOp.Res Unit}
    (hw : s'.world = s.world) (hh : s'.history = e :: s.history) (he : alertLost e = none) :
    Balanced w owed s' where
  balance u := by
    have hl : losses u s'.history = losses u s.history := by simp [losses, hh, he]
    rw [hw, hl]
    exact h.balance u
  alerts_stay := by
    rw [hw]
    exact h.alerts_stay
  missed_before := by
    rw [hw]
    exact h.missed_before

theorem Balanced.readOnly (h : Balanced w owed s) (op : SafetyOp) (env : Env)
    (hop : SafetyStore.readOnly op = true) : Balanced w owed (perform () s op env).1 := by
  refine h.quiet (perform_readOnly_world () s op env hop) rfl ?_
  cases op <;> first | rfl | cases hop

/-- Marking a pending check-in leaves its owner owed an alert. -/
theorem Balanced.updateMissed (h : Balanced w none s) (now : Time) {i : UUID} {chk : CheckIn}
    (hf : s.world.checkIns.find? i = some chk) (hst : chk.status = .pending) {s' : State}
    {e : Event SafetyOp.Res Unit} (hw : s'.world = s.world.updateMissed now i)
    (hh : s'.history = e :: s.history) (he : alertLost e = none) :
    Balanced w (some chk.userID) s' := by
  have hmem := Table.mem_of_find? hf
  have hid : chk.id = i := Table.key_of_find? hf
  have hbefore : (w.checkIns.find? chk.id).map CheckIn.status ≠ some .missed := by
    intro hm
    have := h.missed_before chk hmem hm
    rw [hst] at this
    cases this
  refine ⟨fun u => ?_, ?_, ?_⟩
  · have hl : losses u s'.history = losses u s.history := by simp [losses, hh, he]
    have hcount := Table.countP_update hmem (CheckIn.miss now) (CheckIn.miss_id now) (turnedOf w u)
    have hold : turnedOf w u chk = false := by simp [turnedOf, turned, hst]
    have hnew : turnedOf w u (chk.miss now) = decide (chk.userID = u) := by
      simp [turnedOf, turned, hbefore]
    rw [hold, hnew, hid] at hcount
    have hb := h.balance u
    simp only [hw, hl, SafetyStore.updateMissed, Option.some.injEq, reduceCtorEq, if_false,
      Bool.false_eq_true, decide_eq_true_eq] at hb hcount ⊢
    omega
  · rw [hw]
    exact h.alerts_stay
  · intro c hc hm
    rw [hw] at hc
    change c ∈ (s.world.checkIns.update i (CheckIn.miss now) (CheckIn.miss_id now)).rows at hc
    rcases Table.mem_update_of_find? hf hc with rfl | ⟨hc, -⟩
    · rfl
    · exact h.missed_before c hc hm

/-- The INSERT of the owed alert settles the account, be it that the alert is
there or that it is lost. -/
theorem Balanced.insertAlert (alert : EmergencyAlert) (htype : alert.alertType = "safety")
    (h : Balanced w (some alert.userID) s) (env : Env) :
    Balanced w none (perform () s (.insertAlert alert) env).1 := by
  rcases SafetyStore.exec_insertAlert s.world alert env with ⟨e, he⟩ | ⟨t, ht, he⟩
  · rw [perform_eq, he]
    refine ⟨fun u => ?_, h.alerts_stay, h.missed_before⟩
    have hl : losses u (⟨(), .insertAlert alert, .error e⟩ :: s.history) =
        losses u s.history + if alert.userID = u then 1 else 0 := by
      simp [losses, alertLost, List.countP_cons]
    have hb := h.balance u
    simp only [hl, Option.some.injEq, reduceCtorEq, if_false] at hb ⊢
    omega
  · rw [perform_eq, he]
    obtain ⟨hfresh, hrows⟩ := Table.insert_eq_some.mp ht
    refine ⟨fun u => ?_, fun a ha => ?_, h.missed_before⟩
    · have hl : losses u (⟨(), .insertAlert alert, .ok ()⟩ :: s.history) = losses u s.history := by
        simp [losses, alertLost]
      have hnew : w.alerts.find? alert.id = none := by
        refine Table.find?_eq_none.mpr fun a ha hid => ?_
        obtain ⟨b, hb⟩ := h.alerts_stay a ha
        rw [hid, hfresh] at hb
        cases hb
      have hr : raisedFor w u alert = decide (alert.userID = u) := by
        simp [raisedFor, raised, htype, hnew]
      have hb := h.balance u
      simp only [hl, hrows, List.countP_append, List.countP_cons, List.countP_nil, hr,
        Option.some.injEq, reduceCtorEq, if_false, decide_eq_true_eq] at hb ⊢
      omega
    · obtain ⟨b, hb⟩ := h.alerts_stay a ha
      rw [Table.find?_insert ht]
      split
      · exact ⟨alert, rfl⟩
      · exact ⟨b, hb⟩

/-- The statement that marks the first selected row leaves the others pending. -/
theorem Selected.updateMissed {row : MissedCheckIn} {rest : List MissedCheckIn} (now : Time)
    (h : Selected (row :: rest) s) {s' : State}
    (hw : s'.world = s.world.updateMissed now row.id) : Selected rest s' where
  nodup := h.tail.nodup
  pending row' hmem := by
    have hne : row'.id ≠ row.id := by
      intro he
      exact (List.nodup_cons.mp h.nodup).1 (he ▸ List.mem_map_of_mem hmem)
    rw [hw, SafetyStore.updateMissed, Table.find?_update, if_neg hne]
    exact h.tail.pending row' hmem

end Requests

section Passes

variable {w : SafetyStore} {s : State}

/-- A request that only reads carries the accounts over to its continuation. -/
theorem ensures_readOnly {α : Type} {post : α → State → Prop} {owed : Option UUID}
    {rows : List MissedCheckIn} {op : SafetyOp} {next : op.Res → Safety α}
    (hop : SafetyStore.readOnly op = true) (h : Balanced w owed s) (hrows : Selected rows s)
    (hnext : ∀ r s', Balanced w owed s' → Selected rows s' →
      Ensures (perform ()) post (next r) s') :
    Ensures (perform ()) post (.request op next) s := by
  intro env
  refine hnext _ _ (h.readOnly op env hop) (hrows.of_checkIns_eq ?_)
  rw [perform_readOnly_world () s op env hop]

/-- Whether it succeeds or not, the alert that is owed is accounted for. -/
theorem ensures_triggerAlert {rows : List MissedCheckIn} {userID : UUID}
    (h : Balanced w (some userID) s) (hrows : Selected rows s) :
    Ensures (perform ()) (fun _ s => Balanced w none s ∧ Selected rows s)
      (EmergencyService.triggerAlert userID "safety" none none) s := by
  simp only [EmergencyService.triggerAlert, Program.call_bind, Program.pure_eq]
  refine ensures_readOnly rfl h hrows fun id s₁ h₁ hrows₁ => ?_
  refine ensures_readOnly rfl h₁ hrows₁ fun createdAt s₂ h₂ hrows₂ => ?_
  refine ensures_readOnly rfl h₂ hrows₂ fun updatedAt s₃ h₃ hrows₃ => ?_
  intro env
  have hbal := Balanced.insertAlert (EmergencyService.newAlert id userID "safety" none none
    createdAt updatedAt) rfl h₃ env
  have hsel : Selected rows (perform () s₃ (.insertAlert (EmergencyService.newAlert id userID
      "safety" none none createdAt updatedAt)) env).1 := by
    refine hrows₃.of_checkIns_eq ?_
    rcases SafetyStore.exec_insertAlert s₃.world (EmergencyService.newAlert id userID
      "safety" none none createdAt updatedAt) env with ⟨e, he⟩ | ⟨t, -, he⟩ <;>
      rw [perform_eq, he]
  dsimp only
  split <;> exact ⟨hbal, hsel⟩

/-- The loop keeps every account balanced: by induction on the rows still to come. -/
theorem ensures_processRows {rows : List MissedCheckIn} (h : Balanced w none s)
    (hrows : Selected rows s) :
    Ensures (perform ()) (fun _ => Balanced w none) (CheckInService.processRows ⟨true⟩ rows) s := by
  induction rows generalizing s with
  | nil => exact h
  | cons row rest ih =>
    simp only [CheckInService.processRows, Program.call_bind, Program.pure_eq]
    refine ensures_readOnly rfl h hrows fun r s₁ h₁ hrows₁ => ?_
    cases r with
    | error e => exact h₁
    | ok _ =>
    refine ensures_readOnly rfl h₁ hrows₁ fun r s₂ h₂ hrows₂ => ?_
    cases r with
    | error e => exact ih h₂ hrows₂.tail
    | ok _ =>
    refine ensures_readOnly rfl h₂ hrows₂ fun now s₃ h₃ hrows₃ => ?_
    intro env
    rcases SafetyStore.exec_updateMissed s₃.world now row.id env with ⟨e, he⟩ | hok
    · rw [perform_eq, he]
      exact ih (h₃.quiet rfl rfl rfl) (hrows₃.tail.of_checkIns_eq rfl)
    · rw [perform_eq, hok]
      obtain ⟨chk, hf, hst, huser⟩ := hrows₃.pending row (by simp)
      have hbal : Balanced w (some row.userID) ⟨s₃.world.updateMissed now row.id,
          ⟨(), .updateMissed now row.id, .ok ()⟩ :: s₃.history⟩ :=
        huser ▸ h₃.updateMissed now hf hst rfl rfl rfl
      exact (ensures_triggerAlert hbal (hrows₃.updateMissed now rfl)).bind
        fun _ s hs => ih hs.1 hs.2

theorem ensures_processMissedCheckIns (h : Balanced w none s) :
    Ensures (perform ()) (fun _ => Balanced w none)
      (CheckInService.processMissedCheckIns ⟨true⟩) s := by
  simp only [CheckInService.processMissedCheckIns, Program.call_bind, Program.pure_eq]
  intro env
  have hbal := h.readOnly .selectMissedForUpdate env rfl
  have hworld := perform_readOnly_world () s .selectMissedForUpdate env rfl
  cases hr : (perform () s .selectMissedForUpdate env).2 with
  | error e => exact hbal
  | ok rows =>
    refine ensures_processRows hbal ⟨?_, fun row hmem => ?_⟩
    · rw [SafetyStore.exec_selectMissedForUpdate hr, SafetyStore.selectMissed, List.map_map]
      have hperm := (env.arrange_perm CheckIn.id
        (s.world.checkIns.rows.filter (fun chk => chk.Overdue env.now))).map CheckIn.id
      exact hperm.nodup_iff.mpr (s.world.checkIns.nodup.sublist (List.filter_sublist.map _))
    · rw [SafetyStore.exec_selectMissedForUpdate hr, SafetyStore.mem_selectMissed] at hmem
      obtain ⟨chk, hchk, hover, rfl⟩ := hmem
      exact ⟨chk, by rw [hworld]; exact Table.find?_of_mem hchk, hover.1, rfl⟩

/-- Between any two passes the accounts balance. -/
theorem BetweenPasses.balanced (h : BetweenPasses w s) : Balanced w none s := by
  induction h with
  | refl => exact balanced_start w
  | tail _ hpass ih => exact (ensures_processMissedCheckIns ih).completes hpass

end Passes

/-- How often a user owns one of the turned check-ins: none of them would be
selected again. -/
theorem count_turned (w w' : SafetyStore) (later : Time) (u : UUID) :
    ((w'.checkIns.rows.filter (fun chk => turned w chk ∧ ¬ chk.Overdue later)).map
      CheckIn.userID).count u = w'.checkIns.rows.countP (turnedOf w u) := by
  rw [List.count_eq_countP, List.countP_map, List.countP_filter]
  refine List.countP_congr fun chk _ => ?_
  have hover : turned w chk = true → ¬ chk.Overdue later := by
    intro ht ho
    have hst := ho.1
    simp [turned, hst] at ht
  simp only [Function.comp_apply, turnedOf, Bool.and_eq_true, beq_iff_eq, decide_eq_true_eq]
  tauto

theorem count_raised (w w' : SafetyStore) (u : UUID) :
    ((w'.alerts.rows.filter (raised w)).map EmergencyAlert.userID).count u =
      w'.alerts.rows.countP (raisedFor w u) := by
  rw [List.count_eq_countP, List.countP_map, List.countP_filter]
  refine List.countP_congr fun a _ => ?_
  simp only [Function.comp_apply, raisedFor, Bool.and_eq_true, beq_iff_eq, decide_eq_true_eq]
  tauto

/-- Between passes no missed check-in lacks its alert exactly when the INSERT of no
alert has failed so far. -/
theorem alertKept_iff_no_alertLost (w : SafetyStore) (s : State) (h : BetweenPasses w s) :
    (∀ later, AlertKept w later s.world) ↔ ∀ e ∈ s.history, alertLost e = none := by
  have hbal := fun u => h.balanced.balance u
  simp only [reduceCtorEq, if_false, Nat.add_zero] at hbal
  constructor
  · intro hkept e he
    cases hl : alertLost e with
    | none => rfl
    | some u =>
      have hpos : 0 < losses u s.history := List.countP_pos_iff.mpr ⟨e, he, by simpa using hl⟩
      have hle := (hkept 0).count_le u
      rw [count_turned, count_raised] at hle
      have := hbal u
      omega
  · intro hlost later
    refine List.subperm_ext_iff.mpr fun u _ => ?_
    have hzero : losses u s.history = 0 :=
      List.countP_eq_zero.mpr fun e he => by simp [hlost e he]
    rw [count_turned, count_raised, hbal u, hzero, Nat.add_zero]

/-- One check-in of user 7, overdue at time 10. -/
def oneOverdue : SafetyStore where
  checkIns := ⟨[⟨1, 7, 0, none, .pending, "", 0, 0⟩], by decide⟩
  alerts := .empty

/-- One pass over it: eight requests succeed, then comes the INSERT of the alert. -/
def onePass (failure : Option String) : Option (Unit × State × List Env) :=
  (CheckInService.processMissedCheckIns ⟨true⟩).run (perform ()) ⟨oneOverdue, []⟩
    (List.replicate 8 (.good 10 100) ++ [⟨10, 100, failure, fun _ => 0⟩])

def afterPass (failure : Option String) : State :=
  (onePass failure).elim ⟨oneOverdue, []⟩ (fun out => out.2.1)

theorem betweenPasses_afterPass (failure : Option String) :
    BetweenPasses oneOverdue (afterPass failure) := by
  refine .single ⟨List.replicate 8 (.good 10 100) ++ [⟨10, 100, failure, fun _ => 0⟩], ?_⟩
  cases failure <;> rfl

/-- When the INSERT succeeds the alert is kept. -/
theorem alertKept_after_good_pass : AlertKept oneOverdue 20 (afterPass none).world :=
  (alertKept_iff_no_alertLost oneOverdue (afterPass none) (betweenPasses_afterPass none)).mpr
    (by decide) 20

/-- When the context is cancelled between the two statements, the check-in stays
missed without an alert, and no later pass selects it. -/
theorem alert_lost_on_cancel :
    ¬ ∀ (w : SafetyStore) (s : State), BetweenPasses w s → ∀ later, AlertKept w later s.world := by
  intro h
  have hkept := h oneOverdue _ (betweenPasses_afterPass (some "context canceled")) 20
  have hle := hkept.length_le
  revert hle
  decide

end SafetyDao.MissedAlerts
