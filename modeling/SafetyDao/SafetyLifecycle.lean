import SafetyDao.AlertResolution
import SafetyDao.ConcurrentPasses

/-!
# The life of check-ins and alerts

All operations of the check-in and the emergency service and any number of monitor
passes run interleaved, and any statement may fail. A row is never deleted and keeps
all but its status and the columns that go with it; what a caller has been told stays
true in this sense; and a pass none of whose statements fails leaves no check-in pending
that was due when it looked.
-/
namespace SafetyDao.SafetyLifecycle
open Safety (Shared History perform perform_eq perform_readOnly_world)
open CheckInRace (Settled moved)
open AlertResolution (AlertLaw Lawful)

inductive Call where
  | scheduleCheckIn (userID : UUID) (input : NewCheckIn)
  | completeCheckIn (checkInID userID : UUID)
  | getCheckIn (checkInID userID : UUID)
  | listCheckIns (userID : UUID) (status : String)
  | processMissedCheckIns
  | triggerAlert (userID : UUID) (alertType : String) (lat lng : Option ℚ)
  | resolveAlert (alertID resolverID : UUID)
  | listAlerts (userID : UUID) (status : String)

inductive Reply where
  | checkIn (r : Except String CheckIn)
  | checkIns (r : Except String (List CheckIn))
  | passed
  | alert (r : Except String EmergencyAlert)
  | alerts (r : Except String (List EmergencyAlert))

def Call.program (svc : CheckInService) : Call → Safety Reply
  | .scheduleCheckIn userID input => .checkIn <$> CheckInService.scheduleCheckIn userID input
  | .completeCheckIn checkInID userID =>
    .checkIn <$> CheckInService.completeCheckIn checkInID userID
  | .getCheckIn checkInID userID => .checkIn <$> CheckInService.getCheckIn checkInID userID
  | .listCheckIns userID status => .checkIns <$> CheckInService.listCheckIns userID status
  | .processMissedCheckIns => (fun _ => .passed) <$> svc.processMissedCheckIns
  | .triggerAlert userID alertType lat lng =>
    .alert <$> EmergencyService.triggerAlert userID alertType lat lng
  | .resolveAlert alertID resolverID =>
    .alert <$> EmergencyService.resolveAlert alertID resolverID
  | .listAlerts userID status => .alerts <$> EmergencyService.listAlerts userID status

/-- The user that a call compares with the rows. -/
def Call.userID : Call → Option UUID
  | .scheduleCheckIn userID _ => some userID
  | .completeCheckIn _ userID => some userID
  | .getCheckIn _ userID => some userID
  | .listCheckIns userID _ => some userID
  | .triggerAlert userID .. => some userID
  | .listAlerts userID _ => some userID
  | .processMissedCheckIns | .resolveAlert .. => none

/-- The check-ins that a caller is told of. -/
def Reply.toldCheckIns : Reply → List CheckIn
  | .checkIn (.ok chk) => [chk]
  | .checkIns (.ok chks) => chks
  | _ => []

def Reply.toldAlerts : Reply → List EmergencyAlert
  | .alert (.ok a) => [a]
  | .alerts (.ok as) => as
  | _ => []

/-- What becomes of a check-in: nothing, or, unless it was cancelled, it is completed or
missed. -/
structure Later (chk chk' : CheckIn) : Prop where
  same : chk' = { chk with
    status := chk'.status, completedAt := chk'.completedAt, updatedAt := chk'.updatedAt }
  settles : chk' = chk ∨ chk.status ≠ .cancelled ∧ Settled chk'
  completedAt : chk.completedAt.isSome → chk'.completedAt.isSome

namespace Later

variable {a b c : CheckIn}

theorem refl (a : CheckIn) : Later a a := ⟨rfl, .inl rfl, id⟩

theorem settled (h : Later a b) (ha : Settled a) : Settled b := by
  rcases h.settles with rfl | ⟨-, hb⟩
  · exact ha
  · exact hb

theorem notCancelled (h : Later a b) (ha : a.status ≠ .cancelled) : b.status ≠ .cancelled := by
  rcases h.settles with rfl | ⟨-, hb | hb⟩
  · exact ha
  · simp [hb]
  · simp [hb]

theorem trans (h₁ : Later a b) (h₂ : Later b c) : Later a c where
  same := by
    rw [h₂.same, h₁.same]
  settles := by
    rcases h₁.settles with rfl | ⟨ha, hb⟩
    · exact h₂.settles
    · exact .inr ⟨ha, h₂.settled hb⟩
  completedAt h := h₂.completedAt (h₁.completedAt h)

theorem userID_eq (h : Later a b) : b.userID = a.userID := by rw [h.same]

theorem complete (ha : a.status ≠ .cancelled) (completedAt updatedAt : Time) :
    Later a (a.complete completedAt updatedAt) :=
  ⟨rfl, .inr ⟨ha, .inl rfl⟩, fun _ => rfl⟩

theorem miss (ha : a.status ≠ .cancelled) (updatedAt : Time) : Later a (a.miss updatedAt) :=
  ⟨rfl, .inr ⟨ha, .inr rfl⟩, id⟩

end Later

/-- What the operations need of the rows, and keep: a pending check-in has not been
completed, a completed one has been. -/
structure Consistent (w : SafetyStore) : Prop where
  pending : ∀ chk ∈ w.checkIns.rows, chk.status = .pending → chk.completedAt = none
  completed : ∀ chk ∈ w.checkIns.rows, chk.status = .completed → chk.completedAt.isSome
  alerts : Lawful w

variable {ι : Type}

section Moves

variable (calls : ι → Call) (w : SafetyStore)

/-- Where a check-in comes from: it was there, or its user has scheduled it. -/
def CheckInOrigin (chk : CheckIn) : Prop :=
  (∃ chk₀ ∈ w.checkIns.rows, Later chk₀ chk) ∨
    ∃ t, calls t = .scheduleCheckIn chk.userID ⟨chk.scheduledAt, chk.note⟩

/-- Who may raise an alert: its user, or a pass for the user of a check-in that is pending no
more. -/
def MayRaise (s : SafetyStore) (userID : UUID) (alertType : String) (lat lng : Option ℚ) : Prop :=
  (∃ t, calls t = .triggerAlert userID alertType lat lng) ∨
  (∃ t, calls t = .processMissedCheckIns) ∧ alertType = "safety" ∧ lat = none ∧ lng = none ∧
    ∃ chk ∈ s.checkIns.rows, chk.userID = userID ∧ Settled chk

def AlertOrigin (s : SafetyStore) (a : EmergencyAlert) : Prop :=
  (∃ a₀ ∈ w.alerts.rows, AlertResolution.Later a₀ a) ∨
  ∃ id userID alertType lat lng createdAt updatedAt,
    MayRaise calls s userID alertType lat lng ∧ AlertResolution.Later
      (EmergencyService.newAlert id userID alertType lat lng createdAt updatedAt) a

/-- What holds of the tables at any time. -/
structure Inv (s : SafetyStore) : Prop where
  consistent : Consistent s
  checkIns : ∀ chk ∈ s.checkIns.rows, CheckInOrigin calls w chk
  alerts : ∀ a ∈ s.alerts.rows, AlertOrigin calls w s a

/-- How the tables move while the requests `es` are performed. -/
structure Moves (s s' : Shared ι) (es : History ι) : Prop where
  history : s'.history = es ++ s.history
  checkIns : ∀ i chk, s.world.checkIns.find? i = some chk →
    ∃ chk', s'.world.checkIns.find? i = some chk' ∧ Later chk chk' ∧
      ((∃ e ∈ es, moved e = some i) → Settled chk') ∧
      ((∀ e ∈ es, moved e ≠ some i) → chk' = chk)
  alerts : ∀ i a, s.world.alerts.find? i = some a →
    ∃ a', s'.world.alerts.find? i = some a' ∧ AlertResolution.Later a a'
  inv : Inv calls w s.world → Inv calls w s'.world

variable {calls w}

theorem Moves.refl (s : Shared ι) : Moves calls w s s [] where
  history := rfl
  checkIns i chk hf := ⟨chk, hf, .refl chk, by simp, by simp⟩
  alerts i a hf := ⟨a, hf, .inl rfl⟩
  inv := id

theorem Moves.trans {s₁ s₂ s₃ : Shared ι} {es fs : History ι} (h₁ : Moves calls w s₁ s₂ es)
    (h₂ : Moves calls w s₂ s₃ fs) : Moves calls w s₁ s₃ (fs ++ es) where
  history := by rw [h₂.history, h₁.history, List.append_assoc]
  checkIns i chk hf := by
    obtain ⟨b, hb, hab, hset₁, hsame₁⟩ := h₁.checkIns i chk hf
    obtain ⟨c, hc, hbc, hset₂, hsame₂⟩ := h₂.checkIns i b hb
    refine ⟨c, hc, hab.trans hbc, ?_, fun hes => ?_⟩
    · rintro ⟨e, he, hmoved⟩
      rcases List.mem_append.mp he with he | he
      · exact hset₂ ⟨e, he, hmoved⟩
      · exact hbc.settled (hset₁ ⟨e, he, hmoved⟩)
    · rw [hsame₂ fun e he => hes e (List.mem_append_left _ he),
        hsame₁ fun e he => hes e (List.mem_append_right _ he)]
  alerts i a hf := by
    obtain ⟨b, hb, hab⟩ := h₁.alerts i a hf
    obtain ⟨c, hc, hbc⟩ := h₂.alerts i b hb
    exact ⟨c, hc, hab.trans hbc⟩
  inv h := h₂.inv (h₁.inv h)

theorem CheckInOrigin.later {chk chk' : CheckIn} (h : CheckInOrigin calls w chk)
    (hlater : Later chk chk') : CheckInOrigin calls w chk' := by
  rcases h with ⟨chk₀, hmem, h₀⟩ | ⟨t, ht⟩
  · exact .inl ⟨chk₀, hmem, h₀.trans hlater⟩
  · refine .inr ⟨t, ?_⟩
    rw [hlater.same]
    exact ht

theorem AlertOrigin.later {s s' : SafetyStore} {a a' : EmergencyAlert}
    (h : AlertOrigin calls w s a) (hlater : AlertResolution.Later a a')
    (hrows : ∀ chk ∈ s.checkIns.rows, ∃ chk' ∈ s'.checkIns.rows, Later chk chk') :
    AlertOrigin calls w s' a' := by
  rcases h with ⟨a₀, hmem, h₀⟩ | ⟨id, userID, alertType, lat, lng, c, u, hraise, hnew⟩
  · exact .inl ⟨a₀, hmem, h₀.trans hlater⟩
  · refine .inr ⟨id, userID, alertType, lat, lng, c, u, ?_, hnew.trans hlater⟩
    rcases hraise with ht | ⟨ht, htype, hlat, hlng, chk, hchk, huser, hset⟩
    · exact .inl ht
    · obtain ⟨chk', hchk', hl⟩ := hrows chk hchk
      exact .inr ⟨ht, htype, hlat, hlng, chk', hchk', hl.userID_eq.trans huser, hl.settled hset⟩

section Requests

variable (t : ι) (s : Shared ι)

theorem moves_of_world_eq {s s' : Shared ι} {e : Event SafetyOp.Res ι}
    (hh : s'.history = e :: s.history) (hw : s'.world = s.world) (hmoved : moved e = none) :
    Moves calls w s s' [e] where
  history := hh
  checkIns i chk hf := ⟨chk, by rw [hw]; exact hf, .refl chk, by simp [hmoved], fun _ => rfl⟩
  alerts i a hf := ⟨a, by rw [hw]; exact hf, .inl rfl⟩
  inv h := by
    rw [hw]
    exact h

theorem moves_readOnly (op : SafetyOp) (env : Env) (h : SafetyStore.readOnly op = true) :
    Moves calls w s (perform t s op env).1 [⟨t, op, (s.world.exec op env).2⟩] := by
  refine moves_of_world_eq rfl (perform_readOnly_world t s op env h) ?_
  cases op <;> first | rfl | cases h

/-- A check-in that its user schedules is added to the rows. -/
theorem moves_insertCheckIn {chk : CheckIn} (hst : chk.status = .pending)
    (hat : chk.completedAt = none)
    (hcall : calls t = .scheduleCheckIn chk.userID ⟨chk.scheduledAt, chk.note⟩) (env : Env) :
    Moves calls w s (perform t s (.insertCheckIn chk) env).1
      [⟨t, .insertCheckIn chk, (s.world.exec (.insertCheckIn chk) env).2⟩] := by
  rcases SafetyStore.exec_insertCheckIn s.world chk env with ⟨e, he⟩ | ⟨tbl, ht, he⟩
  · rw [perform_eq, he]
    exact moves_of_world_eq rfl rfl rfl
  · rw [perform_eq, he]
    have hmem : ∀ c, c ∈ tbl.rows ↔ c ∈ s.world.checkIns.rows ∨ c = chk :=
      fun c => Table.mem_insert ht
    refine ⟨rfl, fun i c hf => ⟨c, ?_, .refl c, by simp [moved], fun _ => rfl⟩,
      fun i a hf => ⟨a, hf, .inl rfl⟩, fun h => ⟨⟨?_, ?_, h.consistent.alerts⟩, ?_, ?_⟩⟩
    · refine (Table.find?_insert ht i).trans ((if_neg ?_).trans hf)
      rintro rfl
      have hfresh := (Table.insert_eq_some.mp ht).1
      rw [hfresh] at hf
      cases hf
    · intro c hc hp
      rcases (hmem c).mp hc with hc | rfl
      · exact h.consistent.pending c hc hp
      · exact hat
    · intro c hc hp
      rcases (hmem c).mp hc with hc | rfl
      · exact h.consistent.completed c hc hp
      · rw [hst] at hp
        cases hp
    · intro c hc
      rcases (hmem c).mp hc with hc | rfl
      · exact h.checkIns c hc
      · exact .inr ⟨t, hcall⟩
    · intro a ha
      exact (h.alerts a ha).later (.inl rfl) fun c hc => ⟨c, (hmem c).mpr (.inl hc), .refl c⟩

/-- Rows that are completed or missed where they are not cancelled keep the invariant. -/
theorem Inv.update {s : SafetyStore} (h : Inv calls w s) {i : UUID} (f : CheckIn → CheckIn)
    (hf : ∀ chk, (f chk).id = chk.id)
    (hlater : ∀ chk ∈ s.checkIns.rows, Later chk (if chk.id = i then f chk else chk))
    (hset : ∀ chk, Settled (f chk))
    (hat : ∀ chk, (f chk).status = .completed → (f chk).completedAt.isSome) :
    Inv calls w { s with checkIns := s.checkIns.update i f hf } := by
  have hmem : ∀ c, c ∈ (s.checkIns.update i f hf).rows ↔
      ∃ chk ∈ s.checkIns.rows, (if chk.id = i then f chk else chk) = c :=
    fun c => Table.mem_update
  refine ⟨⟨fun c hc hp => ?_, fun c hc hp => ?_, h.consistent.alerts⟩, fun c hc => ?_,
    fun a ha => (h.alerts a ha).later (.inl rfl) fun c hc =>
      ⟨_, (hmem _).mpr ⟨c, hc, rfl⟩, hlater c hc⟩⟩
  · obtain ⟨chk, hchk, rfl⟩ := (hmem c).mp hc
    split at hp
    · rcases hset chk with hs | hs <;> rw [hs] at hp <;> cases hp
    · rename_i hid
      rw [if_neg hid]
      exact h.consistent.pending chk hchk hp
  · obtain ⟨chk, hchk, rfl⟩ := (hmem c).mp hc
    split at hp
    · rename_i hid
      rw [if_pos hid]
      exact hat chk hp
    · rename_i hid
      rw [if_neg hid]
      exact h.consistent.completed chk hchk hp
  · obtain ⟨chk, hchk, rfl⟩ := (hmem c).mp hc
    exact (h.checkIns chk hchk).later (hlater chk hchk)

/-- The status of a check-in that is not cancelled is set. -/
theorem moves_of_update {s s' : Shared ι} {e : Event SafetyOp.Res ι} {i : UUID}
    (f : CheckIn → CheckIn) (hf : ∀ chk, (f chk).id = chk.id) (hh : s'.history = e :: s.history)
    (hw : s'.world = { s.world with checkIns := s.world.checkIns.update i f hf })
    (hmoved : moved e = some i)
    (hseen : ∀ chk, s.world.checkIns.find? i = some chk → chk.status ≠ .cancelled)
    (hlater : ∀ chk : CheckIn, chk.status ≠ .cancelled → Later chk (f chk))
    (hset : ∀ chk, Settled (f chk))
    (hat : ∀ chk, (f chk).status = .completed → (f chk).completedAt.isSome) :
    Moves calls w s s' [e] := by
  have hrow : ∀ chk ∈ s.world.checkIns.rows,
      Later chk (if chk.id = i then f chk else chk) := by
    intro chk hchk
    split
    · rename_i hid
      exact hlater chk (hseen chk (hid ▸ Table.find?_of_mem hchk))
    · exact .refl chk
  refine ⟨hh, fun j chk hfj => ?_, fun j a hfj => ⟨a, by rw [hw]; exact hfj, .inl rfl⟩,
    fun h => ?_⟩
  · have hkey := Table.key_of_find? hfj
    have hfj' : s'.world.checkIns.find? j = some (if chk.id = i then f chk else chk) := by
      rw [hw, Table.find?_update, hfj, hkey]
      split <;> rfl
    refine ⟨_, hfj', hrow chk (Table.mem_of_find? hfj), ?_, fun hne => ?_⟩
    · rintro ⟨e', he', hm⟩
      rw [List.mem_singleton.mp he', hmoved, Option.some.injEq] at hm
      rw [if_pos (hkey.trans hm.symm)]
      exact hset chk
    · rw [if_neg]
      intro hid
      exact hne e List.mem_cons_self (hmoved.trans (congrArg some (hid.symm.trans hkey)))
  · rw [hw]
    exact h.update f hf hrow hset hat

theorem moves_updateCompleted {s : Shared ι} {completedAt updatedAt : Time} {i : UUID}
    (hseen : ∀ chk, s.world.checkIns.find? i = some chk → chk.status ≠ .cancelled) (env : Env) :
    Moves calls w s (perform t s (.updateCompleted completedAt updatedAt i) env).1
      [⟨t, .updateCompleted completedAt updatedAt i,
        (s.world.exec (.updateCompleted completedAt updatedAt i) env).2⟩] := by
  rcases SafetyStore.exec_updateCompleted s.world completedAt updatedAt i env with ⟨e, he⟩ | he
  · rw [perform_eq, he]
    exact moves_of_world_eq rfl rfl rfl
  · rw [perform_eq, he]
    exact moves_of_update _ (CheckIn.complete_id completedAt updatedAt) rfl rfl rfl hseen
      (fun _ h => .complete h completedAt updatedAt) (fun _ => .inl rfl) (fun _ _ => rfl)

theorem moves_updateMissed {s : Shared ι} {updatedAt : Time} {i : UUID}
    (hseen : ∀ chk, s.world.checkIns.find? i = some chk → chk.status ≠ .cancelled) (env : Env) :
    Moves calls w s (perform t s (.updateMissed updatedAt i) env).1
      [⟨t, .updateMissed updatedAt i, (s.world.exec (.updateMissed updatedAt i) env).2⟩] := by
  rcases SafetyStore.exec_updateMissed s.world updatedAt i env with ⟨e, he⟩ | he
  · rw [perform_eq, he]
    exact moves_of_world_eq rfl rfl rfl
  · rw [perform_eq, he]
    exact moves_of_update _ (CheckIn.miss_id updatedAt) rfl rfl rfl hseen
      (fun _ h => .miss h updatedAt) (fun _ => .inr rfl) (fun _ h => by cases h)

/-- An alert that somebody may raise is added to the rows. -/
theorem moves_insertAlert {s : Shared ι} {id userID : UUID} {alertType : String}
    {lat lng : Option ℚ} {createdAt updatedAt : Time}
    (hraise : MayRaise calls s.world userID alertType lat lng) (env : Env) :
    Moves calls w s
      (perform t s (.insertAlert
        (EmergencyService.newAlert id userID alertType lat lng createdAt updatedAt)) env).1
      [⟨t, .insertAlert
          (EmergencyService.newAlert id userID alertType lat lng createdAt updatedAt),
        (s.world.exec (.insertAlert (EmergencyService.newAlert id userID alertType lat lng
          createdAt updatedAt)) env).2⟩] := by
  set alert := EmergencyService.newAlert id userID alertType lat lng createdAt updatedAt with hnew
  rcases SafetyStore.exec_insertAlert s.world alert env with ⟨e, he⟩ | ⟨tbl, ht, he⟩
  · rw [perform_eq, he]
    exact moves_of_world_eq rfl rfl rfl
  · rw [perform_eq, he]
    have hmem : ∀ a, a ∈ tbl.rows ↔ a ∈ s.world.alerts.rows ∨ a = alert :=
      fun a => Table.mem_insert ht
    refine ⟨rfl, fun i c hf => ⟨c, hf, .refl c, by simp [moved], fun _ => rfl⟩,
      fun i a hf => ⟨a, ?_, .inl rfl⟩, fun h => ⟨⟨h.consistent.pending, h.consistent.completed,
        fun a ha => ?_⟩, h.checkIns, fun a ha => ?_⟩⟩
    · refine (Table.find?_insert ht i).trans ((if_neg ?_).trans hf)
      rintro rfl
      have hfresh := (Table.insert_eq_some.mp ht).1
      rw [hfresh] at hf
      cases hf
    · rcases (hmem a).mp ha with ha | rfl
      · exact h.consistent.alerts a ha
      · rw [hnew]
        exact AlertResolution.newAlert_law ..
    · rcases (hmem a).mp ha with ha | rfl
      · exact h.alerts a ha
      · exact .inr ⟨id, userID, alertType, lat, lng, createdAt, updatedAt, hraise, .inl hnew⟩

theorem moves_updateResolved (resolverID : UUID) (resolvedAt updatedAt : Time) (id : UUID)
    (env : Env) : Moves calls w s (perform t s (.updateResolved resolverID resolvedAt updatedAt id)
      env).1 [⟨t, .updateResolved resolverID resolvedAt updatedAt id,
        (s.world.exec (.updateResolved resolverID resolvedAt updatedAt id) env).2⟩] := by
  rcases SafetyStore.exec_updateResolved s.world resolverID resolvedAt updatedAt id env with
    ⟨e, he⟩ | he
  · rw [perform_eq, he]
    exact moves_of_world_eq rfl rfl rfl
  · rw [perform_eq, he]
    have hlater : ∀ a : EmergencyAlert, AlertResolution.Later a (if a.id = id ∧ a.status = .active
        then a.resolve resolverID resolvedAt updatedAt else a) := by
      intro a
      split
      · rename_i hid
        exact .inr ⟨hid.2, resolverID, resolvedAt, updatedAt, rfl⟩
      · exact .inl rfl
    have hmem : ∀ a', a' ∈ (s.world.updateResolved resolverID resolvedAt updatedAt id).alerts.rows →
        ∃ a ∈ s.world.alerts.rows, (if a.id = id ∧ a.status = .active
          then a.resolve resolverID resolvedAt updatedAt else a) = a' := by
      intro a' ha'
      rw [SafetyStore.updateResolved, Table.mem_updateWhere] at ha'
      simpa using ha'
    refine ⟨rfl, fun i c hf => ⟨c, hf, .refl c, by simp [moved], fun _ => rfl⟩,
      fun i a hf => ⟨_, ?_, hlater a⟩, fun h => ⟨⟨h.consistent.pending, h.consistent.completed,
        fun a' ha' => ?_⟩, h.checkIns, fun a' ha' => ?_⟩⟩
    · rw [SafetyStore.find?_updateResolved, hf, Table.key_of_find? hf]
      rfl
    · obtain ⟨a, ha, rfl⟩ := hmem a' ha'
      split
      · exact (h.consistent.alerts a ha).resolve resolverID resolvedAt updatedAt
      · exact h.consistent.alerts a ha
    · obtain ⟨a, ha, rfl⟩ := hmem a' ha'
      exact (h.alerts a ha).later (hlater a) fun c hc => ⟨c, hc, .refl c⟩

end Requests

end Moves

section Assertions

variable (calls : ι → Call) (w : SafetyStore)

/-- What no request makes false. -/
def Stable (P : Shared ι → Prop) : Prop := ∀ s s' es, Moves calls w s s' es → P s → P s'

/-- The table has the check-in, or what has become of it. -/
def Holding (chk : CheckIn) (s : Shared ι) : Prop :=
  ∃ chk', s.world.checkIns.find? chk.id = some chk' ∧ Later chk chk'

def HoldingAlert (a : EmergencyAlert) (s : Shared ι) : Prop :=
  ∃ a', s.world.alerts.find? a.id = some a' ∧ AlertResolution.Later a a'

/-- The check-in of the row is its user's and not cancelled. -/
def Seen (row : MissedCheckIn) (s : Shared ι) : Prop :=
  ∃ chk, s.world.checkIns.find? row.id = some chk ∧ chk.userID = row.userID ∧
    chk.status ≠ .cancelled

/-- The check-in of the row has been completed or missed. -/
def Ended (row : MissedCheckIn) (s : Shared ι) : Prop :=
  ∃ chk, s.world.checkIns.find? row.id = some chk ∧ chk.userID = row.userID ∧ Settled chk

/-- Thread `t` has raised the alert, and the table has it. -/
structure Raised (t : ι) (userID : UUID) (alertType : String) (a : EmergencyAlert)
    (s : Shared ι) : Prop where
  userID : a.userID = userID
  alertType : a.alertType = alertType
  active : a.status = .active
  performed : ⟨t, .insertAlert a, .ok ()⟩ ∈ s.history
  holding : HoldingAlert a s

variable {calls w}

theorem stable_holding (chk : CheckIn) : Stable calls w (Holding chk) := by
  rintro s s' es hm ⟨b, hb, hlater⟩
  obtain ⟨c, hc, hbc, -⟩ := hm.checkIns _ b hb
  exact ⟨c, hc, hlater.trans hbc⟩

theorem stable_holdingAlert (a : EmergencyAlert) : Stable calls w (HoldingAlert a) := by
  rintro s s' es hm ⟨b, hb, hlater⟩
  obtain ⟨c, hc, hbc⟩ := hm.alerts _ b hb
  exact ⟨c, hc, hlater.trans hbc⟩

theorem stable_seen (row : MissedCheckIn) : Stable calls w (Seen row) := by
  rintro s s' es hm ⟨b, hb, huser, hst⟩
  obtain ⟨c, hc, hbc, -⟩ := hm.checkIns _ b hb
  exact ⟨c, hc, hbc.userID_eq.trans huser, hbc.notCancelled hst⟩

theorem stable_ended (row : MissedCheckIn) : Stable calls w (Ended row) := by
  rintro s s' es hm ⟨b, hb, huser, hset⟩
  obtain ⟨c, hc, hbc, -⟩ := hm.checkIns _ b hb
  exact ⟨c, hc, hbc.userID_eq.trans huser, hbc.settled hset⟩

theorem stable_raised (t : ι) (userID : UUID) (alertType : String) (a : EmergencyAlert) :
    Stable calls w (Raised t userID alertType a) := by
  intro s s' es hm h
  refine ⟨h.userID, h.alertType, h.active, ?_, stable_holdingAlert a s s' es hm h.holding⟩
  rw [hm.history]
  exact List.mem_append_right _ h.performed

theorem stable_const (P : Prop) : Stable calls w fun _ => P := fun _ _ _ _ h => h

theorem Stable.and {P Q : Shared ι → Prop} (hP : Stable calls w P) (hQ : Stable calls w Q) :
    Stable calls w fun s => P s ∧ Q s :=
  fun s s' es hm h => ⟨hP s s' es hm h.1, hQ s s' es hm h.2⟩

theorem Stable.or {P Q : Shared ι → Prop} (hP : Stable calls w P) (hQ : Stable calls w Q) :
    Stable calls w fun s => P s ∨ Q s :=
  fun s s' es hm => Or.imp (hP s s' es hm) (hQ s s' es hm)

theorem Stable.forall_mem {β : Type} {P : β → Shared ι → Prop} (l : List β)
    (hP : ∀ b, Stable calls w (P b)) : Stable calls w fun s => ∀ b ∈ l, P b s :=
  fun s s' es hm h b hb => hP b s s' es hm (h b hb)

/-- What a call has told its caller holds of the table, and a check-in is the caller's own. -/
structure Kept (call : Call) (reply : Reply) (s : Shared ι) : Prop where
  checkIns : ∀ chk ∈ reply.toldCheckIns, Holding chk s ∧ call.userID = some chk.userID
  alerts : ∀ a ∈ reply.toldAlerts, HoldingAlert a s ∧ ∀ userID ∈ call.userID, a.userID = userID

theorem stable_kept (call : Call) (reply : Reply) : Stable calls w (Kept call reply) :=
  fun s s' es hm h =>
    ⟨fun chk hchk => ⟨stable_holding chk s s' es hm (h.checkIns chk hchk).1,
        (h.checkIns chk hchk).2⟩,
      fun a ha => ⟨stable_holdingAlert a s s' es hm (h.alerts a ha).1, (h.alerts a ha).2⟩⟩

end Assertions

section Programs

variable {calls : ι → Call} {w : SafetyStore} {t : ι} {α : Type}
  {guard : ι → Shared ι → SafetyOp → Env → Prop} {post : α → Shared ι → Prop}
  {P : Shared ι → Prop} {s : Shared ι}

abbrev contract (calls : ι → Call) (w : SafetyStore) (t : ι) (post : α → Shared ι → Prop) :
    Contract (Shared ι) α := Contract.apart (Moves calls w) t post

/-- A request under a stable assertion. -/
theorem holds_request (hP : Stable calls w P) {op : SafetyOp} {next : op.Res → Safety α}
    (hs : P s)
    (h : ∀ s env, P s → guard t s op env →
      Moves calls w s (perform t s op env).1 [⟨t, op, (s.world.exec op env).2⟩] ∧
      (P (perform t s op env).1 → Contract.Holds perform guard t (contract calls w t post)
        (next (s.world.exec op env).2) (perform t s op env).1)) :
    Contract.Holds perform guard t (contract calls w t post) (.request op next) s := by
  rintro s₁ ⟨es, hm, -⟩ env hg
  have hs₁ := hP s s₁ es hm hs
  obtain ⟨hmove, hnext⟩ := h s₁ env hs₁ hg
  exact ⟨⟨_, hmove, by simp⟩, hnext (hP _ _ _ hmove hs₁)⟩

theorem holds_readOnly (hP : Stable calls w P) {op : SafetyOp}
    (hop : SafetyStore.readOnly op = true) {next : op.Res → Safety α} (hs : P s)
    (hnext : ∀ s env, guard t s op env → P (perform t s op env).1 →
      Contract.Holds perform guard t (contract calls w t post)
        (next (s.world.exec op env).2) (perform t s op env).1) :
    Contract.Holds perform guard t (contract calls w t post) (.request op next) s :=
  holds_request hP hs fun s env _ hg => ⟨moves_readOnly t s op env hop, hnext s env hg⟩

theorem holds_done (hP : Stable calls w P) {a : α} (hs : P s) (hpost : ∀ s, P s → post a s) :
    Contract.Holds perform guard t (contract calls w t post) (.done a) s := by
  rintro s₁ ⟨es, hm, -⟩
  exact hpost s₁ (hP s s₁ es hm hs)

theorem holds_scanRows (hP : Stable calls w P) {ρ : Type} (scanning : String) (acc rows : List ρ)
    (hs : P s) : Contract.Holds perform guard t (contract calls w t fun r s =>
      P s ∧ ∀ scanned, r = .ok scanned → scanned = acc ++ rows)
      (scanRows Safety.rowsNext Safety.rowsScan scanning acc rows) s := by
  have hrequest : ∀ op, SafetyStore.readOnly op = true → ∀ s, P s →
      Contract.Holds perform guard t (contract calls w t fun _ => P) (Program.call op) s :=
    fun op hop s hs => holds_readOnly hP hop hs fun _ _ _ hs₁ => holds_done hP hs₁ fun _ h => h
  refine SafetyDao.holds_scanRows (Contract.Others.refl Moves.refl) ?_ (hrequest .rowsNext rfl)
    (hrequest .rowsScan rfl) scanning acc rows hs
  rintro s₁ s₂ ⟨es, hm, -⟩
  exact hP s₁ s₂ es hm

/-- A failed call has told its caller nothing. -/
theorem kept_nothing {call : Call} {reply : Reply} {s : Shared ι} (hchk : reply.toldCheckIns = [])
    (ha : reply.toldAlerts = []) : Kept call reply s := ⟨by simp [hchk], by simp [ha]⟩

theorem kept_checkIn_ok {call : Call} {chk : CheckIn} {s : Shared ι} (h : Holding chk s)
    (huser : call.userID = some chk.userID) : Kept call (.checkIn (.ok chk)) s := by
  refine ⟨fun chk' hchk => ?_, fun _ h => (by cases h)⟩
  rw [List.mem_singleton.mp hchk]
  exact ⟨h, huser⟩

theorem kept_alert_ok {call : Call} {a : EmergencyAlert} {s : Shared ι} (h : HoldingAlert a s)
    (huser : ∀ userID ∈ call.userID, a.userID = userID) : Kept call (.alert (.ok a)) s := by
  refine ⟨fun _ h => (by cases h), fun a' ha => ?_⟩
  rw [List.mem_singleton.mp ha]
  exact ⟨h, huser⟩

/-- A reply that is kept is what the program returns. -/
theorem holds_reply {call : Call} {reply : Reply} {s : Shared ι} (h : Kept call reply s) :
    Contract.Holds perform guard t (contract calls w t (Kept call))
      (.done reply : Safety Reply) s :=
  holds_done (stable_kept call reply) h fun _ hs => hs

theorem holds_scheduleCheckIn {userID : UUID} {input : NewCheckIn}
    (hcall : calls t = .scheduleCheckIn userID input) (svc : CheckInService) :
    Contract.Holds perform guard t (contract calls w t (Kept (calls t)))
      ((Call.scheduleCheckIn userID input).program svc) s := by
  have hP : Stable calls w (fun _ : Shared ι => True) := stable_const True
  simp only [Call.program, CheckInService.scheduleCheckIn, Program.map_eq_bind, Program.call_bind,
    Program.request_bind, Program.pure_eq]
  refine holds_readOnly hP rfl trivial fun s₁ now _ _ => ?_
  split_ifs with hpast
  · exact holds_reply (kept_nothing rfl rfl)
  · simp only [Program.request_bind]
    refine holds_readOnly hP rfl trivial fun s₂ id _ _ => ?_
    refine holds_readOnly hP rfl trivial fun s₃ createdAt _ _ => ?_
    refine holds_readOnly hP rfl trivial fun s₄ updatedAt _ _ => ?_
    simp only [SafetyStore.exec_newUUID, SafetyStore.exec_timeNow]
    refine holds_request hP trivial fun s₅ env _ _ =>
      ⟨moves_insertCheckIn t s₅ rfl rfl hcall env, fun _ => ?_⟩
    rcases SafetyStore.exec_insertCheckIn s₅.world _ env with ⟨e, he⟩ | ⟨tbl, ht, he⟩
    · rw [perform_eq, he]
      exact holds_reply (kept_nothing rfl rfl)
    · rw [perform_eq, he]
      refine holds_reply (kept_checkIn_ok ⟨_, ?_, .refl _⟩ (by rw [hcall]; rfl))
      exact (Table.find?_insert ht _).trans (if_pos rfl)

/-- Whatever has become of a check-in that is not cancelled, completing it gives the same row. -/
theorem Later.complete_eq {a b : CheckIn} (h : Later a b) (completedAt updatedAt : Time) :
    b.complete completedAt updatedAt = a.complete completedAt updatedAt := by
  rw [h.same]
  rfl

theorem holds_completeCheckIn {i userID : UUID} (hcall : calls t = .completeCheckIn i userID)
    (svc : CheckInService) :
    Contract.Holds perform guard t (contract calls w t (Kept (calls t)))
      ((Call.completeCheckIn i userID).program svc) s := by
  simp only [Call.program, CheckInService.completeCheckIn, Program.map_eq_bind, Program.call_bind,
    Program.request_bind, Program.pure_eq]
  refine holds_readOnly (stable_const True) rfl trivial fun s₁ env _ _ => ?_
  have hworld := perform_readOnly_world t s₁ (.selectCheckInForUpdate i) env rfl
  cases hr : (s₁.world.exec (.selectCheckInForUpdate i) env).2 with
  | error e => exact holds_reply (kept_nothing rfl rfl)
  | ok chk =>
    dsimp only
    split_ifs with huser hst
    · exact holds_reply (kept_nothing rfl rfl)
    · exact holds_reply (kept_nothing rfl rfl)
    · have hf := SafetyStore.exec_selectCheckInForUpdate hr
      have hpending : chk.status = .pending := by simpa using hst
      obtain rfl : chk.id = i := Table.key_of_find? hf
      have hhold : Holding chk (perform t s₁ (.selectCheckInForUpdate chk.id) env).1 :=
        ⟨chk, by rw [hworld]; exact hf, .refl chk⟩
      simp only [Program.request_bind]
      refine holds_readOnly (stable_holding chk) rfl hhold fun s₂ now _ hs₂ => ?_
      simp only [SafetyStore.exec_timeNow]
      refine holds_request (stable_holding chk) hs₂ fun s₃ env' hs₃ _ => ?_
      obtain ⟨c, hc, hlater⟩ := hs₃
      have hseen : ∀ c', s₃.world.checkIns.find? chk.id = some c' → c'.status ≠ .cancelled := by
        intro c' hc'
        rw [hc, Option.some.injEq] at hc'
        exact hc' ▸ hlater.notCancelled (by simp [hpending])
      refine ⟨moves_updateCompleted t hseen env', fun _ => ?_⟩
      rcases SafetyStore.exec_updateCompleted s₃.world now.now now.now chk.id env' with ⟨e, he⟩ | he
      · rw [perform_eq, he]
        exact holds_reply (kept_nothing rfl rfl)
      · rw [perform_eq, he]
        refine holds_reply (kept_checkIn_ok ⟨chk.complete now.now now.now, ?_, .refl _⟩ ?_)
        · rw [CheckIn.complete_id, ← hlater.complete_eq]
          simp [SafetyStore.updateCompleted, Table.find?_update, hc]
        · rw [hcall]
          exact congrArg some (not_not.mp huser).symm

theorem holds_getCheckIn {i userID : UUID} (hcall : calls t = .getCheckIn i userID)
    (svc : CheckInService) :
    Contract.Holds perform guard t (contract calls w t (Kept (calls t)))
      ((Call.getCheckIn i userID).program svc) s := by
  simp only [Call.program, CheckInService.getCheckIn, Program.map_eq_bind, Program.call_bind,
    Program.request_bind, Program.pure_eq]
  refine holds_readOnly (stable_const True) rfl trivial fun s₁ env _ _ => ?_
  have hworld := perform_readOnly_world t s₁ (.selectCheckInOfUser i userID) env rfl
  cases hr : (s₁.world.exec (.selectCheckInOfUser i userID) env).2 with
  | error e => exact holds_reply (kept_nothing rfl rfl)
  | ok chk =>
    obtain ⟨hf, huser⟩ := SafetyStore.exec_selectCheckInOfUser hr
    refine holds_reply (kept_checkIn_ok ⟨chk, ?_, .refl chk⟩ ?_)
    · rw [hworld, Table.key_of_find? hf]
      exact hf
    · rw [hcall, huser]
      rfl

theorem holds_listCheckIns {userID : UUID} {status : String}
    (hcall : calls t = .listCheckIns userID status) (svc : CheckInService) :
    Contract.Holds perform guard t (contract calls w t (Kept (calls t)))
      ((Call.listCheckIns userID status).program svc) s := by
  simp only [Call.program, CheckInService.listCheckIns, Program.map_eq_bind, Program.call_bind,
    Program.request_bind, Program.pure_eq]
  refine holds_readOnly (stable_const True) rfl trivial fun s₁ env _ _ => ?_
  have hworld := perform_readOnly_world t s₁ (.selectCheckInsOfUser userID status) env rfl
  cases hr : (s₁.world.exec (.selectCheckInsOfUser userID status) env).2 with
  | error e =>
    exact holds_reply (kept_nothing rfl rfl)
  | ok rows =>
    have hP : Stable calls w (fun s : Shared ι => ∀ chk ∈ rows,
        Holding chk s ∧ (calls t).userID = some chk.userID) :=
      Stable.forall_mem rows fun chk => (stable_holding chk).and (stable_const _)
    have hrows : ∀ chk ∈ rows, Holding chk (perform t s₁ (.selectCheckInsOfUser userID status)
        env).1 ∧ (calls t).userID = some chk.userID := by
      intro chk hchk
      rw [SafetyStore.exec_selectCheckInsOfUser hr, SafetyStore.mem_checkInsOfUser] at hchk
      refine ⟨⟨chk, ?_, .refl chk⟩, ?_⟩
      · rw [hworld]
        exact Table.find?_of_mem hchk.1
      · rw [hcall, hchk.2.1]
        rfl
    refine (holds_scanRows hP _ [] rows hrows).bind (Contract.Others.refl Moves.refl) ?_
    rintro r s₂ ⟨hs₂, hscanned⟩
    refine holds_reply ⟨fun chk hchk => ?_, fun _ h => (by cases h)⟩
    cases r with
    | error e => cases hchk
    | ok scanned =>
      obtain rfl := hscanned scanned rfl
      exact hs₂ chk hchk

theorem holds_listAlerts {userID : UUID} {status : String}
    (hcall : calls t = .listAlerts userID status) (svc : CheckInService) :
    Contract.Holds perform guard t (contract calls w t (Kept (calls t)))
      ((Call.listAlerts userID status).program svc) s := by
  simp only [Call.program, EmergencyService.listAlerts, Program.map_eq_bind, Program.call_bind,
    Program.request_bind, Program.pure_eq]
  refine holds_readOnly (stable_const True) rfl trivial fun s₁ env _ _ => ?_
  have hworld := perform_readOnly_world t s₁ (.selectAlertsOfUser userID status) env rfl
  cases hr : (s₁.world.exec (.selectAlertsOfUser userID status) env).2 with
  | error e =>
    exact holds_reply (kept_nothing rfl rfl)
  | ok rows =>
    have hP : Stable calls w (fun s : Shared ι => ∀ a ∈ rows,
        HoldingAlert a s ∧ ∀ u ∈ (calls t).userID, a.userID = u) :=
      Stable.forall_mem rows fun a => (stable_holdingAlert a).and (stable_const _)
    have hrows : ∀ a ∈ rows, HoldingAlert a (perform t s₁ (.selectAlertsOfUser userID status)
        env).1 ∧ ∀ u ∈ (calls t).userID, a.userID = u := by
      intro a ha
      rw [SafetyStore.exec_selectAlertsOfUser hr, SafetyStore.mem_alertsOfUser] at ha
      refine ⟨⟨a, ?_, .inl rfl⟩, fun u hu => ?_⟩
      · rw [hworld]
        exact Table.find?_of_mem ha.1
      · rw [hcall] at hu
        exact ha.2.1.trans (Option.mem_some_iff.mp hu)
    refine (holds_scanRows hP _ [] rows hrows).bind (Contract.Others.refl Moves.refl) ?_
    rintro r s₂ ⟨hs₂, hscanned⟩
    refine holds_reply ⟨fun _ h => (by cases h), fun a ha => ?_⟩
    cases r with
    | error e => cases ha
    | ok scanned =>
      obtain rfl := hscanned scanned rfl
      exact hs₂ a ha

theorem holds_resolveAlert {alertID resolverID : UUID}
    (hcall : calls t = .resolveAlert alertID resolverID) (svc : CheckInService) :
    Contract.Holds perform guard t (contract calls w t (Kept (calls t)))
      ((Call.resolveAlert alertID resolverID).program svc) s := by
  have hP : Stable calls w (fun _ : Shared ι => True) := stable_const True
  simp only [Call.program, EmergencyService.resolveAlert, Program.map_eq_bind, Program.call_bind,
    Program.request_bind, Program.pure_eq]
  refine holds_readOnly hP rfl trivial fun s₁ now _ _ => ?_
  refine holds_request hP trivial fun s₂ env _ _ =>
    ⟨moves_updateResolved t s₂ resolverID _ _ alertID env, fun _ => ?_⟩
  cases (s₂.world.exec (.updateResolved resolverID _ _ alertID) env).2 with
  | error e => exact holds_reply (kept_nothing rfl rfl)
  | ok _ =>
    refine holds_readOnly hP rfl trivial fun s₃ env' _ _ => ?_
    have hworld := perform_readOnly_world t s₃ (.selectAlert alertID) env' rfl
    cases hr : (s₃.world.exec (.selectAlert alertID) env').2 with
    | error e => exact holds_reply (kept_nothing rfl rfl)
    | ok a =>
      have hf := SafetyStore.exec_selectAlert hr
      refine holds_reply (kept_alert_ok ⟨a, ?_, .inl rfl⟩ fun u hu => ?_)
      · rw [hworld, Table.key_of_find? hf]
        exact hf
      · rw [hcall] at hu
        cases hu

section Alerts

variable {F : Prop}

/-- A request only fails where failures are allowed for. -/
theorem allowed_of_failed (hguard : ∀ s op env, guard t s op env →
      F ∨ ConcurrentPasses.Succeeds t s op env) {op : SafetyOp} {env : Env} (hg : guard t s op env)
    (hfailed : ConcurrentPasses.failed
      (⟨t, op, (s.world.exec op env).2⟩ : Event SafetyOp.Res ι) = true) : F := by
  refine (hguard s op env hg).resolve_right fun hok => ?_
  rw [ConcurrentPasses.Succeeds, hfailed] at hok
  cases hok

/-- An alert is raised unless its INSERT fails. -/
theorem holds_triggerAlert (hguard : ∀ s op env, guard t s op env →
      F ∨ ConcurrentPasses.Succeeds t s op env) (hP : Stable calls w P) {userID : UUID}
    {alertType : String} {lat lng : Option ℚ}
    (hraise : ∀ s, P s → MayRaise calls s.world userID alertType lat lng) (hs : P s) :
    Contract.Holds perform guard t (contract calls w t fun r s => P s ∧
        (∀ a, r = .ok a → Raised t userID alertType a s) ∧ ∀ e, r = .error e → F)
      (EmergencyService.triggerAlert userID alertType lat lng) s := by
  simp only [EmergencyService.triggerAlert, Program.call_bind, Program.pure_eq]
  refine holds_readOnly hP rfl hs fun s₁ id _ hs₁ => ?_
  refine holds_readOnly hP rfl hs₁ fun s₂ createdAt _ hs₂ => ?_
  refine holds_readOnly hP rfl hs₂ fun s₃ updatedAt _ hs₃ => ?_
  refine holds_request hP hs₃ fun s₄ env hs₄ hg =>
    ⟨moves_insertAlert t (hraise s₄ hs₄) env, fun hs₅ => ?_⟩
  simp only [SafetyStore.exec_newUUID, SafetyStore.exec_timeNow] at hg hs₅ ⊢
  set alert := EmergencyService.newAlert id.uuid userID alertType lat lng createdAt.now
    updatedAt.now with hnew
  rcases SafetyStore.exec_insertAlert s₄.world alert env with ⟨e, he⟩ | ⟨tbl, ht, he⟩
  · have hF : F := allowed_of_failed hguard hg (by rw [he]; rfl)
    rw [perform_eq, he] at hs₅ ⊢
    exact holds_done hP hs₅ fun s hs => ⟨hs, fun _ h => (by cases h), fun _ _ => hF⟩
  · rw [perform_eq, he] at hs₅ ⊢
    have hraised : Raised t userID alertType alert ⟨{ s₄.world with alerts := tbl },
        ⟨t, .insertAlert alert, .ok ()⟩ :: s₄.history⟩ :=
      ⟨rfl, rfl, rfl, List.mem_cons_self, alert,
        (Table.find?_insert ht _).trans (if_pos rfl), .inl rfl⟩
    refine holds_done (hP.and (stable_raised t userID alertType alert)) ⟨hs₅, hraised⟩ ?_
    refine fun s hs => ⟨hs.1, fun a ha => ?_, fun _ h => by cases h⟩
    rw [← Except.ok.inj ha]
    exact hs.2

theorem holds_triggerAlert_call {userID : UUID} {alertType : String} {lat lng : Option ℚ}
    (hcall : calls t = .triggerAlert userID alertType lat lng) (svc : CheckInService) :
    Contract.Holds perform guard t (contract calls w t (Kept (calls t)))
      ((Call.triggerAlert userID alertType lat lng).program svc) s := by
  refine (holds_triggerAlert (fun _ _ _ _ => .inl trivial) (stable_const True)
    (fun _ _ => .inl ⟨t, hcall⟩) trivial).bind (Contract.Others.refl Moves.refl) ?_
  rintro r s₁ ⟨-, hok, -⟩
  cases r with
  | error e => exact holds_reply (kept_nothing rfl rfl)
  | ok a =>
    have hraised := hok a rfl
    refine holds_reply (kept_alert_ok hraised.holding fun u hu => ?_)
    rw [hcall] at hu
    exact hraised.userID.trans (Option.mem_some_iff.mp hu)

/-- A pass over rows that it has seen, one of which it may be out for: by induction on the rows
still to come. What it is out for is done when the check-in is missed and the alert raised. -/
theorem holds_processRows (hcall : calls t = .processMissedCheckIns)
    (hguard : ∀ s op env, guard t s op env → F ∨ ConcurrentPasses.Succeeds t s op env)
    {svc : CheckInService} (hsvc : F ∨ svc.emergencySvc = true) (row₀ : MissedCheckIn)
    {D : Shared ι → Prop} (hD : Stable calls w D)
    (hdone : ∀ s a, Ended row₀ s → Raised t row₀.userID "safety" a s → D s)
    {rows : List MissedCheckIn} (hs : (∀ row ∈ rows, Seen row s) ∧ (F ∨ D s ∨ row₀ ∈ rows)) :
    Contract.Holds perform guard t (contract calls w t fun _ s => F ∨ D s)
      (svc.processRows rows) s := by
  have hFD : Stable calls w (fun s => F ∨ D s) := (stable_const F).or hD
  induction rows generalizing s with
  | nil => exact holds_done hFD (hs.2.imp id fun h => by simpa using h) fun _ h => h
  | cons row rest ih =>
    have hP : Stable calls w (fun s => (∀ row' ∈ row :: rest, Seen row' s) ∧
        (F ∨ D s ∨ row₀ ∈ row :: rest)) :=
      (Stable.forall_mem _ stable_seen).and ((stable_const F).or (hD.or (stable_const _)))
    -- Where a request fails, failures are allowed for, and the rest need not be out for anything.
    have hskip : ∀ s : Shared ι, (∀ row' ∈ row :: rest, Seen row' s) → F →
        (∀ row' ∈ rest, Seen row' s) ∧ (F ∨ D s ∨ row₀ ∈ rest) :=
      fun s hseen hF => ⟨fun row' h => hseen row' (List.mem_cons_of_mem _ h), .inl hF⟩
    simp only [CheckInService.processRows, Program.call_bind, Program.pure_eq]
    refine holds_readOnly hP rfl hs fun s₁ env hg hs₁ => ?_
    cases hr : (s₁.world.exec .rowsNext env).2 with
    | error e =>
      have hF : F := allowed_of_failed hguard hg (by rw [hr]; rfl)
      exact holds_done hFD (.inl hF) fun _ h => h
    | ok _ =>
    refine holds_readOnly hP rfl hs₁ fun s₂ env hg hs₂ => ?_
    cases hr : (s₂.world.exec .rowsScan env).2 with
    | error e =>
      have hF : F := allowed_of_failed hguard hg (by rw [hr]; rfl)
      exact ih (hskip _ hs₂.1 hF)
    | ok _ =>
    refine holds_readOnly hP rfl hs₂ fun s₃ now _ hs₃ => ?_
    simp only [SafetyStore.exec_timeNow]
    refine holds_request hP hs₃ fun s₄ env hs₄ hg => ?_
    obtain ⟨chk, hf, huser, hst⟩ := hs₄.1 row List.mem_cons_self
    have hseen : ∀ c, s₄.world.checkIns.find? row.id = some c → c.status ≠ .cancelled := by
      intro c hc
      rw [hf, Option.some.injEq] at hc
      exact hc ▸ hst
    refine ⟨moves_updateMissed t hseen env, fun hs₅ => ?_⟩
    rcases SafetyStore.exec_updateMissed s₄.world now.now row.id env with ⟨e, he⟩ | he
    · have hF : F := allowed_of_failed hguard hg (by rw [he]; rfl)
      rw [he]
      exact ih (hskip _ hs₅.1 hF)
    · have hended : Ended row (perform t s₄ (.updateMissed now.now row.id) env).1 := by
        refine ⟨chk.miss now.now, ?_, huser, .inr rfl⟩
        rw [perform_eq, he]
        simp [SafetyStore.updateMissed, Table.find?_update, hf]
      rw [he]
      dsimp only
      split_ifs with hon
      · have hQ := hP.and (stable_ended row)
        refine (holds_triggerAlert hguard hQ ?_ ⟨hs₅, hended⟩).bind
          (Contract.Others.refl Moves.refl) ?_
        · rintro s₆ ⟨-, chk', hf', huser', hset⟩
          exact .inr ⟨⟨t, hcall⟩, rfl, rfl, rfl, chk', Table.mem_of_find? hf', huser', hset⟩
        · rintro r s₆ ⟨⟨hs₆, hended₆⟩, hok, herr⟩
          refine ih ⟨fun row' h => hs₆.1 row' (List.mem_cons_of_mem _ h), ?_⟩
          cases r with
          | error e => exact .inl (herr e rfl)
          | ok a =>
            refine hs₆.2.imp id fun hout => ?_
            rcases hout with hD₆ | hmem
            · exact .inl hD₆
            · rcases List.mem_cons.mp hmem with rfl | hmem
              · exact .inl (hdone s₆ a hended₆ (hok a rfl))
              · exact .inr hmem
      · exact ih (hskip _ hs₅.1 (hsvc.resolve_right hon))

/-- A pass does what it is out for if that is done already or the check-in is pending when the
pass looks, and due by then. -/
theorem holds_processMissedCheckIns (hcall : calls t = .processMissedCheckIns)
    (hguard : ∀ s op env, guard t s op env → F ∨ ConcurrentPasses.Succeeds t s op env)
    {svc : CheckInService} (hsvc : F ∨ svc.emergencySvc = true) (row₀ : MissedCheckIn)
    {D : Shared ι → Prop} (hD : Stable calls w D)
    (hdone : ∀ s a, Ended row₀ s → Raised t row₀.userID "safety" a s → D s)
    (hdue : ∀ s env, guard t s .selectMissedForUpdate env → F ∨ row₀.scheduledAt < env.now)
    (hstart : ∀ s₁, Contract.Others (Moves calls w) t s s₁ → F ∨ D s₁ ∨
      ∃ chk ∈ s₁.world.checkIns.rows, chk.status = .pending ∧ chk.toMissed = row₀) :
    Contract.Holds perform guard t (contract calls w t fun _ s => F ∨ D s)
      svc.processMissedCheckIns s := by
  simp only [CheckInService.processMissedCheckIns, Program.call_bind, Program.pure_eq]
  intro s₁ hrely env hg
  have hm : Moves calls w s₁ (perform t s₁ .selectMissedForUpdate env).1
      [⟨t, .selectMissedForUpdate, (s₁.world.exec .selectMissedForUpdate env).2⟩] :=
    moves_readOnly t s₁ .selectMissedForUpdate env rfl
  have hworld := perform_readOnly_world t s₁ .selectMissedForUpdate env rfl
  refine ⟨⟨_, hm, by simp⟩, ?_⟩
  rw [perform_eq] at hm hworld ⊢
  cases hr : (s₁.world.exec .selectMissedForUpdate env).2 with
  | error e =>
    have hF : F := allowed_of_failed hguard hg (by rw [hr]; rfl)
    exact holds_done ((stable_const F).or hD) (.inl hF) fun _ h => h
  | ok rows =>
    obtain rfl := SafetyStore.exec_selectMissedForUpdate hr
    rw [hr] at hm
    refine holds_processRows hcall hguard hsvc row₀ hD hdone ⟨fun row hrow => ?_, ?_⟩
    · obtain ⟨chk, hchk, hover, rfl⟩ := SafetyStore.mem_selectMissed.mp hrow
      refine ⟨chk, ?_, rfl, by simp [hover.1]⟩
      rw [hworld]
      exact Table.find?_of_mem hchk
    · rcases hdue s₁ env hg with hF | hdue
      · exact .inl hF
      · refine (hstart s₁ hrely).imp id (Or.imp (hD _ _ _ hm) ?_)
        rintro ⟨chk, hchk, hst, rfl⟩
        exact SafetyStore.mem_selectMissed.mpr ⟨chk, hchk, ⟨hst, hdue⟩, rfl⟩

end Alerts

/-- Whatever a call does, what it has told its caller is kept. -/
theorem holds_program (svc : CheckInService) {call : Call} (hcall : calls t = call) :
    Contract.Holds perform guard t (contract calls w t (Kept (calls t))) (call.program svc) s := by
  cases call with
  | scheduleCheckIn userID input => exact holds_scheduleCheckIn hcall svc
  | completeCheckIn i userID => exact holds_completeCheckIn hcall svc
  | getCheckIn i userID => exact holds_getCheckIn hcall svc
  | listCheckIns userID status => exact holds_listCheckIns hcall svc
  | triggerAlert userID alertType lat lng => exact holds_triggerAlert_call hcall svc
  | resolveAlert alertID resolverID => exact holds_resolveAlert hcall svc
  | listAlerts userID status => exact holds_listAlerts hcall svc
  | processMissedCheckIns =>
    have hpass : Contract.Holds perform guard t (contract calls w t fun _ _ => True ∨ True)
        svc.processMissedCheckIns s :=
      holds_processMissedCheckIns hcall (fun _ _ _ _ => .inl trivial)
        (.inl trivial) ⟨0, 0, 0⟩ (stable_const True) (fun _ _ _ _ => trivial)
        (fun _ _ _ => .inl trivial) fun _ _ => .inl trivial
    exact hpass.bind (Contract.Others.refl Moves.refl) fun _ s _ =>
      holds_reply (kept_nothing rfl rfl)

end Programs

section Runs

variable [DecidableEq ι] (svc : CheckInService) (calls : ι → Call) (w : SafetyStore)

/-- The pool at the start: one program per call, nothing performed yet. -/
def start : Pool SafetyOp.Res (Shared ι) ι Reply := ⟨⟨w, []⟩, fun t => (calls t).program svc⟩

def runFrom (schedule : List (ι × Env)) : Pool SafetyOp.Res (Shared ι) ι Reply :=
  (start svc calls w).run perform schedule

/-- What the tables are after a schedule of calls. -/
structure Lifecycle (schedule : List (ι × Env)) : Prop where
  consistent : Consistent (runFrom svc calls w schedule).state.world
  checkIns : ∀ xs ys, schedule = xs ++ ys → ∀ i chk,
    (runFrom svc calls w xs).state.world.checkIns.find? i = some chk →
    ∃ chk', (runFrom svc calls w schedule).state.world.checkIns.find? i = some chk' ∧
      Later chk chk'
  alerts : ∀ xs ys, schedule = xs ++ ys → ∀ i a,
    (runFrom svc calls w xs).state.world.alerts.find? i = some a →
    ∃ a', (runFrom svc calls w schedule).state.world.alerts.find? i = some a' ∧
      AlertResolution.Later a a'
  checkIn_origin : ∀ chk ∈ (runFrom svc calls w schedule).state.world.checkIns.rows,
    CheckInOrigin calls w chk
  alert_origin : ∀ a ∈ (runFrom svc calls w schedule).state.world.alerts.rows,
    AlertOrigin calls w (runFrom svc calls w schedule).state.world a

/-- Along any run each thread keeps what it has told its caller. -/
theorem run_sound (xs : List (ι × Env)) :
    (∀ t, Contract.Holds perform (fun _ _ _ _ => True) t (contract calls w t (Kept (calls t)))
      ((runFrom svc calls w xs).threads t) (runFrom svc calls w xs).state) ∧
    ∃ es, Moves calls w (start svc calls w).state (runFrom svc calls w xs).state es :=
  Contract.run_apart Moves.refl (fun _ _ _ _ _ => Moves.trans)
    (Pool.guarded_of_forall (fun _ _ _ _ => trivial) _ xs) fun _ => holds_program svc rfl

/-- So it does from any of its points on. -/
theorem run_moves (xs ys : List (ι × Env)) : ∃ es, Moves calls w (runFrom svc calls w xs).state
    (runFrom svc calls w (xs ++ ys)).state es := by
  have hmoves := (Contract.run_apart Moves.refl (fun _ _ _ _ _ => Moves.trans)
    (Pool.guarded_of_forall (fun _ _ _ _ => trivial) _ ys) (run_sound svc calls w xs).1).2
  rwa [runFrom, runFrom, Pool.run_append]

variable {svc calls w}

omit [DecidableEq ι] in
theorem inv_start (hw : Consistent w) : Inv calls w w where
  consistent := hw
  checkIns chk hchk := .inl ⟨chk, hchk, .refl chk⟩
  alerts a ha := .inl ⟨a, ha, .inl rfl⟩

/-- Rows are never deleted. A check-in keeps its user, its time and its note, and once
completed or missed is one of the two; it has come in by its user, and an alert by its user or
for a check-in that is pending no more. -/
theorem run_lifecycle (svc : CheckInService) (calls : ι → Call) (w : SafetyStore)
    (hw : Consistent w) (schedule : List (ι × Env)) : Lifecycle svc calls w schedule := by
  obtain ⟨es, hmoves⟩ := (run_sound svc calls w schedule).2
  have hinv := hmoves.inv (inv_start hw)
  refine ⟨hinv.consistent, ?_, ?_, hinv.checkIns, hinv.alerts⟩
  · rintro xs ys rfl i chk hf
    obtain ⟨fs, hm⟩ := run_moves svc calls w xs ys
    obtain ⟨chk', hf', hlater, -⟩ := hm.checkIns i chk hf
    exact ⟨chk', hf', hlater⟩
  · rintro xs ys rfl i a hf
    obtain ⟨fs, hm⟩ := run_moves svc calls w xs ys
    exact hm.alerts i a hf

/-- What a finished call has told its caller stays true, whatever is called after it. -/
theorem run_kept (svc : CheckInService) (calls : ι → Call) (w : SafetyStore)
    (xs ys : List (ι × Env)) (t : ι) (reply : Reply)
    (ht : (runFrom svc calls w xs).threads t = .done reply) :
    Kept (calls t) reply (runFrom svc calls w (xs ++ ys)).state := by
  have hkept := ((run_sound svc calls w xs).1 t).done ht
    (Contract.Others.refl Moves.refl)
  obtain ⟨es, hm⟩ := run_moves svc calls w xs ys
  exact stable_kept (calls t) reply _ _ es hm hkept

/-- No statement of thread `t` fails, and the time at which it selects is past `due`. -/
def Attended (t : ι) (due : Time) (u : ι) (s : Shared ι) (op : SafetyOp) (env : Env) : Prop :=
  u = t → ConcurrentPasses.Succeeds u s op env ∧ (op = .selectMissedForUpdate → due < env.now)

instance (t : ι) (due : Time) (u : ι) (s : Shared ι) (op : SafetyOp) (env : Env) :
    Decidable (Attended t due u s op env) :=
  inferInstanceAs (Decidable (u = t → (_ = false) ∧ (_ → _)))

/-- The check-in is pending no more, because another thread has set its status since, or thread
`t` has raised an alert for its user. -/
structure Pursued (t : ι) (chk : CheckIn) (since : History ι) (s : Shared ι) : Prop where
  ended : Ended chk.toMissed s
  by_whom : (∃ es, s.history = es ++ since ∧ ∃ e ∈ es, e.thread ≠ t ∧ moved e = some chk.id) ∨
    ∃ a, Raised t chk.userID "safety" a s

omit [DecidableEq ι] in
theorem stable_pursued (t : ι) (chk : CheckIn) (since : History ι) :
    Stable calls w (Pursued t chk since) := by
  intro s s' es hm h
  refine ⟨stable_ended _ s s' es hm h.ended, ?_⟩
  rcases h.by_whom with ⟨fs, hfs, e, he, hne, hmoved⟩ | ⟨a, ha⟩
  · exact .inl ⟨es ++ fs, by rw [hm.history, hfs, List.append_assoc], e,
      List.mem_append_right _ he, hne, hmoved⟩
  · exact .inr ⟨a, stable_raised t chk.userID "safety" a s s' es hm ha⟩

omit [DecidableEq ι] in
/-- A pass that begins after the check-in is pending and due. -/
theorem holds_pass (w : SafetyStore) {t : ι} (hcall : calls t = .processMissedCheckIns)
    {chk : CheckIn} {s : Shared ι} (hchk : chk ∈ s.world.checkIns.rows)
    (hst : chk.status = .pending) :
    Contract.Holds perform (Attended t chk.scheduledAt) t
      (contract calls w t fun _ => Pursued t chk s.history)
      (Call.processMissedCheckIns.program ⟨true⟩) s := by
  have hpass : Contract.Holds perform (Attended t chk.scheduledAt) t
      (contract calls w t fun _ s' => False ∨ Pursued t chk s.history s')
      (CheckInService.processMissedCheckIns ⟨true⟩) s := by
    refine holds_processMissedCheckIns hcall
      (fun s op env hg => .inr (hg rfl).1) (.inr rfl) chk.toMissed (stable_pursued t chk s.history)
      (fun s' a hended hraised => ⟨hended, .inr ⟨a, hraised⟩⟩)
      (fun s' env hg => .inr ((hg rfl).2 rfl)) ?_
    rintro s₁ ⟨es, hm, hothers⟩
    obtain ⟨chk', hf, hlater, hset, hsame⟩ := hm.checkIns _ chk (Table.find?_of_mem hchk)
    by_cases hes : ∃ e ∈ es, moved e = some chk.id
    · obtain ⟨e, he, hmoved⟩ := hes
      exact .inr (.inl ⟨⟨chk', hf, hlater.userID_eq, hset ⟨e, he, hmoved⟩⟩,
        .inl ⟨es, hm.history, e, he, hothers e he, hmoved⟩⟩)
    · obtain rfl := hsame fun e he hmoved => hes ⟨e, he, hmoved⟩
      exact .inr (.inr ⟨chk', Table.mem_of_find? hf, hst, rfl⟩)
  refine hpass.bind (Contract.Others.refl Moves.refl) fun _ s' hs' => ?_
  exact holds_done (stable_pursued t chk s.history) (hs'.resolve_left id) fun _ h => h

/-- A pass none of whose statements fails settles every check-in that was pending before it
began and due when it looked: another thread has come first, or the pass has raised an alert for
the user, which is still there. -/
theorem pass_pursues (calls : ι → Call) (w : SafetyStore) (xs ys : List (ι × Env)) (t : ι)
    (hcall : calls t = .processMissedCheckIns) (hnew : ∀ slot ∈ xs, slot.1 ≠ t) (chk : CheckIn)
    (hchk : chk ∈ (runFrom ⟨true⟩ calls w xs).state.world.checkIns.rows)
    (hst : chk.status = .pending)
    (hattended : Pool.Guarded perform (Attended t chk.scheduledAt) (runFrom ⟨true⟩ calls w xs) ys)
    (reply : Reply) (hdone : (runFrom ⟨true⟩ calls w (xs ++ ys)).threads t = .done reply) :
    Pursued t chk (runFrom ⟨true⟩ calls w xs).state.history
      (runFrom ⟨true⟩ calls w (xs ++ ys)).state := by
  set pool := runFrom ⟨true⟩ calls w xs with hpool
  let post : ι → Reply → Shared ι → Prop :=
    fun u _ s => u = t → Pursued t chk pool.state.history s
  have hthread : pool.threads t = Call.processMissedCheckIns.program ⟨true⟩ := by
    rw [hpool, runFrom, Pool.threads_run_of_forall_ne _ hnew, ← hcall]
    rfl
  have hholds : ∀ u, Contract.Holds perform (Attended t chk.scheduledAt) u
      (Contract.apart (Moves calls w) u (post u)) (pool.threads u) pool.state := by
    intro u
    by_cases hu : u = t
    · subst hu
      have hpass := holds_pass w hcall hchk hst
      rw [hthread]
      exact hpass.imp fun _ _ h _ => h
    · have hother := (run_sound ⟨true⟩ calls w xs).1 u
      exact (hother.of_guard fun _ _ _ _ => trivial).imp fun _ _ _ h => absurd h hu
  have hrun : runFrom ⟨true⟩ calls w (xs ++ ys) = pool.run perform ys := by
    rw [runFrom, Pool.run_append, ← runFrom]
  rw [hrun] at hdone ⊢
  have hend := (Contract.run_apart Moves.refl (fun _ _ _ _ _ => Moves.trans) hattended hholds).1 t
  exact hend.done hdone (Contract.Others.refl Moves.refl) rfl

end Runs

/-- User 7 completes a check-in while two passes are about. -/
def lateCompletion : Fin 3 → Call
  | 0 => .processMissedCheckIns
  | 1 => .completeCheckIn 1 7
  | 2 => .processMissedCheckIns

/-- Thread `t` performs `n` requests at time 10. -/
def turns (t : Fin 3) (n : ℕ) : List (Fin 3 × Env) := List.replicate n (t, .good 10 (100 + t.val))

/-- The pass finds the check-in pending; the completion is overwritten, and yet what its user
was told is kept in the sense above. -/
theorem lateCompletion_lifecycle : Lifecycle ⟨true⟩ lateCompletion ConcurrentPasses.oneOverdue
    (turns 1 2 ++ turns 0 9 ++ turns 1 1) :=
  run_lifecycle ⟨true⟩ lateCompletion ConcurrentPasses.oneOverdue
    ⟨by decide, by decide, fun _ h => by cases h⟩ _

theorem lateCompletion_kept : ∃ reply, Kept (lateCompletion 1) reply
    (runFrom ⟨true⟩ lateCompletion ConcurrentPasses.oneOverdue
      (turns 1 3 ++ turns 0 1)).state :=
  ⟨_, run_kept ⟨true⟩ lateCompletion ConcurrentPasses.oneOverdue (turns 1 3) (turns 0 1) 1 _ rfl⟩

/-- The second pass comes upon a check-in that the first one marks while it looks. -/
theorem lateCompletion_pursued : ∃ chk since s, Pursued 2 chk since s ∧ chk.id = 1 ∧
    (runFrom ⟨true⟩ lateCompletion ConcurrentPasses.oneOverdue
      (turns 0 1 ++ (turns 2 1 ++ turns 0 8 ++ turns 2 8))).state = s := by
  refine ⟨⟨1, 7, 0, none, .pending, "home", 0, 0⟩, _, _, pass_pursues lateCompletion
    ConcurrentPasses.oneOverdue (turns 0 1) (turns 2 1 ++ turns 0 8 ++ turns 2 8) 2 rfl
    (by decide) _ (by decide) rfl (by decide) .passed rfl, rfl, rfl⟩

end SafetyDao.SafetyLifecycle
