import SafetyDao.CheckInRace
import Mathlib.Algebra.BigOperators.Group.Finset.Piecewise
import Mathlib.Algebra.Order.BigOperators.Group.Finset

/-!
# Alerts raised by concurrent monitor passes

Any number of passes, of any number of service instances, run interleaved. A row
stays locked only while the SELECT that takes it executes, so two passes may select
the same check-in, and then each marks it and raises an alert for it. Of every check-in
that a pass has marked, the pass either has raised an alert for it or is about to; so
what a run raises is counted by what it marks.
-/
namespace SafetyDao.ConcurrentPasses
open Safety (Shared History perform perform_eq perform_readOnly_world)
open CheckInRace (marked raisesAlert lastMissed alerted)

variable {ι : Type}

/-- Whether a statement of a pass has failed. -/
def failed : Event SafetyOp.Res ι → Bool
  | ⟨_, .selectMissedForUpdate, .error _⟩ => true
  | ⟨_, .rowsNext, .error _⟩ => true
  | ⟨_, .rowsScan, .error _⟩ => true
  | ⟨_, .updateMissed .., .error _⟩ => true
  | ⟨_, .insertAlert _, .error _⟩ => true
  | _ => false

/-- How often a check-in has been marked missed. -/
def marks (i : UUID) (h : History ι) : ℕ := h.countP (fun e => marked e = some i)

def StillPending (w : SafetyStore) (i : UUID) : Prop :=
  (w.checkIns.find? i).map CheckIn.status = some .pending

/-- The UPDATE that marks a check-in missed finds it pending. -/
def OnPending (t : ι) (s : Shared ι) (op : SafetyOp) (env : Env) : Prop :=
  ∀ i ∈ marked (⟨t, op, (s.world.exec op env).2⟩ : Event SafetyOp.Res ι), StillPending s.world i

instance (t : ι) (s : Shared ι) (op : SafetyOp) (env : Env) : Decidable (OnPending t s op env) :=
  inferInstanceAs (Decidable (∀ i ∈ marked _, Option.map _ _ = _))

/-- The request does not fail. -/
def Succeeds (t : ι) (s : Shared ι) (op : SafetyOp) (env : Env) : Prop :=
  failed (⟨t, op, (s.world.exec op env).2⟩ : Event SafetyOp.Res ι) = false

section Threads

variable [DecidableEq ι]

/-- The check-ins that thread `t` has marked missed, the latest first. -/
def markedBy (t : ι) (h : History ι) : List UUID :=
  h.filterMap (fun e => if e.thread = t then marked e else none)

/-- The check-ins that thread `t` has raised alerts for, the latest first. -/
def alertedBy (t : ι) : History ι → List UUID
  | [] => []
  | e :: h =>
    (if e.thread = t ∧ raisesAlert e then (lastMissed t h).toList else []) ++ alertedBy t h

/-- A pass in each thread, over a database on which nothing has run yet. -/
def start (w : SafetyStore) : Pool SafetyOp.Res (Shared ι) ι Unit :=
  ⟨⟨w, []⟩, fun _ => CheckInService.processMissedCheckIns ⟨true⟩⟩

def runFrom (w : SafetyStore) (schedule : List (ι × Env)) : Pool SafetyOp.Res (Shared ι) ι Unit :=
  (start w).run perform schedule

section Sums

variable {h : History ι} {T : Finset ι}

/-- What is marked is what the threads have marked. -/
theorem marks_eq_sum (hT : ∀ e ∈ h, e.thread ∈ T) (i : UUID) :
    marks i h = ∑ t ∈ T, (markedBy t h).count i := by
  induction h with
  | nil => simp [marks, markedBy]
  | cons e h ih =>
    have hrest := ih fun e' he' => hT e' (List.mem_cons_of_mem _ he')
    have hcons : ∀ t, (markedBy t (e :: h)).count i = (markedBy t h).count i +
        if e.thread = t then (if marked e = some i then 1 else 0) else 0 := by
      intro t
      unfold markedBy
      by_cases ht : e.thread = t
      · cases hm : marked e <;> simp [ht, hm, List.count_cons]
      · simp [ht]
    simp only [hcons, Finset.sum_add_distrib, Finset.sum_ite_eq, hT e List.mem_cons_self, if_true]
    rw [← hrest, marks, List.countP_cons]
    simp only [decide_eq_true_eq, marks]

/-- What alerts are raised for is what the threads have raised them for. -/
theorem count_alerted_eq_sum (hT : ∀ e ∈ h, e.thread ∈ T) (i : UUID) :
    (alerted h).count i = ∑ t ∈ T, (alertedBy t h).count i := by
  induction h with
  | nil => simp [alerted, alertedBy]
  | cons e h ih =>
    have hrest := ih fun e' he' => hT e' (List.mem_cons_of_mem _ he')
    have hcons : ∀ t, (alertedBy t (e :: h)).count i = (alertedBy t h).count i +
        if e.thread = t then
          (if raisesAlert e then (lastMissed e.thread h).toList else []).count i else 0 := by
      intro t
      by_cases ht : e.thread = t
      · simp [alertedBy, ht, List.count_append, Nat.add_comm]
      · simp [alertedBy, ht]
    simp only [hcons, Finset.sum_add_distrib, Finset.sum_ite_eq, hT e List.mem_cons_self, if_true]
    rw [← hrest, alerted, List.count_append, Nat.add_comm]

end Sums

end Threads

/-- How the shared state moves while the requests `es` are performed. -/
structure Moves (s s' : Shared ι) (es : History ι) : Prop where
  history : s'.history = es ++ s.history
  frame : ∀ i, (∀ e ∈ es, marked e ≠ some i) →
    s'.world.checkIns.find? i = s.world.checkIns.find? i

/-- A pass marks a check-in only after having seen it pending, and it is pending no more. -/
structure MarksSeen (s s' : Shared ι) (e : Event SafetyOp.Res ι) : Prop where
  seen : ∀ i ∈ marked e, marks i s.history = 0 → StillPending s.world i
  settles : ∀ i ∈ marked e, ¬ StillPending s'.world i

namespace Moves

theorem refl (s : Shared ι) : Moves s s [] := ⟨rfl, fun _ _ => rfl⟩

theorem trans {s₁ s₂ s₃ : Shared ι} {es fs : History ι} (h₁ : Moves s₁ s₂ es)
    (h₂ : Moves s₂ s₃ fs) : Moves s₁ s₃ (fs ++ es) where
  history := by rw [h₂.history, h₁.history, List.append_assoc]
  frame i hi := by
    rw [h₂.frame i fun e he => hi e (by simp [he]), h₁.frame i fun e he => hi e (by simp [he])]

end Moves

/-- A check-in that nobody has marked is pending. -/
def PendingUnmarked (i : UUID) (s : Shared ι) : Prop :=
  marks i s.history = 0 → StillPending s.world i

theorem PendingUnmarked.moves {i : UUID} {s s' : Shared ι} {es : History ι}
    (h : PendingUnmarked i s) (hm : Moves s s' es) : PendingUnmarked i s' := by
  intro hzero
  rw [hm.history, marks, List.countP_append, Nat.add_eq_zero_iff] at hzero
  have hes : ∀ e ∈ es, marked e ≠ some i :=
    fun e he => by simpa using List.countP_eq_zero.mp hzero.1 e he
  rw [StillPending, hm.frame i hes]
  exact h hzero.2

section Accounts

variable [DecidableEq ι]

/-- Thread `t` has raised an alert for each check-in that it has marked, save for the one
it owes an alert. -/
structure Account (t : ι) (owed : Option UUID) (s : Shared ι) : Prop where
  marked : markedBy t s.history = owed.toList ++ alertedBy t s.history
  last : ∀ i ∈ owed, lastMissed t s.history = some i

variable {t : ι} {owed : Option UUID} {s s' : Shared ι}

/-- A request that marks nothing and raises no alert. -/
theorem Account.quiet (h : Account t owed s) {e : Event SafetyOp.Res ι}
    (hh : s'.history = e :: s.history) (hm : e.thread = t → CheckInRace.marked e = none)
    (hr : e.thread = t → raisesAlert e = false) : Account t owed s' := by
  have hmarked : markedBy t s'.history = markedBy t s.history := by
    rw [hh, markedBy, List.filterMap_cons, markedBy]
    split
    · rfl
    · rename_i i hi
      have he := (Option.ite_none_right_eq_some.mp hi)
      rw [hm he.1] at he
      cases he.2
  have halerted : alertedBy t s'.history = alertedBy t s.history := by
    rw [hh, alertedBy, if_neg, List.nil_append]
    rintro ⟨ht, hraises⟩
    rw [hr ht] at hraises
    cases hraises
  have hlast : lastMissed t s'.history = lastMissed t s.history := by
    rw [hh, lastMissed, if_neg]
    rintro ⟨ht, hsome⟩
    rw [hm ht] at hsome
    cases hsome
  refine ⟨?_, ?_⟩
  · rw [hmarked, halerted]
    exact h.marked
  · rw [hlast]
    exact h.last

/-- The requests of the other threads. -/
theorem Account.others (h : Account t owed s) {es : History ι} (hh : s'.history = es ++ s.history)
    (hes : ∀ e ∈ es, e.thread ≠ t) : Account t owed s' := by
  induction es generalizing s' with
  | nil => exact ⟨by rw [hh]; exact h.marked, by rw [hh]; exact h.last⟩
  | cons e es ih =>
    have hne := hes e List.mem_cons_self
    have hrest : Account t owed ⟨s'.world, es ++ s.history⟩ :=
      ih rfl fun e' he' => hes e' (List.mem_cons_of_mem _ he')
    exact hrest.quiet hh (fun ht => absurd ht hne) (fun ht => absurd ht hne)

/-- Marking a check-in leaves an alert owed. -/
theorem Account.mark (h : Account t none s) {e : Event SafetyOp.Res ι} {i : UUID}
    (hh : s'.history = e :: s.history) (ht : e.thread = t) (hm : CheckInRace.marked e = some i)
    (hr : raisesAlert e = false) : Account t (some i) s' where
  marked := by
    have hmarked := h.marked
    rw [hh, alertedBy, if_neg (by simp [hr])]
    simp only [markedBy, List.filterMap_cons, ht, if_true, hm, Option.toList_some] at hmarked ⊢
    rw [hmarked]
    rfl
  last j hj := by
    rw [Option.mem_some_iff] at hj
    rw [hh, lastMissed, if_pos ⟨ht, by simp [hm]⟩, hm, hj]

/-- The INSERT of the alert settles the account. -/
theorem Account.alert {i : UUID} (h : Account t (some i) s) {e : Event SafetyOp.Res ι}
    (hh : s'.history = e :: s.history) (ht : e.thread = t) (hm : CheckInRace.marked e = none)
    (hr : raisesAlert e = true) : Account t none s' where
  marked := by
    have hcons : markedBy t (e :: s.history) = markedBy t s.history := by simp [markedBy, ht, hm]
    rw [hh, alertedBy, if_pos ⟨ht, hr⟩, h.last i rfl, hcons, h.marked]
    rfl
  last _ hj := by cases hj

end Accounts

section Contracts

def Rely (t : ι) : Shared ι → Shared ι → Prop := Contract.Others Moves t

def Guar [DecidableEq ι] (t : ι) (s s' : Shared ι) : Prop :=
  ∃ e, Moves s s' [e] ∧ e.thread = t ∧ MarksSeen s s' e ∧ ∃ owed, Account t owed s'

def contract [DecidableEq ι] {α : Type} (t : ι) (post : α → Shared ι → Prop) :
    Contract (Shared ι) α := ⟨Rely t, Guar t, post⟩

theorem Rely.refl (t : ι) (s : Shared ι) : Rely t s s := Contract.Others.refl Moves.refl s

theorem Rely.trans {t : ι} {s₁ s₂ s₃ : Shared ι} (h₁ : Rely t s₁ s₂) (h₂ : Rely t s₂ s₃) :
    Rely t s₁ s₃ := Contract.Others.trans (fun _ _ _ _ _ hm₁ hm₂ => hm₁.trans hm₂) h₁ h₂

theorem contracts_compatible [DecidableEq ι] {α : Type} (post : ι → α → Shared ι → Prop) :
    Contract.Compatible (fun t => contract t (post t)) where
  refl t s := Rely.refl t s
  trans t _ _ _ h₁ h₂ := Rely.trans h₁ h₂
  guar_rely t u htu s s' h := by
    obtain ⟨e, hm, he, -, -⟩ := h
    refine ⟨[e], hm, fun e' he' => ?_⟩
    rw [List.mem_singleton.mp he', he]
    exact htu

theorem moves_readOnly (t : ι) (s : Shared ι) (op : SafetyOp) (env : Env)
    (h : SafetyStore.readOnly op = true) :
    Moves s (perform t s op env).1 [⟨t, op, (s.world.exec op env).2⟩] :=
  ⟨rfl, fun i _ => by rw [perform_readOnly_world t s op env h]⟩

theorem marksSeen_of_unmarked {s s' : Shared ι} {e : Event SafetyOp.Res ι}
    (hmark : marked e = none) : MarksSeen s s' e := ⟨by simp [hmark], by simp [hmark]⟩

variable [DecidableEq ι]

/-- What thread `t` knows between two requests: its account, and of the rows it still has to
go through that they are pending if unmarked. -/
structure Knows (t : ι) (owed : Option UUID) (rows : List MissedCheckIn) (s : Shared ι) :
    Prop where
  account : Account t owed s
  rows : ∀ row ∈ rows, PendingUnmarked row.id s

variable {α : Type} {t : ι} {post : α → Shared ι → Prop} {owed : Option UUID}
  {rows : List MissedCheckIn} {s s' : Shared ι}

theorem Knows.rely (h : Knows t owed rows s) (hrely : Rely t s s') : Knows t owed rows s' := by
  obtain ⟨es, hm, he⟩ := hrely
  exact ⟨h.account.others hm.history he, fun row hmem => (h.rows row hmem).moves hm⟩

theorem Knows.tail {row : MissedCheckIn} (h : Knows t owed (row :: rows) s) :
    Knows t owed rows s := ⟨h.account, fun row' hmem => h.rows row' (List.mem_cons_of_mem _ hmem)⟩

/-- A request that only reads carries what is known over to its continuation. -/
theorem holds_readOnly {op : SafetyOp} (hop : SafetyStore.readOnly op = true)
    {next : op.Res → Safety α} (hs : Knows t owed rows s)
    (hnext : ∀ r s', Knows t owed rows s' →
      Contract.Holds perform Succeeds t (contract t post) (next r) s') :
    Contract.Holds perform Succeeds t (contract t post) (.request op next) s := by
  intro s₁ hrely env _
  have hs₁ := hs.rely hrely
  have hm := moves_readOnly t s₁ op env hop
  have hmark : marked (⟨t, op, (s₁.world.exec op env).2⟩ : Event SafetyOp.Res ι) = none := by
    cases op <;> first | rfl | cases hop
  have hraise : raisesAlert (⟨t, op, (s₁.world.exec op env).2⟩ : Event SafetyOp.Res ι) = false := by
    cases op <;> first | rfl | cases hop
  have haccount : Account t owed (perform t s₁ op env).1 :=
    hs₁.account.quiet rfl (fun _ => hmark) (fun _ => hraise)
  exact ⟨⟨_, hm, rfl, marksSeen_of_unmarked hmark, owed, haccount⟩,
    hnext _ _ ⟨haccount, fun row hmem => (hs₁.rows row hmem).moves hm⟩⟩

theorem holds_done {a : α} (hs : Knows t owed rows s)
    (hpost : ∀ s, Knows t owed rows s → post a s) :
    Contract.Holds perform Succeeds t (contract t post) (.done a) s :=
  fun _ hrely => hpost _ (hs.rely hrely)

/-- The alert that is owed is raised. -/
theorem holds_triggerAlert {i : UUID} (hs : Knows t (some i) rows s) (userID : UUID) :
    Contract.Holds perform Succeeds t (contract t (fun _ => Knows t none rows))
      (EmergencyService.triggerAlert userID "safety" none none) s := by
  simp only [EmergencyService.triggerAlert, Program.call_bind, Program.pure_eq]
  refine holds_readOnly rfl hs fun id s₁ hs₁ => ?_
  refine holds_readOnly rfl hs₁ fun createdAt s₂ hs₂ => ?_
  refine holds_readOnly rfl hs₂ fun updatedAt s₃ hs₃ => ?_
  intro s₄ hrely env hok
  have hs₄ := hs₃.rely hrely
  rcases SafetyStore.exec_insertAlert s₄.world (EmergencyService.newAlert id userID "safety" none
    none createdAt updatedAt) env with ⟨e, he⟩ | ⟨tbl, -, he⟩
  · rw [Succeeds, he] at hok
    cases hok
  · rw [perform_eq, he]
    have hm : Moves s₄ ⟨{ s₄.world with alerts := tbl }, ⟨t, .insertAlert (EmergencyService.newAlert
        id userID "safety" none none createdAt updatedAt), .ok ()⟩ :: s₄.history⟩ [⟨t, .insertAlert
        (EmergencyService.newAlert id userID "safety" none none createdAt updatedAt), .ok ()⟩] :=
      ⟨rfl, fun _ _ => rfl⟩
    have hknows : Knows t none rows ⟨{ s₄.world with alerts := tbl }, ⟨t, .insertAlert
        (EmergencyService.newAlert id userID "safety" none none createdAt updatedAt), .ok ()⟩ ::
        s₄.history⟩ :=
      ⟨hs₄.account.alert rfl rfl rfl rfl, fun row hmem => (hs₄.rows row hmem).moves hm⟩
    exact ⟨⟨_, hm, rfl, marksSeen_of_unmarked rfl, none, hknows.account⟩,
      holds_done hknows fun _ h => h⟩

/-- One pass over selected rows: by induction on the rows still to come. -/
theorem holds_processRows (hs : Knows t none rows s) :
    Contract.Holds perform Succeeds t (contract t (fun _ => Account t none))
      (CheckInService.processRows ⟨true⟩ rows) s := by
  induction rows generalizing s with
  | nil => exact holds_done hs fun _ h => h.account
  | cons row rest ih =>
    simp only [CheckInService.processRows, Program.call_bind, Program.pure_eq]
    refine holds_readOnly rfl hs fun r s₁ hs₁ => ?_
    cases r with
    | error e => exact holds_done hs₁ fun _ h => h.account
    | ok _ =>
    refine holds_readOnly rfl hs₁ fun r s₂ hs₂ => ?_
    cases r with
    | error e => exact ih hs₂.tail
    | ok _ =>
    refine holds_readOnly rfl hs₂ fun now s₃ hs₃ => ?_
    intro s₄ hrely env hok
    have hs₄ := hs₃.rely hrely
    rcases SafetyStore.exec_updateMissed s₄.world now row.id env with ⟨e, he⟩ | hupdate
    · rw [Succeeds, he] at hok
      cases hok
    · rw [perform_eq, hupdate]
      have hm : Moves s₄ ⟨s₄.world.updateMissed now row.id,
          ⟨t, .updateMissed now row.id, .ok ()⟩ :: s₄.history⟩
          [⟨t, .updateMissed now row.id, .ok ()⟩] := by
        refine ⟨rfl, fun i hi => ?_⟩
        have hne : i ≠ row.id := by
          rintro rfl
          exact hi _ List.mem_cons_self rfl
        simp only [SafetyStore.updateMissed, Table.find?_update, if_neg hne]
      have hknows : Knows t (some row.id) rest ⟨s₄.world.updateMissed now row.id,
          ⟨t, .updateMissed now row.id, .ok ()⟩ :: s₄.history⟩ :=
        ⟨hs₄.account.mark rfl rfl rfl rfl, fun row' hmem => (hs₄.tail.rows row' hmem).moves hm⟩
      refine ⟨⟨_, hm, rfl, ⟨?_, ?_⟩, _, hknows.account⟩, ?_⟩
      · rintro i hi hzero
        cases hi
        exact hs₄.rows row List.mem_cons_self hzero
      · rintro i hi
        cases hi
        simp only [StillPending, SafetyStore.updateMissed, Table.find?_update, if_true,
          Option.map_map, Option.map_eq_some_iff, Function.comp_apply, CheckIn.miss_status]
        rintro ⟨chk, -, hmissed⟩
        cases hmissed
      · exact (holds_triggerAlert hknows row.userID).bind (Rely.refl t) fun _ s h => ih h

theorem holds_processMissedCheckIns (hs : Account t none s) :
    Contract.Holds perform Succeeds t (contract t (fun _ => Account t none))
      (CheckInService.processMissedCheckIns ⟨true⟩) s := by
  simp only [CheckInService.processMissedCheckIns, Program.call_bind, Program.pure_eq]
  intro s₁ hrely env hok
  have hs₁ : Knows t none [] s₁ := (Knows.mk hs (by simp)).rely hrely
  have hm := moves_readOnly t s₁ .selectMissedForUpdate env rfl
  have hworld := perform_readOnly_world t s₁ .selectMissedForUpdate env rfl
  have haccount : Account t none (perform t s₁ .selectMissedForUpdate env).1 :=
    hs₁.account.quiet rfl (fun _ => rfl) (fun _ => rfl)
  refine ⟨⟨_, hm, rfl, marksSeen_of_unmarked rfl, none, haccount⟩, ?_⟩
  cases hr : (perform t s₁ .selectMissedForUpdate env).2 with
  | error e => exact holds_done ⟨haccount, by simp⟩ fun _ (h : Knows t none [] _) => h.account
  | ok selected =>
    refine holds_processRows ⟨haccount, fun row hmem _ => ?_⟩
    rw [SafetyStore.exec_selectMissedForUpdate hr, SafetyStore.mem_selectMissed] at hmem
    obtain ⟨chk, hchk, hover, rfl⟩ := hmem
    rw [StillPending, hworld, CheckIn.toMissed, Table.find?_of_mem hchk]
    exact congrArg some hover.1

end Contracts

section Runs

variable [DecidableEq ι] {w : SafetyStore}

/-- Every thread meets its contract. -/
def Sound (pool : Pool SafetyOp.Res (Shared ι) ι Unit) : Prop :=
  ∀ t, Contract.Holds perform Succeeds t (contract t (fun _ => Account t none)) (pool.threads t)
    pool.state

theorem sound_start (w : SafetyStore) : Sound (start w : Pool SafetyOp.Res (Shared ι) ι Unit) :=
  fun _ => holds_processMissedCheckIns ⟨rfl, by simp⟩

/-- A step of a sound pool whose request does not fail: nothing happens, or a thread
moves along its guarantee. -/
theorem Sound.step {pool : Pool SafetyOp.Res (Shared ι) ι Unit} (h : Sound pool)
    {slot : ι × Env} (hok : pool.Admits Succeeds slot) :
    Sound (pool.step perform slot) ∧ (pool.step perform slot = pool ∨
      Guar slot.1 pool.state (pool.step perform slot).state) :=
  Contract.step_sound (contracts_compatible fun t _ => Account t none) hok h

/-- No check-in has been marked twice, and none that is marked is pending. -/
structure MarkedOnce (s : Shared ι) : Prop where
  marks_le : ∀ i, marks i s.history ≤ 1
  settled : ∀ i, marks i s.history ≠ 0 → ¬ StillPending s.world i

omit [DecidableEq ι] in
theorem marks_cons (i : UUID) (e : Event SafetyOp.Res ι) (h : History ι) :
    marks i (e :: h) = marks i h + if marked e = some i then 1 else 0 := by
  simp [marks, List.countP_cons]

omit [DecidableEq ι] in
/-- Marking check-ins that are pending marks none of them again. -/
theorem MarkedOnce.move {s s' : Shared ι} {e : Event SafetyOp.Res ι} (h : MarkedOnce s)
    (hm : Moves s s' [e]) (hseen : MarksSeen s s' e)
    (hpending : ∀ i ∈ marked e, StillPending s.world i) : MarkedOnce s' := by
  have hhist : s'.history = e :: s.history := hm.history
  refine ⟨fun i => ?_, fun i hi => ?_⟩
  · rw [hhist, marks_cons]
    split
    · rename_i hmark
      have hzero : marks i s.history = 0 := by
        by_contra hne
        exact h.settled i hne (hpending i hmark)
      omega
    · exact h.marks_le i
  · rw [hhist, marks_cons] at hi
    by_cases hmark : marked e = some i
    · exact hseen.settles i hmark
    · rw [if_neg hmark, Nat.add_zero] at hi
      rw [StillPending, hm.frame i (by simpa using hmark)]
      exact h.settled i hi

/-- Along a run whose UPDATEs find their check-ins pending, nothing is marked twice. -/
theorem run_markedOnce {pool : Pool SafetyOp.Res (Shared ι) ι Unit} {xs : List (ι × Env)}
    (hsound : Sound pool) (hok : pool.Guarded perform Succeeds xs)
    (hpending : pool.Guarded perform OnPending xs) (h : MarkedOnce pool.state) :
    MarkedOnce (pool.run perform xs).state := by
  induction xs generalizing pool with
  | nil => exact h
  | cons slot xs ih =>
    obtain ⟨hnext, hmove⟩ := hsound.step hok.1
    refine ih hnext hok.2 hpending.2 ?_
    rcases hmove with hsame | ⟨e, hm, -, hseen, -⟩
    · rw [hsame]
      exact h
    · refine h.move hm hseen ?_
      have hadm := hpending.1
      unfold Pool.Admits at hadm
      have hhist : (pool.step perform slot).state.history = e :: pool.state.history := hm.history
      cases hp : pool.threads slot.1 with
      | done a => simp [Pool.step, hp] at hhist
      | request op next =>
        simp only [Pool.step, hp, perform_eq, List.cons.injEq, and_true] at hhist
        rw [hp] at hadm
        rw [← hhist]
        exact hadm

/-- In a run that marks nothing twice, every UPDATE finds its check-in pending. -/
theorem onPending_of_marks_le {pool : Pool SafetyOp.Res (Shared ι) ι Unit} {xs : List (ι × Env)}
    (hsound : Sound pool) (hok : pool.Guarded perform Succeeds xs)
    (hmarks : ∀ i, marks i (pool.run perform xs).state.history ≤ 1) :
    pool.Guarded perform OnPending xs := by
  induction xs generalizing pool with
  | nil => trivial
  | cons slot xs ih =>
    obtain ⟨hnext, hmove⟩ := hsound.step hok.1
    refine ⟨?_, ih hnext hok.2 hmarks⟩
    unfold Pool.Admits
    split
    · trivial
    · rename_i op next hp
      have hhist : (pool.step perform slot).state.history =
          ⟨slot.1, op, (pool.state.world.exec op slot.2).2⟩ :: pool.state.history := by
        simp [Pool.step, hp, perform_eq]
      rcases hmove with hsame | ⟨e, hm, -, hseen, -⟩
      · rw [hsame] at hhist
        exact absurd (congrArg List.length hhist) (by simp)
      · have he : e = ⟨slot.1, op, (pool.state.world.exec op slot.2).2⟩ := by
          have hhist' := hm.history
          rw [hhist] at hhist'
          exact (List.cons.inj hhist').1.symm
        intro i hi
        have hmark : marked (⟨slot.1, op, (pool.state.world.exec op slot.2).2⟩ :
          Event SafetyOp.Res ι) = some i := hi
        refine hseen.seen i (he ▸ hi) ?_
        obtain ⟨es, hes⟩ := Pool.run_history SafetyStore.exec (pool.step perform slot) xs
        have hle := hmarks i
        rw [Pool.run, show (pool.step perform slot).run perform xs =
          (pool.step perform slot).run (Recorded.perform SafetyStore.exec) xs from rfl, hes, hhist,
          marks, List.countP_append, ← marks, ← marks, marks_cons,
          if_pos hmark] at hle
        omega

/-- Along a run every thread keeps its account. -/
theorem run_accounts {pool : Pool SafetyOp.Res (Shared ι) ι Unit} {xs : List (ι × Env)}
    (hsound : Sound pool) (hok : pool.Guarded perform Succeeds xs)
    (h : ∀ t, ∃ owed, Account t owed pool.state) :
    Sound (pool.run perform xs) ∧ ∀ t, ∃ owed, Account t owed (pool.run perform xs).state := by
  induction xs generalizing pool with
  | nil => exact ⟨hsound, h⟩
  | cons slot xs ih =>
    obtain ⟨hnext, hmove⟩ := hsound.step hok.1
    refine ih hnext hok.2 fun t => ?_
    rcases hmove with hsame | ⟨e, hm, he, -, howed⟩
    · rw [hsame]
      exact h t
    · by_cases ht : slot.1 = t
      · exact ht ▸ howed
      · obtain ⟨owed, haccount⟩ := h t
        exact ⟨owed, haccount.others hm.history (by simpa [he] using ht)⟩

/-- Alerts are raised for what is marked, and for all of it once no pass is under way. -/
theorem count_alerted_le {s : Shared ι} (h : ∀ t, ∃ owed, Account t owed s) (i : UUID) :
    (alerted s.history).count i ≤ marks i s.history := by
  have hT : ∀ e ∈ s.history, e.thread ∈ (s.history.map Event.thread).toFinset :=
    fun e he => List.mem_toFinset.mpr (List.mem_map_of_mem he)
  rw [marks_eq_sum hT, count_alerted_eq_sum hT]
  refine Finset.sum_le_sum fun t _ => ?_
  obtain ⟨owed, haccount⟩ := h t
  rw [haccount.marked, List.count_append]
  exact Nat.le_add_left _ _

theorem count_alerted_eq {s : Shared ι} (h : ∀ e ∈ s.history, Account e.thread none s) (i : UUID) :
    (alerted s.history).count i = marks i s.history := by
  have hT : ∀ e ∈ s.history, e.thread ∈ (s.history.map Event.thread).toFinset :=
    fun e he => List.mem_toFinset.mpr (List.mem_map_of_mem he)
  rw [marks_eq_sum hT, count_alerted_eq_sum hT]
  refine Finset.sum_congr rfl fun t ht => ?_
  obtain ⟨e, he, rfl⟩ := List.mem_map.mp (List.mem_toFinset.mp ht)
  rw [(h e he).marked]
  rfl

/-- Every check-in has had at most one alert raised for it. -/
def OneAlertEach (s : Shared ι) : Prop := ∀ i, (alerted s.history).count i ≤ 1

/-- Every pass that has begun has come to its end. -/
def NoneUnderWay (pool : Pool SafetyOp.Res (Shared ι) ι Unit) : Prop :=
  ∀ e ∈ pool.state.history, pool.threads e.thread = .done ()

/-- A run in which no statement fails and every UPDATE finds its check-in pending raises at
most one alert for each check-in; once no pass is under way, only such runs do. -/
theorem oneAlertEach_iff_onPending (w : SafetyStore) (schedule : List (ι × Env))
    (hok : ∀ e ∈ (runFrom w schedule).state.history, failed e = false) :
    (Pool.Guarded perform OnPending (start w) schedule →
      OneAlertEach (runFrom w schedule).state) ∧
    (NoneUnderWay (runFrom w schedule) → OneAlertEach (runFrom w schedule).state →
      Pool.Guarded perform OnPending (start w) schedule) := by
  have hsucceeds : Pool.Guarded perform Succeeds (start w) schedule :=
    Pool.guarded_of_history SafetyStore.exec hok
  obtain ⟨hsound, haccounts⟩ : Sound (runFrom w schedule) ∧
      ∀ t, ∃ owed, Account t owed (runFrom w schedule).state :=
    run_accounts (sound_start w) hsucceeds fun t => ⟨none, rfl, by simp⟩
  constructor
  · intro hpending i
    have honce := run_markedOnce (sound_start w) hsucceeds hpending
      ⟨fun _ => Nat.zero_le _, fun _ h => absurd rfl h⟩
    exact (count_alerted_le haccounts i).trans (honce.marks_le i)
  · intro hended hone
    refine onPending_of_marks_le (sound_start w) hsucceeds fun i => ?_
    rw [← count_alerted_eq]
    · exact hone i
    · intro e he
      exact (hsound e.thread).done (hended e he) (Rely.refl _)

end Runs

/-- A check-in of user 7, due at 0. -/
def oneOverdue : SafetyStore where
  checkIns := ⟨[⟨1, 7, 0, none, .pending, "home", 0, 0⟩], by decide⟩
  alerts := .empty

/-- `n` requests in a row of one of two passes, at time 10; the identifiers they draw differ. -/
def turns (t : Bool) (n : ℕ) : List (Bool × Env) :=
  List.replicate n (t, .good 10 (if t then 100 else 101))

/-- One pass runs after the other, and the second one finds nothing. -/
theorem oneAlertEach_in_turn :
    OneAlertEach (runFrom oneOverdue (turns true 9 ++ turns false 1)).state :=
  (oneAlertEach_iff_onPending oneOverdue (turns true 9 ++ turns false 1) (by decide)).1 (by decide)

/-- Both passes select the check-in before either marks it. -/
theorem alert_raised_twice :
    ¬ ∀ (ι : Type) [DecidableEq ι] (w : SafetyStore) (schedule : List (ι × Env)),
      (∀ e ∈ (runFrom w schedule).state.history, failed e = false) →
      OneAlertEach (runFrom w schedule).state := by
  intro h
  have hle := h Bool oneOverdue (turns true 1 ++ turns false 1 ++ turns true 8 ++ turns false 8)
    (by decide) 1
  revert hle
  decide

end SafetyDao.ConcurrentPasses
