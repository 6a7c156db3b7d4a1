import SafetyDao.CheckInService

/-!
# Concurrent completions and monitor passes

Any number of `completeCheckIn` calls and monitor passes run interleaved, request
by request. Both read the status of a check-in in one statement and write it in a
later one that only names the identifier. A run is fresh when no status write acts
on a read that another write has overtaken; fresh runs move every check-in out of
`pending` at most once, and the module ends with a run that is not fresh.
-/
namespace SafetyDao.CheckInRace
open Safety (Shared History perform perform_eq perform_readOnly_world)

inductive Call where
  | complete (checkInID userID : UUID)
  | monitorPass

inductive Reply where
  | complete (r : Except String CheckIn)
  | monitorPass

def Call.program (s : CheckInService) : Call → Safety Reply
  | .complete checkInID userID => Reply.complete <$> CheckInService.completeCheckIn checkInID userID
  | .monitorPass => (fun _ => Reply.monitorPass) <$> s.processMissedCheckIns

variable {ι : Type}

/-- The check-in whose status a request has set. -/
def moved : Event SafetyOp.Res ι → Option UUID
  | ⟨_, .updateCompleted _ _ id, .ok _⟩ => some id
  | ⟨_, .updateMissed _ id, .ok _⟩ => some id
  | _ => none

/-- How often the status of a check-in has been set. -/
def moves (i : UUID) (h : History ι) : ℕ := h.countP (fun e => moved e = some i)

/-- Whether a request is the SELECT with which a call or a pass reads check-ins. -/
def isRead : SafetyOp → Bool
  | .selectCheckInForUpdate _ => true
  | .selectMissedForUpdate => true
  | _ => false

/-- The check-in that a monitor pass has marked missed. -/
def marked : Event SafetyOp.Res ι → Option UUID
  | ⟨_, .updateMissed _ id, .ok _⟩ => some id
  | _ => none

def raisesAlert : Event SafetyOp.Res ι → Bool
  | ⟨_, .insertAlert _, .ok _⟩ => true
  | _ => false

section Threads

variable [DecidableEq ι]

/-- No status of check-in `i` was set since thread `t` last read check-ins. -/
def undisturbed (t : ι) (i : UUID) : History ι → Bool
  | [] => true
  | e :: h => (e.thread = t ∧ isRead e.op) || (moved e ≠ some i && undisturbed t i h)

/-- The check-in that thread `t` has marked missed last. -/
def lastMissed (t : ι) : History ι → Option UUID
  | [] => none
  | e :: h => if e.thread = t ∧ (marked e).isSome then marked e else lastMissed t h

/-- The check-ins that safety alerts were raised for: a pass inserts an alert for
the check-in it has just marked. -/
def alerted : History ι → List UUID
  | [] => []
  | e :: h => (if raisesAlert e then (lastMissed e.thread h).toList else []) ++ alerted h

/-- A status write may only act on a read that no other status write of the same
check-in has overtaken. -/
def FreshWrite (t : ι) (s : Shared ι) (op : SafetyOp) (env : Env) : Prop :=
  ∀ i ∈ moved (⟨t, op, (s.world.exec op env).2⟩ : Event SafetyOp.Res ι),
    undisturbed t i s.history = true

instance (t : ι) (s : Shared ι) (op : SafetyOp) (env : Env) : Decidable (FreshWrite t s op env) :=
  inferInstanceAs (Decidable (∀ i ∈ moved _, _))

/-- The pool at the start: one program per call, nothing performed yet. -/
def start (s : CheckInService) (calls : ι → Call) (w : SafetyStore) :
    Pool SafetyOp.Res (Shared ι) ι Reply :=
  ⟨⟨w, []⟩, fun t => (calls t).program s⟩

def runFrom (s : CheckInService) (calls : ι → Call) (w : SafetyStore)
    (schedule : List (ι × Env)) : Pool SafetyOp.Res (Shared ι) ι Reply :=
  (start s calls w).run perform schedule

end Threads

/-- `completed_at` is set exactly on the completed rows. -/
def CompletedAtExact (w : SafetyStore) : Prop :=
  ∀ chk ∈ w.checkIns.rows, chk.completedAt.isSome ↔ chk.status = .completed

def Settled (chk : CheckIn) : Prop := chk.status = .completed ∨ chk.status = .missed

section Steps

variable [DecidableEq ι]

/-- What holds of the tables and the requests performed on them in a fresh run. -/
structure Inv (s : Shared ι) : Prop where
  exact : CompletedAtExact s.world
  moves_le : ∀ i, moves i s.history ≤ 1
  pending : ∀ chk ∈ s.world.checkIns.rows, chk.status = .pending → moves chk.id s.history = 0
  alerted : ∀ i ∈ alerted s.history, ∀ chk, s.world.checkIns.find? i = some chk →
    chk.status = .missed

/-- How the shared state moves while the requests `es` are performed. -/
structure Moves (s s' : Shared ι) (es : History ι) : Prop where
  history : s'.history = es ++ s.history
  frame : ∀ i, (∀ e ∈ es, moved e ≠ some i) →
    s'.world.checkIns.find? i = s.world.checkIns.find? i
  settled : ∀ i chk, s.world.checkIns.find? i = some chk → Settled chk →
    ∃ chk', s'.world.checkIns.find? i = some chk' ∧ chk'.status = chk.status ∧
      chk'.completedAt = chk.completedAt
  inv : Inv s → Inv s'

/-- If check-in `i` was not disturbed since thread `t` read it, it is pending. -/
def PendingFor (t : ι) (i : UUID) (s : Shared ι) : Prop :=
  undisturbed t i s.history = true →
    ∃ chk, s.world.checkIns.find? i = some chk ∧ chk.status = .pending

namespace Moves

theorem refl (s : Shared ι) : Moves s s [] :=
  ⟨rfl, fun _ _ => rfl, fun _ chk h _ => ⟨chk, h, rfl, rfl⟩, id⟩

theorem trans {s₁ s₂ s₃ : Shared ι} {es fs : History ι} (h₁ : Moves s₁ s₂ es)
    (h₂ : Moves s₂ s₃ fs) : Moves s₁ s₃ (fs ++ es) where
  history := by rw [h₂.history, h₁.history, List.append_assoc]
  frame i hi := by
    rw [h₂.frame i fun e he => hi e (by simp [he]), h₁.frame i fun e he => hi e (by simp [he])]
  settled i chk hf hs := by
    obtain ⟨c₁, hf₁, hst₁, hat₁⟩ := h₁.settled i chk hf hs
    obtain ⟨c₂, hf₂, hst₂, hat₂⟩ := h₂.settled i c₁ hf₁ (by unfold Settled at *; rwa [hst₁])
    exact ⟨c₂, hf₂, hst₂.trans hst₁, hat₂.trans hat₁⟩
  inv h := h₂.inv (h₁.inv h)

end Moves

/-- A thread's own reads aside, being pending unless disturbed survives every move. -/
theorem PendingFor.moves {t : ι} {i : UUID} {s s' : Shared ι} {es : History ι}
    (h : PendingFor t i s) (hm : Moves s s' es)
    (hes : ∀ e ∈ es, ¬ (e.thread = t ∧ isRead e.op = true)) : PendingFor t i s' := by
  intro hu
  rw [hm.history] at hu
  have hsplit : ∀ l : History ι, (∀ e ∈ l, ¬ (e.thread = t ∧ isRead e.op = true)) →
      undisturbed t i (l ++ s.history) = true →
        (∀ e ∈ l, moved e ≠ some i) ∧ undisturbed t i s.history = true := by
    intro l hl hu
    induction l with
    | nil => exact ⟨by simp, hu⟩
    | cons e l ih =>
      have he : decide (e.thread = t ∧ isRead e.op = true) = false :=
        decide_eq_false (hl e (by simp))
      simp only [List.cons_append, undisturbed, he, Bool.false_or, Bool.and_eq_true,
        decide_eq_true_eq] at hu
      obtain ⟨hrest, hs⟩ := ih (fun e he => hl e (by simp [he])) hu.2
      exact ⟨by simpa using ⟨hu.1, hrest⟩, hs⟩
  obtain ⟨hmoved, hu⟩ := hsplit es hes hu
  rw [hm.frame i hmoved]
  exact h hu

/-- A request that sets no status, and raises no alert but for a missed check-in. -/
theorem moves_of_unmoved {s s' : Shared ι} {e : Event SafetyOp.Res ι}
    (hh : s'.history = e :: s.history) (hw : s'.world.checkIns = s.world.checkIns)
    (hm : moved e = none)
    (ha : raisesAlert e = true → ∀ i, lastMissed e.thread s.history = some i →
      ∀ chk, s.world.checkIns.find? i = some chk → chk.status = .missed) : Moves s s' [e] where
  history := hh
  frame i _ := by rw [hw]
  settled i chk hf _ := ⟨chk, by rw [hw]; exact hf, rfl, rfl⟩
  inv h := by
    have hmoves : ∀ i, moves i s'.history = moves i s.history := by
      intro i
      simp [moves, hh, hm]
    refine ⟨?_, ?_, ?_, ?_⟩
    · intro chk hchk
      rw [hw] at hchk
      exact h.exact chk hchk
    · intro i
      rw [hmoves]
      exact h.moves_le i
    · intro chk hchk
      rw [hw] at hchk
      rw [hmoves]
      exact h.pending chk hchk
    · intro i hi chk hf
      rw [hw] at hf
      rw [hh, CheckInRace.alerted, List.mem_append] at hi
      rcases hi with hi | hi
      · split at hi
        · rename_i hr
          exact ha hr i (by simpa using hi) chk hf
        · simp at hi
      · exact h.alerted i hi chk hf

omit [DecidableEq ι] in
/-- A status write counts for its own check-in. -/
theorem moves_of_moved {s s' : Shared ι} {e : Event SafetyOp.Res ι} {i : UUID}
    (hh : s'.history = e :: s.history) (hm : moved e = some i) (k : UUID) :
    moves k s'.history = moves k s.history + if i = k then 1 else 0 := by
  simp [moves, hh, hm, List.countP_cons]

/-- The first status write of a pending check-in keeps the invariant. -/
theorem inv_of_update {s s' : Shared ι} {e : Event SafetyOp.Res ι} {i : UUID}
    (f : CheckIn → CheckIn) (hf : ∀ chk, (f chk).id = chk.id)
    (hh : s'.history = e :: s.history) (hw : s'.world.checkIns = s.world.checkIns.update i f hf)
    (hm : moved e = some i) (hr : raisesAlert e = false) {chk₀ : CheckIn}
    (hf₀ : s.world.checkIns.find? i = some chk₀) (hst₀ : chk₀.status = .pending)
    (hset : ∀ chk, Settled (f chk))
    (hexact : ∀ chk, chk.status = .pending → chk.completedAt = none →
      ((f chk).completedAt.isSome ↔ (f chk).status = .completed)) (h : Inv s) : Inv s' := by
  have hmem₀ := Table.mem_of_find? hf₀
  have hid₀ : chk₀.id = i := Table.key_of_find? hf₀
  have hzero : moves i s.history = 0 := hid₀ ▸ h.pending chk₀ hmem₀ hst₀
  refine ⟨?_, ?_, ?_, ?_⟩
  · intro chk hchk
    rw [hw] at hchk
    rcases Table.mem_update_of_find? hf₀ hchk with rfl | ⟨hchk, -⟩
    · refine hexact chk₀ hst₀ ?_
      cases hat : chk₀.completedAt with
      | none => rfl
      | some x => exact absurd ((h.exact chk₀ hmem₀).mp (by simp [hat])) (by simp [hst₀])
    · exact h.exact chk hchk
  · intro k
    rw [moves_of_moved hh hm]
    split
    · rename_i hk
      subst hk
      omega
    · exact h.moves_le k
  · intro chk hchk hp
    rw [hw] at hchk
    rcases Table.mem_update_of_find? hf₀ hchk with rfl | ⟨hchk, hne⟩
    · rcases hset chk₀ with hs | hs <;> rw [hs] at hp <;> cases hp
    · rw [moves_of_moved hh hm, if_neg (Ne.symm hne)]
      exact h.pending chk hchk hp
  · intro k hk chk hfk
    rw [hh, CheckInRace.alerted, hr] at hk
    simp only [Bool.false_eq_true, if_false, List.nil_append] at hk
    by_cases hki : k = i
    · subst hki
      have := h.alerted k hk chk₀ hf₀
      rw [hst₀] at this
      cases this
    · rw [hw, Table.find?_update, if_neg hki] at hfk
      exact h.alerted k hk chk hfk

/-- A status write to a pending check-in. -/
theorem moves_of_update {s s' : Shared ι} {e : Event SafetyOp.Res ι} {i : UUID}
    (f : CheckIn → CheckIn) (hf : ∀ chk, (f chk).id = chk.id)
    (hh : s'.history = e :: s.history) (hw : s'.world.checkIns = s.world.checkIns.update i f hf)
    (hm : moved e = some i) (hr : raisesAlert e = false)
    (hpend : ∃ chk, s.world.checkIns.find? i = some chk ∧ chk.status = .pending)
    (hset : ∀ chk, Settled (f chk))
    (hexact : ∀ chk, chk.status = .pending → chk.completedAt = none →
      ((f chk).completedAt.isSome ↔ (f chk).status = .completed)) : Moves s s' [e] := by
  obtain ⟨chk₀, hf₀, hst₀⟩ := hpend
  have hfind : ∀ k, k ≠ i → s'.world.checkIns.find? k = s.world.checkIns.find? k := by
    intro k hne
    rw [hw, Table.find?_update, if_neg hne]
  refine ⟨hh, ?_, ?_, inv_of_update f hf hh hw hm hr hf₀ hst₀ hset hexact⟩
  · intro k hk
    exact hfind k fun he => hk e (by simp) (he ▸ hm)
  · intro k chk hfk hs
    have hne : k ≠ i := by
      rintro rfl
      rw [hf₀, Option.some.injEq] at hfk
      subst hfk
      rcases hs with hs | hs <;> rw [hst₀] at hs <;> cases hs
    exact ⟨chk, by rw [hfind k hne]; exact hfk, rfl, rfl⟩

end Steps

section Contracts

variable [DecidableEq ι]

def Rely (t : ι) (s s' : Shared ι) : Prop := ∃ es, Moves s s' es ∧ ∀ e ∈ es, e.thread ≠ t

def Guar (t : ι) (s s' : Shared ι) : Prop := ∃ es, Moves s s' es ∧ ∀ e ∈ es, e.thread = t

def contract {α : Type} (t : ι) (post : α → Shared ι → Prop) : Contract (Shared ι) α :=
  ⟨Rely t, Guar t, post⟩

theorem Rely.refl (t : ι) (s : Shared ι) : Rely t s s := Contract.Others.refl Moves.refl s

theorem Rely.trans {t : ι} {s₁ s₂ s₃ : Shared ι} (h₁ : Rely t s₁ s₂) (h₂ : Rely t s₂ s₃) :
    Rely t s₁ s₃ := Contract.Others.trans (fun _ _ _ _ _ hm₁ hm₂ => hm₁.trans hm₂) h₁ h₂

theorem contracts_compatible {α : Type} (post : ι → α → Shared ι → Prop) :
    Contract.Compatible (fun t => contract t (post t)) where
  refl t s := Rely.refl t s
  trans t _ _ _ h₁ h₂ := Rely.trans h₁ h₂
  guar_rely t u htu s s' h := by
    obtain ⟨es, hm, he⟩ := h
    exact ⟨es, hm, fun e hmem => (he e hmem).symm ▸ htu⟩

/-- Requests that no clause of the invariant looks at. -/
def isQuiet : SafetyOp → Bool
  | .timeNow | .newUUID | .rowsNext | .rowsScan => true
  | _ => false

/-- Requests other than the SELECTs a call or a pass starts with. -/
def isUnread (op : SafetyOp) : Bool := !isRead op

/-- Assertions about thread `t` that survive every move of the others, and its own
moves by requests of the kind `own`. -/
def Stable (own : SafetyOp → Bool) (t : ι) (P : Shared ι → Prop) : Prop :=
  ∀ s s' es, Moves s s' es → (∀ e ∈ es, e.thread = t → own e.op = true) → P s → P s'

theorem isUnread_of_isQuiet {op : SafetyOp} (h : isQuiet op = true) : isUnread op = true := by
  cases op <;> first | rfl | cases h

theorem stable_pendingFor (t : ι) (i : UUID) : Stable isUnread t (PendingFor t i) := by
  intro s s' es hm hes h
  refine h.moves hm fun e he hread => ?_
  have hun := hes e he hread.1
  simp [isUnread, hread.2] at hun

/-- A completed check-in stays completed. -/
theorem stable_completed (own : SafetyOp → Bool) (t : ι) (i : UUID) : Stable own t
    (fun s => ∃ chk, s.world.checkIns.find? i = some chk ∧ chk.status = .completed) := by
  rintro s s' es hm - ⟨chk, hf, hst⟩
  obtain ⟨chk', hf', hst', -⟩ := hm.settled i chk hf (.inl hst)
  exact ⟨chk', hf', hst'.trans hst⟩

theorem Stable.quiet {t : ι} {P : Shared ι → Prop} (hP : Stable isUnread t P) :
    Stable isQuiet t P :=
  fun s s' es hm hes => hP s s' es hm fun e he ht => isUnread_of_isQuiet (hes e he ht)

theorem Stable.rely {own : SafetyOp → Bool} {t : ι} {P : Shared ι → Prop} (hP : Stable own t P)
    {s s' : Shared ι} (h : Rely t s s') (hs : P s) : P s' := by
  obtain ⟨es, hm, he⟩ := h
  exact hP s s' es hm (fun e hmem heq => absurd heq (he e hmem)) hs

theorem Stable.one {own : SafetyOp → Bool} {t : ι} {P : Shared ι → Prop} (hP : Stable own t P)
    {s s' : Shared ι} {e : Event SafetyOp.Res ι} (hm : Moves s s' [e]) (he : own e.op = true)
    (hs : P s) : P s' := hP s s' [e] hm (by simp [he]) hs

theorem Stable.and {own : SafetyOp → Bool} {t : ι} {P Q : Shared ι → Prop} (hP : Stable own t P)
    (hQ : Stable own t Q) : Stable own t (fun s => P s ∧ Q s) :=
  fun s s' es hm hes h => ⟨hP s s' es hm hes h.1, hQ s s' es hm hes h.2⟩

theorem Stable.forall_mem {own : SafetyOp → Bool} {β : Type} {t : ι} {P : β → Shared ι → Prop}
    (l : List β) (hP : ∀ b, Stable own t (P b)) : Stable own t (fun s => ∀ b ∈ l, P b s) :=
  fun s s' es hm hes h b hb => hP b s s' es hm hes (h b hb)

/-- The check-in a thread has marked last stays missed, and stays the last. -/
def MarkedBy (t : ι) (i : UUID) (s : Shared ι) : Prop :=
  lastMissed t s.history = some i ∧
    ∃ chk, s.world.checkIns.find? i = some chk ∧ chk.status = .missed

theorem stable_markedBy (t : ι) (i : UUID) : Stable isQuiet t (MarkedBy t i) := by
  rintro s s' es hm hes ⟨hlast, chk, hf, hst⟩
  obtain ⟨chk', hf', hst', -⟩ := hm.settled i chk hf (.inr hst)
  refine ⟨?_, chk', hf', hst'.trans hst⟩
  rw [hm.history, ← hlast]
  clear hm hf'
  induction es with
  | nil => rfl
  | cons e es ih =>
    have hne : ¬ (e.thread = t ∧ (marked e).isSome = true) := by
      rintro ⟨ht, hmark⟩
      have hq := hes e (by simp) ht
      obtain ⟨u, op, r⟩ := e
      cases op <;> simp [marked, isQuiet] at hmark hq
    rw [List.cons_append, lastMissed, if_neg hne]
    exact ih fun e he => hes e (by simp [he])

/-- A request that only reads keeps every clause. -/
theorem moves_readOnly (t : ι) (s : Shared ι) (op : SafetyOp) (env : Env)
    (h : SafetyStore.readOnly op = true) :
    Moves s (perform t s op env).1 [⟨t, op, (s.world.exec op env).2⟩] := by
  refine moves_of_unmoved rfl ?_ ?_ ?_
  · rw [perform_eq, SafetyStore.exec_readOnly h]
  · cases op <;> first | rfl | cases h
  · cases op <;> first | (intro hr; cases hr) | cases h

theorem guar_of_moves {t : ι} {s s' : Shared ι} {e : Event SafetyOp.Res ι} (hm : Moves s s' [e])
    (he : e.thread = t) : Guar t s s' := ⟨[e], hm, by simpa using he⟩

variable {α : Type} {t : ι} {post : α → Shared ι → Prop}

/-- A quiet request carries a stable assertion over to its continuation. -/
theorem holds_quiet {P : Shared ι → Prop} (hP : Stable isQuiet t P) {op : SafetyOp}
    (hop : isQuiet op = true) {next : op.Res → Safety α} {s : Shared ι} (hs : P s)
    (hnext : ∀ r s', P s' →
      Contract.Holds perform FreshWrite t (contract t post) (next r) s') :
    Contract.Holds perform FreshWrite t (contract t post) (.request op next) s := by
  intro s₁ hrely env _
  have hread : SafetyStore.readOnly op = true := by cases op <;> first | rfl | cases hop
  have hm := moves_readOnly t s₁ op env hread
  exact ⟨guar_of_moves hm rfl, hnext _ _ (hP.one hm hop (hP.rely hrely hs))⟩

theorem holds_done {own : SafetyOp → Bool} {P : Shared ι → Prop} (hP : Stable own t P) {a : α}
    {s : Shared ι} (hs : P s) (hpost : ∀ s, P s → post a s) :
    Contract.Holds perform FreshWrite t (contract t post) (.done a) s :=
  fun _ hrely => hpost _ (hP.rely hrely hs)

/-- An alert inserted for the check-in just marked. -/
theorem moves_insertAlert {i : UUID} {s : Shared ι} (h : MarkedBy t i s) (alert : EmergencyAlert)
    (env : Env) : Moves s (perform t s (.insertAlert alert) env).1
      [⟨t, .insertAlert alert, (s.world.exec (.insertAlert alert) env).2⟩] := by
  obtain ⟨hlast, chk, hf, hst⟩ := h
  refine moves_of_unmoved rfl ?_ rfl ?_
  · rcases SafetyStore.exec_insertAlert s.world alert env with ⟨e, he⟩ | ⟨tbl, -, he⟩ <;>
      rw [perform_eq, he]
  · intro _ j hj chk' hf'
    rw [hlast, Option.some.injEq] at hj
    subst hj
    rw [hf, Option.some.injEq] at hf'
    exact hf' ▸ hst

/-- A check-in is marked missed, if it is pending whenever the write succeeds. -/
theorem moves_updateMissed (t : ι) {s : Shared ι} {now : Time} {i : UUID} {env : Env}
    (hpend : (s.world.exec (.updateMissed now i) env).2 = .ok () →
      ∃ chk, s.world.checkIns.find? i = some chk ∧ chk.status = .pending) :
    Moves s (perform t s (.updateMissed now i) env).1
      [⟨t, .updateMissed now i, (s.world.exec (.updateMissed now i) env).2⟩] := by
  rcases SafetyStore.exec_updateMissed s.world now i env with ⟨e, he⟩ | hok
  · rw [perform_eq, he]
    exact moves_of_unmoved rfl rfl rfl (by simp [raisesAlert])
  · have hp := hpend (by rw [hok])
    rw [perform_eq, hok]
    exact moves_of_update (CheckIn.miss now) (CheckIn.miss_id now) rfl rfl rfl rfl hp
      (fun _ => .inr rfl) (by simp)

theorem moves_updateCompleted (t : ι) {s : Shared ι} {completedAt now : Time} {i : UUID} {env : Env}
    (hpend : (s.world.exec (.updateCompleted completedAt now i) env).2 = .ok () →
      ∃ chk, s.world.checkIns.find? i = some chk ∧ chk.status = .pending) :
    Moves s (perform t s (.updateCompleted completedAt now i) env).1
      [⟨t, .updateCompleted completedAt now i,
        (s.world.exec (.updateCompleted completedAt now i) env).2⟩] := by
  rcases SafetyStore.exec_updateCompleted s.world completedAt now i env with ⟨e, he⟩ | hok
  · rw [perform_eq, he]
    exact moves_of_unmoved rfl rfl rfl (by simp [raisesAlert])
  · have hp := hpend (by rw [hok])
    rw [perform_eq, hok]
    exact moves_of_update (CheckIn.complete completedAt now) (CheckIn.complete_id completedAt now)
      rfl rfl rfl rfl hp (fun _ => .inl rfl) (by simp)

/-- The alert of a pass goes to the check-in it has just marked. -/
theorem holds_triggerAlert {Q : Shared ι → Prop} (hQ : Stable isUnread t Q) {i : UUID}
    {s : Shared ι} (hs : Q s ∧ MarkedBy t i s) (userID : UUID) (alertType : String)
    (lat lng : Option ℚ) :
    Contract.Holds perform FreshWrite t (contract t (fun _ => Q))
      (EmergencyService.triggerAlert userID alertType lat lng) s := by
  have hP : Stable isQuiet t (fun s => Q s ∧ MarkedBy t i s) := hQ.quiet.and (stable_markedBy t i)
  simp only [EmergencyService.triggerAlert, Program.call_bind, Program.pure_eq]
  refine holds_quiet hP rfl hs fun id s₁ hs₁ => ?_
  refine holds_quiet hP rfl hs₁ fun createdAt s₂ hs₂ => ?_
  refine holds_quiet hP rfl hs₂ fun updatedAt s₃ hs₃ => ?_
  intro s₄ hrely env _
  obtain ⟨hq, hmark⟩ := hP.rely hrely hs₃
  have hm := moves_insertAlert hmark
    (EmergencyService.newAlert id userID alertType lat lng createdAt updatedAt) env
  have hq' := hQ.one hm rfl hq
  refine ⟨guar_of_moves hm rfl, ?_⟩
  dsimp only
  split <;> exact holds_done hQ hq' fun _ h => h

/-- One pass over selected rows, each of which is pending unless disturbed. -/
theorem holds_processRows (svc : CheckInService) (rows : List MissedCheckIn) {s : Shared ι}
    (hs : ∀ row ∈ rows, PendingFor t row.id s) :
    Contract.Holds perform FreshWrite t (contract t (fun _ _ => True))
      (svc.processRows rows) s := by
  induction rows generalizing s with
  | nil => exact fun _ _ => trivial
  | cons row rest ih =>
    have hrows : Stable isUnread t (fun s => ∀ row' ∈ row :: rest, PendingFor t row'.id s) :=
      Stable.forall_mem _ fun row' => stable_pendingFor t row'.id
    have hrest : Stable isUnread t (fun s => ∀ row' ∈ rest, PendingFor t row'.id s) :=
      Stable.forall_mem _ fun row' => stable_pendingFor t row'.id
    simp only [CheckInService.processRows, Program.call_bind, Program.pure_eq]
    refine holds_quiet hrows.quiet rfl hs fun r s₁ hs₁ => ?_
    cases r with
    | error e => exact fun _ _ => trivial
    | ok _ =>
    refine holds_quiet hrows.quiet rfl hs₁ fun r s₂ hs₂ => ?_
    cases r with
    | error e => exact ih fun row' hmem => hs₂ row' (List.mem_cons_of_mem _ hmem)
    | ok _ =>
    refine holds_quiet hrows.quiet rfl hs₂ fun now s₃ hs₃ => ?_
    intro s₄ hrely env hfresh
    have hs₄ := hrows.rely hrely hs₃
    have hrest₄ : ∀ row' ∈ rest, PendingFor t row'.id s₄ :=
      fun row' hmem => hs₄ row' (List.mem_cons_of_mem _ hmem)
    have hpend : (s₄.world.exec (.updateMissed now row.id) env).2 = .ok () →
        ∃ chk, s₄.world.checkIns.find? row.id = some chk ∧ chk.status = .pending := by
      intro hok
      refine hs₄ row List.mem_cons_self (hfresh row.id ?_)
      rw [hok]
      rfl
    have hm := moves_updateMissed t hpend
    refine ⟨guar_of_moves hm rfl, ?_⟩
    have hnext := hrest.one hm rfl hrest₄
    rcases SafetyStore.exec_updateMissed s₄.world now row.id env with ⟨e, he⟩ | hok
    · rw [perform_eq, he] at hnext ⊢
      exact ih hnext
    · have hmark : MarkedBy t row.id (perform t s₄ (.updateMissed now row.id) env).1 := by
        obtain ⟨chk, hf, -⟩ := hpend (by rw [hok])
        rw [perform_eq, hok]
        refine ⟨by simp [lastMissed, marked], chk.miss now, ?_, rfl⟩
        simp [SafetyStore.updateMissed, Table.find?_update, hf]
      rw [perform_eq, hok] at hnext hmark ⊢
      dsimp only
      split
      · exact (holds_triggerAlert hrest ⟨hnext, hmark⟩ _ _ _ _).bind (Rely.refl t) fun _ _ h => ih h
      · exact ih hnext

/-- A monitor pass meets its contract. -/
theorem holds_processMissedCheckIns (svc : CheckInService) (s : Shared ι) :
    Contract.Holds perform FreshWrite t (contract t (fun _ _ => True))
      svc.processMissedCheckIns s := by
  simp only [CheckInService.processMissedCheckIns, Program.call_bind, Program.pure_eq]
  intro s₁ _ env _
  refine ⟨guar_of_moves (moves_readOnly t s₁ .selectMissedForUpdate env rfl) rfl, ?_⟩
  have hworld := perform_readOnly_world t s₁ .selectMissedForUpdate env rfl
  cases hr : (perform t s₁ .selectMissedForUpdate env).2 with
  | error e => exact fun _ _ => trivial
  | ok rows =>
    refine holds_processRows svc rows fun row hmem _ => ?_
    rw [SafetyStore.exec_selectMissedForUpdate hr, SafetyStore.mem_selectMissed] at hmem
    obtain ⟨chk, hchk, hover, rfl⟩ := hmem
    exact ⟨chk, by rw [hworld]; exact Table.find?_of_mem hchk, hover.1⟩

/-- A call that reports success has left its check-in completed. -/
theorem holds_completeCheckIn (i userID : UUID) (s : Shared ι) :
    Contract.Holds perform FreshWrite t (contract t (fun r s => ∀ chk, r = .ok chk →
      ∃ chk, s.world.checkIns.find? i = some chk ∧ chk.status = .completed))
      (CheckInService.completeCheckIn i userID) s := by
  have hfail : ∀ (e : String) (s : Shared ι), Contract.Holds perform FreshWrite t
      (contract t (fun r s => ∀ chk : CheckIn, r = .ok chk →
        ∃ chk, s.world.checkIns.find? i = some chk ∧ chk.status = .completed))
      (.done (.error e) : Safety (Except String CheckIn)) s :=
    fun e s _ _ _ h => by cases h
  simp only [CheckInService.completeCheckIn, Program.call_bind, Program.pure_eq]
  intro s₁ _ env _
  refine ⟨guar_of_moves (moves_readOnly t s₁ (.selectCheckInForUpdate i) env rfl) rfl, ?_⟩
  have hworld := perform_readOnly_world t s₁ (.selectCheckInForUpdate i) env rfl
  cases hr : (perform t s₁ (.selectCheckInForUpdate i) env).2 with
  | error e => exact hfail _ _
  | ok chk =>
    dsimp only
    split_ifs with huser hst
    · exact hfail _ _
    · exact hfail _ _
    · have hf := SafetyStore.exec_selectCheckInForUpdate hr
      have hpend : PendingFor t i (perform t s₁ (.selectCheckInForUpdate i) env).1 :=
        fun _ => ⟨chk, by rw [hworld]; exact hf, by simpa using hst⟩
      refine holds_quiet (stable_pendingFor t i).quiet rfl hpend fun now s₂ hs₂ => ?_
      intro s₃ hrely env' hfresh
      have hs₃ := (stable_pendingFor t i).rely hrely hs₂
      have hpend₃ : (s₃.world.exec (.updateCompleted now now i) env').2 = .ok () →
          ∃ chk, s₃.world.checkIns.find? i = some chk ∧ chk.status = .pending := by
        intro hok
        refine hs₃ (hfresh i ?_)
        rw [hok]
        rfl
      refine ⟨guar_of_moves (moves_updateCompleted t hpend₃) rfl, ?_⟩
      rcases SafetyStore.exec_updateCompleted s₃.world now now i env' with ⟨e, he⟩ | hok
      · rw [perform_eq, he]
        exact hfail _ _
      · obtain ⟨c, hc, -⟩ := hpend₃ (by rw [hok])
        rw [perform_eq, hok]
        refine holds_done (stable_completed isQuiet t i) ?_ fun s hs _ _ => hs
        refine ⟨c.complete now now, ?_, rfl⟩
        simp [SafetyStore.updateCompleted, Table.find?_update, hc]

end Contracts

section Runs

variable [DecidableEq ι] (svc : CheckInService) (calls : ι → Call) (w : SafetyStore)

/-- What is asked of a run: each check-in is moved by at most one call or pass, a
completed or missed row keeps its status and its `completed_at`, and a check-in
whose completion was reported to its user gets no safety alert from then on. -/
structure LeavesPendingOnce (schedule : List (ι × Env)) : Prop where
  moves_le_one : ∀ i, moves i (runFrom svc calls w schedule).state.history ≤ 1
  settled_stable : ∀ xs ys, schedule = xs ++ ys → ∀ i chk,
    (runFrom svc calls w xs).state.world.checkIns.find? i = some chk → Settled chk →
    ∃ chk', (runFrom svc calls w schedule).state.world.checkIns.find? i = some chk' ∧
      chk'.status = chk.status ∧ chk'.completedAt = chk.completedAt
  completedAt_exact : CompletedAtExact (runFrom svc calls w schedule).state.world
  no_alert_after_completion : ∀ xs ys, schedule = xs ++ ys → ∀ t i userID chk,
    calls t = .complete i userID →
    (runFrom svc calls w xs).threads t = .done (.complete (.ok chk)) →
    (alerted (runFrom svc calls w schedule).state.history).count i =
      (alerted (runFrom svc calls w xs).state.history).count i

/-- Every status write of the run acts on a read that no other write has overtaken. -/
def Fresh (schedule : List (ι × Env)) : Prop :=
  Pool.Guarded perform FreshWrite (start svc calls w) schedule

variable {svc calls w}

def callPost (calls : ι → Call) (t : ι) (r : Reply) (s : Shared ι) : Prop :=
  ∀ i userID chk, calls t = .complete i userID → r = .complete (.ok chk) →
    ∃ chk, s.world.checkIns.find? i = some chk ∧ chk.status = .completed

theorem holds_start (t : ι) : Contract.Holds perform FreshWrite t (contract t (callPost calls t))
    ((start svc calls w).threads t) (start svc calls w).state := by
  simp only [start]
  cases hc : calls t with
  | complete i userID =>
    refine (holds_completeCheckIn i userID _).bind (Rely.refl t) fun r s hs => ?_
    cases r with
    | error e => exact fun _ _ _ _ _ _ h => by cases h
    | ok chk =>
      refine holds_done (stable_completed isQuiet t i) (hs chk rfl) ?_
      intro s hs i' userID' _ hc' _
      rw [hc, Call.complete.injEq] at hc'
      exact hc'.1 ▸ hs
  | monitorPass =>
    refine (holds_processMissedCheckIns svc _).bind (Rely.refl t) fun _ s _ => ?_
    exact fun _ _ _ _ _ hc' => by rw [hc] at hc'; cases hc'

theorem inv_start (hw : CompletedAtExact w) : Inv (start svc calls w).state where
  exact := hw
  moves_le _ := by simp [start, moves]
  pending _ _ _ := by simp [start, moves]
  alerted i hi := by simp [start, CheckInRace.alerted] at hi

/-- In a fresh run every thread meets its contract, and the state moves as the
contracts say. -/
theorem fresh_sound {pool : Pool SafetyOp.Res (Shared ι) ι Reply} {ys : List (ι × Env)}
    (hpool : ∀ t, Contract.Holds perform FreshWrite t (contract t (callPost calls t))
      (pool.threads t) pool.state)
    (hfresh : Pool.Guarded perform FreshWrite pool ys) :
    (∀ t, Contract.Holds perform FreshWrite t (contract t (callPost calls t))
      ((pool.run perform ys).threads t) (pool.run perform ys).state) ∧
      ∃ es, Moves pool.state (pool.run perform ys).state es := by
  refine Contract.run_sound (contracts_compatible (callPost calls))
    (fun s s' => ∃ es, Moves s s' es) (fun s => ⟨[], Moves.refl s⟩) ?_ ?_ hfresh hpool
  · rintro _ _ _ ⟨es, h₁⟩ ⟨fs, h₂⟩
    exact ⟨fs ++ es, h₁.trans h₂⟩
  · rintro _ _ _ ⟨es, h, -⟩
    exact ⟨es, h⟩

/-- A check-in that was disturbed has been moved before. -/
theorem moves_pos_of_disturbed {t : ι} {i : UUID} {h : History ι} (hd : undisturbed t i h = false) :
    0 < moves i h := by
  induction h with
  | nil => cases hd
  | cons e h ih =>
    simp only [undisturbed, Bool.or_eq_false_iff, Bool.and_eq_false_iff, decide_eq_false_iff_not,
      not_not] at hd
    unfold moves at ih ⊢
    rcases hd.2 with hmoved | hrest
    · simp [hmoved]
    · rw [List.countP_cons]
      exact Nat.add_pos_left (ih hrest) _

/-- A run in which no check-in is moved twice is fresh. -/
theorem guarded_of_moves_le {pool : Pool SafetyOp.Res (Shared ι) ι Reply} {ys : List (ι × Env)}
    (h : ∀ i, moves i (pool.run perform ys).state.history ≤ 1) :
    Pool.Guarded perform FreshWrite pool ys := by
  induction ys generalizing pool with
  | nil => trivial
  | cons slot ys ih =>
    refine ⟨?_, ih h⟩
    unfold Pool.Admits
    split
    · trivial
    · rename_i op next hp
      intro i hi
      by_contra hd
      rw [Bool.not_eq_true] at hd
      have hpos := moves_pos_of_disturbed hd
      obtain ⟨es, hes⟩ := Pool.run_history SafetyStore.exec (pool.step perform slot) ys
      have hstep : (pool.step perform slot).state.history =
          ⟨slot.1, op, (pool.state.world.exec op slot.2).2⟩ :: pool.state.history := by
        simp [Pool.step, hp, perform_eq]
      have hle := h i
      rw [Pool.run, show (pool.step perform slot).run perform ys =
        (pool.step perform slot).run (Recorded.perform SafetyStore.exec) ys from rfl,
        hes, hstep] at hle
      unfold moves at hle hpos
      rw [List.countP_append, List.countP_cons, if_pos (by simpa using hi)] at hle
      omega

/-- The runs in which every check-in leaves `pending` at most once are exactly the
fresh ones. -/
theorem leavesPendingOnce_iff_fresh (svc : CheckInService) (calls : ι → Call) (w : SafetyStore)
    (hw : CompletedAtExact w) (schedule : List (ι × Env)) :
    LeavesPendingOnce svc calls w schedule ↔ Fresh svc calls w schedule := by
  constructor
  · exact fun h => guarded_of_moves_le h.moves_le_one
  · intro hfresh
    have hstarts : ∀ xs ys, schedule = xs ++ ys →
        (∀ t, Contract.Holds perform FreshWrite t (contract t (callPost calls t))
          ((runFrom svc calls w xs).threads t) (runFrom svc calls w xs).state) ∧
        Inv (runFrom svc calls w xs).state ∧
        ∃ es, Moves (runFrom svc calls w xs).state (runFrom svc calls w schedule).state es := by
      rintro xs ys rfl
      obtain ⟨hxs, hys⟩ := Pool.guarded_append.mp hfresh
      obtain ⟨hholds, es, hm⟩ := fresh_sound holds_start hxs
      obtain ⟨-, hrest⟩ := fresh_sound hholds hys
      refine ⟨hholds, hm.inv (inv_start hw), ?_⟩
      rw [runFrom, runFrom, Pool.run_append]
      exact hrest
    obtain ⟨-, hinv, -⟩ := hstarts schedule [] (by simp)
    refine ⟨hinv.moves_le, ?_, hinv.exact, ?_⟩
    · intro xs ys hsplit i chk hf hs
      obtain ⟨-, -, es, hm⟩ := hstarts xs ys hsplit
      exact hm.settled i chk hf hs
    · intro xs ys hsplit t i userID chk hcall hdone
      obtain ⟨hholds, hinvx, es, hm⟩ := hstarts xs ys hsplit
      obtain ⟨c, hf, hst⟩ := (hholds t).done hdone (Rely.refl t) i userID chk hcall rfl
      obtain ⟨c', hf', hst', -⟩ := hm.settled i c hf (.inl hst)
      have hnot : ∀ s : Shared ι, Inv s → ∀ d, s.world.checkIns.find? i = some d →
          d.status = .completed → (alerted s.history).count i = 0 := by
        intro s hs d hd hcomp
        refine List.count_eq_zero.mpr fun hmem => ?_
        have := hs.alerted i hmem d hd
        rw [hcomp] at this
        cases this
      rw [hnot _ hinv c' hf' (hst'.trans hst), hnot _ hinvx c hf hst]

end Runs

/-- Two check-ins of user 7, both due at 0. -/
def twoOverdue : SafetyStore where
  checkIns :=
    ⟨[⟨1, 7, 0, none, .pending, "", 0, 0⟩, ⟨2, 7, 0, none, .pending, "", 0, 0⟩], by decide⟩
  alerts := .empty

theorem twoOverdue_exact : CompletedAtExact twoOverdue := by
  unfold CompletedAtExact
  decide

/-- User 7 completes check-in 1 while a monitor pass runs. -/
def userAndMonitor : Bool → Call
  | false => .complete 1 7
  | true => .monitorPass

/-- `n` requests in a row of one thread, at time `now`. -/
def turns (t : Bool) (now : Time) (n : ℕ) : List (Bool × Env) :=
  List.replicate n (t, .good now 100)

/-- The completion comes first, then the pass finds check-in 2 only. -/
theorem leavesPendingOnce_in_turn :
    LeavesPendingOnce ⟨true⟩ userAndMonitor twoOverdue (turns false 10 3 ++ turns true 11 9) :=
  (leavesPendingOnce_iff_fresh ⟨true⟩ userAndMonitor twoOverdue twoOverdue_exact _).mpr
    (by unfold Fresh; decide)

/-- The pass selects both check-ins, then check-in 1 is completed, then the pass
marks it missed and raises an alert for it. -/
theorem completed_check_in_overwritten :
    ¬ ∀ (ι : Type) [DecidableEq ι] (svc : CheckInService) (calls : ι → Call) (w : SafetyStore),
      CompletedAtExact w → ∀ schedule : List (ι × Env), LeavesPendingOnce svc calls w schedule := by
  intro h
  have hrun := h Bool ⟨true⟩ userAndMonitor twoOverdue twoOverdue_exact
    (turns true 10 1 ++ turns false 11 3 ++ turns true 12 8)
  have hmoves : moves 1 (runFrom ⟨true⟩ userAndMonitor twoOverdue
      (turns true 10 1 ++ turns false 11 3 ++ turns true 12 8)).state.history = 2 := by decide
  have hle := hrun.moves_le_one 1
  omega

end SafetyDao.CheckInRace
