import SafetyDao.Notifications

/-!
# What notifications are sent

Calls, registrations and goroutines run interleaved. The tables and replies are those of the two
services without goroutines; each alert that is stored has one goroutine, which posts at most
one SMS and one webhook, about that alert.
-/
namespace SafetyDao.Notifications
open AlertResolution (Later)
open JsonWebToken (Hmac)
open TwilioSms (lit)

section Follows

variable {α β : Type}

/-- A program without the goroutines that it starts. -/
inductive Mutes (f : β → α) : Notifying α → Safety β → Prop
  | done (b : β) : Mutes f (.done (f b)) (.done b)
  | go {alert : EmergencyAlert} {next : Unit → Notifying α} {p : Safety β}
      (h : Mutes f (next ()) p) : Mutes f (.request (.go alert) next) p
  | safety {op : SafetyOp} {next : op.Res → Notifying α} {next' : op.Res → Safety β}
      (h : ∀ r, Mutes f (next r) (next' r)) :
    Mutes f (.request (.safety op) next) (.request op next')

theorem mutes_ofSafety (p : Safety α) : Mutes id (ofSafety p) p := by
  induction p with
  | done a => exact .done a
  | request op next ih => exact .safety ih

theorem Mutes.bind {γ δ : Type} {f : β → α} {g : δ → γ} {p : Notifying α} {q : Safety β}
    (h : Mutes f p q) {k : α → Notifying γ} {l : β → Safety δ} (hk : ∀ b, Mutes g (k (f b)) (l b)) :
    Mutes g (p >>= k) (q >>= l) := by
  induction h with
  | done b => exact hk b
  | go _ ih => exact .go ih
  | safety _ ih => exact .safety ih

/-- What a program does after its last statement may only be to start goroutines. -/
theorem Mutes.bind_done {γ : Type} {f : β → α} {g : β → γ} {p : Notifying α} {q : Safety β}
    (h : Mutes f p q) {k : α → Notifying γ} (hk : ∀ b, Mutes g (k (f b)) (.done b)) :
    Mutes g (p >>= k) q := by
  induction h with
  | done b => exact hk b
  | go _ ih => exact .go ih
  | safety _ ih => exact .safety ih

theorem mutes_triggerAlert (userID : UUID) (alertType : String) (lat lng : Option ℚ) :
    Mutes id (triggerAlert userID alertType lat lng)
      (EmergencyService.triggerAlert userID alertType lat lng) := by
  refine (mutes_ofSafety _).bind_done fun r => ?_
  cases r with
  | error e => exact .done _
  | ok alert => exact .go (.done (Except.ok alert))

theorem mutes_processRows (s : CheckInService) (rows : List MissedCheckIn) :
    Mutes id (processRows s rows) (s.processRows rows) := by
  induction rows with
  | nil => exact .done ()
  | cons row rest ih =>
    unfold processRows CheckInService.processRows
    refine (mutes_ofSafety _).bind fun next => ?_
    cases next with
    | error e => exact .done ()
    | ok _ =>
    refine (mutes_ofSafety _).bind fun scan => ?_
    cases scan with
    | error e => exact ih
    | ok _ =>
    refine (mutes_ofSafety _).bind fun now => (mutes_ofSafety _).bind fun updated => ?_
    cases updated with
    | error e => exact ih
    | ok _ =>
      dsimp only [id_eq]
      split
      · exact (mutes_triggerAlert row.userID "safety" none none).bind fun _ => ih
      · exact ih

theorem mutes_processMissedCheckIns (s : CheckInService) :
    Mutes id (processMissedCheckIns s) s.processMissedCheckIns := by
  refine (mutes_ofSafety _).bind fun r => ?_
  cases r with
  | error e => exact .done ()
  | ok rows => exact mutes_processRows s rows

theorem mutes_callProgram (svc : CheckInService) (call : SafetyLifecycle.Call) :
    Mutes id (callProgram svc call) (call.program svc) := by
  cases call with
  | triggerAlert userID alertType lat lng =>
    exact (mutes_triggerAlert userID alertType lat lng).bind fun r => .done _
  | processMissedCheckIns => exact (mutes_processMissedCheckIns svc).bind fun _ => .done _
  | scheduleCheckIn | completeCheckIn | getCheckIn | listCheckIns | resolveAlert | listAlerts =>
    exact mutes_ofSafety _

/-- A request of goroutines or registrations. -/
def Outside : Op → Prop
  | .safety _ | .go _ => False
  | _ => True

theorem issues_notifyBySMS (cfg : Settings) (alert : EmergencyAlert) :
    (notifyBySMS cfg alert).Issues Outside := by
  unfold notifyBySMS sendTwilioSMS
  simp only [Program.call_bind, Program.pure_eq]
  split
  · refine .request trivial fun r => ?_
    cases r with
    | error e => trivial
    | ok phone =>
      dsimp only
      split
      · split
        · trivial
        · exact .request trivial fun _ => trivial
      · trivial
  · trivial

theorem issues_sendWebhook (cfg : Settings) (alert : EmergencyAlert) :
    (sendWebhook cfg alert).Issues Outside := by
  unfold sendWebhook
  split
  · trivial
  · split
    · exact .request trivial fun _ => trivial
    · trivial

theorem issues_goroutine (cfg : Settings) (n : ℕ) : (goroutine cfg n).Issues Outside := by
  refine .request trivial fun r => ?_
  cases r with
  | none => trivial
  | some alert =>
    refine (issues_notifyBySMS cfg alert).bind fun _ => ?_
    split
    · exact issues_sendWebhook cfg alert
    · trivial

end Follows

section Refinement

variable {ι κ : Type} (cfg : Settings) (hmac : Hmac) (serverCfg : Config) (svc : CheckInService)
  (calls : ι → SafetyLifecycle.Call) (auths : κ → AuthRuns.Call) (safety : SafetyStore)
  (users : UserTable)

/-- The pool of the two services alone is where the calls of the whole system are. -/
structure Follows (p : Pool Op.Res (Shared ι κ) (Thread ι κ) Reply)
    (q : Pool SafetyOp.Res (Safety.Shared ι) ι SafetyLifecycle.Reply) : Prop where
  world : q.state.world = p.state.world.safety
  calls : ∀ t, Mutes Reply.call (p.threads (.call t)) (q.threads t)
  others : ∀ u, (∀ t, u ≠ .call t) → (p.threads u).Issues Outside

/-- What a request of a call is for the services. -/
def callSlot : Thread ι κ × UserEnv → Option (ι × Env)
  | (.call t, env) => some (t, env.toEnv)
  | _ => none

theorem exec_outside {op : Op} (h : Outside op) (w : World) (env : UserEnv) :
    (exec cfg w op env).1.safety = w.safety := by
  cases op with
  | safety | go => exact h.elim
  | users | goroutine | post => rfl
  | selectPhone userID =>
    exact env.attempt_keeps (P := fun w' : World => w'.safety = w.safety) rfl rfl

variable {hmac serverCfg svc calls auths safety users} in
theorem follows_start : Follows (start cfg hmac serverCfg svc calls auths safety users)
    (SafetyLifecycle.start svc calls safety) where
  world := rfl
  calls t := (mutes_callProgram svc (calls t)).bind_done fun r => .done r
  others u hu := by
    cases u with
    | call t => exact absurd rfl (hu t)
    | auth k =>
      exact .map (Program.Issues.embed (Program.issues_any _) fun op _ => trivial) _
    | goroutine n => exact .map (issues_goroutine cfg n) _

variable [DecidableEq ι] [DecidableEq κ]

omit [DecidableEq ι] [DecidableEq κ] in
variable {cfg hmac serverCfg svc calls auths safety users} in
/-- What is not run, of either pool, is where it was. -/
theorem Follows.update [DecidableEq (Thread ι κ)]
    {p : Pool Op.Res (Shared ι κ) (Thread ι κ) Reply}
    {q q' : Pool SafetyOp.Res (Safety.Shared ι) ι SafetyLifecycle.Reply} (h : Follows p q)
    {s : Shared ι κ} {u : Thread ι κ} {next : Notifying Reply}
    (hworld : q'.state.world = s.world.safety)
    (hcall : ∀ t, u = .call t → Mutes Reply.call next (q'.threads t))
    (hissues : (∀ t, u ≠ .call t) → next.Issues Outside)
    (hsame : ∀ t, u ≠ .call t → q'.threads t = q.threads t) :
    Follows ⟨s, Function.update p.threads u next⟩ q' where
  world := hworld
  calls t := by
    dsimp only
    by_cases hu : u = .call t
    · subst hu
      rw [Function.update_self]
      exact hcall t rfl
    · rw [Function.update_of_ne (Ne.symm hu), hsame t hu]
      exact h.calls t
  others v hv := by
    dsimp only
    by_cases hu : v = u
    · subst hu
      rw [Function.update_self]
      exact hissues hv
    · rw [Function.update_of_ne hu]
      exact h.others v hv

variable {cfg} in
/-- A request of a call to the services is a request there; no other changes the tables. -/
theorem follows_step (p : Pool Op.Res (Shared ι κ) (Thread ι κ) Reply)
    (q : Pool SafetyOp.Res (Safety.Shared ι) ι SafetyLifecycle.Reply)
    (slot : Thread ι κ × UserEnv) (h : Follows p q) :
    Follows (p.step (perform cfg) slot) q ∨ ∃ slot', callSlot slot = some slot' ∧
      Follows (p.step (perform cfg) slot) (q.step Safety.perform slot') := by
  obtain ⟨u, env⟩ := slot
  cases hp : p.threads u with
  | done a =>
    have hstep : p.step (perform cfg) (u, env) = p := by simp [Pool.step, hp]
    rw [hstep]
    exact .inl h
  | request op next =>
    have hstep : p.step (perform cfg) (u, env) = ⟨(perform cfg u p.state op env).1,
        Function.update p.threads u (next (perform cfg u p.state op env).2)⟩ := by
      simp [Pool.step, hp]
    rw [hstep]
    by_cases hcall : ∃ t, u = .call t
    · obtain ⟨t, rfl⟩ := hcall
      have hmutes := h.calls t
      rw [hp] at hmutes
      generalize hq : q.threads t = muted at hmutes
      cases hmutes with
      | go hnext =>
        refine .inl (h.update h.world (fun t' ht => ?_) (fun hu => absurd rfl (hu t))
          fun _ _ => rfl)
        obtain rfl := Thread.call.inj ht
        rw [hq]
        exact hnext
      | @safety op _ next' hnext =>
        refine .inr ⟨(t, env.toEnv), rfl, ?_⟩
        have hstep' : q.step Safety.perform (t, env.toEnv) =
            ⟨(Safety.perform t q.state op env.toEnv).1, Function.update q.threads t
              (next' (Safety.perform t q.state op env.toEnv).2)⟩ := by
          simp [Pool.step, hq]
        have hworld : q.state.world.exec op env.toEnv =
            p.state.world.safety.exec op env.toEnv := by rw [h.world]
        rw [hstep']
        refine h.update ?_ (fun t' ht => ?_) (fun hu => absurd rfl (hu t)) fun t' ht => ?_
        · rw [Safety.perform_eq, hworld]
          rfl
        · obtain rfl := Thread.call.inj ht
          dsimp only
          rw [Function.update_self, Safety.perform_eq, hworld]
          exact hnext _
        · exact Function.update_of_ne (fun heq => ht (congrArg _ heq.symm)) _ _
    · have hu : ∀ t, u ≠ .call t := fun t ht => hcall ⟨t, ht⟩
      have hissues := h.others u hu
      rw [hp] at hissues
      refine .inl (h.update ?_ (fun t ht => absurd ht (hu t)) (fun _ => hissues.2 _) fun _ _ => rfl)
      rw [h.world]
      exact (exec_outside cfg hissues.1 p.state.world env).symm

/-- Whatever goroutines and registrations run beside the calls, the tables and the replies are
those of some run of the calls alone, with the same choices in the same order. -/
theorem run_follows (schedule : List (Thread ι κ × UserEnv)) :
    ∃ ys, ys.Sublist (schedule.filterMap callSlot) ∧
      (SafetyLifecycle.runFrom svc calls safety ys).state.world =
        (runFrom cfg hmac serverCfg svc calls auths safety users schedule).state.world.safety ∧
      ∀ t r, (runFrom cfg hmac serverCfg svc calls auths safety users schedule).threads (.call t) =
        .done (.call r) → (SafetyLifecycle.runFrom svc calls safety ys).threads t = .done r := by
  have hstart : Follows (start cfg hmac serverCfg svc calls auths safety users)
      (SafetyLifecycle.start svc calls safety) := follows_start cfg
  obtain ⟨ys, hys, hfollows⟩ := Pool.exists_run_of_step follows_step hstart schedule
  refine ⟨ys, hys, hfollows.world, fun t r hdone => ?_⟩
  have hmutes := hfollows.calls t
  rw [runFrom] at hdone
  rw [hdone] at hmutes
  generalize hq : ((SafetyLifecycle.start svc calls safety).run Safety.perform ys).threads t =
    muted at hmutes
  cases hmutes
  exact hq

end Refinement

section Accounts

variable {α β : Type}

/-- The alert that a request has stored. -/
def insertedAlert : (Σ op, Op.Res op) → Option EmergencyAlert
  | ⟨.safety (.insertAlert alert), .ok _⟩ => some alert
  | _ => none

/-- The alert whose goroutine a request has started. -/
def startedAlert : (Σ op, Op.Res op) → Option EmergencyAlert
  | ⟨.go alert, _⟩ => some alert
  | _ => none

def Silent : Op → Prop
  | .safety (.insertAlert _) | .go _ => False
  | _ => True

theorem Silent.insertedAlert {op : Op} (h : Silent op) (r : op.Res) :
    insertedAlert ⟨op, r⟩ = none := by
  cases op with
  | safety op => cases op <;> first | rfl | exact h.elim
  | go alert => rfl
  | users | goroutine | selectPhone | post => rfl

theorem Silent.startedAlert {op : Op} (h : Silent op) (r : op.Res) :
    startedAlert ⟨op, r⟩ = none := by
  cases op with
  | go alert => exact h.elim
  | safety | users | goroutine | selectPhone | post => rfl

theorem Outside.silent (op : Op) (h : Outside op) : Silent op := by
  cases op with
  | safety | go => exact h.elim
  | users | goroutine | selectPhone | post => trivial

/-- A program that starts a goroutine for each alert as soon as it has stored it, and no other;
the first index is the alert that has none yet. -/
inductive Pays : Option EmergencyAlert → Notifying α → Prop
  | done (a : α) : Pays none (.done a)
  | other {op : Op} {next : op.Res → Notifying α} (hop : Silent op) (h : ∀ r, Pays none (next r)) :
    Pays none (.request op next)
  | insert {alert : EmergencyAlert} {next : Except String Unit → Notifying α}
    (hfail : ∀ e, Pays none (next (.error e))) (h : ∀ u, Pays (some alert) (next (.ok u))) :
    Pays none (.request (.safety (.insertAlert alert)) next)
  | go {alert : EmergencyAlert} {next : Unit → Notifying α} (h : Pays none (next ())) :
    Pays (some alert) (.request (.go alert) next)

theorem pays_of_issues {p : Notifying α} (h : p.Issues Silent) : Pays none p := by
  induction p with
  | done a => exact .done a
  | request op next ih => exact .other h.1 fun r => ih r (h.2 r)

theorem Pays.bind {owed : Option EmergencyAlert} {p : Notifying α} {k : α → Notifying β}
    (h : Pays owed p) (hk : ∀ a, Pays none (k a)) : Pays owed (p >>= k) := by
  induction h with
  | done a => exact hk a
  | other hop _ ih => exact .other hop ih
  | insert _ _ ihfail ih => exact .insert ihfail ih
  | go _ ih => exact .go ih

/-- The goroutines it has started are those of the alerts it has stored, up to one. -/
theorem Pays.after {owed : Option EmergencyAlert} {p q : Notifying α} {es : List (Σ op, Op.Res op)}
    (h : Pays owed p) (hafter : p.After es q) : ∃ owed', Pays owed' q ∧
      owed.toList ++ es.filterMap insertedAlert = es.filterMap startedAlert ++ owed'.toList := by
  induction hafter generalizing owed with
  | start p => exact ⟨owed, h, by simp⟩
  | @answered op next r es p _ ih =>
    cases h with
    | other hop hnext =>
      obtain ⟨owed', hpays, heq⟩ := ih (hnext r)
      refine ⟨owed', hpays, ?_⟩
      rw [List.filterMap_cons_none (hop.insertedAlert r),
        List.filterMap_cons_none (hop.startedAlert r)]
      exact heq
    | insert hfail hnext =>
      cases r with
      | error e => exact ih (hfail e)
      | ok u => exact ih (hnext u)
    | @go alert _ hnext =>
      obtain ⟨owed', hpays, heq⟩ := ih hnext
      exact ⟨owed', hpays, congrArg (alert :: ·) heq⟩

theorem pays_triggerAlert (userID : UUID) (alertType : String) (lat lng : Option ℚ) :
    Pays none (triggerAlert userID alertType lat lng) := by
  refine .other trivial fun id => .other trivial fun createdAt => .other trivial fun updatedAt => ?_
  exact .insert (fun e => .done _) fun u => .go (.done _)

theorem pays_processRows (s : CheckInService) (rows : List MissedCheckIn) :
    Pays none (processRows s rows) := by
  induction rows with
  | nil => exact .done ()
  | cons row rest ih =>
    unfold processRows
    refine .other trivial fun next => ?_
    cases next with
    | error e => exact .done ()
    | ok _ =>
    refine .other trivial fun scan => ?_
    cases scan with
    | error e => exact ih
    | ok _ =>
    refine .other trivial fun now => .other trivial fun updated => ?_
    cases updated with
    | error e => exact ih
    | ok _ =>
      change Pays none (if s.emergencySvc = true then _ else _)
      split
      · exact (pays_triggerAlert row.userID "safety" none none).bind fun _ => ih
      · exact ih

theorem pays_processMissedCheckIns (s : CheckInService) : Pays none (processMissedCheckIns s) := by
  refine .other trivial fun r => ?_
  cases r with
  | error e => exact .done ()
  | ok rows => exact pays_processRows s rows

theorem pays_ofSafety {p : Safety α} (h : p.Issues fun op => Silent (.safety op)) :
    Pays none (ofSafety p) := pays_of_issues (h.embed fun _ hop => hop)

theorem pays_callProgram (svc : CheckInService) (call : SafetyLifecycle.Call) :
    Pays none (callProgram svc call) := by
  cases call with
  | triggerAlert userID alertType lat lng =>
    exact (pays_triggerAlert userID alertType lat lng).bind fun r => .done _
  | processMissedCheckIns => exact (pays_processMissedCheckIns svc).bind fun _ => .done _
  | scheduleCheckIn userID input =>
    refine pays_ofSafety (.map (.request trivial fun now => ?_) _)
    change Program.Issues _ (if input.scheduledAt < now then _ else _)
    split
    · trivial
    · refine .request trivial fun id => .request trivial fun createdAt =>
        .request trivial fun updatedAt => .request trivial fun r => ?_
      cases r <;> trivial
  | completeCheckIn checkInID userID =>
    refine pays_ofSafety (.map (.request trivial fun r => ?_) _)
    cases r with
    | error e => trivial
    | ok chk =>
      change Program.Issues _ (if chk.userID ≠ userID then _ else if chk.status ≠ .pending then _
        else _)
      split
      · trivial
      split
      · trivial
      refine .request trivial fun now => .request trivial fun r => ?_
      cases r <;> trivial
  | getCheckIn checkInID userID =>
    refine pays_ofSafety (.map (.request trivial fun r => ?_) _)
    cases r <;> trivial
  | listCheckIns userID status =>
    refine pays_ofSafety (.map (.request trivial fun r => ?_) _)
    cases r with
    | error e => trivial
    | ok rows => exact Safety.issues_scanRows trivial trivial _ [] rows
  | resolveAlert alertID resolverID =>
    refine pays_ofSafety (.map (.request trivial fun now => .request trivial fun r => ?_) _)
    cases r with
    | error e => trivial
    | ok _ =>
      refine .request trivial fun r => ?_
      cases r <;> trivial
  | listAlerts userID status =>
    refine pays_ofSafety (.map (.request trivial fun r => ?_) _)
    cases r with
    | error e => trivial
    | ok rows => exact Safety.issues_scanRows trivial trivial _ [] rows

theorem pays_program {ι κ : Type} (cfg : Settings) (hmac : Hmac) (serverCfg : Config)
    (svc : CheckInService) (calls : ι → SafetyLifecycle.Call) (auths : κ → AuthRuns.Call)
    (u : Thread ι κ) : Pays none (program cfg hmac serverCfg svc calls auths u) := by
  cases u with
  | call t => exact (pays_callProgram svc (calls t)).bind fun r => .done _
  | auth k =>
    exact pays_of_issues (.map (Program.Issues.embed (Program.issues_any _) fun _ _ => trivial) _)
  | goroutine n =>
    exact pays_of_issues (.map ((issues_goroutine cfg n).mono Outside.silent) _)

end Accounts

section Tables

variable {ι κ : Type} (cfg : Settings) (safety : SafetyStore)

/-- Two requests that are about different alerts, if about any. -/
def Apart (alertOf : (Σ op, Op.Res op) → Option EmergencyAlert)
    (e e' : Event Op.Res (Thread ι κ)) : Prop :=
  ∀ a, alertOf e.request = some a → ∀ a', alertOf e'.request = some a' → a.id ≠ a'.id

instance (alertOf : (Σ op, Op.Res op) → Option EmergencyAlert) :
    Std.Symm (Apart (ι := ι) (κ := κ) alertOf) where
  symm _ _ h a ha a' ha' := (h a' ha' a ha).symm

theorem nodup_iff_apart {alertOf : (Σ op, Op.Res op) → Option EmergencyAlert}
    {events : List (Event Op.Res (Thread ι κ))} :
    ((events.filterMap fun e => alertOf e.request).map EmergencyAlert.id).Nodup ↔
      events.Pairwise (Apart alertOf) := by
  rw [List.Nodup, List.pairwise_map, List.pairwise_filterMap]
  rfl

/-- What the requests so far say of the alerts and the goroutines. -/
structure Tables (s : Shared ι κ) : Prop where
  goroutines : s.world.goroutines = s.history.reverse.filterMap fun e => startedAlert e.request
  stored : ∀ e ∈ s.history, ∀ a, insertedAlert e.request = some a →
    ∃ a', s.world.safety.alerts.find? a.id = some a' ∧ Later a a'
  once : s.history.Pairwise (Apart insertedAlert)
  origin : ∀ a' ∈ s.world.safety.alerts.rows, (∃ a₀ ∈ safety.alerts.rows, Later a₀ a') ∨
    ∃ e ∈ s.history, ∃ a, insertedAlert e.request = some a ∧ Later a a'
  begun : ∀ e ∈ s.history, ∀ n alert, e.request = ⟨.goroutine n, some alert⟩ →
    s.world.goroutines[n]? = some alert

/-- What one more request does to the alerts and the goroutines. -/
structure Extends (s s' : Shared ι κ) (e : Event Op.Res (Thread ι κ)) : Prop where
  history : s'.history = e :: s.history
  goroutines : s'.world.goroutines = s.world.goroutines ++ (startedAlert e.request).toList
  rows : ∀ id a, s.world.safety.alerts.find? id = some a →
    ∃ a', s'.world.safety.alerts.find? id = some a' ∧ Later a a'
  inserted : ∀ a, insertedAlert e.request = some a → s.world.safety.alerts.find? a.id = none ∧
    s'.world.safety.alerts.find? a.id = some a
  origin : ∀ a' ∈ s'.world.safety.alerts.rows, (∃ a ∈ s.world.safety.alerts.rows, Later a a') ∨
    insertedAlert e.request = some a'
  begun : ∀ n alert, e.request = ⟨.goroutine n, some alert⟩ → s.world.goroutines[n]? = some alert

variable {safety} in
theorem Tables.extend {s s' : Shared ι κ} {e : Event Op.Res (Thread ι κ)} (h : Tables safety s)
    (he : Extends s s' e) : Tables safety s' where
  goroutines := by
    rw [he.goroutines, he.history, List.reverse_cons, List.filterMap_append, ← h.goroutines]
    cases hstarted : startedAlert e.request <;> simp [hstarted]
  stored := by
    rw [he.history]
    intro e' he' a ha
    rcases List.mem_cons.mp he' with rfl | he'
    · exact ⟨a, (he.inserted a ha).2, .inl rfl⟩
    · obtain ⟨b, hb, hab⟩ := h.stored e' he' a ha
      obtain ⟨c, hc, hbc⟩ := he.rows _ b hb
      exact ⟨c, hc, hab.trans hbc⟩
  once := by
    rw [he.history]
    refine List.pairwise_cons.mpr ⟨fun e' he' a ha a' ha' hid => ?_, h.once⟩
    obtain ⟨b, hb, -⟩ := h.stored e' he' a' ha'
    have hfresh := (he.inserted a ha).1
    rw [hid, hb] at hfresh
    cases hfresh
  origin := by
    intro a' ha'
    rcases he.origin a' ha' with ⟨a, ha, hlater⟩ | hnew
    · rcases h.origin a ha with ⟨a₀, ha₀, h₀⟩ | ⟨e', he', b, hb, hba⟩
      · exact .inl ⟨a₀, ha₀, h₀.trans hlater⟩
      · exact .inr ⟨e', he.history ▸ List.mem_cons_of_mem _ he', b, hb, hba.trans hlater⟩
    · exact .inr ⟨e, he.history ▸ List.mem_cons_self, a', hnew, .inl rfl⟩
  begun := by
    rw [he.history, he.goroutines]
    intro e' he' n alert hbegin
    have hn : s.world.goroutines[n]? = some alert := by
      rcases List.mem_cons.mp he' with rfl | he'
      · exact he.begun n alert hbegin
      · exact h.begun e' he' n alert hbegin
    rw [List.getElem?_append_left (List.getElem?_eq_some_iff.mp hn).1, hn]

theorem begun_of_ne {u : Thread ι κ} {op : Op} {r : op.Res} (hop : ∀ n, op ≠ .goroutine n)
    {goroutines : List EmergencyAlert} (n : ℕ) (alert : EmergencyAlert)
    (h : Event.request ⟨u, op, r⟩ = ⟨.goroutine n, some alert⟩) : goroutines[n]? = some alert :=
  absurd (congrArg Sigma.fst h) (hop n)

/-- Requests that touch neither. -/
theorem extends_of_same {s s' : Shared ι κ} {e : Event Op.Res (Thread ι κ)}
    (hhistory : s'.history = e :: s.history) (hstarted : startedAlert e.request = none)
    (hinserted : insertedAlert e.request = none)
    (hgoroutines : s'.world.goroutines = s.world.goroutines)
    (halerts : s'.world.safety.alerts = s.world.safety.alerts)
    (hbegun : ∀ n alert, e.request = ⟨.goroutine n, some alert⟩ →
      s.world.goroutines[n]? = some alert) : Extends s s' e where
  history := hhistory
  goroutines := by simp [hstarted, hgoroutines]
  rows id a ha := ⟨a, halerts ▸ ha, .inl rfl⟩
  inserted a ha := by simp [hinserted] at ha
  origin a' ha' := .inl ⟨a', halerts ▸ ha', .inl rfl⟩
  begun := hbegun

/-- The requests of the services that leave the alerts alone. -/
theorem exec_alerts {op : SafetyOp} (hinsert : ∀ a, op ≠ .insertAlert a)
    (hresolve : ∀ r c u id, op ≠ .updateResolved r c u id) (w : SafetyStore) (env : Env) :
    (w.exec op env).1.alerts = w.alerts := by
  have hattempt : ∀ {β : Type} {out : SafetyStore × Except String β}, out.1.alerts = w.alerts →
      (env.attempt w out).1.alerts = w.alerts :=
    fun h => env.attempt_keeps (P := fun w' : SafetyStore => w'.alerts = w.alerts) rfl h
  cases op with
  | timeNow | newUUID => rfl
  | insertCheckIn chk =>
    refine hattempt ?_
    unfold SafetyStore.insertCheckIn
    split <;> rfl
  | insertAlert a => exact absurd rfl (hinsert a)
  | updateResolved r c u id => exact absurd rfl (hresolve r c u id)
  | rowsNext | rowsScan | updateCompleted | updateMissed | selectCheckInForUpdate
    | selectCheckInOfUser | selectCheckInsOfUser | selectMissedForUpdate | selectAlert
    | selectAlertsOfUser => exact hattempt rfl

/-- An alert is stored under an identifier that was free. -/
theorem extends_insertAlert (u : Thread ι κ) (s : Shared ι κ) (alert : EmergencyAlert)
    (env : UserEnv) : Extends s (perform cfg u s (.safety (.insertAlert alert)) env).1
      ⟨u, .safety (.insertAlert alert),
        (s.world.safety.exec (.insertAlert alert) env.toEnv).2⟩ := by
  rcases SafetyStore.exec_insertAlert s.world.safety alert env.toEnv with ⟨e, he⟩ | ⟨tbl, ht, he⟩
  · refine extends_of_same rfl rfl ?_ rfl (congrArg (fun out => out.1.alerts) he)
      (begun_of_ne (by nofun))
    rw [he]
    rfl
  · have halerts : (perform cfg u s (.safety (.insertAlert alert)) env).1.world.safety.alerts =
        tbl := congrArg (fun out => out.1.alerts) he
    have hinserted : ∀ a, insertedAlert (Event.request ⟨u, .safety (.insertAlert alert),
        (s.world.safety.exec (.insertAlert alert) env.toEnv).2⟩) = some a ↔ alert = a := by
      intro a
      rw [he]
      exact Option.some_inj
    refine ⟨rfl, (List.append_nil _).symm, fun id a ha => ⟨a, ?_, .inl rfl⟩, fun a ha => ?_,
      fun a' ha' => ?_, begun_of_ne (by nofun)⟩
    · rw [halerts, Table.find?_insert ht, if_neg, ha]
      rintro rfl
      rw [(Table.insert_eq_some.mp ht).1] at ha
      cases ha
    · obtain rfl := (hinserted a).mp ha
      rw [halerts, Table.find?_insert ht, if_pos rfl]
      exact ⟨(Table.insert_eq_some.mp ht).1, rfl⟩
    · rw [halerts, Table.mem_insert ht] at ha'
      rcases ha' with ha' | rfl
      · exact .inl ⟨a', ha', .inl rfl⟩
      · exact .inr ((hinserted a').mpr rfl)

theorem extends_updateResolved (u : Thread ι κ) (s : Shared ι κ) (resolverID : UUID)
    (resolvedAt updatedAt : Time) (id : UUID) (env : UserEnv) :
    Extends s (perform cfg u s (.safety (.updateResolved resolverID resolvedAt updatedAt id)) env).1
      ⟨u, .safety (.updateResolved resolverID resolvedAt updatedAt id),
        (s.world.safety.exec (.updateResolved resolverID resolvedAt updatedAt id)
          env.toEnv).2⟩ := by
  rcases SafetyStore.exec_updateResolved s.world.safety resolverID resolvedAt updatedAt id
    env.toEnv with ⟨e, he⟩ | he
  · exact extends_of_same rfl rfl rfl rfl (congrArg (fun out => out.1.alerts) he)
      (begun_of_ne (by nofun))
  · have halerts : (perform cfg u s (.safety (.updateResolved resolverID resolvedAt updatedAt id))
        env).1.world.safety.alerts =
          (s.world.safety.updateResolved resolverID resolvedAt updatedAt id).alerts :=
      congrArg (fun out => out.1.alerts) he
    have hlater : ∀ a, Later a (if a.id = id ∧ a.status = .active then
        a.resolve resolverID resolvedAt updatedAt else a) := by
      intro a
      split
      · rename_i hactive
        exact .inr ⟨hactive.2, resolverID, resolvedAt, updatedAt, rfl⟩
      · exact .inl rfl
    refine ⟨rfl, (List.append_nil _).symm, fun i a ha => ?_,
      fun a ha => absurd ha (Option.some_ne_none a).symm, fun a' ha' => ?_, begun_of_ne (by nofun)⟩
    · rw [halerts, SafetyStore.find?_updateResolved, ha]
      refine ⟨_, rfl, ?_⟩
      rw [← Table.key_of_find? ha]
      exact hlater a
    · rw [halerts, SafetyStore.updateResolved] at ha'
      simp only [Table.mem_updateWhere, decide_eq_true_eq] at ha'
      obtain ⟨a, ha, rfl⟩ := ha'
      exact .inl ⟨a, ha, hlater a⟩

/-- What a request of the services does to the alerts. -/
theorem extends_safety (u : Thread ι κ) (s : Shared ι κ) (op : SafetyOp) (env : UserEnv) :
    Extends s (perform cfg u s (.safety op) env).1
      ⟨u, .safety op, (s.world.safety.exec op env.toEnv).2⟩ := by
  by_cases hinsert : ∃ a, op = .insertAlert a
  · obtain ⟨alert, rfl⟩ := hinsert
    exact extends_insertAlert cfg u s alert env
  by_cases hresolve : ∃ r c u id, op = .updateResolved r c u id
  · obtain ⟨resolverID, resolvedAt, updatedAt, id, rfl⟩ := hresolve
    exact extends_updateResolved cfg u s resolverID resolvedAt updatedAt id env
  have hsilent : Silent (.safety op) := by
    cases op <;> first | trivial | exact (hinsert ⟨_, rfl⟩).elim
  refine extends_of_same rfl (hsilent.startedAlert _) (hsilent.insertedAlert _) rfl ?_
    (begun_of_ne (by nofun))
  exact exec_alerts (fun a ha => hinsert ⟨a, ha⟩)
    (fun r c u id h => hresolve ⟨r, c, u, id, h⟩) s.world.safety env.toEnv

theorem extends_perform (u : Thread ι κ) (s : Shared ι κ) (op : Op) (env : UserEnv) :
    Extends s (perform cfg u s op env).1 ⟨u, op, (exec cfg s.world op env).2⟩ := by
  cases op with
  | safety op => exact extends_safety cfg u s op env
  | users op => exact extends_of_same rfl rfl rfl rfl rfl (begun_of_ne (by nofun))
  | go alert =>
    refine ⟨rfl, rfl, fun id a ha => ⟨a, ha, .inl rfl⟩,
      fun a ha => absurd ha (Option.some_ne_none a).symm, fun a' ha' => ?_, begun_of_ne (by nofun)⟩
    exact .inl ⟨a', ha', .inl rfl⟩
  | goroutine n =>
    refine extends_of_same rfl rfl rfl rfl rfl fun m alert h => ?_
    simp only [Event.request, Sigma.mk.injEq, Op.goroutine.injEq] at h
    obtain ⟨rfl, hfound⟩ := h
    exact eq_of_heq hfound
  | selectPhone userID =>
    refine extends_of_same rfl rfl rfl ?_ ?_ (begun_of_ne (by nofun))
    · exact env.attempt_keeps (P := fun w' : World => w'.goroutines = s.world.goroutines) rfl rfl
    · exact env.attempt_keeps
        (P := fun w' : World => w'.safety.alerts = s.world.safety.alerts) rfl rfl
  | post message => exact extends_of_same rfl rfl rfl rfl rfl (begun_of_ne (by nofun))

end Tables

section Goroutines

variable {ι κ : Type} [DecidableEq ι] [DecidableEq κ] (cfg : Settings) (hmac : Hmac)
  (serverCfg : Config) (svc : CheckInService) (calls : ι → SafetyLifecycle.Call)
  (auths : κ → AuthRuns.Call) (safety : SafetyStore) (users : UserTable)

variable {cfg hmac serverCfg svc calls auths safety users} in
theorem run_tables (schedule : List (Thread ι κ × UserEnv)) :
    Tables safety (runFrom cfg hmac serverCfg svc calls auths safety users schedule).state := by
  have hissues : ∀ u, ((start cfg hmac serverCfg svc calls auths safety users).threads u).Issues
      fun _ => True := fun u => Program.issues_any _
  have hrun : Tables safety (start cfg hmac serverCfg svc calls auths safety users).state →
      Tables safety (runFrom cfg hmac serverCfg svc calls auths safety users schedule).state :=
    Contract.run_along (fun s s' => Tables safety s → Tables safety s') (fun _ => id)
      (fun _ _ _ h₁ h₂ h => h₂ (h₁ h))
      (fun u s op env _ h => h.extend (extends_perform cfg u s op env)) hissues schedule
  exact hrun ⟨rfl, fun e he => absurd he List.not_mem_nil, .nil,
    fun a' ha' => .inl ⟨a', ha', .inl rfl⟩, fun e he => absurd he List.not_mem_nil⟩

variable {cfg hmac serverCfg svc calls auths safety users} in
/-- What a thread has left to run is what its own requests leave of its program. -/
theorem run_after (schedule : List (Thread ι κ × UserEnv)) (u : Thread ι κ) :
    (program cfg hmac serverCfg svc calls auths u).After
      (requestsOf u
        (runFrom cfg hmac serverCfg svc calls auths safety users schedule).state.history)
      ((runFrom cfg hmac serverCfg svc calls auths safety users schedule).threads u) :=
  Pool.after_run (exec cfg) (fun _ => .start _) schedule u

omit [DecidableEq ι] [DecidableEq κ] in
theorem Pays.owes {α : Type} {a : EmergencyAlert} {p : Notifying α} (h : Pays (some a) p) :
    ∃ next, p = .request (.go a) next := by
  cases h with
  | go h => exact ⟨_, rfl⟩

section Threads

variable [DecidableEq (Thread ι κ)] {events : List (Event Op.Res (Thread ι κ))}

omit [DecidableEq ι] [DecidableEq κ]

theorem mem_filterMap_thread {alertOf : (Σ op, Op.Res op) → Option EmergencyAlert} {u : Thread ι κ}
    {a : EmergencyAlert} :
    a ∈ (events.filter fun e => e.thread = u).filterMap (fun e => alertOf e.request) ↔
      ∃ e ∈ events, e.thread = u ∧ alertOf e.request = some a := by
  simp [and_assoc]

/-- The alerts that a thread has started goroutines of come first among those it has stored. -/
def Owed (events : List (Event Op.Res (Thread ι κ))) (u : Thread ι κ)
    (owed : Option EmergencyAlert) : Prop :=
  (events.filter fun e => e.thread = u).filterMap (fun e => insertedAlert e.request) =
    (events.filter fun e => e.thread = u).filterMap (fun e => startedAlert e.request) ++
      owed.toList

/-- Who starts a goroutine has stored its alert. -/
theorem Owed.exists_inserted {e : Event Op.Res (Thread ι κ)} {owed : Option EmergencyAlert}
    (h : Owed events e.thread owed) (he : e ∈ events) {a : EmergencyAlert}
    (ha : startedAlert e.request = some a) :
    ∃ e' ∈ events, e'.thread = e.thread ∧ insertedAlert e'.request = some a := by
  have hmem := List.mem_append_left owed.toList (mem_filterMap_thread.mpr ⟨e, he, rfl, ha⟩)
  rw [← h] at hmem
  exact mem_filterMap_thread.mp hmem

theorem pairwise_started (honce : events.Pairwise (Apart insertedAlert))
    (howed : ∀ u, ∃ owed, Owed events u owed) : events.Pairwise (Apart startedAlert) := by
  refine pairwise_of_threads (fun u => ?_) fun e he e' he' hne a ha a' ha' => ?_
  · obtain ⟨owed, heq⟩ := howed u
    have hown : (events.filter fun e => e.thread = u).Pairwise (Apart insertedAlert) :=
      honce.sublist List.filter_sublist
    have hnodup := nodup_iff_apart.mpr hown
    rw [heq, List.map_append] at hnodup
    exact nodup_iff_apart.mp hnodup.of_append_left
  · obtain ⟨owed, hu⟩ := howed e.thread
    obtain ⟨owed', hu'⟩ := howed e'.thread
    obtain ⟨b, hb, hbt, hba⟩ := hu.exists_inserted he ha
    obtain ⟨b', hb', hbt', hba'⟩ := hu'.exists_inserted he' ha'
    have hbne : b ≠ b' := by
      rintro rfl
      exact hne (hbt.symm.trans hbt')
    exact honce.forall hb hb' hbne a hba a' hba'

end Threads

/-- A thread owes at most one goroutine, which it starts next. -/
theorem exists_owed (schedule : List (Thread ι κ × UserEnv)) (u : Thread ι κ) :
    ∃ owed, (∀ a, owed = some a → ∃ next,
      (runFrom cfg hmac serverCfg svc calls auths safety users schedule).threads u =
        .request (.go a) next) ∧
      Owed (runFrom cfg hmac serverCfg svc calls auths safety users schedule).state.history.reverse
        u owed := by
  have hafter : (program cfg hmac serverCfg svc calls auths u).After
      (requestsOf u
        (runFrom cfg hmac serverCfg svc calls auths safety users schedule).state.history)
      _ := run_after schedule u
  obtain ⟨owed, hpays, heq⟩ := (pays_program cfg hmac serverCfg svc calls auths u).after hafter
  rw [requestsOf, List.filterMap_map, List.filterMap_map] at heq
  refine ⟨owed, ?_, heq⟩
  rintro a rfl
  exact hpays.owes

/-- Goroutines and alerts. -/
structure Accounted (p : Pool Op.Res (Shared ι κ) (Thread ι κ) Reply) : Prop where
  /-- No two goroutines are of one alert. -/
  once : (p.state.world.goroutines.map EmergencyAlert.id).Nodup
  stored : ∀ a ∈ p.state.world.goroutines,
    ∃ a', p.state.world.safety.alerts.find? a.id = some a' ∧ Later a a'
  started : ∀ a' ∈ p.state.world.safety.alerts.rows, (∃ a₀ ∈ safety.alerts.rows, Later a₀ a') ∨
    (∃ a ∈ p.state.world.goroutines, Later a a') ∨
      ∃ u a next, p.threads u = .request (.go a) next ∧ Later a a'

/-- Each goroutine is of an alert that is stored, each of another; and an alert that was not there
at the start has its goroutine, or the call that has stored it starts it next. -/
theorem run_accounted (schedule : List (Thread ι κ × UserEnv)) :
    Accounted safety (runFrom cfg hmac serverCfg svc calls auths safety users schedule) := by
  have htables : Tables safety
      (runFrom cfg hmac serverCfg svc calls auths safety users schedule).state :=
    run_tables schedule
  have howed := exists_owed cfg hmac serverCfg svc calls auths safety users schedule
  generalize runFrom cfg hmac serverCfg svc calls auths safety users schedule = p at htables howed
  refine ⟨?_, fun a ha => ?_, fun a' ha' => ?_⟩
  · rw [htables.goroutines]
    refine nodup_iff_apart.mpr (pairwise_started ?_ fun u => ?_)
    · exact List.pairwise_reverse.mpr (htables.once.imp fun h => symm h)
    · obtain ⟨owed, -, heq⟩ := howed u
      exact ⟨owed, heq⟩
  · rw [htables.goroutines] at ha
    obtain ⟨e, he, hstarted⟩ := List.mem_filterMap.mp ha
    obtain ⟨owed, -, heq⟩ := howed e.thread
    obtain ⟨e', he', -, hinserted⟩ := heq.exists_inserted he hstarted
    exact htables.stored e' (List.mem_reverse.mp he') a hinserted
  · rcases htables.origin a' ha' with hold | ⟨e, he, a, hinserted, hlater⟩
    · exact .inl hold
    · obtain ⟨owed, hnext, heq⟩ := howed e.thread
      have hmem := mem_filterMap_thread.mpr ⟨e, List.mem_reverse.mpr he, rfl, hinserted⟩
      rw [heq, List.mem_append, Option.mem_toList] at hmem
      rcases hmem with hstarted | rfl
      · obtain ⟨e', he', -, hstarted⟩ := mem_filterMap_thread.mp hstarted
        refine .inr (.inl ⟨a, ?_, hlater⟩)
        rw [htables.goroutines]
        exact List.mem_filterMap.mpr ⟨e', he', hstarted⟩
      · obtain ⟨next, hthread⟩ := hnext a rfl
        exact .inr (.inr ⟨e.thread, a, next, hthread, hlater⟩)

end Goroutines

end SafetyDao.Notifications
