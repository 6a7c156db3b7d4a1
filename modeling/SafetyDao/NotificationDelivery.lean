import SafetyDao.NotificationRuns

/-!
# What a goroutine posts

What is posted about an alert is settled by the alert and by what the goroutine was told of the
phone: at most one SMS, then at most one webhook, whose body decodes to the fields of the alert.
-/
namespace SafetyDao.Notifications
open JsonWebToken (Hmac)
open TwilioSms (lit)

section Messages

variable (cfg : Settings) (alert : EmergencyAlert)

def smsMessage (phone : Except String String) : Option Message :=
  (TwilioSms.dispatchSMS cfg.urlParses cfg.twilio (phone.map fun p => Text.utf8 p.toList)
    (smsAlert cfg alert)).map .sms

def webhookMessage : Option Message :=
  if cfg.emergencyWebhook ≠ [] ∧ cfg.urlParses cfg.emergencyWebhook then
    (cfg.timestamp alert.createdAt).map fun timestamp =>
      .webhook cfg.emergencyWebhook (lit "application/json")
        (Text.utf8 (Json.writeObject Json.escapeGo (payload cfg alert timestamp)))
  else none

/-- What is posted about an alert, in order. -/
def messages (phone : Except String String) : List Message :=
  (smsMessage cfg alert phone).toList ++ (webhookMessage cfg alert).toList

/-- The receiver of a webhook can read the alert. -/
def Readable (body : Bytes) : Prop :=
  ∃ timestamp, cfg.timestamp alert.createdAt = some timestamp ∧
    (Text.ofUtf8 body).bind Json.parse =
      some (.object ((payload cfg alert timestamp).map fun m => (m.1, m.2.toJson)))

theorem readable_of_mem {phone : Except String String} {url contentType body : Bytes}
    (h : .webhook url contentType body ∈ messages cfg alert phone) : Readable cfg alert body := by
  have hwebhook : webhookMessage cfg alert = some (.webhook url contentType body) := by
    rcases List.mem_append.mp h with hsms | hwebhook
    · obtain ⟨request, -, hrequest⟩ := Option.map_eq_some_iff.mp (Option.mem_toList.mp hsms)
      cases hrequest
    · exact Option.mem_toList.mp hwebhook
  unfold webhookMessage at hwebhook
  split at hwebhook
  · obtain ⟨timestamp, htime, hmessage⟩ := Option.map_eq_some_iff.mp hwebhook
    obtain ⟨-, -, rfl⟩ := Message.webhook.inj hmessage
    refine ⟨timestamp, htime, ?_⟩
    rw [Text.ofUtf8_utf8]
    exact Json.parse_writeObject Json.escapeGo_sound (List.cons_ne_nil _ _)
  · cases hwebhook

end Messages

def postedMessage : (Σ op, Op.Res op) → Option Message
  | ⟨.post message, _⟩ => some message
  | _ => none

section Traces

variable {α β : Type} {cfg : Settings} {alert : EmergencyAlert} {es : List (Σ op, Op.Res op)}

/-- If SMS are configured, this is what was answered about the phone. -/
def Read (cfg : Settings) (alert : EmergencyAlert) (phone : Except String String)
    (es : List (Σ op, Op.Res op)) : Prop :=
  smsConfigured cfg → ⟨.selectPhone alert.userID, phone⟩ ∈ es

/-- How far a program has come that posts what depends on the phone: it has asked for the phone
before it posts, and has posted all when it returns. -/
def Posts (cfg : Settings) (alert : EmergencyAlert)
    (expected : Except String String → List Message) (es : List (Σ op, Op.Res op))
    (p : Notifying α) : Prop :=
  (es.filterMap postedMessage = [] ∧ ∀ a, p ≠ .done a) ∨
    ∃ phone, Read cfg alert phone es ∧ es.filterMap postedMessage <+: expected phone ∧
      ∀ a, p = .done a → es.filterMap postedMessage = expected phone

theorem smsMessage_of_configured (h : smsConfigured cfg) (phone : String) :
    smsMessage cfg alert (.ok phone) = if phone ≠ "" then
      (TwilioSms.sendTwilioSMS cfg.urlParses cfg.twilio (Text.utf8 phone.toList)
        (smsAlert cfg alert)).map .sms else none := by
  have hempty : Text.utf8 phone.toList ≠ [] ↔ phone ≠ "" := by
    rw [not_iff_not]
    constructor
    · intro h
      have hlist : phone.toList = [] := Text.utf8_injective (h.trans rfl)
      exact String.toList_eq_nil_iff.mp hlist
    · rintro rfl
      rfl
  have hdispatch : TwilioSms.dispatchSMS cfg.urlParses cfg.twilio
      (.ok (Text.utf8 phone.toList)) (smsAlert cfg alert) = if Text.utf8 phone.toList ≠ [] then
        TwilioSms.sendTwilioSMS cfg.urlParses cfg.twilio (Text.utf8 phone.toList)
          (smsAlert cfg alert) else none := if_pos h
  change Option.map _ (TwilioSms.dispatchSMS _ _ (.ok (Text.utf8 phone.toList)) _) = _
  rw [hdispatch]
  simp only [hempty]
  split <;> rfl

theorem smsMessage_error (e : String) : smsMessage cfg alert (.error e) = none := by
  unfold smsMessage TwilioSms.dispatchSMS
  split <;> rfl

theorem posts_nothing {p : Notifying Unit} (h : (Program.done () : Notifying Unit).After es p) :
    es.filterMap postedMessage <+: [] ∧ ∀ a, p = .done a → es.filterMap postedMessage = [] := by
  obtain ⟨rfl, rfl⟩ := Program.after_done.mp h
  exact ⟨List.nil_prefix, fun _ _ => rfl⟩

theorem posts_post {message : Message} {p : Notifying Unit}
    (h : (Program.call (Op.post message) : Notifying Unit).After es p) :
    es.filterMap postedMessage <+: [message] ∧
      ∀ a, p = .done a → es.filterMap postedMessage = [message] := by
  rcases Program.after_request.mp h with ⟨rfl, rfl⟩ | ⟨r, es', rfl, hdone⟩
  · exact ⟨List.nil_prefix, nofun⟩
  · obtain ⟨rfl, rfl⟩ := Program.after_done.mp hdone
    exact ⟨List.prefix_rfl, fun _ _ => rfl⟩

theorem posts_notifyBySMS {p : Notifying Unit} (h : (notifyBySMS cfg alert).After es p) :
    Posts cfg alert (fun phone => (smsMessage cfg alert phone).toList) es p := by
  unfold notifyBySMS at h
  split at h
  · rename_i hconfigured
    rcases Program.after_request.mp h with ⟨rfl, rfl⟩ | ⟨phone, es', rfl, hnext⟩
    · exact .inl ⟨rfl, nofun⟩
    have hread : Read cfg alert phone (⟨.selectPhone alert.userID, phone⟩ :: es') :=
      fun _ => List.mem_cons_self
    refine .inr ⟨phone, hread, ?_⟩
    rw [List.filterMap_cons_none rfl]
    cases phone with
    | error e =>
      dsimp only
      rw [smsMessage_error]
      exact posts_nothing hnext
    | ok phone =>
      dsimp only
      rw [smsMessage_of_configured hconfigured]
      change Program.After (if phone ≠ "" then sendTwilioSMS cfg alert phone else .done ()) es' p
        at hnext
      split at hnext
      · rename_i hne
        rw [if_pos hne]
        unfold sendTwilioSMS at hnext
        split at hnext
        · rename_i hnone
          rw [hnone]
          exact posts_nothing hnext
        · rename_i request hsome
          rw [hsome]
          exact posts_post hnext
      · rename_i hempty
        rw [if_neg hempty]
        exact posts_nothing hnext
  · rename_i hconfigured
    refine .inr ⟨.error "", fun h => absurd h hconfigured, ?_⟩
    dsimp only
    rw [smsMessage_error]
    exact posts_nothing h

theorem posts_webhook {p : Notifying Unit}
    (h : (if cfg.emergencyWebhook ≠ [] then sendWebhook cfg alert else return ()).After es p) :
    es.filterMap postedMessage <+: (webhookMessage cfg alert).toList ∧
      ∀ a, p = .done a → es.filterMap postedMessage = (webhookMessage cfg alert).toList := by
  unfold webhookMessage
  split at h
  · rename_i hne
    unfold sendWebhook at h
    split at h
    · rename_i htime
      rw [htime, Option.map_none, ite_self]
      exact posts_nothing h
    · rename_i timestamp htime
      rw [htime]
      split at h
      · rename_i hparses
        rw [if_pos ⟨hne, hparses⟩]
        exact posts_post h
      · rename_i hparses
        rw [if_neg fun hboth => hparses hboth.2]
        exact posts_nothing h
  · rename_i hne
    rw [if_neg fun hboth => hne hboth.1]
    exact posts_nothing h

theorem posts_dispatchNotifications {p : Notifying Unit}
    (h : (dispatchNotifications cfg alert).After es p) :
    Posts cfg alert (messages cfg alert) es p := by
  have hboth : ∀ {es₁ es₂ : List (Σ op, Op.Res op)} {a : Unit} {q : Notifying Unit},
      (notifyBySMS cfg alert).After es₁ (.done a) →
      (if cfg.emergencyWebhook ≠ [] then sendWebhook cfg alert else return ()).After es₂ q →
      Posts cfg alert (messages cfg alert) (es₁ ++ es₂) q := by
    intro es₁ es₂ a q h₁ h₂
    rcases posts_notifyBySMS h₁ with ⟨-, hne⟩ | ⟨phone, hread, -, hdone⟩
    · exact absurd rfl (hne a)
    · obtain ⟨hfirst, hall⟩ := posts_webhook h₂
      refine .inr ⟨phone, fun hc => List.mem_append_left _ (hread hc), ?_, fun b hb => ?_⟩
      · rw [List.filterMap_append, hdone a rfl]
        exact (List.prefix_append_right_inj _).mpr hfirst
      · rw [List.filterMap_append, hdone a rfl, hall b hb]
        rfl
  rcases h.of_bind with ⟨p', h₁, rfl⟩ | ⟨a, es₁, es₂, rfl, h₁, h₂⟩
  · cases p' with
    | done a =>
      have hsame := hboth h₁ (.start _)
      rwa [List.append_nil] at hsame
    | request op next =>
      rcases posts_notifyBySMS h₁ with ⟨hnil, -⟩ | ⟨phone, hread, hfirst, -⟩
      · exact .inl ⟨hnil, nofun⟩
      · exact .inr ⟨phone, hread, hfirst.trans (List.prefix_append _ _), nofun⟩
  · exact hboth h₁ h₂

theorem Posts.map {f : α → β} {expected : Except String String → List Message} {p : Notifying α}
    (h : Posts cfg alert expected es p) : Posts cfg alert expected es (f <$> p) := by
  rcases h with ⟨hnil, hne⟩ | ⟨phone, hread, hfirst, hdone⟩
  · refine .inl ⟨hnil, fun b hb => ?_⟩
    obtain ⟨a, ha, -⟩ := Program.map_eq_done hb
    exact hne a ha
  · refine .inr ⟨phone, hread, hfirst, fun b hb => ?_⟩
    obtain ⟨a, ha, -⟩ := Program.map_eq_done hb
    exact hdone a ha

/-- A goroutine waits, or it has begun, with an alert or too early. -/
theorem posts_goroutine {n : ℕ} {p : Notifying Unit} (h : (goroutine cfg n).After es p) :
    (es.filterMap postedMessage = [] ∧ ∀ a, p ≠ .done a) ∨ ⟨.goroutine n, none⟩ ∈ es ∨
      ∃ alert, ⟨.goroutine n, some alert⟩ ∈ es ∧ Posts cfg alert (messages cfg alert) es p := by
  rcases Program.after_request.mp h with ⟨rfl, rfl⟩ | ⟨found, es', rfl, hnext⟩
  · exact .inl ⟨rfl, nofun⟩
  cases found with
  | none => exact .inr (.inl List.mem_cons_self)
  | some alert =>
    refine .inr (.inr ⟨alert, List.mem_cons_self, ?_⟩)
    rcases posts_dispatchNotifications hnext with hwaits | ⟨phone, hread, hposts⟩
    · exact .inl hwaits
    · exact .inr ⟨phone, fun hc => List.mem_cons_of_mem _ (hread hc), hposts⟩

end Traces

section Runs

variable {ι κ : Type} [DecidableEq ι] [DecidableEq κ] (cfg : Settings) (hmac : Hmac)
  (serverCfg : Config) (svc : CheckInService) (calls : ι → SafetyLifecycle.Call)
  (auths : κ → AuthRuns.Call) (safety : SafetyStore) (users : UserTable)

/-- A request that hands nothing to the HTTP client. -/
def Unposted (op : Op) : Prop := ∀ message, op ≠ .post message

theorem Mutes.unposted {α β : Type} {f : β → α} {p : Notifying α} {q : Safety β}
    (h : Mutes f p q) : p.Issues Unposted := by
  induction h with
  | done b => trivial
  | go _ ih => exact .request nofun fun _ => ih
  | safety _ ih => exact .request nofun ih

variable {cfg hmac serverCfg svc calls auths safety users} {schedule : List (Thread ι κ × UserEnv)}

/-- Only goroutines post. -/
theorem thread_of_posted {e : Event Op.Res (Thread ι κ)} {message : Message}
    (he : e ∈ (runFrom cfg hmac serverCfg svc calls auths safety users schedule).state.history)
    (hpost : e.op = .post message) : ∃ n, e.thread = .goroutine n := by
  have hunposted : (program cfg hmac serverCfg svc calls auths e.thread).Issues Unposted →
      ∃ n, e.thread = .goroutine n := by
    intro hissues
    have hafter : (program cfg hmac serverCfg svc calls auths e.thread).After
        (requestsOf e.thread (runFrom cfg hmac serverCfg svc calls auths safety users
          schedule).state.history) _ := run_after schedule e.thread
    exact absurd hpost (hafter.issues hissues e.request (mem_requestsOf.mpr he) message)
  cases hu : e.thread with
  | goroutine n => exact ⟨n, rfl⟩
  | call t =>
    rw [hu] at hunposted
    exact hunposted (.map (mutes_callProgram svc (calls t)).unposted _)
  | auth k =>
    rw [hu] at hunposted
    exact hunposted (.map (Program.Issues.embed (Program.issues_any _) fun op _ => nofun) _)

/-- A goroutine that has begun has its alert. -/
theorem goroutine_begun (hstarted : Pool.Guarded (perform cfg) Started
      (start cfg hmac serverCfg svc calls auths safety users) schedule) {u : Thread ι κ} {n : ℕ} :
    ⟨u, .goroutine n, none⟩ ∉
      (runFrom cfg hmac serverCfg svc calls auths safety users schedule).state.history := by
  intro he
  rcases Pool.exists_moment (exec cfg) he with hnil | ⟨ys, env, zs, next, rfl, hthread, hfound⟩
  · cases hnil
  set pool := (start cfg hmac serverCfg svc calls auths safety users).run
    (Recorded.perform (exec cfg)) ys with hpool
  have hadmits : pool.Admits Started (u, env) := (Pool.guarded_append.mp hstarted).2.1
  simp only [Pool.Admits, hthread] at hadmits
  have hlt : n < pool.state.world.goroutines.length := hadmits n rfl
  have hnone : pool.state.world.goroutines[n]? = none := hfound.symm
  rw [List.getElem?_eq_getElem hlt] at hnone
  cases hnone

variable (cfg hmac serverCfg svc calls auths safety users) in
/-- The number is what the user's row has at some moment of the run. -/
def WasPhone (schedule : List (Thread ι κ × UserEnv)) (userID : UUID) (number : String) : Prop :=
  ∃ xs ys, schedule = xs ++ ys ∧ ∃ user,
    (runFrom cfg hmac serverCfg svc calls auths safety users xs).state.world.users.table.find?
      (cfg.uuid userID) = some user ∧ user.phone = number

theorem wasPhone_of_read {u : Thread ι κ} {userID : UUID} {number : String}
    (he : ⟨u, .selectPhone userID, .ok number⟩ ∈
      (runFrom cfg hmac serverCfg svc calls auths safety users schedule).state.history) :
    WasPhone cfg hmac serverCfg svc calls auths safety users schedule userID number := by
  rcases Pool.exists_moment (exec cfg) he with hnil | ⟨xs, env, ys, next, rfl, -, hread⟩
  · cases hnil
  refine ⟨xs, _, rfl, ?_⟩
  have hrow := queryRow_eq_ok.mp (Env.ok_of_attempt hread.symm)
  obtain ⟨user, huser, hphone⟩ := Option.map_eq_some_iff.mp hrow
  exact ⟨user, huser, hphone⟩

/-- The messages of a goroutine, in order. -/
def posted (n : ℕ) (p : Pool Op.Res (Shared ι κ) (Thread ι κ) Reply) : List Message :=
  (requestsOf (.goroutine n) p.state.history).filterMap postedMessage

variable (cfg) in
/-- A goroutine has not posted yet, or its messages are the first of those that its alert and the
answer to its own question for the phone call for, and all of them if it has ended; who gets a
webhook can read the alert. -/
def Delivers (wasPhone : UUID → String → Prop) (n : ℕ)
    (p : Pool Op.Res (Shared ι κ) (Thread ι κ) Reply) : Prop :=
  (posted n p = [] ∧ ∀ r, p.threads (.goroutine n) ≠ .done r) ∨
    ∃ alert phone, p.state.world.goroutines[n]? = some alert ∧
      Read cfg alert phone (requestsOf (.goroutine n) p.state.history) ∧
      (∀ number, smsConfigured cfg → phone = .ok number → wasPhone alert.userID number) ∧
      posted n p <+: messages cfg alert phone ∧
        (∀ r, p.threads (.goroutine n) = .done r → posted n p = messages cfg alert phone) ∧
          ∀ url contentType body, .webhook url contentType body ∈ posted n p →
            Readable cfg alert body

variable (cfg hmac serverCfg svc calls auths safety users) in
/-- Only goroutines post. A goroutine posts in order what its alert and the answer about the phone
call for, which was the phone of the user at some moment, and all of it before it ends. -/
theorem run_delivers (schedule : List (Thread ι κ × UserEnv))
    (hstarted : Pool.Guarded (perform cfg) Started
      (start cfg hmac serverCfg svc calls auths safety users) schedule) :
    (∀ e ∈ (runFrom cfg hmac serverCfg svc calls auths safety users schedule).state.history,
      ∀ message, e.op = .post message → ∃ n, e.thread = .goroutine n) ∧
    ∀ n, Delivers cfg (WasPhone cfg hmac serverCfg svc calls auths safety users schedule) n
      (runFrom cfg hmac serverCfg svc calls auths safety users schedule) := by
  refine ⟨fun e he message => thread_of_posted he, fun n => ?_⟩
  have htables : Tables safety
      (runFrom cfg hmac serverCfg svc calls auths safety users schedule).state :=
    run_tables schedule
  have hafter : (program cfg hmac serverCfg svc calls auths (.goroutine n)).After
      (requestsOf (.goroutine n)
        (runFrom cfg hmac serverCfg svc calls auths safety users schedule).state.history)
      ((runFrom cfg hmac serverCfg svc calls auths safety users schedule).threads (.goroutine n)) :=
    run_after schedule _
  obtain ⟨p', hrun, hthread⟩ := hafter.of_map
  rw [Delivers, posted, hthread]
  rcases posts_goroutine hrun with ⟨hnil, hne⟩ | hearly | ⟨alert, hbegun, hposts⟩
  · refine .inl ⟨hnil, fun r hr => ?_⟩
    obtain ⟨a, ha, -⟩ := Program.map_eq_done hr
    exact hne a ha
  · exact absurd (mem_requestsOf.mp hearly) (goroutine_begun hstarted)
  · have halert := htables.begun _ (mem_requestsOf.mp hbegun) n alert rfl
    rcases hposts.map (f := fun _ => Reply.notified) with hwaits | ⟨phone, hread, hfirst, hdone⟩
    · exact .inl hwaits
    · refine .inr ⟨alert, phone, halert, hread, ?_, hfirst, hdone,
        fun url contentType body h => ?_⟩
      · rintro number hconfigured rfl
        exact wasPhone_of_read (mem_requestsOf.mp (hread hconfigured))
      · exact readable_of_mem cfg alert (hfirst.subset h)

end Runs

def oneUser : UserTable where
  table := ⟨[⟨"7".toList, "0x7", "user".toList, "Jane", "5550001", 0, 0⟩], by decide⟩
  wallets := by decide
  roles := by decide

def exampleSettings : Settings where
  twilio := TwilioSms.usCfg
  emergencyWebhook := lit "https://hook"
  uuid id := Nat.toDigits 10 id
  timestamp time := some (Json.writeInt time)
  urlParses _ := true

/-- An alert is raised, and its goroutine runs to its end. -/
def raiseAndNotify : List (Thread (Fin 1) Empty × UserEnv) :=
  List.replicate 5 (.call 0, ⟨.good 10 100, [], 10⟩) ++
    List.replicate 4 (.goroutine 0, ⟨.good 11 101, [], 11⟩)

def noKey : Hmac := fun _ _ _ => []

theorem raiseAndNotify_delivered :
    Delivers exampleSettings (WasPhone exampleSettings noKey ⟨[]⟩ ⟨true⟩
      (fun _ : Fin 1 => .triggerAlert 7 "safety" none none) Empty.elim ⟨.empty, .empty⟩ oneUser
      raiseAndNotify) 0 (runFrom exampleSettings noKey ⟨[]⟩ ⟨true⟩
        (fun _ : Fin 1 => .triggerAlert 7 "safety" none none) Empty.elim ⟨.empty, .empty⟩ oneUser
        raiseAndNotify) := by
  refine (run_delivers exampleSettings noKey ⟨[]⟩ ⟨true⟩ _ Empty.elim ⟨.empty, .empty⟩ oneUser
    raiseAndNotify ?_).2 0
  refine ⟨nofun, nofun, nofun, nofun, nofun, ?_, nofun, nofun, nofun, trivial⟩
  rintro n ⟨⟩
  decide

end SafetyDao.Notifications
