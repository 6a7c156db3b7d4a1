import SafetyDao.CheckinServer
import SafetyDao.IdentityLookup
import SafetyDao.ServiceAccess

/-!
# What requests do to the tables

The handlers that look for an identity find none, whoever asks. So whatever requests come in,
in whatever order their statements interleave with each other and with passes of the monitor,
no check-in, report, proposal or vote is ever made, and what is read of reports and proposals
is what was there at the start.
-/
namespace SafetyDao.CheckinServer
open Checkin (Endpoint HandlerRun ServiceCall handle serveHTTP)
open IdentityLookup (plainKey)
open LikePattern (Folding)

section Identity

variable {jwtParse : (secret token : Text) → Option MapClaims} {cfg : Config}

/-- What is true of a request whatever its context, its path and the parameters of the path are
is true when it gets to the handler. -/
theorem serveHTTP_keeps {pre : HttpRequest → Prop}
    (hpath : ∀ r path, pre r → pre { r with routePath := path })
    (hparams : ∀ r params, pre r → pre { r with urlParams := r.urlParams ++ params })
    (hrouted : ∀ r, pre r → pre (Checkin.routed r))
    (hsignIn : ∀ r claims, pre r → pre { r with context := Checkin.signIn claims r.context }) :
    Handler.Meets pre (fun _ => pre) (serveHTTP jwtParse cfg) := by
  have hmiddleware : ∀ m, (Checkin.middleware jwtParse cfg m :
      Middleware GoValue GoValue Endpoint).Takes pre pre := by
    intro m
    cases m with
    | jwtAuth =>
      intro post next hnext r hr
      cases hauth : Checkin.authenticate jwtParse cfg r with
      | error e =>
        rw [Checkin.middleware, Checkin.jwtAuth_error jwtParse cfg hauth]
        trivial
      | ok claims =>
        rw [Checkin.middleware, Checkin.jwtAuth_ok jwtParse cfg hauth]
        exact hnext _ (hsignIn r claims hr)
    | roleAuth roles => exact IdentityLookup.roleAuth_takes roles pre
    | realIP | recoverer | requestLogging | corsMiddleware =>
      exact IdentityLookup.middleware_takes pre (by simp [Checkin.routerUse])
  have hroutes : Checkin.setupRoutes.Meets (Checkin.middleware jwtParse cfg) pre (fun _ => pre) :=
    Routes.meets_of_keeps hpath hparams fun m _ => hmiddleware m
  intro r hr
  refine chain_meets ?_ hroutes.serve _ (hrouted r hr)
  intro mw hmw
  obtain ⟨m, -, rfl⟩ := List.mem_map.mp hmw
  exact hmiddleware m

/-- Nothing is stored under the key that the handlers look up. -/
def Plain (r : HttpRequest) : Prop := r.context.value plainKey = none

/-- No middleware of the service stores anything under that key. -/
theorem serveHTTP_plain : Handler.Meets Plain (fun _ => Plain) (serveHTTP jwtParse cfg) := by
  refine serveHTTP_keeps (fun _ _ h => h) (fun _ _ h => h) (fun r hr => ?_) fun r claims hr => ?_
  · rw [Plain, Checkin.routed, Context.value_withValue_of_ne _ _ (by decide)]
    exact hr
  · rw [Plain, Checkin.signIn, Context.value_withValue_of_ne _ _ (by decide),
      Context.value_withValue_of_ne _ _ (by decide)]
    exact hr

/-- Handlers read the query as it came. -/
theorem serveHTTP_query (query : List (Text × Text)) :
    Handler.Meets (fun r => r.query = query) (fun _ r => r.query = query)
      (serveHTTP jwtParse cfg) :=
  serveHTTP_keeps (fun _ _ h => h) (fun _ _ h => h) (fun _ h => h) fun _ _ h => h

end Identity

/-! ## The statements that requests come to -/

section Statements

variable {F32 : Type}

/-- Reads of reports and proposals, which are all that the handlers without an identity do. -/
def Reads : Op F32 → Prop
  | .dao op => DaoStore.readOnly op = true
  | .registry (.table op) => ReportStore.readOnly op = true
  | _ => False

/-- The statements of registration and login. -/
def SigningIn : Op F32 → Prop
  | .users op => UserTable.readOnly op = true ∨
      ∃ user, op = .upsertUser user ∧ user.role = "user".toList
  | _ => False

theorem issues_respond (hmac : JsonWebToken.Hmac) (cfg : Config) (u : User) :
    (AuthRuns.respond hmac cfg u).Issues (fun op => UserTable.readOnly op = true ∨
      ∃ user, op = .upsertUser user ∧ user.role = "user".toList) :=
  .request (.inl rfl) fun _ => .request (.inl rfl) fun _ => trivial

theorem issues_login (hmac : JsonWebToken.Hmac) (cfg : Config) (walletAddress : String) :
    (AuthRuns.login hmac cfg walletAddress).Issues (fun op => UserTable.readOnly op = true ∨
      ∃ user, op = .upsertUser user ∧ user.role = "user".toList) := by
  refine .request (.inl rfl) fun r => ?_
  cases r with
  | error e => trivial
  | ok row => exact issues_respond hmac cfg row

theorem issues_register (hmac : JsonWebToken.Hmac) (cfg : Config) (req : RegisterRequest) :
    (AuthRuns.register hmac cfg req).Issues (fun op => UserTable.readOnly op = true ∨
      ∃ user, op = .upsertUser user ∧ user.role = "user".toList) := by
  refine .request (.inl rfl) fun id => .request (.inl rfl) fun createdAt => ?_
  refine .request (.inl rfl) fun updatedAt => .request (.inr ⟨_, rfl, rfl⟩) fun r => ?_
  cases r with
  | error e => trivial
  | ok _ =>
  refine .request (.inl rfl) fun r => ?_
  cases r with
  | error e => trivial
  | ok row => exact issues_respond hmac cfg row

theorem issues_getProposal (id : UUID) :
    (DaoService.getProposal id).Issues fun op => DaoStore.readOnly op = true := by
  refine .request rfl fun r => ?_
  cases r <;> trivial

theorem issues_listProposals (status : String) :
    (DaoService.listProposals status).Issues fun op => DaoStore.readOnly op = true := by
  refine .request rfl fun r => ?_
  cases r with
  | error e => trivial
  | ok rows =>
    refine Program.Issues.scanRows ?_ ?_ _ _ _
    · exact ⟨rfl, fun _ => trivial⟩
    · exact ⟨rfl, fun _ => trivial⟩

theorem issues_getResults (id : UUID) :
    (DaoService.getResults id).Issues fun op => DaoStore.readOnly op = true := by
  refine (issues_getProposal id).bind fun r => ?_
  cases r with
  | error e => trivial
  | ok proposal =>
    refine .request rfl fun r => ?_
    cases r <;> trivial

theorem issues_getReport (id : UUID) :
    (RegistryService.getReport id).Issues fun op => ReportStore.readOnly op = true := by
  refine .request rfl fun r => ?_
  cases r <;> trivial

theorem issues_searchReports (query category status : String) :
    (RegistryService.searchReports query category status).Issues
      fun op => ReportStore.readOnly op = true := by
  refine .request rfl fun r => ?_
  cases r with
  | error e => trivial
  | ok rows =>
    refine Program.Issues.scanRows ?_ ?_ _ _ _
    · exact ⟨rfl, fun _ => trivial⟩
    · exact ⟨rfl, fun _ => trivial⟩

theorem issues_ofDao {α : Type} {p : Dao α} (h : p.Issues fun op => DaoStore.readOnly op = true) :
    (ofDao p : Server F32 α).Issues Reads := h.embed fun _ hop => hop

theorem issues_ofTable {α : Type} {p : Reporting α}
    (h : p.Issues fun op => ReportStore.readOnly op = true) :
    (RegistrySystem.ofTable p : RegistrySystem.Registering F32 α).Issues
      fun op => Reads (.registry op) := h.embed fun _ hop => hop

theorem issues_ofRegistry {α : Type} {p : RegistrySystem.Registering F32 α}
    (h : p.Issues fun op => Reads (.registry op)) : (ofRegistry p).Issues Reads :=
  h.embed fun _ hop => hop

end Statements

/-! ## What becomes of the tables -/

section Tables

variable {F32 : Type}

/-- The check-in is as it was, or a pass has turned it from pending to missed. -/
def OnlyMissed (chk chk' : CheckIn) : Prop :=
  chk' = chk ∨ chk.status = .pending ∧ ∃ updatedAt, chk' = chk.miss updatedAt

theorem OnlyMissed.id_eq {chk chk' : CheckIn} (h : OnlyMissed chk chk') : chk'.id = chk.id := by
  rcases h with rfl | ⟨-, u, rfl⟩
  · rfl
  · rfl

theorem OnlyMissed.of_pending {chk chk' : CheckIn} (h : OnlyMissed chk chk')
    (hp : chk'.status = .pending) : chk' = chk := by
  rcases h with rfl | ⟨-, u, rfl⟩
  · rfl
  · cases hp

theorem OnlyMissed.miss {chk chk' : CheckIn} (h : OnlyMissed chk chk') (hp : chk.status = .pending)
    (updatedAt : Time) : OnlyMissed chk (chk'.miss updatedAt) := by
  rcases h with rfl | ⟨-, u, rfl⟩
  · exact .inr ⟨hp, updatedAt, rfl⟩
  · exact .inr ⟨hp, updatedAt, rfl⟩

/-- The row that a pass selects is of a check-in that was pending at the start. -/
def WasPending (w : SafetyStore) (row : MissedCheckIn) : Prop :=
  ∃ chk ∈ w.checkIns.rows, chk.status = .pending ∧ chk.toMissed = row

/-- An alert that a pass raises for a check-in that was pending at the start. -/
def RaisedFor (w : SafetyStore) (a : EmergencyAlert) : Prop :=
  ∃ chk ∈ w.checkIns.rows, chk.status = .pending ∧ ∃ id createdAt updatedAt,
    a = EmergencyService.newAlert id chk.userID "safety" none none createdAt updatedAt

/-- What passes do to the tables of the check-in and the emergency service. -/
structure Passed (w w' : SafetyStore) : Prop where
  kept : ∀ chk ∈ w.checkIns.rows, ∃ chk' ∈ w'.checkIns.rows, OnlyMissed chk chk'
  origin : ∀ chk' ∈ w'.checkIns.rows, ∃ chk ∈ w.checkIns.rows, OnlyMissed chk chk'
  alerts : ∃ raised, w'.alerts.rows = w.alerts.rows ++ raised ∧ ∀ a ∈ raised, RaisedFor w a

theorem Passed.refl (w : SafetyStore) : Passed w w where
  kept chk hchk := ⟨chk, hchk, .inl rfl⟩
  origin chk hchk := ⟨chk, hchk, .inl rfl⟩
  alerts := ⟨[], by simp, by simp⟩

/-- What a pass selects was pending at the start. -/
theorem Passed.selected {w w' : SafetyStore} (h : Passed w w') {env : Env} {row : MissedCheckIn}
    (hrow : row ∈ w'.selectMissed env) : WasPending w row := by
  obtain ⟨chk', hchk', ⟨hpending, -⟩, rfl⟩ := SafetyStore.mem_selectMissed.mp hrow
  obtain ⟨chk, hchk, honly⟩ := h.origin chk' hchk'
  obtain rfl := honly.of_pending hpending
  exact ⟨chk', hchk, hpending, rfl⟩

theorem Passed.updateMissed {w w' : SafetyStore} (h : Passed w w') {row : MissedCheckIn}
    (hrow : WasPending w row) (updatedAt : Time) : Passed w (w'.updateMissed updatedAt row.id) := by
  obtain ⟨chk₀, hchk₀, hpending, rfl⟩ := hrow
  have honly : ∀ chk ∈ w.checkIns.rows, ∀ chk', OnlyMissed chk chk' →
      OnlyMissed chk (if chk'.id = chk₀.id then chk'.miss updatedAt else chk') := by
    intro chk hchk chk' h'
    split
    · rename_i hid
      obtain rfl := w.checkIns.eq_of_key_eq hchk hchk₀ (h'.id_eq.symm.trans hid)
      exact h'.miss hpending updatedAt
    · exact h'
  have hrows : ∀ chk', chk' ∈ (w'.updateMissed updatedAt chk₀.id).checkIns.rows ↔
      ∃ chk ∈ w'.checkIns.rows, (if chk.id = chk₀.id then chk.miss updatedAt else chk) = chk' :=
    fun chk' => by simp only [SafetyStore.updateMissed, Table.mem_update]
  refine ⟨fun chk hchk => ?_, fun chk' hchk' => ?_, h.alerts⟩
  · obtain ⟨chk', hchk', h'⟩ := h.kept chk hchk
    exact ⟨_, (hrows _).mpr ⟨chk', hchk', rfl⟩, honly chk hchk chk' h'⟩
  · obtain ⟨chk'', hchk'', rfl⟩ := (hrows chk').mp hchk'
    obtain ⟨chk, hchk, h'⟩ := h.origin chk'' hchk''
    exact ⟨chk, hchk, honly chk hchk chk'' h'⟩

theorem Passed.insertAlert {w w' : SafetyStore} (h : Passed w w') {a : EmergencyAlert}
    (ha : RaisedFor w a) (env : Env) : Passed w (w'.exec (.insertAlert a) env).1 := by
  rcases SafetyStore.exec_insertAlert w' a env with ⟨e, he⟩ | ⟨t, ht, he⟩
  · rw [he]
    exact h
  · rw [he]
    obtain ⟨raised, hrows, hraised⟩ := h.alerts
    refine ⟨h.kept, h.origin, raised ++ [a], ?_, ?_⟩
    · rw [← List.append_assoc, ← hrows]
      exact (Table.insert_eq_some.mp ht).2
    · intro b hb
      rcases List.mem_append.mp hb with hb | hb
      · exact hraised b hb
      · rwa [List.mem_singleton.mp hb]

/-- What requests and passes do to all tables. -/
structure Confined (passes : Prop) (w w' : World F32) : Prop where
  dao : w'.dao = w.dao
  registry : w'.registry = w.registry
  users : ∀ u ∈ w.users.rows, ∃ v ∈ w'.users.rows, u.Same v
  newUsers : ∀ v ∈ w'.users.rows, (∃ u ∈ w.users.rows, u.Same v) ∨ v.role = "user".toList
  safety : Passed w.safety w'.safety
  quiet : ¬ passes → w'.safety = w.safety

variable {passes : Prop} {w w' : World F32}

theorem Confined.refl (passes : Prop) (w : World F32) : Confined passes w w where
  dao := rfl
  registry := rfl
  users u hu := ⟨u, hu, .refl u⟩
  newUsers v hv := .inl ⟨v, hv, .refl v⟩
  safety := .refl w.safety
  quiet _ := rfl

theorem Confined.setSafety (h : Confined passes w w') {safety : SafetyStore}
    (hpassed : Passed w.safety safety) (hpasses : passes) :
    Confined passes w { w' with safety := safety } :=
  ⟨h.dao, h.registry, h.users, h.newUsers, hpassed, fun hnot => absurd hpasses hnot⟩

theorem Confined.setUsers (h : Confined passes w w') {user : User} {users : UserTable}
    (hrole : user.role = "user".toList) (hupserted : UserTable.Upserted user w'.users users) :
    Confined passes w { w' with users := users } := by
  refine ⟨h.dao, h.registry, fun u hu => ?_, fun x hx => ?_, h.safety, h.quiet⟩
  · obtain ⟨v, hv, huv⟩ := h.users u hu
    obtain ⟨x, hx, hvx⟩ := hupserted.kept v hv
    exact ⟨x, hx, huv.trans hvx⟩
  · rcases hupserted.origin x hx with ⟨v, hv, hvx⟩ | rfl
    · rcases h.newUsers v hv with ⟨u, hu, huv⟩ | hv
      · exact .inl ⟨u, hu, huv.trans hvx⟩
      · exact .inr (hvx.role.trans hv)
    · exact .inr hrole

end Tables

section Steps

variable {F32 F64 : Type} [Mul F32] [OfNat F64 0] [OfNat F64 2] [OfScientific F64] [Add F64]
  [Sub F64] [Mul F64] [Div F64] [BEq F64] [LT F64] [DecidableLT F64]
  (floats : RegistrySystem.Floats F32 F64) {F : Folding} {passes : Prop} {w w' : World F32}

theorem exec_reads {op : Op F32} (hop : Reads op) (w : World F32) (c : ServerEnv) :
    (exec floats F w op c).1 = w := by
  cases op with
  | users op => cases hop
  | safety op => cases hop
  | dao op =>
    have hdao : (w.dao.exec op c.env.toEnv).1 = w.dao := DaoStore.exec_readOnly hop _ _
    simp only [exec, hdao]
  | registry op =>
    cases op with
    | submit op => cases hop
    | index op => cases hop
    | respond r => cases hop
    | table op =>
      have htable : (w.registry.reports.exec F op c.env.toEnv).1 = w.registry.reports :=
        ReportStore.exec_readOnly hop F _ _
      simp only [exec, RegistrySystem.exec, htable]

/-- A read answers what it would have answered at the start. -/
theorem Confined.exec_reads_alone (h : Confined passes w w') {op : Op F32} (hop : Reads op)
    (c : ServerEnv) : exec floats F w op c = (w, (exec floats F w' op c).2) := by
  refine Prod.ext (exec_reads floats hop w c) ?_
  cases op with
  | users op => cases hop
  | safety op => cases hop
  | dao op => rw [exec, exec, h.dao]
  | registry op => rw [exec, exec, h.registry]

theorem Confined.exec_signingIn (h : Confined passes w w') {op : Op F32} (hop : SigningIn op)
    (c : ServerEnv) : Confined passes w (exec floats F w' op c).1 := by
  cases op with
  | safety op => cases hop
  | dao op => cases hop
  | registry op => cases hop
  | users op =>
    rcases hop with hread | ⟨user, rfl, hrole⟩
    · have husers : (w'.users.exec op c.env).1 = w'.users := UserTable.exec_readOnly hread _ _
      simp only [exec, husers]
      exact h
    · exact h.setUsers hrole (UserTable.exec_upsertUser _ _ _)


section Contracts

variable (F : Folding) (passes : Prop) (w : World F32)

/-- A thread keeps to what requests and passes do. -/
def Moves (s s' : World F32) : Prop := Confined passes w s → Confined passes w s'

def contract {α : Type} (post : α → Prop) : Contract (World F32) α :=
  ⟨Moves passes w, Moves passes w, fun a _ => post a⟩

def anyRequest {ι : Type} (_ : ι) (_ : World F32) (_ : Op F32) (_ : ServerEnv) : Prop := True

variable {floats F passes w} {ι α : Type} {t : ι} {s : World F32}

/-- A read of the two services' tables. -/
theorem holds_readOnly {op : SafetyOp} (hop : SafetyStore.readOnly op = true)
    {next : op.Res → Server F32 α} {post : α → Prop} (hs : Confined passes w s)
    (hnext : ∀ c s', Confined passes w s' → Contract.Holds (perform F floats) anyRequest t
      (contract passes w post) (next (s'.safety.exec op c).2) s') :
    Contract.Holds (perform F floats) anyRequest t (contract passes w post)
      (.request (.safety op) next) s := by
  have hsame : ∀ s c, (perform F floats t s (.safety op) c).1 = s := by
    intro s c
    have hsafety : (s.safety.exec op c.env.toEnv).1 = s.safety := SafetyStore.exec_readOnly hop _ _
    simp only [perform, exec, hsafety]
  refine Contract.Holds.of_moves (P := Confined passes w) (fun _ _ hm h => hm h) (fun s c h => ?_)
    hs fun s c h _ _ => ?_
  · rwa [hsame]
  · rw [hsame]
    exact hnext c.env.toEnv s h

/-- A statement of a pass that writes. -/
theorem holds_write (hpasses : passes) {op : SafetyOp}
    (hop : ∀ w' c, Passed w.safety w' → Passed w.safety (w'.exec op c).1)
    {next : op.Res → Server F32 α} {post : α → Prop} (hs : Confined passes w s)
    (hnext : ∀ r s', Confined passes w s' → Contract.Holds (perform F floats) anyRequest t
      (contract passes w post) (next r) s') :
    Contract.Holds (perform F floats) anyRequest t (contract passes w post)
      (.request (.safety op) next) s := by
  refine Contract.Holds.of_moves (P := Confined passes w) (fun _ _ hm h => hm h) (fun s c h => ?_)
    hs fun s c h _ h' => hnext _ _ h'
  exact h.setSafety (hop _ _ h.safety) hpasses

theorem passed_updateMissed {w w' : SafetyStore} {row : MissedCheckIn} (hrow : WasPending w row)
    (updatedAt : Time) (c : Env) (h : Passed w w') :
    Passed w (w'.exec (.updateMissed updatedAt row.id) c).1 := by
  rcases SafetyStore.exec_updateMissed w' updatedAt row.id c with ⟨e, he⟩ | he
  · rw [he]
    exact h
  · rw [he]
    exact h.updateMissed hrow updatedAt

/-- A pass goes through rows that were pending at the start, one after the other. -/
theorem holds_processRows (hpasses : passes) (svc : CheckInService) {rows : List MissedCheckIn}
    (hrows : ∀ row ∈ rows, WasPending w.safety row) (hs : Confined passes w s) :
    Contract.Holds (perform F floats) anyRequest t (contract passes w fun _ => True)
      (ofSafety (svc.processRows rows)) s := by
  induction rows generalizing s with
  | nil => exact fun _ _ => trivial
  | cons row rest ih =>
    have hrow : WasPending w.safety row := hrows row List.mem_cons_self
    have hrest : ∀ {s}, Confined passes w s → Contract.Holds (perform F floats) anyRequest t
        (contract passes w fun _ => True) (ofSafety (svc.processRows rest)) s := fun h =>
      ih (fun row' hrow' => hrows row' (List.mem_cons_of_mem _ hrow')) h
    simp only [ofSafety, CheckInService.processRows, Program.call_bind, Program.embed_request]
    refine holds_readOnly rfl hs fun c s₁ hs₁ => ?_
    cases (s₁.safety.exec .rowsNext c).2 with
    | error e => exact fun _ _ => trivial
    | ok _ =>
    refine holds_readOnly rfl hs₁ fun c s₂ hs₂ => ?_
    cases (s₂.safety.exec .rowsScan c).2 with
    | error e => exact hrest hs₂
    | ok _ =>
    refine holds_readOnly rfl hs₂ fun c s₃ hs₃ => ?_
    refine holds_write hpasses (fun w' c h => passed_updateMissed hrow _ c h) hs₃
      fun r s₄ hs₄ => ?_
    cases r with
    | error e => exact hrest hs₄
    | ok _ =>
    dsimp only
    split
    · simp only [EmergencyService.triggerAlert, Program.call_bind, Program.request_bind,
        Program.embed_request]
      refine holds_readOnly rfl hs₄ fun c s₅ hs₅ => ?_
      refine holds_readOnly rfl hs₅ fun c s₆ hs₆ => ?_
      refine holds_readOnly rfl hs₆ fun c s₇ hs₇ => ?_
      obtain ⟨chk, hchk, hpending, rfl⟩ := hrow
      refine holds_write hpasses (fun w' c h => h.insertAlert
        ⟨chk, hchk, hpending, _, _, _, rfl⟩ c) hs₇ fun r s₈ hs₈ => ?_
      cases r with
      | error e => exact hrest hs₈
      | ok _ => exact hrest hs₈
    · exact hrest hs₄

theorem holds_pass (hpasses : passes) (svc : CheckInService) (hs : Confined passes w s) :
    Contract.Holds (perform F floats) anyRequest t (contract passes w fun _ => True)
      (ofSafety svc.processMissedCheckIns) s := by
  simp only [ofSafety, CheckInService.processMissedCheckIns, Program.call_bind,
    Program.embed_request]
  refine holds_readOnly rfl hs fun c s₁ hs₁ => ?_
  cases hrows : (s₁.safety.exec .selectMissedForUpdate c).2 with
  | error e => exact fun _ _ => trivial
  | ok rows =>
    refine holds_processRows hpasses svc (fun row hrow => ?_) hs₁
    rw [SafetyStore.exec_selectMissedForUpdate hrows] at hrow
    exact hs₁.safety.selected hrow

end Contracts

end Steps

/-! ## Runs -/

theorem Arrival.query_reached {F32 F64 : Type} {setup : Setup F32 F64} {a : Arrival}
    {e : Endpoint} {r : HttpRequest} {recovers : Bool}
    (h : a.dispatched setup = .reached e r recovers) : r.query = a.query := by
  have hmeets : (a.dispatched setup).Meets (fun _ r => r.query = a.query) :=
    serveHTTP_query a.query _ rfl
  rw [h] at hmeets
  exact hmeets

variable {F32 F64 : Type} [OfNat F32 0] [OfNat F32 255] [Add F32] [Mul F32] [Div F32]
  [OfNat F64 0] [OfNat F64 2] [Add F64] [Sub F64] [Mul F64] [Div F64] [LT F64] [DecidableLT F64]
  {setup : Setup F32 F64}

/-- The handler of the request is one that looks for an identity. -/
def Arrival.Identifies (setup : Setup F32 F64) (a : Arrival) : Prop :=
  ∃ e params, (a.dispatched setup).arrival = some (e, params) ∧ e.readsIdentity = true

/-- The request is a registration or a login. -/
def Arrival.SignsIn (setup : Setup F32 F64) (a : Arrival) : Prop :=
  ∃ e params, (a.dispatched setup).arrival = some (e, params) ∧ (e = .register ∨ e = .login)

theorem Arrival.program_identifies {a : Arrival} (h : a.Identifies setup) :
    a.program setup = .done .recovered := by
  obtain ⟨e, params, harrival, hreads⟩ := h
  obtain ⟨r, recovers, hreached, -⟩ := Dispatched.arrival_eq_some.mp harrival
  have hmeets : (a.dispatched setup).Meets (fun _ => Plain) := serveHTTP_plain _ rfl
  rw [hreached] at hmeets
  obtain rfl : recovers = true := Checkin.reached_recovers hreached
  rw [program, hreached]
  dsimp only
  rw [IdentityLookup.handle_panicked setup.json hmeets hreads]
  rfl

/-- A handler without an identity reads, unless it signs somebody in. -/
theorem issues_callProgram {e : Endpoint} {r : HttpRequest} {call : ServiceCall}
    {onError : List Checkin.ErrorReply} {onSuccess : ℕ}
    (h : handle setup.json e r = .called call onError onSuccess) (hplain : Plain r) :
    (callProgram setup call).Issues Reads ∨
      (e = .register ∨ e = .login) ∧ (callProgram setup call).Issues SigningIn := by
  by_cases hreads : e.readsIdentity = true
  · rw [IdentityLookup.handle_panicked setup.json hplain hreads] at h
    cases h
  cases e with
  | createCheckIn | listCheckIns | getCheckIn | completeCheckIn | triggerAlert | listAlerts
  | resolveAlert | submitReport | updateReportStatus | createProposal | castVote =>
    exact absurd rfl hreads
  | register =>
    simp only [handle, Checkin.register, Checkin.decodeBody] at h
    split at h
    · cases h
    split at h
    · cases h
    cases h
    exact .inr ⟨.inl rfl, Program.Issues.map ((issues_register _ _ _).embed fun _ h => h) _⟩
  | login =>
    simp only [handle, Checkin.login, Checkin.decodeBody] at h
    split at h
    · cases h
    split at h
    · cases h
    cases h
    exact .inr ⟨.inr rfl, Program.Issues.map ((issues_login _ _ _).embed fun _ h => h) _⟩
  | searchReports =>
    cases h
    exact .inl (.map (issues_ofRegistry (.map (issues_ofTable (issues_searchReports _ _ _)) _)) _)
  | getReport =>
    cases h
    exact .inl (.map (issues_ofRegistry (.map (issues_ofTable (issues_getReport _)) _)) _)
  | listProposals =>
    cases h
    exact .inl (.map (issues_ofDao (issues_listProposals _)) _)
  | getProposal =>
    cases h
    exact .inl (.map (issues_ofDao (issues_getProposal _)) _)
  | getResults =>
    cases h
    exact .inl (.map (issues_ofDao (issues_getResults _)) _)

/-- Requests that sign nobody in only read. -/
theorem Arrival.issues_program (a : Arrival) : (a.program setup).Issues Reads ∨
    a.SignsIn setup ∧ (a.program setup).Issues SigningIn := by
  have hmeets : (a.dispatched setup).Meets (fun _ => Plain) := serveHTTP_plain _ rfl
  unfold program
  cases hd : a.dispatched setup with
  | answered status body => exact .inl trivial
  | reached e r recovers =>
    rw [hd] at hmeets
    dsimp only
    cases hrun : handle setup.json e r with
    | panicked message => exact .inl trivial
    | respondError status message => exact .inl trivial
    | called call onError onSuccess =>
      rcases issues_callProgram hrun hmeets with h | ⟨he, h⟩
      · exact .inl (h.map _)
      · exact .inr ⟨⟨e, r.urlParams, by rw [hd]; rfl, he⟩, h.map _⟩

variable [OfScientific F64] [BEq F64] {F : Folding} {passes : Prop} {w : World F32} {ι : Type}

/-- A request replies what it would have replied alone at the start, or it signs somebody in. -/
theorem holds_request (a : Arrival) {t : ι} {s : World F32} (hs : Confined passes w s) :
    Contract.Holds (perform F setup.floats) anyRequest t (contract passes w fun reply =>
      ¬ a.SignsIn setup → (a.program setup).Completes (exec setup.floats F) w reply w)
      (a.program setup) s := by
  have hprogram : (a.program setup).Issues Reads ∨
      a.SignsIn setup ∧ (a.program setup).Issues SigningIn := a.issues_program
  rcases hprogram with hreads | ⟨hsigns, hissues⟩
  · have halone : Contract.Holds (perform F setup.floats) anyRequest t
        ⟨Moves passes w, Moves passes w, fun reply _ =>
          (a.program setup).Completes (exec setup.floats F) w reply w⟩ (a.program setup) s := by
      refine Contract.Holds.alone (P := Confined passes w) (fun _ _ hm h => hm h) ?_ ?_ hreads hs
      · intro s op c hop _ h
        rwa [perform, exec_reads setup.floats hop]
      · exact fun s op c hop h => h.exec_reads_alone setup.floats hop c
    exact halone.imp fun _ _ h _ => h
  · exact Contract.Holds.of_issues (fun s op c hop _ h => h.exec_signingIn setup.floats hop c)
      (fun _ _ hnot => absurd hsigns hnot) hissues s

/-- What a task is to end with: a request that signs nobody in with the reply that it would have
got alone at the start. -/
def Replies (setup : Setup F32 F64) (F : Folding) (w : World F32) (task : Task)
    (r : Option HttpReply) : Prop :=
  ∀ a, task = .request a → ¬ a.SignsIn setup →
    ∃ reply, r = some reply ∧ (a.program setup).Completes (exec setup.floats F) w reply w

theorem holds_program {task : Task} (hpasses : ∀ svc, task = .pass svc → passes) {t : ι}
    {s : World F32} (hs : Confined passes w s) :
    Contract.Holds (perform F setup.floats) anyRequest t
      (contract passes w (Replies setup F w task)) (task.program setup) s := by
  rw [Task.program.eq_def]
  cases task with
  | request a =>
    refine Contract.Holds.bind (fun _ => id) (holds_request a hs) fun reply s' h _ _ => ?_
    rintro a' ⟨⟩ hsigns
    exact ⟨reply, rfl, h hsigns⟩
  | pass svc =>
    refine Contract.Holds.bind (fun _ => id) (holds_pass (hpasses svc rfl) svc hs) ?_
    intro _ s' _ _ _ a ha
    cases ha

section Runs

variable [DecidableEq ι] (setup) (F) (w) (tasks : ι → Task) (schedule : List (ι × ServerEnv))

theorem run_sound {passes : Prop} (hpasses : ∀ t svc, tasks t = .pass svc → passes) :
    (∀ t, Contract.Holds (perform F setup.floats) anyRequest t
      (contract passes w (Replies setup F w (tasks t)))
      ((reached setup F w tasks schedule).threads t) (reached setup F w tasks schedule).state) ∧
    Moves passes w w (reached setup F w tasks schedule).state :=
  Contract.run_shared (fun _ => id) (fun _ _ _ h₁ h₂ h => h₂ (h₁ h))
    (Pool.guarded_of_forall (fun _ _ _ _ => trivial) _ schedule)
    fun t => holds_program (hpasses t) (.refl passes w)

/-- Whatever comes in over HTTP, and however its statements interleave: proposals, votes, reports
and the index stay as they are, users only register, and the passes of the monitor are all that
ever happens to check-ins and alerts. -/
theorem run_confined :
    Confined (∃ t svc, tasks t = .pass svc) w (reached setup F w tasks schedule).state :=
  (run_sound setup F w tasks schedule fun t svc h => ⟨t, svc, h⟩).2 (.refl _ w)

/-- Whatever else runs, a request that signs nobody in gets the reply that it would have got alone
at the start, and one that needs an identity gets an empty reply of status 500. -/
theorem run_replies (t : ι) (a : Arrival) (ht : tasks t = .request a) (r : Option HttpReply)
    (hdone : (reached setup F w tasks schedule).threads t = .done r) :
    (¬ a.SignsIn setup →
      ∃ reply, r = some reply ∧ (a.program setup).Completes (exec setup.floats F) w reply w) ∧
    (a.Identifies setup → r = some .recovered) := by
  have hpasses : ∀ t svc, tasks t = .pass svc → ∃ t svc, tasks t = .pass svc :=
    fun t svc h => ⟨t, svc, h⟩
  have hreply : ¬ a.SignsIn setup →
      ∃ reply, r = some reply ∧ (a.program setup).Completes (exec setup.floats F) w reply w :=
    ((run_sound setup F w tasks schedule hpasses).1 t).done hdone (fun _ => id) a ht
  refine ⟨hreply, fun hidentifies => ?_⟩
  have hnot : ¬ a.SignsIn setup := by
    rintro ⟨e, params, harrival, he⟩
    obtain ⟨e', params', harrival', hreads⟩ := hidentifies
    rw [harrival, Option.some.injEq, Prod.mk.injEq] at harrival'
    obtain ⟨rfl, -⟩ := harrival'
    rcases he with rfl | rfl <;> cases hreads
  obtain ⟨reply, hr, cs, hcs⟩ := hreply hnot
  rw [Arrival.program_identifies hidentifies, Program.run] at hcs
  cases hcs
  exact hr

end Runs

section Witness

def plainSetup : Setup ℚ ℚ where
  uuidOf _ := 0
  hmac _ _ _ := []
  cfg := IdentityLookup.secretConfig
  json := IdentityLookup.noInput
  texts := ⟨toString, toString⟩
  floats := ⟨fun b => b.toNat, id, id⟩
  qdrant := false

/-- A proposal that can be voted on, and a check-in that is overdue. -/
def openProposal : DAOProposal := ⟨5, 7, "hours", "", .active, 3, 100, 1, 1⟩

def overdue : CheckIn := ⟨4, 7, 1, none, .pending, "", 0, 0⟩

def smallWorld : World ℚ where
  users := ⟨.empty, List.nodup_nil, fun _ h => by cases h⟩
  safety := ⟨⟨[overdue], List.nodup_singleton _⟩, .empty⟩
  dao := ⟨⟨[openProposal], List.nodup_singleton _⟩, .empty⟩
  registry := ⟨.empty, ⟨⟨false, []⟩, fun _ => .empty, []⟩⟩

/-- What Alice asks for. -/
def aliceGets (path : Text) : Arrival :=
  ⟨"GET".toList, path, [("Authorization".toList, "Bearer alice-token".toList)], [], [],
    IdentityLookup.parseAlice⟩

inductive Visit where
  | proposals
  | checkIns
  | pass
  deriving DecidableEq

/-- Alice lists the proposals and her check-ins, beside a pass of the monitor. -/
def aliceAndPass : Visit → Task
  | .proposals => .request (aliceGets "/api/v1/dao/proposals".toList)
  | .checkIns => .request (aliceGets "/api/v1/checkins".toList)
  | .pass => .pass ⟨true⟩

/-- The pass marks the check-in as missed while the proposals are listed. -/
def aliceSchedule : List (Visit × ServerEnv) :=
  let turns : List Visit := [.pass, .proposals, .pass, .pass, .pass, .proposals, .pass, .pass,
    .proposals, .pass, .pass, .pass]
  turns.map fun t =>
    (t, ⟨⟨.good 9 90, [], 9⟩, .response ⟨200, "", .ok ()⟩, .response ⟨200, "", .ok []⟩, true⟩)

theorem dispatched_proposals : ∃ r recovers,
    (aliceGets "/api/v1/dao/proposals".toList).dispatched plainSetup =
      .reached .listProposals r recovers ∧ r.query = [] := by
  have harrival : ((aliceGets "/api/v1/dao/proposals".toList).dispatched plainSetup).arrival =
      some (.listProposals, []) := by decide +kernel
  obtain ⟨r, recovers, hreached, -⟩ := Dispatched.arrival_eq_some.mp harrival
  exact ⟨r, recovers, hreached, Arrival.query_reached hreached⟩

theorem program_proposals : (aliceGets "/api/v1/dao/proposals".toList).program plainSetup =
    .ofOutcome [⟨500, some "failed to list proposals"⟩] 200 <$>
      callProgram plainSetup (.listProposals []) := by
  obtain ⟨r, recovers, hreached, hquery⟩ := dispatched_proposals
  rw [Arrival.program, hreached]
  dsimp only
  rw [handle, Checkin.listProposals, Request.queryParam, hquery]
  rfl

theorem identifies_checkIns :
    (aliceGets "/api/v1/checkins".toList).Identifies plainSetup := by
  obtain ⟨r, recovers, hreached⟩ := IdentityLookup.listRequest_reached
  have harrival : ((aliceGets "/api/v1/checkins".toList).dispatched plainSetup).arrival =
      some (.listCheckIns, r.urlParams) := congrArg Dispatched.arrival hreached
  exact ⟨.listCheckIns, r.urlParams, harrival, rfl⟩

/-- The programs of the three tasks. -/
def alicePrograms : Visit → Server ℚ (Option HttpReply)
  | .proposals => some <$> (.ofOutcome [⟨500, some "failed to list proposals"⟩] 200 <$>
      callProgram plainSetup (.listProposals []))
  | .checkIns => .done (some .recovered)
  | .pass => (fun _ => none) <$> ofSafety (CheckInService.processMissedCheckIns ⟨true⟩)

theorem start_alice : start plainSetup smallWorld aliceAndPass = ⟨smallWorld, alicePrograms⟩ := by
  refine congrArg (Pool.mk smallWorld) (funext fun t => ?_)
  cases t with
  | proposals => exact congrArg (some <$> ·) program_proposals
  | checkIns => exact congrArg (some <$> ·) (Arrival.program_identifies identifies_checkIns)
  | pass => rfl

/-- While the pass marks the check-in, the proposals are listed as they would have been alone, and
the check-ins are not. -/
theorem alice_replies :
    (reached plainSetup ReportSearch.asciiFolding smallWorld aliceAndPass
      aliceSchedule).state.safety.checkIns.rows.map CheckIn.status = [.missed] ∧
    ((aliceGets "/api/v1/dao/proposals".toList).program plainSetup).Completes
      (exec plainSetup.floats ReportSearch.asciiFolding) smallWorld
      (.respondJSON 200 (.proposals [openProposal])) smallWorld ∧
    ∀ r, (reached plainSetup ReportSearch.asciiFolding smallWorld aliceAndPass
      aliceSchedule).threads .checkIns = .done r → r = some .recovered := by
  have hmissed : (reached plainSetup ReportSearch.asciiFolding smallWorld aliceAndPass
      aliceSchedule).state.safety.checkIns.rows.map CheckIn.status = [.missed] := by
    rw [reached, start_alice]
    rfl
  have hdone : (reached plainSetup ReportSearch.asciiFolding smallWorld aliceAndPass
      aliceSchedule).threads .proposals =
        .done (some (.respondJSON 200 (.proposals [openProposal]))) := by
    rw [reached, start_alice]
    rfl
  have hnot : ¬ (aliceGets "/api/v1/dao/proposals".toList).SignsIn plainSetup := by
    rintro ⟨e, params, harrival, he⟩
    obtain ⟨r, recovers, hreached, -⟩ := dispatched_proposals
    rw [hreached] at harrival
    cases harrival
    rcases he with he | he <;> cases he
  obtain ⟨reply, hreply, hcompletes⟩ := (run_replies plainSetup ReportSearch.asciiFolding smallWorld
    aliceAndPass aliceSchedule .proposals _ rfl _ hdone).1 hnot
  cases hreply
  exact ⟨hmissed, hcompletes, fun r hr => (run_replies plainSetup ReportSearch.asciiFolding
    smallWorld aliceAndPass aliceSchedule .checkIns _ rfl r hr).2 identifies_checkIns⟩

end Witness

end SafetyDao.CheckinServer
