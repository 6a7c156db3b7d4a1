import SafetyDao.CheckinHandlers
import SafetyDao.JsonWebToken
import SafetyDao.UserStore

/-!
# Registrations and logins

`Register` inserts a row under an identifier of its own, which loses to a row that the wallet
has already, and reads the wallet's row back before it signs; `Login` only reads. Any number of
them run interleaved, statement by statement, from any table. A row of a wallet is never
replaced, so every token of the wallet names that row.
-/
namespace SafetyDao.AuthRuns
open Checkin (ErrorReply)
open JsonWebToken (Hmac generateToken)
open Users (Shared perform newUUID timeNow upsertUser selectUser)

structure AuthResponse where
  token : Text
  user : User

/-- A column keeps microseconds. -/
def toTime (instant : ℕ) : Time := (instant / 1000 : ℕ)

section Programs

variable (hmac : Hmac) (cfg : Config)

/-- `respondJSON` of a signed row. Signing reads the clock twice. -/
def respond (user : User) : Users (Except ErrorReply AuthResponse) := do
  let issuedAt ← timeNow
  let expiresFrom ← timeNow
  return .ok ⟨generateToken hmac cfg.jwtSecret user.id user.role issuedAt expiresFrom, user⟩

/-- `Register` from its statements on. That the wallet address is not empty is checked before, in
`Checkin.register`. -/
def register (req : RegisterRequest) : Users (Except ErrorReply AuthResponse) := do
  let id ← newUUID
  let createdAt ← timeNow
  let updatedAt ← timeNow
  let user : User := {
    id := id
    walletAddress := req.walletAddress
    role := "user".toList
    displayName := req.displayName
    phone := req.phone
    createdAt := toTime createdAt
    updatedAt := toTime updatedAt }
  match ← upsertUser user with
  | .error _ => return .error ⟨500, some "failed to create user"⟩
  | .ok _ =>
    match ← selectUser req.walletAddress with
    | .error _ => return .error ⟨500, some "registration failed"⟩
    | .ok row => respond hmac cfg row

/-- `Login` from its statement on, behind the same check in `Checkin.login`. -/
def login (walletAddress : String) : Users (Except ErrorReply AuthResponse) := do
  match ← selectUser walletAddress with
  | .error _ => return .error ⟨401, some "user not found"⟩
  | .ok row => respond hmac cfg row

inductive Call where
  | register (req : RegisterRequest)
  | login (walletAddress : String)

def Call.walletAddress : Call → String
  | .register req => req.walletAddress
  | .login walletAddress => walletAddress

def Call.program : Call → Users (Except ErrorReply AuthResponse)
  | .register req => AuthRuns.register hmac cfg req
  | .login walletAddress => AuthRuns.login hmac cfg walletAddress

end Programs

/-- The token is one of the wallet's row: its subject and role are the row's. -/
def Names (token : Text) (u : User) : Prop :=
  ∃ d, JsonWebToken.decode token = some d ∧ d.claims.get? "sub".toList = some (.string u.id) ∧
    d.claims.get? "role".toList = some (.string u.role)

theorem names_generateToken (hmac : Hmac) (secret : Text) (u : User) (issuedAt expiresFrom : ℕ) :
    Names (generateToken hmac secret u.id u.role issuedAt expiresFrom) u := by
  obtain ⟨d, hd, -, hclaims, -⟩ :=
    JsonWebToken.decode_generateToken hmac secret u.id u.role issuedAt expiresFrom
  obtain ⟨-, -, hrole, hsub, -⟩ :=
    JsonWebToken.get?_issuedClaims u.id u.role issuedAt expiresFrom
  rw [← hclaims] at hrole hsub
  exact ⟨d, hd, hsub, hrole⟩

theorem Names.same {token : Text} {u v : User} (h : Names token u) (hsame : u.Same v) :
    Names token v := by
  obtain ⟨d, hd, hsub, hrole⟩ := h
  exact ⟨d, hd, hsame.id ▸ hsub, hsame.role ▸ hrole⟩

variable {ι : Type}

/-- Rows stay those of their wallets, and new ones are of plain users. -/
structure Moves (s s' : Shared ι) : Prop where
  kept : ∀ u ∈ s.world.rows, ∃ v ∈ s'.world.rows, u.Same v
  origin : ∀ v ∈ s'.world.rows, (∃ u ∈ s.world.rows, u.Same v) ∨ v.role = "user".toList

theorem Moves.refl (s : Shared ι) : Moves s s :=
  ⟨fun u hu => ⟨u, hu, .refl u⟩, fun v hv => .inl ⟨v, hv, .refl v⟩⟩

theorem Moves.trans {s₁ s₂ s₃ : Shared ι} (h₁ : Moves s₁ s₂) (h₂ : Moves s₂ s₃) :
    Moves s₁ s₃ := by
  constructor
  · intro u hu
    obtain ⟨v, hv, huv⟩ := h₁.kept u hu
    obtain ⟨x, hx, hvx⟩ := h₂.kept v hv
    exact ⟨x, hx, huv.trans hvx⟩
  · intro x hx
    rcases h₂.origin x hx with ⟨v, hv, hvx⟩ | hrole
    · rcases h₁.origin v hv with ⟨u, hu, huv⟩ | hrole
      · exact .inl ⟨u, hu, huv.trans hvx⟩
      · exact .inr (hvx.role.trans hrole)
    · exact .inr hrole

theorem moves_readOnly {op : UserOp} (hop : UserTable.readOnly op = true) (t : ι) (s : Shared ι)
    (env : UserEnv) : Moves s (perform t s op env).1 := by
  have hworld : (perform t s op env).1.world = s.world := UserTable.exec_readOnly hop s.world env
  constructor
  · intro u hu
    exact ⟨u, hworld ▸ hu, .refl u⟩
  · intro v hv
    exact .inl ⟨v, hworld ▸ hv, .refl v⟩

theorem moves_upsertUser {user : User} (hrole : user.role = "user".toList) (t : ι) (s : Shared ι)
    (env : UserEnv) : Moves s (perform t s (.upsertUser user) env).1 := by
  have hupserted := UserTable.exec_upsertUser s.world user env
  refine ⟨hupserted.kept, fun v hv => ?_⟩
  rcases hupserted.origin v hv with hold | rfl
  · exact .inl hold
  · exact .inr hrole

/-- After an answer with a token, the table has the row of the wallet that it names. -/
def Replied (walletAddress : String) (r : Except ErrorReply AuthResponse) (s : Shared ι) : Prop :=
  ∀ resp, r = .ok resp → ∃ u ∈ s.world.rows, u.walletAddress = walletAddress ∧ Names resp.token u

section Contracts

variable (hmac : Hmac) (cfg : Config)

/-- Every request is admitted. -/
def anyRequest (_ : ι) (_ : Shared ι) (_ : UserOp) (_ : UserEnv) : Prop := True

def contract (walletAddress : String) :
    Contract (Shared ι) (Except ErrorReply AuthResponse) :=
  ⟨Moves, Moves, Replied walletAddress⟩

/-- The table has this version of a row, or a later one. -/
def Stored (u : User) (s : Shared ι) : Prop := ∃ v ∈ s.world.rows, u.Same v

theorem moves_keep_stored (u : User) (s s' : Shared ι) (hm : Moves s s') (h : Stored u s) :
    Stored u s' := by
  obtain ⟨v, hv, huv⟩ := h
  obtain ⟨x, hx, hvx⟩ := hm.kept v hv
  exact ⟨x, hx, huv.trans hvx⟩

variable {t : ι} {walletAddress : String}

theorem holds_error (e : ErrorReply) (s : Shared ι) :
    Contract.Holds perform anyRequest t (contract walletAddress) (.done (.error e)) s :=
  fun _ _ _ hresp => nomatch hresp

/-- A request of which nothing is known but its answer. -/
theorem holds_draw {op : UserOp} (hop : UserTable.readOnly op = true)
    {next : op.Res → Users (Except ErrorReply AuthResponse)} {P : Shared ι → Prop} {s : Shared ι}
    (hstable : ∀ s s', Moves s s' → P s → P s') (hs : P s)
    (hnext : ∀ r s', P s' → Contract.Holds perform anyRequest t (contract walletAddress)
      (next r) s') :
    Contract.Holds perform anyRequest t (contract walletAddress) (.request op next) s :=
  Contract.Holds.of_moves hstable (fun s env => moves_readOnly hop t s env) hs
    fun _ _ _ _ hs' => hnext _ _ hs'

/-- A row of the wallet that was read is signed. -/
theorem holds_respond {u : User} (hwallet : u.walletAddress = walletAddress) {s : Shared ι}
    (hs : Stored u s) :
    Contract.Holds perform anyRequest t (contract walletAddress) (respond hmac cfg u) s := by
  unfold respond
  simp only [Program.call_bind, Program.pure_eq]
  refine holds_draw rfl (moves_keep_stored u) hs fun issuedAt s₁ hs₁ => ?_
  refine holds_draw rfl (moves_keep_stored u) hs₁ fun expiresFrom s₂ hs₂ => ?_
  intro s₃ hm resp hresp
  obtain ⟨v, hv, hsame⟩ := moves_keep_stored u _ _ hm hs₂
  rw [← Except.ok.inj hresp]
  have hnames := names_generateToken hmac cfg.jwtSecret u issuedAt expiresFrom
  exact ⟨v, hv, hsame.walletAddress.trans hwallet, hnames.same hsame⟩

/-- The answer to a SELECT by wallet is signed, or an error. -/
theorem holds_selectUser {next : Except String User → Users (Except ErrorReply AuthResponse)}
    (herror : ∀ e s, Contract.Holds perform anyRequest t (contract walletAddress)
      (next (.error e)) s)
    (hok : ∀ u, next (.ok u) = respond hmac cfg u) (s : Shared ι) :
    Contract.Holds perform anyRequest t (contract walletAddress)
      (.request (.selectUser walletAddress) next) s := by
  refine Contract.Holds.of_stable (Contract.keeps_true _) trivial fun s₁ _ env _ => ?_
  refine ⟨moves_readOnly rfl t s₁ env, ?_⟩
  cases hr : (perform t s₁ (.selectUser walletAddress) env).2 with
  | error e => exact herror e _
  | ok u =>
    obtain ⟨hu, hwallet⟩ := UserTable.exec_selectUser hr
    have hworld : (perform t s₁ (.selectUser walletAddress) env).1.world = s₁.world :=
      UserTable.exec_readOnly rfl s₁.world env
    rw [hok]
    exact holds_respond hmac cfg hwallet ⟨u, hworld ▸ hu, .refl u⟩

theorem holds_login (s : Shared ι) :
    Contract.Holds perform anyRequest t (contract walletAddress)
      (login hmac cfg walletAddress) s := by
  unfold login
  simp only [Program.call_bind, Program.pure_eq]
  exact holds_selectUser hmac cfg (fun e s => holds_error _ s) (fun _ => rfl) s

theorem holds_register (req : RegisterRequest) (s : Shared ι) :
    Contract.Holds perform anyRequest t (contract req.walletAddress)
      (register hmac cfg req) s := by
  unfold register
  simp only [Program.call_bind, Program.pure_eq]
  refine holds_draw rfl (Contract.keeps_true _) trivial fun id s₁ _ => ?_
  refine holds_draw rfl (Contract.keeps_true _) trivial fun createdAt s₂ _ => ?_
  refine holds_draw rfl (Contract.keeps_true _) trivial fun updatedAt s₃ _ => ?_
  refine Contract.Holds.of_moves (Contract.keeps_true _)
    (fun s₄ env => moves_upsertUser rfl t s₄ env) trivial fun s₄ env _ _ _ => ?_
  cases (perform t s₄ _ env).2 with
  | error e => exact holds_error _ _
  | ok _ => exact holds_selectUser hmac cfg (fun e s => holds_error _ s) (fun _ => rfl) _

theorem holds_program (call : Call) (s : Shared ι) :
    Contract.Holds perform anyRequest t (contract call.walletAddress)
      (call.program hmac cfg) s := by
  cases call with
  | register req => exact holds_register hmac cfg req s
  | login walletAddress => exact holds_login hmac cfg s

end Contracts

section Runs

variable [DecidableEq ι] (hmac : Hmac) (cfg : Config) (w : UserTable) (calls : ι → Call)

/-- The pool at the start: one program per call, on any table. -/
def start : Pool UserOp.Res (Shared ι) ι (Except ErrorReply AuthResponse) :=
  ⟨⟨w, []⟩, fun t => (calls t).program hmac cfg⟩

def reached (schedule : List (ι × UserEnv)) :
    Pool UserOp.Res (Shared ι) ι (Except ErrorReply AuthResponse) :=
  (start hmac cfg w calls).run perform schedule

/-- The table of a reached state, against the one at the start and the tokens given out. -/
structure Consistent (p : Pool UserOp.Res (Shared ι) ι (Except ErrorReply AuthResponse)) :
    Prop where
  oneRow : ∀ u ∈ p.state.world.rows, ∀ v ∈ p.state.world.rows,
    u.walletAddress = v.walletAddress → u = v
  created : ∀ u ∈ p.state.world.rows, (∀ v ∈ w.rows, v.walletAddress ≠ u.walletAddress) →
    u.role = "user".toList
  named : ∀ t resp, p.threads t = .done (.ok resp) →
    ∃ u ∈ p.state.world.rows, u.walletAddress = (calls t).walletAddress ∧ Names resp.token u
  shared : ∀ t t' resp resp', p.threads t = .done (.ok resp) → p.threads t' = .done (.ok resp') →
    (calls t).walletAddress = (calls t').walletAddress →
      ∃ u ∈ p.state.world.rows, Names resp.token u ∧ Names resp'.token u

/-- Runs on from a state in which every call meets its contract. -/
theorem run_sound {p : Pool UserOp.Res (Shared ι) ι (Except ErrorReply AuthResponse)}
    (h : ∀ t, Contract.Holds perform anyRequest t (contract (calls t).walletAddress)
      (p.threads t) p.state) (schedule : List (ι × UserEnv)) :
    (∀ t, Contract.Holds perform anyRequest t (contract (calls t).walletAddress)
      ((p.run perform schedule).threads t) (p.run perform schedule).state) ∧
      Moves p.state (p.run perform schedule).state :=
  Contract.run_shared Moves.refl (fun _ _ _ h₁ h₂ => h₁.trans h₂)
    (Pool.guarded_of_forall (fun _ _ _ _ => trivial) p schedule) h

/-- Whatever the order of the statements, a wallet has one row, which keeps its identity, and
every token of the wallet names it. -/
theorem identities_kept (schedule later : List (ι × UserEnv)) :
    Consistent w calls (reached hmac cfg w calls schedule) ∧
      ∀ u ∈ (reached hmac cfg w calls schedule).state.world.rows,
        ∃ v ∈ (reached hmac cfg w calls (schedule ++ later)).state.world.rows, u.Same v := by
  obtain ⟨hholds, hmoves⟩ := run_sound calls (p := start hmac cfg w calls)
    (fun t => holds_program hmac cfg (calls t) _) schedule
  obtain ⟨-, hlater⟩ := run_sound calls hholds later
  have hnamed : ∀ t resp, (reached hmac cfg w calls schedule).threads t = .done (.ok resp) →
      ∃ u ∈ (reached hmac cfg w calls schedule).state.world.rows,
        u.walletAddress = (calls t).walletAddress ∧ Names resp.token u := by
    intro t resp hdone
    exact (hholds t).done hdone Moves.refl resp rfl
  refine ⟨⟨fun u hu v hv => UserTable.eq_of_walletAddress_eq _ hu hv, ?_, hnamed, ?_⟩, ?_⟩
  · intro u hu hnew
    rcases hmoves.origin u hu with ⟨v, hv, hsame⟩ | hrole
    · exact absurd hsame.walletAddress.symm (hnew v hv)
    · exact hrole
  · intro t t' resp resp' hdone hdone' hwallet
    obtain ⟨u, hu, huw, hnames⟩ := hnamed t resp hdone
    obtain ⟨v, hv, hvw, hnames'⟩ := hnamed t' resp' hdone'
    have huv : u = v :=
      UserTable.eq_of_walletAddress_eq _ hu hv (huw.trans (hwallet.trans hvw.symm))
    exact ⟨u, hu, hnames, huv ▸ hnames'⟩
  · have hrun : reached hmac cfg w calls (schedule ++ later) =
        (reached hmac cfg w calls schedule).run perform later := Pool.run_append perform _ _ _
    rw [hrun]
    exact hlater.kept

end Runs

end SafetyDao.AuthRuns
