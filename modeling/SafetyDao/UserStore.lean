import SafetyDao.Database
import SafetyDao.Text

/-!
# Users in the database

The table `users`, of which neither two identifiers nor two wallets are the same, and one
request for each statement of `Register` and `Login`. Identifiers are texts, as the service
handles them; the clock counts nanoseconds since 1970, and columns keep microseconds.
-/
namespace SafetyDao

/-- `models.User`. -/
structure User where
  id : Text
  walletAddress : String
  role : Text
  displayName : String
  phone : String
  createdAt : Time
  updatedAt : Time
deriving DecidableEq

/-- The roles that the schema allows. -/
def userRoles : List Text := ["user".toList, "moderator".toList, "admin".toList]

structure UserTable where
  table : Table User.id
  wallets : (table.rows.map User.walletAddress).Nodup
  roles : ∀ u ∈ table.rows, u.role ∈ userRoles

/-- What the environment contributes to a request. -/
structure UserEnv extends Env where
  newID : Text
  instant : ℕ
deriving Inhabited

inductive UserOp where
  | newUUID
  | timeNow
  | upsertUser (user : User)
  | selectUser (walletAddress : String)
deriving DecidableEq

abbrev UserOp.Res : UserOp → Type
  | .newUUID => Text
  | .timeNow => ℕ
  | .upsertUser _ => Except String Unit
  | .selectUser _ => Except String User

/-- What `DO UPDATE SET` puts in a row. -/
def User.setProfile (user u : User) : User :=
  { u with displayName := user.displayName, phone := user.phone, updatedAt := user.updatedAt }

@[simp] theorem User.setProfile_id (user u : User) : (user.setProfile u).id = u.id := rfl

/-- Two versions of a row agree on everything that is never written again. -/
structure User.Same (u v : User) : Prop where
  walletAddress : v.walletAddress = u.walletAddress
  id : v.id = u.id
  role : v.role = u.role
  createdAt : v.createdAt = u.createdAt

theorem User.Same.refl (u : User) : u.Same u := ⟨rfl, rfl, rfl, rfl⟩

theorem User.Same.trans {u v x : User} (h₁ : u.Same v) (h₂ : v.Same x) : u.Same x :=
  ⟨h₂.walletAddress.trans h₁.walletAddress, h₂.id.trans h₁.id, h₂.role.trans h₁.role,
    h₂.createdAt.trans h₁.createdAt⟩

theorem User.same_setProfile (user u : User) : u.Same (user.setProfile u) := ⟨rfl, rfl, rfl, rfl⟩

namespace UserTable

def rows (w : UserTable) : List User := w.table.rows

/-- Rows of one wallet are one row. -/
theorem eq_of_walletAddress_eq (w : UserTable) {u v : User} (hu : u ∈ w.rows) (hv : v ∈ w.rows)
    (h : u.walletAddress = v.walletAddress) : u = v :=
  List.inj_on_of_nodup_map w.wallets hu hv h

def HasWallet (w : UserTable) (walletAddress : String) : Prop :=
  walletAddress ∈ w.table.rows.map User.walletAddress

instance (w : UserTable) (walletAddress : String) : Decidable (w.HasWallet walletAddress) :=
  inferInstanceAs (Decidable (_ ∈ _))

/-- The row of a wallet takes the profile of another. -/
def updateProfile (w : UserTable) (user : User) : UserTable where
  table := w.table.updateWhere (fun u => u.walletAddress = user.walletAddress) user.setProfile
    (User.setProfile_id user)
  wallets := by
    have hsame : (w.table.updateWhere (fun u => u.walletAddress = user.walletAddress)
        user.setProfile (User.setProfile_id user)).rows.map User.walletAddress =
        w.table.rows.map User.walletAddress := by
      rw [Table.updateWhere, List.map_map]
      refine List.map_congr_left fun u _ => ?_
      rw [Function.comp_apply]
      split
      · rfl
      · rfl
    rw [hsame]
    exact w.wallets
  roles := by
    intro v hv
    obtain ⟨u, hu, rfl⟩ := Table.mem_updateWhere.mp hv
    split
    · exact w.roles u hu
    · exact w.roles u hu

/-- A row of a new wallet, unless its identifier is taken. -/
def insertUser (w : UserTable) (user : User) (hrole : user.role ∈ userRoles)
    (hwallet : ¬ w.HasWallet user.walletAddress) : Option UserTable :=
  match h : w.table.insert user with
  | none => none
  | some t => some {
      table := t
      wallets := by
        rw [(Table.insert_eq_some.mp h).2, List.map_append, List.map_singleton]
        exact List.nodup_append.mpr ⟨w.wallets, List.nodup_singleton _, fun a ha b hb heq =>
          hwallet (List.mem_singleton.mp hb ▸ heq ▸ ha)⟩
      roles := fun u hu => by
        rcases (Table.mem_insert h).mp hu with hold | rfl
        · exact w.roles u hold
        · exact hrole }

/-- `INSERT ... ON CONFLICT (wallet_address) DO UPDATE`. -/
def upsertUser (w : UserTable) (user : User) : UserTable × Except String Unit :=
  if hrole : user.role ∈ userRoles then
    if hwallet : w.HasWallet user.walletAddress then (w.updateProfile user, .ok ())
    else match w.insertUser user hrole hwallet with
      | none => (w, .error "duplicate key value violates unique constraint \"users_pkey\"")
      | some w' => (w', .ok ())
  else (w, .error "new row for relation \"users\" violates check constraint \"users_role_check\"")

def findByWallet (w : UserTable) (walletAddress : String) : Option User :=
  w.rows.find? (fun u => u.walletAddress = walletAddress)

def exec (w : UserTable) (op : UserOp) (env : UserEnv) : UserTable × op.Res :=
  match op with
  | .newUUID => (w, env.newID)
  | .timeNow => (w, env.instant)
  | .upsertUser user => env.attempt w (w.upsertUser user)
  | .selectUser walletAddress => env.attempt w (w, queryRow (w.findByWallet walletAddress))

theorem mem_updateProfile {w : UserTable} {user v : User} : v ∈ (w.updateProfile user).rows ↔
    ∃ u ∈ w.rows, (if u.walletAddress = user.walletAddress then user.setProfile u else u) = v := by
  simp [rows, updateProfile, Table.mem_updateWhere]

theorem mem_insertUser {w w' : UserTable} {user : User} {hrole : user.role ∈ userRoles}
    {hwallet : ¬ w.HasWallet user.walletAddress} (h : w.insertUser user hrole hwallet = some w')
    {v : User} : v ∈ w'.rows ↔ v ∈ w.rows ∨ v = user := by
  unfold insertUser at h
  split at h
  · cases h
  · rename_i t ht
    rw [← Option.some.inj h]
    exact Table.mem_insert ht

/-- An upsert keeps every row as the row of its wallet, and brings none but the given one. -/
structure Upserted (user : User) (w w' : UserTable) : Prop where
  kept : ∀ u ∈ w.rows, ∃ v ∈ w'.rows, u.Same v
  origin : ∀ v ∈ w'.rows, (∃ u ∈ w.rows, u.Same v) ∨ v = user

theorem upserted_refl (user : User) (w : UserTable) : Upserted user w w :=
  ⟨fun u hu => ⟨u, hu, .refl u⟩, fun u hu => .inl ⟨u, hu, .refl u⟩⟩

theorem upserted_updateProfile (w : UserTable) (user : User) :
    Upserted user w (w.updateProfile user) := by
  have hsame : ∀ u : User,
      u.Same (if u.walletAddress = user.walletAddress then user.setProfile u else u) := by
    intro u
    split
    · exact user.same_setProfile u
    · exact .refl u
  constructor
  · intro u hu
    exact ⟨_, mem_updateProfile.mpr ⟨u, hu, rfl⟩, hsame u⟩
  · intro v hv
    obtain ⟨u, hu, rfl⟩ := mem_updateProfile.mp hv
    exact .inl ⟨u, hu, hsame u⟩

theorem upserted_upsertUser (w : UserTable) (user : User) :
    Upserted user w (w.upsertUser user).1 := by
  unfold upsertUser
  split
  · split
    · exact upserted_updateProfile w user
    · rename_i hrole hwallet
      cases h : w.insertUser user hrole hwallet with
      | none => exact upserted_refl user w
      | some w' =>
        constructor
        · exact fun u hu => ⟨u, (mem_insertUser h).mpr (.inl hu), .refl u⟩
        · intro v hv
          rcases (mem_insertUser h).mp hv with hold | rfl
          · exact .inl ⟨v, hold, .refl v⟩
          · exact .inr rfl
  · exact upserted_refl user w

theorem exec_upsertUser (w : UserTable) (user : User) (env : UserEnv) :
    Upserted user w (exec w (.upsertUser user) env).1 :=
  env.attempt_keeps (upserted_refl user w) (upserted_upsertUser w user)

/-- The requests that leave the table alone. -/
def readOnly : UserOp → Bool
  | .upsertUser _ => false
  | _ => true

theorem exec_readOnly {op : UserOp} (h : readOnly op = true) (w : UserTable) (env : UserEnv) :
    (exec w op env).1 = w := by
  cases op with
  | newUUID => rfl
  | timeNow => rfl
  | upsertUser user => cases h
  | selectUser walletAddress => exact env.attempt_keeps (P := fun w' => w' = w) rfl rfl

theorem exec_selectUser {w : UserTable} {walletAddress : String} {env : UserEnv} {u : User}
    (h : (exec w (.selectUser walletAddress) env).2 = .ok u) :
    u ∈ w.rows ∧ u.walletAddress = walletAddress := by
  have hfind : w.findByWallet walletAddress = some u := queryRow_eq_ok.mp (Env.ok_of_attempt h)
  exact ⟨List.mem_of_find?_eq_some hfind, by simpa using List.find?_some hfind⟩

end UserTable

/-- Programs of the two handlers. -/
abbrev Users (α : Type) : Type := Program UserOp.Res α

namespace Users

open Program

abbrev newUUID : Users Text := call UserOp.newUUID
abbrev timeNow : Users ℕ := call UserOp.timeNow
abbrev upsertUser (user : User) : Users (Except String Unit) := call (UserOp.upsertUser user)
abbrev selectUser (walletAddress : String) : Users (Except String User) :=
  call (UserOp.selectUser walletAddress)

variable {ι : Type}

/-- The table with the requests performed on it so far. -/
abbrev Shared (ι : Type) : Type := Recorded UserOp.Res UserTable ι

def perform : ι → Shared ι → (op : UserOp) → UserEnv → Shared ι × op.Res :=
  Recorded.perform UserTable.exec

end Users

end SafetyDao
