import SafetyDao.Interleaving
import SafetyDao.Table
import Mathlib.Data.Int.Notation
import Mathlib.Data.List.Sort

/-!
# What requests to the database and the runtime share

The services talk to PostgreSQL through a pool, one auto-committed statement at a
time, and read the clock and fresh identifiers from the runtime. `Env` is what
the environment contributes to one such request. A statement that fails, be it on
a lost connection or a cancelled context, leaves the tables as they were and
answers with the text of its error. Rows that no ORDER BY sorts come back in
whatever order the database happens to keep them.
-/
namespace SafetyDao

/-- An instant, as the database stores it. -/
abbrev Time := ℤ

/-- The value of a UUID column. An identifier text that is no UUID makes the
statement that carries it fail, so it is covered by failing statements. -/
abbrev UUID := ℕ

structure Env where
  now : Time
  uuid : UUID
  failure : Option String
  /-- The place of each row, by identifier, among the rows a SELECT returns. -/
  rank : UUID → ℕ
deriving Inhabited

namespace Env

/-- A clock reading and a fresh identifier for a request that succeeds. -/
def good (now : Time) (uuid : UUID) : Env := ⟨now, uuid, none, fun _ => 0⟩

/-- Rows in the order of the database. -/
def arrange {ρ : Type} (env : Env) (key : ρ → UUID) (rows : List ρ) : List ρ :=
  rows.insertionSort (fun a b => env.rank (key a) ≤ env.rank (key b))

theorem arrange_perm {ρ : Type} (env : Env) (key : ρ → UUID) (rows : List ρ) :
    (env.arrange key rows).Perm rows := List.perm_insertionSort _ _

@[simp] theorem mem_arrange {ρ : Type} (env : Env) (key : ρ → UUID) (rows : List ρ) (r : ρ) :
    r ∈ env.arrange key rows ↔ r ∈ rows := (env.arrange_perm key rows).mem_iff

/-- Run a statement unless the environment makes it fail. -/
def attempt {World β : Type} (env : Env) (w : World) (out : World × Except String β) :
    World × Except String β :=
  match env.failure with
  | some e => (w, .error e)
  | none => out

/-- A statement either fails and leaves the world alone, or does what it does. -/
theorem attempt_cases {World β : Type} (env : Env) (w : World) (out : World × Except String β) :
    (∃ e, env.attempt w out = (w, .error e)) ∨ env.attempt w out = out := by
  unfold attempt
  cases env.failure with
  | none => exact .inr rfl
  | some e => exact .inl ⟨e, rfl⟩

/-- A statement that answers has done what it does. -/
theorem ok_of_attempt {World β : Type} {env : Env} {w : World} {out : World × Except String β}
    {b : β} (h : (env.attempt w out).2 = .ok b) : out.2 = .ok b := by
  rcases env.attempt_cases w out with ⟨e, he⟩ | hok
  · rw [he] at h
    cases h
  · rwa [hok] at h

/-- What a statement keeps stays also if the statement fails. -/
theorem attempt_keeps {World β : Type} {P : World → Prop} (env : Env) {w : World}
    {out : World × Except String β} (hw : P w) (hout : P out.1) : P (env.attempt w out).1 := by
  rcases env.attempt_cases w out with ⟨e, he⟩ | hok
  · rw [he]
    exact hw
  · rw [hok]
    exact hout

theorem attempt_good {World β : Type} {env : Env} (h : env.failure = none) (w : World)
    (out : World × Except String β) : env.attempt w out = out := by
  simp only [attempt, h]

end Env

/-- `QueryRow(...).Scan(...)` on the rows a statement found. -/
def queryRow {ρ : Type} : Option ρ → Except String ρ
  | none => .error "no rows in result set"
  | some r => .ok r

@[simp] theorem queryRow_eq_ok {ρ : Type} {o : Option ρ} {r : ρ} :
    queryRow o = .ok r ↔ o = some r := by cases o <;> simp [queryRow]

/-- `for rows.Next() { rows.Scan(...) }`, collecting the rows. A broken stream ends
the loop and is reported by `rows.Err()`. -/
def scanRows {Op ρ : Type} {Res : Op → Type} (rowsNext rowsScan : Program Res (Except String Unit))
    (scanning : String) (acc : List ρ) : List ρ → Program Res (Except String (List ρ))
  | [] => pure (.ok acc)
  | r :: rest => do
    match ← rowsNext with
    | .error e => return .error e
    | .ok _ =>
      match ← rowsScan with
      | .error e => return .error (scanning ++ e)
      | .ok _ => scanRows rowsNext rowsScan scanning (acc ++ [r]) rest

theorem embed_scanRows {Op Op' ρ : Type} {Res : Op → Type} {Res' : Op' → Type} (f : Op → Op')
    (answer : ∀ op, Res' (f op) → Res op) (rowsNext rowsScan : Program Res (Except String Unit))
    (scanning : String) (acc rows : List ρ) :
    (scanRows rowsNext rowsScan scanning acc rows).embed f answer =
      scanRows (rowsNext.embed f answer) (rowsScan.embed f answer) scanning acc rows := by
  induction rows generalizing acc with
  | nil => rfl
  | cons r rest ih =>
    simp only [scanRows, Program.embed_bind]
    congr 1
    funext next
    cases next with
    | error e => rfl
    | ok _ =>
    simp only [Program.embed_bind]
    congr 1
    funext scan
    cases scan with
    | error e => rfl
    | ok _ => exact ih (acc ++ [r])

theorem Program.Issues.scanRows {Op ρ : Type} {Res : Op → Type} {admissible : Op → Prop}
    {rowsNext rowsScan : Program Res (Except String Unit)} (hnext : rowsNext.Issues admissible)
    (hscan : rowsScan.Issues admissible) (scanning : String) (acc rows : List ρ) :
    (SafetyDao.scanRows rowsNext rowsScan scanning acc rows).Issues admissible := by
  induction rows generalizing acc with
  | nil => trivial
  | cons r rest ih =>
    refine hnext.bind fun next => ?_
    cases next with
    | error e => trivial
    | ok _ =>
    refine hscan.bind fun scan => ?_
    cases scan with
    | error e => trivial
    | ok _ => exact ih (acc ++ [r])

/-- Scanning rows keeps what its requests keep, and gives no other rows. -/
theorem holds_scanRows {Op ρ σ ι Choice : Type} {Res : Op → Type}
    {perform : ι → σ → (op : Op) → Choice → σ × Res op} {guard : ι → σ → Op → Choice → Prop} {t : ι}
    {rely guar : σ → σ → Prop} {P : σ → Prop} {rowsNext rowsScan : Program Res (Except String Unit)}
    (hrefl : ∀ s, rely s s) (hP : ∀ s s', rely s s' → P s → P s')
    (hnext : ∀ s, P s → Contract.Holds perform guard t ⟨rely, guar, fun _ => P⟩ rowsNext s)
    (hscan : ∀ s, P s → Contract.Holds perform guard t ⟨rely, guar, fun _ => P⟩ rowsScan s)
    (scanning : String) (acc rows : List ρ) {s : σ} (hs : P s) :
    Contract.Holds perform guard t
      ⟨rely, guar, fun r s => P s ∧ ∀ scanned, r = .ok scanned → scanned = acc ++ rows⟩
      (scanRows rowsNext rowsScan scanning acc rows) s := by
  induction rows generalizing acc s with
  | nil =>
    refine fun s' hr => ⟨hP s s' hr hs, fun scanned h => ?_⟩
    rw [← Except.ok.inj h, List.append_nil]
  | cons row rest ih =>
    refine (hnext s hs).bind hrefl fun next s₁ hs₁ => ?_
    cases next with
    | error e => exact fun s' hr => ⟨hP s₁ s' hr hs₁, fun _ h => by cases h⟩
    | ok _ =>
    refine (hscan s₁ hs₁).bind hrefl fun scan s₂ hs₂ => ?_
    cases scan with
    | error e => exact fun s' hr => ⟨hP s₂ s' hr hs₂, fun _ h => by cases h⟩
    | ok _ =>
      have hrest := ih (acc ++ [row]) hs₂
      rwa [List.append_assoc] at hrest

end SafetyDao
