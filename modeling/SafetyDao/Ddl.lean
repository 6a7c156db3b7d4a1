import Mathlib.Tactic.Common

/-!
# Schema scripts

A script is a list of DDL statements that runs in one transaction. A statement under
IF NOT EXISTS leaves an existing object as it is, so a schema only ever grows. A script
all of whose statements are of this kind can run again, and an object that is there
already, or has another shape than a later statement expects, stops a script for good.
-/
namespace SafetyDao

/-- A column, with the values its CHECK constraint lets in if it has one. -/
structure Column where
  name : String
  check : Option (List String)
deriving DecidableEq

structure TableDef where
  name : String
  columns : List Column
deriving DecidableEq

namespace TableDef

def HasColumn (table : TableDef) (column : String) : Prop := column ∈ table.columns.map Column.name

instance (table : TableDef) (column : String) : Decidable (table.HasColumn column) :=
  inferInstanceAs (Decidable (_ ∈ _))

end TableDef

structure Schema where
  tables : List TableDef
  indexes : List String
  extensions : List String
deriving DecidableEq

inductive DdlError where
  | duplicate (relation : String)
  | undefinedTable (table : String)
  | undefinedColumn (table column : String)
deriving DecidableEq

inductive Ddl where
  | createExtension (name : String)
  | createTable (ifNotExists : Bool) (table : TableDef) (references : List (String × String))
  | createIndex (ifNotExists : Bool) (name table column : String)

namespace Schema

def empty : Schema := ⟨[], [], []⟩

def table? (s : Schema) (name : String) : Option TableDef := s.tables.find? fun t => t.name = name

/-- Tables and indexes share their names. -/
def HasRelation (s : Schema) (name : String) : Prop :=
  (s.table? name).isSome ∨ name ∈ s.indexes

instance (s : Schema) (name : String) : Decidable (s.HasRelation name) :=
  inferInstanceAs (Decidable (_ ∨ _))

def checkColumn (s : Schema) (table column : String) : Except DdlError Unit :=
  match s.table? table with
  | none => .error (.undefinedTable table)
  | some t => if t.HasColumn column then .ok () else .error (.undefinedColumn table column)

/-- Each reference of a new table names a column of a table that is there. -/
def checkReferences (s : Schema) : List (String × String) → Except DdlError Unit
  | [] => .ok ()
  | (table, column) :: rest =>
    match s.checkColumn table column with
    | .error e => .error e
    | .ok _ => s.checkReferences rest

/-- Create a relation unless its name is taken. -/
def create (s : Schema) (ifNotExists : Bool) (name : String) (new : Except DdlError Schema) :
    Except DdlError Schema :=
  if s.HasRelation name then if ifNotExists then .ok s else .error (.duplicate name) else new

def addTable (s : Schema) (table : TableDef) : Schema := { s with tables := s.tables ++ [table] }

def addIndex (s : Schema) (name : String) : Schema := { s with indexes := name :: s.indexes }

def exec (s : Schema) : Ddl → Except DdlError Schema
  | .createExtension name =>
    .ok (if name ∈ s.extensions then s else { s with extensions := name :: s.extensions })
  | .createTable ifNotExists table references =>
    s.create ifNotExists table.name <|
      match s.checkReferences references with
      | .error e => .error e
      | .ok _ => .ok (s.addTable table)
  | .createIndex ifNotExists name table column =>
    match s.checkColumn table column with
    | .error e => .error e
    | .ok _ => s.create ifNotExists name (.ok (s.addIndex name))

/-- Run a script. The first error undoes all of it. -/
def runScript (s : Schema) : List Ddl → Except DdlError Schema
  | [] => .ok s
  | ddl :: rest =>
    match s.exec ddl with
    | .error e => .error e
    | .ok s' => s'.runScript rest

/-- Every object of the one schema is in the other, and is the same there. -/
structure Extends (s s' : Schema) : Prop where
  tables : ∀ name t, s.table? name = some t → s'.table? name = some t
  indexes : ∀ name ∈ s.indexes, name ∈ s'.indexes
  extensions : ∀ name ∈ s.extensions, name ∈ s'.extensions

namespace Extends

variable {s s' s'' : Schema}

theorem refl (s : Schema) : Extends s s := ⟨fun _ _ h => h, fun _ h => h, fun _ h => h⟩

theorem trans (h : Extends s s') (h' : Extends s' s'') : Extends s s'' :=
  ⟨fun name t ht => h'.tables name t (h.tables name t ht),
    fun name hn => h'.indexes name (h.indexes name hn),
    fun name hn => h'.extensions name (h.extensions name hn)⟩

theorem hasRelation (h : Extends s s') {name : String} (hn : s.HasRelation name) :
    s'.HasRelation name := by
  rcases hn with ht | hi
  · obtain ⟨t, ht⟩ := Option.isSome_iff_exists.mp ht
    exact .inl (by rw [h.tables name t ht]; rfl)
  · exact .inr (h.indexes name hi)

end Extends

variable {s s' : Schema}

@[simp] theorem checkColumn_eq_ok {table column : String} {u : Unit} :
    s.checkColumn table column = .ok u ↔ ∃ t, s.table? table = some t ∧ t.HasColumn column := by
  unfold checkColumn
  split
  · rename_i h
    simp [h]
  · rename_i t h
    split <;> simp_all

theorem extends_addTable (table : TableDef) : Extends s (s.addTable table) where
  tables name t ht := by
    simp only [table?] at ht
    simp [table?, addTable, List.find?_append, ht]
  indexes _ h := h
  extensions _ h := h

theorem extends_addIndex (name : String) : Extends s (s.addIndex name) where
  tables _ _ h := h
  indexes _ h := List.mem_cons_of_mem name h
  extensions _ h := h

/-- Statements add objects and touch none. -/
theorem extends_exec {ddl : Ddl} (h : s.exec ddl = .ok s') : Extends s s' := by
  cases ddl with
  | createExtension name =>
    obtain rfl := Except.ok.inj h
    split
    · exact .refl s
    · exact ⟨fun _ _ ht => ht, fun _ hi => hi, fun _ he => List.mem_cons_of_mem name he⟩
  | createTable ifNotExists table references =>
    simp only [exec, create] at h
    split at h
    · split at h
      · exact Except.ok.inj h ▸ .refl s
      · cases h
    · split at h
      · cases h
      · exact Except.ok.inj h ▸ extends_addTable table
  | createIndex ifNotExists name table column =>
    simp only [exec, create] at h
    split at h
    · cases h
    · split at h
      · split at h
        · exact Except.ok.inj h ▸ .refl s
        · cases h
      · exact Except.ok.inj h ▸ extends_addIndex name

/-- A script that runs performs its first statement and then the others. -/
theorem runScript_cons_ok {ddl : Ddl} {rest : List Ddl} (h : s.runScript (ddl :: rest) = .ok s') :
    ∃ s₁, s.exec ddl = .ok s₁ ∧ s₁.runScript rest = .ok s' := by
  simp only [runScript] at h
  split at h
  · cases h
  · exact ⟨_, ‹_›, h⟩

theorem extends_runScript {script : List Ddl} (h : s.runScript script = .ok s') :
    Extends s s' := by
  induction script generalizing s with
  | nil => exact Except.ok.inj h ▸ .refl s
  | cons ddl rest ih =>
    obtain ⟨s₁, hs₁, hrest⟩ := runScript_cons_ok h
    exact (extends_exec hs₁).trans (ih hrest)

end Schema

namespace Ddl

/-- The statement leaves an existing object alone. -/
def Guarded : Ddl → Prop
  | .createExtension _ => True
  | .createTable ifNotExists _ _ => ifNotExists = true
  | .createIndex ifNotExists .. => ifNotExists = true

instance (ddl : Ddl) : Decidable ddl.Guarded := by
  cases ddl <;> unfold Guarded <;> infer_instance

/-- The object the statement asks for is there. -/
def Satisfied (s : Schema) : Ddl → Prop
  | .createExtension name => name ∈ s.extensions
  | .createTable _ table _ => s.HasRelation table.name
  | .createIndex _ name table column =>
    (∃ t, s.table? table = some t ∧ t.HasColumn column) ∧ s.HasRelation name

/-- The statement cannot be carried out: its name is taken, or its column is missing. -/
def Blocked (s : Schema) : Ddl → Prop
  | .createExtension _ => False
  | .createTable ifNotExists table _ => ifNotExists = false ∧ s.HasRelation table.name
  | .createIndex ifNotExists name table column =>
    ifNotExists = false ∧ s.HasRelation name ∨
      ∃ t, s.table? table = some t ∧ ¬ t.HasColumn column

variable {s s' : Schema} {ddl : Ddl}

theorem Satisfied.extends (h : ddl.Satisfied s) (hs : s.Extends s') : ddl.Satisfied s' := by
  cases ddl with
  | createExtension name => exact hs.extensions name h
  | createTable ifNotExists table references => exact hs.hasRelation h
  | createIndex ifNotExists name table column =>
    obtain ⟨⟨t, ht, hc⟩, hn⟩ := h
    exact ⟨⟨t, hs.tables table t ht, hc⟩, hs.hasRelation hn⟩

theorem Blocked.extends (h : ddl.Blocked s) (hs : s.Extends s') : ddl.Blocked s' := by
  cases ddl with
  | createExtension name => exact h
  | createTable ifNotExists table references => exact ⟨h.1, hs.hasRelation h.2⟩
  | createIndex ifNotExists name table column =>
    rcases h with ⟨hg, hn⟩ | ⟨t, ht, hc⟩
    · exact .inl ⟨hg, hs.hasRelation hn⟩
    · exact .inr ⟨t, hs.tables table t ht, hc⟩

/-- Once carried out, a statement is satisfied. -/
theorem satisfied_of_exec (h : s.exec ddl = .ok s') : ddl.Satisfied s' := by
  cases ddl with
  | createExtension name =>
    obtain rfl := Except.ok.inj h
    change name ∈ (if name ∈ s.extensions then s else _).extensions
    split
    · assumption
    · exact List.mem_cons_self
  | createTable ifNotExists table references =>
    have hext := Schema.extends_exec h
    simp only [Schema.exec, Schema.create] at h
    split at h
    · rename_i hn
      exact hext.hasRelation hn
    · split at h
      · cases h
      · obtain rfl := Except.ok.inj h
        exact .inl (by simp [Schema.table?, Schema.addTable, List.find?_append])
  | createIndex ifNotExists name table column =>
    have hext := Schema.extends_exec h
    simp only [Schema.exec, Schema.create] at h
    split at h
    · cases h
    · rename_i hcol
      obtain ⟨t, ht, hc⟩ := Schema.checkColumn_eq_ok.mp hcol
      refine ⟨⟨t, hext.tables table t ht, hc⟩, ?_⟩
      split at h
      · rename_i hn
        exact hext.hasRelation hn
      · obtain rfl := Except.ok.inj h
        exact .inr List.mem_cons_self

/-- A satisfied statement does nothing when it may find its object there. -/
theorem exec_of_satisfied (hg : ddl.Guarded) (h : ddl.Satisfied s) : s.exec ddl = .ok s := by
  cases ddl with
  | createExtension name => simp only [Schema.exec, if_pos (show name ∈ s.extensions from h)]
  | createTable ifNotExists table references =>
    have hn : s.HasRelation table.name := h
    simp only [Schema.exec, Schema.create, if_pos hn, if_pos (show ifNotExists = true from hg)]
  | createIndex ifNotExists name table column =>
    have hcol : s.checkColumn table column = .ok () := Schema.checkColumn_eq_ok.mpr h.1
    simp only [Schema.exec, Schema.create, hcol, if_pos h.2,
      if_pos (show ifNotExists = true from hg)]

theorem exec_of_blocked (h : ddl.Blocked s) : ∃ e, s.exec ddl = .error e := by
  cases ddl with
  | createExtension name => exact h.elim
  | createTable ifNotExists table references =>
    simp [Schema.exec, Schema.create, if_pos h.2, h.1]
  | createIndex ifNotExists name table column =>
    cases hcol : s.checkColumn table column with
    | error e => exact ⟨e, by simp [Schema.exec, hcol]⟩
    | ok u =>
      obtain ⟨t, ht, hc⟩ := Schema.checkColumn_eq_ok.mp hcol
      rcases h with ⟨hg, hn⟩ | ⟨t', ht', hc'⟩
      · exact ⟨.duplicate name, by simp [Schema.exec, Schema.create, hcol, hn, hg]⟩
      · rw [ht, Option.some.injEq] at ht'
        exact absurd (ht' ▸ hc) hc'

end Ddl

namespace Schema

variable {s s' s'' : Schema} {script : List Ddl}

theorem satisfied_of_runScript (h : s.runScript script = .ok s') :
    ∀ ddl ∈ script, ddl.Satisfied s' := by
  induction script generalizing s with
  | nil => simp
  | cons ddl rest ih =>
    obtain ⟨s₁, hs₁, hrest⟩ := runScript_cons_ok h
    intro ddl' hmem
    rcases List.mem_cons.mp hmem with rfl | hmem
    · exact (Ddl.satisfied_of_exec hs₁).extends (extends_runScript hrest)
    · exact ih hrest ddl' hmem

theorem runScript_of_satisfied (hg : ∀ ddl ∈ script, ddl.Guarded)
    (h : ∀ ddl ∈ script, ddl.Satisfied s) : s.runScript script = .ok s := by
  induction script with
  | nil => rfl
  | cons ddl rest ih =>
    have hexec := Ddl.exec_of_satisfied (hg ddl List.mem_cons_self) (h ddl List.mem_cons_self)
    simp only [runScript, hexec]
    exact ih (fun d hd => hg d (List.mem_cons_of_mem ddl hd))
      fun d hd => h d (List.mem_cons_of_mem ddl hd)

/-- A script under IF NOT EXISTS that has run does nothing ever after. -/
theorem runScript_again (hg : ∀ ddl ∈ script, ddl.Guarded) (h : s.runScript script = .ok s')
    (hs : s'.Extends s'') : s''.runScript script = .ok s'' :=
  runScript_of_satisfied hg fun ddl hmem => (satisfied_of_runScript h ddl hmem).extends hs

/-- One statement that cannot be carried out stops the script. -/
theorem runScript_of_blocked {ddl : Ddl} (hmem : ddl ∈ script) (h : ddl.Blocked s) :
    ∃ e, s.runScript script = .error e := by
  induction script generalizing s with
  | nil => cases hmem
  | cons ddl' rest ih =>
    simp only [runScript]
    cases hexec : s.exec ddl' with
    | error e => exact ⟨e, rfl⟩
    | ok s₁ =>
      rcases List.mem_cons.mp hmem with rfl | hmem
      · obtain ⟨e, he⟩ := Ddl.exec_of_blocked h
        rw [hexec] at he
        cases he
      · exact ih hmem (h.extends (extends_exec hexec))

end Schema

/-- A column that a service names in its statements, and the values it writes there. -/
structure ColumnUse where
  table : String
  column : String
  values : List String

namespace Schema

/-- The column is there, and its CHECK lets the values in. -/
def Supports (s : Schema) (use : ColumnUse) : Prop :=
  ∃ t ∈ s.table? use.table, ∃ c ∈ t.columns, c.name = use.column ∧
    ∀ allowed ∈ c.check, ∀ v ∈ use.values, v ∈ allowed

instance (s : Schema) (use : ColumnUse) : Decidable (s.Supports use) := by
  unfold Supports
  infer_instance

variable {s s' : Schema} {use : ColumnUse}

theorem Supports.extends (h : s.Supports use) (hs : s.Extends s') : s'.Supports use := by
  obtain ⟨t, ht, hc⟩ := h
  exact ⟨t, hs.tables use.table t ht, hc⟩

/-- A table that lacks the column will never have it. -/
theorem not_supports_of_extends {t : TableDef} (ht : s.table? use.table = some t)
    (hc : ¬ t.HasColumn use.column) (hs : s.Extends s') : ¬ s'.Supports use := by
  rintro ⟨t', ht', c, hmem, hname, -⟩
  rw [Option.mem_def, hs.tables use.table t ht, Option.some.injEq] at ht'
  exact hc (List.mem_map.mpr ⟨c, ht' ▸ hmem, hname⟩)

end Schema

end SafetyDao
