import KSQLite.Schema.Ddl
import KSQLite.Naming.Template
import Mathlib.Data.Rat.Defs

/-!
# The configuration of a store

What a host configures, and what `start` checks of it before it opens anything. Columns and indexes
are checked one by one: of the names only the exact spelling is compared, and only with the system
columns and, for the columns of an index, with the declared columns (`validateConfig_eq_ok`).
-/

set_option autoImplicit false
set_option relaxedAutoImplicit false

namespace KSQLite.Schema

open KSQLite.Naming (Rendering TemplateError validateChangelogTemplate)

/-- The `acks` of a producer. -/
inductive Acks
  | number (acks : ℤ)
  | text (acks : String)
  deriving DecidableEq

/-- What `start` reads of the configuration before it opens anything. -/
structure Configuration where
  changelogTopicTemplate : String
  poolSize : ℤ
  busyTimeout : ℚ
  rehydrateTimeout : ℚ
  acks : Option Acks
  generatedColumns : List GeneratedColumn
  indexes : List Index

/-- What is wrong with a configuration. -/
inductive ConfigurationError
  | template (error : TemplateError)
  | poolSize (poolSize : ℤ)
  | busyTimeout (busyTimeout : ℚ)
  | rehydrateTimeout (rehydrateTimeout : ℚ)
  | acks
  | declaration (error : ConfigError)
  deriving DecidableEq

/-- The loop over the declared columns collects their names. -/
def validateColumns : List GeneratedColumn → List String → Except ConfigError (List String)
  | [], declared => .ok declared
  | column :: rest, declared => do
    validateGeneratedColumn column
    validateColumns rest (declared ++ [column.name])

/-- The loop over the declared indexes. -/
def validateIndexes (declared : List String) : List Index → Except ConfigError Unit
  | [] => .ok ()
  | index :: rest => do
    validateIndex index declared
    validateIndexes declared rest

/-- `_validate_config`. -/
def validateConfig (rendering : Rendering) (configuration : Configuration) :
    Except ConfigurationError Unit := do
  (validateChangelogTemplate rendering configuration.changelogTopicTemplate).mapError .template
  if configuration.poolSize < 1 then .error (.poolSize configuration.poolSize)
  else if configuration.busyTimeout ≤ 0 then .error (.busyTimeout configuration.busyTimeout)
  else if configuration.rehydrateTimeout ≤ 0 then
    .error (.rehydrateTimeout configuration.rehydrateTimeout)
  else if configuration.acks.getD (.number 1) ∈ [.number 0, .text "0"] then .error .acks
  else do
    let declared ← (validateColumns configuration.generatedColumns []).mapError .declaration
    (validateIndexes declared configuration.indexes).mapError .declaration

/-- A check whose result the next one reads. -/
theorem exists_of_bind_eq_ok {Failure First Second : Type} {first : Except Failure First}
    {second : First → Except Failure Second} {result : Second}
      (hboth : first >>= second = .ok result) :
    ∃ value, first = .ok value ∧ second value = .ok result := by
  cases first with
  | error failure => cases hboth
  | ok value => exact ⟨value, rfl, hboth⟩

/-- An error is replaced only where there is one. -/
theorem eq_ok_of_mapError {Failure Replaced Value : Type} {change : Failure → Replaced}
    {result : Except Failure Value} {value : Value} (hok : result.mapError change = .ok value) :
    result = .ok value := by
  cases result with
  | error failure => cases hok
  | ok found =>
    cases hok
    rfl

theorem validateColumns_eq_ok {columns : List GeneratedColumn} {declared names : List String}
    (hcolumns : validateColumns columns declared = .ok names) :
    names = declared ++ columns.map GeneratedColumn.name ∧
      ∀ column ∈ columns, validateGeneratedColumn column = .ok () := by
  induction columns generalizing declared with
  | nil =>
    cases hcolumns
    exact ⟨(List.append_nil _).symm, by simp⟩
  | cons column rest ih =>
    obtain ⟨_, hcolumn, hrest⟩ := exists_of_bind_eq_ok hcolumns
    obtain ⟨hnames, hvalid⟩ := ih hrest
    exact ⟨by rw [hnames, List.append_assoc]; rfl, List.forall_mem_cons.mpr ⟨hcolumn, hvalid⟩⟩

theorem validateIndexes_eq_ok {declared : List String} {indexes : List Index}
    (hindexes : validateIndexes declared indexes = .ok ()) :
    ∀ index ∈ indexes, validateIndex index declared = .ok () := by
  induction indexes with
  | nil => simp
  | cons index rest ih =>
    obtain ⟨_, hindex, hrest⟩ := exists_of_bind_eq_ok hindexes
    exact List.forall_mem_cons.mpr ⟨hindex, ih hrest⟩

/-- Every column and every index of an accepted configuration was checked. -/
theorem validateConfig_eq_ok {rendering : Rendering} {configuration : Configuration}
    (hvalid : validateConfig rendering configuration = .ok ()) :
    (∀ column ∈ configuration.generatedColumns, validateGeneratedColumn column = .ok ()) ∧
      ∀ index ∈ configuration.indexes,
        validateIndex index (configuration.generatedColumns.map GeneratedColumn.name) = .ok () := by
  obtain ⟨_, _, hrest⟩ := exists_of_bind_eq_ok hvalid
  split_ifs at hrest
  obtain ⟨declared, hcolumns, hindexes⟩ := exists_of_bind_eq_ok hrest
  obtain ⟨rfl, hcolumn⟩ := validateColumns_eq_ok (eq_ok_of_mapError hcolumns)
  exact ⟨hcolumn, validateIndexes_eq_ok (eq_ok_of_mapError hindexes)⟩

end KSQLite.Schema
