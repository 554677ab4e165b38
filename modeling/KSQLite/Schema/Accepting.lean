import KSQLite.Schema.Configuration
import KSQLite.Schema.Established

/-!
# Accepted configurations that migrate

Whether an empty database can be migrated depends on relations between all declared names: SQLite
refuses a column whose name is taken in any spelling, an index without columns, and an index that
has the name of a table; and a migration refuses an index that is declared twice, in one spelling,
with two shapes. None of this is checked before, so an accepted configuration migrates exactly
where its declarations are `Migratable` (`accepted_migrates_iff`).
-/

set_option autoImplicit false
set_option relaxedAutoImplicit false

namespace KSQLite.Schema

open KSQLite.Log
open KSQLite.Naming (Rendering)
open KSQLite.Suspension
open KSQLite.Store (Database Row)

/-- A database without rows. -/
abbrev NoRows (database : Database) : Prop := database.records = []

section Conditions

variable (platform : Platform)

/-- Columns that can be added to a table with columns of some names, one after another: SQLite does
not refuse the statement, and the name is not taken. -/
def Addable : List String → List GeneratedColumn → Prop
  | _, [] => True
  | names, column :: rest =>
    platform.refusal names.length (emitAddColumn column) = none ∧
      fold column.name ∉ names.map fold ∧ Addable (names ++ [column.name]) rest

/-- An index that can be created, unless its name is taken by another index: it has columns, SQLite
does not refuse the statement, and its name is neither reserved nor that of a table or of the view.
-/
def Creatable (width : ℕ) (index : Index) : Prop :=
  index.columns ≠ [] ∧ platform.refusal width (emitCreateIndex index) = none ∧
    ¬ IsReserved index.name ∧ ∀ object : Object, fold object.name ≠ index.key

/-- Indexes that can be declared beside some that are held, one after another: an index that is held
under exactly the declared name has the declared shape, and otherwise the declared one can be
created. -/
def Declarable (width : ℕ) : List Index → List Index → Prop
  | _, [] => True
  | held, index :: rest =>
    (∀ other ∈ held, other.name = index.name → other.SameShape index) ∧
      ((∀ other ∈ held, other.name ≠ index.name) → Creatable platform width index) ∧
      Declarable width (insertNew Index.key held index) rest

/-- Declarations that an empty database can be migrated to. -/
def Migratable (columns : List GeneratedColumn) (indexes : List Index) : Prop :=
  Addable platform systemColumns columns ∧
    Declarable platform (systemColumns.length + columns.length) (autoIndex :: baseIndexes) indexes

end Conditions

section Runs

variable {platform : Platform} {catalog : Catalog} {columns : List GeneratedColumn}
  {indexes : List Index}

/-- The loop over declared columns that are new adds them exactly where they can be added. -/
theorem exists_reconciled_iff {existing : List String} {schema : String}
    (hrecords : .records ∈ catalog.objects) (hnew : ∀ column ∈ columns, column.name ∉ existing) :
    (∃ after, reconciled platform existing schema columns catalog = .ok after) ↔
      Addable platform catalog.columnNames columns := by
  induction columns generalizing catalog with
  | nil => exact iff_of_true ⟨catalog, rfl⟩ trivial
  | cons column rest ih =>
    obtain ⟨hcolumn, hrest⟩ := List.forall_mem_cons.mp hnew
    rw [reconciled, if_neg hcolumn, Addable]
    cases hadd : catalog.addColumn platform column with
    | ok after =>
      obtain ⟨hrefusal, _, hfresh, rfl⟩ := Catalog.addColumn_eq_ok.mp hadd
      have hnames : (catalog.withColumn column hfresh).columnNames =
          catalog.columnNames ++ [column.name] := by
        simp [Catalog.columnNames, Catalog.withColumn]
      have hstill : .records ∈ (catalog.withColumn column hfresh).objects := hrecords
      rw [← hnames]
      exact (ih hstill hrest).trans ⟨fun haddable ↦ ⟨hrefusal, hfresh, haddable⟩,
        fun hall ↦ hall.2.2⟩
    | error message =>
      refine iff_of_false ?_ ?_
      · rintro ⟨_, hafter⟩
        cases hafter
      · rintro ⟨hrefusal, hfresh, _⟩
        have hadded := Catalog.addColumn_eq_ok.mpr ⟨hrefusal, hrecords, hfresh, rfl⟩
        rw [hadd] at hadded
        cases hadded

/-- It adds them behind the columns that are there. -/
theorem columnNames_of_reconciled {existing : List String} {schema : String} {after : Catalog}
    (hnew : ∀ column ∈ columns, column.name ∉ existing)
    (hafter : reconciled platform existing schema columns catalog = .ok after) :
    after.columnNames = catalog.columnNames ++ columns.map GeneratedColumn.name := by
  induction columns generalizing catalog with
  | nil =>
    cases hafter
    exact (List.append_nil _).symm
  | cons column rest ih =>
    obtain ⟨hcolumn, hrest⟩ := List.forall_mem_cons.mp hnew
    rw [reconciled, if_neg hcolumn] at hafter
    cases hadd : catalog.addColumn platform column with
    | ok between =>
      obtain ⟨_, _, hfresh, rfl⟩ := Catalog.addColumn_eq_ok.mp hadd
      rw [hadd] at hafter
      rw [ih hrest hafter]
      simp [Catalog.columnNames, Catalog.withColumn]
    | error message =>
      rw [hadd] at hafter
      cases hafter

/-- The tables and the view of every store. -/
theorem forall_object {holds : Object → Prop}
    (hobjects : catalog.objects = {.records, .checkpoint, .owned, .view}) :
    (∀ object ∈ catalog.objects, holds object) ↔ ∀ object, holds object := by
  constructor
  · intro hall object
    refine hall object ?_
    rw [hobjects]
    cases object <;> simp
  · exact fun hall object _ ↦ hall object

/-- Over no rows a declared index is created exactly when it can be. -/
theorem creatable_iff {index : Index}
    (hobjects : catalog.objects = {.records, .checkpoint, .owned, .view})
    (hcolumns : ∀ column ∈ index.columns, column ∈ catalog.columnNames) :
    (∃ after, catalog.createDeclaredIndex platform [] index = .ok after) ↔
      Creatable platform catalog.width index := by
  have hrecords : .records ∈ catalog.objects := by
    rw [hobjects]
    simp
  have huntaken : (¬ ∃ object ∈ catalog.objects, fold object.name = index.key) ↔
      ∀ object : Object, fold object.name ≠ index.key := by
    rw [← forall_object hobjects]
    push Not
    rfl
  have hbuild : platform.build catalog.columns [] index = .ok () := by
    refine Platform.build_eq_ok (fun row hrow ↦ absurd hrow List.not_mem_nil) ?_
    rintro _ entries ⟨⟩
    exact List.nodup_nil
  constructor
  · rintro ⟨after, hafter⟩
    obtain ⟨hrefusal, hcreated⟩ := Catalog.createDeclaredIndex_eq_ok.mp hafter
    obtain ⟨hne, _, hobject, _, hname, _⟩ := (Catalog.createIndex_eq_ok hcolumns).mp hcreated
    exact ⟨hne, hrefusal, hname, huntaken.mp hobject⟩
  · rintro ⟨hne, hrefusal, hname, hobject⟩
    exact ⟨_, Catalog.createDeclaredIndex_eq_ok.mpr ⟨hrefusal,
      (Catalog.createIndex_eq_ok hcolumns).mpr
      ⟨hne, hrecords, huntaken.mpr hobject, fun _ ↦ hbuild, hname, rfl⟩⟩⟩

/-- Over no rows the loop over the declared indexes returns exactly where they can be declared. -/
theorem holds_declarable {database : Database}
    (hobjects : catalog.objects = {.records, .checkpoint, .owned, .view})
    (hcolumns : ∀ index ∈ indexes, ∀ column ∈ index.columns, column ∈ catalog.columnNames)
    (hempty : database.records = []) :
    Holds (environment platform fun _ _ ↦ False) (fun _ _ ↦ True)
      (fun outcome _ ↦ outcome = .returned () ↔
        Declarable platform catalog.width catalog.allIndexes indexes)
      (reconcileIndexes indexes) ⟨catalog, database⟩ := by
  induction indexes generalizing catalog database with
  | nil => exact iff_of_true rfl trivial
  | cons index rest ih =>
    obtain ⟨hindex, hrest⟩ := List.forall_mem_cons.mp hcolumns
    have hstays : ∀ before after : Database, False → NoRows before → NoRows after :=
      fun _ _ ↦ False.elim
    refine holds_bind.mpr (holds_reconcileIndex hstays hempty (fun _ _ _ _ ↦ trivial) ?_ ?_)
    · intro other hother hname database hdatabase
      have htaken : index.key ∈ catalog.allIndexes.map Index.key :=
        List.mem_map.mpr ⟨other, hother, congrArg fold hname⟩
      by_cases hsame : other.SameShape index
      · rw [if_pos hsame]
        refine (ih hobjects hrest hdatabase).mono (fun _ _ htrue ↦ htrue)
          fun outcome final hends ↦ ?_
        rw [hends, Declarable, insertNew_of_mem htaken]
        refine ⟨fun hdeclarable ↦ ⟨?_, ?_, hdeclarable⟩, fun hall ↦ hall.2.2⟩
        · intro found hfound hfoundName
          rwa [Catalog.eq_of_key_eq hfound hother (congrArg fold (hfoundName.trans hname.symm))]
        · exact fun hnone ↦ absurd hname (hnone other hother)
      · rw [if_neg hsame]
        exact iff_of_false nofun fun hall ↦ hsame (hall.1 other hother hname)
    · intro hnone database hdatabase
      have hrows : database.records = [] := hdatabase
      rw [hrows]
      refine ⟨trivial, fun after hafter ↦ ?_, fun message hmessage ↦ ?_⟩
      · have hcreatable := (creatable_iff hobjects hindex).mp ⟨after, hafter⟩
        obtain ⟨_, hcreated⟩ := Catalog.createDeclaredIndex_eq_ok.mp hafter
        obtain ⟨_, _, _, _, hname, rfl⟩ := (Catalog.createIndex_eq_ok hindex).mp hcreated
        have hstill : (catalog.withIndex index hname).objects =
            {.records, .checkpoint, .owned, .view} := hobjects
        refine (ih hstill hrest hdatabase).mono (fun _ _ htrue ↦ htrue) fun outcome final hends ↦ ?_
        rw [hends, Catalog.allIndexes_withIndex, Declarable]
        refine ⟨fun hdeclarable ↦ ⟨?_, fun _ ↦ hcreatable, hdeclarable⟩, fun hall ↦ hall.2.2⟩
        exact fun other hother hname ↦ absurd hname (hnone other hother)
      · refine iff_of_false nofun fun hall ↦ ?_
        obtain ⟨after, hafter⟩ := (creatable_iff hobjects hindex).mpr (hall.2.1 hnone)
        rw [hmessage] at hafter
        cases hafter

/-- Validated declarations migrate an empty database exactly where they are migratable. -/
theorem returned_iff_migratable
    (hcolumns : ∀ column ∈ columns, validateGeneratedColumn column = .ok ())
    (hindexes : ∀ index ∈ indexes,
      validateIndex index (columns.map GeneratedColumn.name) = .ok ()) :
    (run platform (migrate platform columns indexes) .empty).outcome = .returned () ↔
      Migratable platform columns indexes := by
  have hnew (column : GeneratedColumn) (hcolumn : column ∈ columns) :
      column.name ∉ Catalog.empty.columnNames :=
    (validateGeneratedColumn_eq_ok.mp (hcolumns column hcolumn)).fresh
  have haddable : (∃ after, reconciled platform Catalog.empty.columnNames
      (storedSchema Catalog.empty.columns) columns Catalog.empty.prepared = .ok after) ↔
        Addable platform systemColumns columns :=
    exists_reconciled_iff Catalog.empty.mem_prepared hnew
  have hstays : ∀ before after : Database, False → NoRows before → NoRows after :=
    fun _ _ ↦ False.elim
  have hdelete (database : Database) (hdatabase : NoRows database) :
      NoRows database.deleteAllOwned := hdatabase
  have hholds : Holds (environment platform fun _ _ ↦ False) (fun _ _ ↦ True)
      (fun outcome _ ↦ outcome = .returned () ↔ Migratable platform columns indexes)
      (migrate platform columns indexes) .empty := by
    refine holds_migrate hstays hstays hdelete rfl (fun _ _ _ _ _ _ ↦ trivial)
      (fun _ _ _ _ _ _ _ _ _ ↦ trivial) (fun _ _ _ _ ↦ trivial) ?_ ?_
    · intro after hafter database hdatabase
      obtain ⟨hobjects, hsame, _⟩ := reconciled_eq_ok hafter
      have hall : after.allIndexes = autoIndex :: baseIndexes := by
        unfold Catalog.allIndexes
        rw [hobjects, hsame]
        decide +kernel
      have hwidth : after.width = systemColumns.length + columns.length := by
        rw [Catalog.width, columnNames_of_reconciled hnew hafter, List.length_append,
          List.length_map]
        rfl
      refine (holds_declarable (hobjects.trans Catalog.empty.prepared_objects)
        (known_of_reconciled hindexes hafter) hdatabase).mono (fun _ _ htrue ↦ htrue)
        fun outcome final hends ↦ ?_
      rw [hends, hall, hwidth]
      exact ⟨fun hdeclarable ↦ ⟨haddable.mp ⟨after, hafter⟩, hdeclarable⟩, And.right⟩
    · intro error herror storage
      refine iff_of_false nofun fun hmigratable ↦ ?_
      obtain ⟨after, hafter⟩ := haddable.mpr hmigratable.1
      rw [herror] at hafter
      cases hafter
  exact (run_of_holds hholds).1

end Runs

/-- The migration of an empty database to an accepted configuration fails over no declaration
exactly where the declarations are migratable. -/
theorem accepted_migrates_iff (platform : Platform) {rendering : Rendering}
    {configuration : Configuration} (hvalid : validateConfig rendering configuration = .ok ()) :
    (∀ error, (run platform (migrate platform configuration.generatedColumns configuration.indexes)
        .empty).outcome = .raised error → ¬ error.OverDeclared) ↔
      Migratable platform configuration.generatedColumns configuration.indexes := by
  obtain ⟨hcolumns, hindexes⟩ := validateConfig_eq_ok hvalid
  rw [← returned_iff_migratable hcolumns hindexes]
  obtain ⟨trace, hsteps⟩ : ∃ trace, Steps (environment platform fun _ _ ↦ False)
      (migrate platform configuration.generatedColumns configuration.indexes) .empty trace _ _ :=
    steps_run _ _
  rcases (holds_migrate_ends hindexes).outcome hsteps with ⟨hreturned, _⟩ | ⟨error, hraised, hover⟩
  · refine iff_of_true (fun error hraised ↦ ?_) hreturned
    rw [hreturned] at hraised
    cases hraised
  · refine iff_of_false (fun hnone ↦ hnone error hraised hover) fun hreturned ↦ ?_
    rw [hraised] at hreturned
    cases hreturned

/-- A configuration with some declarations, and the defaults of a store besides. -/
def declaring (columns : List GeneratedColumn) (indexes : List Index) : Configuration where
  changelogTopicTemplate := "\x7bsource_topic\x7d.p\x7bpartition\x7d.changelog"
  poolSize := 16
  busyTimeout := 5
  rehydrateTimeout := 30
  acks := none
  generatedColumns := columns
  indexes := indexes

theorem accepted_migrates_iff_status :
    Migratable lenient [status "$.a"] [⟨"ix_status", ["status"], false⟩] := by
  have hvalid : validateConfig (fun _ _ ↦ .ok [])
      (declaring [status "$.a"] [⟨"ix_status", ["status"], false⟩]) = .ok () := by decide +kernel
  refine (accepted_migrates_iff lenient hvalid).mp fun error hraised ↦ ?_
  have hreturned : (run lenient (migrate lenient [status "$.a"] [⟨"ix_status", ["status"], false⟩])
      .empty).outcome = .returned () := by decide +kernel
  exact absurd (hreturned.symm.trans hraised) nofun

/-- A configuration is accepted, and does not migrate a new database. -/
def AcceptedInVain (configuration : Configuration) : Prop :=
  validateConfig (fun _ _ ↦ .ok []) configuration = .ok () ∧
    ∃ error, (run lenient (migrate lenient configuration.generatedColumns configuration.indexes)
      .empty).outcome = .raised error ∧ error.OverDeclared

/-- Accepted configurations that do not migrate: a column that is a system column in another
spelling, a column that is declared twice, an index without columns, and an index declared with two
shapes. -/
theorem accepted_fails :
    AcceptedInVain (declaring [⟨"MESSAGE_ID", "$.a", "TEXT"⟩] []) ∧
      AcceptedInVain (declaring [status "$.a", status "$.a"] []) ∧
      AcceptedInVain (declaring [] [⟨"ix", [], false⟩]) ∧
      AcceptedInVain (declaring [] [⟨"ix", ["payload"], false⟩, ⟨"ix", ["payload"], true⟩]) := by
  refine ⟨?_, ?_, ?_, ?_⟩
  · exact ⟨by decide +kernel, .migrationFailed (emitAddColumn ⟨"MESSAGE_ID", "$.a", "TEXT"⟩),
      by decide +kernel, trivial⟩
  · exact ⟨by decide +kernel, .migrationFailed (emitAddColumn (status "$.a")), by decide +kernel,
      trivial⟩
  · exact ⟨by decide +kernel, .migrationFailed (emitCreateIndex ⟨"ix", [], false⟩),
      by decide +kernel,
      trivial⟩
  · exact ⟨by decide +kernel, .config (.indexDrift ⟨"ix", ["payload"], true⟩ ["payload"] false),
      by decide +kernel, trivial⟩

end KSQLite.Schema
